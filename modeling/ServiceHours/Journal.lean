/-!
# The journal

What the program says while it works: events with a level, a message and named values, inside spans that name the
activity they belong to.

`Logged` carries a value together with the events that led to it, in the order in which they happened. It is a
lawful monad: a step's events follow those of the steps before it.
-/

namespace ServiceHours

inductive Level
  | error
  | warning
  | information
  | detail
deriving DecidableEq, Repr, Inhabited

/-- A value attached to an event or a span. -/
inductive Attribute
  | text (value : String)
  | number (value : Nat)
  | flag (value : Bool)
deriving DecidableEq, Repr, Inhabited

/-- The activity during which an event happened. -/
structure Span where
  name : String
  attributes : List (String × Attribute)
deriving DecidableEq, Repr, Inhabited

/-- One entry of the journal; its spans run from the outermost to the innermost. -/
structure Event where
  level : Level
  message : String
  attributes : List (String × Attribute)
  spans : List Span
deriving DecidableEq, Repr, Inhabited

def Event.plain (level : Level) (message : String) (attributes : List (String × Attribute)) : Event :=
  ⟨level, message, attributes, []⟩

def Event.within (span : Span) (e : Event) : Event :=
  { e with spans := span :: e.spans }

/-- A value and the events that led to it. -/
structure Logged (α : Type) where
  value : α
  events : List Event

namespace Logged

instance : Monad Logged where
  pure a := ⟨a, []⟩
  bind x f := ⟨(f x.value).value, x.events ++ (f x.value).events⟩

@[simp] theorem pure_def (a : α) : (pure a : Logged α) = ⟨a, []⟩ := rfl

@[simp] theorem bind_def (x : Logged α) (f : α → Logged β) :
    x >>= f = ⟨(f x.value).value, x.events ++ (f x.value).events⟩ := rfl

instance : LawfulMonad Logged :=
  LawfulMonad.mk' Logged
    (fun x => by simp only [Functor.map]; simp)
    (fun a f => by simp)
    (fun x f g => by simp)

def tell (events : List Event) : Logged Unit := ⟨(), events⟩

/-- Puts all events of a computation inside a span. -/
def within (span : Span) (x : Logged α) : Logged α :=
  ⟨x.value, x.events.map (Event.within span)⟩

end Logged

end ServiceHours
