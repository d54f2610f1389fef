import ServiceHours.Remote.Manager

/-!
# Deadlines

A deadline turns silence into an error. `Remote.within` puts one around every call; a call that is answered passes
through unchanged, so a deadline makes no difference to a manager that is never silent (`bounded_of_answers`).
-/

namespace ServiceHours

/-- The manager behind which the given calls find only silence. They do not reach it. -/
def Manager.silenced (silent : Call → Bool) (m : Manager σ) : Remote σ :=
  m.transform fun call answer => if silent call then pure .silence else .answer <$> answer

/-- What a call yields when nobody waits longer than the deadline, in milliseconds. -/
def Reply.within (deadline : Nat) (operation : Operation) : Reply α → Run σ (Except RemoteError α)
  | .answer result => pure result
  | .silence => do
    Run.tell [.plain .warning "resource manager call timed out"
      [("operation", .text operation.text), ("after_ms", .number deadline)]]
    return .error (.timeout operation deadline)

/-- Waits for each call no longer than the deadline. -/
def Remote.within (deadline : Nat) (r : Remote σ) : Manager σ :=
  r.transform fun call reply => do (← reply).within deadline call.operation

/-- A manager some of whose calls stay silent, under a deadline. Without a deadline there is no waiting for calls that
never come back, so all calls are passed on. -/
def Manager.bounded (deadline : Option Nat) (silent : Call → Bool) (m : Manager σ) : Manager σ :=
  match deadline with
  | some ms => (m.silenced silent).within ms
  | none => m

/-- A manager that always answers is the same under any deadline. -/
theorem Manager.bounded_of_answers (deadline : Option Nat) (m : Manager σ) :
    m.bounded deadline (fun _ => false) = m := by
  cases deadline with
  | none => rfl
  | some ms => simp [Manager.bounded, Remote.within, Manager.silenced, Interface.transform, Reply.within]

end ServiceHours
