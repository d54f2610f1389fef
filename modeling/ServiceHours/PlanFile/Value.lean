/-!
# Values of plan files

What a plan file holds, in either format, as far as plans need to tell values apart.
-/

namespace ServiceHours.PlanFile

/-- A value of a plan file. -/
inductive Value
  | null
  | flag (value : Bool)
  | integer (value : Int)
  /-- A scalar that no plan uses: a fraction, a date, a time. -/
  | other
  /-- A text; without content when its escapes stand for no characters. -/
  | text (content : Option String)
  | list (items : List Value)
  /-- Named values in the order of the file. -/
  | record (fields : List (Option String × Value))
deriving Inhabited

end ServiceHours.PlanFile
