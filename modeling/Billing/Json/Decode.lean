import Billing.Json.Basic

/-!
# Values of a known shape

What a tree of JSON holds if it has the shape that is asked for.
-/

namespace Billing.Json

/-- The string that a value is. -/
def string? : Json → Option String
  | .string s => some s
  | _ => none

/-- The whole number between two bounds that a value is. -/
def integer? (low high : Int) : Json → Option Int
  | .number (.integer n) => if low ≤ n ∧ n ≤ high then some n else none
  | _ => none

/-- The name that a value is: a string, or the only key of an object with the value null. -/
def name? : Json → Option String
  | .string s => some s
  | .object [(k, .null)] => some k
  | _ => none

/-- The items of a list, if every one of them has the shape. -/
def list? {α : Type} (item : Json → Option α) : Json → Option (List α)
  | .array vs => vs.mapM item
  | _ => none

/-- What a field holds, if the field is there and has the shape. -/
def required? {α : Type} (key : String) (shape : Json → Option α) (v : Json) : Option α :=
  (v.field? key).bind shape

/-- What a field holds if it is there and not null: the outer answer is none if it has another
shape. -/
def nullable? {α : Type} (key : String) (shape : Json → Option α) (v : Json) : Option (Option α) :=
  match v.field? key with
  | none => some none
  | some .null => some none
  | some x => (shape x).map some

end Billing.Json
