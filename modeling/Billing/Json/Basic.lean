import Billing.Json.Token

/-!
# JSON values

Trees of JSON values. An object is a list of members in the order in which they are written.
-/

namespace Billing

/-- A JSON value. -/
inductive Json where
  | null
  | boolean (value : Bool)
  | number (value : Json.Number)
  | string (value : String)
  | array (items : List Json)
  | object (members : List (String × Json))

namespace Json

instance : Inhabited Json := ⟨.null⟩

/-- The whole number `n`. -/
def int (n : Int) : Json := .number (.integer n)

/-- A value that may be absent, written as null. -/
def optional {α : Type} (f : α → Json) : Option α → Json
  | some a => f a
  | none => .null

/-- The value of the first member with a key. -/
def field? (key : String) : Json → Option Json
  | .object ms => (ms.find? fun m => m.1 == key).map (·.2)
  | _ => none

/-! ## Writing -/

mutual

/-- The tokens of a value. -/
def tokens : Json → List Token
  | .null => [.null]
  | .boolean b => [.boolean b]
  | .number n => [.number n]
  | .string s => [.string s]
  | .array items => .openBracket :: itemTokens items
  | .object members => .openBrace :: memberTokens members

/-- The tokens of the items of an array, with the closing bracket. -/
def itemTokens : List Json → List Token
  | [] => [.closeBracket]
  | [v] => v.tokens ++ [.closeBracket]
  | v :: vs => v.tokens ++ .comma :: itemTokens vs

/-- The tokens of the members of an object, with the closing brace. -/
def memberTokens : List (String × Json) → List Token
  | [] => [.closeBrace]
  | [(k, v)] => .string k :: .colon :: v.tokens ++ [.closeBrace]
  | (k, v) :: ms => .string k :: .colon :: v.tokens ++ .comma :: memberTokens ms

end

/-- The text of a value, without blanks. -/
def text (v : Json) : String := String.ofList (v.tokens.flatMap Token.chars)

/-! ## Members -/

/-- Sets the value of a key: in place if the key is there, else at the end. -/
def setMember (key : String) (value : Json) : List (String × Json) → List (String × Json)
  | [] => [(key, value)]
  | (k, v) :: ms => if k = key then (k, value) :: ms else (k, v) :: setMember key value ms

mutual

/-- The value in which a repeated key keeps its last value only. -/
def merged : Json → Json
  | .array items => .array (mergedItems items)
  | .object members => .object (mergedMembers [] members)
  | v => v

/-- The items of an array, each merged. -/
def mergedItems : List Json → List Json
  | [] => []
  | v :: vs => v.merged :: mergedItems vs

/-- The members of an object, added one by one to those that stand already. -/
def mergedMembers (done : List (String × Json)) : List (String × Json) → List (String × Json)
  | [] => done
  | (k, v) :: ms => mergedMembers (setMember k v.merged done) ms

end

end Json

end Billing
