import Billing.Json.Token

/-!
# Reading typed values

Readers take a value of a known shape from the front of a sequence of tokens. The first fault met
from the left decides: a text that is no JSON is malformed, and JSON of another shape is a
mismatch. A record may be written as an object, or as an array of its fields in order.
-/

namespace Billing.Json

/-- Why a typed value cannot be read. -/
inductive ShapeFault where
  | malformed
  | mismatch
  deriving DecidableEq

/-- Takes a value from the front of a sequence of tokens. -/
abbrev Reader (α : Type) := List Token → Except ShapeFault (α × List Token)

namespace Reader

/-- The fault of a token where a value of another kind should stand. -/
def misfit : List Token → ShapeFault
  | [] => .malformed
  | .closeBrace :: _ => .malformed
  | .closeBracket :: _ => .malformed
  | .colon :: _ => .malformed
  | .comma :: _ => .malformed
  | .vastNumber :: _ => .malformed
  | .brokenString :: _ => .malformed
  | .fault :: _ => .malformed
  | _ => .mismatch

/-! ## Scalars -/

/-- Reads a string. -/
def string : Reader String
  | .string s :: ts => .ok (s, ts)
  | ts => .error (misfit ts)

/-- Reads a truth value. -/
def boolean : Reader Bool
  | .boolean b :: ts => .ok (b, ts)
  | ts => .error (misfit ts)

/-- Reads a whole number between two bounds. -/
def integer (low high : Int) : Reader Int
  | .number (.integer n) :: ts => if low ≤ n ∧ n ≤ high then .ok (n, ts) else .error .mismatch
  | ts => .error (misfit ts)

/-- Reads a value or null. -/
def optional {α : Type} (r : Reader α) : Reader (Option α)
  | .null :: ts => .ok (none, ts)
  | ts => (r ts).map fun (a, ts) => (some a, ts)

/-- Reads a string and makes a value of it. -/
def parsed {α : Type} (parse : String → Option α) : Reader α := fun ts =>
  match string ts with
  | .error e => .error e
  | .ok (s, ts) =>
    match parse s with
    | some a => .ok (a, ts)
    | none => .error .mismatch

/-- Reads the name of a value: as a string, or as the only key of an object whose value is null. -/
def named {α : Type} (parse : String → Option α) : Reader α
  | .string s :: ts =>
    match parse s with
    | some a => .ok (a, ts)
    | none => .error .mismatch
  | .openBrace :: .string s :: ts =>
    match parse s, ts with
    | none, _ => .error .mismatch
    | some a, .colon :: .null :: .closeBrace :: ts => .ok (a, ts)
    | some _, .colon :: .null :: _ => .error .malformed
    | some _, .colon :: ts => .error (misfit ts)
    | some _, _ => .error .malformed
  | _ => .error .malformed

/-! ## Skipping -/

/-- What a value that is skipped may hold next. -/
inductive Expected where
  | value
  | itemOrClose
  | keyOrClose
  | key
  | colon
  | moreItems
  | moreMembers

/-- Skips tokens until nothing is expected any more; the list holds what is expected, in order. -/
def skipExpected : List Token → List Expected → Except ShapeFault (List Token)
  | ts, [] => .ok ts
  | [], _ => .error .malformed
  | t :: ts, e :: es =>
    let next (es : List Expected) := skipExpected ts es
    match e, t with
    | .itemOrClose, .closeBracket => next es
    | .itemOrClose, .openBracket => next (.itemOrClose :: .moreItems :: es)
    | .itemOrClose, .openBrace => next (.keyOrClose :: .moreItems :: es)
    | .itemOrClose, .null => next (.moreItems :: es)
    | .itemOrClose, .boolean _ => next (.moreItems :: es)
    | .itemOrClose, .number _ => next (.moreItems :: es)
    | .itemOrClose, .string _ => next (.moreItems :: es)
    | .itemOrClose, .vastNumber => next (.moreItems :: es)
    | .itemOrClose, .brokenString => next (.moreItems :: es)
    | .moreItems, .closeBracket => next es
    | .moreItems, .comma => next (.value :: .moreItems :: es)
    | .keyOrClose, .closeBrace => next es
    | .keyOrClose, .string _ => next (.colon :: .value :: .moreMembers :: es)
    | .keyOrClose, .brokenString => next (.colon :: .value :: .moreMembers :: es)
    | .key, .string _ => next (.colon :: .value :: .moreMembers :: es)
    | .key, .brokenString => next (.colon :: .value :: .moreMembers :: es)
    | .colon, .colon => next es
    | .moreMembers, .closeBrace => next es
    | .moreMembers, .comma => next (.key :: es)
    | .value, .openBracket => next (.itemOrClose :: es)
    | .value, .openBrace => next (.keyOrClose :: es)
    | .value, .null => next es
    | .value, .boolean _ => next es
    | .value, .number _ => next es
    | .value, .string _ => next es
    | .value, .vastNumber => next es
    | .value, .brokenString => next es
    | _, _ => .error .malformed

/-- Skips one value of any shape. -/
def skip : Reader Unit := fun ts => (skipExpected ts [.value]).map fun ts => ((), ts)

/-! ## Lists -/

/-- Reads items up to the closing bracket, the first of them without a comma in front. -/
def itemsWithin {α : Type} (r : Reader α) : Nat → Reader (List α)
  | 0, _ => .error .malformed
  | n + 1, ts =>
    match r ts with
    | .error e => .error e
    | .ok (a, .closeBracket :: ts) => .ok ([a], ts)
    | .ok (_, .comma :: .closeBracket :: _) => .error .malformed
    | .ok (a, .comma :: ts) => (itemsWithin r n ts).map fun (as, ts) => (a :: as, ts)
    | .ok _ => .error .malformed

/-- Reads a list. -/
def list {α : Type} (r : Reader α) : Reader (List α)
  | .openBracket :: .closeBracket :: ts => .ok ([], ts)
  | .openBracket :: ts => itemsWithin r ts.length ts
  | ts => .error (misfit ts)

/-! ## Records -/

/-- A field of a record: how it is read, and where it may be left out. -/
structure Field (σ : Type) where
  name : String
  /-- An object may do without the field. -/
  mayMiss : Bool
  /-- An array may end before the field. -/
  mayTrail : Bool
  read : Reader (σ → σ)

/-- Reads the members of an object from a key on, onto what the fields before have set. -/
def membersWithin {σ : Type} (fields : List (Field σ)) : Nat → List String → σ → Reader σ
  | 0, _, _, _ => .error .malformed
  | n + 1, given, s, ts =>
    match ts with
    | .string key :: ts =>
      let value : Except ShapeFault (List String × σ × List Token) :=
        match fields.find? fun f => f.name == key with
        | none =>
          match ts with
          | .colon :: ts => (skip ts).map fun (_, ts) => (given, s, ts)
          | _ => .error .malformed
        | some f =>
          if key ∈ given then .error .mismatch
          else
            match ts with
            | .colon :: ts => (f.read ts).map fun (set, ts) => (key :: given, set s, ts)
            | _ => .error .malformed
      match value with
      | .error e => .error e
      | .ok (given, s, .comma :: ts) => membersWithin fields n given s ts
      | .ok (given, s, .closeBrace :: ts) =>
        if fields.all fun f => f.mayMiss || given.contains f.name then .ok (s, ts)
        else .error .mismatch
      | .ok _ => .error .malformed
    | _ => .error .malformed

/-- Reads the fields of a record from an array after its opening bracket. -/
def fieldsInOrder {σ : Type} : List (Field σ) → Bool → σ → Reader σ
  | [], _, s, .closeBracket :: ts => .ok (s, ts)
  | [], _, _, _ => .error .malformed
  | f :: fs, _, s, .closeBracket :: ts =>
    if (f :: fs).all (·.mayTrail) then .ok (s, ts) else .error .mismatch
  | f :: fs, true, s, ts => (f.read ts).bind fun (set, ts) => fieldsInOrder fs false (set s) ts
  | _ :: _, false, _, .comma :: .closeBracket :: _ => .error .malformed
  | f :: fs, false, s, .comma :: ts =>
    (f.read ts).bind fun (set, ts) => fieldsInOrder fs false (set s) ts
  | _ :: _, false, _, _ => .error .malformed

/-- Reads a record whose fields start from the given values. -/
def record {σ : Type} (fields : List (Field σ)) (start : σ) : Reader σ
  | .openBrace :: .closeBrace :: ts =>
    if fields.all (·.mayMiss) then .ok (start, ts) else .error .mismatch
  | .openBrace :: ts => membersWithin fields ts.length [] start ts
  | .openBracket :: ts => fieldsInOrder fields true start ts
  | ts => .error (misfit ts)

/-- A field that must be given. -/
def Field.required {σ α : Type} (name : String) (r : Reader α) (set : α → σ → σ) : Field σ :=
  ⟨name, false, false, fun ts => (r ts).map fun (a, ts) => (set a, ts)⟩

/-- A field that keeps its default when it is not given. -/
def Field.defaulted {σ α : Type} (name : String) (r : Reader α) (set : α → σ → σ) : Field σ :=
  ⟨name, true, true, fun ts => (r ts).map fun (a, ts) => (set a, ts)⟩

/-- A field that may be null or, in an object, absent. -/
def Field.nullable {σ α : Type} (name : String) (r : Reader α) (set : Option α → σ → σ) : Field σ :=
  ⟨name, true, false, fun ts => (optional r ts).map fun (a, ts) => (set a, ts)⟩

end Reader

/-- The value in front of a sequence of tokens. -/
def Reader.run {α : Type} (r : Reader α) (ts : List Token) : Except ShapeFault α :=
  (r ts).map (·.1)

end Billing.Json
