import Billing.Json.Basic
import Billing.Json.Lexer

/-!
# Reading JSON values

Builds the tree of a value from its tokens. Arrays and objects may stand inside one another up to a
limit.
-/

namespace Billing.Json

/-- How many arrays and objects may at most stand inside one another, the outermost included. -/
def maxDepth : Nat := 127

mutual

/-- Reads a value from the front of a sequence of tokens; there is room for so many arrays and
objects inside one another. -/
def readValue : Nat → Nat → List Token → Option (Json × List Token)
  | 0, _, _ => none
  | n + 1, room, ts =>
    match ts, room with
    | .null :: ts, _ => some (.null, ts)
    | .boolean b :: ts, _ => some (.boolean b, ts)
    | .number x :: ts, _ => some (.number x, ts)
    | .string s :: ts, _ => some (.string s, ts)
    | .openBracket :: .closeBracket :: ts, _ + 1 => some (.array [], ts)
    | .openBracket :: ts, room + 1 => (readItems n room ts).map fun (vs, ts) => (.array vs, ts)
    | .openBrace :: .closeBrace :: ts, _ + 1 => some (.object [], ts)
    | .openBrace :: ts, room + 1 => (readMembers n room ts).map fun (ms, ts) => (.object ms, ts)
    | _, _ => none

/-- Reads one item and more up to the closing bracket. -/
def readItems : Nat → Nat → List Token → Option (List Json × List Token)
  | 0, _, _ => none
  | n + 1, room, ts =>
    match readValue n room ts with
    | some (v, .closeBracket :: ts) => some ([v], ts)
    | some (v, .comma :: ts) => (readItems n room ts).map fun (vs, ts) => (v :: vs, ts)
    | _ => none

/-- Reads one member and more up to the closing brace. -/
def readMembers : Nat → Nat → List Token → Option (List (String × Json) × List Token)
  | 0, _, _ => none
  | n + 1, room, ts =>
    match ts with
    | .string k :: .colon :: ts =>
      match readValue n room ts with
      | some (v, .closeBrace :: ts) => some ([(k, v)], ts)
      | some (v, .comma :: ts) => (readMembers n room ts).map fun (ms, ts) => ((k, v) :: ms, ts)
      | _ => none
    | _ => none

end

/-- The value that a sequence of tokens holds and nothing else; every call takes a token. -/
def ofTokens? (ts : List Token) : Option Json :=
  match readValue (2 * ts.length) maxDepth ts with
  | some (v, []) => some v
  | _ => none

/-- The value of a text. -/
def parse? (s : String) : Option Json := ofTokens? (lex s)

end Billing.Json
