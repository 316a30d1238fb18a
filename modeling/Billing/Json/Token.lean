import Billing.Json.Double
import Billing.Text.Ascii

/-!
# JSON tokens

A JSON text as a sequence of brackets, marks and scalar values. A text that is not well formed has
a fault in its sequence, at the place where a reader from the left meets it. Numbers and strings
that have the form of JSON but stand for nothing have tokens of their own: they do no harm where a
value is skipped.
-/

namespace Billing.Json

/-- A number: a whole number of 64 bits, or any other number in double precision. -/
inductive Number where
  | integer (value : Int)
  | double (value : Double)
  deriving DecidableEq

/-- A bracket, a mark or a scalar value. -/
inductive Token where
  | openBrace
  | closeBrace
  | openBracket
  | closeBracket
  | colon
  | comma
  | null
  | boolean (value : Bool)
  | number (value : Number)
  | string (value : String)
  /-- A number beyond the range of double precision. -/
  | vastNumber
  /-- A string in which half of a surrogate pair stands alone. -/
  | brokenString
  /-- What is no JSON. -/
  | fault
  deriving DecidableEq

/-- The four hexadecimal digits of a character below sixteen times sixteen. -/
def escapedCode (n : Nat) : List Char :=
  '\\' :: 'u' :: '0' :: '0' :: [Text.hexDigit (n / 16), Text.hexDigit (n % 16)]

/-- A character as it stands in a string: quotes, backslashes and control characters are escaped. -/
def escapeChar (c : Char) : List Char :=
  if c = '"' then ['\\', '"']
  else if c = '\\' then ['\\', '\\']
  else if c = '\n' then ['\\', 'n']
  else if c = '\r' then ['\\', 'r']
  else if c = '\t' then ['\\', 't']
  else if c = '\x08' then ['\\', 'b']
  else if c = '\x0c' then ['\\', 'f']
  else if c.toNat < 32 then escapedCode c.toNat
  else [c]

/-- A string in quotes. -/
def quote (s : String) : List Char := '"' :: (s.toList.flatMap escapeChar ++ ['"'])

/-- The characters of a number. -/
def Number.chars : Number → List Char
  | .integer n => (toString n).toList
  | .double x => x.chars

/-- The characters of a token. -/
def Token.chars : Token → List Char
  | .openBrace => ['\x7b']
  | .closeBrace => ['\x7d']
  | .openBracket => ['[']
  | .closeBracket => [']']
  | .colon => [':']
  | .comma => [',']
  | .null => "null".toList
  | .boolean true => "true".toList
  | .boolean false => "false".toList
  | .number n => n.chars
  | .string s => quote s
  | .vastNumber => []
  | .brokenString => []
  | .fault => []

end Billing.Json
