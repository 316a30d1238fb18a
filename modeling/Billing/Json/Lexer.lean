import Billing.Json.Token

/-!
# Reading JSON tokens

Splits a text into tokens. The first part of the text that is no JSON token becomes a fault, after
which nothing is read. Reading goes on after a string in which half of a surrogate pair stands
alone, and after a number beyond the range of double precision.
-/

namespace Billing.Json

/-! ## Strings -/

/-- The value of four hexadecimal digits. -/
def fourDigits? (a b c d : Char) : Option Nat := do
  let a ← Text.hexDigit? a
  let b ← Text.hexDigit? b
  let c ← Text.hexDigit? c
  let d ← Text.hexDigit? d
  some (((a * 16 + b) * 16 + c) * 16 + d)

/-- The first half of a surrogate pair. -/
def isHighSurrogate (n : Nat) : Bool := 0xD800 ≤ n && n < 0xDC00

/-- The second half of a surrogate pair. -/
def isLowSurrogate (n : Nat) : Bool := 0xDC00 ≤ n && n < 0xE000

/-- The character that a letter stands for after a backslash. -/
def shortEscape? (c : Char) : Option Char :=
  if c = '"' ∨ c = '\\' ∨ c = '/' then some c
  else if c = 'b' then some '\x08'
  else if c = 'f' then some '\x0c'
  else if c = 'n' then some '\n'
  else if c = 'r' then some '\r'
  else if c = 't' then some '\t'
  else none

/-- What a string holds up to its closing quote: `sound` says that no surrogate stood alone. -/
structure Quoted where
  sound : Bool
  content : List Char
  rest : List Char

/-- A character in front of what a string holds. -/
def Quoted.cons (c : Char) (q : Quoted) : Quoted := { q with content := c :: q.content }

/-- Reads a string after its opening quote. -/
def readQuoted : List Char → Option Quoted
  | [] => none
  | '"' :: cs => some ⟨true, [], cs⟩
  | '\\' :: 'u' :: a :: b :: c :: d :: '\\' :: 'u' :: e :: f :: g :: h :: cs =>
    match fourDigits? a b c d with
    | none => none
    | some n =>
      match fourDigits? e f g h with
      | none => none
      | some m =>
        if isHighSurrogate n && isLowSurrogate m then
          (readQuoted cs).map (.cons (Char.ofNat (0x10000 + (n - 0xD800) * 0x400 + (m - 0xDC00))))
        else if isHighSurrogate n || isLowSurrogate n then
          (readQuoted ('\\' :: 'u' :: e :: f :: g :: h :: cs)).map fun q => { q with sound := false }
        else (readQuoted ('\\' :: 'u' :: e :: f :: g :: h :: cs)).map (.cons (Char.ofNat n))
  | '\\' :: 'u' :: a :: b :: c :: d :: cs =>
    match fourDigits? a b c d with
    | none => none
    | some n =>
      if isHighSurrogate n || isLowSurrogate n then
        (readQuoted cs).map fun q => { q with sound := false }
      else (readQuoted cs).map (.cons (Char.ofNat n))
  | '\\' :: c :: cs =>
    match shortEscape? c with
    | some e => (readQuoted cs).map (.cons e)
    | none => none
  | c :: cs => if c.toNat < 32 ∨ c = '\\' then none else (readQuoted cs).map (.cons c)

/-! ## Numbers -/

/-- The digits in front of a text, and the rest. -/
def splitDigits (cs : List Char) : List Char × List Char :=
  (cs.takeWhile Char.isDigit, cs.dropWhile Char.isDigit)

/-- The parts of a number: sign, whole part, fraction, and exponent with its sign. -/
structure Literal where
  negative : Bool
  whole : List Char
  fraction : Option (List Char)
  exponent : Option (Bool × List Char)

/-- Reads a fraction, if a point stands in front; a point needs a digit after it. -/
def readFractionPart? : List Char → Option (Option (List Char) × List Char)
  | '.' :: cs =>
    if (splitDigits cs).1.isEmpty then none else some (some (splitDigits cs).1, (splitDigits cs).2)
  | cs => some (none, cs)

/-- Reads the sign of an exponent: whether it is negative. -/
def readSign : List Char → Bool × List Char
  | '+' :: cs => (false, cs)
  | '-' :: cs => (true, cs)
  | cs => (false, cs)

/-- Reads an exponent, if its letter stands in front; the letter needs a digit after it. -/
def readExponentPart? : List Char → Option (Option (Bool × List Char) × List Char)
  | [] => some (none, [])
  | c :: cs =>
    if c = 'e' ∨ c = 'E' then
      let (negative, cs) := readSign cs
      if (splitDigits cs).1.isEmpty then none
      else some (some (negative, (splitDigits cs).1), (splitDigits cs).2)
    else some (none, c :: cs)

/-- Reads a number. A whole part of more than one digit does not start with a zero. -/
def readLiteral? (cs : List Char) : Option (Literal × List Char) := do
  let (negative, cs) := match cs with
    | '-' :: cs => (true, cs)
    | cs => (false, cs)
  let (whole, cs) := splitDigits cs
  if whole.isEmpty ∨ (whole.head? = some '0' ∧ whole.length ≠ 1) then none
  let (fraction, cs) ← readFractionPart? cs
  let (exponent, cs) ← readExponentPart? cs
  some (⟨negative, whole, fraction, exponent⟩, cs)

/-- Appends digits to a number while it stays within 64 bits, and gives back the digits left. -/
def appendDigits : Nat → List Char → Nat × List Char
  | n, [] => (n, [])
  | n, c :: cs =>
    let m := 10 * n + (c.toNat - '0'.toNat)
    if m < 0x10000000000000000 then appendDigits m cs else (n, c :: cs)

/-- The whole number of 64 bits that a literal is, if it is one. Minus zero is none. -/
def Literal.integer? (l : Literal) : Option Int :=
  if l.fraction.isSome ∨ l.exponent.isSome then none
  else
    match appendDigits 0 l.whole with
    | (n, []) => if l.negative then if 0 < n ∧ n ≤ 0x8000000000000000 then some (-n) else none else some n
    | _ => none

/-- The explicit exponent of a literal. Of one that does not fit in 64 bits the first digits are as
far beyond the range. -/
def Literal.power (l : Literal) : Int :=
  match l.exponent with
  | none => 0
  | some (negative, ds) =>
    let (n, _) := appendDigits 0 ds
    if negative then -n else n

/-- A literal as a whole number of 64 bits times a power of ten. Digits that do not fit are zeros
in the whole part, and left out in the fraction. -/
def Literal.scientific (l : Literal) : Nat × Int :=
  let fraction := l.fraction.getD []
  let (n, more) := appendDigits 0 l.whole
  let (n, rest) := appendDigits n fraction
  (n, more.length + rest.length - fraction.length + l.power)

/-- The number of double precision that a literal is read as, if it is within the range. -/
def Literal.double? (l : Literal) : Option Double :=
  let (n, power) := l.scientific
  ((Magnitude.nearest? n 1).bind fun f => f.scaled? power).map fun f => ⟨l.negative, f⟩

/-- The token of a number. -/
def Literal.token (l : Literal) : Token :=
  match l.integer? with
  | some n => .number (.integer n)
  | none =>
    match l.double? with
    | some x => .number (.double x)
    | none => .vastNumber

/-! ## Tokens -/

/-- The blanks between tokens. -/
def isSpace (c : Char) : Bool := c == ' ' || c == '\n' || c == '\r' || c == '\t'

/-- The token in front of a text that does not start with a blank, and the rest. -/
def readToken : List Char → Token × List Char
  | '\x7b' :: cs => (.openBrace, cs)
  | '\x7d' :: cs => (.closeBrace, cs)
  | '[' :: cs => (.openBracket, cs)
  | ']' :: cs => (.closeBracket, cs)
  | ':' :: cs => (.colon, cs)
  | ',' :: cs => (.comma, cs)
  | 'n' :: 'u' :: 'l' :: 'l' :: cs => (.null, cs)
  | 't' :: 'r' :: 'u' :: 'e' :: cs => (.boolean true, cs)
  | 'f' :: 'a' :: 'l' :: 's' :: 'e' :: cs => (.boolean false, cs)
  | '"' :: cs =>
    match readQuoted cs with
    | some q => (if q.sound then .string (String.ofList q.content) else .brokenString, q.rest)
    | none => (.fault, [])
  | cs =>
    match readLiteral? cs with
    | some (l, rest) => (l.token, rest)
    | none => (.fault, [])

/-- Splits a text into tokens; each takes at least one character. -/
def tokensWithin : Nat → List Char → List Token
  | 0, _ => []
  | n + 1, cs =>
    match cs.dropWhile isSpace with
    | [] => []
    | c :: cs =>
      let (t, rest) := readToken (c :: cs)
      t :: tokensWithin n rest

/-- The tokens of a text. -/
def lex (s : String) : List Token :=
  let cs := s.toList
  tokensWithin cs.length cs

end Billing.Json
