import Billing.Text.Ascii

/-!
# Percent-encoding

A percent sign with two hexadecimal digits after it stands for one byte. Any other percent sign
stands for itself.
-/

namespace Billing.Text

/-- The bytes that a text stands for. -/
def percentBytes : List Char → List UInt8
  | [] => []
  | '%' :: a :: b :: cs =>
    match hexDigit? a, hexDigit? b with
    | some m, some n => UInt8.ofNat (16 * m + n) :: percentBytes cs
    | _, _ => '%'.toUInt8 :: percentBytes (a :: b :: cs)
  | c :: cs => String.utf8EncodeChar c ++ percentBytes cs

/-- The text that another text stands for, if its bytes are UTF-8. -/
def percentDecode? (cs : List Char) : Option String :=
  String.fromUTF8? (percentBytes cs).toByteArray

end Billing.Text
