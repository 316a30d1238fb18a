import Billing.Calendar.DateReader
import Billing.Http.Request
import Billing.Http.Response
import Billing.Json.Reader
import Billing.Text.Decimal
import Billing.Text.Percent
import Billing.Text.Pieces

/-!
# Queries

The parameters after the question mark, and what those of a command say. Parameters stand between
ampersands; a plus sign stands for a blank, and a percent sign may stand for a byte.
-/

namespace Billing.Http

/-- The parameters of a query in order: names with values. A text that is no UTF-8 is left out. -/
abbrev Query := List (Option String × Option String)

/-- The text that a name or a value stands for. -/
def decodeParameter? (cs : List Char) : Option String :=
  Text.percentDecode? (cs.map fun c => if c = '+' then ' ' else c)

/-- The parameters of a query. -/
def Query.ofText (s : String) : Query :=
  ((Text.pieces '&' s.toList).filter (· ≠ [])).map fun p =>
    let (name, value) := Text.cut '=' p
    (decodeParameter? name, decodeParameter? value)

/-- What the only parameter of a name is read as, if there is one; fails if there are more, or if
it cannot be read. -/
def Query.read? {α : Type} (q : Query) (name : String) (read : String → Option α) :
    Option (Option α) :=
  match q.filter fun p => p.1 = some name with
  | [] => some none
  | [p] => (p.2.bind read).map some
  | _ => none

/-- Reads a truth value. -/
def readBoolean? (s : String) : Option Bool :=
  if s = "true" then some true else if s = "false" then some false else none

/-- Reads a number of seconds. -/
def readSeconds? (s : String) : Option Nat := (Text.readWhole Text.maxWord s.toList).toOption

/-- What a caller asks for besides the command. -/
structure Options where
  /-- The answer is to wait until the billing has settled. -/
  completing : Bool
  /-- The longest wait, in seconds. -/
  timeout : Option Nat
  /-- When the command is to take effect. -/
  date : Option Date
  deriving DecidableEq

namespace Options

/-- Nothing is asked for. -/
def none : Options := ⟨false, .none, .none⟩

/-- The longest wait for most commands, in seconds, unless another is asked for. -/
def defaultTimeout : Nat := 3

/-- The longest wait for a cancellation, in seconds, unless another is asked for. -/
def defaultCancelTimeout : Nat := 5

/-- The longest wait, given the one that holds if none is asked for. -/
def timeoutOr (o : Options) (fallback : Nat) : Nat := o.timeout.getD fallback

/-- Reads the options from a query. -/
def ofQuery? (q : Query) : Option Options := do
  let completing ← q.read? "callCompletion" readBoolean?
  let timeout ← q.read? "callTimeoutSec" readSeconds?
  let date ← q.read? "requestedDate" Date.parse?
  some ⟨completing.getD false, timeout, date⟩

/-- The options as a record. -/
def form : Json.Reader Options :=
  .record
    [.defaulted "callCompletion" .boolean fun completing o => { o with completing },
      .nullable "callTimeoutSec" (.integer 0 Text.maxWord)
        fun timeout o => { o with timeout := timeout.map Int.toNat },
      .nullable "requestedDate" (.parsed Date.parse?) fun date o => { o with date }]
    .none

end Options

/-- Reads the options of a request. -/
def Request.options (q : Request) : Except Response Options :=
  match Options.ofQuery? (.ofText q.target.query) with
  | some o => .ok o
  | none => .error (.remark 400 "the query cannot be read")

end Billing.Http
