import Billing.Completion.Context
import Billing.Http.MediaType
import Billing.Http.Target
import Billing.Text.Blank

/-!
# Requests

A request with its headers. A header whose value is not plain text counts as absent.
-/

namespace Billing.Http

open Completion (AuditNote)

/-- The methods of requests. -/
inductive Method where
  | get
  | head
  | post
  | put
  | delete
  | other
  deriving DecidableEq

/-- The method of a name. -/
def Method.ofName : String → Method
  | "GET" => .get
  | "HEAD" => .head
  | "POST" => .post
  | "PUT" => .put
  | "DELETE" => .delete
  | _ => .other

/-- A request. -/
structure Request where
  method : Method
  target : Target
  headers : List (String × String)
  body : String
  deriving DecidableEq

namespace Request

/-- A header may be sent: its name is a name, and no control character but a tab is in its value. -/
def isSendable (header : String × String) : Bool :=
  header.1 != "" && header.1.toList.all MediaType.isNameChar
    && header.2.toList.all fun c => c == '\t' || MediaType.isQuotable c

/-- The request with the given parts, if they may be sent. -/
def ofParts? (method target : String) (headers : List (String × String)) (body : String) :
    Option Request := do
  let target ← Target.parse? target
  if method ≠ "" ∧ method.toList.all MediaType.isNameChar ∧ headers.all isSendable then
    some ⟨.ofName method, target, headers, body⟩
  else none

/-- The characters of plain text. -/
def isPlain (c : Char) : Bool := c == '\t' || (32 ≤ c.toNat && c.toNat < 127)

/-- The value of the first header of a name, if it is plain text. -/
def header? (q : Request) (name : String) : Option String :=
  match q.headers.find? fun h => Text.sameIgnoringCase h.1 name with
  | some (_, value) => if value.toList.all isPlain then some value else none
  | none => none

/-- What a header says, without the blanks around it; a blank header says nothing. -/
def says? (q : Request) (name : String) : Option String :=
  (q.header? name).bind fun value =>
    if Text.allBlank value then none else some (Text.trim value)

/-- Who sends a request and why, as far as its headers say. -/
def note (q : Request) : AuditNote :=
  ⟨q.says? "x-created-by", q.says? "x-reason", q.says? "x-comment"⟩

/-- The token under which a request is made, as far as its headers say. -/
def requestId? (q : Request) : Option String := q.says? "x-request-id"

/-- The body is said to be JSON. -/
def hasJson (q : Request) : Bool :=
  ((q.header? "content-type").bind MediaType.parse?).any MediaType.isJson

end Request

end Billing.Http
