import Billing.ControlTag
import Billing.Http.Request
import Billing.Http.Response
import Billing.Json.Lexer
import Billing.Json.Reader
import Billing.Store.Records

/-!
# Forms

What the bodies of requests hold. A body that is not said to be JSON is not read, nor is one that is
too long; one that is no JSON and one of another shape are told apart.
-/

namespace Billing.Http

open Json (Reader)
open Json.Reader (Field)

/-- The tags of a body, as they are listed. -/
def tagList : Reader (List ControlTag) := .list (.named ControlTag.ofName?)

/-- The body that creates an account. -/
def newAccountForm : Reader NewAccount :=
  .record
    [.required "name" .string fun name n => { n with name },
      .defaulted "utcOffsetMinutes" (.integer (-2147483648) 2147483647)
        fun utcOffsetMinutes n => { n with utcOffsetMinutes },
      .defaulted "controlTags" tagList fun tags n => { n with tags := .ofList tags },
      .defaulted "paymentMethod" .boolean fun paymentMethod n => { n with paymentMethod }]
    ⟨"", 0, .empty, true⟩

/-- The body that replaces tags. -/
def tagsForm : Reader (List ControlTag) :=
  .record [.required "controlTags" tagList fun tags _ => tags] []

/-- What is asked for when a subscription is created. -/
structure NewSubscription where
  account : String
  plan : String
  deriving DecidableEq

/-- The body that creates a subscription. -/
def newSubscriptionForm : Reader NewSubscription :=
  .record
    [.required "accountId" .string fun account n => { n with account },
      .required "planName" .string fun plan n => { n with plan }]
    ⟨"", ""⟩

/-- The body that changes a plan. -/
def planForm : Reader String :=
  .record [.required "planName" .string fun plan _ => plan] ""

/-- The greatest length of a body that is read, in bytes. -/
def maxBodyLength : Nat := 2097152

/-- Reads the body of a request. -/
def Request.form {α : Type} (q : Request) (form : Reader α) : Except Response α :=
  if !q.hasJson then .error (.remark 415 "the body is not said to be JSON")
  else if maxBodyLength < q.body.utf8ByteSize then .error (.remark 413 "the body is too long")
  else
    match form.run (Json.lex q.body) with
    | .ok a => .ok a
    | .error .malformed => .error (.remark 400 "the body is no JSON")
    | .error .mismatch => .error (.remark 422 "the body has another shape")

end Billing.Http
