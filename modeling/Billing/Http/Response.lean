import Billing.Json.Basic

/-!
# Responses

A status with a body that is empty, JSON, or plain text.
-/

namespace Billing.Http

/-- What stands in a response. -/
inductive Body where
  | empty
  | json (value : Json)
  /-- A remark for people. -/
  | text (remark : String)

/-- A response. -/
structure Response where
  status : Nat
  body : Body

namespace Response

/-- A response without a body. -/
def bare (status : Nat) : Response := ⟨status, .empty⟩

/-- A response that holds a value. -/
def json (status : Nat) (value : Json) : Response := ⟨status, .json value⟩

/-- A response that holds a remark. -/
def remark (status : Nat) (text : String) : Response := ⟨status, .text text⟩

/-- A failure with a code for programs and a message for people. -/
def failure (status : Nat) (code message : String) : Response :=
  .json status (.object [("error", .string code), ("message", .string message)])

/-- The response without its body. -/
def withoutBody (r : Response) : Response := { r with body := .empty }

end Response

end Billing.Http
