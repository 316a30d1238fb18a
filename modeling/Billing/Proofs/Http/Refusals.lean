import Billing.Http.Exchange

/-!
# Refusals

The status of a response tells whether a command took effect: whatever is refused before it does is
refused with a status that no command which took effect is answered with.
-/

namespace Billing.Http

open Completion (CallError)
open Service (Command System)

/-! ## What a response tells -/

/-- A response that says that a command took effect, though its billing may not have settled. -/
inductive Response.Affirms : Response → Prop where
  | success {r : Response} (h : 200 ≤ r.status ∧ r.status < 300) : Affirms r
  | unconfirmed {m : String} : Affirms (.failure 408 "completion_timeout" m)
  | interrupted {m : String} : Affirms (.failure 500 "interrupted" m)

/-- A response that says that nothing was done. -/
def Response.Refuses (r : Response) : Prop := 400 ≤ r.status ∧ r.status < 500 ∧ r.status ≠ 408

theorem Response.Affirms.not_refuses {r : Response} (h : r.Affirms) : ¬ r.Refuses := by
  rintro ⟨hlow, hhigh, hne⟩
  cases h with
  | success h => omega
  | unconfirmed => exact hne rfl
  | interrupted => simp [Response.failure, Response.json] at hhigh

theorem Response.refuses_failure {status : Nat} (h : 400 ≤ status ∧ status < 500 ∧ status ≠ 408)
    (code m : String) : (Response.failure status code m).Refuses := h

theorem Response.refuses_remark {status : Nat} (h : 400 ≤ status ∧ status < 500 ∧ status ≠ 408)
    (m : String) : (Response.remark status m).Refuses := h

theorem Response.refuses_ofError (e : DomainError) : (Response.ofError e).Refuses := by
  cases e <;> exact refuses_failure (by decide) _ _

theorem Response.refuses_ofCallError (e : CallError) : (Response.ofCallError e).Refuses := by
  cases e with
  | domain e => exact refuses_ofError e
  | _ => exact refuses_failure (by decide) _ _

theorem Response.affirms_json {status : Nat} (h : 200 ≤ status ∧ status < 300) (v : Json) :
    (Response.json status v).Affirms := .success h

theorem Response.affirms_ofCommand (c : Command) (x : Subscription) :
    (Response.ofCommand c x).Affirms := by
  cases c with
  | create account plan => exact affirms_json (by decide) _
  | changePlan id plan date => exact affirms_json (by decide) _
  | cancel id date => exact .success (by simp [ofCommand, bare])

theorem Response.affirms_ofCall (c : Command) (o : Completion.Outcome Subscription) :
    (Response.ofCall (.ofCommand c) (.ok o)).Affirms := by
  cases o with
  | completed x => exact affirms_ofCommand c x
  | unconfirmed => exact .unconfirmed
  | interrupted => exact .interrupted

/-! ## Parts of requests -/

/-- Whatever is answered in place of a part of a request says that nothing was done. -/
def Refusing {α : Type} (e : Except Response α) : Prop := ∀ r, e = .error r → r.Refuses

variable {α β : Type} {q : Request}

theorem Refusing.ok (a : α) : Refusing (.ok a) := fun _ h => nomatch h

theorem Refusing.error {r : Response} (h : r.Refuses) :
    Refusing (.error r : Except Response α) := by
  intro r' h'
  cases h'
  exact h

theorem Refusing.bind {e : Except Response α} {f : α → Except Response β} (he : Refusing e)
    (hf : ∀ a, Refusing (f a)) : Refusing (e >>= f) := by
  cases e with
  | error r => exact .error (he r rfl)
  | ok a => exact hf a

theorem refusing_pathText (raw : String) : Refusing (pathText raw) := by
  unfold pathText
  split
  · exact .ok _
  · exact .error (Response.refuses_remark (by decide) _)

theorem refusing_readId (k : IdKind) (what raw : String) : Refusing (readId k what raw) := by
  unfold readId
  split
  · exact .ok _
  · exact .error (Response.refuses_failure (by decide) _ _)

theorem refusing_options (q : Request) : Refusing q.options := by
  unfold Request.options
  split
  · exact .ok _
  · exact .error (Response.refuses_remark (by decide) _)

theorem refusing_form (q : Request) (form : Json.Reader α) : Refusing (q.form form) := by
  unfold Request.form
  split
  · exact .error (Response.refuses_remark (by decide) _)
  · split
    · exact .error (Response.refuses_remark (by decide) _)
    · split
      · exact .ok _
      · exact .error (Response.refuses_remark (by decide) _)
      · exact .error (Response.refuses_remark (by decide) _)

theorem refusing_accountOf (s : System) (id : SubscriptionId) : Refusing (accountOf s id) := by
  unfold accountOf
  split
  · exact .ok _
  · exact .error (Response.refuses_ofError _)

/-! ## Demands -/

/-- What an operation demands, if it is for a command. -/
def Request.demand? (q : Request) (s : System) : Operation → Option (Except Response Demand)
  | .createSubscription => some (demandCreation q)
  | .changePlan raw => some (demandChange raw q s)
  | .cancel raw => some (demandCancellation raw q s)
  | _ => none

theorem refusing_demand {s : System} {o : Operation} {e : Except Response Demand}
    (h : q.demand? s o = some e) : Refusing e := by
  cases o with
  | createSubscription =>
      cases h
      refine (refusing_options q).bind fun o => (refusing_form q _).bind fun f => ?_
      exact (refusing_readId _ _ _).bind fun account => .ok _
  | changePlan raw =>
      cases h
      refine (refusing_pathText raw).bind fun raw => (refusing_options q).bind fun o => ?_
      refine (refusing_form q _).bind fun plan => (refusing_readId _ _ _).bind fun id => ?_
      exact (refusing_accountOf s id).bind fun account => .ok _
  | cancel raw =>
      cases h
      refine (refusing_pathText raw).bind fun raw => (refusing_options q).bind fun o => ?_
      refine (refusing_readId _ _ _).bind fun id => ?_
      exact (refusing_accountOf s id).bind fun account => .ok _
  | _ => cases h

end Billing.Http
