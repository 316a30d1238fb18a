import Billing.Http.Exchange
import Billing.Proofs.Service.Steady

/-!
# Whose account a demand bears

Whatever a request asks for, the call is given the account that the command is about as the records
stand when it is submitted.
-/

namespace Billing.Http

open Service (Command Flight System)

variable {q : Request} {raw : String} {s : System} {d : Demand}

theorem accountOf_ok {id : SubscriptionId} {account : AccountId}
    (h : accountOf s id = .ok account) :
    (s.store.subscription? id).map (·.account) = some account := by
  unfold accountOf at h
  split at h
  · rename_i x hx
    cases h
    rw [Command.store_subscription_ok hx]
    rfl
  · cases h

theorem demandCreation_account (h : demandCreation q = .ok d) :
    d.command.account? s.store = some d.account := by
  obtain ⟨o, _, h⟩ := Command.bind_ok h
  obtain ⟨form, _, h⟩ := Command.bind_ok h
  obtain ⟨account, _, h⟩ := Command.bind_ok h
  cases h
  rfl

theorem demandChange_account (h : demandChange raw q s = .ok d) :
    d.command.account? s.store = some d.account := by
  obtain ⟨text, _, h⟩ := Command.bind_ok h
  obtain ⟨o, _, h⟩ := Command.bind_ok h
  obtain ⟨plan, _, h⟩ := Command.bind_ok h
  obtain ⟨id, _, h⟩ := Command.bind_ok h
  obtain ⟨account, hacc, h⟩ := Command.bind_ok h
  cases h
  exact accountOf_ok hacc

theorem demandCancellation_account (h : demandCancellation raw q s = .ok d) :
    d.command.account? s.store = some d.account := by
  obtain ⟨text, _, h⟩ := Command.bind_ok h
  obtain ⟨o, _, h⟩ := Command.bind_ok h
  obtain ⟨id, _, h⟩ := Command.bind_ok h
  obtain ⟨account, hacc, h⟩ := Command.bind_ok h
  cases h
  exact accountOf_ok hacc

/-- Whatever a request asks for. -/
inductive Demanded (q : Request) (s : System) (d : Demand) : Prop where
  | creation (h : demandCreation q = .ok d)
  | change {raw : String} (h : demandChange raw q s = .ok d)
  | cancellation {raw : String} (h : demandCancellation raw q s = .ok d)

theorem Demanded.account (h : Demanded q s d) : d.command.account? s.store = some d.account := by
  cases h with
  | creation h => exact demandCreation_account h
  | change h => exact demandChange_account h
  | cancellation h => exact demandCancellation_account h

/-- A call that a request has asked for bears the account that its command is about. -/
theorem Demanded.addressed {f : Flight} {x : Completion.CallContext} (h : Demanded q f.arrival d)
    (hcontext : f.context = x.withAccount d.account) (hcommand : f.command = d.command) :
    f.Addressed :=
  ⟨d.account, by rw [hcontext]; rfl, by rw [hcommand]; exact h.account⟩

end Billing.Http
