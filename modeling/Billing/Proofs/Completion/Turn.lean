import Billing.Completion.Call
import Billing.Proofs.Completion.Registry

/-!
# Turns of a call

Calls that share a registry take turns. Each turn of a call leaves the registered waiters alone, or
registers a new waiter of the call, or takes that waiter out again. Only a call that meets somebody
under its token is rejected, and a call that has ended does nothing any more.
-/

namespace Billing.Completion

variable {α : Type}

/-! ## What a turn does -/

/-- What one turn of a call can do to the call and to the registry. -/
inductive Call.Turn (c : Call α) (r : Registry) : Call α → Registry → Prop where
  /-- No waiter comes or goes, although one may be made that is refused. -/
  | keep {c' : Call α} {made : Nat} (context : c'.context = c.context)
      (waiter : c'.phase.waiter? = c.phase.waiter?) (le : r.made ≤ made) :
      Turn c r c' { r with made }
  /-- A new waiter is registered under a token that is free. -/
  | enter {c' : Call α} {w : Waiter} (context : c'.context = c.context)
      (before : c.phase.waiter? = none) (after : c'.phase.waiter? = some w)
      (token : w.token = c.context.token) (number : w.number = r.made)
      (free : r.find? w.token = none) :
      Turn c r c' ({ r with made := r.made + 1 }.onShard w.token (w :: ·))
  /-- The waiter of the call is taken out. -/
  | leave {c' : Call α} {w : Waiter} (context : c'.context = c.context)
      (before : c.phase.waiter? = some w) (after : c'.phase.waiter? = none) :
      Turn c r c' (r.unregister w.token).2

namespace Call

variable {c : Call α} {r : Registry} {now : Nat}

theorem Turn.same {c' : Call α} (context : c'.context = c.context)
    (waiter : c'.phase.waiter? = c.phase.waiter?) : c.Turn r c' r :=
  show c.Turn r c' { r with made := r.made } from .keep context waiter (Nat.le_refl _)

theorem Turn.refl : c.Turn r c r := .same rfl rfl

/-- A turn depends on the context of the call and on the waiter that it has. -/
theorem Turn.of_eq {b c' : Call α} {s : Registry} (h : b.Turn r c' s)
    (context : b.context = c.context) (waiter : b.phase.waiter? = c.phase.waiter?) :
    c.Turn r c' s := by
  cases h with
  | keep hx hw hm => exact .keep (hx.trans context) (hw.trans waiter) hm
  | enter hx hb ha ht hn hf => exact .enter (hx.trans context) (waiter ▸ hb) ha (context ▸ ht) hn hf
  | leave hx hb ha => exact .leave (hx.trans context) (waiter ▸ hb) ha

theorem Turn.context_eq {c' : Call α} {s : Registry} (h : c.Turn r c' s) :
    c'.context = c.context := by
  cases h <;> assumption

/-- A call that has no waiter before and after a turn has not touched what is registered. -/
theorem Turn.shards_eq {c' : Call α} {s : Registry} (h : c.Turn r c' s)
    (hb : c.phase.waiter? = none) (ha : c'.phase.waiter? = none) : s.shards = r.shards := by
  cases h with
  | keep => rfl
  | enter _ _ hw =>
      rw [ha] at hw
      cases hw
  | leave _ hw =>
      rw [hb] at hw
      cases hw

theorem leave_turn (e : Ending α) : c.Turn r (c.leave r now e).1 (c.leave r now e).2 := by
  unfold leave
  cases h : c.phase.waiter? with
  | none => exact .same rfl (Eq.symm h)
  | some w => exact .leave rfl h rfl

theorem start_turn (tags : Except DomainError ControlTagSet) :
    c.Turn r (c.start r now tags).1 (c.start r now tags).2 := by
  unfold start
  split
  · rename_i hp
    split
    · split
      · exact leave_turn _
      · split
        · exact leave_turn _
        · exact .same rfl (by simp [hp, Phase.waiter?])
    · exact .same rfl (by simp [hp, Phase.waiter?])
  · exact .refl

theorem enlist_turn : c.Turn r (c.enlist r now).1 (c.enlist r now).2 := by
  unfold enlist
  split
  · rename_i tags hp
    have hw : c.phase.waiter? = none := by simp [hp, Phase.waiter?]
    dsimp only [Registry.make]
    split
    · simp only [fail, leave, hw]
      exact .keep rfl (Eq.symm hw) (Nat.le_succ _)
    · rename_i s hs
      obtain ⟨hfree, rfl⟩ := Registry.register_eq_ok_iff.mp hs
      exact .enter rfl hw rfl rfl rfl hfree
  · exact .refl

theorem poll_turn : c.Turn r (c.poll r now).1 (c.poll r now).2 := by
  unfold poll
  split
  · split
    · exact leave_turn _
    · split
      · exact leave_turn _
      · split
        · exact leave_turn _
        · exact .refl
  · exact .refl

theorem conclude_turn (maxWait : Nat) (result : Except DomainError (Executed α)) :
    c.Turn r (c.conclude r now maxWait result).1 (c.conclude r now maxWait result).2 := by
  unfold conclude
  split
  · exact leave_turn _
  · exact leave_turn _
  · rename_i w x hp
    split
    · exact leave_turn _
    · -- The call begins to wait with the waiter that it has, and looks around at once.
      exact poll_turn.of_eq rfl (by simp [hp, Phase.waiter?])
  · exact .refl

theorem drop_turn : c.Turn r (c.drop r now).1 (c.drop r now).2 := by
  unfold drop
  split
  · exact .refl
  · exact leave_turn _

theorem expire_turn (moment : Nat) : c.Turn r (c.expire r moment).1 (c.expire r moment).2 := by
  unfold expire
  split
  · split
    · exact poll_turn
    · exact .refl
  · exact .refl

end Call

/-! ## Rejection -/

/-- The refusal that ended a call whose token was taken. -/
def Phase.rejection? : Phase α → Option AlreadyRegistered
  | .ended (.answered (.error (.alreadyRegistered e))) _ => some e
  | _ => none

theorem Phase.waiter?_of_rejection? {p : Phase α} {e : AlreadyRegistered}
    (h : p.rejection? = some e) : p.waiter? = none := by
  unfold Phase.rejection? at h
  split at h
  · rfl
  · cases h

namespace Call

variable {c : Call α} {r : Registry} {now : Nat}

theorem rejection?_start (tags : Except DomainError ControlTagSet) :
    (c.start r now tags).1.phase.rejection? = c.phase.rejection? := by
  unfold start
  split
  · rename_i hp
    split
    · split
      · simp [fail, leave, Phase.rejection?, hp]
      · split
        · rename_i e
          cases e <;> simp [fail, leave, Phase.rejection?, hp, CallError.ofDomain]
        · simp [Phase.rejection?, hp]
    · simp [Phase.rejection?, hp]
  · rfl

/-- A call is rejected when it has no waiter yet and finds somebody under its token. -/
theorem rejection?_enlist {e : AlreadyRegistered}
    (h : (c.enlist r now).1.phase.rejection? = some e) :
    c.phase.rejection? = some e ∨
      c.phase.waiter? = none ∧ e.token = c.context.token ∧
        r.contains c.context.token = true := by
  unfold enlist at h
  split at h
  · rename_i tags hp
    dsimp only [Registry.make] at h
    split at h
    · rename_i x hx
      obtain ⟨hc, rfl⟩ := Registry.register_eq_error_iff.mp hx
      simp only [fail, leave, Phase.rejection?, Option.some.injEq] at h
      subst h
      exact Or.inr ⟨by simp [hp, Phase.waiter?], rfl, hc⟩
    · simp [Phase.rejection?] at h
  · exact Or.inl h

theorem rejection?_poll : (c.poll r now).1.phase.rejection? = c.phase.rejection? := by
  unfold poll
  split
  · rename_i hp
    split
    · simp [answer, leave, Phase.rejection?, hp]
    · split
      · simp [answer, leave, Phase.rejection?, hp]
      · split
        · simp [answer, leave, Phase.rejection?, hp]
        · rfl
  · rfl

theorem rejection?_conclude (maxWait : Nat) (result : Except DomainError (Executed α)) :
    (c.conclude r now maxWait result).1.phase.rejection? = c.phase.rejection? := by
  unfold conclude
  split
  · rename_i e hp
    cases e <;> simp [fail, leave, Phase.rejection?, hp, CallError.ofDomain]
  · rename_i hp
    simp [answer, leave, Phase.rejection?, hp]
  · rename_i hp
    split
    · simp [answer, leave, Phase.rejection?, hp]
    · rw [rejection?_poll]
      simp [Phase.rejection?, hp]
  · rfl

theorem rejection?_drop : (c.drop r now).1.phase.rejection? = c.phase.rejection? := by
  unfold drop
  split
  · rfl
  · rename_i h
    simp only [leave, Phase.rejection?]
    split
    · rename_i hp
      simp [hp, Phase.isEnded] at h
    · rfl

end Call

end Billing.Completion
