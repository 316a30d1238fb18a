import Mathlib.Data.List.Nodup
import Billing.Bus.Broadcast

/-!
# What the uses of a bus do to its subscriptions

A subscription sees no more of a bus than the messages that are published, and what its holder does
with it. An open bus sends to every held subscription, once each; with that, every use of the bus
is, for a subscription that is there, one thing that concerns it or nothing at all.
-/

namespace Billing.Bus

variable {μ : Type}

/-! ## A subscription by itself -/

/-- What concerns a subscription. -/
inductive Concern (μ : Type) where
  /-- A message is published. -/
  | message (m : μ)
  /-- Its holder asks for a message. -/
  | take
  /-- Its holder drops it. -/
  | leave
  deriving DecidableEq

/-- The message that is published. -/
def Concern.message? : Concern μ → Option μ
  | .message m => some m
  | _ => none

/-- The message that was received. -/
def Reception.message? : Reception μ → Option μ
  | .message m => some m
  | _ => none

namespace Subscription

variable {s : Subscription μ} {cs : List (Concern μ)}

def fresh : Subscription μ := ⟨[], true⟩

/-- A subscription after something that concerns it. -/
def after (s : Subscription μ) : Concern μ → Subscription μ
  | .message m => if s.held then { s with queue := s.queue ++ [m] } else s
  | .take => { s with queue := s.queue.tail }
  | .leave => ⟨[], false⟩

/-- The message that its holder gets. -/
def gain? (s : Subscription μ) : Concern μ → Option μ
  | .take => s.queue.head?
  | _ => none

/-- The messages that its holder gets, in order. -/
def received : Subscription μ → List (Concern μ) → List μ
  | _, [] => []
  | s, c :: cs => (s.gain? c).toList ++ received (s.after c) cs

theorem held_after {c : Concern μ} (h : s.held = true) (hc : Concern.leave ≠ c) :
    (s.after c).held = true := by
  cases c with
  | message m => simp [after, h]
  | take => exact h
  | leave => exact absurd rfl hc

theorem held_of_after {c : Concern μ} (h : (s.after c).held = true) : s.held = true := by
  cases c with
  | message m =>
      cases hs : s.held with
      | true => rfl
      | false => simp [after, hs] at h
  | take => exact h
  | leave => cases h

theorem held_foldl_after_iff :
    (cs.foldl after s).held = true ↔ s.held = true ∧ Concern.leave ∉ cs := by
  induction cs generalizing s with
  | nil => simp
  | cons c cs ih =>
      rw [List.foldl_cons, ih, List.mem_cons, not_or, ← and_assoc]
      refine and_congr_left fun _ => ⟨fun h => ⟨held_of_after h, ?_⟩, fun h => held_after h.1 h.2⟩
      rintro rfl
      cases h

theorem received_append (ds : List (Concern μ)) :
    s.received (cs ++ ds) = s.received cs ++ (cs.foldl after s).received ds := by
  induction cs generalizing s with
  | nil => rfl
  | cons c cs ih => simp only [List.cons_append, received, ih, List.foldl_cons, List.append_assoc]

/-- What is taken and what is queued afterwards is what was queued before, and the messages
published since. -/
theorem received_append_queue (hs : s.held = true) (hcs : Concern.leave ∉ cs) :
    s.received cs ++ (cs.foldl after s).queue = s.queue ++ cs.filterMap Concern.message? := by
  induction cs generalizing s with
  | nil => simp [received]
  | cons c cs ih =>
      obtain ⟨hc, hcs⟩ := not_or.mp (mt List.mem_cons.mpr hcs)
      have hheld : (s.after c).held = true := held_after hs hc
      rw [received, List.foldl_cons, List.append_assoc, ih hheld hcs]
      cases c with
      | message m => simp [gain?, after, hs, Concern.message?]
      | take =>
          -- The first message goes from the queue to what is received, if there is one.
          have hm : (Concern.take : Concern μ).message? = none := rfl
          rw [List.filterMap_cons_none hm]
          cases hq : s.queue <;> simp [gain?, after, hq]
      | leave => exact absurd rfl hc

theorem received_of_dropped (hq : s.queue = []) (hs : s.held = false)
    (cs : List (Concern μ)) : s.received cs = [] := by
  induction cs generalizing s with
  | nil => rfl
  | cons c cs ih =>
      have hgain : s.gain? c = none := by cases c <;> simp [gain?, hq]
      have hafter : (s.after c).queue = [] ∧ (s.after c).held = false := by
        cases c <;> simp [after, hq, hs]
      rw [received, hgain, ih hafter.1 hafter.2]
      rfl

/-- Whether it is dropped or not, what is taken comes from the front of what was queued before and
the messages published since. -/
theorem received_isPrefix (hs : s.held = true) :
    s.received cs <+: s.queue ++ cs.filterMap Concern.message? := by
  by_cases hl : Concern.leave ∈ cs
  · obtain ⟨ds, rest, rfl, hds⟩ := List.eq_append_cons_of_mem hl
    have hd := received_append_queue hs hds
    -- Nothing comes after it was dropped; before that, it was like any other.
    have hr : s.received (ds ++ .leave :: rest) = s.received ds := by
      rw [received_append, received, received_of_dropped rfl rfl rest]
      exact List.append_nil _
    rw [hr, List.filterMap_append, ← List.append_assoc, ← hd, List.append_assoc]
    exact List.prefix_append _ _
  · exact ⟨_, received_append_queue hs hl⟩

end Subscription

/-! ## Uses of a bus -/

/-- What is done at a bus. -/
inductive Use (μ : Type) where
  | subscribe
  | drop (n : Nat)
  | publish (m : μ)
  | receive (n : Nat)
  deriving DecidableEq

/-- The message that is published. -/
def Use.message? : Use μ → Option μ
  | .publish m => some m
  | _ => none

/-- The number of subscriptions that a use makes. -/
def Use.subscriptions : Use μ → Nat
  | .subscribe => 1
  | _ => 0

/-- What a use of a bus is to a subscription that is there. -/
def Use.concern? (n : Nat) : Use μ → Option (Concern μ)
  | .subscribe => none
  | .drop k => if k = n then some .leave else none
  | .publish m => some (.message m)
  | .receive k => if k = n then some .take else none

theorem modify_congr {α : Type} {f g : α → α} {xs : List α} {k : Nat}
    (h : ∀ a, xs[k]? = some a → f a = g a) : xs.modify k f = xs.modify k g := by
  refine List.ext_getElem? fun n => ?_
  simp only [List.getElem?_modify]
  cases hn : xs[n]? with
  | none => rfl
  | some a =>
      by_cases hk : k = n
      · subst hk
        simp [h a hn]
      · simp [hk]

theorem getElem?_foldl_modify {α : Type} {f : α → α} {ns : List Nat} (h : ns.Nodup) (xs : List α)
    (k : Nat) :
    (ns.foldl (fun xs n => xs.modify n f) xs)[k]? = if k ∈ ns then xs[k]?.map f else xs[k]? := by
  induction ns generalizing xs with
  | nil => simp
  | cons n ns ih =>
      obtain ⟨hn, h⟩ := List.nodup_cons.mp h
      rw [List.foldl_cons, ih h, List.getElem?_modify]
      by_cases hk : n = k
      · subst hk
        simp [hn]
      · simp [hk, Ne.symm hk]

namespace Broadcast

variable {b : Broadcast μ} {n : Nat} {s : Subscription μ} {u : Use μ}

def use (b : Broadcast μ) : Use μ → Broadcast μ
  | .subscribe => b.subscribe.2
  | .drop n => b.drop n
  | .publish m => b.publish m
  | .receive n => (b.receive n).2

/-- The message that a use brings to a subscription. -/
def gain? (b : Broadcast μ) (n : Nat) : Use μ → Option μ
  | .receive k => if k = n then (b.receive k).1.message? else none
  | _ => none

/-- An open bus sends to every held subscription, once each. -/
structure Sound (b : Broadcast μ) : Prop where
  isOpen : b.isOpen = true
  nodup : b.subscribers.Nodup
  made : ∀ {n}, n ∈ b.subscribers → n < b.subscriptions.length
  held : ∀ {n}, b.isHeld n = true → n ∈ b.subscribers

theorem isHeld_iff : b.isHeld n = true ↔ ∃ s, b.subscriptions[n]? = some s ∧ s.held = true := by
  unfold isHeld
  cases b.subscriptions[n]? <;> simp

theorem Sound.empty : Sound (Broadcast.empty : Broadcast μ) where
  isOpen := rfl
  nodup := List.nodup_nil
  made h := by cases h
  held h := by simp [isHeld, Broadcast.empty] at h

/-- A message is queued for every held subscription, and for no other. -/
theorem Sound.subscriptions_publish (h : Sound b) (m : μ) (n : Nat) :
    (b.publish m).subscriptions[n]? = b.subscriptions[n]?.map (·.after (.message m)) := by
  have hnodup : (b.subscribers.filter b.isHeld).Nodup := h.nodup.filter _
  simp only [publish, getElem?_foldl_modify hnodup, List.mem_filter]
  cases hs : b.subscriptions[n]? with
  | none => simp
  | some s =>
      by_cases hh : s.held = true
      · have hn : b.isHeld n = true := isHeld_iff.mpr ⟨s, hs, hh⟩
        simp [h.held hn, hn, Subscription.after, hh]
      · have hn : b.isHeld n = false := by simp [isHeld, hs, hh]
        simp [hn, Subscription.after, hh]

theorem receive_of_none (h : b.subscriptions[n]? = none) : b.receive n = (.disconnected, b) := by
  simp [receive, h]

theorem receive_of_nil (h : b.subscriptions[n]? = some s) (hq : s.queue = []) :
    b.receive n = (if b.subscribers.contains n then .empty else .disconnected, b) := by
  simp [receive, h, hq]

theorem receive_of_cons {m : μ} {ms : List μ} (h : b.subscriptions[n]? = some s)
    (hq : s.queue = m :: ms) :
    b.receive n = (.message m,
      { b with subscriptions := b.subscriptions.modify n fun s => { s with queue := ms } }) := by
  simp [receive, h, hq]

theorem receive_snd (k : Nat) :
    (b.receive k).2 = { b with subscriptions := b.subscriptions.modify k (·.after .take) } := by
  -- where nothing is queued, taking the first message off leaves the queue as it is
  have hsame (h : ∀ s, b.subscriptions[k]? = some s → s.after .take = s) :
      b = { b with subscriptions := b.subscriptions.modify k (·.after .take) } := by
    rw [modify_congr (g := id) h, List.modify_id]
  cases hs : b.subscriptions[k]? with
  | none =>
      rw [receive_of_none hs]
      exact hsame fun s h => absurd (hs.symm.trans h) nofun
  | some s =>
      cases hq : s.queue with
      | nil =>
          rw [receive_of_nil hs hq]
          refine hsame fun t ht => ?_
          cases hs.symm.trans ht
          cases s
          cases hq
          rfl
      | cons m ms =>
          rw [receive_of_cons hs hq, modify_congr (g := (·.after .take)) fun t ht => ?_]
          cases hs.symm.trans ht
          simp [Subscription.after, hq]

/-- For a subscription that is there, a use of the bus is what concerns it. -/
theorem subscription_use_of_unpublished (hs : b.subscriptions[n]? = some s)
    (hu : u.message? = none) :
    (b.use u).subscriptions[n]? = some ((u.concern? n).toList.foldl .after s) := by
  cases u with
  | subscribe =>
      have hn : n < b.subscriptions.length := (List.getElem?_eq_some_iff.mp hs).1
      simp [use, subscribe, List.getElem?_append_left hn, hs, Use.concern?]
  | drop k =>
      simp only [use, drop, List.getElem?_modify, hs, Use.concern?]
      split <;> simp [Subscription.after]
  | publish m => cases hu
  | receive k =>
      simp only [use, receive_snd, List.getElem?_modify, hs, Use.concern?]
      split <;> simp

theorem Sound.subscription_use (h : Sound b) (hs : b.subscriptions[n]? = some s) (u : Use μ) :
    (b.use u).subscriptions[n]? = some ((u.concern? n).toList.foldl .after s) := by
  cases u with
  | publish m => simp [use, h.subscriptions_publish, hs, Use.concern?]
  | subscribe => exact subscription_use_of_unpublished hs rfl
  | drop k => exact subscription_use_of_unpublished hs rfl
  | receive k => exact subscription_use_of_unpublished hs rfl

theorem gain?_eq (hs : b.subscriptions[n]? = some s) (u : Use μ) :
    b.gain? n u = (u.concern? n).bind s.gain? := by
  cases u with
  | subscribe => rfl
  | drop k =>
      simp only [gain?, Use.concern?]
      split <;> rfl
  | publish m => rfl
  | receive k =>
      simp only [gain?, Use.concern?]
      split
      · rename_i hk
        subst hk
        cases hq : s.queue with
        | nil =>
            rw [receive_of_nil hs hq]
            simp only [Option.bind_some, Subscription.gain?, hq]
            split <;> rfl
        | cons m ms => simp [receive_of_cons hs hq, Subscription.gain?, hq, Reception.message?]
      · rfl

theorem gain?_of_length_le (h : b.subscriptions.length ≤ n) (u : Use μ) : b.gain? n u = none := by
  cases u with
  | receive k =>
      simp only [gain?]
      split
      · rename_i hk
        subst hk
        rw [receive_of_none (List.getElem?_eq_none h)]
        rfl
      · rfl
  | subscribe => rfl
  | drop k => rfl
  | publish m => rfl

/-! ## Kept by every use -/

theorem length_foldl_modify {α : Type} {f : α → α} (ns : List Nat) (xs : List α) :
    (ns.foldl (fun xs n => xs.modify n f) xs).length = xs.length := by
  induction ns generalizing xs with
  | nil => rfl
  | cons n ns ih => rw [List.foldl_cons, ih, List.length_modify]

theorem isOpen_use (b : Broadcast μ) (u : Use μ) : (b.use u).isOpen = b.isOpen := by
  cases u with
  | receive n => simp only [use, receive_snd]
  | _ => rfl

theorem length_subscriptions_use (b : Broadcast μ) (u : Use μ) :
    (b.use u).subscriptions.length = b.subscriptions.length + u.subscriptions := by
  cases u with
  | subscribe => simp [use, subscribe, Use.subscriptions]
  | drop n => simp [use, drop, Use.subscriptions]
  | publish m => simp [use, publish, length_foldl_modify, Use.subscriptions]
  | receive n => simp [use, receive_snd, Use.subscriptions]

theorem Sound.held_of_use (h : Sound b) (hn : n < b.subscriptions.length)
    (hu : (b.use u).isHeld n = true) : b.isHeld n = true := by
  obtain ⟨s, hs⟩ : ∃ s, b.subscriptions[n]? = some s := ⟨_, List.getElem?_eq_getElem hn⟩
  obtain ⟨t, ht, hheld⟩ := isHeld_iff.mp hu
  rw [h.subscription_use hs u] at ht
  cases ht
  refine isHeld_iff.mpr ⟨s, hs, ?_⟩
  cases hc : u.concern? n with
  | none => simpa [hc] using hheld
  | some c => exact Subscription.held_of_after (by simpa [hc] using hheld)

theorem Sound.use (h : Sound b) (u : Use μ) : Sound (b.use u) := by
  have hlen := length_subscriptions_use b u
  have hheld : ∀ {n}, n < b.subscriptions.length → (b.use u).isHeld n = true →
      n ∈ b.subscribers := fun hn hu => h.held (h.held_of_use hn hu)
  have hlt : ∀ {n}, (b.use u).isHeld n = true → n < b.subscriptions.length + u.subscriptions := by
    intro n hu
    obtain ⟨s, hs, _⟩ := isHeld_iff.mp hu
    rw [← hlen]
    exact (List.getElem?_eq_some_iff.mp hs).1
  cases u with
  | subscribe =>
      have hs : (b.use .subscribe).subscribers = b.subscribers ++ [b.subscriptions.length] := by
        simp [Broadcast.use, subscribe, h.isOpen]
      refine ⟨h.isOpen, ?_, ?_, ?_⟩
      · rw [hs, List.nodup_append]
        refine ⟨h.nodup, List.nodup_singleton _, ?_⟩
        rintro k hk _ hl rfl
        have hlt := h.made hk
        simp at hl
        omega
      · intro n hn
        rw [hs, List.mem_append, List.mem_singleton] at hn
        rw [hlen, Use.subscriptions]
        rcases hn with hn | rfl
        · have hlt := h.made hn
          omega
        · omega
      · intro n hu
        rw [hs, List.mem_append, List.mem_singleton]
        have hn := hlt hu
        rw [Use.subscriptions] at hn
        rcases Nat.lt_or_ge n b.subscriptions.length with hb | hb
        · exact Or.inl (hheld hb hu)
        · exact Or.inr (by omega)
  | drop k => exact ⟨h.isOpen, h.nodup, fun hn => hlen ▸ h.made hn, fun hu => hheld (hlt hu) hu⟩
  | publish m =>
      have hs : (b.use (.publish m)).subscribers = b.subscribers.filter b.isHeld := rfl
      refine ⟨h.isOpen, hs ▸ h.nodup.filter _, ?_, ?_⟩
      · intro n hn
        rw [hs] at hn
        exact hlen ▸ h.made ((List.mem_filter.mp hn).1)
      · intro n hu
        rw [hs, List.mem_filter]
        exact ⟨hheld (hlt hu) hu, h.held_of_use (hlt hu) hu⟩
  | receive k =>
      have hr : b.use (.receive k) = { b with subscriptions := (b.use (.receive k)).subscriptions } := by
        simp only [Broadcast.use, receive_snd]
      rw [hr] at hlen hheld hlt ⊢
      exact ⟨h.isOpen, h.nodup, fun hn => hlen ▸ h.made hn, fun hu => hheld (hlt hu) hu⟩

end Broadcast

end Billing.Bus
