import Billing.Proofs.Bus.Broadcast
import Billing.Proofs.Numbering

/-!
# What the subscriptions of a bus receive

However a bus is used, every subscription gets the messages published since it was made, once each
and in the order of their publication, and nothing else. What it gets depends on nothing that is
done to other subscriptions. The bus counts the subscriptions that were live when it was last used
to publish, and those made since.
-/

namespace Billing.Bus

variable {μ : Type}

/-! ## Histories of a bus -/

def published (us : List (Use μ)) : List μ := us.filterMap Use.message?

def subscribed (us : List (Use μ)) : Nat := total Use.subscriptions us

/-- What is done after subscription number `n` was made, if it was. -/
def since : Nat → List (Use μ) → Option (List (Use μ))
  | _, [] => none
  | n, u :: us => if n < u.subscriptions then some us else since (n - u.subscriptions) us

/-- The messages that are published after subscription number `n` was made. -/
def publishedSince (n : Nat) (us : List (Use μ)) : List μ := ((since n us).map published).getD []

def Use.drops (n : Nat) : Use μ → Bool
  | .drop k => k == n
  | _ => false

/-- A subscription has been made and not been dropped. -/
def isLive (us : List (Use μ)) (n : Nat) : Bool :=
  match since n us with
  | some later => later.all fun u => !u.drops n
  | none => false

/-- The subscriptions that have been made and not been dropped, by number. -/
def live (us : List (Use μ)) : List Nat := (List.range (subscribed us)).filter (isLive us)

section Histories

variable {us vs later : List (Use μ)} {u : Use μ} {n : Nat}

theorem subscribed_cons : subscribed (u :: us) = u.subscriptions + subscribed us := rfl

theorem lt_subscriptions_iff : n < u.subscriptions ↔ u = .subscribe ∧ n = 0 := by
  cases u <;> simp [Use.subscriptions]

theorem since_eq_some_iff :
    since n us = some later ↔
      ∃ earlier, us = earlier ++ .subscribe :: later ∧ subscribed earlier = n := by
  induction us generalizing n with
  | nil => simp [since]
  | cons u us ih =>
      unfold since
      split
      · rename_i hn
        obtain ⟨rfl, rfl⟩ := lt_subscriptions_iff.mp hn
        constructor
        · rintro ⟨⟩
          exact ⟨[], rfl, rfl⟩
        · rintro ⟨_ | ⟨v, earlier⟩, hus, hn⟩
          · cases hus
            rfl
          · cases hus
            rw [subscribed_cons, Use.subscriptions] at hn
            omega
      · rename_i hn
        rw [ih]
        constructor
        · rintro ⟨earlier, rfl, hsub⟩
          exact ⟨u :: earlier, rfl, by rw [subscribed_cons]; omega⟩
        · rintro ⟨_ | ⟨v, earlier⟩, hus, hsub⟩
          · cases hus
            exact absurd (lt_subscriptions_iff.mpr ⟨rfl, hsub.symm⟩) hn
          · cases hus
            rw [subscribed_cons] at hsub
            exact ⟨earlier, rfl, by omega⟩

theorem since_eq_none_iff : since n us = none ↔ subscribed us ≤ n := by
  induction us generalizing n with
  | nil => simp [since, subscribed, total]
  | cons u us ih =>
      rw [subscribed_cons, since]
      split
      · simp only [reduceCtorEq, false_iff]
        omega
      · rw [ih]
        omega

theorem since_append_of_some (h : since n us = some later) : since n (us ++ vs) = some (later ++ vs) := by
  obtain ⟨earlier, rfl, hn⟩ := since_eq_some_iff.mp h
  exact since_eq_some_iff.mpr ⟨earlier, by simp, hn⟩

theorem since_isSuffix (h : since n us = some later) : later <:+ us := by
  obtain ⟨earlier, rfl, _⟩ := since_eq_some_iff.mp h
  exact (List.suffix_cons ..).trans (List.suffix_append ..)

/-- A subscription that was made earlier has seen everything that a later one has. -/
theorem since_mono {k : Nat} {latest : List (Use μ)} (hk : n ≤ k) (h : since k us = some latest) :
    ∃ later, since n us = some later ∧ latest <:+ later := by
  induction us generalizing n k with
  | nil => cases h
  | cons u us ih =>
      unfold since at h ⊢
      split
      · refine ⟨us, rfl, ?_⟩
        split at h
        · cases h
          exact List.suffix_rfl
        · exact since_isSuffix h
      · rw [if_neg (by omega)] at h
        exact ih (by omega) h

theorem since_append_of_le (h : subscribed us ≤ n) :
    since n (us ++ vs) = since (n - subscribed us) vs := by
  induction us generalizing n with
  | nil => rfl
  | cons u us ih =>
      rw [subscribed_cons] at h
      rw [List.cons_append, since, if_neg (by omega), ih (by omega), subscribed_cons, Nat.sub_sub]

end Histories

/-! ## What is received -/

namespace Broadcast

def run (b : Broadcast μ) (us : List (Use μ)) : Broadcast μ := us.foldl use b

/-- The messages that a subscription gets, in order. -/
def received (n : Nat) : Broadcast μ → List (Use μ) → List μ
  | _, [] => []
  | b, u :: us => (b.gain? n u).toList ++ received n (b.use u) us

/-- What a subscription has yet to take. -/
def queue (b : Broadcast μ) (n : Nat) : List μ :=
  match b.subscriptions[n]? with
  | some s => s.queue
  | none => []

variable {b : Broadcast μ} {us vs later : List (Use μ)} {n : Nat} {s : Subscription μ}

theorem run_append : b.run (us ++ vs) = (b.run us).run vs := List.foldl_append

theorem run_concat (u : Use μ) : b.run (us ++ [u]) = (b.run us).use u := run_append

theorem received_append : b.received n (us ++ vs) = b.received n us ++ (b.run us).received n vs := by
  induction us generalizing b with
  | nil => rfl
  | cons u us ih => simp [received, ih, run]

theorem Sound.run (h : Sound b) (us : List (Use μ)) : Sound (b.run us) := by
  induction us generalizing b with
  | nil => exact h
  | cons u us ih => exact ih (h.use u)

theorem length_subscriptions_run (b : Broadcast μ) (us : List (Use μ)) :
    (b.run us).subscriptions.length = b.subscriptions.length + subscribed us := by
  induction us generalizing b with
  | nil => rfl
  | cons u us ih =>
      rw [subscribed_cons, ← Nat.add_assoc, ← length_subscriptions_use]
      exact ih (b.use u)

theorem Sound.queue_publish {m : μ} (h : Sound b) (hn : b.isHeld n = true) :
    (b.publish m).queue n = b.queue n ++ [m] := by
  obtain ⟨s, hs, hheld⟩ := isHeld_iff.mp hn
  simp [queue, h.subscriptions_publish, hs, Subscription.after, hheld]

theorem queue_of_some (h : b.subscriptions[n]? = some s) : b.queue n = s.queue := by
  simp [queue, h]

theorem subscription_drop (h : n < b.subscriptions.length) :
    (b.drop n).subscriptions[n]? = some ⟨[], false⟩ := by
  simp [drop, List.getElem?_eq_getElem h]

/-- Whoever asks for a message takes the first from the queue, or finds the queue empty. -/
theorem receive_cases (b : Broadcast μ) (n : Nat) :
    (∃ m, (b.receive n).1 = .message m ∧ b.queue n = m :: (b.receive n).2.queue n) ∨
      ((b.receive n).1 = .empty ∨ (b.receive n).1 = .disconnected) ∧ (b.receive n).2 = b ∧
        b.queue n = [] := by
  cases hs : b.subscriptions[n]? with
  | none =>
      rw [receive_of_none hs]
      exact .inr ⟨.inr rfl, rfl, by simp [queue, hs]⟩
  | some s =>
      have hq' := queue_of_some hs
      cases hq : s.queue with
      | nil =>
          rw [receive_of_nil hs hq]
          refine .inr ⟨?_, rfl, hq'.trans hq⟩
          simp only
          split
          · exact .inl rfl
          · exact .inr rfl
      | cons m ms =>
          have hrest : (b.receive n).2.queue n = ms := by
            simp [queue, receive_snd, hs, Subscription.after, hq]
          rw [hrest, receive_of_cons hs hq]
          exact .inl ⟨m, rfl, hq'.trans hq⟩

theorem Sound.receive_fst (h : Sound b) (hn : b.isHeld n = true) :
    (b.receive n).1 = match b.queue n with
      | [] => .empty
      | m :: _ => .message m := by
  obtain ⟨s, hs, -⟩ := isHeld_iff.mp hn
  cases hq : s.queue with
  | nil => simp [receive_of_nil hs hq, queue, hs, hq, h.held hn]
  | cons m ms => simp [receive_of_cons hs hq, queue, hs, hq]

/-- What concerns a subscription among uses of the bus. -/
def concerns (n : Nat) (us : List (Use μ)) : List (Concern μ) := us.filterMap (Use.concern? n)

theorem concerns_cons (u : Use μ) : concerns n (u :: us) = (u.concern? n).toList ++ concerns n us := by
  cases h : u.concern? n <;> simp [concerns, h]

/-- A subscription that is there becomes what it would become of what concerns it. -/
theorem Sound.subscription_run (h : Sound b) (hs : b.subscriptions[n]? = some s)
    (us : List (Use μ)) : (b.run us).subscriptions[n]? = some ((concerns n us).foldl .after s) := by
  induction us generalizing b s with
  | nil => exact hs
  | cons u us ih =>
      rw [concerns_cons, List.foldl_append]
      exact ih (h.use u) (h.subscription_use hs u)

theorem Sound.received_run (h : Sound b) (hs : b.subscriptions[n]? = some s) (us : List (Use μ)) :
    b.received n us = s.received (concerns n us) := by
  induction us generalizing b s with
  | nil => rfl
  | cons u us ih =>
      rw [received, gain?_eq hs, ih (h.use u) (h.subscription_use hs u), concerns_cons,
        Subscription.received_append]
      cases u.concern? n <;> simp [Subscription.received]

theorem received_of_le (h : b.subscriptions.length + subscribed us ≤ n) : b.received n us = [] := by
  induction us generalizing b with
  | nil => rfl
  | cons u us ih =>
      rw [subscribed_cons] at h
      rw [received, gain?_of_length_le (by omega), ih (by rw [length_subscriptions_use]; omega)]
      rfl

/-! ### From the beginning -/

theorem length_subscriptions_run_empty (us : List (Use μ)) :
    (empty.run us : Broadcast μ).subscriptions.length = subscribed us := by
  simp [length_subscriptions_run, empty]

theorem subscription_subscribe (us : List (Use μ)) :
    ((empty.run us).use .subscribe).subscriptions[subscribed us]? =
      some (.fresh : Subscription μ) := by
  simp [use, subscribe, ← length_subscriptions_run_empty, Subscription.fresh]

theorem subscription_of_not_since (h : since n us = none) :
    (empty.run us : Broadcast μ).subscriptions[n]? = none := by
  rw [List.getElem?_eq_none_iff, length_subscriptions_run_empty]
  exact since_eq_none_iff.mp h

theorem subscription_of_since (h : since n us = some later) :
    (empty.run us).subscriptions[n]? = some ((concerns n later).foldl .after .fresh) := by
  obtain ⟨earlier, rfl, rfl⟩ := since_eq_some_iff.mp h
  rw [run_append]
  exact ((Sound.empty.run earlier).use .subscribe).subscription_run
    (subscription_subscribe earlier) later

theorem received_of_since (h : since n us = some later) :
    empty.received n us = Subscription.fresh.received (concerns n later) := by
  obtain ⟨earlier, rfl, rfl⟩ := since_eq_some_iff.mp h
  have hsound : Sound ((empty.run earlier).use .subscribe : Broadcast μ) :=
    (Sound.empty.run earlier).use .subscribe
  have hnone : (empty.run earlier : Broadcast μ).gain? (subscribed earlier) .subscribe = none := rfl
  -- Nothing comes from it before it is made, nor when it is made.
  rw [received_append, received_of_le (by simp [empty]), received, hnone,
    hsound.received_run (subscription_subscribe earlier)]
  rfl

theorem received_of_not_since (h : since n us = none) : empty.received n us = [] :=
  received_of_le (by simpa [empty] using since_eq_none_iff.mp h)

theorem published_eq (n : Nat) (us : List (Use μ)) :
    published us = (concerns n us).filterMap Concern.message? := by
  rw [published, concerns, List.filterMap_filterMap]
  congr 1
  funext u
  cases u with
  | subscribe => rfl
  | drop k => simp only [Use.message?, Use.concern?]; split <;> rfl
  | publish m => rfl
  | receive k => simp only [Use.message?, Use.concern?]; split <;> rfl

theorem leave_mem_concerns_iff : Concern.leave ∈ concerns n us ↔ ∃ u ∈ us, u.drops n = true := by
  rw [concerns, List.mem_filterMap]
  refine exists_congr fun u => and_congr_right fun _ => ?_
  cases u with
  | subscribe => simp [Use.concern?, Use.drops]
  | drop k => simp [Use.concern?, Use.drops]
  | publish m => simp [Use.concern?, Use.drops]
  | receive k => simp [Use.concern?, Use.drops]

theorem isLive_iff :
    isLive us n = true ↔ ∃ later, since n us = some later ∧ Concern.leave ∉ concerns n later := by
  unfold isLive
  cases since n us <;> simp [leave_mem_concerns_iff]

theorem isHeld_run_iff : (empty.run us).isHeld n = true ↔ isLive us n = true := by
  rw [isHeld_iff, isLive_iff]
  cases h : since n us with
  | none => simp [subscription_of_not_since h]
  | some later =>
      simp [subscription_of_since h, Subscription.held_foldl_after_iff, Subscription.fresh]

theorem mem_live_iff : n ∈ live us ↔ isLive us n = true := by
  rw [live, List.mem_filter, List.mem_range, and_iff_right_iff_imp, isLive_iff]
  rintro ⟨later, h, _⟩
  exact Nat.lt_of_not_le fun hn => by simp [since_eq_none_iff.mpr hn] at h

end Broadcast

/-! ## Nobody else's business -/

/-- The numbers of subscriptions, one more where `i` and those after it have become one more. -/
def shiftedFrom (i n : Nat) : Nat := if n < i then n else n + 1

/-- A use of a bus on which subscriptions have other numbers. -/
def Use.renumbered (f : Nat → Nat) : Use μ → Use μ
  | .subscribe => .subscribe
  | .drop n => .drop (f n)
  | .publish m => .publish m
  | .receive n => .receive (f n)

/-- What has concerned a subscription since it was made, if it was. -/
def history (n : Nat) (us : List (Use μ)) : Option (List (Concern μ)) :=
  (since n us).map (Broadcast.concerns n)

namespace Broadcast

variable {us vs : List (Use μ)} {n k i : Nat} {f : Nat → Nat}

theorem received_eq_history :
    empty.received n us = ((history n us).map Subscription.fresh.received).getD [] := by
  unfold history
  cases h : since n us with
  | none => exact received_of_not_since h
  | some later => exact received_of_since h

theorem queue_eq_history : (empty.run us).queue n =
    ((history n us).map fun cs => (cs.foldl Subscription.after .fresh).queue).getD [] := by
  unfold history queue
  cases h : since n us with
  | none =>
      rw [subscription_of_not_since h]
      rfl
  | some later =>
      rw [subscription_of_since h]
      rfl

theorem history_append : history n (us ++ vs) =
    match history n us with
    | some cs => some (cs ++ concerns n vs)
    | none => (since (n - subscribed us) vs).map (concerns n) := by
  unfold history
  cases h : since n us with
  | none => rw [since_append_of_le (since_eq_none_iff.mp h)]; rfl
  | some later => rw [since_append_of_some h]; simp [concerns]

/-- The history of a subscription is the same whether another one is dropped or not. -/
theorem history_drop (hk : k ≠ n) : history n (us ++ .drop k :: vs) = history n (us ++ vs) := by
  have hc : (Use.drop k : Use μ).concern? n = none := if_neg hk
  rw [history_append, history_append]
  cases history n us with
  | some cs => simp [concerns, hc]
  | none => rfl

theorem subscriptions_renumbered (f : Nat → Nat) (u : Use μ) :
    (u.renumbered f).subscriptions = u.subscriptions := by cases u <;> rfl

theorem since_renumbered (f : Nat → Nat) (n : Nat) (us : List (Use μ)) :
    since n (us.map (Use.renumbered f)) = (since n us).map (List.map (Use.renumbered f)) := by
  induction us generalizing n with
  | nil => rfl
  | cons u us ih =>
      rw [List.map_cons, since, since, subscriptions_renumbered]
      split
      · rfl
      · exact ih _

theorem concerns_renumbered (hf : Function.Injective f) (n : Nat) (us : List (Use μ)) :
    concerns (f n) (us.map (Use.renumbered f)) = concerns n us := by
  rw [concerns, concerns, List.filterMap_map]
  congr 1
  funext u
  cases u <;> simp [Use.renumbered, Use.concern?, hf.eq_iff]

theorem shiftedFrom_injective (i : Nat) : Function.Injective (shiftedFrom i) := by
  intro m n h
  unfold shiftedFrom at h
  split at h <;> split at h <;> omega

/-- The history of a subscription is the same whether another one is made or not. -/
theorem history_subscribe (n : Nat) (us vs : List (Use μ)) :
    history (shiftedFrom (subscribed us) n)
        (us ++ .subscribe :: vs.map (Use.renumbered (shiftedFrom (subscribed us)))) =
      history n (us ++ vs) := by
  have hc := concerns_renumbered (μ := μ) (shiftedFrom_injective (subscribed us)) n vs
  rw [history_append, history_append]
  rcases Nat.lt_or_ge n (subscribed us) with hn | hn
  · -- It was there before the new one, and keeps its number.
    have hs : shiftedFrom (subscribed us) n = n := if_pos hn
    rw [hs] at hc ⊢
    cases h : history n us with
    | none =>
        have hle := since_eq_none_iff.mp (Option.map_eq_none_iff.mp h)
        omega
    | some cs =>
        have hcons : concerns n (.subscribe :: vs.map (Use.renumbered (shiftedFrom (subscribed us))))
            = concerns n vs := by rw [concerns_cons, hc]; rfl
        simp only [hcons]
  · -- It comes after the new one, which is made first of all that follows.
    have hs : shiftedFrom (subscribed us) n = n + 1 := if_neg (by omega)
    have hnone : history n us = none :=
      Option.map_eq_none_iff.mpr (since_eq_none_iff.mpr hn)
    have hnone' : history (n + 1) us = none :=
      Option.map_eq_none_iff.mpr (since_eq_none_iff.mpr (by omega))
    have hsub : n + 1 - subscribed us - 1 = n - subscribed us := by omega
    rw [hs] at hc ⊢
    simp only [hnone, hnone']
    rw [since, Use.subscriptions, if_neg (by omega), hsub, since_renumbered, Option.map_map]
    cases since (n - subscribed us) vs with
    | none => rfl
    | some later =>
        have hlater := concerns_renumbered (μ := μ) (shiftedFrom_injective (subscribed us)) n later
        rw [hs] at hlater
        exact congrArg some hlater

end Broadcast

/-! ## The number of subscribers -/

namespace Broadcast

variable {b : Broadcast μ} {us earlier later : List (Use μ)} {n : Nat} {m : μ}

/-- While nothing is published, every subscription that is made is one more subscriber. -/
theorem Sound.subscriberCount_run (h : Sound b) (hus : published us = []) :
    (b.run us).subscriberCount = b.subscriberCount + subscribed us := by
  induction us generalizing b with
  | nil => rfl
  | cons u us ih =>
      have hu : u.message? = none := by
        cases hm : u.message? with
        | none => rfl
        | some m => simp [published, hm] at hus
      have hone : (b.use u).subscriberCount = b.subscriberCount + u.subscriptions := by
        cases u with
        | subscribe => simp [subscriberCount, Broadcast.use, subscribe, h.isOpen, Use.subscriptions]
        | drop n => rfl
        | publish m => cases hu
        | receive n => simp [subscriberCount, Broadcast.use, receive_snd, Use.subscriptions]
      have hrest := ih (h.use u) (by simpa [published, hu] using hus)
      rw [subscribed_cons, ← Nat.add_assoc, ← hone]
      exact hrest

/-- Once a message is published, the subscribers are the live subscriptions. -/
theorem mem_subscribers_publish_iff (us : List (Use μ)) (m : μ) (n : Nat) :
    n ∈ ((empty.run us).publish m).subscribers ↔ isLive us n = true := by
  have h : Sound (empty.run us : Broadcast μ) := Sound.empty.run us
  simp only [publish, List.mem_filter, isHeld_run_iff, and_iff_right_iff_imp]
  exact fun hn => h.held (isHeld_run_iff.mpr hn)

theorem subscriberCount_publish (us : List (Use μ)) (m : μ) :
    ((empty.run us).publish m).subscriberCount = (live us).length := by
  have h : Sound (empty.run us : Broadcast μ) := Sound.empty.run us
  -- Both lists have the same members, each of them once.
  refine List.Perm.length_eq ((List.perm_ext_iff_of_nodup ?_ ?_).mpr fun n => ?_)
  · exact h.nodup.filter _
  · exact List.nodup_range.filter _
  · rw [mem_subscribers_publish_iff, mem_live_iff]

end Broadcast

/-! ## The bus as a whole -/

namespace Broadcast

variable {us : List (Use μ)} {n k : Nat}

/-- What every subscription may rely on after these uses of a bus. -/
structure Faithful (us : List (Use μ)) : Prop where
  /-- What a live subscription has received, and what is queued for it, are together the messages
  published since it was made: each of them once, in the order of publication. -/
  complete : ∀ {n}, isLive us n = true →
    empty.received n us ++ (empty.run us).queue n = publishedSince n us
  /-- Also a subscription that was dropped got nothing else, up to when it was dropped. -/
  received : ∀ n, empty.received n us <+: publishedSince n us
  /-- A live subscription that asks for a message gets the first in its queue, if there is one. -/
  next : ∀ {n}, isLive us n = true →
    ((empty.run us).receive n).1 = match (empty.run us).queue n with
      | [] => .empty
      | m :: _ => .message m
  /-- Of two subscriptions, the one made later is due how the messages due to the other one end. -/
  due : ∀ {n k}, n ≤ k → publishedSince k us <:+ publishedSince n us
  /-- So two live subscriptions see the messages that both see in the same order. -/
  common : ∀ {n k}, n ≤ k → isLive us n = true → isLive us k = true →
    empty.received k us ++ (empty.run us).queue k <:+ empty.received n us ++ (empty.run us).queue n
  /-- Whatever was dropped before, a message that is published now is queued for all that are
  live. -/
  reaches : ∀ m {n}, isLive us n = true →
    (empty.run (us ++ [.publish m])).queue n = (empty.run us).queue n ++ [m]
  /-- No subscription would have seen anything else if another one had been dropped. -/
  dropped : ∀ {earlier later}, us = earlier ++ later → ∀ {n k}, k ≠ n →
    let others := earlier ++ .drop k :: later
    empty.received n others = empty.received n us ∧
      (empty.run others).queue n = (empty.run us).queue n
  /-- No subscription would have seen anything else if another one had been made. -/
  added : ∀ {earlier later}, us = earlier ++ later → ∀ n,
    let f := shiftedFrom (subscribed earlier)
    let others := earlier ++ .subscribe :: later.map (Use.renumbered f)
    empty.received (f n) others = empty.received n us ∧
      (empty.run others).queue (f n) = (empty.run us).queue n
  /-- Before anything is published, every subscription counts. -/
  counted_first : published us = [] → (empty.run us).subscriberCount = subscribed us
  /-- After that, those count that were live when a message was published for the last time, and
  those made since, whether they were dropped or not. -/
  counted : ∀ {earlier m later}, us = earlier ++ .publish m :: later → published later = [] →
    (empty.run us).subscriberCount = (live earlier).length + subscribed later
  /-- A live subscription is never forgotten. -/
  kept : ∀ {n}, isLive us n = true → n ∈ (empty.run us).subscribers
  /-- A dropped one is forgotten when the next message is published. -/
  forgotten : ∀ {n}, isLive us n = false → ∀ m,
    n ∉ (empty.run (us ++ [.publish m])).subscribers

theorem publishedSince_eq (n : Nat) (us : List (Use μ)) :
    publishedSince n us = ((history n us).map (·.filterMap Concern.message?)).getD [] := by
  unfold publishedSince history
  cases since n us with
  | none => rfl
  | some later => exact published_eq n later

/-- What was published since a subscription was made is how everything ends that was published
since an earlier one was made. -/
theorem publishedSince_isSuffix (h : n ≤ k) : publishedSince k us <:+ publishedSince n us := by
  unfold publishedSince
  cases hk : since k us with
  | none => exact List.nil_suffix
  | some latest =>
      obtain ⟨later, hn, hsuffix⟩ := since_mono h hk
      rw [hn]
      exact hsuffix.filterMap Use.message?

theorem seen_of_isLive (h : isLive us n = true) :
    empty.received n us ++ (empty.run us).queue n = publishedSince n us := by
  obtain ⟨later, hs, hl⟩ := isLive_iff.mp h
  simpa [received_eq_history, queue_eq_history, publishedSince_eq, history, hs, Subscription.fresh]
    using Subscription.received_append_queue (s := .fresh) rfl hl

/-- A bus brings each message to each live subscription exactly once and in order, and does not
mix up the affairs of its subscriptions. -/
theorem exactly_once_in_order (us : List (Use μ)) : Faithful us where
  complete := seen_of_isLive
  received n := by
    rw [received_eq_history, publishedSince_eq]
    cases history n us with
    | none => exact List.nil_prefix
    | some cs => exact Subscription.received_isPrefix rfl
  next h := (Sound.empty.run us).receive_fst (isHeld_run_iff.mpr h)
  due := publishedSince_isSuffix
  common h hn hk := by
    rw [seen_of_isLive hn, seen_of_isLive hk]
    exact publishedSince_isSuffix h
  reaches m n h := by
    rw [run_concat]
    exact (Sound.empty.run us).queue_publish (isHeld_run_iff.mpr h)
  dropped := by
    rintro earlier later rfl n k hk
    simp only [received_eq_history, queue_eq_history, history_drop hk, and_self]
  added := by
    rintro earlier later rfl n
    simp only [received_eq_history, queue_eq_history, history_subscribe, and_self]
  counted_first h := by simpa [subscriberCount, empty] using Sound.empty.subscriberCount_run h
  counted := by
    rintro earlier m later rfl h
    have hrun : (empty.run (earlier ++ .publish m :: later) : Broadcast μ) =
        ((empty.run earlier).publish m).run later := by rw [run_append]; rfl
    have hsound : Sound ((empty.run earlier).publish m : Broadcast μ) :=
      (Sound.empty.run earlier).use (.publish m)
    rw [hrun, hsound.subscriberCount_run h, subscriberCount_publish]
  kept h := (Sound.empty.run us).held (isHeld_run_iff.mpr h)
  forgotten {n} h m := by
    rw [run_concat, use, mem_subscribers_publish_iff, h]
    exact Bool.false_ne_true

/-- A subscription that was made late, and one that was dropped. -/
example :
    let us : List (Use Nat) :=
      [.subscribe, .publish 1, .subscribe, .receive 0, .subscribe, .drop 0, .publish 2, .receive 1]
    live us = [1, 2] ∧ empty.received 0 us = [1] ∧ empty.received 1 us = [2] ∧
      (empty.run us).queue 2 = [2] ∧ (empty.run us).subscriberCount = 2 := by decide

end Broadcast

end Billing.Bus
