import Billing.Proofs.Json.Values
import Billing.Proofs.Wire.Scalar
import Billing.Wire.Event

/-!
# Envelopes are read back

Every envelope is read back from what it is written as, and from every other shape of that.
-/

namespace Billing

open Json (Reads Reshaped Shows)

/-! ## Events -/

theorem Transition.reads (t : Transition) : Reads ofJson? (.string t.name) t where
  ne_null := fun h => by cases h
  read := by cases t <;> decide

theorem reads_count (n : UInt32) : Reads countOfJson? (.int n.toNat) n where
  ne_null := fun h => by cases h
  read := by
    have hlt : n.toNat < 4294967296 := n.toNat_lt
    have hrange : (0 : Int) ≤ n.toNat ∧ (n.toNat : Int) ≤ 4294967295 := by omega
    simp [countOfJson?, Json.integer?, Json.int, hrange]

namespace DomainEvent

variable {v : Json} {e : DomainEvent}

/-- An event is read from its members, whatever stands around them. -/
theorem ofMembers?_eq (h : v.Shows e.members) : ofMembers? v e.kind = some e := by
  cases e with
  | subscriptionTransition s t n =>
      have hs := h.required?_eq (by simp [members]) (k := "subscription_id") s.reads
      have ht := h.required?_eq (by simp [members]) (k := "transition") t.reads
      have hn := h.required?_eq (by simp [members]) (k := "remaining_events") (reads_count n)
      simp [ofMembers?, kind, hs, ht, hn]
  | blockingStateChange s m =>
      have hs := h.nullable?_eq (by simp [members]) (k := "subscription_id") (o := s) Id.reads
      have hm := h.required?_eq (by simp [members]) (k := "state_name") (Json.reads_string m)
      simp [ofMembers?, kind, hs, hm]
  | invoiceCreated i a =>
      have hi := h.required?_eq (by simp [members]) (k := "invoice_id") i.reads
      have ha := h.required?_eq (by simp [members]) (k := "amount_owed") a.reads
      simp [ofMembers?, kind, hi, ha]
  | emptyInvoice => rfl
  | paymentInfo p i a =>
      have hp := h.required?_eq (by simp [members]) (k := "payment_id") p.reads
      have hi := h.nullable?_eq (by simp [members]) (k := "invoice_id") (o := i) Id.reads
      have ha := h.required?_eq (by simp [members]) (k := "amount") a.reads
      simp [ofMembers?, kind, hp, hi, ha]
  | paymentError i m =>
      have hi := h.nullable?_eq (by simp [members]) (k := "invoice_id") (o := i) Id.reads
      have hm := h.required?_eq (by simp [members]) (k := "message") (Json.reads_string m)
      simp [ofMembers?, kind, hi, hm]
  | paymentPluginError i m =>
      have hi := h.nullable?_eq (by simp [members]) (k := "invoice_id") (o := i) Id.reads
      have hm := h.required?_eq (by simp [members]) (k := "message") (Json.reads_string m)
      simp [ofMembers?, kind, hi, hm]
  | invoicePaymentInfo i p a =>
      have hi := h.required?_eq (by simp [members]) (k := "invoice_id") i.reads
      have hp := h.required?_eq (by simp [members]) (k := "payment_id") p.reads
      have ha := h.required?_eq (by simp [members]) (k := "amount") a.reads
      simp [ofMembers?, kind, hi, hp, ha]
  | invoicePaymentError i m =>
      have hi := h.required?_eq (by simp [members]) (k := "invoice_id") i.reads
      have hm := h.required?_eq (by simp [members]) (k := "message") (Json.reads_string m)
      simp [ofMembers?, kind, hi, hm]

theorem nodup_names (k : EventKind) : ("kind" :: memberNames k).Nodup := by
  cases k <;> decide

/-- An event as JSON, with its members in any order, perhaps without those that are null, and among
members of other names. -/
def Form (e : DomainEvent) (v : Json) : Prop :=
  ∃ ms, v = .object ms ∧ Reshaped (("kind", .string e.kind.tag) :: e.members) ms

theorem form_toJson (e : DomainEvent) : e.Form e.toJson := ⟨_, rfl, .refl _⟩

theorem Form.ofJson?_eq (h : e.Form v) : ofJson? v = some e := by
  obtain ⟨ms, rfl, hms⟩ := h
  have hshows := hms.shows (by
    rw [List.map_cons, map_fst_members]
    exact nodup_names e.kind)
  have hkind := hshows.required?_eq List.mem_cons_self (Json.reads_string e.kind.tag)
  have hmembers := ofMembers?_eq (hshows.mono (List.subset_cons_self _ _))
  simp only [ofJson?, hkind, EventKind.ofTag?_tag, hmembers, Option.bind_eq_bind, Option.bind_some]

theorem Form.ne_null (h : e.Form v) : v ≠ .null := by
  obtain ⟨ms, rfl, -⟩ := h
  exact fun h => by cases h

theorem isPlain_optional {k : IdKind} (i : Option (Id k)) : (Json.optional Id.toJson i).IsPlain := by
  cases i with
  | none => exact Json.isPlain_null
  | some i => exact Json.isPlain_string _

/-- An event holds no numbers but whole ones of 64 bits. -/
theorem isPlain_toJson (e : DomainEvent) : e.toJson.IsPlain := by
  refine Json.isPlain_object (List.forall_mem_cons.mpr ⟨Json.isPlain_string _, ?_⟩)
  have hid {k : IdKind} (i : Id k) : i.toJson.IsPlain := Json.isPlain_string _
  have hamount (a : Amount) : a.toJson.IsPlain := Json.isPlain_int <| by
    have ha := a.inRange
    exact ⟨ha.1, by omega⟩
  have hcount (n : UInt32) : (Json.int n.toNat).IsPlain := Json.isPlain_int <| by
    have hn : n.toNat < 4294967296 := n.toNat_lt
    exact ⟨by omega, by omega⟩
  cases e <;>
    simp [members, hid, hamount, hcount, isPlain_optional, Json.isPlain_string]

theorem depth_optional {k : IdKind} (i : Option (Id k)) :
    (Json.optional Id.toJson i).depth = 0 := by
  cases i <;> rfl

/-- Nothing stands inside the members of an event. -/
theorem depth_toJson (e : DomainEvent) : e.toJson.depth ≤ 1 := by
  refine Json.depth_object_le (List.forall_mem_cons.mpr ⟨Nat.le_refl 0, ?_⟩)
  have hid {k : IdKind} (i : Id k) : i.toJson.depth = 0 := rfl
  have hamount (a : Amount) : a.toJson.depth = 0 := rfl
  have hint (n : Int) : (Json.int n).depth = 0 := rfl
  have hstring (s : String) : (Json.string s).depth = 0 := rfl
  cases e <;> simp [members, hid, hamount, hint, hstring, depth_optional]

end DomainEvent

/-! ## Envelopes -/

namespace BillingEnvelope

variable {v : Json} {e : BillingEnvelope}

/-- The members of an envelope around its payload. -/
def members (e : BillingEnvelope) (payload : Json) : List (String × Json) :=
  [("event_id", .string e.eventId.text), ("token", e.token.toJson),
    ("account_id", e.account.toJson), ("occurred_at", e.occurredAt.toJson), ("payload", payload)]

/-- An envelope as JSON around a form of its payload, with its members in any order and among
members of other names. -/
def Form (e : BillingEnvelope) (v : Json) : Prop :=
  ∃ payload ms, e.payload.Form payload ∧ v = .object ms ∧ Reshaped (e.members payload) ms

theorem form_toJson (e : BillingEnvelope) : Form e (toJson e) :=
  ⟨_, _, e.payload.form_toJson, rfl, .refl _⟩

theorem ofJson?_of_form (h : Form e v) : ofJson? v = some e := by
  obtain ⟨payload, ms, hpayload, rfl, hms⟩ := h
  have hshows := hms.shows (by simp [members])
  have hid := hshows.field?_eq (k := "event_id") (by simp [members]) e.eventId.reads.ne_null
  have htoken := hshows.field?_eq (k := "token") (by simp [members]) e.token.reads.ne_null
  have haccount := hshows.field?_eq (k := "account_id") (by simp [members]) e.account.reads.ne_null
  have htime := hshows.field?_eq (k := "occurred_at") (by simp [members]) e.occurredAt.reads.ne_null
  have hevent := hshows.field?_eq (k := "payload") (by simp [members]) hpayload.ne_null
  simp only [ofJson?, hid, htoken, haccount, htime, hevent, Option.bind_eq_bind, Option.bind_some,
    ofParts?, e.eventId.reads.read, e.token.reads.read, e.account.reads.read,
    e.occurredAt.reads.read, hpayload.ofJson?_eq]

/-! ## Texts -/

theorem isPlain_toJson (e : BillingEnvelope) : (toJson e).IsPlain := by
  refine Json.isPlain_object ?_
  simp [Id.toJson, Instant.toJson, Json.isPlain_string, e.payload.isPlain_toJson]

theorem depth_toJson (e : BillingEnvelope) : (toJson e).depth ≤ Json.maxDepth := by
  have hstring (s : String) : (Json.string s).depth ≤ 1 := Nat.zero_le 1
  have hdepth : (toJson e).depth ≤ 1 + 1 := by
    refine Json.depth_object_le ?_
    simp [Id.toJson, Instant.toJson, hstring, e.payload.depth_toJson]
  exact Nat.le_trans hdepth (by decide)

/-! ## What may be relied on -/

/-- What may be relied on when an envelope is written and read. -/
structure Faithful (e : BillingEnvelope) : Prop where
  /-- It is read back from its text. -/
  text : (Json.parse? (toJson e).text).bind ofJson? = some e
  /-- It is read from every form, however the members of envelope and event stand, whatever stands
  among them, and whether optional identifiers that are null are there or not. -/
  forms : ∀ v, Form e v → ofJson? v = some e
  /-- What it is written as is one of these forms. -/
  written : Form e (toJson e)
  /-- It is also read from the texts of these forms, as long as what stands among the members is
  not too deep. -/
  texts : ∀ v, Form e v → v.IsPlain → v.depth ≤ Json.maxDepth →
    (Json.parse? v.text).bind ofJson? = some e
  /-- Its event alone is read from every form of the event, as which it is written. -/
  event : (∀ v, e.payload.Form v → DomainEvent.ofJson? v = some e.payload) ∧
    e.payload.Form e.payload.toJson
  /-- No other envelope has any of its forms. -/
  forms_ne : ∀ e' v, Form e v → Form e' v → e' = e
  /-- No other envelope has its text. -/
  text_ne : ∀ e', (toJson e').text = (toJson e).text → e' = e

/-- Every form is read from its text, if its numbers are whole numbers of 64 bits and it is not too
deep. -/
theorem parse?_text_of_form (h : Form e v) (hv : v.IsPlain) (hd : v.depth ≤ Json.maxDepth) :
    (Json.parse? v.text).bind ofJson? = some e := by
  rw [Json.parse?_text hv hd, Option.bind_some, ofJson?_of_form h]

/-- So is what an envelope is written as. -/
theorem parse?_text (e : BillingEnvelope) : (Json.parse? (toJson e).text).bind ofJson? = some e :=
  parse?_text_of_form (form_toJson e) (isPlain_toJson e) (depth_toJson e)

/-- Whatever is in an envelope, it is read back as it was, and taken for no other. -/
theorem faithful (e : BillingEnvelope) : Faithful e where
  text := parse?_text e
  forms := fun _ => ofJson?_of_form
  written := form_toJson e
  texts := fun _ => parse?_text_of_form
  event := ⟨fun _ h => h.ofJson?_eq, e.payload.form_toJson⟩
  forms_ne := fun e' v h h' => by
    have heq := (ofJson?_of_form h').symm.trans (ofJson?_of_form h)
    exact Option.some.inj heq
  text_ne := fun e' h => by
    have heq := parse?_text e'
    rw [h, parse?_text e] at heq
    exact (Option.some.inj heq).symm

end BillingEnvelope

end Billing
