import Billing.DomainError
import Billing.Text.Ascii

/-!
# Control tags

Switches on an account that suppress parts of its billing, and sets of them.
-/

namespace Billing

/-- A switch on an account. -/
inductive ControlTag where
  /-- No payment is attempted after an invoice. -/
  | autoPayOff
  /-- No invoice is committed. -/
  | autoInvoicingOff
  /-- Invoices stay drafts. -/
  | autoInvoicingDraft
  deriving DecidableEq

namespace ControlTag

/-- All tags, in the order in which sets list them. -/
def all : List ControlTag := [.autoPayOff, .autoInvoicingOff, .autoInvoicingDraft]

/-- The name of a tag. -/
def name : ControlTag → String
  | .autoPayOff => "AUTO_PAY_OFF"
  | .autoInvoicingOff => "AUTO_INVOICING_OFF"
  | .autoInvoicingDraft => "AUTO_INVOICING_DRAFT"

/-- The tag with exactly this name. -/
def ofName? (s : String) : Option ControlTag := all.find? fun t => t.name == s

/-- Reads the name of a tag in any case of its letters. -/
def parse (s : String) : Except DomainError ControlTag :=
  match all.find? fun t => Text.sameIgnoringCase t.name s with
  | some t => .ok t
  | none => .error (.validation ("unknown control tag: " ++ s))

end ControlTag

/-- The tags that an account carries at one moment. -/
structure ControlTagSet where
  autoPayOff : Bool
  autoInvoicingOff : Bool
  autoInvoicingDraft : Bool
  deriving DecidableEq

namespace ControlTagSet

/-- No tags. -/
def empty : ControlTagSet := ⟨false, false, false⟩

instance : EmptyCollection ControlTagSet := ⟨empty⟩

/-- The set with one more tag. -/
def insert (s : ControlTagSet) : ControlTag → ControlTagSet
  | .autoPayOff => { s with autoPayOff := true }
  | .autoInvoicingOff => { s with autoInvoicingOff := true }
  | .autoInvoicingDraft => { s with autoInvoicingDraft := true }

/-- Whether a tag is in the set. -/
def contains (s : ControlTagSet) : ControlTag → Bool
  | .autoPayOff => s.autoPayOff
  | .autoInvoicingOff => s.autoInvoicingOff
  | .autoInvoicingDraft => s.autoInvoicingDraft

/-- The set of the listed tags. -/
def ofList (ts : List ControlTag) : ControlTagSet := ts.foldl insert empty

/-- The tags of a set, each once, in a fixed order. -/
def toList (s : ControlTagSet) : List ControlTag := ControlTag.all.filter s.contains

/-- Invoices are not committed by themselves. -/
def invoicingSuppressed (s : ControlTagSet) : Bool := s.autoInvoicingOff || s.autoInvoicingDraft

@[simp] theorem contains_insert (s : ControlTagSet) (t u : ControlTag) :
    (s.insert t).contains u = (decide (t = u) || s.contains u) := by
  cases t <;> cases u <;> simp [insert, contains]

theorem contains_foldl_insert (ts : List ControlTag) (s : ControlTagSet) (u : ControlTag) :
    (ts.foldl insert s).contains u = (s.contains u || decide (u ∈ ts)) := by
  induction ts generalizing s with
  | nil => simp
  | cons t ts ih =>
    rw [List.foldl_cons, ih, contains_insert]
    by_cases h : t = u
    · simp [h]
    · simp [h, Ne.symm h]

/-- A set contains exactly the tags that it was made from. -/
@[simp] theorem contains_ofList (ts : List ControlTag) (u : ControlTag) :
    (ofList ts).contains u = decide (u ∈ ts) := by
  rw [ofList, contains_foldl_insert]
  cases u <;> simp [empty, contains]

/-- A set is made again from its list of tags. -/
theorem ofList_toList (s : ControlTagSet) : ofList s.toList = s := by
  obtain ⟨a, b, c⟩ := s
  cases a <;> cases b <;> cases c <;> rfl

end ControlTagSet

end Billing
