import Mathlib.Data.List.Perm.Basic
import Mathlib.Data.String.Basic
import Billing.Fetch.Basic

/-!
# Values by name

The values of a run stand in the order of their names. A list in that order is known by its members,
so it does not matter in which order the values have come.
-/

namespace Billing.Fetch

variable {α ε : Type}

/-! ## Lists in order -/

/-- A list whose members rise by an irreflexive and transitive order is known by its members. -/
theorem eq_of_rising {β : Type} (lt : β → β → Prop) (irrefl : ∀ b, ¬ lt b b)
    (trans : ∀ a b c, lt a b → lt b c → lt a c) {xs ys : List β} (hx : xs.Pairwise lt)
    (hy : ys.Pairwise lt) (h : ∀ b, b ∈ xs ↔ b ∈ ys) : xs = ys := by
  have nodup : ∀ {zs : List β}, zs.Pairwise lt → zs.Nodup := by
    intro zs hz
    apply hz.imp
    rintro a b hab rfl
    exact irrefl a hab
  apply List.Perm.eq_of_pairwise _ hx hy
  · exact (List.perm_ext_iff_of_nodup (nodup hx) (nodup hy)).mpr h
  · intro a b _ _ hab hba
    exact absurd (trans a b a hab hba) (irrefl a)

theorem mem_inOrder {names : List String} {n : String} : n ∈ inOrder names ↔ n ∈ names :=
  (List.mergeSort_perm _ _).mem_iff

theorem rising_inOrder {names : List String} (h : names.Nodup) :
    (inOrder names).Pairwise (· < ·) := by
  have hiff : ∀ a b : String, (!decide (b < a)) = true ↔ a ≤ b := by
    intro a b
    rw [Bool.not_eq_true', decide_eq_false_iff_not, not_lt]
  have hle : (inOrder names).Pairwise (· ≤ ·) := by
    apply (List.pairwise_mergeSort _ _ names).imp
    · intro a b hab
      exact (hiff a b).mp hab
    · intro a b c hab hbc
      exact (hiff a c).mpr (le_trans ((hiff a b).mp hab) ((hiff b c).mp hbc))
    · intro a b
      rw [Bool.or_eq_true, hiff, hiff]
      exact le_total a b
  have hne : (inOrder names).Pairwise (· ≠ ·) := (List.mergeSort_perm _ _).nodup_iff.mpr h
  exact (hle.and hne).imp fun h => lt_of_le_of_ne h.1 h.2

/-! ## Setting a value -/

namespace Values

variable {values : Values α} {name : String} {a : α} {p : String × α}

/-- The names rise. -/
def Rising (values : Values α) : Prop := values.Pairwise fun p q => p.1 < q.1

theorem eq_of_members {vs ws : Values α} (hv : vs.Rising) (hw : ws.Rising)
    (h : ∀ p, p ∈ vs ↔ p ∈ ws) : vs = ws :=
  eq_of_rising (fun p q : String × α => p.1 < q.1) (fun p => String.lt_irrefl p.1)
    (fun _ _ _ => String.lt_trans) hv hw h

theorem mem_insert (h : values.Rising) :
    p ∈ values.insert name a ↔ p = (name, a) ∨ p ∈ values ∧ p.1 ≠ name := by
  induction values with
  | nil => simp [insert]
  | cons q rest ih =>
      obtain ⟨hq, hrest⟩ := List.pairwise_cons.mp h
      obtain ⟨n, b⟩ := q
      have hafter : n ≥ name → p ∈ rest → p.1 ≠ name := by
        rintro hn hp rfl
        exact absurd (hq p hp) (not_lt.mpr hn)
      unfold insert
      split
      · rename_i hlt
        have hne : p ∈ (n, b) :: rest → p.1 ≠ name := by
          intro hp
          rcases List.mem_cons.mp hp with rfl | hp
          · exact (ne_of_lt hlt).symm
          · exact hafter hlt.le hp
        rw [List.mem_cons, and_iff_left_of_imp hne]
      · split
        · rename_i _ heq
          subst heq
          rw [List.mem_cons, List.mem_cons]
          constructor
          · rintro (rfl | hp)
            · exact Or.inl rfl
            · exact Or.inr ⟨Or.inr hp, hafter le_rfl hp⟩
          · rintro (rfl | ⟨rfl | hp, hne⟩)
            · exact Or.inl rfl
            · exact absurd rfl hne
            · exact Or.inr hp
        · rename_i _ hne
          have hhead : p = (n, b) → p.1 ≠ name := by
            rintro rfl
            exact Ne.symm hne
          rw [List.mem_cons, ih hrest, List.mem_cons, or_and_right, and_iff_left_of_imp hhead,
            or_left_comm]

theorem rising_insert (h : values.Rising) : (values.insert name a).Rising := by
  induction values with
  | nil => simp [insert, Rising]
  | cons q rest ih =>
      obtain ⟨hq, hrest⟩ := List.pairwise_cons.mp h
      obtain ⟨n, b⟩ := q
      unfold insert
      split
      · rename_i hlt
        apply List.pairwise_cons.mpr
        refine ⟨fun r hr => ?_, h⟩
        rcases List.mem_cons.mp hr with rfl | hr
        · exact hlt
        · exact String.lt_trans hlt (hq r hr)
      · split
        · rename_i _ heq
          subst heq
          exact List.pairwise_cons.mpr ⟨hq, hrest⟩
        · rename_i hnlt hne
          apply List.pairwise_cons.mpr
          refine ⟨fun r hr => ?_, ih hrest⟩
          rcases (mem_insert hrest).mp hr with rfl | ⟨hr, _⟩
          · exact lt_of_le_of_ne (not_lt.mp hnlt) (Ne.symm hne)
          · exact hq r hr

/-! ## The values of fetches -/

/-- The values of some fetches, each under its name. -/
structure Collects (values : Values α) (fetches : List (Source α ε)) : Prop where
  rising : values.Rising
  mem_iff : ∀ {n a}, (n, a) ∈ values ↔ ∃ f ∈ fetches, f.name = n ∧ f.ending = .value a

variable {fetches : List (Source α ε)} {f : Source α ε}

theorem Collects.nil : Collects ([] : Values α) ([] : List (Source α ε)) :=
  ⟨List.Pairwise.nil, by simp⟩

theorem Collects.eq {vs ws : Values α} {gs : List (Source α ε)} (hv : vs.Collects fetches)
    (hw : ws.Collects gs) (h : ∀ f, f ∈ fetches ↔ f ∈ gs) : vs = ws := by
  apply eq_of_members hv.rising hw.rising
  rintro ⟨n, a⟩
  simp only [hv.mem_iff, hw.mem_iff, h]

theorem Collects.of_members {gs : List (Source α ε)} (hv : values.Collects fetches)
    (h : ∀ f, f ∈ fetches ↔ f ∈ gs) : values.Collects gs :=
  ⟨hv.rising, by simp only [hv.mem_iff, h, implies_true]⟩

/-- The value of one more fetch is set under its name, which no other fetch has. -/
theorem Collects.insert (h : values.Collects fetches) (hf : f.ending = .value a)
    (hnew : ∀ g ∈ fetches, g.name ≠ f.name) :
    (values.insert f.name a).Collects (f :: fetches) := by
  refine ⟨rising_insert h.rising, fun {n b} => ?_⟩
  rw [mem_insert h.rising, h.mem_iff]
  constructor
  · rintro (he | ⟨⟨g, hg, hn, hb⟩, _⟩)
    · cases he
      exact ⟨f, List.mem_cons_self, rfl, hf⟩
    · exact ⟨g, List.mem_cons_of_mem f hg, hn, hb⟩
  · rintro ⟨g, hg, rfl, hb⟩
    rcases List.mem_cons.mp hg with rfl | hg
    · rw [hf] at hb
      cases hb
      exact Or.inl rfl
    · exact Or.inr ⟨⟨g, hg, rfl, hb⟩, hnew g hg⟩

/-! ## Values that have come so far -/

/-- A value has come under this name. -/
def Has (values : Values α) (n : String) : Prop := ∃ a, (n, a) ∈ values

/-- The values that have come to a run: these of its fetches have been made, and those are left. -/
structure Gathers (values : Values α) (fetches made left : List (Source α ε)) : Prop where
  split : (made ++ left).Perm fetches
  collects : values.Collects made
  ended : ∀ f ∈ made, ∃ a, f.ending = .value a

namespace Gathers

variable {made left rest : List (Source α ε)} {n : String}

theorem start (fetches : List (Source α ε)) : Gathers ([] : Values α) fetches [] fetches :=
  ⟨by simp, .nil, by simp⟩

theorem mem_iff (h : values.Gathers fetches made left) : f ∈ fetches ↔ f ∈ made ∨ f ∈ left := by
  rw [← h.split.mem_iff, List.mem_append]

theorem names (h : values.Gathers fetches made left) (hn : (fetches.map (·.name)).Nodup) :
    (made.map (·.name) ++ left.map (·.name)).Nodup := by
  rw [← List.map_append]
  exact (h.split.map (·.name)).nodup_iff.mpr hn

theorem has_iff (h : values.Gathers fetches made left) :
    values.Has n ↔ n ∈ made.map (·.name) := by
  rw [Has, List.mem_map]
  constructor
  · rintro ⟨a, ha⟩
    obtain ⟨f, hf, rfl, _⟩ := h.collects.mem_iff.mp ha
    exact ⟨f, hf, rfl⟩
  · rintro ⟨f, hf, rfl⟩
    obtain ⟨a, ha⟩ := h.ended f hf
    exact ⟨a, h.collects.mem_iff.mpr ⟨f, hf, rfl, ha⟩⟩

/-- Values stand under the names of the fetches that have been made, and each name stands once. -/
theorem perm_names (h : values.Gathers fetches made left) (hn : (fetches.map (·.name)).Nodup) :
    (values.map (·.1)).Perm (made.map (·.name)) := by
  have hvalues : (values.map (·.1)).Nodup :=
    List.pairwise_map.mpr (h.collects.rising.imp fun hlt => ne_of_lt hlt)
  apply (List.perm_ext_iff_of_nodup hvalues (List.nodup_append.mp (h.names hn)).1).mpr
  intro n
  rw [← h.has_iff, Has, List.mem_map]
  exact ⟨fun ⟨⟨_, a⟩, ha, hn⟩ => ⟨a, hn ▸ ha⟩, fun ⟨a, ha⟩ => ⟨(n, a), ha, rfl⟩⟩

theorem has_of_mem (h : values.Gathers fetches made left) (hf : f ∈ made) : values.Has f.name :=
  h.has_iff.mpr (List.mem_map.mpr ⟨f, hf, rfl⟩)

/-- Where none is left, all have been made. -/
theorem all_made (h : values.Gathers fetches made []) (f : Source α ε) : f ∈ fetches ↔ f ∈ made := by
  rw [h.mem_iff, or_iff_left List.not_mem_nil]

/-- A value is missing under the names of the fetches that are left, and under no others. -/
theorem mem_left_iff (h : values.Gathers fetches made left) (hn : (fetches.map (·.name)).Nodup) :
    n ∈ left.map (·.name) ↔ ∃ f ∈ fetches, f.name = n ∧ ¬ values.Has n := by
  have hdisjoint := (List.nodup_append.mp (h.names hn)).2.2
  constructor
  · intro hl
    obtain ⟨f, hf, rfl⟩ := List.mem_map.mp hl
    refine ⟨f, h.mem_iff.mpr (Or.inr hf), rfl, fun hhas => ?_⟩
    exact hdisjoint _ (h.has_iff.mp hhas) _ hl rfl
  · rintro ⟨f, hf, rfl, hnot⟩
    rcases h.mem_iff.mp hf with hm | hl
    · exact absurd (h.has_of_mem hm) hnot
    · exact List.mem_map.mpr ⟨f, hl, rfl⟩

theorem not_has_of_mem (h : values.Gathers fetches made left) (hn : (fetches.map (·.name)).Nodup)
    (hf : f ∈ left) : ¬ values.Has f.name := by
  obtain ⟨_, _, he, hnot⟩ := (h.mem_left_iff hn).mp (List.mem_map.mpr ⟨f, hf, rfl⟩)
  exact he ▸ hnot

/-- The value of one of the fetches that are left comes. -/
theorem insert (h : values.Gathers fetches made left) (hn : (fetches.map (·.name)).Nodup)
    (hl : left.Perm (f :: rest)) (hf : f.ending = .value a) :
    (values.insert f.name a).Gathers fetches (f :: made) rest := by
  have hnew : ∀ g ∈ made, g.name ≠ f.name := by
    intro g hg
    exact (List.nodup_append.mp (h.names hn)).2.2 _ (List.mem_map.mpr ⟨g, hg, rfl⟩) _
      (List.mem_map.mpr ⟨f, hl.mem_iff.mpr List.mem_cons_self, rfl⟩)
  refine ⟨?_, h.collects.insert hf hnew, ?_⟩
  · exact (List.perm_middle.symm.trans (hl.symm.append_left made)).trans h.split
  · intro g hg
    rcases List.mem_cons.mp hg with rfl | hg
    · exact ⟨a, hf⟩
    · exact h.ended g hg

end Gathers

end Values

end Billing.Fetch
