import Mathlib.Data.List.Nodup
import Billing.Json.Decode

/-!
# Members of objects in other shapes

The order of the members of an object does not count, nor do members of names that nobody asks for,
and a member that is null may be left out. What is read by name is the same in all these shapes.
-/

namespace Billing.Json

variable {ms ms' : List (String × Json)} {k : String} {x : Json}

/-- The same members in some order, perhaps without some that are null, among others of names that
they do not have. -/
structure Reshaped (ms ms' : List (String × Json)) : Prop where
  exists_parts : ∃ kept dropped others : List (String × Json),
    (kept ++ dropped).Perm ms ∧ (kept ++ others).Perm ms' ∧
      (∀ m ∈ dropped, m.2 = .null) ∧ ∀ m ∈ others, m.1 ∉ ms.map (·.1)

theorem Reshaped.refl (ms : List (String × Json)) : Reshaped ms ms :=
  ⟨ms, [], [], by simp, by simp, by simp, by simp⟩

/-! ## Looking members up -/

/-- A member is found if it is the only one of its name. -/
theorem field?_of_unique (h : (k, x) ∈ ms) (hu : ∀ y, (k, y) ∈ ms → y = x) :
    (Json.object ms).field? k = some x := by
  cases hf : ms.find? fun m => m.1 == k with
  | none =>
      have hne := List.find?_eq_none.mp hf _ h
      simp at hne
  | some m =>
      obtain ⟨l, y⟩ := m
      have hl : l = k := by simpa using List.find?_some hf
      have hy := hu y (hl ▸ List.mem_of_find?_eq_some hf)
      rw [field?, hf, hy]
      rfl

theorem field?_of_absent (h : k ∉ ms.map (·.1)) : (Json.object ms).field? k = none := by
  rw [field?, List.find?_eq_none.mpr fun m hm => ?_]
  · rfl
  · simpa using fun hk : m.1 = k => h (hk ▸ List.mem_map_of_mem hm)

/-- Under a name of the members stands what stood there, or nothing in the place of null. -/
theorem Reshaped.field?_eq (h : Reshaped ms ms') (hn : (ms.map (·.1)).Nodup) (hx : (k, x) ∈ ms) :
    (Json.object ms').field? k = some x ∨
      x = .null ∧ (Json.object ms').field? k = none := by
  obtain ⟨kept, dropped, others, hms, hms', hnull, hothers⟩ := h.exists_parts
  have hkey : k ∈ ms.map (·.1) := List.mem_map_of_mem hx
  have hparts : ((kept ++ dropped).map (·.1)).Nodup := (hms.map _).nodup_iff.mpr hn
  rcases List.mem_append.mp (hms.mem_iff.mpr hx) with hx | hx
  · -- A member that was kept, and none of the others has its name.
    refine .inl (field?_of_unique (hms'.mem_iff.mp (List.mem_append_left _ hx)) fun y hy => ?_)
    rcases List.mem_append.mp (hms'.mem_iff.mpr hy) with hy | hy
    · exact (Prod.mk.inj (List.inj_on_of_nodup_map hparts (List.mem_append_left _ hy)
        (List.mem_append_left _ hx) rfl)).2
    · exact absurd hkey (hothers _ hy)
  · -- A member that was left out, and nothing has its name any more.
    refine .inr ⟨hnull _ hx, field?_of_absent fun hk => ?_⟩
    obtain ⟨⟨l, y⟩, hm, hl⟩ := List.mem_map.mp hk
    rcases List.mem_append.mp (hms'.mem_iff.mpr hm) with hm | hm
    · rw [List.map_append, List.nodup_append] at hparts
      exact hparts.2.2 _ (List.mem_map_of_mem hm) _ (List.mem_map_of_mem hx) hl
    · exact hothers _ hm (hl ▸ hkey)

/-! ## Reading members -/

/-- A shape in which a value, which is not null, is read as something. -/
structure Reads {α : Type} (shape : Json → Option α) (v : Json) (a : α) : Prop where
  ne_null : v ≠ .null
  read : shape v = some a

theorem reads_string (s : String) : Reads string? (.string s) s :=
  ⟨fun h => (by cases h), rfl⟩

/-- A value in which the given members are found, or left out if they are null. -/
def Shows (v : Json) (ms : List (String × Json)) : Prop :=
  ∀ k x, (k, x) ∈ ms → v.field? k = some x ∨ x = .null ∧ v.field? k = none

variable {v : Json} {α : Type} {shape : Json → Option α} {a : α}

theorem Reshaped.shows (h : Reshaped ms ms') (hn : (ms.map (·.1)).Nodup) :
    (Json.object ms').Shows ms := fun _ _ => h.field?_eq hn

theorem Shows.mono (h : v.Shows ms') (hs : ms ⊆ ms') : v.Shows ms := fun k x hx => h k x (hs hx)

theorem Shows.field?_eq (h : v.Shows ms) (hx : (k, x) ∈ ms) (hne : x ≠ .null) :
    v.field? k = some x := (h k x hx).resolve_right fun hnull => hne hnull.1

theorem Shows.required?_eq (h : v.Shows ms) (hx : (k, x) ∈ ms) (hr : Reads shape x a) :
    v.required? k shape = some a := by
  rw [required?, h.field?_eq hx hr.ne_null, Option.bind_some, hr.read]

/-- An optional member is read as it was written, also when it was left out. -/
theorem Shows.nullable?_eq {f : α → Json} {o : Option α} (h : v.Shows ms)
    (hx : (k, .optional f o) ∈ ms) (hr : ∀ a, Reads shape (f a) a) :
    v.nullable? k shape = some o := by
  cases o with
  | none =>
      rcases h _ _ hx with hk | ⟨-, hk⟩ <;> simp [nullable?, hk, optional]
  | some a =>
      have hk : v.field? k = some (f a) := h.field?_eq hx (hr a).ne_null
      unfold nullable?
      rw [hk]
      split
      · rename_i heq
        cases heq
      · rename_i heq
        exact absurd (Option.some.inj heq) (hr a).ne_null
      · rename_i heq
        cases heq
        rw [(hr a).read]
        rfl

end Billing.Json
