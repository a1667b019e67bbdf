/-
  Types — unions that are opened.

  A type is described as it is declared; its leaves describe it with the unions
  inside unions opened, one alternative each.

  * `expand_leaves`: a type that has a schema has one by its leaves, and together they
    accept the same values;
  * `joined_leaves_eq_iff`: that schema is the one of the type iff the type is
    `Shallow`.
-/
import ResponseSchema.Proofs.Dialect.Acceptance
import ResponseSchema.Proofs.Ty.Latest
import ResponseSchema.Proofs.Ty.Leaves

namespace ResponseSchema

/-! ## Schemas of unions -/

namespace Schema

theorem accepts_ofAlternatives (ss : List Schema) (v : Json) :
    (ofAlternatives ss).accepts v ↔ ∃ s ∈ ss, s.accepts v := by
  rw [accepts_iff]
  constructor
  · intro h
    exact h.anyOf ss rfl
  · intro h
    refine ⟨nofun, nofun, nofun, ?_⟩
    rintro _ ⟨rfl⟩
    exact h

end Schema

namespace Ty

variable {phase : Phase} {enclosing : List String}

theorem accepts_joinMembers {t : Ty} {ss : List Schema} {s : Schema}
    (h : joinMembers t ss = .ok s) :
    0 < ss.length ∧ ∀ v, s.accepts v ↔ ∃ u ∈ ss, u.accepts v := by
  rcases ss with _ | ⟨u, _ | ⟨u', us⟩⟩
  · cases h
  · cases h
    simp
  · cases h
    exact ⟨by simp, Schema.accepts_ofAlternatives _⟩

theorem expandAll_singleton (t : Ty) :
    expandAll phase enclosing [t] = (expand phase enclosing t).map ([·]) := by
  rw [expandAll, expandAll]
  cases expand phase enclosing t <;> rfl

theorem expandAll_append {ts us : List Ty} {ss ss' : List Schema}
    (hts : expandAll phase enclosing ts = .ok ss) (hus : expandAll phase enclosing us = .ok ss') :
    expandAll phase enclosing (ts ++ us) = .ok (ss ++ ss') := by
  rw [expandAll_eq_mapM] at hts hus ⊢
  rw [List.mapM_append, hts, hus]
  rfl

theorem length_of_expandAll {ts : List Ty} {ss : List Schema}
    (h : expandAll phase enclosing ts = .ok ss) : ss.length = ts.length := by
  induction ts generalizing ss with
  | nil => cases h; rfl
  | cons t ts ih =>
    obtain ⟨s, -, h⟩ := bind_eq_ok h
    obtain ⟨ss, hss, rfl⟩ := map_eq_ok h
    rw [List.length_cons, List.length_cons, ih hss]

/-- What is put together is described by the schemas of its parts. -/
theorem expand_of_unionOf? {us : List Ty} {r : Ty} (h : unionOf? us = some r) :
    expand phase enclosing r = (expandAll phase enclosing us).bind (joinMembers (union us)) := by
  rcases us with _ | ⟨u, _ | ⟨u', us⟩⟩
  · cases h
  · cases h
    rw [expandAll_singleton]
    cases expand phase enclosing r <;> rfl
  · cases h
    rfl

/-! ## Schemas of leaves -/

theorem expandAll_of_isLeaf {t : Ty} {s : Schema} (hleaf : t.IsLeaf)
    (h : expand phase enclosing t = .ok s) : expandAll phase enclosing t.leaves = .ok [s] := by
  rw [hleaf.leaves, expandAll_singleton, h]
  rfl

mutual

/-- **A type that has a schema is described by its leaves**: together they accept what its schema
    accepts. -/
theorem expand_leaves : ∀ (t : Ty) {s : Schema}, expand phase enclosing t = .ok s →
    ∃ us, expandAll phase enclosing t.leaves = .ok us ∧ 0 < us.length ∧
      ∀ v, s.accepts v ↔ ∃ u ∈ us, u.accepts v
  | union ts, s, h => by
    obtain ⟨ss, hss, h⟩ := bind_eq_ok h
    obtain ⟨us, hus, hlength, hall⟩ := expandAll_leavesAll ts hss
    obtain ⟨hpos, hs⟩ := accepts_joinMembers h
    exact ⟨us, hus, by omega, fun v => (hs v).trans (hall v)⟩
  | primitive _, s, h | json, s, h | array _, s, h | record _, s, h | named .., s, h
  | error, s, h | other _, s, h =>
    ⟨[s], expandAll_of_isLeaf nofun h, by simp, by simp⟩

theorem expandAll_leavesAll : ∀ (ts : List Ty) {ss : List Schema},
    expandAll phase enclosing ts = .ok ss →
    ∃ us, expandAll phase enclosing (leavesAll ts) = .ok us ∧ ss.length ≤ us.length ∧
      ∀ v, (∃ s ∈ ss, s.accepts v) ↔ ∃ u ∈ us, u.accepts v
  | [], ss, h => ⟨ss, h, Nat.le_refl _, fun _ => Iff.rfl⟩
  | t :: ts, ss, h => by
    obtain ⟨s, hs, h⟩ := bind_eq_ok h
    obtain ⟨ss, hss, rfl⟩ := map_eq_ok h
    obtain ⟨us, hus, hpos, hone⟩ := expand_leaves t hs
    obtain ⟨us', hus', hlength, hall⟩ := expandAll_leavesAll ts hss
    refine ⟨us ++ us', expandAll_append hus hus', ?_, fun v => ?_⟩
    · simp only [List.length_cons, List.length_append]
      omega
    · simp only [List.mem_cons, List.mem_append, or_and_right, exists_or, exists_eq_left, hone,
        hall]

end

/-! ## Unions inside unions -/

/-- The type behind unions of one member. -/
def unwrapped : Ty → Ty
  | union [t] => t.unwrapped
  | t => t

/-- Behind unions of one member the type is no union, or a union without unions among its
    members. -/
def Shallow (t : Ty) : Prop :=
  ∀ ts, t.unwrapped = union ts → ∀ u ∈ ts, u.unwrapped.IsLeaf

theorem leaves_unwrapped (t : Ty) : t.unwrapped.leaves = t.leaves := by
  fun_induction unwrapped t with
  | case1 t ih => rw [ih, leaves_union, List.flatMap_singleton]
  | case2 => rfl

theorem expand_unwrapped (t : Ty) :
    expand phase enclosing t.unwrapped = expand phase enclosing t := by
  fun_induction unwrapped t with
  | case1 t ih => rw [ih, expand, expandAll_singleton]; cases expand phase enclosing t <;> rfl
  | case2 => rfl

theorem unwrapped_ne (t u : Ty) : t.unwrapped ≠ union [u] := by
  fun_induction unwrapped t with
  | case1 t ih => exact ih
  | case2 t h => exact h u

theorem exists_expand_of_expandAll {ts : List Ty} {ss : List Schema}
    (h : expandAll phase enclosing ts = .ok ss) :
    ∀ t ∈ ts, ∃ s, expand phase enclosing t = .ok s := by
  induction ts generalizing ss with
  | nil => simp
  | cons t ts ih =>
    obtain ⟨s, hs, h⟩ := bind_eq_ok h
    obtain ⟨ss, hss, -⟩ := map_eq_ok h
    exact List.forall_mem_cons.2 ⟨⟨s, hs⟩, ih hss⟩

/-- Behind unions of one member a type that has a schema is a leaf or has two members. -/
theorem unwrapped_cases_of_expand {t : Ty} {s : Schema} (h : expand phase enclosing t = .ok s) :
    t.unwrapped.IsLeaf ∨ ∃ u u' us, t.unwrapped = union (u :: u' :: us) := by
  by_cases hleaf : t.unwrapped.IsLeaf
  · exact .inl hleaf
  · obtain ⟨ts, hts⟩ : ∃ ts, t.unwrapped = union ts := by simpa [IsLeaf] using hleaf
    rw [← expand_unwrapped, hts] at h
    rcases ts with _ | ⟨u, _ | ⟨u', us⟩⟩
    · cases h
    · exact absurd hts (unwrapped_ne t u)
    · exact .inr ⟨u, u', us, hts⟩

theorem one_le_length_leaves {t : Ty} {s : Schema} (h : expand phase enclosing t = .ok s) :
    1 ≤ t.leaves.length := by
  obtain ⟨us, hus, hpos, -⟩ := expand_leaves t h
  rwa [length_of_expandAll hus] at hpos

/-- A type with one leaf is that leaf behind unions of one member, if it has a schema. -/
theorem isLeaf_unwrapped {t : Ty} {s : Schema} (h : expand phase enclosing t = .ok s)
    (hone : t.leaves.length = 1) : t.unwrapped.IsLeaf := by
  rcases unwrapped_cases_of_expand h with hleaf | ⟨u, u', us, hunion⟩
  · exact hleaf
  · -- each of the two members has a schema, so each has a leaf
    exfalso
    rw [← expand_unwrapped, hunion] at h
    obtain ⟨ss, hss, -⟩ := bind_eq_ok h
    have members := exists_expand_of_expandAll hss
    obtain ⟨s, hs⟩ := members u (by simp)
    obtain ⟨s', hs'⟩ := members u' (by simp)
    have hfirst := one_le_length_leaves hs
    have hsecond := one_le_length_leaves hs'
    rw [← leaves_unwrapped, hunion, leaves_union] at hone
    simp only [List.flatMap_cons, List.length_append] at hone
    omega

theorem length_le_length_leaves {ts : List Ty}
    (h : ∀ u ∈ ts, ∃ s, expand phase enclosing u = .ok s) :
    ts.length ≤ (ts.flatMap leaves).length := by
  induction ts with
  | nil => simp
  | cons t ts ih =>
    rw [List.forall_mem_cons] at h
    obtain ⟨⟨s, hs⟩, h⟩ := h
    have hone := one_le_length_leaves hs
    have htail := ih h
    simp only [List.flatMap_cons, List.length_append, List.length_cons]
    omega

/-- Members that have schemas and as many leaves as they are have one leaf each. -/
theorem length_leaves_eq_one {ts : List Ty}
    (h : ∀ u ∈ ts, ∃ s, expand phase enclosing u = .ok s)
    (hlength : (ts.flatMap leaves).length = ts.length) : ∀ u ∈ ts, u.leaves.length = 1 := by
  induction ts with
  | nil => simp
  | cons t ts ih =>
    rw [List.forall_mem_cons] at h ⊢
    obtain ⟨⟨s, hs⟩, h⟩ := h
    have hone := one_le_length_leaves hs
    have htail := length_le_length_leaves h
    simp only [List.flatMap_cons, List.length_append, List.length_cons] at hlength
    exact ⟨by omega, ih h (by omega)⟩

theorem expandAll_map_unwrapped (ts : List Ty) :
    expandAll phase enclosing (ts.map unwrapped) = expandAll phase enclosing ts := by
  induction ts with
  | nil => rfl
  | cons t ts ih => rw [List.map_cons, expandAll, expandAll, expand_unwrapped, ih]

theorem flatMap_leaves_of_unwrapped {ts : List Ty} (h : ∀ u ∈ ts, u.unwrapped.IsLeaf) :
    ts.flatMap leaves = ts.map unwrapped := by
  induction ts with
  | nil => rfl
  | cons t ts ih =>
    rw [List.forall_mem_cons] at h
    rw [List.flatMap_cons, List.map_cons, ih h.2, ← leaves_unwrapped, h.1.leaves,
      List.singleton_append]

theorem joinMembers_of_two_le {t : Ty} {ss : List Schema} (h : 2 ≤ ss.length) :
    joinMembers t ss = .ok (.ofAlternatives ss) := by
  rcases ss with _ | ⟨s, _ | ⟨s', ss⟩⟩
  · simp at h
  · simp at h
  · rfl

/-- The leaves of some members have the schemas of the members iff each member is a leaf behind
    unions of one member. -/
theorem expandAll_leaves_eq_iff {ts : List Ty} {ss us : List Schema}
    (hss : expandAll phase enclosing ts = .ok ss)
    (hus : expandAll phase enclosing (ts.flatMap leaves) = .ok us) :
    us = ss ↔ ∀ u ∈ ts, u.unwrapped.IsLeaf := by
  have members : ∀ u ∈ ts, ∃ s, expand phase enclosing u = .ok s :=
    exists_expand_of_expandAll hss
  constructor
  · rintro rfl u hu
    have hlength : (ts.flatMap leaves).length = ts.length :=
      (length_of_expandAll hus).symm.trans (length_of_expandAll hss)
    obtain ⟨s, hs⟩ := members u hu
    exact isLeaf_unwrapped hs (length_leaves_eq_one members hlength u hu)
  · intro hleaves
    rw [flatMap_leaves_of_unwrapped hleaves, expandAll_map_unwrapped, hss] at hus
    exact (Except.ok.inj hus).symm

/-- **The leaves of a type have its schema iff no union stands inside a union.** -/
theorem joined_leaves_eq_iff {t u : Ty} {s s' : Schema} {us : List Schema}
    (h : expand phase enclosing t = .ok s) (hus : expandAll phase enclosing t.leaves = .ok us)
    (hs' : joinMembers u us = .ok s') : s' = s ↔ t.Shallow := by
  have hcases := unwrapped_cases_of_expand h
  rw [← expand_unwrapped] at h
  rw [← leaves_unwrapped] at hus
  rcases hcases with hleaf | ⟨v, v', vs, hunion⟩
  · have hsame : us = [s] := Except.ok.inj (hus.symm.trans (expandAll_of_isLeaf hleaf h))
    subst hsame
    exact iff_of_true (Except.ok.inj hs').symm fun ts hts => absurd hts (hleaf ts)
  · rw [hunion] at h hus
    rw [leaves_union] at hus
    obtain ⟨ss, hss, h⟩ := bind_eq_ok h
    have hlength := length_of_expandAll hss
    have hle := length_le_length_leaves (exists_expand_of_expandAll hss)
    rw [← length_of_expandAll hus, ← hlength] at hle
    simp only [List.length_cons] at hlength
    rw [joinMembers_of_two_le (by omega)] at h hs'
    cases h
    cases hs'
    calc Schema.ofAlternatives us = Schema.ofAlternatives ss
      _ ↔ us = ss := by simp [Schema.ofAlternatives, Schema.empty]
      _ ↔ ∀ w ∈ v :: v' :: vs, w.unwrapped.IsLeaf := expandAll_leaves_eq_iff hss hus
      _ ↔ t.Shallow := by simp [Shallow, hunion]

end Ty

end ResponseSchema
