/-
  Types — types that null belongs to.

  `isNilable` looks for null through names and unions; a schema admits null by its
  kinds and its alternatives.  Where no name has an attached schema the two are the
  same (`isNilable_iff_admitsNull`): names leave no trace in a schema, a union of one
  member is the schema of that member, and others are alternatives without kinds.
-/
import ResponseSchema.Proofs.Dialect.Nullable
import ResponseSchema.Proofs.Ty.Expanded

namespace ResponseSchema

namespace Ty

/-- The schema of a union admits null iff one of its members does. -/
theorem admitsNull_of_joinMembers {t : Ty} {ss : List Schema} {s : Schema}
    (h : joinMembers t ss = .ok s) : s.admitsNull = Schema.someAdmitsNull ss := by
  rcases ss with _ | ⟨u, _ | ⟨u', us⟩⟩
  · cases h
  · cases h
    exact (Bool.or_false _).symm
  · cases h
    rfl

mutual

/-- Inside any names, a type is nilable iff the schema it has there admits null. -/
theorem isNilable_of_expand (phase : Phase) : ∀ (t : Ty) {enclosing : List String} {s : Schema},
    t.Unattached → expand phase enclosing t = .ok s → t.isNilable = s.admitsNull
  | primitive p, _, _, _, h => by
    cases h
    cases p <;> rfl
  | json, _, _, _, h => by
    cases h
    rfl
  | array element, _, _, _, h => by
    obtain ⟨items, -, rfl⟩ := map_eq_ok h
    rfl
  | union ts, _, s, ht, h => by
    obtain ⟨ss, hss, hs⟩ := bind_eq_ok h
    have members : ∀ t ∈ ts, t.Unattached := inherited_unattached.members ts ht
    calc (union ts).isNilable
      _ = anyNilable ts := rfl
      _ = Schema.someAdmitsNull ss := anyNilable_of_expandAll phase ts members hss
      _ = s.admitsNull := (admitsNull_of_joinMembers hs).symm
  | record fields, _, _, _, h => by
    cases phase with
    | runtime => cases h
    | build =>
      obtain ⟨ps, -, rfl⟩ := map_eq_ok h
      rfl
  | named identifier referred metadata, _, s, ht, h => by
    have hnone : attachedSchema? metadata = none := ht _ List.mem_cons_self
    have hreferred : referred.Unattached :=
      inherited_unattached.referred identifier referred metadata ht
    cases phase with
    | runtime => rw [expand_named_runtime hnone] at h; cases h
    | build =>
      obtain ⟨-, h⟩ := (expand_named_build_iff hnone).1 h
      exact isNilable_of_expand .build referred hreferred h
  | error, _, _, _, h => by cases h
  | other _, _, _, _, h => by cases h

theorem anyNilable_of_expandAll (phase : Phase) : ∀ (ts : List Ty) {enclosing : List String}
    {ss : List Schema}, (∀ t ∈ ts, t.Unattached) → expandAll phase enclosing ts = .ok ss →
    anyNilable ts = Schema.someAdmitsNull ss
  | [], _, _, _, h => by
    cases h
    rfl
  | t :: ts, _, _, ht, h => by
    rw [List.forall_mem_cons] at ht
    obtain ⟨s, hs, h⟩ := bind_eq_ok h
    obtain ⟨ss, hss, rfl⟩ := map_eq_ok h
    rw [anyNilable, Schema.someAdmitsNull, isNilable_of_expand phase t ht.1 hs,
      anyNilable_of_expandAll phase ts ht.2 hss]

end

/-- **A type without attached schemas is nilable iff its schema admits null.** -/
theorem isNilable_iff_admitsNull {phase : Phase} {t : Ty} {s : Schema} (ht : t.Unattached)
    (h : t.schema phase = .ok s) : t.isNilable ↔ s.admitsNull := by
  rw [schema_eq_expand] at h
  rw [isNilable_of_expand phase t ht h]

/-- A number or a name for nothing, behind names and beside a list of JSON values. -/
def numberOrNothing : Ty :=
  union [array json, named "Reply" (union [union [primitive .float],
    named "Nothing" (primitive .null) []]) []]

theorem isNilable_iff_admitsNull_numberOrNothing :
    let s : Schema := .ofAlternatives [.arrayOf .anyJson,
      .ofAlternatives [.ofKind .number, .ofKind .null]]
    numberOrNothing.Unattached ∧ numberOrNothing.schema .build = .ok s ∧
      (numberOrNothing.isNilable ↔ s.admitsNull) := by
  intro s
  have ht : numberOrNothing.Unattached := by decide
  have h : numberOrNothing.schema .build = .ok s := rfl
  exact ⟨ht, h, isNilable_iff_admitsNull ht h⟩

end Ty

end ResponseSchema
