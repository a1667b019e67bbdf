/-
  Types — an error beside a result.

  A result without errors is described as it is declared; an error beside it opens
  its unions, and what is opened is described by the leaves.

  `responseSchema_union_error`: so an error beside a result adds no value and takes
  none away.  The schema itself changes where unions are declared inside unions, and
  the failure where an empty union fails before any leaf does.
-/
import ResponseSchema.Proofs.Ty.Faults
import ResponseSchema.Proofs.Ty.Flattened
import ResponseSchema.Proofs.Ty.Foreign
import ResponseSchema.Ty.Resolution

namespace ResponseSchema

namespace Ty

variable {phase : Phase} {enclosing : List String}

/-! ## The first failure -/

/-- Of several types the first failure counts. -/
theorem failure?_expandAll_eq_findSome? (ts : List Ty) :
    failure? (expandAll phase enclosing ts) =
      ts.findSome? fun t => failure? (expand phase enclosing t) := by
  induction ts with
  | nil => rfl
  | cons t ts ih =>
    rw [expandAll, failure?_bind fun s _ => failure?_map _ _, ih, List.findSome?_cons]
    cases failure? (expand phase enclosing t) <;> rfl

/-- What is put together fails as the first of its parts that fails. -/
theorem failure?_of_unionOf? {us : List Ty} {r : Ty} (h : unionOf? us = some r) :
    failure? (expand .build enclosing r) =
      us.findSome? fun u => failure? (expand .build enclosing u) := by
  have hne : us ≠ [] := by
    rintro rfl
    cases h
  have joins : ∀ ss, expandAll .build enclosing us = .ok ss →
      failure? (joinMembers (union us) ss) = none := fun ss hss =>
    (failure?_joinMembers hss).trans (if_neg hne)
  rw [expand_of_unionOf? h, failure?_bind joins, failure?_expandAll_eq_findSome?, Option.or_none]

/-! ## An error beside a result -/

/-- The leaves describe a type as it is described itself: its schema is theirs, or the first leaf
    without a schema fails as the type does. -/
def DescribedByLeaves (t : Ty) : Prop :=
  match t.schema .build with
  | .ok _ => t.Shallow
  | .error e => ∃ e', (t.leaves.findSome? fun u => failure? (u.schema .build)) = some e' ∧
      e'.worded = e.worded

theorem responseSchema_of_response? {t r : Ty} (h : t.response? = some r) :
    t.responseSchema = (r.schema .build).map some := by
  rw [responseSchema, h]

/-- A type with a schema has one beside an error. -/
theorem responseSchema_union_error_of_ok {t : Ty} {s : Schema}
    (hfree : t.errorFree = t.leaves) (hs : t.schema .build = .ok s) :
    ∃ s', (union [t, error]).responseSchema = .ok (some s') ∧ (s' = s ↔ t.Shallow) ∧
      ∀ v, s'.accepts v = s.accepts v := by
  rw [schema_eq_expand] at hs
  obtain ⟨us, hus, hpos, haccepts⟩ := expand_leaves t hs
  obtain ⟨r, hr⟩ : ∃ r, unionOf? t.leaves = some r := by
    rw [← Option.ne_none_iff_exists', ne_eq, unionOf?_eq_none_iff, ← List.length_eq_zero_iff]
    have hlength := length_of_expandAll hus
    omega
  obtain ⟨s', hs'⟩ : ∃ s', joinMembers (union t.leaves) us = .ok s' := by
    rcases us with _ | ⟨u, _ | ⟨u', us⟩⟩
    · simp at hpos
    · exact ⟨_, rfl⟩
    · exact ⟨_, rfl⟩
  have hschema : r.schema .build = .ok s' := by
    rw [schema_eq_expand, expand_of_unionOf? hr, hus]
    exact hs'
  refine ⟨s', ?_, joined_leaves_eq_iff hs hus hs', fun v => ?_⟩
  · rw [responseSchema_of_response? (response?_union_error t ▸ hfree ▸ hr), hschema]
    rfl
  · rw [Bool.eq_iff_iff, haccepts v, (accepts_joinMembers hs').2 v]

/-- Beside an error a type fails as the first of its leaves that fails. -/
theorem responseSchema_union_error_iff {t : Ty} (hfree : t.errorFree = t.leaves) (e : SchemaError) :
    (union [t, error]).responseSchema.mapError SchemaError.worded = .error e.worded ↔
      ∃ e', (t.leaves.findSome? fun u => failure? (u.schema .build)) = some e' ∧
        e'.worded = e.worded := by
  cases hr : unionOf? t.leaves with
  | none =>
    have hnone : (union [t, error]).responseSchema = .ok none := by
      rw [responseSchema, response?_union_error, hfree, hr]
    rw [hnone, unionOf?_eq_none_iff.1 hr]
    exact iff_of_false nofun nofun
  | some r =>
    have hresponse : (union [t, error]).response? = some r := by
      rw [response?_union_error, hfree, hr]
    simp only [responseSchema_of_response? hresponse, schema_eq_expand, ← failure?_of_unionOf? hr]
    cases expand .build [] r with
    | ok s => exact iff_of_false nofun nofun
    | error e' => simp [failure?, Except.map, Except.mapError]

/-- **An error beside a result changes nothing in what its schema accepts**, and nothing at all iff
    an error is there already or the leaves describe the result as it is described itself. -/
theorem responseSchema_union_error (t : Ty) :
    ((union [t, error]).responseSchema.mapError SchemaError.worded =
        t.responseSchema.mapError SchemaError.worded ↔
      (∃ u ∈ t.leaves, u.isError) ∨ t.DescribedByLeaves) ∧
    ∀ s, t.responseSchema = .ok (some s) →
      ∃ s', (union [t, error]).responseSchema = .ok (some s') ∧
        ∀ v, s'.accepts v = s.accepts v := by
  by_cases herrors : ∃ u ∈ t.leaves, u.isError
  · have hsame : (union [t, error]).responseSchema = t.responseSchema := by
      rw [responseSchema, responseSchema, response?_union_error, response?_eq t,
        if_pos (List.any_eq_true.2 herrors)]
    rw [hsame]
    exact ⟨iff_of_true rfl (.inl herrors), fun s hs => ⟨s, hs, fun _ => rfl⟩⟩
  · have hnone : ∀ u ∈ t.leaves, u.isError = false := by simpa using herrors
    have hfree : t.errorFree = t.leaves := errorFree_eq_leaves hnone
    have hself : t.responseSchema = (t.schema .build).map some :=
      responseSchema_of_response? (response?_eq_self_of_errorFree hnone)
    rw [or_iff_right herrors, hself, DescribedByLeaves]
    cases hschema : t.schema .build with
    | error e => exact ⟨responseSchema_union_error_iff hfree e, nofun⟩
    | ok s =>
      obtain ⟨s', hs', hiff, haccepts⟩ := responseSchema_union_error_of_ok hfree hschema
      rw [hs']
      constructor
      · simpa [Except.map, Except.mapError] using hiff
      · rintro _ ⟨rfl⟩
        exact ⟨s', rfl, haccepts⟩

/-- Behind a union of one member there is no union. -/
theorem responseSchema_union_error_wrapped :
    let t := union [union [primitive .string], primitive .null]
    t.responseSchema = .ok (some (.ofAlternatives [.ofKind .string, .ofKind .null])) ∧
    (union [t, error]).responseSchema.mapError SchemaError.worded =
      t.responseSchema.mapError SchemaError.worded := by
  intro t
  have hshallow : t.Shallow := by
    intro ts hts u hu
    obtain rfl : [union [primitive .string], primitive .null] = ts := union.inj hts
    rw [List.mem_cons, List.mem_singleton] at hu
    rcases hu with rfl | rfl
    · exact nofun
    · exact nofun
  exact ⟨rfl, (responseSchema_union_error t).1.2 (.inr hshallow)⟩

/-- A union of two members inside a union: the error opens it. -/
theorem responseSchema_union_error_ne :
    let t := union [union [primitive .string, primitive .int], primitive .boolean]
    t.response? = some t ∧
    t.responseSchema = .ok (some (.ofAlternatives
      [.ofAlternatives [.ofKind .string, .ofKind .integer], .ofKind .boolean])) ∧
    (union [t, error]).responseSchema = .ok (some (.ofAlternatives
      [.ofKind .string, .ofKind .integer, .ofKind .boolean])) ∧
    (union [t, error]).responseSchema ≠ t.responseSchema := by
  refine ⟨rfl, rfl, rfl, ?_⟩
  rintro ⟨⟩

end Ty

end ResponseSchema
