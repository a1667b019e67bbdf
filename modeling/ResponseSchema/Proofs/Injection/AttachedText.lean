/-
  Injection — texts of attached schemas.

  The running program takes an attached schema as it is.  The injection lowers it
  once more, as it does with every raw schema, so its text is that of the schema
  only where lowering changes nothing.

  * `compact_normalize_eq_iff`: the text stays iff every node is tidy and names
    kinds or alternatives, not both;
  * `text_of_resolve`: so the text of a name with an attached schema is that of the
    schema iff the schema is of this form.
-/
import ResponseSchema.Proofs.Injection.Texts
import ResponseSchema.Proofs.Ty.Phases

namespace ResponseSchema

theorem Schema.compact_normalize_eq_iff (s : Schema) :
    s.normalize.compact = s.compact ↔ ∀ n ∈ s.nodes, n.Tidy ∧ ¬ n.Mixed := by
  rw [← normalize_eq_self_iff]
  exact ⟨compact_inj, congrArg compact⟩

/-- A name with an attached schema has that schema in the build too. -/
theorem Ty.schema_build_of_resolve {t : Ty} {s : Schema} (h : t.resolve = .ok (.attached s)) :
    t.schema .build = .ok s := by
  rw [resolve_eq] at h
  obtain ⟨r, hr, hattached⟩ := map_eq_ok h
  split at hattached
  · cases hattached
    exact (schema_runtime_iff.1 hr).1
  · cases hattached

/-- **The text of an attached schema** is that of the schema lowered once more; it is that of the
    schema itself iff each node is tidy and names kinds or alternatives, not both. -/
theorem text_of_resolve {n : NamedType} {s : Schema} (h : n.toTy.resolve = .ok (.attached s)) :
    ∃ text, SchemaMapper.algebra n >>= Schema.textOfRaw = .ok text ∧
      Schema.textOfRaw s.toJson = .ok text ∧
      (text = s.compact ↔ ∀ m ∈ s.nodes, m.Tidy ∧ ¬ m.Mixed) :=
  ⟨s.normalize.compact, SchemaMapper.textOfRaw_algebra (Ty.schema_build_of_resolve h),
    s.textOfRaw_toJson, s.compact_normalize_eq_iff⟩

/-- A name with a schema attached. -/
def NamedType.status (s : Schema) : NamedType :=
  (plain "Status" (.primitive .string)).withSchema s.toJson

/-- A string or null, by two kinds: the text is that of the schema. -/
theorem text_of_resolve_kinds :
    (NamedType.status (.ofKinds [.string, .null])).toTy.resolve =
      .ok (.attached (.ofKinds [.string, .null])) ∧
    SchemaMapper.algebra (.status (.ofKinds [.string, .null])) >>= Schema.textOfRaw =
      .ok (Schema.ofKinds [.string, .null]).compact := by
  have hresolve : (NamedType.status (.ofKinds [.string, .null])).toTy.resolve =
      .ok (.attached (.ofKinds [.string, .null])) := rfl
  obtain ⟨text, htext, -, hsame⟩ := text_of_resolve hresolve
  have normal : ∀ m ∈ (Schema.ofKinds [.string, .null]).nodes, m.Tidy ∧ ¬ m.Mixed := by
    rw [← Schema.normalize_eq_self_iff]
    rfl
  exact ⟨hresolve, htext.trans (congrArg _ (hsame.2 normal))⟩

/-- A kind beside alternatives. -/
def Schema.kindAndAlternatives : Schema :=
  ⟨some (.single .string), none, none, some [.ofKind .string, .ofKind .null]⟩

/-- With a kind beside alternatives, the text loses the kind. -/
theorem text_ne_of_mixed :
    (NamedType.status .kindAndAlternatives).toTy.resolve =
      .ok (.attached .kindAndAlternatives) ∧
    SchemaMapper.algebra (.status .kindAndAlternatives) >>= Schema.textOfRaw ≠
      .ok Schema.kindAndAlternatives.compact := by
  refine ⟨rfl, fun h => ?_⟩
  rw [SchemaMapper.textOfRaw_algebra (s := .kindAndAlternatives) rfl, Except.ok.injEq,
    Schema.compact_normalize_eq_iff, Schema.forall_mem_nodes] at h
  exact h.1.2 ⟨rfl, rfl⟩

end ResponseSchema
