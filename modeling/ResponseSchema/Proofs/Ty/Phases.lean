/-
  Types — the running program against the build.

  Both walk a type in the same way, but the running program cannot expand records
  and names.

  * `Reaches`: what a type shows through arrays and unions; a name hides what it
    refers to, and a record its fields;
  * `BuildOnly`: what only the build expands;
  * `expand_runtime`: where nothing of that is reached, both walks have the same
    result, and otherwise the running program has none (`ready_of_expand_runtime`);
  * `resolve_eq`: `resolve` answers as the running program does, and says whether
    the schema was attached to the type itself;
  * `runtime_refines_build`: all of this for the schema of a type.
-/
import ResponseSchema.Proofs.Ty.Attached
import ResponseSchema.Ty.Resolution

namespace ResponseSchema

namespace Ty

/-! ## What a type shows -/

/-- The type itself, and what its arrays and unions consist of. -/
inductive Reaches : Ty → Ty → Prop
  | refl (t : Ty) : Reaches t t
  | element {t u : Ty} : Reaches t u → Reaches (array t) u
  | member {ts : List Ty} {t u : Ty} : t ∈ ts → Reaches t u → Reaches (union ts) u

/-- Records, and names without an attached schema. -/
def BuildOnly : Ty → Prop
  | record _ => True
  | named identifier referred metadata => NamedType.attached? ⟨identifier, referred, metadata⟩ = none
  | _ => False

/-- Nothing is reached that only the build expands. -/
def Ready (t : Ty) : Prop :=
  ∀ u, t.Reaches u → ¬ u.BuildOnly

theorem Ready.not_buildOnly {t : Ty} (h : t.Ready) : ¬ t.BuildOnly :=
  h t (.refl t)

theorem ready_array_iff {t : Ty} : (array t).Ready ↔ t.Ready := by
  constructor
  · exact fun h u hu => h u (.element hu)
  · rintro h _ (_ | hu)
    · exact id
    · exact h _ hu

theorem ready_union_iff {ts : List Ty} : (union ts).Ready ↔ ∀ t ∈ ts, t.Ready := by
  constructor
  · exact fun h t ht u hu => h u (.member ht hu)
  · rintro h _ (_ | _ | ⟨ht, hu⟩)
    · exact id
    · exact h _ ht _ hu

theorem ready_named_of_attached {n : NamedType} {v : Json} (h : n.attached? = some v) :
    n.toTy.Ready := by
  rintro _ (_ | _) hbuild
  have hnone : n.attached? = none := hbuild
  rw [h] at hnone
  cases hnone

/-! ## The two walks -/

mutual

/-- **Where nothing is reached that only the build expands, both have the same result**, be it a
    schema or an error. -/
theorem expand_runtime : ∀ (t : Ty) (enclosing : List String), t.Ready →
    expand .runtime enclosing t = expand .build enclosing t
  | primitive _, _, _ => rfl
  | json, _, _ => rfl
  | array element, enclosing, h => by
    rw [expand, expand, expand_runtime element enclosing (ready_array_iff.1 h)]
  | union ts, enclosing, h => by
    rw [expand, expand, expandAll_runtime ts enclosing (ready_union_iff.1 h)]
  | record _, _, h => (h.not_buildOnly trivial).elim
  | named identifier referred metadata, enclosing, h => by
    cases hattached : attachedSchema? metadata with
    | none => exact (h.not_buildOnly hattached).elim
    | some v => rw [expand_named_of_attached hattached, expand_named_of_attached hattached]
  | error, _, _ => rfl
  | other _, _, _ => rfl

theorem expandAll_runtime : ∀ (ts : List Ty) (enclosing : List String), (∀ t ∈ ts, t.Ready) →
    expandAll .runtime enclosing ts = expandAll .build enclosing ts
  | [], _, _ => rfl
  | t :: ts, enclosing, h => by
    rw [List.forall_mem_cons] at h
    rw [expandAll, expandAll, expand_runtime t enclosing h.1, expandAll_runtime ts enclosing h.2]

end

mutual

/-- **The running program has a schema only where nothing is reached that only the build
    expands.** -/
theorem ready_of_expand_runtime : ∀ (t : Ty) (enclosing : List String) (s : Schema),
    expand .runtime enclosing t = .ok s → t.Ready
  | primitive _, _, _, _ => by rintro _ (_ | _); exact id
  | json, _, _, _ => by rintro _ (_ | _); exact id
  | array element, enclosing, _, h => by
    obtain ⟨items, hitems, -⟩ := map_eq_ok h
    exact ready_array_iff.2 (ready_of_expand_runtime element enclosing items hitems)
  | union ts, enclosing, _, h => by
    obtain ⟨ss, hss, -⟩ := bind_eq_ok h
    exact ready_union_iff.2 (ready_of_expandAll_runtime ts enclosing ss hss)
  | record _, _, _, h => by cases h
  | named identifier referred metadata, _, _, h => by
    cases hattached : attachedSchema? metadata with
    | none => rw [expand_named_runtime hattached] at h; cases h
    | some v => exact ready_named_of_attached (n := ⟨identifier, referred, metadata⟩) hattached
  | error, _, _, h => by cases h
  | other _, _, _, h => by cases h

theorem ready_of_expandAll_runtime : ∀ (ts : List Ty) (enclosing : List String)
    (ss : List Schema), expandAll .runtime enclosing ts = .ok ss → ∀ t ∈ ts, t.Ready
  | [], _, _, _ => by simp
  | t :: ts, enclosing, _, h => by
    obtain ⟨s, hs, h⟩ := bind_eq_ok h
    obtain ⟨ss, hss, -⟩ := map_eq_ok h
    rw [List.forall_mem_cons]
    exact ⟨ready_of_expand_runtime t enclosing s hs,
      ready_of_expandAll_runtime ts enclosing ss hss⟩

end

theorem schema_runtime_iff {t : Ty} {s : Schema} :
    t.schema .runtime = .ok s ↔ t.schema .build = .ok s ∧ t.Ready := by
  rw [schema_eq_expand, schema_eq_expand]
  constructor
  · intro h
    have ready := ready_of_expand_runtime t [] s h
    exact ⟨expand_runtime t [] ready ▸ h, ready⟩
  · rintro ⟨h, ready⟩
    rw [expand_runtime t [] ready, h]

/-! ## Resolving -/

theorem asNamed?_eq_some_iff {t : Ty} {n : NamedType} : t.asNamed? = some n ↔ t = n.toTy := by
  obtain ⟨identifier, referred, metadata⟩ := n
  cases t <;> simp [asNamed?, NamedType.toTy]

theorem attached?_eq_some_iff {t : Ty} {v : Json} :
    t.asNamed?.bind NamedType.attached? = some v ↔
      ∃ n : NamedType, t = n.toTy ∧ n.attached? = some v := by
  simp only [Option.bind_eq_some_iff, asNamed?_eq_some_iff]

/-- **`resolve` answers as the running program does**, with an attached schema iff the type is a
    name that has one. -/
theorem resolve_eq (t : Ty) : t.resolve =
    (t.schema .runtime).map
      (if (t.asNamed?.bind NamedType.attached?).isSome then .attached else .derived) := by
  rw [resolve]
  cases h : t.asNamed?.bind NamedType.attached? with
  | none => rfl
  | some v =>
    obtain ⟨n, rfl, hattached⟩ := attached?_eq_some_iff.1 h
    rw [schema_eq_expand, NamedType.toTy, expand_named_of_attached hattached]
    rfl

/-- **The running program refines the build**: it has the schema of the build where neither records
    nor names without a schema are reached, and none elsewhere. `resolve` has the same schema or
    the same error, and an attached one iff the type is itself a name with a schema. -/
theorem runtime_refines_build (t : Ty) :
    (∀ s, t.schema .runtime = .ok s ↔
      t.schema .build = .ok s ∧ ∀ u, t.Reaches u → ¬ u.BuildOnly) ∧
    t.resolve.map Resolution.schema = t.schema .runtime ∧
    ((∃ s, t.resolve = .ok (.attached s)) ↔
      (∃ n : NamedType, t = n.toTy ∧ n.attached?.isSome) ∧ ∃ r, t.resolve = .ok r) := by
  refine ⟨fun s => schema_runtime_iff, ?_, ?_⟩
  · rw [resolve_eq]
    cases t.schema .runtime with
    | error e => rfl
    | ok s => split <;> rfl
  · have named : (∃ n : NamedType, t = n.toTy ∧ n.attached?.isSome) ↔
        (t.asNamed?.bind NamedType.attached?).isSome := by
      simp only [Option.isSome_iff_exists, attached?_eq_some_iff]
      exact ⟨fun ⟨n, hn, v, hv⟩ => ⟨v, n, hn, hv⟩, fun ⟨v, n, hn, hv⟩ => ⟨n, hn, v, hv⟩⟩
    rw [named, resolve_eq]
    cases t.schema .runtime with
    | error e => simp [Except.map]
    | ok s => split <;> simp_all [Except.map]

end Ty

end ResponseSchema
