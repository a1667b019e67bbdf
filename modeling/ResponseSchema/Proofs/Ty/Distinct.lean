/-
  Types — types without repeated names.

  The records of the host have every field once, and so have the objects that
  its annotations hold: `Ty.Distinct`.  Such a type has a schema without
  repeated names (`namesDistinct_of_expand`), and what is left of it without its
  errors and the names in that are again such types (`distinct_of_response?`,
  `distinct_of_mem_targets`).
-/
import ResponseSchema.Proofs.Schema.Written
import ResponseSchema.Proofs.Ty.Expanded
import ResponseSchema.Proofs.Ty.Leaves
import ResponseSchema.Proofs.Ty.Parts

namespace ResponseSchema

namespace Ty

mutual

/-- No record inside the type has a field twice, and no object in its metadata a name. -/
def Distinct : Ty → Prop
  | array element => Distinct element
  | union ts => DistinctAll ts
  | record fields => Entries.Distinct fields ∧ DistinctFields fields
  | named _ referred metadata => Distinct referred ∧ ∀ e ∈ metadata, e.2.Distinct
  | _ => True

/-- `Distinct`, for each type. -/
def DistinctAll : List Ty → Prop
  | [] => True
  | t :: ts => Distinct t ∧ DistinctAll ts

/-- `Distinct`, for each field. -/
def DistinctFields : List (String × Ty) → Prop
  | [] => True
  | (_, t) :: fs => Distinct t ∧ DistinctFields fs

end

theorem distinctAll_iff (ts : List Ty) : DistinctAll ts ↔ ∀ t ∈ ts, t.Distinct := by
  induction ts with
  | nil => simp [DistinctAll]
  | cons t ts ih => simp [DistinctAll, ih]

theorem distinctFields_iff (fs : List (String × Ty)) :
    DistinctFields fs ↔ ∀ e ∈ fs, e.2.Distinct := by
  induction fs with
  | nil => simp [DistinctFields]
  | cons e fs ih => simp [DistinctFields, ih]

theorem inherited_distinct : Inherited Distinct where
  element _ h := h
  members ts h := (distinctAll_iff ts).1 h
  fields fs h := (distinctFields_iff fs).1 h.2
  referred _ _ _ h := h.1

/-! ## The response of a call -/

theorem distinct_of_unionOf? {ts : List Ty} (h : ∀ t ∈ ts, t.Distinct) {u : Ty}
    (hu : unionOf? ts = some u) : u.Distinct := by
  rcases ts with _ | ⟨t, _ | ⟨t', ts⟩⟩
  · cases hu
  · cases hu; exact h _ (by simp)
  · cases hu; exact (distinctAll_iff _).2 h

theorem distinct_of_response? {t r : Ty} (h : t.Distinct) (hr : t.response? = some r) :
    r.Distinct := by
  rw [response?_eq] at hr
  split at hr
  · refine distinct_of_unionOf? (fun u hu => ?_) hr
    exact (of_mem_leaves inherited_distinct.members h (List.mem_filter.1 hu).1).2
  · cases hr; exact h

theorem distinct_of_mem_targets {r : Ty} (h : r.Distinct) : ∀ n ∈ r.targets, n.toTy.Distinct :=
  fun _ hn => inherited_distinct.of_reaches h (reaches_of_mem_targets hn)

/-! ## The schema of a type -/

theorem mem_of_attachedSchema? {metadata : Entries Json} {v : Json}
    (h : attachedSchema? metadata = some v) : ∃ e ∈ metadata, e.2 = v := by
  obtain ⟨e, he, rfl⟩ := Option.map_eq_some_iff.1 h
  exact ⟨e, List.mem_of_find?_eq_some he, rfl⟩

theorem namesDistinct_of_read {v : Json} {s : Schema} (hv : v.Distinct)
    (h : Schema.read v = .ok s) : ∀ n ∈ s.nodes, n.NamesDistinct := by
  rw [Schema.read] at h
  split at h
  · next hs => cases h; exact Schema.namesDistinct_of_ofJson? v _ hv hs
  · cases h

theorem builds_namesDistinct : Builds Distinct fun s => ∀ n ∈ s.nodes, n.NamesDistinct where
  ofKind k := Schema.namesDistinct_nodes.2 (by simp [Schema.ofKind, Schema.empty])
  anyJson := Schema.namesDistinct_nodes.2 (by simp [Schema.anyJson, Schema.ofKinds, Schema.empty])
  arrayOf s h := Schema.namesDistinct_nodes.2
    (by simpa [Schema.arrayOf, Schema.ofKind, Schema.empty] using h)
  ofAlternatives s s' ss h := by
    refine Schema.namesDistinct_nodes.2 ⟨by simp [Schema.ofAlternatives, Schema.empty],
      by simp [Schema.ofAlternatives, Schema.empty], ?_⟩
    rintro _ ⟨rfl⟩
    exact h
  objectOf fs ps ht hnames h := by
    have hdistinct : Entries.Distinct ps := show List.Nodup _ from hnames ▸ ht.1
    refine Schema.namesDistinct_nodes.2 ⟨by simp [Schema.objectOf, Schema.ofKind, Schema.empty],
      ?_, by simp [Schema.objectOf, Schema.ofKind, Schema.empty]⟩
    rintro _ ⟨rfl⟩
    exact ⟨hdistinct, h⟩
  attached identifier t metadata v s ht hattached hread := by
    obtain ⟨e, he, rfl⟩ := mem_of_attachedSchema? hattached
    exact namesDistinct_of_read (ht.2 e he) hread

/-- **The schema of a type without repeated names has none.** -/
theorem namesDistinct_of_expand (phase : Phase) (t : Ty) (enclosing : List String) (s : Schema)
    (ht : t.Distinct) (h : expand phase enclosing t = .ok s) : ∀ n ∈ s.nodes, n.NamesDistinct :=
  expand_induction inherited_distinct builds_namesDistinct phase t enclosing s ht h

end Ty

end ResponseSchema
