/-
  Types — the fault that the build reports.

  The build walks a type from the outside inwards and in the order of its
  declaration, and ends at the first node that no schema describes.

  * `visits` lists the nodes in that order, each with the names around it; what an
    attached schema answers for is not visited;
  * `Visit.fault?`: what is wrong with a node on its own;
  * `failure?_expand`: the build fails as the first node at fault says, and only
    then;
  * `schema_build_iff`: so a type has a schema iff no visited node is at fault.
-/
import ResponseSchema.Proofs.Ty.Attached

namespace ResponseSchema

namespace Ty

/-! ## Nodes and their faults -/

/-- A node of a type inside some names, innermost first. -/
structure Visit where
  enclosing : List String
  node : Ty

/-- What is wrong with a node, whatever is wrong with the nodes below it. -/
def Visit.fault? (v : Visit) : Option SchemaError :=
  match v.node with
  | error => some (.unsupported error)
  | other name => some (.unsupported (other name))
  | union [] => some (.unsupported (union []))
  | named identifier _ metadata =>
    match attachedSchema? metadata with
    | some attached =>
      if (Schema.ofJson? attached).isSome then none else some (.unreadable .mismatched)
    | none => if identifier ∈ v.enclosing then some (.recursive identifier) else none
  | _ => none

mutual

/-- The nodes that the build visits in a type inside some names, parents first. -/
def visits (enclosing : List String) : Ty → List Visit
  | array element => ⟨enclosing, array element⟩ :: visits enclosing element
  | union ts => ⟨enclosing, union ts⟩ :: visitsAll enclosing ts
  | record fields => ⟨enclosing, record fields⟩ :: visitsFields enclosing fields
  | named identifier referred metadata =>
    ⟨enclosing, named identifier referred metadata⟩ ::
      (if (attachedSchema? metadata).isSome then [] else visits (identifier :: enclosing) referred)
  | t => [⟨enclosing, t⟩]

/-- The nodes in each member. -/
def visitsAll (enclosing : List String) : List Ty → List Visit
  | [] => []
  | t :: ts => visits enclosing t ++ visitsAll enclosing ts

/-- The nodes in each field. -/
def visitsFields (enclosing : List String) : List (String × Ty) → List Visit
  | [] => []
  | (_, t) :: fs => visits enclosing t ++ visitsFields enclosing fs

end

/-- The first fault among some nodes. -/
def firstFault? (vs : List Visit) : Option SchemaError :=
  vs.findSome? Visit.fault?

/-! ## The walk of the build -/

theorem failure?_read (v : Json) : failure? (Schema.read v) =
    if (Schema.ofJson? v).isSome then none else some (.unreadable .mismatched) := by
  rw [Schema.read]
  cases Schema.ofJson? v <;> rfl

/-- Members that all have a schema have one together, unless there are none. -/
theorem failure?_joinMembers {t : Ty} {ts : List Ty} {ss : List Schema}
    {enclosing : List String} (h : expandAll .build enclosing ts = .ok ss) :
    failure? (joinMembers t ss) = if ts = [] then some (.unsupported t) else none := by
  cases ts with
  | nil => cases h; rfl
  | cons u us =>
    obtain ⟨s, -, h⟩ := bind_eq_ok h
    obtain ⟨ss, -, rfl⟩ := map_eq_ok h
    cases ss <;> rfl

mutual

/-- **The build fails as the first node at fault says**, and only where there is one. -/
theorem failure?_expand : ∀ (t : Ty) (enclosing : List String),
    failure? (expand .build enclosing t) = firstFault? (visits enclosing t)
  | primitive _, _ => rfl
  | json, _ => rfl
  | array element, enclosing => by
    rw [expand, failure?_map, failure?_expand element enclosing]
    rfl
  | union [], _ => rfl
  | union (t :: ts), enclosing => by
    have members := failure?_expandAll (t :: ts) enclosing
    rw [expand, failure?_bind fun ss hss => failure?_joinMembers hss, members]
    exact Option.or_none
  | record fields, enclosing => by
    rw [expand, failure?_map, failure?_expandFields fields enclosing]
    rfl
  | named identifier referred metadata, enclosing => by
    cases hattached : attachedSchema? metadata with
    | some v =>
      rw [expand_named_of_attached hattached, failure?_read, visits, hattached]
      simp [firstFault?, Visit.fault?, hattached]
    | none =>
      have inner := failure?_expand referred (identifier :: enclosing)
      rw [expand, visits, hattached]
      by_cases hmem : identifier ∈ enclosing
      · simp [firstFault?, Visit.fault?, hattached, hmem, failure?]
      · simpa [firstFault?, Visit.fault?, hattached, hmem] using inner
  | error, _ => rfl
  | other _, _ => rfl

theorem failure?_expandAll : ∀ (ts : List Ty) (enclosing : List String),
    failure? (expandAll .build enclosing ts) = firstFault? (visitsAll enclosing ts)
  | [], _ => rfl
  | t :: ts, enclosing => by
    rw [expandAll, failure?_bind fun s _ => failure?_map _ _, failure?_expand t enclosing,
      failure?_expandAll ts enclosing]
    exact List.findSome?_append.symm

theorem failure?_expandFields : ∀ (fs : List (String × Ty)) (enclosing : List String),
    failure? (expandFields .build enclosing fs) = firstFault? (visitsFields enclosing fs)
  | [], _ => rfl
  | (name, t) :: fs, enclosing => by
    rw [expandFields, failure?_bind fun s _ => failure?_map _ _, failure?_expand t enclosing,
      failure?_expandFields fs enclosing]
    exact List.findSome?_append.symm

end

/-- **A type has a schema iff no visited node is at fault**, and otherwise the first node that is
    says why not; the nodes that no schema describes have their own texts. -/
theorem schema_build_iff (t : Ty) :
    ((∃ s, t.schema .build = .ok s) ↔ ∀ v ∈ visits [] t, v.fault? = none) ∧
    (∀ e, t.schema .build = .error e ↔ ∃ before v after, visits [] t = before ++ v :: after ∧
      (∀ w ∈ before, w.fault? = none) ∧ v.fault? = some e) ∧
    error.display = "error" ∧ (∀ name, (other name).display = name) ∧
      (union []).display = "never" := by
  rw [schema_eq_expand, ← failure?_eq_none_iff]
  simp only [← failure?_eq_some_iff, failure?_expand]
  refine ⟨List.findSome?_eq_none_iff, fun e => ?_, rfl, fun name => ?_, rfl⟩
  · rw [firstFault?, List.findSome?_eq_some_iff]
    constructor
    · rintro ⟨before, v, after, h, hfault, hbefore⟩
      exact ⟨before, v, after, h, hbefore, hfault⟩
    · rintro ⟨before, v, after, h, hbefore, hfault⟩
      exact ⟨before, v, after, h, hfault, hbefore⟩
  · exact String.ofList_toList

end Ty

end ResponseSchema
