/-
  Schemas — the nodes of a schema.

  * `Below P s`: `P` holds of the schemas right below `s`; what a node inherits
    from these, every schema has (`Schema.induction`);
  * `nodes` lists a schema with everything below it; `forall_mem_nodes` opens
    one level of a statement about all nodes.
-/
import ResponseSchema.Schema.Codec
import Mathlib.Tactic.Common

namespace ResponseSchema

namespace Schema

/-- `P` holds of the schemas right below a node. -/
structure Below (P : Schema → Prop) (s : Schema) : Prop where
  items : ∀ t ∈ s.items, P t
  properties : ∀ ps ∈ s.properties, ∀ e ∈ ps, P e.2
  anyOf : ∀ ss ∈ s.anyOf, ∀ t ∈ ss, P t

/-- What a node inherits from the schemas right below it, every schema has. -/
theorem induction {motive : Schema → Prop} (node : ∀ s : Schema, s.Below motive → motive s)
    (s : Schema) : motive s := by
  refine @Schema.rec motive (fun items => ∀ s ∈ items, motive s)
    (fun properties => ∀ ps ∈ properties, ∀ e ∈ ps, motive e.2)
    (fun anyOf => ∀ ss ∈ anyOf, ∀ s ∈ ss, motive s) (fun ps => ∀ e ∈ ps, motive e.2)
    (fun ss => ∀ s ∈ ss, motive s) (fun e => motive e.2) ?_ ?_ ?_ ?_ ?_ ?_ ?_ ?_ ?_ ?_ ?_ ?_ s
  · intro type items properties anyOf hi hp ha; exact node _ ⟨hi, hp, ha⟩
  · simp
  · intro s hs; simpa using hs
  · simp
  · intro ps hps; simpa using hps
  · simp
  · intro ss hss; simpa using hss
  · simp
  · intro e ps he hps; exact List.forall_mem_cons.2 ⟨he, hps⟩
  · simp
  · intro s ss hs hss; exact List.forall_mem_cons.2 ⟨hs, hss⟩
  · intro name s hs; exact hs

/-! ## Nodes -/

mutual

/-- A schema and everything below it. -/
def nodes : Schema → List Schema
  | ⟨type, items, properties, anyOf⟩ =>
    ⟨type, items, properties, anyOf⟩ ::
      (nodesOfItems items ++ (nodesOfProperties properties ++ nodesOfAnyOf anyOf))

/-- The nodes of the schema for items. -/
def nodesOfItems : Option Schema → List Schema
  | none => []
  | some s => nodes s

/-- The nodes of the schemas for properties. -/
def nodesOfProperties : Option (List (String × Schema)) → List Schema
  | none => []
  | some ps => nodesOfEntries ps

/-- The nodes of the alternatives. -/
def nodesOfAnyOf : Option (List Schema) → List Schema
  | none => []
  | some ss => nodesOfList ss

/-- The nodes of each property. -/
def nodesOfEntries : List (String × Schema) → List Schema
  | [] => []
  | (_, s) :: ps => nodes s ++ nodesOfEntries ps

/-- The nodes of each schema. -/
def nodesOfList : List Schema → List Schema
  | [] => []
  | s :: ss => nodes s ++ nodesOfList ss

end

theorem nodesOfEntries_eq_flatMap (ps : List (String × Schema)) :
    nodesOfEntries ps = ps.flatMap fun e => e.2.nodes := by
  induction ps with
  | nil => rfl
  | cons e ps ih => rw [nodesOfEntries, ih, List.flatMap_cons]

theorem nodesOfList_eq_flatMap (ss : List Schema) : nodesOfList ss = ss.flatMap nodes := by
  induction ss with
  | nil => rfl
  | cons s ss ih => rw [nodesOfList, ih, List.flatMap_cons]

/-- All nodes of a schema are the schema itself and the nodes of those right below it. -/
theorem forall_mem_nodes {p : Schema → Prop} (s : Schema) :
    (∀ n ∈ s.nodes, p n) ↔ p s ∧ s.Below fun t => ∀ n ∈ t.nodes, p n := by
  obtain ⟨type, items, properties, anyOf⟩ := s
  have hi : (∀ n ∈ nodesOfItems items, p n) ↔ ∀ s ∈ items, ∀ n ∈ s.nodes, p n := by
    cases items <;> simp [nodesOfItems]
  have hp : (∀ n ∈ nodesOfProperties properties, p n) ↔
      ∀ ps ∈ properties, ∀ e ∈ ps, ∀ n ∈ e.2.nodes, p n := by
    cases properties with
    | none => simp [nodesOfProperties]
    | some ps =>
      simp only [nodesOfProperties, nodesOfEntries_eq_flatMap, List.mem_flatMap, Option.mem_def,
        Option.some.injEq, forall_eq']
      exact ⟨fun h e he n hn => h n ⟨e, he, hn⟩, fun h n ⟨e, he, hn⟩ => h e he n hn⟩
  have ha : (∀ n ∈ nodesOfAnyOf anyOf, p n) ↔ ∀ ss ∈ anyOf, ∀ s ∈ ss, ∀ n ∈ s.nodes, p n := by
    cases anyOf with
    | none => simp [nodesOfAnyOf]
    | some ss =>
      simp only [nodesOfAnyOf, nodesOfList_eq_flatMap, List.mem_flatMap, Option.mem_def,
        Option.some.injEq, forall_eq']
      exact ⟨fun h s hs n hn => h n ⟨s, hs, hn⟩, fun h n ⟨s, hs, hn⟩ => h s hs n hn⟩
  simp only [nodes, List.mem_cons, List.mem_append]
  constructor
  · intro h
    exact ⟨h _ (.inl rfl), hi.1 fun n hn => h n (.inr (.inl hn)),
      hp.1 fun n hn => h n (.inr (.inr (.inl hn))), ha.1 fun n hn => h n (.inr (.inr (.inr hn)))⟩
  · rintro ⟨h0, below⟩ n (rfl | hn | hn | hn)
    exacts [h0, hi.2 below.items n hn, hp.2 below.properties n hn, ha.2 below.anyOf n hn]

end Schema

end ResponseSchema
