/-
  Dialect — lowering twice.

  What lowering makes is a schema of the dialect, and lowering that again should
  change nothing.  It does change a mixed node: `allOf` takes kinds from one
  branch and alternatives from another, and the next pass reads the alternatives
  as a combinator that clears the kinds.

  * `mixed_compose_iff`: a node is mixed iff it has no alternatives of its own and
    its `allOf` brings both kinds and alternatives;
  * `ofRaw_toJson_eq_self_iff`: the second pass changes nothing iff the first has
    left no mixed node.
-/
import ResponseSchema.Proofs.Dialect.Lowered

namespace ResponseSchema

namespace Schema

/-! ## Where mixed nodes come from -/

theorem type_foldl_absorb (branches : List Schema) (node : Schema) :
    (branches.foldl absorb node).type.isSome ↔
      node.type.isSome ∨ ∃ b ∈ branches, b.type.isSome := by
  induction branches generalizing node with
  | nil => simp
  | cons b bs ih =>
    have hab : (node.absorb b).type.isSome ↔ node.type.isSome ∨ b.type.isSome := by
      cases h : node.type <;> simp [absorb, h]
    simp only [List.foldl_cons, ih, hab, List.mem_cons, exists_eq_or_imp, or_assoc]

theorem anyOf_foldl_absorb (branches : List Schema) (node : Schema) :
    (branches.foldl absorb node).anyOf.isSome ↔
      node.anyOf.isSome ∨ ∃ b ∈ branches, b.anyOf.isSome := by
  induction branches generalizing node with
  | nil => simp
  | cons b bs ih =>
    have hab : (node.absorb b).anyOf.isSome ↔ node.anyOf.isSome ∨ b.anyOf.isSome := by
      cases h : b.anyOf <;> simp [absorb, joinAlternatives, h]
    simp only [List.foldl_cons, ih, hab, List.mem_cons, exists_eq_or_imp, or_assoc]

theorem mixed_allowNull (s : Schema) : s.allowNull.Mixed ↔ s.Mixed := by
  rw [allowNull]
  split
  · next branches h => split <;> simp [Mixed, h]
  · next h => simp [Mixed, h]

/-- A node is mixed iff it has no alternatives of its own while the branches of its `allOf`
    bring both kinds and alternatives. -/
theorem mixed_compose_iff (kinds : List Kind) (nullable : Bool) (items : Option Schema)
    (properties : Option (List (String × Schema))) (allOf anyOf oneOf : Option (List Schema)) :
    (Keywords.compose kinds nullable items properties allOf anyOf oneOf).Mixed ↔
      anyOf.getD [] ++ oneOf.getD [] = [] ∧ (∃ b ∈ allOf.getD [], b.type.isSome) ∧
        ∃ b ∈ allOf.getD [], b.anyOf.isSome := by
  have node (type : Option Kinds) (combined : allOf.isSome → type = none) :
      (Keywords.bare type items properties (allOf.getD []) (anyOf.getD [] ++ oneOf.getD [])).Mixed ↔
      anyOf.getD [] ++ oneOf.getD [] = [] ∧ (∃ b ∈ allOf.getD [], b.type.isSome) ∧
        ∃ b ∈ allOf.getD [], b.anyOf.isSome := by
    rw [Keywords.bare]
    split
    · next hempty =>
      have htype : (type.isSome ∨ ∃ b ∈ allOf.getD [], b.type.isSome) ∧
          (∃ b ∈ allOf.getD [], b.anyOf.isSome) ↔
          (∃ b ∈ allOf.getD [], b.type.isSome) ∧ ∃ b ∈ allOf.getD [], b.anyOf.isSome := by
        cases allOf with
        | none => simp
        | some ss => simp [combined rfl]
      rw [Mixed, type_foldl_absorb, anyOf_foldl_absorb, ← htype]
      simp [hempty]
    · next hne => simp_all [Mixed]
  have typed : allOf.isSome →
      (if allOf.isSome || anyOf.isSome || oneOf.isSome then none else Kinds.ofList? kinds) =
        none := by
    intro h; simp [h]
  rw [Keywords.compose_eq, apply_ite Mixed, mixed_allowNull, ite_self]
  exact node _ typed

/-! ## The second pass -/

/-- **Lowering again changes nothing iff no node names kinds beside alternatives.** -/
theorem ofRaw_toJson_eq_self_iff {raw : Json} {s : Schema} (h : ofRaw raw = .ok s) :
    ofRaw s.toJson = .ok s ↔ ∀ n ∈ s.nodes, ¬ n.Mixed := by
  have tidy := tidy_of_lower (lower_of_ofRaw h)
  rw [ofRaw_toJson, Except.ok.injEq, normalize_eq_self_iff]
  exact ⟨fun all n hn => (all n hn).2, fun all n hn => ⟨tidy n hn, all n hn⟩⟩

/-- A nullable property in the format `byte` is lowered once and for all: it leaves no mixed node,
    and the second pass gives the same schema. -/
theorem ofRaw_toJson_nullable_bytes :
    let raw : Json := .object [("type", .string "object"), ("properties", .object [("data", .object
      [("type", .string "string"), ("format", .string "byte"), ("nullable", .bool true)])])]
    let s := objectOf [("data", ofKinds [.number, .null])]
    ofRaw raw = .ok s ∧ (∀ n ∈ s.nodes, ¬ n.Mixed) ∧ ofRaw s.toJson = .ok s := by
  intro raw s
  have hfirst : ofRaw raw = .ok s := rfl
  have hunmixed : ∀ n ∈ s.nodes, ¬ n.Mixed := by decide
  exact ⟨hfirst, hunmixed, (ofRaw_toJson_eq_self_iff hfirst).2 hunmixed⟩

/-- Alternatives from one branch of `allOf` and a kind from another: the first pass keeps
    both and the second loses the kind. -/
theorem ofRaw_toJson_mixed_branches :
    ofRaw (.object [("allOf", .array [.object [("anyOf", .array [.bool true])],
        .object [("type", .string "array")]])]) =
      .ok ⟨some (.single .array), none, none, some [empty]⟩ ∧
    ofRaw (toJson ⟨some (.single .array), none, none, some [empty]⟩) ≠
      .ok ⟨some (.single .array), none, none, some [empty]⟩ := by
  refine ⟨rfl, fun h => ?_⟩
  have second : ofRaw (toJson ⟨some (.single .array), none, none, some [empty]⟩) =
      .ok ⟨none, none, none, some [empty]⟩ := rfl
  rw [second] at h
  cases h

end Schema

end ResponseSchema
