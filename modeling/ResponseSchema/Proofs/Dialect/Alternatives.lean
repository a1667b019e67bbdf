/-
  Dialect — where the alternatives of a node come from.

  Alternatives reach a node by three keywords: the branches of its `allOf` bring
  theirs along when they are folded in, and the branches of `anyOf` and `oneOf`
  are alternatives themselves.  The latter do not join the former but take their
  place.

  * `anyOf_foldl_absorb_eq`: folding loses no alternative of a branch;
  * `anyOf_compose`: the alternatives of the node that is put together;
  * `anyOf_of_ofRaw`: so an alternative is lost iff a node has branches of its own
    beside an `allOf` whose branches bring some along.
-/
import ResponseSchema.Proofs.Dialect.Locations
import ResponseSchema.Proofs.Dialect.Nullable

namespace ResponseSchema

/-- The raw branches of a node under a combinator, in order. -/
def branchesOf (c : Combinator) (ms : List (String × Json)) : List Json :=
  (ms.lookup c.keyword).elim [] Json.elements

namespace Schema

/-- The alternatives of a node, if it has any. -/
def alternatives (s : Schema) : List Schema :=
  s.anyOf.getD []

/-- What stands under `anyOf` for some alternatives: nothing at all if there are none, and null
    after them if the node is nullable and none of them takes it on its face. -/
def underAnyOf (nullable : Bool) (ss : List Schema) : Option (List Schema) :=
  if ss = [] then none
  else if nullable && !ss.any takesNull then some (ss ++ [ofKind .null])
  else some ss

/-! ## Folding -/

theorem anyOf_eq_underAnyOf {s : Schema} (h : s.anyOf ≠ some []) :
    s.anyOf = underAnyOf false s.alternatives := by
  rw [alternatives]
  cases hanyOf : s.anyOf with
  | none => rfl
  | some ss =>
    have hne : ss ≠ [] := by
      rintro rfl
      exact h hanyOf
    simp [underAnyOf, hne]

theorem joinAlternatives_underAnyOf (ss ts : List Schema) :
    joinAlternatives (underAnyOf false ss) (underAnyOf false ts) = underAnyOf false (ss ++ ts) := by
  by_cases hts : ts = []
  · simp [underAnyOf, joinAlternatives, hts]
  · by_cases hss : ss = []
    · simp [underAnyOf, joinAlternatives, hss, hts]
    · simp [underAnyOf, joinAlternatives, hss, hts]

/-- **Folding loses no alternative**: those of the branches follow those of the node, in order. -/
theorem anyOf_foldl_absorb_eq {branches : List Schema} (h : ∀ b ∈ branches, b.anyOf ≠ some [])
    {node : Schema} {ss : List Schema} (hnode : node.anyOf = underAnyOf false ss) :
    (branches.foldl absorb node).anyOf =
      underAnyOf false (ss ++ branches.flatMap alternatives) := by
  induction branches generalizing node ss with
  | nil => simpa using hnode
  | cons b bs ih =>
    rw [List.forall_mem_cons] at h
    have hb : (node.absorb b).anyOf = underAnyOf false (ss ++ b.alternatives) := by
      rw [absorb, hnode, anyOf_eq_underAnyOf h.1, joinAlternatives_underAnyOf]
    rw [List.foldl_cons, ih h.2 hb, List.flatMap_cons, List.append_assoc]

/-- To allow null in a node with alternatives is to put it after them. -/
theorem anyOf_allowNull {s : Schema} {ss : List Schema} (h : s.anyOf = underAnyOf false ss) :
    s.allowNull.anyOf = underAnyOf true ss := by
  rw [allowNull]
  by_cases hss : ss = []
  · simp [h, underAnyOf, hss]
  · by_cases htakes : ss.any takesNull
    · simp [h, underAnyOf, hss, htakes]
    · simp [h, underAnyOf, hss, htakes]

/-! ## The node put together -/

/-- The alternatives that a node keeps: those of its own branches, or the folded ones if it has no
    branches of its own. -/
def ownOrFolded (folded own : List Schema) : List Schema :=
  if own = [] then folded else own

theorem anyOf_compose (kinds : List Kind) (nullable : Bool) (items : Option Schema)
    (properties : Option (List (String × Schema))) {allOf : Option (List Schema)}
    (anyOf oneOf : Option (List Schema)) (hall : ∀ b ∈ allOf.getD [], b.anyOf ≠ some []) :
    (Keywords.compose kinds nullable items properties allOf anyOf oneOf).anyOf =
      underAnyOf nullable
        (ownOrFolded ((allOf.getD []).flatMap alternatives) (anyOf.getD [] ++ oneOf.getD [])) := by
  have node (type : Option Kinds) :
      (Keywords.bare type items properties (allOf.getD [])
        (anyOf.getD [] ++ oneOf.getD [])).anyOf =
      underAnyOf false
        (ownOrFolded ((allOf.getD []).flatMap alternatives) (anyOf.getD [] ++ oneOf.getD [])) := by
    rw [Keywords.bare, ownOrFolded]
    split
    · have hbase : (Schema.mk type items properties none).anyOf = underAnyOf false [] := rfl
      exact anyOf_foldl_absorb_eq hall hbase
    · next hown => simp [underAnyOf, hown]
  rw [Keywords.compose_eq]
  cases nullable with
  | false => simpa using node _
  | true =>
    by_cases hcombined : allOf.isSome || anyOf.isSome || oneOf.isSome
    · simpa only [hcombined, Bool.and_true, if_true] using anyOf_allowNull (node _)
    · -- without combinators there is nothing to put null after
      simp only [Bool.or_eq_true, Option.isSome_iff_ne_none, not_or, ne_eq, not_not] at hcombined
      obtain ⟨⟨rfl, rfl⟩, rfl⟩ := hcombined
      rfl

/-- No alternative is missing from those under `anyOf`. -/
theorem sublist_underAnyOf (nullable : Bool) (ss : List Schema) :
    ss.Sublist ((underAnyOf nullable ss).getD []) := by
  rw [underAnyOf]
  split
  · next hss => simp [hss]
  · split
    · exact List.sublist_append_left ss _
    · exact List.Sublist.refl ss

/-- Alternatives that take no null on their face cannot follow others and have null as the last. -/
theorem not_sublist_append_null {folded own : List Schema} (hfolded : folded ≠ [])
    (hown : own ≠ []) (hnull : ¬ own.any takesNull) :
    ¬ (folded ++ own).Sublist (own ++ [ofKind .null]) := by
  intro hsub
  have hlength : 0 < folded.length := List.length_pos_iff.2 hfolded
  have heq : folded ++ own = own ++ [ofKind .null] := by
    refine hsub.eq_of_length_le ?_
    simp only [List.length_append, List.length_singleton]
    omega
  have hlast : own.getLast? = some (ofKind .null) := by
    have happend : (folded ++ own).getLast? = own.getLast? := by
      rw [List.getLast?_append, Option.or_of_isSome (List.getLast?_isSome.2 hown)]
    rw [← happend, heq, List.getLast?_concat]
  exact hnull (List.any_eq_true.2 ⟨_, List.mem_of_getLast? hlast, rfl⟩)

theorem sublist_underAnyOf_iff (nullable : Bool) (folded own : List Schema) :
    (folded ++ own).Sublist ((underAnyOf nullable (ownOrFolded folded own)).getD []) ↔
      folded = [] ∨ own = [] := by
  constructor
  · intro hsub
    by_contra hboth
    obtain ⟨hfolded, hown⟩ := not_or.1 hboth
    have hlength : 0 < folded.length := List.length_pos_iff.2 hfolded
    rw [ownOrFolded, if_neg hown, underAnyOf, if_neg hown] at hsub
    split at hsub
    · next hnull => exact not_sublist_append_null hfolded hown (by simp_all) hsub
    · have hle := hsub.length_le
      simp only [Option.getD_some, List.length_append] at hle
      omega
  · rintro (rfl | rfl)
    · have hkept : ownOrFolded [] own = own := by
        rw [ownOrFolded]
        split
        · next hown => exact hown.symm
        · rfl
      rw [hkept]
      exact sublist_underAnyOf nullable own
    · simpa [ownOrFolded] using sublist_underAnyOf nullable folded

/-! ## Lowered nodes -/

/-- What a combinator is lowered to are its branches, each lowered on its own. -/
theorem mapM_ofRaw_branchesOf {c : Combinator} {ms : List (String × Json)} {location : Location}
    {o : Option (List Schema)}
    (h : (ms.lookup c.keyword).elim (.ok none) (lowerBranches location) = .ok o) :
    (branchesOf c ms).mapM ofRaw = .ok (o.getD []) := by
  rw [branchesOf]
  cases hv : ms.lookup c.keyword with
  | none => rw [hv] at h; cases h; rfl
  | some v =>
    rw [hv] at h
    cases v with
    | array vs =>
      obtain ⟨ss, hss, rfl⟩ := map_eq_ok h
      exact mapM_ofRaw_of_lowerList hss
    | _ => cases h

/-- No lowered node has an empty list of alternatives. -/
theorem anyOf_ne_of_ofRaw {raw : Json} {s : Schema} (h : ofRaw raw = .ok s) : s.anyOf ≠ some [] :=
  have tidy : s.Tidy := ((forall_mem_nodes s).1 (tidy_of_lower (lower_of_ofRaw h))).1
  tidy.2

/-- **An alternative is lost iff a node has branches of its own beside folded alternatives.**  Under
    `anyOf` stand the lowered branches of `anyOf` and of `oneOf`, and only if there are none the
    alternatives that the branches of `allOf` bring along; null comes after them, and without any of
    them there is no `anyOf`. -/
theorem anyOf_of_ofRaw {ms : List (String × Json)} {s : Schema}
    (h : ofRaw (.object ms) = .ok s) :
    ∃ all any one, (branchesOf .allOf ms).mapM ofRaw = .ok all ∧
      (branchesOf .anyOf ms).mapM ofRaw = .ok any ∧ (branchesOf .oneOf ms).mapM ofRaw = .ok one ∧
      s.anyOf = underAnyOf (decide (ms.lookup "nullable" = some (.bool true)))
        (ownOrFolded (all.flatMap alternatives) (any ++ one)) ∧
      ((all.flatMap alternatives ++ (any ++ one)).Sublist s.alternatives ↔
        all.flatMap alternatives = [] ∨ any ++ one = []) := by
  have hassemble : (keywords [] ms).assemble = .ok s := lower_of_ofRaw h
  obtain ⟨kinds, items, properties, allOf, anyOf, oneOf, -, -, -, hall, hany, hone, hs⟩ :=
    (keywords [] ms).exists_of_assemble hassemble
  rw [nullable_keywords] at hs
  rw [keywords_eq] at hall hany hone
  have lowered := mapM_ofRaw_branchesOf (c := .allOf) hall
  have branches : ∀ b ∈ allOf.getD [], b.anyOf ≠ some [] := by
    intro b hb
    obtain ⟨v, -, hv⟩ := exists_of_mapM_eq_ok lowered b hb
    exact anyOf_ne_of_ofRaw hv
  have hanyOf := hs ▸ anyOf_compose _ _ items properties anyOf oneOf branches
  refine ⟨allOf.getD [], anyOf.getD [], oneOf.getD [], lowered,
    mapM_ofRaw_branchesOf hany, mapM_ofRaw_branchesOf hone, hanyOf, ?_⟩
  rw [alternatives, hanyOf]
  exact sublist_underAnyOf_iff _ _ _

/-! ## Alternatives of one combinator beside those of another -/

/-- Two wrappers of one alternative each, the second around another wrapper. -/
def nestedWrappers : List (String × Json) :=
  [("allOf", .array [
      .object [("oneOf", .array [.object [("type", .string "string")]])],
      .object [("allOf", .array [
        .object [("anyOf", .array [.object [("type", .string "integer")]])]])]]),
    ("nullable", .bool true)]

/-- Folded alternatives stay, in order, where the node has no branches of its own. -/
theorem sublist_alternatives_nestedWrappers :
    let s : Schema := ofAlternatives [ofKind .string, ofKind .integer, ofKind .null]
    ofRaw (.object nestedWrappers) = .ok s ∧
    (branchesOf .allOf nestedWrappers).mapM ofRaw =
      .ok [ofAlternatives [ofKind .string], ofAlternatives [ofKind .integer]] ∧
    [ofKind .string, ofKind .integer].Sublist s.alternatives := by
  intro s
  have h : ofRaw (.object nestedWrappers) = .ok s := rfl
  obtain ⟨all, any, one, hall, hany, hone, -, hiff⟩ := anyOf_of_ofRaw h
  obtain rfl : [ofAlternatives [ofKind .string], ofAlternatives [ofKind .integer]] = all :=
    Except.ok.inj hall
  obtain rfl : [] = any := Except.ok.inj hany
  obtain rfl : [] = one := Except.ok.inj hone
  exact ⟨h, rfl, hiff.2 (.inr rfl)⟩

/-- Folded alternatives beside a branch of the node: the branch takes their place. -/
theorem not_sublist_folded_beside_own :
    let ms := [("allOf", .array [.object [("anyOf", .array [.object [("type", .string "string")]])]]),
      ("oneOf", .array [.object [("type", .string "integer")]])]
    let s : Schema := ofAlternatives [ofKind .integer]
    ofRaw (.object ms) = .ok s ∧
    (branchesOf .allOf ms).mapM ofRaw = .ok [ofAlternatives [ofKind .string]] ∧
    (branchesOf .anyOf ms).mapM ofRaw = .ok [] ∧
    (branchesOf .oneOf ms).mapM ofRaw = .ok [ofKind .integer] ∧
    ¬ ([ofAlternatives [ofKind .string]].flatMap alternatives ++ ([] ++ [ofKind .integer])).Sublist
      s.alternatives := by
  refine ⟨rfl, rfl, rfl, rfl, ?_⟩
  intro hsub
  exact absurd hsub.length_le (by decide)

end Schema

end ResponseSchema
