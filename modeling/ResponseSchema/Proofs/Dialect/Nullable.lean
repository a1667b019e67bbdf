/-
  Dialect — what `nullable` asks of a node, and where it gets lost.

  A nullable node gets null among its kinds; a node with alternatives gets it as
  one of these, unless one takes null on its face.  Its kinds and what stands below
  its alternatives are not looked at, so null is lost where kinds and alternatives
  meet.

  * `admitsNull`: neither the kinds nor the alternatives of a schema exclude null;
    these are the schemas that accept the value (`accepts_null_iff`);
  * `AllowsNull`: what a node has from `nullable` (`allowsNull_of_ofRaw`), for to make
    a node nullable is to allow null in it (`Keywords.compose_nullable`);
  * `admitsNull_of_nullable_iff`: so a nullable schema admits null unless a mixed node,
    itself or an alternative, keeps it out.
-/
import ResponseSchema.Proofs.Dialect.Acceptance
import ResponseSchema.Proofs.Dialect.Grammar

namespace ResponseSchema

namespace Schema

/-! ## Schemas that admit null -/

mutual

/-- Whether null is one of the kinds, if there are any, and one of the alternatives admits it, if
    there are any. -/
def admitsNull : Schema → Bool
  | ⟨type, _, _, anyOf⟩ => type.all (fun ks => decide (.null ∈ ks.toList)) && anyOfAdmitsNull anyOf

/-- Whether the alternatives leave null in. -/
def anyOfAdmitsNull : Option (List Schema) → Bool
  | none => true
  | some ss => someAdmitsNull ss

/-- Whether one of the schemas admits null. -/
def someAdmitsNull : List Schema → Bool
  | [] => false
  | s :: ss => admitsNull s || someAdmitsNull ss

end

theorem someAdmitsNull_iff (ss : List Schema) : someAdmitsNull ss ↔ ∃ t ∈ ss, t.admitsNull := by
  induction ss with
  | nil => simp [someAdmitsNull]
  | cons s ss ih => simp [someAdmitsNull, ih]

theorem admitsNull_iff (s : Schema) : s.admitsNull ↔
    (∀ ks ∈ s.type, .null ∈ ks.toList) ∧ ∀ ss ∈ s.anyOf, ∃ t ∈ ss, t.admitsNull := by
  obtain ⟨type, items, properties, anyOf⟩ := s
  have alternatives : anyOfAdmitsNull anyOf ↔ ∀ ss ∈ anyOf, ∃ t ∈ ss, t.admitsNull := by
    cases anyOf with
    | none => simp [anyOfAdmitsNull]
    | some ss => simp [anyOfAdmitsNull, someAdmitsNull_iff]
  rw [admitsNull, Bool.and_eq_true, alternatives, Option.all_eq_true]
  simp

theorem admits_null_iff (k : Kind) : k.admits .null ↔ k = .null := by
  cases k <;> simp [Kind.admits]

/-- **The schemas that admit null are those that accept it as a value.** -/
theorem accepts_null_iff (s : Schema) : s.accepts .null ↔ s.admitsNull := by
  induction s using Schema.induction with
  | node s below =>
    rw [accepts_iff, admitsNull_iff]
    constructor
    · intro h
      refine ⟨fun ks hks => ?_, fun ss hss => ?_⟩
      · obtain ⟨k, hk, hnull⟩ := h.type ks hks
        exact (admits_null_iff k).1 hnull ▸ hk
      · obtain ⟨t, ht, hnull⟩ := h.anyOf ss hss
        exact ⟨t, ht, (below.anyOf ss hss t ht).1 hnull⟩
    · rintro ⟨htype, hanyOf⟩
      -- null has neither elements nor members
      refine ⟨fun ks hks => ⟨.null, htype ks hks, rfl⟩, by simp [Json.elements],
        by simp [Json.get?], fun ss hss => ?_⟩
      obtain ⟨t, ht, hnull⟩ := hanyOf ss hss
      exact ⟨t, ht, (below.anyOf ss hss t ht).2 hnull⟩

/-- What a node says of null on its face is true if it is not mixed. -/
theorem admitsNull_of_takesNull {s : Schema} (h : s.takesNull) (hmixed : ¬ s.Mixed) :
    s.admitsNull := by
  rw [admitsNull_iff]
  rw [takesNull] at h
  cases htype : s.type with
  | some ks =>
    have hanyOf : s.anyOf = none := by simpa [Mixed, htype] using hmixed
    simp only [htype, decide_eq_true_eq] at h
    simpa [hanyOf] using h
  | none =>
    simp only [htype, isEmpty_iff] at h
    subst h
    simp [empty]

/-! ## Nodes that are to allow null -/

/-- What `nullable` gives a node: null among its kinds if it has no alternatives, and else an
    alternative that takes null on its face. -/
structure AllowsNull (s : Schema) : Prop where
  type : s.anyOf = none → ∀ ks ∈ s.type, .null ∈ ks.toList
  anyOf : ∀ ss ∈ s.anyOf, ∃ t ∈ ss, t.takesNull

/-- **A node that is to allow null admits it unless a mixed node keeps it out**: itself, with kinds
    that leave null out, or an alternative that takes null on its face, where no alternative admits
    null. -/
theorem AllowsNull.admitsNull_iff {s : Schema} (h : s.AllowsNull) : s.admitsNull ↔
    (s.Mixed → ∀ ks ∈ s.type, .null ∈ ks.toList) ∧
      ∀ ss ∈ s.anyOf, (∃ t ∈ ss, t.takesNull ∧ t.Mixed) → ∃ t ∈ ss, t.admitsNull := by
  rw [Schema.admitsNull_iff]
  constructor
  · exact fun hs => ⟨fun _ => hs.1, fun ss hss _ => hs.2 ss hss⟩
  · rintro ⟨hkinds, halternatives⟩
    refine ⟨fun ks hks => ?_, fun ss hss => ?_⟩
    · cases hanyOf : s.anyOf with
      | none => exact h.type hanyOf ks hks
      | some ss => exact hkinds ⟨Option.isSome_of_mem hks, by simp [hanyOf]⟩ ks hks
    · obtain ⟨t, ht, htakes⟩ := h.anyOf ss hss
      by_cases hmixed : t.Mixed
      · exact halternatives ss hss ⟨t, ht, htakes, hmixed⟩
      · exact ⟨t, ht, admitsNull_of_takesNull htakes hmixed⟩

theorem null_mem_withNull (ks : Kinds) : .null ∈ ks.withNull.toList := by
  cases ks with
  | single k =>
    rw [Kinds.withNull]
    split <;> simp [Kinds.toList]
  | list ks =>
    rw [Kinds.withNull]
    split
    · next h => exact h
    · simp [Kinds.toList]

theorem allowsNull_allowNull (s : Schema) : s.allowNull.AllowsNull := by
  rw [allowNull]
  split
  · next ss hanyOf =>
    split
    · next htakes =>
      refine ⟨fun hnone => ?_, fun ts hts => ?_⟩
      · rw [hanyOf] at hnone; cases hnone
      · rw [hanyOf] at hts; cases hts
        simpa using htakes
    · refine ⟨fun hnone => ?_, fun ts hts => ?_⟩
      · cases hnone
      · cases hts
        exact ⟨ofKind .null, by simp, by simp [takesNull, ofKind, Kinds.toList]⟩
  · next hanyOf =>
    refine ⟨fun _ ks hks => ?_, fun ss hss => ?_⟩
    · obtain ⟨ks, -, rfl⟩ := Option.map_eq_some_iff.1 hks
      exact null_mem_withNull ks
    · rw [hanyOf] at hss; cases hss

/-! ## Nullable nodes -/

end Schema

namespace Kinds

theorem withNull_withNull (ks : Kinds) : ks.withNull.withNull = ks.withNull := by
  cases ks with
  | single k => by_cases hk : k = .null <;> simp [withNull, hk]
  | list ks => by_cases hnull : .null ∈ ks <;> simp [withNull, hnull]

/-- Null among kinds that have been adjusted, with it or without it. -/
theorem map_withNull_ofList? (byteFormat nullable : Bool) (kinds : List Kind) :
    (ofList? (Keywords.adjust byteFormat nullable kinds)).map withNull =
      ofList? (Keywords.adjust byteFormat true kinds) := by
  rw [Keywords.adjust, Keywords.adjust]
  generalize (if byteFormat ∧ kinds = [.string] then [Kind.number] else kinds) = ks
  rcases ks with _ | ⟨k, _ | ⟨k', ks⟩⟩
  · simp [ofList?]
  · by_cases hk : k = .null
    · simp [hk, ofList?, withNull]
    · cases nullable <;> simp [hk, Ne.symm hk, ofList?, withNull]
  · by_cases hnull : .null ∈ k :: k' :: ks
    · simp only [hnull, not_true_eq_false, and_false, if_false, ofList?, Option.map_some, withNull,
        if_true]
    · cases nullable <;> simp [hnull, ofList?, withNull]

end Kinds

namespace Schema

theorem allowNull_allowNull (s : Schema) : s.allowNull.allowNull = s.allowNull := by
  obtain ⟨type, items, properties, anyOf⟩ := s
  cases anyOf with
  | none =>
    cases type with
    | none => rfl
    | some ks => simp only [allowNull, Option.map_some, Kinds.withNull_withNull]
  | some ss =>
    by_cases htakes : ss.any takesNull
    · simp only [allowNull, htakes, if_true]
    · have hnull : (ofKind .null).takesNull = true := rfl
      simp only [allowNull, htakes, if_false, List.any_append, List.any_cons, hnull, Bool.true_or,
        Bool.or_true, if_true, Bool.false_eq_true]

end Schema

/-- **To make a node nullable is to allow null in it**, whatever its keywords are and whether or not
    it was nullable before. -/
theorem Keywords.compose_nullable (byteFormat nullable : Bool) (kinds : List Kind)
    (items : Option Schema) (properties : Option (List (String × Schema)))
    (allOf anyOf oneOf : Option (List Schema)) :
    compose (adjust byteFormat true kinds) true items properties allOf anyOf oneOf =
      (compose (adjust byteFormat nullable kinds) nullable items properties
        allOf anyOf oneOf).allowNull := by
  by_cases hcombined : allOf.isSome || anyOf.isSome || oneOf.isSome
  · -- the kinds of the node itself are cleared, and null is added last of all
    simp only [compose, hcombined, if_true, Bool.true_and]
    cases nullable with
    | true => exact (Schema.allowNull_allowNull _).symm
    | false => rfl
  · simp only [Bool.or_eq_true, Option.isSome_iff_ne_none, not_or, ne_eq, not_not] at hcombined
    obtain ⟨⟨rfl, rfl⟩, rfl⟩ := hcombined
    show Schema.mk (Kinds.ofList? (adjust byteFormat true kinds)) items properties none =
      Schema.allowNull ⟨Kinds.ofList? (adjust byteFormat nullable kinds), items, properties, none⟩
    rw [Schema.allowNull, Kinds.map_withNull_ofList?]

namespace Schema

/-- A nullable node allows null. -/
theorem allowsNull_compose (byteFormat : Bool) (kinds : List Kind) (items : Option Schema)
    (properties : Option (List (String × Schema))) (allOf anyOf oneOf : Option (List Schema)) :
    (Keywords.compose (Keywords.adjust byteFormat true kinds) true items properties
      allOf anyOf oneOf).AllowsNull := by
  rw [Keywords.compose_nullable byteFormat true]
  exact allowsNull_allowNull _

theorem nullable_keywords (location : Location) (ms : List (String × Json)) :
    (keywords location ms).nullable = decide (ms.lookup "nullable" = some (.bool true)) := by
  rw [keywords_eq]
  cases ms.lookup "nullable" <;> simp

theorem allowsNull_of_ofRaw {raw : Json} {s : Schema} (h : ofRaw raw = .ok s)
    (hnullable : raw.get? "nullable" = some (.bool true)) : s.AllowsNull := by
  cases raw with
  | object ms =>
    have hassemble : (keywords [] ms).assemble = .ok s := lower_of_ofRaw h
    have hkeyword : (keywords [] ms).nullable = true := by
      rw [nullable_keywords]
      exact decide_eq_true hnullable
    obtain ⟨kinds, items, properties, allOf, anyOf, oneOf, -, -, -, -, -, -, rfl⟩ :=
      (keywords [] ms).exists_of_assemble hassemble
    rw [hkeyword]
    exact allowsNull_compose _ kinds items properties allOf anyOf oneOf
  | _ => cases hnullable

/-- **A nullable schema admits null unless a mixed node keeps it out**: the schema itself, with
    kinds that leave null out, or an alternative that takes null on its face, where no alternative
    admits null. -/
theorem admitsNull_of_nullable_iff {raw : Json} {s : Schema} (h : ofRaw raw = .ok s)
    (hnullable : raw.get? "nullable" = some (.bool true)) : s.admitsNull ↔
      (s.Mixed → ∀ ks ∈ s.type, .null ∈ ks.toList) ∧
        ∀ ss ∈ s.anyOf, (∃ t ∈ ss, t.takesNull ∧ t.Mixed) → ∃ t ∈ ss, t.admitsNull :=
  (allowsNull_of_ofRaw h hnullable).admitsNull_iff

/-! ## Alternatives from one branch and kinds from another -/

/-- A nullable schema with two branches, the first with strings as its one alternative, the second
    with a kind. -/
def nullableBranches (kind : Json) : Json :=
  .object [("allOf", .array [
      .object [("anyOf", .array [.object [("type", .string "string")]])],
      .object [("type", kind)]]),
    ("nullable", .bool true)]

/-- Where null is among the kinds, the mixed node admits it. -/
theorem admitsNull_nullableBranches :
    let raw := nullableBranches (.array [.string "array", .string "null"])
    let s : Schema := ⟨some (.list [.array, .null]), none, none,
      some [ofKind .string, ofKind .null]⟩
    raw.get? "nullable" = some (.bool true) ∧ ofRaw raw = .ok s ∧ s.Mixed ∧ s.admitsNull := by
  intro raw s
  have h : ofRaw raw = .ok s := rfl
  have hnullable : raw.get? "nullable" = some (.bool true) := rfl
  refine ⟨hnullable, h, by decide, (admitsNull_of_nullable_iff h hnullable).2 ⟨?_, ?_⟩⟩
  · rintro - _ ⟨rfl⟩
    decide
  · rintro _ ⟨rfl⟩ -
    exact ⟨ofKind .null, by simp, by decide⟩

/-- Where it is not, null becomes an alternative, and the kind keeps it out. -/
theorem not_admitsNull_nullableBranches :
    let raw := nullableBranches (.string "array")
    let s : Schema := ⟨some (.single .array), none, none, some [ofKind .string, ofKind .null]⟩
    raw.get? "nullable" = some (.bool true) ∧ ofRaw raw = .ok s ∧ s.admitsNull = false :=
  ⟨rfl, rfl, rfl⟩

end Schema

end ResponseSchema
