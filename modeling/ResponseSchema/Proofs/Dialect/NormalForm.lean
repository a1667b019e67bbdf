/-
  Dialect — normal schemas, on which lowering does nothing.

  A schema of the dialect can itself be lowered as JSON.  That is `normalize`
  (`lower_toJson`): kinds beside alternatives go away, a list of one kind
  becomes the kind, empty lists of kinds or of alternatives vanish.

  * `Tidy` and `Mixed` are what `normalize` looks for at a node;
  * `normalize_eq_self_iff`: a schema stays as it is iff every node is tidy and
    none is mixed;
  * `ofRaw_toJson_fixed_iff`: so these are the fixed points of lowering.
-/
import ResponseSchema.Dialect.Lowering
import ResponseSchema.Proofs.Schema.Nodes

namespace ResponseSchema

namespace Schema

/-! ## Nodes that stay -/

/-- No list of kinds has fewer than two entries, no list of alternatives is empty. -/
def Tidy (s : Schema) : Prop :=
  (∀ ks, s.type = some (.list ks) → 2 ≤ ks.length) ∧ s.anyOf ≠ some []

/-- The node names kinds beside alternatives. -/
def Mixed (s : Schema) : Prop :=
  s.type.isSome ∧ s.anyOf.isSome

instance (s : Schema) : Decidable s.Mixed :=
  inferInstanceAs (Decidable (_ ∧ _))

/-! ## Normalizing -/

mutual

/-- The schema that lowering makes of a schema as JSON. -/
def normalize : Schema → Schema
  | ⟨type, items, properties, anyOf⟩ =>
    ⟨if anyOf.isSome then none else type.bind fun ks => Kinds.ofList? ks.toList,
      normalizeItems items, normalizeProperties properties, normalizeAnyOf anyOf⟩

/-- The schema for items, normalized. -/
def normalizeItems : Option Schema → Option Schema
  | none => none
  | some s => some (normalize s)

/-- The schemas for properties, normalized. -/
def normalizeProperties : Option (List (String × Schema)) → Option (List (String × Schema))
  | none => none
  | some ps => some (normalizeEntries ps)

/-- The alternatives, normalized; none instead of an empty list. -/
def normalizeAnyOf : Option (List Schema) → Option (List Schema)
  | none => none
  | some [] => none
  | some (s :: ss) => some (normalize s :: normalizeList ss)

/-- Each property normalized. -/
def normalizeEntries : List (String × Schema) → List (String × Schema)
  | [] => []
  | (name, s) :: ps => (name, normalize s) :: normalizeEntries ps

/-- Each schema normalized. -/
def normalizeList : List Schema → List Schema
  | [] => []
  | s :: ss => normalize s :: normalizeList ss

end

theorem normalizeItems_eq_map (items : Option Schema) :
    normalizeItems items = items.map normalize := by
  cases items <;> rfl

theorem normalizeEntries_eq_map (ps : List (String × Schema)) :
    normalizeEntries ps = ps.map fun e => (e.1, e.2.normalize) := by
  induction ps with
  | nil => rfl
  | cons e ps ih => rw [normalizeEntries, ih, List.map_cons]

theorem normalizeProperties_eq_map (properties : Option (List (String × Schema))) :
    normalizeProperties properties =
      properties.map fun ps => ps.map fun e => (e.1, e.2.normalize) := by
  cases properties with
  | none => rfl
  | some ps => rw [normalizeProperties, normalizeEntries_eq_map]; rfl

theorem normalizeList_eq_map (ss : List Schema) : normalizeList ss = ss.map normalize := by
  induction ss with
  | nil => rfl
  | cons s ss ih => rw [normalizeList, ih, List.map_cons]

/-! ## Lowering a schema of the dialect -/

theorem declaredKinds_toJson (location : Location) (ks : Kinds) :
    declaredKinds location ks.toJson = .ok ks.toList := by
  have listed : ∀ ks : List Kind,
      (ks.map fun k => Json.string k.name).mapM (listedKind location) = .ok ks := by
    intro ks
    induction ks with
    | nil => rfl
    | cons k ks ih => rw [List.map_cons, List.mapM_cons, ih]; simp [listedKind, namedKind]; rfl
  cases ks with
  | single k => simp [Kinds.toJson, declaredKinds, namedKind, Kinds.toList, Except.map]
  | list ks => simp [Kinds.toJson, declaredKinds, listed, Kinds.toList]

theorem itemsFrom_toJson (s : Schema) (node : Except Rejection Schema)
    (tuple : Except Rejection (List Schema)) : itemsFrom s.toJson node tuple = node.map some := by
  cases s; rfl

theorem toJson_ne_bool (s : Schema) (b : Bool) : s.toJson ≠ .bool b := by
  cases s; simp [toJson]

/-- The keywords of a schema, each lowered. -/
def toKeywords (s : Schema) : Keywords where
  kinds := .ok ((s.type.map Kinds.toList).getD [])
  items := .ok (normalizeItems s.items)
  properties := .ok (normalizeProperties s.properties)
  anyOf := .ok (s.anyOf.map normalizeList)

theorem assemble_toKeywords (s : Schema) : s.toKeywords.assemble = .ok s.normalize := by
  obtain ⟨type, items, properties, anyOf⟩ := s
  have hk (kinds : List Kind) : Keywords.adjust false false kinds = kinds := by
    simp [Keywords.adjust]
  show Except.ok (Keywords.compose (Keywords.adjust false false _) false _ _ none _ none) = _
  rw [hk, normalize]
  congr 1
  rcases anyOf with _ | _ | ⟨s, ss⟩
  · cases type <;> rfl
  · rfl
  · simp [Keywords.compose, normalizeAnyOf, normalizeList]

mutual

/-- **Lowering a schema of the dialect normalizes it.** -/
theorem lower_toJson : ∀ (s : Schema) (location : Location),
    lower location s.toJson = .ok s.normalize
  | ⟨type, items, properties, anyOf⟩, location => by
    have hi := lower_toJson_items items
    have hp := lower_toJson_properties properties
    have ha := lower_toJson_anyOf anyOf
    rw [← assemble_toKeywords, toJson, lower]
    congr 1
    cases type <;> cases items <;> cases properties <;> cases anyOf <;>
      simp_all [keywords, typeMember, itemsMember, propertiesMember, anyOfMember, toKeywords,
        declaredKinds_toJson, itemsFrom_toJson, normalizeItems, normalizeProperties,
        lowerProperties, lowerBranches, Except.map]

theorem lower_toJson_items : ∀ (items : Option Schema), ∀ s ∈ items, ∀ location : Location,
    lower location s.toJson = .ok s.normalize
  | none => by simp
  | some s => by simpa using lower_toJson s

theorem lower_toJson_properties : ∀ (properties : Option (List (String × Schema))),
    ∀ ps ∈ properties, ∀ location : Location,
      lowerMembers location (entriesToJson ps) = .ok (normalizeEntries ps)
  | none => by simp
  | some ps => by simpa using lowerMembers_toJson ps

theorem lower_toJson_anyOf : ∀ (anyOf : Option (List Schema)), ∀ ss ∈ anyOf,
    ∀ (location : Location) (index : Nat),
      lowerList location index (listToJson ss) = .ok (normalizeList ss)
  | none => by simp
  | some ss => by simpa using lowerList_toJson ss

theorem lowerMembers_toJson : ∀ (ps : List (String × Schema)) (location : Location),
    lowerMembers location (entriesToJson ps) = .ok (normalizeEntries ps)
  | [], _ => rfl
  | (name, s) :: ps, location => by
    rw [entriesToJson, lowerMembers, if_neg (toJson_ne_bool s false), lower_toJson s,
      lowerMembers_toJson ps]
    rfl

theorem lowerList_toJson : ∀ (ss : List Schema) (location : Location) (index : Nat),
    lowerList location index (listToJson ss) = .ok (normalizeList ss)
  | [], _, _ => rfl
  | s :: ss, location, index => by
    rw [listToJson, lowerList, lower_toJson s, lowerList_toJson ss]
    rfl

end

theorem ofRaw_toJson (s : Schema) : ofRaw s.toJson = .ok s.normalize := by
  rw [ofRaw, lower_toJson]; rfl

/-! ## Fixed points -/

theorem ofList?_toList_eq_self (ks : Kinds) :
    Kinds.ofList? ks.toList = some ks ↔ ∀ l, ks = .list l → 2 ≤ l.length := by
  cases ks with
  | single k => simp [Kinds.ofList?, Kinds.toList]
  | list l => rcases l with _ | ⟨k, _ | ⟨k', l⟩⟩ <;> simp [Kinds.ofList?, Kinds.toList]

theorem map_normalize_eq_self (ss : List Schema) :
    ss.map normalize = ss ↔ ∀ s ∈ ss, s.normalize = s := by
  conv_lhs => rhs; rw [← List.map_id ss]
  exact List.map_inj_left

theorem normalizeKinds_eq_self (s : Schema) :
    ((if s.anyOf.isSome then none else s.type.bind fun ks => Kinds.ofList? ks.toList) = s.type ∧
      s.anyOf ≠ some []) ↔ s.Tidy ∧ ¬ s.Mixed := by
  obtain ⟨type, items, properties, anyOf⟩ := s
  rcases type with _ | ks <;> rcases anyOf with _ | ss <;>
    simp [Tidy, Mixed, ofList?_toList_eq_self]

/-- **A schema is normal iff every node is tidy and none is mixed.** -/
theorem normalize_eq_self_iff (s : Schema) :
    s.normalize = s ↔ ∀ n ∈ s.nodes, n.Tidy ∧ ¬ n.Mixed := by
  induction s using Schema.induction with
  | node s below =>
    obtain ⟨type, items, properties, anyOf⟩ := s
    obtain ⟨hi, hp, ha⟩ := below
    have items_iff : items.map normalize = items ↔
        ∀ s ∈ items, ∀ n ∈ s.nodes, n.Tidy ∧ ¬ n.Mixed := by
      cases items with
      | none => simp
      | some s => simpa using hi s rfl
    have properties_iff : (properties.map fun ps => ps.map fun e => (e.1, e.2.normalize)) =
        properties ↔ ∀ ps ∈ properties, ∀ e ∈ ps, ∀ n ∈ e.2.nodes, n.Tidy ∧ ¬ n.Mixed := by
      cases properties with
      | none => simp
      | some ps =>
        have entry : ∀ e ∈ ps, ((e.1, e.2.normalize) = e ↔
            ∀ n ∈ e.2.nodes, n.Tidy ∧ ¬ n.Mixed) := by
          intro e he
          rw [← hp ps rfl e he, Prod.ext_iff]; simp
        simp only [Option.map_some, Option.some.injEq, Option.mem_def, forall_eq']
        conv_lhs => rhs; rw [← List.map_id ps]
        rw [List.map_inj_left]
        exact forall₂_congr entry
    have anyOf_iff : normalizeAnyOf anyOf = anyOf ↔ anyOf ≠ some [] ∧
        ∀ ss ∈ anyOf, ∀ s ∈ ss, ∀ n ∈ s.nodes, n.Tidy ∧ ¬ n.Mixed := by
      rcases anyOf with _ | _ | ⟨s, ss⟩
      · simp [normalizeAnyOf]
      · simp [normalizeAnyOf]
      · have list_iff := (map_normalize_eq_self (s :: ss)).trans
          (forall₂_congr (ha (s :: ss) rfl))
        simpa [normalizeAnyOf, normalizeList_eq_map] using list_iff
    have kinds_iff := normalizeKinds_eq_self ⟨type, items, properties, anyOf⟩
    rw [normalize, mk.injEq, normalizeItems_eq_map, normalizeProperties_eq_map, anyOf_iff,
      items_iff, properties_iff, forall_mem_nodes, ← kinds_iff]
    constructor
    · rintro ⟨h1, h2, h3, h4, h5⟩
      exact ⟨⟨h1, h4⟩, h2, h3, h5⟩
    · rintro ⟨⟨h1, h4⟩, h2, h3, h5⟩
      exact ⟨h1, h2, h3, h4, h5⟩

/-- **The fixed points of lowering are the normal schemas**: lowering succeeds on every schema as
    JSON, and gives the schema itself iff at every node a list of kinds has two entries at least, a
    list of alternatives has one at least, and kinds and alternatives are not both there. -/
theorem ofRaw_toJson_fixed_iff (s : Schema) : (∃ t, ofRaw s.toJson = .ok t) ∧
    (ofRaw s.toJson = .ok s ↔ ∀ n ∈ s.nodes, n.Tidy ∧ ¬ n.Mixed) := by
  rw [ofRaw_toJson, Except.ok.injEq, normalize_eq_self_iff]
  exact ⟨⟨s.normalize, rfl⟩, Iff.rfl⟩

-- a list of one kind, deep inside, becomes the kind
example : ofRaw (arrayOf (objectOf [("id", ofKinds [.string])])).toJson =
    .ok (arrayOf (objectOf [("id", ofKind .string)])) := rfl

end Schema

end ResponseSchema
