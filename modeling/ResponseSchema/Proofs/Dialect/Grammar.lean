/-
  Dialect — the raw schemas that can be lowered.

  * `Json.WellFormed`: the grammar of raw schemas, with one judgement for what can
    stand under each keyword; a keyword that is not there asks for nothing, and
    other keywords are not looked at;
  * `Json.decided`: lowering tells the well-formed values from the others in every
    place where a value can stand;
  * `Schema.ofRaw_ok_iff`: so it succeeds on the well-formed schemas, and fails on
    all others.
-/
import ResponseSchema.Proofs.Dialect.Lowered

namespace ResponseSchema

/-! ## The grammar -/

namespace Json

/-- The name of one of the kinds. -/
def IsKindName (v : Json) : Prop :=
  ∃ k : Kind, v = .string k.name

/-- What can stand under `type`: a kind or a list of kinds, by name. -/
def NamesKinds (v : Json) : Prop :=
  v.IsKindName ∨ ∃ vs, v = .array vs ∧ ∀ w ∈ vs, w.IsKindName

mutual

/-- A raw schema that says nothing, or one with a well-formed value under each keyword of the
    grammar that it has. -/
inductive WellFormed : Json → Prop
  | anything : WellFormed (.bool true)
  | node {ms : List (String × Json)}
      (type : ∀ v, ms.lookup "type" = some v → v.NamesKinds)
      (items : ∀ v, ms.lookup "items" = some v → WellFormedItems v)
      (properties : ∀ v, ms.lookup "properties" = some v → WellFormedProperties v)
      (branches : ∀ (c : Combinator) (v : Json), ms.lookup c.keyword = some v →
        WellFormedBranches v) :
      WellFormed (.object ms)

/-- What can stand under `items`: `false`, a schema, or a list of schemas. -/
inductive WellFormedItems : Json → Prop
  | nothing : WellFormedItems (.bool false)
  | each {v : Json} : WellFormed v → WellFormedItems v
  | tuple {vs : List Json} : (∀ v ∈ vs, WellFormed v) → WellFormedItems (.array vs)

/-- What can stand under `properties`: an object that has `false` or a schema under each name. -/
inductive WellFormedProperties : Json → Prop
  | entries {ms : List (String × Json)} :
      (∀ e ∈ ms, e.2 ≠ .bool false → WellFormed e.2) → WellFormedProperties (.object ms)

/-- What can stand under a combinator: a list of schemas. -/
inductive WellFormedBranches : Json → Prop
  | list {vs : List Json} : (∀ v ∈ vs, WellFormed v) → WellFormedBranches (.array vs)

end

theorem wellFormed_object_iff {ms : List (String × Json)} : (object ms).WellFormed ↔
    (∀ v, ms.lookup "type" = some v → v.NamesKinds) ∧
    (∀ v, ms.lookup "items" = some v → v.WellFormedItems) ∧
    (∀ v, ms.lookup "properties" = some v → v.WellFormedProperties) ∧
    ∀ (c : Combinator) (v : Json), ms.lookup c.keyword = some v → v.WellFormedBranches := by
  constructor
  · rintro (_ | ⟨type, items, properties, branches⟩)
    exact ⟨type, items, properties, branches⟩
  · rintro ⟨type, items, properties, branches⟩
    exact .node type items properties branches

theorem wellFormedItems_array_iff {vs : List Json} :
    (array vs).WellFormedItems ↔ ∀ v ∈ vs, v.WellFormed := by
  constructor
  · rintro (_ | ⟨⟨⟩⟩ | h)
    exact h
  · exact .tuple

theorem wellFormedItems_object_iff {ms : List (String × Json)} :
    (object ms).WellFormedItems ↔ (object ms).WellFormed := by
  constructor
  · rintro (_ | h)
    exact h
  · exact .each

theorem wellFormedProperties_object_iff {ms : List (String × Json)} :
    (object ms).WellFormedProperties ↔ ∀ e ∈ ms, e.2 ≠ .bool false → e.2.WellFormed := by
  constructor
  · rintro ⟨h⟩
    exact h
  · exact .entries

theorem wellFormedBranches_array_iff {vs : List Json} :
    (array vs).WellFormedBranches ↔ ∀ v ∈ vs, v.WellFormed := by
  constructor
  · rintro ⟨h⟩
    exact h
  · exact .list

end Json

/-! ## Faults of keywords -/

/-- Of the faults of a node the first in the order of the keywords counts. -/
theorem Keywords.failure?_assemble (k : Keywords) : failure? k.assemble =
    (failure? k.kinds).or ((failure? k.items).or ((failure? k.properties).or
      ((failure? k.allOf).or ((failure? k.anyOf).or (failure? k.oneOf))))) :=
  failure?_bind fun _ _ => failure?_bind fun _ _ => failure?_bind fun _ _ =>
    failure?_bind fun _ _ => failure?_bind fun _ _ =>
      failure?_bind_pure _ _

theorem failure?_namedKind_iff {location : Location} {name : String} :
    failure? (namedKind location name) = none ↔ (Json.string name).IsKindName := by
  rw [namedKind]
  cases hname : Kind.ofName? name with
  | some k => exact iff_of_true rfl ⟨k, by rw [Kind.name_of_ofName? hname]⟩
  | none =>
    refine iff_of_false (Option.some_ne_none _) ?_
    rintro ⟨k, hk⟩
    rw [Json.string.inj hk, Kind.ofName?_name] at hname
    cases hname

theorem failure?_listedKind_iff {location : Location} {v : Json} :
    failure? (listedKind location v) = none ↔ v.IsKindName := by
  cases v with
  | string name => exact failure?_namedKind_iff
  | _ => exact iff_of_false nofun nofun

theorem failure?_listedKinds_iff {location : Location} {vs : List Json} :
    failure? (vs.mapM (listedKind location)) = none ↔ ∀ v ∈ vs, v.IsKindName := by
  induction vs with
  | nil => exact iff_of_true rfl (by simp)
  | cons v vs ih =>
    rw [List.mapM_cons, failure?_bind_bind_pure, Option.or_eq_none_iff, ih, failure?_listedKind_iff,
      List.forall_mem_cons]

theorem failure?_declaredKinds_iff {location : Location} {v : Json} :
    failure? (declaredKinds location v) = none ↔ v.NamesKinds := by
  cases v with
  | string name =>
    rw [declaredKinds, failure?_map, failure?_namedKind_iff]
    simp [Json.NamesKinds]
  | array vs =>
    rw [declaredKinds, failure?_listedKinds_iff]
    simp [Json.NamesKinds, Json.IsKindName]
  | _ =>
    exact iff_of_false (Option.some_ne_none _) (by simp [Json.NamesKinds, Json.IsKindName])

/-- A keyword that is not there has no fault. -/
theorem failure?_elim_iff {α : Type} {o : Option Json} {a : α} {f : Json → Except Rejection α} :
    failure? (o.elim (.ok a) f) = none ↔ ∀ v, o = some v → failure? (f v) = none := by
  cases o <;> simp [failure?]

/-! ## Lowering -/

/-- Lowering tells the well-formed values from the others wherever a value can stand. -/
structure Json.Decided (v : Json) : Prop where
  schema : ∀ location, failure? (lower location v) = none ↔ v.WellFormed
  items : ∀ location, failure? (itemsFrom v (lower location v) (lowerTuple location v)) = none ↔
    v.WellFormedItems
  properties : ∀ location, failure? (lowerProperties location v) = none ↔ v.WellFormedProperties
  branches : ∀ location, failure? (lowerBranches location v) = none ↔ v.WellFormedBranches

theorem failure?_lowerList_iff {vs : List Json} (h : ∀ v ∈ vs, v.Decided) (location : Location)
    (index : Nat) : failure? (lowerList location index vs) = none ↔ ∀ v ∈ vs, v.WellFormed := by
  induction vs generalizing index with
  | nil => exact iff_of_true rfl (by simp)
  | cons v vs ih =>
    rw [List.forall_mem_cons] at h
    rw [lowerList, failure?_bind_bind_pure, Option.or_eq_none_iff, h.1.schema, ih h.2,
      List.forall_mem_cons]

theorem failure?_lowerMembers_iff {ms : List (String × Json)} (h : ∀ e ∈ ms, e.2.Decided)
    (location : Location) : failure? (lowerMembers location ms) = none ↔
      ∀ e ∈ ms, e.2 ≠ .bool false → e.2.WellFormed := by
  induction ms with
  | nil => exact iff_of_true rfl (by simp)
  | cons e ms ih =>
    obtain ⟨name, v⟩ := e
    rw [List.forall_mem_cons] at h
    rw [List.forall_mem_cons, lowerMembers]
    split
    · next hfalse =>
      rw [ih h.2, and_iff_right fun hne => absurd hfalse hne]
    · next hne =>
      rw [failure?_bind_bind_pure, Option.or_eq_none_iff, h.1.schema, ih h.2,
        forall_prop_of_true hne]

theorem Json.decided_array {vs : List Json} (h : ∀ v ∈ vs, v.Decided) : (array vs).Decided where
  schema location := iff_of_false nofun nofun
  items location := by
    rw [wellFormedItems_array_iff, itemsFrom, failure?_map, lowerTuple]
    exact failure?_lowerList_iff h location 0
  properties location := iff_of_false nofun nofun
  branches location := by
    rw [wellFormedBranches_array_iff, lowerBranches, failure?_map]
    exact failure?_lowerList_iff h location 0

theorem Json.decided_object {ms : List (String × Json)} (h : ∀ e ∈ ms, e.2.Decided) :
    (object ms).Decided := by
  have found {name : String} (v : Json) (hv : ms.lookup name = some v) : v.Decided :=
    h _ (Entries.mem_of_lookup hv)
  have schema (location : Location) :
      failure? (lower location (object ms)) = none ↔ (object ms).WellFormed := by
    have combinators {p : Combinator → Prop} : (∀ c, p c) ↔ p .allOf ∧ p .anyOf ∧ p .oneOf :=
      ⟨fun hp => ⟨hp _, hp _, hp _⟩, by rintro ⟨hall, hany, hone⟩ (_ | _) <;> assumption⟩
    rw [lower, Keywords.failure?_assemble, keywords_eq, wellFormed_object_iff, combinators]
    simp only [Option.or_eq_none_iff, failure?_elim_iff]
    refine and_congr ?_ (and_congr ?_ (and_congr ?_ (and_congr ?_ (and_congr ?_ ?_))))
    · exact forall₂_congr fun v _ => failure?_declaredKinds_iff
    · exact forall₂_congr fun v hv => (found v hv).items _
    · exact forall₂_congr fun v hv => (found v hv).properties _
    · exact forall₂_congr fun v hv => (found v hv).branches _
    · exact forall₂_congr fun v hv => (found v hv).branches _
    · exact forall₂_congr fun v hv => (found v hv).branches _
  exact {
    schema
    items := fun location => by
      rw [wellFormedItems_object_iff, ← schema location, itemsFrom, failure?_map] <;> exact nofun
    properties := fun location => by
      rw [wellFormedProperties_object_iff, lowerProperties, failure?_map]
      exact failure?_lowerMembers_iff h location
    branches := fun location => iff_of_false nofun nofun }

/-- **Lowering tells the well-formed values from the others**, at every depth. -/
theorem Json.decided (v : Json) : v.Decided := by
  induction v using Json.induction with
  | array vs ih => exact decided_array ih
  | object ms ih => exact decided_object ih
  | bool b =>
    cases b with
    | true => exact {
        schema := fun _ => iff_of_true rfl .anything
        items := fun _ => iff_of_true rfl (.each .anything)
        properties := fun _ => iff_of_false nofun nofun
        branches := fun _ => iff_of_false nofun nofun }
    | false => exact {
        schema := fun _ => iff_of_false nofun nofun
        items := fun _ => iff_of_true rfl .nothing
        properties := fun _ => iff_of_false nofun nofun
        branches := fun _ => iff_of_false nofun nofun }
  | null | number _ | string _ => exact {
      schema := fun _ => iff_of_false nofun nofun
      items := fun _ => iff_of_false nofun (by rintro (_ | ⟨⟨⟩⟩))
      properties := fun _ => iff_of_false nofun nofun
      branches := fun _ => iff_of_false nofun nofun }

/-- **A raw schema can be lowered iff it is well formed**; one that cannot is invalid. -/
theorem Schema.ofRaw_ok_iff (raw : Json) :
    ((∃ s, ofRaw raw = .ok s) ↔ raw.WellFormed) ∧
      ∀ e, ofRaw raw = .error e → ∃ rejection, e = .invalid rejection := by
  rw [← raw.decided.schema [], ofRaw]
  cases lower [] raw with
  | ok s => exact ⟨iff_of_true ⟨s, rfl⟩ rfl, by rintro _ ⟨⟩⟩
  | error rejection =>
    constructor
    · exact iff_of_false (by rintro ⟨_, ⟨⟩⟩) (Option.some_ne_none _)
    · rintro _ ⟨rfl⟩
      exact ⟨rejection, rfl⟩

instance : DecidablePred Json.WellFormed := fun raw =>
  decidable_of_iff _ (raw.decided.schema [])

example : (Json.object [("items", .bool false)]).WellFormed ∧
    ¬ (Json.object [("items", .array [.bool false])]).WellFormed := by decide

end ResponseSchema
