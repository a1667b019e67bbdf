/-
  Dialect — the values that a schema accepts.

  `Json.accepts` gives the keywords that lowering reads their standard meaning:
  `type`, `items` with one schema, `properties`, `allOf`, `anyOf`, and `oneOf` for
  exactly one.  Whatever other keywords a node has, they can only reject more:
  `Further` stands for them.

  * `Json.plain`: no node has `nullable`, the format `byte`, or items that are
    told apart by position, which these meanings leave out;
  * `accepts_iff` says for a schema of the dialect what its JSON accepts;
  * `Keywords.Admit.assemble` and `accepts_of_lower`: lowering a plain schema
    never tightens it.
-/
import ResponseSchema.Proofs.Dialect.Lowered

namespace ResponseSchema

/-! ## Values and kinds -/

/-- Whether a number has no fraction. -/
def Number.isWhole : Number → Bool
  | .integer _ => true
  | .float x => decide (x.ratio.1 % x.ratio.2 = 0)

/-- Whether a value is of a kind; a number without a fraction is also an integer. -/
def Kind.admits : Kind → Json → Bool
  | .null, .null => true
  | .boolean, .bool _ => true
  | .object, .object _ => true
  | .array, .array _ => true
  | .number, .number _ => true
  | .string, .string _ => true
  | .integer, .number n => n.isWhole
  | _, _ => false

namespace Json

/-- Whether a value is of the kind with a name. -/
def ofNamedKind (v : Json) : Json → Bool
  | .string name => (Kind.ofName? name).any (·.admits v)
  | _ => false

/-- Whether a value is of the kind, or of one of the kinds, that stands under `type`. -/
def ofKinds (v : Json) : Json → Bool
  | .array names => names.any v.ofNamedKind
  | name => v.ofNamedKind name

/-- The elements of an array; other values have none. -/
def elements : Json → List Json
  | .array vs => vs
  | _ => []

/-- Whether the value is an array. -/
def isArray : Json → Bool
  | .array _ => true
  | _ => false

/-! ## Acceptance -/

/-- What the other keywords of a node have to say to a value. -/
abbrev Further := List (String × Json) → Json → Bool

mutual

/-- Whether a raw schema accepts a value. -/
def accepts (further : Further) : Json → Json → Bool
  | .bool answer, _ => answer
  | .object ms, v => obeys further ms v && further ms v
  | _, _ => false
termination_by structural schema => schema

/-- Whether each of the keywords that lowering reads accepts a value. -/
def obeys (further : Further) : List (String × Json) → Json → Bool
  | [], _ => true
  | (name, k) :: ms, v =>
    (if name = "type" then v.ofKinds k
    else if name = "items" then k.isArray || v.elements.all fun x => accepts further k x
    else if name = "properties" then obeysProperties further k v
    else if name = "allOf" then (verdicts further k v).all id
    else if name = "anyOf" then (verdicts further k v).any id
    else if name = "oneOf" then decide ((verdicts further k v).count true = 1)
    else true) && obeys further ms v
termination_by structural ms => ms

/-- Whether the value has under the name of each property only what its schema accepts. -/
def obeysProperties (further : Further) : Json → Json → Bool
  | .object ps, v => obeysEntries further ps v
  | _, _ => true
termination_by structural schemas => schemas

/-- `obeysProperties`, property by property. -/
def obeysEntries (further : Further) : List (String × Json) → Json → Bool
  | [], _ => true
  | (name, k) :: ps, v =>
    ((v.get? name).all fun x => accepts further k x) && obeysEntries further ps v
termination_by structural ps => ps

/-- Which schemas under a combinator accept a value. -/
def verdicts (further : Further) : Json → Json → List Bool
  | .array ks, v => verdictsEach further ks v
  | _, _ => []
termination_by structural schemas => schemas

/-- `verdicts`, schema by schema. -/
def verdictsEach (further : Further) : List Json → Json → List Bool
  | [], _ => []
  | k :: ks, v => accepts further k v :: verdictsEach further ks v
termination_by structural ks => ks

end

mutual

/-- Whether no node that lowering visits has `nullable`, the format `byte`, `prefixItems` or a
    list of items. -/
def plain : Json → Bool
  | .object ms => plainMembers ms
  | _ => true

/-- `plain`, for the keywords of a node. -/
def plainMembers : List (String × Json) → Bool
  | [] => true
  | (name, k) :: ms =>
    (if name = "nullable" ∨ name = "prefixItems" then false
    else if name = "format" then decide (k ≠ .string "byte")
    else if name = "items" then !k.isArray && plain k
    else if name = "properties" then plainProperties k
    else if name = "allOf" ∨ name = "anyOf" ∨ name = "oneOf" then plainBranches k
    else true) && plainMembers ms

/-- `plain`, for the schemas of properties. -/
def plainProperties : Json → Bool
  | .object ps => plainEntries ps
  | _ => true

/-- `plain`, property by property. -/
def plainEntries : List (String × Json) → Bool
  | [] => true
  | (_, k) :: ps => plain k && plainEntries ps

/-- `plain`, for the schemas under a combinator. -/
def plainBranches : Json → Bool
  | .array ks => plainEach ks
  | _ => true

/-- `plain`, schema by schema. -/
def plainEach : List Json → Bool
  | [] => true
  | k :: ks => plain k && plainEach ks

end

variable {further : Further}

theorem obeys_append (ms ns : List (String × Json)) (v : Json) :
    obeys further (ms ++ ns) v = (obeys further ms v && obeys further ns v) := by
  induction ms with
  | nil => rfl
  | cons e ms ih => rw [List.cons_append, obeys, obeys, ih, Bool.and_assoc]

theorem verdictsEach_eq_map (ks : List Json) (v : Json) :
    verdictsEach further ks v = ks.map fun k => accepts further k v := by
  induction ks with
  | nil => rfl
  | cons k ks ih => rw [verdictsEach, ih, List.map_cons]

theorem obeysEntries_iff (ps : List (String × Json)) (v : Json) :
    obeysEntries further ps v ↔
      ∀ e ∈ ps, ∀ x, v.get? e.1 = some x → accepts further e.2 x := by
  induction ps with
  | nil => simp [obeysEntries]
  | cons e ps ih =>
    rw [obeysEntries, Bool.and_eq_true, ih, List.forall_mem_cons, Option.all_eq_true]

end Json

/-! ## Schemas of the dialect -/

namespace Schema

/-- Whether a schema of the dialect accepts a value: what its JSON says, and nothing more. -/
def accepts (s : Schema) (v : Json) : Bool :=
  s.toJson.accepts (fun _ _ => true) v

/-- What the four parts of a node ask of a value. -/
structure Admits (s : Schema) (v : Json) : Prop where
  type : ∀ ks ∈ s.type, ∃ k ∈ ks.toList, k.admits v
  items : ∀ i ∈ s.items, ∀ x ∈ v.elements, i.accepts x
  properties : ∀ ps ∈ s.properties, ∀ e ∈ ps, ∀ x, v.get? e.1 = some x → e.2.accepts x
  anyOf : ∀ ss ∈ s.anyOf, ∃ t ∈ ss, t.accepts v

variable {v : Json}

theorem ofKinds_toJson (ks : Kinds) : v.ofKinds ks.toJson ↔ ∃ k ∈ ks.toList, k.admits v := by
  cases ks with
  | single k => simp [Kinds.toJson, Json.ofKinds, Json.ofNamedKind, Kinds.toList]
  | list ks => simp [Kinds.toJson, Json.ofKinds, Json.ofNamedKind, Kinds.toList]

theorem isArray_toJson (s : Schema) : s.toJson.isArray = false := by
  cases s; rfl

theorem acceptsType (type : Option Kinds) (v : Json) :
    Json.obeys (fun _ _ => true) (typeMember type) v ↔
      ∀ ks ∈ type, ∃ k ∈ ks.toList, k.admits v := by
  cases type with
  | none => simp [typeMember, Json.obeys]
  | some ks => simp [typeMember, Json.obeys, ofKinds_toJson]

theorem acceptsItems (items : Option Schema) (v : Json) :
    Json.obeys (fun _ _ => true) (itemsMember items) v ↔
      ∀ i ∈ items, ∀ x ∈ v.elements, i.accepts x := by
  cases items with
  | none => simp [itemsMember, Json.obeys]
  | some i => simp [itemsMember, Json.obeys, isArray_toJson, accepts]

theorem acceptsProperties (properties : Option (List (String × Schema))) (v : Json) :
    Json.obeys (fun _ _ => true) (propertiesMember properties) v ↔
      ∀ ps ∈ properties, ∀ e ∈ ps, ∀ x, v.get? e.1 = some x → e.2.accepts x := by
  cases properties with
  | none => simp [propertiesMember, Json.obeys]
  | some ps =>
    have entries : Json.obeys (fun _ _ => true) (propertiesMember (some ps)) v =
        Json.obeysEntries (fun _ _ => true) (entriesToJson ps) v := by
      simp [propertiesMember, Json.obeys, Json.obeysProperties]
    rw [entries, Json.obeysEntries_iff, entriesToJson_eq_map, List.forall_mem_map]
    simp [accepts]

theorem acceptsAnyOf (anyOf : Option (List Schema)) (v : Json) :
    Json.obeys (fun _ _ => true) (anyOfMember anyOf) v ↔
      ∀ ss ∈ anyOf, ∃ t ∈ ss, t.accepts v := by
  cases anyOf with
  | none => simp [anyOfMember, Json.obeys]
  | some ss =>
    simp [anyOfMember, Json.obeys, Json.verdicts, Json.verdictsEach_eq_map, listToJson_eq_map,
      accepts]

/-- **A schema accepts what its parts admit.** -/
theorem accepts_iff (s : Schema) : s.accepts v ↔ s.Admits v := by
  obtain ⟨type, items, properties, anyOf⟩ := s
  rw [accepts, toJson, Json.accepts, Bool.and_true, Json.obeys_append, Json.obeys_append,
    Json.obeys_append, Bool.and_eq_true, Bool.and_eq_true, Bool.and_eq_true, acceptsType,
    acceptsItems, acceptsProperties, acceptsAnyOf]
  constructor
  · rintro ⟨ht, hi, hp, ha⟩
    exact ⟨ht, hi, hp, ha⟩
  · rintro ⟨ht, hi, hp, ha⟩
    exact ⟨ht, hi, hp, ha⟩

/-! ## Putting a node together -/

theorem accepts_empty (v : Json) : empty.accepts v := by
  rw [accepts_iff]
  constructor <;> simp [empty]

/-- A value that a node and a branch admit, the node with the branch folded in admits. -/
theorem Admits.absorb {node branch : Schema} (hn : node.Admits v) (hb : branch.Admits v) :
    (node.absorb branch).Admits v where
  type := by
    intro ks hks
    cases htype : node.type with
    | none => exact hb.type ks (by simpa [Schema.absorb, htype] using hks)
    | some _ => exact hn.type ks (by simpa [Schema.absorb, htype] using hks)
  items := by
    intro i hi
    cases hitems : node.items with
    | none => exact hb.items i (by simpa [Schema.absorb, hitems] using hi)
    | some _ => exact hn.items i (by simpa [Schema.absorb, hitems] using hi)
  properties := by
    intro ps hps e he
    -- each property comes from the node or from the branch, and the value obeys both
    rcases mem_properties_absorb hps he with ⟨qs, hqs, he⟩ | ⟨qs, hqs, he⟩
    · exact hn.properties qs hqs e he
    · exact hb.properties qs hqs e he
  anyOf := by
    intro ss hss
    cases ha : branch.anyOf with
    | none => exact hn.anyOf ss (by simpa [Schema.absorb, joinAlternatives, ha] using hss)
    | some ts =>
      simp only [Schema.absorb, joinAlternatives, ha, Option.mem_def, Option.some.injEq] at hss
      subst hss
      obtain ⟨t, ht, hv⟩ := hb.anyOf ts ha
      exact ⟨t, List.mem_append_right _ ht, hv⟩

theorem Admits.foldl_absorb {branches : List Schema} {node : Schema} (hn : node.Admits v)
    (hb : ∀ b ∈ branches, b.Admits v) : (branches.foldl Schema.absorb node).Admits v := by
  induction branches generalizing node with
  | nil => exact hn
  | cons b bs ih =>
    rw [List.forall_mem_cons] at hb
    exact ih (hn.absorb hb.1) hb.2

theorem admits_ofList? {kinds : List Kind} (h : kinds ≠ [] → ∃ k ∈ kinds, k.admits v) :
    ∀ ks ∈ Kinds.ofList? kinds, ∃ k ∈ ks.toList, k.admits v := by
  rcases kinds with _ | ⟨k, _ | ⟨k', ks⟩⟩
  · simp [Kinds.ofList?]
  · simpa [Kinds.ofList?, Kinds.toList] using h
  · simpa [Kinds.ofList?, Kinds.toList] using h

end Schema

/-- What is known of a value that the keywords of a node accept. -/
structure Keywords.Admit (k : Keywords) (v : Json) : Prop where
  kinds : ∀ kinds, k.kinds = .ok kinds → kinds ≠ [] → ∃ kind ∈ kinds, kind.admits v
  byteFormat : k.byteFormat = false
  nullable : k.nullable = false
  items : ∀ o, k.items = .ok o → ∀ s ∈ o, ∀ x ∈ v.elements, s.accepts x
  properties : ∀ o, k.properties = .ok o →
    ∀ ps ∈ o, ∀ e ∈ ps, ∀ x, v.get? e.1 = some x → e.2.accepts x
  allOf : ∀ o, k.allOf = .ok o → ∀ ss ∈ o, ∀ s ∈ ss, s.accepts v
  anyOf : ∀ o, k.anyOf = .ok o → ∀ ss ∈ o, ∃ s ∈ ss, s.accepts v
  oneOf : ∀ o, k.oneOf = .ok o → ∀ ss ∈ o, ∃ s ∈ ss, s.accepts v

/-- **The node that lowered keywords make accepts what they all accept.** -/
theorem Keywords.Admit.assemble {k : Keywords} {v : Json} (hk : k.Admit v) {s : Schema}
    (h : k.assemble = .ok s) : s.accepts v := by
  obtain ⟨kinds, items, properties, allOf, anyOf, oneOf, hkinds, hitems, hproperties, hall, hany,
    hone, rfl⟩ := k.exists_of_assemble h
  have hadjust : adjust false false kinds = kinds := by simp [adjust]
  have folded {type : Option Kinds} (htype : ∀ ks ∈ type, ∃ k ∈ ks.toList, k.admits v) :
      ((allOf.getD []).foldl Schema.absorb ⟨type, items, properties, none⟩).Admits v := by
    refine Schema.Admits.foldl_absorb
      ⟨htype, hk.items items hitems, hk.properties properties hproperties, by simp⟩ fun b hb => ?_
    cases allOf with
    | none => simp at hb
    | some ss => exact (b.accepts_iff).1 (hk.allOf (some ss) hall ss rfl b hb)
  have branches (hne : anyOf.getD [] ++ oneOf.getD [] ≠ []) :
      ∃ t ∈ anyOf.getD [] ++ oneOf.getD [], t.accepts v := by
    cases anyOf with
    | some ss =>
      obtain ⟨t, ht, hv⟩ := hk.anyOf (some ss) hany ss rfl
      exact ⟨t, List.mem_append_left _ ht, hv⟩
    | none =>
      cases oneOf with
      | some ss => simpa using hk.oneOf (some ss) hone ss rfl
      | none => exact absurd rfl hne
  have typed (combined : Bool) : ∀ ks ∈ (if combined then none else Kinds.ofList? kinds),
      ∃ k ∈ ks.toList, k.admits v := by
    cases combined with
    | true => simp
    | false => exact Schema.admits_ofList? (hk.kinds kinds hkinds)
  rw [Schema.accepts_iff, hk.byteFormat, hk.nullable, hadjust, compose]
  simp only [Bool.and_false, if_neg Bool.false_ne_true]
  split
  · exact folded (typed _)
  · next hne =>
    have folded := folded (typed (allOf.isSome || anyOf.isSome || oneOf.isSome))
    refine ⟨by simp, folded.items, folded.properties, ?_⟩
    rintro _ ⟨rfl⟩
    exact branches (by simpa using hne)

/-! ## Lowering -/

theorem exists_admits_of_namedKind {location : Location} {name : String} {k : Kind}
    (h : namedKind location name = .ok k) {v : Json} (hv : v.ofNamedKind (.string name)) :
    k.admits v := by
  rw [namedKind] at h
  rw [Json.ofNamedKind] at hv
  cases hname : Kind.ofName? name with
  | none => rw [hname] at h; cases h
  | some k' => rw [hname] at h hv; cases h; exact hv

theorem exists_admits_of_listedKinds {location : Location} {v : Json} : ∀ {names : List Json}
    {kinds : List Kind}, names.mapM (listedKind location) = .ok kinds →
    names.any v.ofNamedKind → ∃ k ∈ kinds, k.admits v
  | [], _, _, hv => by cases hv
  | name :: names, kinds, h, hv => by
    rw [List.mapM_cons] at h
    obtain ⟨k, hk, h⟩ := bind_eq_ok h
    obtain ⟨ks, hks, h⟩ := bind_eq_ok h
    cases h
    rw [List.any_cons, Bool.or_eq_true] at hv
    rcases hv with hv | hv
    · cases name with
      | string name => exact ⟨k, .head _, exists_admits_of_namedKind hk hv⟩
      | _ => cases hv
    · obtain ⟨k', hk', hv⟩ := exists_admits_of_listedKinds hks hv
      exact ⟨k', .tail _ hk', hv⟩

/-- The kinds of a node admit a value that is of one of them. -/
theorem exists_admits_of_declaredKinds {location : Location} {raw : Json} {kinds : List Kind}
    (h : declaredKinds location raw = .ok kinds) {v : Json} (hv : v.ofKinds raw) :
    ∃ k ∈ kinds, k.admits v := by
  cases raw with
  | string name =>
    obtain ⟨k, hk, rfl⟩ := map_eq_ok h
    exact ⟨k, .head _, exists_admits_of_namedKind hk hv⟩
  | array names => exact exists_admits_of_listedKinds h hv
  | _ => cases h

theorem eq_of_itemsFrom {v : Json} {node : Except Rejection Schema}
    {tuple : Except Rejection (List Schema)} {o : Option Schema} (hv : v.isArray = false)
    (h : itemsFrom v node tuple = .ok o) : ∀ s ∈ o, node = .ok s := by
  rw [itemsFrom.eq_def] at h
  split at h
  · cases h; simp
  · cases hv
  · obtain ⟨s, hs, rfl⟩ := map_eq_ok h
    simpa using hs

namespace Schema

variable (further : Json.Further)

mutual

/-- **Lowering a plain schema never tightens it.** -/
theorem accepts_of_lower : ∀ (raw : Json) (location : Location) (s : Schema), raw.plain →
    lower location raw = .ok s → ∀ v, raw.accepts further v → s.accepts v
  | .object ms, location, s, hplain, h => by
    intro v hv
    rw [Json.accepts, Bool.and_eq_true] at hv
    exact (admit_keywords ms location hplain v hv.1).assemble h
  | .bool true, _, _, _, h => by
    intro v _
    cases h
    exact accepts_empty v
  | .bool false, _, _, _, h => by cases h
  | .null, _, _, _, h => by cases h
  | .number _, _, _, _, h => by cases h
  | .string _, _, _, _, h => by cases h
  | .array _, _, _, _, h => by cases h

/-- A value that obeys the keywords of a node is admitted by what they are lowered to. -/
theorem admit_keywords : ∀ (ms : List (String × Json)) (location : Location),
    Json.plainMembers ms → ∀ v, Json.obeys further ms v → (keywords location ms).Admit v
  | [], _, _ => by
    intro v _
    constructor <;> simp [keywords]
  | (name, k) :: ms, location, hplain => by
    intro v hv
    rw [Json.plainMembers, Bool.and_eq_true] at hplain
    rw [Json.obeys, Bool.and_eq_true] at hv
    have rest := admit_keywords ms location hplain.2 v hv.2
    replace hplain := hplain.1
    replace hv := hv.1
    rw [keywords]
    split_ifs with htype hformat hnullable hitems hproperties hall hany hone
    · rw [if_pos htype] at hv
      exact { rest with kinds := fun kinds hk _ => exists_admits_of_declaredKinds hk hv }
    · subst hformat
      exact { rest with byteFormat := by simpa using hplain }
    · subst hnullable
      simp at hplain
    · subst hitems
      simp only [String.reduceEq, if_false, if_true, or_self, Bool.and_eq_true,
        Bool.not_eq_true'] at hplain hv
      rw [hplain.1, Bool.false_or, List.all_eq_true] at hv
      refine { rest with items := fun o ho s hs x hx => ?_ }
      exact accepts_of_lower k _ s hplain.2 (eq_of_itemsFrom hplain.1 ho s hs) x (hv x hx)
    · subst hproperties
      simp only [String.reduceEq, if_false, if_true, or_self] at hplain hv
      exact { rest with properties := accepts_of_lowerProperties k location hplain v hv }
    · subst hall
      simp only [String.reduceEq, if_false, if_true, true_or, or_self] at hplain hv
      refine { rest with allOf := fun o ho ss hss => ?_ }
      exact (accepts_of_lowerBranches k _ hplain v o ho ss hss).1 hv
    · subst hany
      simp only [String.reduceEq, if_false, if_true, true_or, or_true, or_self] at hplain hv
      refine { rest with anyOf := fun o ho ss hss => ?_ }
      exact (accepts_of_lowerBranches k _ hplain v o ho ss hss).2 (by simpa using hv)
    · subst hone
      simp only [String.reduceEq, if_false, if_true, or_true, or_self, decide_eq_true_eq]
        at hplain hv
      refine { rest with oneOf := fun o ho ss hss => ?_ }
      -- exactly one schema accepts the value, so one does
      have hmem : true ∈ Json.verdicts further k v := List.count_pos_iff.1 (by omega)
      exact (accepts_of_lowerBranches k _ hplain v o ho ss hss).2 hmem
    · exact rest

theorem accepts_of_lowerBranches : ∀ (k : Json) (location : Location), k.plainBranches →
    ∀ v o, lowerBranches location k = .ok o → ∀ ss ∈ o,
      ((Json.verdicts further k v).all id → ∀ s ∈ ss, s.accepts v) ∧
      (true ∈ Json.verdicts further k v → ∃ s ∈ ss, s.accepts v)
  | .array ks, location, hplain => by
    intro v o h
    obtain ⟨ss, hss, rfl⟩ := map_eq_ok h
    rintro _ ⟨rfl⟩
    exact accepts_of_lowerList ks location 0 hplain v ss hss
  | .object _, _, _ => by intro v o h; cases h
  | .bool _, _, _ => by intro v o h; cases h
  | .null, _, _ => by intro v o h; cases h
  | .number _, _, _ => by intro v o h; cases h
  | .string _, _, _ => by intro v o h; cases h

theorem accepts_of_lowerProperties : ∀ (k : Json) (location : Location), k.plainProperties →
    ∀ v, Json.obeysProperties further k v → ∀ o, lowerProperties location k = .ok o →
    ∀ ps ∈ o, ∀ e ∈ ps, ∀ x, v.get? e.1 = some x → e.2.accepts x
  | .object ms, location, hplain => by
    intro v hv o h
    obtain ⟨ps, hps, rfl⟩ := map_eq_ok h
    rintro _ ⟨rfl⟩
    exact accepts_of_lowerMembers ms location hplain v hv ps hps
  | .array _, _, _ => by intro v _ o h; cases h
  | .bool _, _, _ => by intro v _ o h; cases h
  | .null, _, _ => by intro v _ o h; cases h
  | .number _, _, _ => by intro v _ o h; cases h
  | .string _, _, _ => by intro v _ o h; cases h

theorem accepts_of_lowerList : ∀ (ks : List Json) (location : Location) (index : Nat),
    Json.plainEach ks → ∀ v ss, lowerList location index ks = .ok ss →
      ((Json.verdictsEach further ks v).all id → ∀ s ∈ ss, s.accepts v) ∧
      (true ∈ Json.verdictsEach further ks v → ∃ s ∈ ss, s.accepts v)
  | [], _, _, _ => by
    intro v ss h
    cases h
    simp [Json.verdictsEach]
  | k :: ks, location, index, hplain => by
    intro v ss h
    obtain ⟨s, hs, h⟩ := bind_eq_ok h
    obtain ⟨ss, hss, h⟩ := bind_eq_ok h
    cases h
    rw [Json.plainEach, Bool.and_eq_true] at hplain
    have first := accepts_of_lower k _ s hplain.1 hs v
    have others := accepts_of_lowerList ks location (index + 1) hplain.2 v ss hss
    rw [Json.verdictsEach]
    constructor
    · intro hall
      rw [List.all_cons, Bool.and_eq_true] at hall
      exact List.forall_mem_cons.2 ⟨first hall.1, others.1 hall.2⟩
    · intro hmem
      rcases List.mem_cons.1 hmem with hfirst | hmem
      · exact ⟨s, .head _, first hfirst.symm⟩
      · obtain ⟨t, ht, hv⟩ := others.2 hmem
        exact ⟨t, .tail _ ht, hv⟩

theorem accepts_of_lowerMembers : ∀ (ms : List (String × Json)) (location : Location),
    Json.plainEntries ms → ∀ v, Json.obeysEntries further ms v → ∀ ps,
    lowerMembers location ms = .ok ps → ∀ e ∈ ps, ∀ x, v.get? e.1 = some x → e.2.accepts x
  | [], _, _ => by
    intro v _ ps h
    cases h
    simp
  | (name, k) :: ms, location, hplain => by
    intro v hv ps h
    rw [Json.plainEntries, Bool.and_eq_true] at hplain
    rw [Json.obeysEntries, Bool.and_eq_true, Option.all_eq_true] at hv
    rw [lowerMembers] at h
    split at h
    · exact accepts_of_lowerMembers ms location hplain.2 v hv.2 ps h
    · obtain ⟨s, hs, h⟩ := bind_eq_ok h
      obtain ⟨ps, hps, h⟩ := bind_eq_ok h
      cases h
      refine List.forall_mem_cons.2 ⟨fun x hx => ?_, ?_⟩
      · exact accepts_of_lower k _ s hplain.1 hs x (hv.1 x hx)
      · exact accepts_of_lowerMembers ms location hplain.2 v hv.2 ps hps

end

variable {further}

/-- **Every value that a plain raw schema accepts, the schema it is lowered to accepts**, whatever
    other keywords there are. -/
theorem accepts_of_ofRaw {raw : Json} {s : Schema} (h : ofRaw raw = .ok s) (hplain : raw.plain)
    {v : Json} (hv : raw.accepts further v) : s.accepts v :=
  accepts_of_lower further raw [] s hplain (lower_of_ofRaw h) v hv

end Schema

/-! ## A required property -/

/-- The meaning of `required`: every name in its list has a value. -/
def Json.requiredNames : Further := fun ms v =>
  match ms.lookup "required" with
  | some (.array names) => names.all fun
    | .string name => (v.get? name).isSome
    | _ => true
  | _ => true

/-- A required property of which two branches say something, one of them with `oneOf`. -/
def Json.identified : Json :=
  .object [("required", .array [.string "id"]), ("allOf", .array [
    .object [("properties", .object [("id", .object [("oneOf",
      .array [.object [("type", .string "string")], .object [("type", .string "integer")]])])])],
    .object [("type", .string "object"), ("properties", .object [
      ("id", .object [("minLength", .number (.integer 1))]), ("note", .bool false)])]])]

/-- A value with an integer for the property is accepted before and after lowering, one without
    the property only after it. -/
theorem Schema.accepts_of_ofRaw_identified :
    let s := objectOf [("id", ofAlternatives [ofKind .string, ofKind .integer])]
    let value : Json := .object [("id", .number (.integer 7))]
    ofRaw .identified = .ok s ∧ Json.identified.plain ∧
      Json.identified.accepts Json.requiredNames value ∧ s.accepts value ∧
      Json.identified.accepts Json.requiredNames (.object []) = false ∧
      s.accepts (.object []) := by
  intro s value
  have h : ofRaw .identified = .ok s := rfl
  have hplain : Json.identified.plain := rfl
  have hvalue : Json.identified.accepts Json.requiredNames value := rfl
  exact ⟨h, hplain, hvalue, accepts_of_ofRaw h hplain hvalue, rfl, rfl⟩

end ResponseSchema
