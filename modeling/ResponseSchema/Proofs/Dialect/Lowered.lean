/-
  Dialect — what every lowered schema has.

  `lower_induction`: a property of schemas that `Keywords.compose` hands on from
  its parts to the node it puts together holds of all that is lowered.  `Q` is
  what is known of the raw values, handed down to the parts of arrays and
  objects.

  * `keywords_eq`: each keyword is lowered from the first member with its name;
  * `Keywords.compose_eq`: a node is put together bare, and null is allowed in it last;
  * `tidy_of_lower`: every node that lowering makes is tidy;
  * `namesDistinct_of_lower`: without repeated names in the raw schema no two
    properties of a node have one name.
-/
import ResponseSchema.Dialect.Lowering
import ResponseSchema.Proofs.Dialect.NormalForm
import ResponseSchema.Proofs.Result
import ResponseSchema.Proofs.Schema.Written

namespace ResponseSchema

open Schema

/-- A node is put together where every keyword has been lowered. -/
theorem Keywords.exists_of_assemble {k : Keywords} {s : Schema} (h : k.assemble = .ok s) :
    ∃ kinds items properties allOf anyOf oneOf, k.kinds = .ok kinds ∧ k.items = .ok items ∧
      k.properties = .ok properties ∧ k.allOf = .ok allOf ∧ k.anyOf = .ok anyOf ∧
      k.oneOf = .ok oneOf ∧ compose (adjust k.byteFormat k.nullable kinds) k.nullable items
        properties allOf anyOf oneOf = s := by
  obtain ⟨kinds, hkinds, h⟩ := bind_eq_ok h
  obtain ⟨items, hitems, h⟩ := bind_eq_ok h
  obtain ⟨properties, hproperties, h⟩ := bind_eq_ok h
  obtain ⟨allOf, hall, h⟩ := bind_eq_ok h
  obtain ⟨anyOf, hany, h⟩ := bind_eq_ok h
  obtain ⟨oneOf, hone, h⟩ := bind_eq_ok h
  exact ⟨kinds, items, properties, allOf, anyOf, oneOf, hkinds, hitems, hproperties, hall, hany,
    hone, Except.ok.inj h⟩

/-! ## Keywords by their names -/

/-- **Each keyword is lowered from the first member with its name.** -/
theorem keywords_eq (location : Location) (ms : List (String × Json)) :
    keywords location ms =
      { kinds := (ms.lookup "type").elim (.ok []) (declaredKinds location)
        byteFormat := (ms.lookup "format").any fun v => decide (v = .string "byte")
        nullable := (ms.lookup "nullable").any fun v => decide (v = .bool true)
        items := (ms.lookup "items").elim (.ok none) fun v =>
          itemsFrom v (lower (location ++ [.items]) v) (lowerTuple (location ++ [.items]) v)
        properties := (ms.lookup "properties").elim (.ok none) (lowerProperties location)
        allOf := (ms.lookup "allOf").elim (.ok none)
          (lowerBranches (location ++ [.branches .allOf]))
        anyOf := (ms.lookup "anyOf").elim (.ok none)
          (lowerBranches (location ++ [.branches .anyOf]))
        oneOf := (ms.lookup "oneOf").elim (.ok none)
          (lowerBranches (location ++ [.branches .oneOf])) } := by
  induction ms with
  | nil => rfl
  | cons e ms ih =>
    obtain ⟨name, v⟩ := e
    have skip {other : String} (h : ¬ name = other) : (other == name) = false := by
      simpa using Ne.symm h
    rw [keywords, ih]
    by_cases htype : name = "type"
    · subst htype; rfl
    by_cases hformat : name = "format"
    · subst hformat; rfl
    by_cases hnullable : name = "nullable"
    · subst hnullable; rfl
    by_cases hitems : name = "items"
    · subst hitems; rfl
    by_cases hproperties : name = "properties"
    · subst hproperties; rfl
    by_cases hall : name = "allOf"
    · subst hall; rfl
    by_cases hany : name = "anyOf"
    · subst hany; rfl
    by_cases hone : name = "oneOf"
    · subst hone; rfl
    simp only [htype, hformat, hnullable, hitems, hproperties, hall, hany, hone, if_false,
      List.lookup_cons, skip, not_false_eq_true]

/-! ## Induction along lowering -/

/-- The properties come from the members of an object of which `Q` is known, and `P` holds
    of each. -/
def PropertiesFrom (Q : Json → Prop) (P : Schema → Prop) (ps : List (String × Schema)) : Prop :=
  (∀ e ∈ ps, P e.2) ∧ ∃ ms, Q (.object ms) ∧ (Entries.names ps).Sublist (Entries.names ms)

/-- `P` holds of whatever the keywords have lowered. -/
structure Keywords.All (Q : Json → Prop) (P : Schema → Prop) (k : Keywords) : Prop where
  items : ∀ i, k.items = .ok i → ∀ s ∈ i, P s
  properties : ∀ o, k.properties = .ok o → ∀ ps ∈ o, PropertiesFrom Q P ps
  allOf : ∀ o, k.allOf = .ok o → ∀ ss ∈ o, ∀ s ∈ ss, P s
  anyOf : ∀ o, k.anyOf = .ok o → ∀ ss ∈ o, ∀ s ∈ ss, P s
  oneOf : ∀ o, k.oneOf = .ok o → ∀ ss ∈ o, ∀ s ∈ ss, P s

/-- `P` passes from the parts of a node to the node. -/
def Composes (Q : Json → Prop) (P : Schema → Prop) : Prop :=
  ∀ kinds nullable items properties allOf anyOf oneOf, (∀ s ∈ items, P s) →
    (∀ ps ∈ properties, PropertiesFrom Q P ps) → (∀ ss ∈ allOf, ∀ s ∈ ss, P s) →
    (∀ ss ∈ anyOf, ∀ s ∈ ss, P s) → (∀ ss ∈ oneOf, ∀ s ∈ ss, P s) →
    P (Keywords.compose kinds nullable items properties allOf anyOf oneOf)

/-- `Q` passes from arrays and objects to what they hold. -/
structure Inherited (Q : Json → Prop) : Prop where
  elements : ∀ vs, Q (.array vs) → ∀ v ∈ vs, Q v
  members : ∀ ms, Q (.object ms) → ∀ e ∈ ms, Q e.2

section
variable {Q : Json → Prop} {P : Schema → Prop}

theorem Composes.empty (compose : Composes Q P) : P .empty :=
  compose [] false none none none none none (by simp) (by simp) (by simp) (by simp) (by simp)

theorem Composes.ofAlternatives (compose : Composes Q P) {ss : List Schema} (hne : ss ≠ [])
    (h : ∀ s ∈ ss, P s) : P (.ofAlternatives ss) := by
  have := compose [] false none none none (some ss) none (by simp) (by simp) (by simp)
    (by simpa using h) (by simp)
  simpa [Keywords.compose, hne, Kinds.ofList?, Schema.ofAlternatives, Schema.empty] using this

theorem Composes.tupleItems (compose : Composes Q P) {ss : List Schema}
    (h : ∀ s ∈ ss, P s) : P (tupleItems ss) := by
  rcases ss with _ | ⟨s, _ | ⟨t, ss⟩⟩
  · exact compose.empty
  · exact h s (by simp)
  · exact compose.ofAlternatives (by simp) h

theorem Composes.itemsFrom (compose : Composes Q P) {v : Json} {node : Except Rejection Schema}
    {tuple : Except Rejection (List Schema)} {i : Option Schema}
    (h : itemsFrom v node tuple = .ok i) (hnode : ∀ s, node = .ok s → P s)
    (htuple : ∀ ss, tuple = .ok ss → ∀ s ∈ ss, P s) : ∀ s ∈ i, P s := by
  rw [ResponseSchema.itemsFrom.eq_def] at h
  split at h
  · cases h; simp
  · obtain ⟨ss, hss, rfl⟩ := map_eq_ok h
    simpa using compose.tupleItems (htuple ss hss)
  · obtain ⟨s, hs, rfl⟩ := map_eq_ok h
    simpa using hnode s hs

theorem Composes.assemble (compose : Composes Q P) {k : Keywords} (hk : k.All Q P) {s : Schema}
    (h : k.assemble = .ok s) : P s := by
  obtain ⟨kinds, items, properties, allOf, anyOf, oneOf, -, hi, hp, hall, hany, hone, rfl⟩ :=
    k.exists_of_assemble h
  exact compose _ _ _ _ _ _ _ (hk.items _ hi) (hk.properties _ hp) (hk.allOf _ hall)
    (hk.anyOf _ hany) (hk.oneOf _ hone)

/-- Whatever a value is lowered to has `P`, in every place. -/
structure Json.Gives (Q : Json → Prop) (P : Schema → Prop) (v : Json) : Prop where
  schema : ∀ location s, lower location v = .ok s → P s
  tuple : ∀ location ss, lowerTuple location v = .ok ss → ∀ s ∈ ss, P s
  properties : ∀ location o, lowerProperties location v = .ok o → ∀ ps ∈ o, PropertiesFrom Q P ps
  branches : ∀ location o, lowerBranches location v = .ok o → ∀ ss ∈ o, ∀ s ∈ ss, P s

/-- What a keyword is lowered to comes from its value, if it is there. -/
theorem eq_none_or_of_elim {α : Type} {o : Option Json} {f : Json → Except Rejection (Option α)}
    {a : Option α} (h : o.elim (.ok none) f = .ok a) : a = none ∨ ∃ v, o = some v ∧ f v = .ok a := by
  cases o with
  | none => cases h; exact .inl rfl
  | some v => exact .inr ⟨v, rfl, h⟩

theorem keywords_all (compose : Composes Q P) {ms : List (String × Json)}
    (h : ∀ name v, ms.lookup name = some v → v.Gives Q P) (location : Location) :
    (keywords location ms).All Q P := by
  have branches {name : String} {path : Location} {o : Option (List Schema)}
      (ho : (ms.lookup name).elim (.ok none) (lowerBranches path) = .ok o) :
      ∀ ss ∈ o, ∀ s ∈ ss, P s := by
    rcases eq_none_or_of_elim ho with rfl | ⟨v, hv, ho⟩
    · simp
    · exact (h name v hv).branches path o ho
  rw [keywords_eq]
  refine ⟨fun i hi => ?_, fun o ho => ?_, fun _ => branches, fun _ => branches, fun _ => branches⟩
  · rcases eq_none_or_of_elim hi with rfl | ⟨v, hv, hi⟩
    · simp
    · exact compose.itemsFrom hi ((h _ v hv).schema _) ((h _ v hv).tuple _)
  · rcases eq_none_or_of_elim ho with rfl | ⟨v, hv, ho⟩
    · simp
    · exact (h _ v hv).properties location o ho

theorem forall_of_lowerList {vs : List Json} (h : ∀ v ∈ vs, v.Gives Q P) {location : Location}
    {index : Nat} {ss : List Schema} (hss : lowerList location index vs = .ok ss) :
    ∀ s ∈ ss, P s := by
  induction vs generalizing index ss with
  | nil => cases hss; simp
  | cons v vs ih =>
    rw [List.forall_mem_cons] at h
    obtain ⟨s, hs, hss⟩ := bind_eq_ok hss
    obtain ⟨ss, htail, hss⟩ := bind_eq_ok hss
    cases hss
    exact List.forall_mem_cons.2 ⟨h.1.schema _ s hs, ih h.2 htail⟩

theorem forall_of_lowerMembers {ms : List (String × Json)} (h : ∀ e ∈ ms, e.2.Gives Q P)
    {location : Location} {ps : List (String × Schema)} (hps : lowerMembers location ms = .ok ps) :
    (∀ e ∈ ps, P e.2) ∧ (Entries.names ps).Sublist (Entries.names ms) := by
  induction ms generalizing ps with
  | nil => cases hps; simp [Entries.names]
  | cons e ms ih =>
    obtain ⟨name, v⟩ := e
    rw [List.forall_mem_cons] at h
    rw [lowerMembers] at hps
    split at hps
    · obtain ⟨hP, hsub⟩ := ih h.2 hps
      exact ⟨hP, hsub.cons name⟩
    · obtain ⟨s, hs, hps⟩ := bind_eq_ok hps
      obtain ⟨ps, htail, hps⟩ := bind_eq_ok hps
      cases hps
      obtain ⟨hP, hsub⟩ := ih h.2 htail
      exact ⟨List.forall_mem_cons.2 ⟨h.1.schema _ s hs, hP⟩, hsub.cons_cons name⟩

theorem Json.gives (inherited : Inherited Q) (compose : Composes Q P) (v : Json) :
    Q v → v.Gives Q P := by
  induction v using Json.induction with
  | array vs ih =>
    intro hq
    have elements : ∀ v ∈ vs, v.Gives Q P := fun v hv => ih v hv (inherited.elements vs hq v hv)
    refine ⟨nofun, fun location ss hss => forall_of_lowerList elements hss, nofun,
      fun location o ho => ?_⟩
    obtain ⟨ss, hss, rfl⟩ := map_eq_ok ho
    simpa using forall_of_lowerList elements hss
  | object ms ih =>
    intro hq
    have members : ∀ e ∈ ms, e.2.Gives Q P := fun e he => ih e he (inherited.members ms hq e he)
    refine ⟨fun location s hs => ?_, fun location ss hss => ?_, fun location o ho => ?_, nofun⟩
    · exact compose.assemble
        (keywords_all compose (fun name v hv => members _ (Entries.mem_of_lookup hv)) location) hs
    · cases hss; simp
    · obtain ⟨ps, hps, rfl⟩ := map_eq_ok ho
      obtain ⟨hP, hsub⟩ := forall_of_lowerMembers members hps
      simpa using ⟨hP, ms, hq, hsub⟩
  | bool b =>
    intro _
    refine ⟨fun location s hs => ?_, fun location ss hss => ?_, nofun, nofun⟩
    · cases b with
      | true => cases hs; exact compose.empty
      | false => cases hs
    · cases hss; simp
  | null | number _ | string _ =>
    intro _
    refine ⟨nofun, fun location ss hss => ?_, nofun, nofun⟩
    cases hss; simp

/-- **What nodes have from their parts, every lowered schema has.** -/
theorem lower_induction (inherited : Inherited Q) (compose : Composes Q P) (raw : Json)
    (location : Location) (s : Schema) (hq : Q raw) (h : lower location raw = .ok s) : P s :=
  (raw.gives inherited compose hq).schema location s h

end

/-! ## The parts of a node -/

namespace Keywords

/-- The node before null is allowed in it: the branches of `allOf` folded in, and its own branches
    as its alternatives if it has any. -/
def bare (type : Option Kinds) (items : Option Schema)
    (properties : Option (List (String × Schema))) (folded own : List Schema) : Schema :=
  let node := folded.foldl Schema.absorb ⟨type, items, properties, none⟩
  if own = [] then node else { node with type := none, anyOf := some own }

theorem compose_eq (kinds : List Kind) (nullable : Bool) (items : Option Schema)
    (properties : Option (List (String × Schema))) (allOf anyOf oneOf : Option (List Schema)) :
    compose kinds nullable items properties allOf anyOf oneOf =
      let combined := allOf.isSome || anyOf.isSome || oneOf.isSome
      let node := bare (if combined then none else Kinds.ofList? kinds) items properties
        (allOf.getD []) (anyOf.getD [] ++ oneOf.getD [])
      if combined && nullable then node.allowNull else node := by
  simp only [compose, bare, List.isEmpty_iff]

end Keywords

namespace Schema

/-- A property of a node with a branch folded in is one of the node or one of the branch. -/
theorem mem_properties_absorb {node branch : Schema} {ps : List (String × Schema)}
    (hps : ps ∈ (node.absorb branch).properties) {e : String × Schema} (he : e ∈ ps) :
    (∃ qs ∈ node.properties, e ∈ qs) ∨ ∃ qs ∈ branch.properties, e ∈ qs := by
  cases hp : branch.properties with
  | none =>
    have hn : ps ∈ node.properties := by
      simpa [Schema.absorb, mergeProperties, hp] using hps
    exact .inl ⟨ps, hn, he⟩
  | some qs =>
    simp only [Schema.absorb, mergeProperties, hp, Option.mem_def, Option.some.injEq] at hps
    subst hps
    rcases Entries.mem_foldl_insertNew he with he | he
    · cases hnp : node.properties with
      | none => simp [hnp] at he
      | some rs => exact .inl ⟨rs, rfl, by simpa [hnp] using he⟩
    · exact .inr ⟨qs, rfl, he⟩

theorem Below.absorb {P : Schema → Prop} {node branch : Schema} (hn : node.Below P)
    (hb : branch.Below P) : (node.absorb branch).Below P where
  items := by
    intro s hs
    cases hi : node.items with
    | none => exact hb.items s (by simpa [Schema.absorb, hi] using hs)
    | some i => exact hn.items s (by simpa [Schema.absorb, hi] using hs)
  properties := by
    intro ps hps e he
    rcases mem_properties_absorb hps he with ⟨qs, hqs, he⟩ | ⟨qs, hqs, he⟩
    · exact hn.properties qs hqs e he
    · exact hb.properties qs hqs e he
  anyOf := by
    intro ss hss s hs
    cases ha : branch.anyOf with
    | none => exact hn.anyOf ss (by simpa [Schema.absorb, joinAlternatives, ha] using hss) s hs
    | some ts =>
      simp only [Schema.absorb, joinAlternatives, ha, Option.mem_def, Option.some.injEq] at hss
      subst hss
      rcases List.mem_append.1 hs with hs | hs
      · cases hna : node.anyOf with
        | none => simp [hna] at hs
        | some us => exact hn.anyOf us hna s (by simpa [hna] using hs)
      · exact hb.anyOf ts ha s hs

theorem Below.foldl_absorb {P : Schema → Prop} {branches : List Schema} {node : Schema}
    (hn : node.Below P) (hb : ∀ b ∈ branches, b.Below P) :
    (branches.foldl Schema.absorb node).Below P := by
  induction branches generalizing node with
  | nil => exact hn
  | cons b bs ih =>
    rw [List.forall_mem_cons] at hb
    exact ih (hn.absorb hb.1) hb.2

theorem Below.allowNull {P : Schema → Prop} {s : Schema} (null : P (ofKind .null))
    (h : s.Below P) : s.allowNull.Below P := by
  rw [Schema.allowNull]
  split
  · next branches hbranches =>
    split
    · exact h
    · refine ⟨h.items, h.properties, ?_⟩
      intro ss hss s hs
      cases hss
      rcases List.mem_append.1 hs with hs | hs
      · exact h.anyOf branches hbranches s hs
      · rw [List.mem_singleton.1 hs]; exact null
  · exact ⟨h.items, h.properties, h.anyOf⟩

theorem below_compose {P : Schema → Prop} {kinds : List Kind} {nullable : Bool}
    {items : Option Schema} {properties : Option (List (String × Schema))}
    {allOf anyOf oneOf : Option (List Schema)} (null : P (ofKind .null))
    (hi : ∀ s ∈ items, P s) (hp : ∀ ps ∈ properties, ∀ e ∈ ps, P e.2)
    (hall : ∀ ss ∈ allOf, ∀ s ∈ ss, s.Below P) (hany : ∀ ss ∈ anyOf, ∀ s ∈ ss, P s)
    (hone : ∀ ss ∈ oneOf, ∀ s ∈ ss, P s) :
    (Keywords.compose kinds nullable items properties allOf anyOf oneOf).Below P := by
  have folded (type : Option Kinds) :
      ((allOf.getD []).foldl Schema.absorb ⟨type, items, properties, none⟩).Below P := by
    refine Below.foldl_absorb ⟨hi, hp, by simp⟩ ?_
    cases allOf with
    | none => simp
    | some ss => simpa using hall ss rfl
  have branches : ∀ s ∈ anyOf.getD [] ++ oneOf.getD [], P s := by
    intro s hs
    rcases List.mem_append.1 hs with hs | hs
    · cases anyOf with
      | none => simp at hs
      | some ss => exact hany ss rfl s (by simpa using hs)
    · cases oneOf with
      | none => simp at hs
      | some ss => exact hone ss rfl s (by simpa using hs)
  have node (type : Option Kinds) : (Keywords.bare type items properties (allOf.getD [])
      (anyOf.getD [] ++ oneOf.getD [])).Below P := by
    rw [Keywords.bare]
    split
    · exact folded type
    · exact ⟨(folded type).items, (folded type).properties, by simpa using branches⟩
  rw [Keywords.compose_eq]
  exact iteInduction (fun _ => (node _).allowNull null) fun _ => node _

/-- A property of single nodes that every step of `Keywords.compose` keeps. -/
structure Kept (p : Schema → Prop) : Prop where
  null : p (ofKind .null)
  absorb : ∀ node branch, p node → p branch → p (node.absorb branch)
  replace : ∀ node ss, ss ≠ [] → p node → p { node with type := none, anyOf := some ss }
  allowNull : ∀ node, p node → p node.allowNull

theorem Kept.foldl_absorb {p : Schema → Prop} (kept : Kept p) {branches : List Schema}
    {node : Schema} (hn : p node) (hb : ∀ b ∈ branches, p b) :
    p (branches.foldl Schema.absorb node) := by
  induction branches generalizing node with
  | nil => exact hn
  | cons b bs ih =>
    rw [List.forall_mem_cons] at hb
    exact ih (kept.absorb node b hn hb.1) hb.2

theorem Kept.compose {p : Schema → Prop} (kept : Kept p) {items : Option Schema}
    {properties : Option (List (String × Schema))}
    (base : ∀ kinds, p ⟨Kinds.ofList? kinds, items, properties, none⟩) (kinds : List Kind)
    (nullable : Bool) {allOf : Option (List Schema)} (anyOf oneOf : Option (List Schema))
    (hall : ∀ ss ∈ allOf, ∀ s ∈ ss, p s) :
    p (Keywords.compose kinds nullable items properties allOf anyOf oneOf) := by
  have folded {type : Option Kinds} (h : p ⟨type, items, properties, none⟩) :
      p ((allOf.getD []).foldl Schema.absorb ⟨type, items, properties, none⟩) := by
    refine kept.foldl_absorb h ?_
    cases allOf with
    | none => simp
    | some ss => exact hall ss rfl
  have node {type : Option Kinds} (h : p ⟨type, items, properties, none⟩) :
      p (Keywords.bare type items properties (allOf.getD []) (anyOf.getD [] ++ oneOf.getD [])) := by
    rw [Keywords.bare]
    split
    · exact folded h
    · next hne => exact kept.replace _ _ hne (folded h)
  have typed : p ⟨if allOf.isSome || anyOf.isSome || oneOf.isSome then none
      else Kinds.ofList? kinds, items, properties, none⟩ := by
    split
    · exact base []
    · exact base kinds
  rw [Keywords.compose_eq]
  exact iteInduction (fun _ => kept.allowNull _ (node typed)) fun _ => node typed

theorem Kept.composes {Q : Json → Prop} {p : Schema → Prop} (kept : Kept p)
    (base : ∀ kinds items properties, (∀ ps ∈ properties, ∃ ms, Q (.object ms) ∧
      (Entries.names ps).Sublist (Entries.names ms)) →
      p ⟨Kinds.ofList? kinds, items, properties, none⟩) :
    Composes Q fun s => ∀ n ∈ s.nodes, p n := by
  intro kinds nullable items properties allOf anyOf oneOf hi hp hall hany hone
  have opened : ∀ ss ∈ allOf, ∀ s ∈ ss, p s ∧ s.Below fun t => ∀ n ∈ t.nodes, p n :=
    fun ss hss s hs => (forall_mem_nodes s).1 (hall ss hss s hs)
  have null : ∀ n ∈ (ofKind .null).nodes, p n := by
    rw [forall_mem_nodes]
    exact ⟨kept.null, by simp [ofKind, empty], by simp [ofKind, empty], by simp [ofKind, empty]⟩
  rw [forall_mem_nodes]
  constructor
  · exact kept.compose (fun kinds => base kinds items properties fun ps hps => (hp ps hps).2)
      kinds nullable anyOf oneOf fun ss hss s hs => (opened ss hss s hs).1
  · exact below_compose null hi (fun ps hps => (hp ps hps).1)
      (fun ss hss s hs => (opened ss hss s hs).2) hany hone

theorem lower_of_ofRaw {raw : Json} {s : Schema} (h : ofRaw raw = .ok s) :
    lower [] raw = .ok s := by
  rw [ofRaw] at h
  cases hl : lower [] raw with
  | error e => rw [hl] at h; cases h
  | ok t => rw [hl] at h; cases h; rfl

/-! ## Tidy nodes -/

theorem tidy_withNull (ks : Kinds) (h : ∀ l, ks = .list l → 2 ≤ l.length) :
    ∀ l, ks.withNull = .list l → 2 ≤ l.length := by
  intro l hl
  cases ks with
  | single k =>
    rw [Kinds.withNull] at hl
    split at hl
    · cases hl
    · cases hl; simp
  | list l' =>
    have := h l' rfl
    rw [Kinds.withNull] at hl
    split at hl
    · cases hl; exact this
    · cases hl; simp; omega

theorem kept_tidy : Kept Tidy where
  null := by simp [Tidy, ofKind, empty]
  absorb := by
    intro node branch hn hb
    constructor
    · intro ks hks
      cases htype : node.type with
      | none => exact hb.1 ks (by simpa [Schema.absorb, htype] using hks)
      | some _ => exact hn.1 ks (by simpa [Schema.absorb, htype] using hks)
    · have hb := hb.2
      cases ha : branch.anyOf with
      | none => simpa [Schema.absorb, joinAlternatives, ha] using hn.2
      | some ss =>
        rw [ha] at hb
        simp_all [Schema.absorb, joinAlternatives]
  replace := by
    intro node ss hss _
    simpa [Tidy] using hss
  allowNull := by
    intro node h
    rw [Schema.allowNull]
    split
    · split
      · exact h
      · exact ⟨h.1, by simp⟩
    · refine ⟨fun ks hks => ?_, h.2⟩
      obtain ⟨ks', htype, hks'⟩ := Option.map_eq_some_iff.1 hks
      exact tidy_withNull ks' (fun l hl => h.1 l (hl ▸ htype)) ks hks'

theorem tidy_ofList? (kinds : List Kind) (items : Option Schema)
    (properties : Option (List (String × Schema))) :
    Tidy ⟨Kinds.ofList? kinds, items, properties, none⟩ := by
  rcases kinds with _ | ⟨k, _ | ⟨k', ks⟩⟩ <;> simp [Tidy, Kinds.ofList?]

/-- **Every node of a lowered schema is tidy.** -/
theorem tidy_of_lower {location : Location} {raw : Json} {s : Schema}
    (h : lower location raw = .ok s) : ∀ n ∈ s.nodes, n.Tidy :=
  lower_induction ⟨fun _ _ _ _ => trivial, fun _ _ _ _ => trivial⟩
    (kept_tidy.composes fun kinds items properties _ => tidy_ofList? kinds items properties)
    raw location s trivial h

/-! ## Nodes without repeated names -/

theorem kept_namesDistinct : Kept NamesDistinct where
  null := by simp [NamesDistinct, ofKind, empty]
  absorb := by
    intro node branch hn hb ps hps
    cases hp : branch.properties with
    | none => exact hn ps (by simpa [Schema.absorb, mergeProperties, hp] using hps)
    | some qs =>
      simp only [Schema.absorb, mergeProperties, hp, Option.mem_def, Option.some.injEq] at hps
      subst hps
      refine Entries.distinct_foldl_insertNew qs ?_
      cases hnp : node.properties with
      | none => exact List.nodup_nil
      | some rs => exact hn rs hnp
  replace := fun _ _ _ h => h
  allowNull := by
    intro node h
    rw [Schema.allowNull]
    split
    · split <;> exact h
    · exact h

/-- **Without repeated names in a raw schema its lowered schema has none.** -/
theorem namesDistinct_of_lower {location : Location} {raw : Json} {s : Schema}
    (hraw : raw.Distinct) (h : lower location raw = .ok s) : ∀ n ∈ s.nodes, n.NamesDistinct := by
  refine lower_induction ⟨fun vs => (Json.distinct_array vs).1,
    fun ms hms => ((Json.distinct_object ms).1 hms).2⟩ (kept_namesDistinct.composes ?_)
    raw location s hraw h
  intro kinds items properties hp ps hps
  obtain ⟨ms, hms, sub⟩ := hp ps hps
  exact ((Json.distinct_object ms).1 hms).1.sublist sub

end Schema

end ResponseSchema
