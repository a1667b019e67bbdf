/-
  Dialect — the part of a raw schema that lowering looks at.

  Lowering looks at eight keywords of a node, each by its name, and meets nodes
  only in the places that these lead to.  So in every such place all other members
  can be dropped and those eight be put in a fixed order.

  * `Place`: what a value is to lowering in the place where it stands;
  * `prune` reduces every node to the `vocabulary`, in its order; a value that is
    no node where it stands stays as it is, for the texts of faults show it;
  * `keywords_eq_of_lookup`: a node and the pruned node have the same keywords;
  * `Json.prunable`: so lowering does the same with a value and the pruned value,
    wherever it stands;
  * `Schema.ofRaw_eq_of_prune_eq`: raw schemas that only differ in what is pruned
    have the same schema or the same fault.
-/
import ResponseSchema.Proofs.Dialect.Grammar

namespace ResponseSchema

/-! ## Entries in a fixed order -/

namespace Entries

variable {α : Type}

/-- The entries under some names, the first of each name, in the order of the names. -/
def pick (names : List String) (es : Entries α) : Entries α :=
  names.filterMap fun name => (es.lookup name).map (name, ·)

theorem lookup_pick (name : String) (es : Entries α) : ∀ names : List String,
    (pick names es).lookup name = if name ∈ names then es.lookup name else none
  | [] => by simp [pick]
  | first :: names => by
    have ih := lookup_pick name es names
    rw [pick] at ih ⊢
    rw [List.filterMap_cons]
    by_cases hname : name = first
    · subst hname
      cases hlookup : es.lookup name with
      | none => simp [hlookup, ih]
      | some v => simp
    · have hne : (name == first) = false := by simpa using hname
      cases es.lookup first with
      | none => simp [hname, ih]
      | some v => simp [List.lookup_cons, hne, hname, ih]

end Entries

/-! ## Pruning -/

namespace Json

/-- What a value is to lowering in the place where it stands. -/
inductive Place where
  /-- A schema. -/
  | schema
  /-- What stands under `items`: a schema, or a list of schemas. -/
  | items
  /-- What stands under `properties`: an object with a schema under each name. -/
  | properties
  /-- What stands under a combinator: a list of schemas. -/
  | branches
  /-- A value without schemas in it. -/
  | plain
  deriving DecidableEq

/-- The place under a keyword of a node. -/
def Place.under (name : String) : Place :=
  if name = "items" then items
  else if name = "properties" then properties
  else if name = "allOf" ∨ name = "anyOf" ∨ name = "oneOf" then branches
  else plain

/-- The keywords that lowering looks at, in a fixed order. -/
def vocabulary : List String :=
  ["type", "format", "nullable", "items", "properties", "allOf", "anyOf", "oneOf"]

mutual

/-- The value in its place, with each of its nodes reduced to the vocabulary. -/
def prune : Place → Json → Json
  | .schema, object ms => object (Entries.pick vocabulary (pruneMembers Place.under ms))
  | .items, object ms => object (Entries.pick vocabulary (pruneMembers Place.under ms))
  | .items, array vs => array (pruneElements vs)
  | .branches, array vs => array (pruneElements vs)
  | .properties, object ms => object (pruneMembers (fun _ => .schema) ms)
  | _, v => v

/-- Each schema of a list, pruned. -/
def pruneElements : List Json → List Json
  | [] => []
  | v :: vs => prune .schema v :: pruneElements vs

/-- Each member, pruned in the place that its name leads to. -/
def pruneMembers (place : String → Place) : List (String × Json) → List (String × Json)
  | [] => []
  | (name, v) :: ms => (name, prune (place name) v) :: pruneMembers place ms

end

theorem lookup_pruneMembers (place : String → Place) (name : String)
    (ms : List (String × Json)) :
    (pruneMembers place ms).lookup name = (ms.lookup name).map (prune (place name)) := by
  induction ms with
  | nil => rfl
  | cons e ms ih =>
    obtain ⟨other, v⟩ := e
    rw [pruneMembers, List.lookup_cons, List.lookup_cons]
    by_cases hname : name = other
    · subst hname
      simp
    · have hne : (name == other) = false := by simpa using hname
      rw [hne, ih]

theorem prune_plain (v : Json) : prune .plain v = v := by
  cases v <;> rfl

theorem prune_eq_false_iff (place : Place) (v : Json) :
    prune place v = .bool false ↔ v = .bool false := by
  cases v <;> cases place <;> simp [prune]

end Json

/-! ## Lowering what is pruned -/

/-- Lowering does the same with the value and with the pruned value, in every place. -/
structure Json.Prunable (v : Json) : Prop where
  schema : ∀ location, lower location (v.prune .schema) = lower location v
  items : ∀ location, itemsFrom (v.prune .items) (lower location (v.prune .items))
      (lowerTuple location (v.prune .items)) =
    itemsFrom v (lower location v) (lowerTuple location v)
  properties : ∀ location, lowerProperties location (v.prune .properties) =
    lowerProperties location v
  branches : ∀ location, lowerBranches location (v.prune .branches) = lowerBranches location v

/-- **A node has the keywords of the pruned node**, or of any other with the same pruned values
    under the names of the vocabulary. -/
theorem keywords_eq_of_lookup {ms ns : List (String × Json)}
    (hprunable : ∀ name v, ms.lookup name = some v → v.Prunable)
    (hlookup : ∀ name ∈ Json.vocabulary,
      ns.lookup name = (ms.lookup name).map (Json.prune (.under name))) (location : Location) :
    keywords location ns = keywords location ms := by
  -- `type`, `format` and `nullable` are the same values; the others are lowered the same
  have plain {name : String} (hname : name ∈ Json.vocabulary)
      (hplace : Json.Place.under name = .plain) : ns.lookup name = ms.lookup name := by
    rw [hlookup name hname, hplace]
    cases ms.lookup name with
    | none => rfl
    | some v => exact congrArg some v.prune_plain
  have lowered {α : Type} {name : String} {place : Json.Place} {a : α} {f : Json → α}
      (hname : name ∈ Json.vocabulary) (hplace : Json.Place.under name = place)
      (hf : ∀ v, v.Prunable → f (v.prune place) = f v) :
      (ns.lookup name).elim a f = (ms.lookup name).elim a f := by
    rw [hlookup name hname, hplace]
    cases hv : ms.lookup name with
    | none => rfl
    | some v => exact hf v (hprunable name v hv)
  rw [keywords_eq, keywords_eq location ms]
  congr 1
  · rw [plain (by decide) (by decide)]
  · rw [plain (by decide) (by decide)]
  · rw [plain (by decide) (by decide)]
  · exact lowered (by decide) (by decide) fun v hv => hv.items _
  · exact lowered (by decide) (by decide) fun v hv => hv.properties _
  · exact lowered (by decide) (by decide) fun v hv => hv.branches _
  · exact lowered (by decide) (by decide) fun v hv => hv.branches _
  · exact lowered (by decide) (by decide) fun v hv => hv.branches _

theorem lowerList_prune {vs : List Json} (h : ∀ v ∈ vs, v.Prunable) (location : Location)
    (index : Nat) : lowerList location index (Json.pruneElements vs) =
      lowerList location index vs := by
  induction vs generalizing index with
  | nil => rfl
  | cons v vs ih =>
    rw [List.forall_mem_cons] at h
    rw [Json.pruneElements, lowerList, lowerList, h.1.schema, ih h.2]

theorem lowerMembers_prune {ms : List (String × Json)} (h : ∀ e ∈ ms, e.2.Prunable)
    (location : Location) :
    lowerMembers location (Json.pruneMembers (fun _ => .schema) ms) = lowerMembers location ms := by
  induction ms with
  | nil => rfl
  | cons e ms ih =>
    obtain ⟨name, v⟩ := e
    rw [List.forall_mem_cons] at h
    rw [Json.pruneMembers, lowerMembers, lowerMembers, h.1.schema, ih h.2]
    simp only [Json.prune_eq_false_iff]

theorem Json.prunable_array {vs : List Json} (h : ∀ v ∈ vs, v.Prunable) :
    (array vs).Prunable where
  schema _ := rfl
  items location := by
    rw [prune, itemsFrom, itemsFrom, lowerTuple, lowerTuple, lowerList_prune h]
  properties _ := rfl
  branches location := by
    rw [prune, lowerBranches, lowerBranches, lowerList_prune h]

theorem Json.prunable_object {ms : List (String × Json)} (h : ∀ e ∈ ms, e.2.Prunable) :
    (object ms).Prunable := by
  have schema (location : Location) :
      lower location ((object ms).prune .schema) = lower location (object ms) := by
    rw [prune, lower, lower]
    congr 1
    refine keywords_eq_of_lookup (fun name v hv => h _ (Entries.mem_of_lookup hv)) ?_ location
    intro name hname
    rw [Entries.lookup_pick, if_pos hname, lookup_pruneMembers]
  exact {
    schema
    items := fun location => congrArg (·.map some) (schema location)
    properties := fun location => by
      rw [prune, lowerProperties, lowerProperties, lowerMembers_prune h]
    branches := fun _ => rfl }

/-- **Lowering does the same with a value and with the pruned value**, wherever it stands. -/
theorem Json.prunable (v : Json) : v.Prunable := by
  induction v using Json.induction with
  | array vs ih => exact prunable_array ih
  | object ms ih => exact prunable_object ih
  | null | bool _ | number _ | string _ =>
    exact ⟨fun _ => rfl, fun _ => rfl, fun _ => rfl, fun _ => rfl⟩

namespace Schema

theorem ofRaw_prune (raw : Json) : ofRaw (raw.prune .schema) = ofRaw raw := by
  rw [ofRaw, raw.prunable.schema, ofRaw]

/-- **What is pruned has no influence**: raw schemas that are the same once every node is reduced
    to the vocabulary, in its order, have the same schema or the same fault. -/
theorem ofRaw_eq_of_prune_eq {raw raw' : Json} (h : raw.prune .schema = raw'.prune .schema) :
    ofRaw raw = ofRaw raw' := by
  rw [← ofRaw_prune raw, h, ofRaw_prune]

/-- Posts with tags, as a mapper describes them. -/
def describedPosts : Json :=
  .object [("title", .string "Post"), ("properties", .object [("tags", .object
      [("items", .array [.object [("minLength", .number (.integer 1)), ("type", .string "string")]]),
        ("type", .string "array"), ("$comment", .null)])]),
    ("type", .string "object")]

/-- The same posts, with other remarks and with the kinds in front. -/
def requiredPosts : Json :=
  .object [("type", .string "object"), ("properties", .object [("tags", .object
      [("type", .string "array"),
        ("items", .array [.object [("type", .string "string"), ("pattern", .string "^[a-z]")]])])]),
    ("required", .array [.string "tags"])]

/-- The two differ at every level, and none of that is seen. -/
theorem ofRaw_describedPosts : describedPosts ≠ requiredPosts ∧
    describedPosts.prune .schema = requiredPosts.prune .schema ∧
    ofRaw describedPosts = ofRaw requiredPosts ∧
    ofRaw requiredPosts = .ok (objectOf [("tags", arrayOf (ofKind .string))]) := by
  have hsame : describedPosts.prune .schema = requiredPosts.prune .schema := rfl
  exact ⟨by decide, hsame, ofRaw_eq_of_prune_eq hsame, rfl⟩

end Schema

end ResponseSchema
