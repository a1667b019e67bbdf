/-
  Schemas — schemas as JSON.

  `Schema.toJson` writes the present keywords of a node in the order `type`,
  `items`, `properties`, `anyOf`; `Schema.ofJson?` reads a node.  Reading knows
  more spellings than writing: a node may be an array of its four parts in that
  order, trailing parts missing, and a kind an object with the kind for its only
  name and no value.  A missing part and `null` are the same.

  Main statement: `ofJson?_toJson`, reading inverts writing.  So equality of
  schemas is decided on their JSON.
-/
import ResponseSchema.Schema.Basic
import ResponseSchema.Json.Printer

namespace ResponseSchema

namespace Kinds

/-- A kind, or a list of kinds, by name. -/
def toJson : Kinds → Json
  | single k => .string k.name
  | list ks => .array (ks.map fun k => .string k.name)

end Kinds

/-- A kind by its name, or by an object with that name and no value. -/
def Kind.ofJson? : Json → Option Kind
  | .string name => ofName? name
  | .object [(name, .null)] => ofName? name
  | _ => none

/-- What stands under `type`: nothing, a kind, or a list of kinds. -/
def Kinds.ofJson? : Json → Option (Option Kinds)
  | .null => some none
  | .array kinds => (kinds.mapM Kind.ofJson?).map fun ks => some (.list ks)
  | v => (Kind.ofJson? v).map fun k => some (.single k)

namespace Schema

/-! ## Writing -/

/-- The member `type`, if the node names kinds. -/
def typeMember : Option Kinds → List (String × Json)
  | none => []
  | some kinds => [("type", kinds.toJson)]

mutual

/-- A node as a JSON object. -/
def toJson : Schema → Json
  | ⟨type, items, properties, anyOf⟩ =>
    .object (typeMember type ++ (itemsMember items ++
      (propertiesMember properties ++ anyOfMember anyOf)))

/-- The member `items`, if the node has one. -/
def itemsMember : Option Schema → List (String × Json)
  | none => []
  | some s => [("items", toJson s)]

/-- The member `properties`, if the node has one. -/
def propertiesMember : Option (List (String × Schema)) → List (String × Json)
  | none => []
  | some ps => [("properties", .object (entriesToJson ps))]

/-- The member `anyOf`, if the node has one. -/
def anyOfMember : Option (List Schema) → List (String × Json)
  | none => []
  | some ss => [("anyOf", .array (listToJson ss))]

/-- Each property as a member. -/
def entriesToJson : List (String × Schema) → List (String × Json)
  | [] => []
  | (name, s) :: ps => (name, toJson s) :: entriesToJson ps

/-- Each alternative as an element. -/
def listToJson : List Schema → List Json
  | [] => []
  | s :: ss => toJson s :: listToJson ss

end

/-- The compact text of a schema. -/
def compact (s : Schema) : String :=
  s.toJson.compact

/-! ## Reading -/

/-- `null` for nothing, or what the value itself reads as. -/
def optional (v : Json) (read : Option Schema) : Option (Option Schema) :=
  if v = .null then some none else read.map some

mutual

/-- A node, from an object by name or from an array by position. -/
def ofJson? : Json → Option Schema
  | .object ms => ofMembers? ms
  | .array [] => some empty
  | .array [t] => do
    pure ⟨← Kinds.ofJson? t, none, none, none⟩
  | .array [t, i] => do
    pure ⟨← Kinds.ofJson? t, ← optional i (ofJson? i), none, none⟩
  | .array [t, i, p] => do
    pure ⟨← Kinds.ofJson? t, ← optional i (ofJson? i), ← propertiesOfJson? p, none⟩
  | .array [t, i, p, a] => do
    pure ⟨← Kinds.ofJson? t, ← optional i (ofJson? i), ← propertiesOfJson? p, ← anyOfOfJson? a⟩
  | _ => none

/-- The keywords among the members of an object; other names are ignored. -/
def ofMembers? : List (String × Json) → Option Schema
  | [] => some empty
  | (name, v) :: ms => do
    let s ← ofMembers? ms
    if name = "type" then pure { s with type := ← Kinds.ofJson? v }
    else if name = "items" then pure { s with items := ← optional v (ofJson? v) }
    else if name = "properties" then pure { s with properties := ← propertiesOfJson? v }
    else if name = "anyOf" then pure { s with anyOf := ← anyOfOfJson? v }
    else pure s

/-- What stands under `properties`: nothing or an object of nodes. -/
def propertiesOfJson? : Json → Option (Option (List (String × Schema)))
  | .null => some none
  | .object ms => (entriesOfJson? ms).map some
  | _ => none

/-- What stands under `anyOf`: nothing or a list of nodes. -/
def anyOfOfJson? : Json → Option (Option (List Schema))
  | .null => some none
  | .array vs => (listOfJson? vs).map some
  | _ => none

/-- A node for each member. -/
def entriesOfJson? : List (String × Json) → Option (List (String × Schema))
  | [] => some []
  | (name, v) :: ms => do
    pure ((name, ← ofJson? v) :: (← entriesOfJson? ms))

/-- A node for each element. -/
def listOfJson? : List Json → Option (List Schema)
  | [] => some []
  | v :: vs => do
    pure ((← ofJson? v) :: (← listOfJson? vs))

end

end Schema

/-! ## Reading inverts writing -/

@[simp] theorem Kind.ofJson?_name (k : Kind) : Kind.ofJson? (.string k.name) = some k := by
  simp [Kind.ofJson?]

theorem Kind.mapM_ofJson?_name (ks : List Kind) :
    (ks.map fun k => Json.string k.name).mapM Kind.ofJson? = some ks := by
  induction ks with
  | nil => rfl
  | cons k ks ih => rw [List.map_cons, List.mapM_cons, ih]; simp

theorem Kinds.ofJson?_toJson (ks : Kinds) : Kinds.ofJson? ks.toJson = some (some ks) := by
  cases ks with
  | single k => simp [Kinds.ofJson?, Kinds.toJson]
  | list ks => rw [Kinds.toJson, Kinds.ofJson?, Kind.mapM_ofJson?_name]; rfl

namespace Schema

theorem toJson_ne_null (s : Schema) : s.toJson ≠ .null := by
  cases s; simp [toJson]

mutual

/-- **Reading inverts writing.** -/
theorem ofJson?_toJson : ∀ s : Schema, ofJson? s.toJson = some s
  | ⟨type, items, properties, anyOf⟩ => by
    have hi := ofJson?_items items
    have hp := ofJson?_properties properties
    have ha := ofJson?_anyOf anyOf
    cases type <;> cases items <;> cases properties <;> cases anyOf <;>
      simp_all [toJson, typeMember, itemsMember, propertiesMember, anyOfMember, ofJson?,
        ofMembers?, Kinds.ofJson?_toJson, optional, toJson_ne_null, propertiesOfJson?,
        anyOfOfJson?, empty]

theorem ofJson?_items : ∀ items : Option Schema, ∀ s ∈ items, ofJson? s.toJson = some s
  | none => by simp
  | some s => by simpa using ofJson?_toJson s

theorem ofJson?_properties : ∀ properties : Option (List (String × Schema)),
    ∀ ps ∈ properties, entriesOfJson? (entriesToJson ps) = some ps
  | none => by simp
  | some ps => by simpa using entriesOfJson?_toJson ps

theorem ofJson?_anyOf : ∀ anyOf : Option (List Schema),
    ∀ ss ∈ anyOf, listOfJson? (listToJson ss) = some ss
  | none => by simp
  | some ss => by simpa using listOfJson?_toJson ss

theorem entriesOfJson?_toJson : ∀ ps : List (String × Schema),
    entriesOfJson? (entriesToJson ps) = some ps
  | [] => rfl
  | (name, s) :: ps => by
    simp [entriesToJson, entriesOfJson?, ofJson?_toJson s, entriesOfJson?_toJson ps]

theorem listOfJson?_toJson : ∀ ss : List Schema, listOfJson? (listToJson ss) = some ss
  | [] => rfl
  | s :: ss => by
    simp [listToJson, listOfJson?, ofJson?_toJson s, listOfJson?_toJson ss]

end

theorem toJson_injective {s t : Schema} (h : s.toJson = t.toJson) : s = t :=
  Option.some.inj (by rw [← ofJson?_toJson s, h, ofJson?_toJson t])

instance : DecidableEq Schema := fun s t =>
  decidable_of_iff (s.toJson = t.toJson) ⟨toJson_injective, congrArg toJson⟩

end Schema

end ResponseSchema
