/-
  Schemas — the dialect that a model's structured output accepts.

  A `Schema` node can say only four things: the kinds of value it takes, a
  schema for the items of an array, schemas for the named properties of an
  object, and alternatives.  Every value of the type is inside the dialect.

  * `Kind` and `Kinds`: a node names one kind or a list of kinds, and keeps the
    two apart even if the list has one entry;
  * `ofKind`, `ofKinds`, `anyJson`, `arrayOf`, `objectOf`, `ofAlternatives`: the
    nodes that synthesis builds;
  * `singleKind?` and `isEmpty` are what callers ask of a node.
-/
import ResponseSchema.Entries

namespace ResponseSchema

/-- A kind of JSON value; integers are a kind of their own beside numbers. -/
inductive Kind where
  | null
  | boolean
  | object
  | array
  | number
  | string
  | integer
  deriving DecidableEq

namespace Kind

/-- The name a schema gives a kind. -/
def name : Kind → String
  | null => "null"
  | boolean => "boolean"
  | object => "object"
  | array => "array"
  | number => "number"
  | string => "string"
  | integer => "integer"

/-- Every kind. -/
def all : List Kind :=
  [null, boolean, object, array, number, string, integer]

/-- The kind with the given name. -/
def ofName? (name : String) : Option Kind :=
  all.find? (·.name = name)

@[simp] theorem ofName?_name (k : Kind) : ofName? k.name = some k := by
  cases k <;> decide

theorem name_of_ofName? {name : String} {k : Kind} (h : ofName? name = some k) : k.name = name := by
  simpa using List.find?_some h

end Kind

/-- What stands under `type`: a kind or a list of kinds. -/
inductive Kinds where
  | single (kind : Kind)
  | list (kinds : List Kind)
  deriving DecidableEq

namespace Kinds

/-- The kinds as a list. -/
def toList : Kinds → List Kind
  | single k => [k]
  | list ks => ks

/-- The shortest way to write a list of kinds: none at all for no kind, a single
    kind on its own. -/
def ofList? : List Kind → Option Kinds
  | [] => none
  | [k] => some (single k)
  | ks => some (list ks)

end Kinds

/-- A schema node of the dialect. -/
structure Schema where
  type : Option Kinds
  items : Option Schema
  properties : Option (List (String × Schema))
  anyOf : Option (List Schema)

namespace Schema

/-- The node that says nothing. -/
def empty : Schema := ⟨none, none, none, none⟩

instance : Inhabited Schema := ⟨empty⟩

/-- One kind. -/
def ofKind (kind : Kind) : Schema :=
  { empty with type := some (.single kind) }

/-- A list of kinds. -/
def ofKinds (kinds : List Kind) : Schema :=
  { empty with type := some (.list kinds) }

/-- Every JSON value, an integer being a number. -/
def anyJson : Schema :=
  ofKinds [.object, .array, .string, .number, .boolean, .null]

/-- Arrays of items. -/
def arrayOf (items : Schema) : Schema :=
  { ofKind .array with items := some items }

/-- Objects with properties. -/
def objectOf (properties : List (String × Schema)) : Schema :=
  { ofKind .object with properties := some properties }

/-- Alternatives. -/
def ofAlternatives (branches : List Schema) : Schema :=
  { empty with anyOf := some branches }

/-- The only kind a node names, if it names exactly one. -/
def singleKind? (s : Schema) : Option Kind :=
  match s.type with
  | some (.single k) => some k
  | some (.list [k]) => some k
  | _ => none

/-- Whether the node says nothing. -/
def isEmpty : Schema → Bool
  | ⟨none, none, none, none⟩ => true
  | _ => false

@[simp] theorem isEmpty_iff (s : Schema) : s.isEmpty = true ↔ s = empty := by
  obtain ⟨type, items, properties, anyOf⟩ := s
  cases type <;> cases items <;> cases properties <;> cases anyOf <;> simp [isEmpty, empty]

end Schema

end ResponseSchema
