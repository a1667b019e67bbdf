/-
  Dialect — lowering a raw schema into the dialect.

  A raw schema is any JSON Schema: from a generic mapper, written by hand, or
  a schema of the dialect as JSON.  `lower` keeps of each node what a `Schema`
  can hold and drops every other keyword, whatever its content:

  * a node with `allOf`, `anyOf` or `oneOf` loses its own `type`; the branches
    of `allOf` are folded into the node (`absorb`), those of `anyOf` and `oneOf`
    become its alternatives;
  * a string in the format `byte` becomes a number;
  * `nullable` becomes one more kind, or one more alternative (`allowNull`);
  * properties with the schema `false` and items with it are dropped.

  `keywords` lowers each keyword of a node on its own, `Keywords.assemble` puts
  the node together.  Of several faults the one of the first keyword in the
  order of `assemble` counts.
-/
import ResponseSchema.Schema.Codec
import ResponseSchema.SchemaError

namespace ResponseSchema

namespace Kinds

/-- The kinds and null. -/
def withNull : Kinds → Kinds
  | single k => if k = .null then single .null else list [k, .null]
  | list ks => if .null ∈ ks then list ks else list (ks ++ [.null])

end Kinds

namespace Schema

/-! ## Folding and nulls -/

/-- Whether a node says on its face that null is allowed: by a kind, or by saying
    nothing at all. -/
def takesNull (s : Schema) : Bool :=
  match s.type with
  | some kinds => decide (.null ∈ kinds.toList)
  | none => s.isEmpty

/-- The node with null: as an alternative where it has alternatives and none of them
    takes null, as a kind otherwise.  A node without kinds takes null already. -/
def allowNull (s : Schema) : Schema :=
  match s.anyOf with
  | some branches =>
    if branches.any takesNull then s
    else { s with anyOf := some (branches ++ [ofKind .null]) }
  | none => { s with type := s.type.map Kinds.withNull }

/-- Properties with those of a branch; the name that is there already wins. -/
def mergeProperties (properties : Option (List (String × Schema))) :
    Option (List (String × Schema)) → Option (List (String × Schema))
  | none => properties
  | some ps => some (ps.foldl (fun acc p => Entries.insertNew p.1 p.2 acc) (properties.getD []))

/-- Alternatives followed by those of a branch. -/
def joinAlternatives (alternatives : Option (List Schema)) :
    Option (List Schema) → Option (List Schema)
  | none => alternatives
  | some ss => some (alternatives.getD [] ++ ss)

/-- A node with a branch of its `allOf` folded in; what the node says already stays. -/
def absorb (node branch : Schema) : Schema where
  type := node.type <|> branch.type
  items := node.items <|> branch.items
  properties := mergeProperties node.properties branch.properties
  anyOf := joinAlternatives node.anyOf branch.anyOf

end Schema

/-! ## The keywords of a node -/

/-- What the keywords of a raw node amount to, each on its own. -/
structure Keywords where
  kinds : Except Rejection (List Kind) := .ok []
  byteFormat : Bool := false
  nullable : Bool := false
  items : Except Rejection (Option Schema) := .ok none
  properties : Except Rejection (Option (List (String × Schema))) := .ok none
  allOf : Except Rejection (Option (List Schema)) := .ok none
  anyOf : Except Rejection (Option (List Schema)) := .ok none
  oneOf : Except Rejection (Option (List Schema)) := .ok none

namespace Keywords

/-- The kinds of a node in view of its format and of `nullable`. -/
def adjust (byteFormat nullable : Bool) (kinds : List Kind) : List Kind :=
  let kinds := if byteFormat ∧ kinds = [.string] then [.number] else kinds
  if nullable ∧ kinds ≠ [] ∧ .null ∉ kinds then kinds ++ [.null] else kinds

/-- The node with the given kinds, items and properties and with lowered branches. -/
def compose (kinds : List Kind) (nullable : Bool) (items : Option Schema)
    (properties : Option (List (String × Schema))) (allOf anyOf oneOf : Option (List Schema)) :
    Schema :=
  let combined := allOf.isSome || anyOf.isSome || oneOf.isSome
  let type := if combined then none else Kinds.ofList? kinds
  let folded := (allOf.getD []).foldl Schema.absorb ⟨type, items, properties, none⟩
  let branches := anyOf.getD [] ++ oneOf.getD []
  let node := if branches.isEmpty then folded
    else { folded with type := none, anyOf := some branches }
  if combined && nullable then node.allowNull else node

/-- The node that the keywords describe, or the first fault among them. -/
def assemble (k : Keywords) : Except Rejection Schema := do
  let kinds ← k.kinds
  let items ← k.items
  let properties ← k.properties
  let allOf ← k.allOf
  let anyOf ← k.anyOf
  let oneOf ← k.oneOf
  pure (compose (adjust k.byteFormat k.nullable kinds) k.nullable items properties allOf anyOf oneOf)

end Keywords

/-- The kind that a node names. -/
def namedKind (location : Location) (name : String) : Except Rejection Kind :=
  match Kind.ofName? name with
  | some kind => .ok kind
  | none => .error (.unknownKind location name)

/-- An entry of a list of kinds. -/
def listedKind (location : Location) : Json → Except Rejection Kind
  | .string name => namedKind location name
  | v => .error (.kindNotAString location v)

/-- The kinds under `type`. -/
def declaredKinds (location : Location) : Json → Except Rejection (List Kind)
  | .string name => (namedKind location name).map ([·])
  | .array vs => vs.mapM (listedKind location)
  | v => .error (.typeNotKinds location v)

/-- The schema for the items of a tuple: that of its one entry, or the alternatives. -/
def tupleItems : List Schema → Schema
  | [] => .empty
  | [s] => s
  | ss => .ofAlternatives ss

/-- What stands under `items`, given what it means as a node and as a tuple. -/
def itemsFrom (v : Json) (node : Except Rejection Schema)
    (tuple : Except Rejection (List Schema)) : Except Rejection (Option Schema) :=
  match v with
  | .bool false => .ok none
  | .array _ => tuple.map fun ss => some (tupleItems ss)
  | _ => node.map some

mutual

/-- The schema of a raw node. -/
def lower (location : Location) : Json → Except Rejection Schema
  | .object ms => (keywords location ms).assemble
  | .bool true => .ok .empty
  | .bool false => .error (.rejectsEverything location)
  | v => .error (.notASchema location v)

/-- The keywords among the members of a node, the first of a name. -/
def keywords (location : Location) : List (String × Json) → Keywords
  | [] => {}
  | (name, v) :: ms =>
    let k := keywords location ms
    if name = "type" then { k with kinds := declaredKinds location v }
    else if name = "format" then { k with byteFormat := decide (v = .string "byte") }
    else if name = "nullable" then { k with nullable := decide (v = .bool true) }
    else if name = "items" then
      let node := location ++ [.items]
      { k with items := itemsFrom v (lower node v) (lowerTuple node v) }
    else if name = "properties" then { k with properties := lowerProperties location v }
    else if name = "allOf" then { k with allOf := lowerBranches (location ++ [.branches .allOf]) v }
    else if name = "anyOf" then { k with anyOf := lowerBranches (location ++ [.branches .anyOf]) v }
    else if name = "oneOf" then { k with oneOf := lowerBranches (location ++ [.branches .oneOf]) v }
    else k

/-- The entries of a tuple; other values have none. -/
def lowerTuple (location : Location) : Json → Except Rejection (List Schema)
  | .array vs => lowerList location 0 vs
  | _ => .ok []

/-- The list under a combinator. -/
def lowerBranches (location : Location) : Json → Except Rejection (Option (List Schema))
  | .array vs => (lowerList location 0 vs).map some
  | _ => .error (.branchesNotAList location)

/-- The object under `properties`. -/
def lowerProperties (location : Location) :
    Json → Except Rejection (Option (List (String × Schema)))
  | .object ms => (lowerMembers location ms).map some
  | _ => .error (.propertiesNotAnObject location)

/-- The entries of a list, counted from `index`. -/
def lowerList (location : Location) (index : Nat) : List Json → Except Rejection (List Schema)
  | [] => .ok []
  | v :: vs => do
    let s ← lower (location ++ [.entry index]) v
    let ss ← lowerList location (index + 1) vs
    pure (s :: ss)

/-- The properties that are not `false`. -/
def lowerMembers (location : Location) :
    List (String × Json) → Except Rejection (List (String × Schema))
  | [] => .ok []
  | (name, v) :: ms =>
    if v = .bool false then lowerMembers location ms
    else do
      let s ← lower (location ++ [.property name]) v
      let ps ← lowerMembers location ms
      pure ((name, s) :: ps)

end

namespace Schema

/-- The schema of the dialect that a raw schema is lowered to. -/
def ofRaw (raw : Json) : Except SchemaError Schema :=
  (lower [] raw).mapError .invalid

/-- The compact text of that schema. -/
def textOfRaw (raw : Json) : Except SchemaError String :=
  (ofRaw raw).map compact

/-- Read a schema that is in the dialect already. -/
def read (v : Json) : Except SchemaError Schema :=
  match ofJson? v with
  | some s => .ok s
  | none => .error (.unreadable .mismatched)

theorem read_toJson (s : Schema) : read s.toJson = .ok s := by
  rw [read, ofJson?_toJson]

end Schema

end ResponseSchema
