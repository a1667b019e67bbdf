/-
  Types — the type algebra of the host language.

  A `Ty` is the type of a declaration or the type behind a run-time
  description.  The shapes are closed: whatever the host has besides them
  arrives as `other`, by name only.  A name carries the type it refers to and
  the metadata of its declaration, so a type is a finite tree.

  * `implied` follows names to the first shape, `isError` and `isNilable` look
    at it;
  * `NamedType` is a name on its own; `attachedSchema?` is the schema that its
    metadata already holds, and `withSchema` puts one there;
  * equality is decidable (`same_iff`).
-/
import ResponseSchema.Json.Basic

namespace ResponseSchema

/-- The scalar types. -/
inductive Primitive where
  | boolean
  | int
  | float
  | decimal
  | string
  | byte
  | null
  deriving DecidableEq

/-- A type of the host language. -/
inductive Ty where
  /-- A scalar. -/
  | primitive (primitive : Primitive)
  /-- Any JSON value. -/
  | json
  /-- Arrays of an element type. -/
  | array (element : Ty)
  /-- The members in the order of their declaration. -/
  | union (members : List Ty)
  /-- An anonymous record, its fields in the order of their declaration. -/
  | record (fields : List (String × Ty))
  /-- A declared name, the type it refers to and what its declaration is annotated with. -/
  | named (identifier : String) (referred : Ty) (metadata : List (String × Json))
  /-- The error type. -/
  | error
  /-- A shape outside the algebra. -/
  | other (name : String)

namespace Ty

instance : Inhabited Ty := ⟨json⟩

/-- A type or null. -/
def optional (inner : Ty) : Ty :=
  union [inner, primitive .null]

/-- A record; a repeated field keeps its first position and takes its last type. -/
def recordOf (fields : List (String × Ty)) : Ty :=
  record (Entries.ofList fields)

/-- The first shape behind names. -/
def implied : Ty → Ty
  | named _ referred _ => referred.implied
  | t => t

/-- Whether the type is the error type, possibly behind names. -/
def isError (t : Ty) : Bool :=
  match t.implied with
  | error => true
  | _ => false

@[simp] theorem isError_named (identifier : String) (referred : Ty) (metadata : List (String × Json)) :
    (named identifier referred metadata).isError = referred.isError := rfl

mutual

/-- Whether null is a value of the type. -/
def isNilable : Ty → Bool
  | primitive .null => true
  | json => true
  | union members => anyNilable members
  | named _ referred _ => isNilable referred
  | _ => false

/-- Whether null is a value of one of the types. -/
def anyNilable : List Ty → Bool
  | [] => false
  | t :: ts => isNilable t || anyNilable ts

end

/-- The element type of an array, possibly behind names. -/
def element? (t : Ty) : Option Ty :=
  match t.implied with
  | array element => some element
  | _ => none

/-! ## Equality -/

mutual

/-- Whether two types are the same, names and metadata included. -/
def same : Ty → Ty → Bool
  | primitive p, primitive q => decide (p = q)
  | json, json => true
  | array a, array b => same a b
  | union as, union bs => sameAll as bs
  | record fs, record gs => sameFields fs gs
  | named m a ma, named n b mb => m == n && same a b && decide (ma = mb)
  | error, error => true
  | other m, other n => m == n
  | _, _ => false

/-- `same`, type by type. -/
def sameAll : List Ty → List Ty → Bool
  | [], [] => true
  | a :: as, b :: bs => same a b && sameAll as bs
  | _, _ => false

/-- `same`, field by field with equal names. -/
def sameFields : List (String × Ty) → List (String × Ty) → Bool
  | [], [] => true
  | (m, a) :: fs, (n, b) :: gs => m == n && same a b && sameFields fs gs
  | _, _ => false

end

mutual

theorem same_iff : ∀ a b : Ty, same a b = true ↔ a = b
  | primitive _, b => by cases b <;> simp [same]
  | json, b => by cases b <;> simp [same]
  | array a, b => by cases b <;> simp [same, same_iff a]
  | union as, b => by cases b <;> simp [same, sameAll_iff as]
  | record fs, b => by cases b <;> simp [same, sameFields_iff fs]
  | named _ a _, b => by cases b <;> simp [same, same_iff a, and_assoc]
  | error, b => by cases b <;> simp [same]
  | other _, b => by cases b <;> simp [same]

theorem sameAll_iff : ∀ as bs : List Ty, sameAll as bs = true ↔ as = bs
  | [], bs => by cases bs <;> simp [sameAll]
  | a :: as, bs => by cases bs <;> simp [sameAll, same_iff a, sameAll_iff as]

theorem sameFields_iff : ∀ fs gs : List (String × Ty), sameFields fs gs = true ↔ fs = gs
  | [], gs => by cases gs <;> simp [sameFields]
  | (m, a) :: fs, gs => by
    cases gs <;> simp [sameFields, Prod.ext_iff, same_iff a, sameFields_iff fs]

end

instance : DecidableEq Ty := fun a b => decidable_of_iff _ (same_iff a b)

end Ty

/-! ## Names -/

/-- The module whose annotations carry a schema computed ahead of time. -/
def schemaModule : String := "ballerina/ai"

/-- The annotation of that module that carries it. -/
def schemaIdentifier : String := "JsonSchema"

/-- The key under which a schema is attached. -/
def schemaKey : String := schemaModule ++ ":" ++ schemaIdentifier

/-- Whether a key of metadata begins with the module and ends with the annotation,
    whatever stands between. -/
def isSchemaKey (key : String) : Bool :=
  schemaModule.toList.isPrefixOf key.toList && schemaIdentifier.toList.isSuffixOf key.toList

/-- A declared name with the type it refers to and its metadata. -/
structure NamedType where
  identifier : String
  referred : Ty
  metadata : Entries Json
  deriving DecidableEq

/-- The first object under a schema key of the metadata. -/
def attachedSchema? (metadata : Entries Json) : Option Json :=
  (metadata.find? fun e => isSchemaKey e.1 && e.2.isObject).map Prod.snd

namespace NamedType

/-- The name as a type. -/
def toTy (n : NamedType) : Ty :=
  .named n.identifier n.referred n.metadata

/-- A name without metadata. -/
def plain (identifier : String) (referred : Ty) : NamedType :=
  ⟨identifier, referred, []⟩

/-- The name with a value under a key of its metadata. -/
def withMetadata (n : NamedType) (key : String) (value : Json) : NamedType :=
  { n with metadata := Entries.insert key value n.metadata }

/-- The name with an attached schema. -/
def withSchema (n : NamedType) (schema : Json) : NamedType :=
  n.withMetadata schemaKey schema

/-- The schema attached to the name, if there is one. -/
def attached? (n : NamedType) : Option Json :=
  attachedSchema? n.metadata

end NamedType

/-- The type as a name, if it is one. -/
def Ty.asNamed? : Ty → Option NamedType
  | named identifier referred metadata => some ⟨identifier, referred, metadata⟩
  | _ => none

end ResponseSchema
