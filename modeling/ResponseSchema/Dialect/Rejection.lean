/-
  Dialect — why a raw schema cannot be lowered, and where.

  A `Location` leads from the root of a raw schema to one of its nodes and is
  written as a fragment, `#/items/0`.  A `Rejection` names the fault and the
  node; `Rejection.text` words it.
-/
import ResponseSchema.Json.Printer

namespace ResponseSchema

/-- The three keywords that combine schemas. -/
inductive Combinator where
  | allOf
  | anyOf
  | oneOf
  deriving DecidableEq

/-- The keyword itself. -/
def Combinator.keyword : Combinator → String
  | allOf => "allOf"
  | anyOf => "anyOf"
  | oneOf => "oneOf"

/-- A step from a node towards one below it. -/
inductive Step where
  /-- To the schema of the items. -/
  | items
  /-- To an entry of a list. -/
  | entry (index : Nat)
  /-- To the schema of a property. -/
  | property (name : String)
  /-- To the list of a combinator. -/
  | branches (combinator : Combinator)
  deriving DecidableEq

/-- A step as it is written, names as they are. -/
def Step.text : Step → String
  | items => "items"
  | entry index => String.ofList (decimalText index)
  | property name => "properties/" ++ name
  | branches combinator => combinator.keyword

/-- The steps from the root to a node. -/
abbrev Location := List Step

/-- A location as a fragment. -/
def Location.text (location : Location) : String :=
  location.foldl (fun text step => text ++ "/" ++ step.text) "#"

/-- What is wrong with a raw schema at a node. -/
inductive Rejection where
  /-- The schema `false`. -/
  | rejectsEverything (location : Location)
  /-- Neither an object nor a Boolean. -/
  | notASchema (location : Location) (found : Json)
  /-- A `type` that no kind is called. -/
  | unknownKind (location : Location) (name : String)
  /-- An entry of a `type` list that is no string. -/
  | kindNotAString (location : Location) (found : Json)
  /-- A `type` that is neither a string nor a list. -/
  | typeNotKinds (location : Location) (found : Json)
  /-- `properties` that are no object. -/
  | propertiesNotAnObject (location : Location)
  /-- A combinator without a list. -/
  | branchesNotAList (location : Location)
  /-- A reason that some other producer of schemas gives. -/
  | stated (reason : String)
  deriving DecidableEq

/-- The fault in words. -/
def Rejection.text : Rejection → String
  | rejectsEverything node => "`" ++ node.text ++ "` rejects every value and cannot be expressed"
  | notASchema node found =>
    "expected a schema object at `" ++ node.text ++ "`, found `" ++ found.compact ++ "`"
  | unknownKind node name => "`" ++ node.text ++ "/type` has unknown kind `" ++ name ++ "`"
  | kindNotAString node found =>
    "`" ++ node.text ++ "/type` lists a non-string kind `" ++ found.compact ++ "`"
  | typeNotKinds node found =>
    "`" ++ node.text ++ "/type` must be a string or a list, found `" ++ found.compact ++ "`"
  | propertiesNotAnObject node => "`" ++ node.text ++ "/properties` must be an object"
  | branchesNotAList node => "`" ++ node.text ++ "` must be a list of schemas"
  | stated reason => reason

end ResponseSchema
