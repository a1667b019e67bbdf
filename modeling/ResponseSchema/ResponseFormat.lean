/-
  Response format — the part of a request that carries a schema.

  A provider is told the schema under a name, and optionally whether to follow
  it strictly.  `ResponseFormat.toJson` is the value sent.
-/
import ResponseSchema.Schema.Codec

namespace ResponseSchema

/-- A schema with the name it is sent under. -/
structure ResponseFormat where
  name : String
  schema : Schema
  strict : Option Bool := none
  deriving DecidableEq

namespace ResponseFormat

/-- Ask for strictness or against it; the last word counts. -/
def withStrict (format : ResponseFormat) (strict : Bool) : ResponseFormat :=
  { format with strict := some strict }

/-- The member `strict`, if there was a word on it. -/
def strictMember : Option Bool → List (String × Json)
  | none => []
  | some strict => [("strict", .bool strict)]

/-- The value sent with a request. -/
def toJson (format : ResponseFormat) : Json :=
  .object [("type", .string "json_schema"),
    ("json_schema", .object ([("name", .string format.name), ("schema", format.schema.toJson)] ++
      strictMember format.strict))]

end ResponseFormat

end ResponseSchema
