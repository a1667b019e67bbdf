/-
  Errors — why there is no schema.

  Every producer of schemas fails with a `SchemaError`, so a caller sees the
  same message whichever of them it asked; `SchemaError.message` words it.
  A text that does not read has no message of its own, only its `Json.Fault`.
-/
import ResponseSchema.Json.Text
import ResponseSchema.Ty.Display
import ResponseSchema.Dialect.Rejection

namespace ResponseSchema

/-- Why there is no schema. -/
inductive SchemaError where
  /-- The type has a shape that no schema describes. -/
  | unsupported (type : Ty)
  /-- The name carries no schema, and at run time nothing else can answer for it. -/
  | unmapped (identifier : String)
  /-- The name refers back to itself. -/
  | recursive (identifier : String)
  /-- The host build has errors of its own. -/
  | aborted (errors : Nat)
  /-- The raw schema is outside what can be lowered. -/
  | invalid (rejection : Rejection)
  /-- A text or a value does not read. -/
  | unreadable (fault : Json.Fault)
  deriving DecidableEq

namespace SchemaError

/-- The message for the user, unless a text did not read. -/
def message? : SchemaError → Option String
  | unsupported type => some ("schema generation is not supported for type `" ++ type.display ++ "`")
  | unmapped identifier =>
    some ("runtime schema generation is not yet supported for type: " ++ identifier)
  | recursive identifier =>
    some ("type `" ++ identifier ++ "` is self-referential and cannot be expanded into a schema")
  | aborted errors =>
    some ("schema injection skipped: build has " ++ String.ofList (decimalText errors) ++ " error(s)")
  | invalid rejection => some ("invalid schema: " ++ rejection.text)
  | unreadable _ => none

end SchemaError

end ResponseSchema
