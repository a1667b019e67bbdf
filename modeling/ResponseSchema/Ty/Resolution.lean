/-
  Types — the schema of a response.

  * `responseSchema` describes the result of a call while the host is built,
    after its errors are taken out;
  * `resolve` answers the running program: a name with an attached schema by
    that schema, anything else by run-time synthesis.  `Resolution` keeps the two
    apart;
  * `NamedType.ofRaw` is a name that carries the lowered form of a raw schema, so
    that `resolve` can answer for it.
-/
import ResponseSchema.Ty.Response
import ResponseSchema.Ty.Synthesis

namespace ResponseSchema

/-- A schema and where it comes from. -/
inductive Resolution where
  /-- Computed ahead of time and taken as it is. -/
  | attached (schema : Schema)
  /-- Made from the type. -/
  | derived (schema : Schema)
  deriving DecidableEq

/-- The schema, wherever it comes from. -/
def Resolution.schema : Resolution → Schema
  | attached s | derived s => s

namespace Ty

/-- The schema of the response in the result of a call; none if there is no response. -/
def responseSchema (result : Ty) : Except SchemaError (Option Schema) :=
  match result.response? with
  | none => .ok none
  | some response => (response.schema .build).map some

/-- The schema of a type for the running program. -/
def resolve (t : Ty) : Except SchemaError Resolution :=
  match t.asNamed?.bind NamedType.attached? with
  | some attached => (Schema.read attached).map .attached
  | none => (t.schema .runtime).map .derived

end Ty

/-- A name for a type outside the algebra, with the lowered form of its raw schema
    attached. -/
def NamedType.ofRaw (identifier typeName : String) (raw : Json) : Except SchemaError NamedType :=
  (Schema.ofRaw raw).map fun s => (plain identifier (.other typeName)).withSchema s.toJson

end ResponseSchema
