/-
  Injection — raw schemas for names.

  A `SchemaMapper` gives a raw schema for a name; the injection lowers it into
  the dialect.  `SchemaMapper.algebra` makes it from the type.
  `SchemaMapper.registered` has a table of raw schemas and takes from it what the
  name does not carry itself.
-/
import ResponseSchema.Ty.Synthesis

namespace ResponseSchema

/-- What gives a raw schema for a name. -/
abbrev SchemaMapper := NamedType → Except SchemaError Json

namespace SchemaMapper

/-- The schema of the name by its type. -/
def algebra : SchemaMapper := fun n =>
  (n.toTy.schema .build).map Schema.toJson

/-- The registered schema of the identifier, unless the name has one attached or
    none is registered. -/
def registered (table : Entries Json) : SchemaMapper := fun n =>
  match table.lookup n.identifier, n.attached? with
  | some raw, none => .ok raw
  | _, _ => algebra n

end SchemaMapper

end ResponseSchema
