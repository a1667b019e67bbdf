/-
  Injection — what qualifies the schema annotation in a document.

  The first import of the annotation module decides.  An import under the alias
  `_` makes the module available without a name for it; then, and without an
  import, the annotation gets the default alias of the settings.
-/
import ResponseSchema.Host.Document

namespace ResponseSchema

/-- How a document names the annotation module. -/
inductive Alias where
  /-- By this name. -/
  | inScope (name : String)
  /-- Imported without a name. -/
  | suppressed
  /-- Not imported. -/
  | absent
  deriving DecidableEq

/-- The name that an import gives its module. -/
def Import.boundAlias (i : Import) : Alias :=
  match i.alias? with
  | some name => if name = "_" then .suppressed else .inScope name
  | none =>
    match i.implicitAlias? with
    | some name => .inScope name
    | none => .absent

namespace Document

/-- How the document names the annotation module. -/
def annotationAlias (d : Document) (settings : Settings) : Alias :=
  match d.imports.find? (·.refersTo settings.annotationModule) with
  | some i => i.boundAlias
  | none => .absent

/-- What qualifies the schema annotation in the document. -/
def qualifier (d : Document) (settings : Settings) : String :=
  match d.annotationAlias settings with
  | .inScope name => name
  | .suppressed | .absent => settings.defaultAlias

/-- The first definition of a name as the running program sees it. -/
def named? (d : Document) (name : String) (settings : Settings) : Option NamedType :=
  (d.definition? name).map (·.toNamed (d.qualifier settings) settings)

end Document

end ResponseSchema
