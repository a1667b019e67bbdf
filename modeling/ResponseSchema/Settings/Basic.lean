/-
  Settings — the names that an injection recognises.

  A model call is a call of one method on a provider, an instance of one class
  of one module in some versions; schemas are annotated with one annotation of
  another module.  The default settings name the OpenAI provider and the
  annotation of `ballerina/ai`.

  `Settings.toJson` writes all seven settings in their order.
-/
import ResponseSchema.Json.Printer

namespace ResponseSchema

/-- A module by organisation and name. -/
structure ModuleRef where
  org : String
  name : String
  deriving DecidableEq

/-- The module as the host writes it. -/
def ModuleRef.display (m : ModuleRef) : String :=
  m.org ++ "/" ++ m.name

/-- A module as a JSON object. -/
def ModuleRef.toJson (m : ModuleRef) : Json :=
  .object [("org", .string m.org), ("name", .string m.name)]

/-- The names that an injection recognises. -/
structure Settings where
  /-- The module of the provider class. -/
  providerModule : ModuleRef := ⟨"ballerinax", "ai.openai"⟩
  /-- What the version of that module has to begin with. -/
  providerVersion : String := "1"
  /-- The class whose instances are providers. -/
  providerClass : String := "ModelProvider"
  /-- The method whose result needs a schema. -/
  generateMethod : String := "generate"
  /-- The module of the schema annotation. -/
  annotationModule : ModuleRef := ⟨"ballerina", "ai"⟩
  /-- The name of the annotation in its module. -/
  annotationIdentifier : String := "JsonSchema"
  /-- What qualifies the annotation where no import does. -/
  defaultAlias : String := "ai"
  deriving DecidableEq

namespace Settings

instance : Inhabited Settings := ⟨{}⟩

/-- The key under which the run-time view of a declaration has its annotation. -/
def metadataKey (s : Settings) : String :=
  s.annotationModule.display ++ ":" ++ s.annotationIdentifier

/-- The settings as a JSON object. -/
def toJson (s : Settings) : Json :=
  .object [
    ("provider_module", s.providerModule.toJson),
    ("provider_version", .string s.providerVersion),
    ("provider_class", .string s.providerClass),
    ("generate_method", .string s.generateMethod),
    ("annotation_module", s.annotationModule.toJson),
    ("annotation_identifier", .string s.annotationIdentifier),
    ("default_alias", .string s.defaultAlias)]

end Settings

end ResponseSchema
