/-
  Settings — reading settings from text.

  The settings are an object with any of the seven names, or an array of them
  in their order; what is missing has its default.  A module is an object with
  `org` and `name` or an array of the two, and both must be there.  Other names
  are passed over with their values.

  A `Draft` holds what has been read so far; `Draft.over` fills it up.
-/
import ResponseSchema.Settings.Basic
import ResponseSchema.SchemaError
import ResponseSchema.Json.Shape

namespace ResponseSchema

open Json (Reader)
open Json.Reader

namespace ModuleRef

/-- The parts of a module that have been read. -/
structure Draft where
  org : Option String := none
  name : Option String := none

/-- Read the part with the given name. -/
def Draft.field (d : Draft) (name : String) : Reader Draft :=
  if name = "org" then do
    pure { d with org := ← once d.org text }
  else if name = "name" then do
    pure { d with name := ← once d.name text }
  else do
    valued skip
    pure d

/-- The module, if both parts are there. -/
def Draft.complete (d : Draft) : Reader ModuleRef := do
  let org ← required d.org
  let name ← required d.name
  pure ⟨org, name⟩

/-- A module as an object or as an array. -/
def reader : Reader ModuleRef :=
  structured
    (do
      let d ← foldMembers Draft.field {}
      d.complete)
    (do
      let org ← required (← element? true text)
      let name ← required (← element? false text)
      pure ⟨org, name⟩)

end ModuleRef

namespace Settings

/-- The settings that have been read. -/
structure Draft where
  providerModule : Option ModuleRef := none
  providerVersion : Option String := none
  providerClass : Option String := none
  generateMethod : Option String := none
  annotationModule : Option ModuleRef := none
  annotationIdentifier : Option String := none
  defaultAlias : Option String := none

/-- The settings, those not read as in `base`. -/
def Draft.over (d : Draft) (base : Settings) : Settings where
  providerModule := d.providerModule.getD base.providerModule
  providerVersion := d.providerVersion.getD base.providerVersion
  providerClass := d.providerClass.getD base.providerClass
  generateMethod := d.generateMethod.getD base.generateMethod
  annotationModule := d.annotationModule.getD base.annotationModule
  annotationIdentifier := d.annotationIdentifier.getD base.annotationIdentifier
  defaultAlias := d.defaultAlias.getD base.defaultAlias

/-- Read the setting with the given name. -/
def Draft.field (d : Draft) (name : String) : Reader Draft :=
  if name = "provider_module" then do
    pure { d with providerModule := ← once d.providerModule ModuleRef.reader }
  else if name = "provider_version" then do
    pure { d with providerVersion := ← once d.providerVersion text }
  else if name = "provider_class" then do
    pure { d with providerClass := ← once d.providerClass text }
  else if name = "generate_method" then do
    pure { d with generateMethod := ← once d.generateMethod text }
  else if name = "annotation_module" then do
    pure { d with annotationModule := ← once d.annotationModule ModuleRef.reader }
  else if name = "annotation_identifier" then do
    pure { d with annotationIdentifier := ← once d.annotationIdentifier text }
  else if name = "default_alias" then do
    pure { d with defaultAlias := ← once d.defaultAlias text }
  else do
    valued skip
    pure d

/-- The settings by position. -/
def Draft.elements : Reader Draft := do
  let providerModule ← element? true ModuleRef.reader
  let providerVersion ← element? false text
  let providerClass ← element? false text
  let generateMethod ← element? false text
  let annotationModule ← element? false ModuleRef.reader
  let annotationIdentifier ← element? false text
  let defaultAlias ← element? false text
  pure { providerModule, providerVersion, providerClass, generateMethod, annotationModule,
         annotationIdentifier, defaultAlias }

/-- Settings as an object or as an array. -/
def reader : Reader Draft :=
  structured (foldMembers Draft.field {}) Draft.elements

/-- Read settings from a text; what is missing has its default. -/
def ofText (text : String) : Except SchemaError Settings :=
  match reader.readAll text with
  | .ok d => .ok (d.over {})
  | .error fault => .error (.unreadable fault)

end Settings

end ResponseSchema
