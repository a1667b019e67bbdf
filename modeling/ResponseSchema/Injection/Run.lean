/-
  Injection — annotating the types of a package with their schemas.

  A run goes through the documents of a package three times, in the same order:

  * it finds the types that need a schema (`Findings`);
  * it annotates every definition whose name has got a text, unless the
    annotation is there (`Injector.annotate`).  The text is read back first; if
    it does not read, the run ends there and keeps what it has done;
  * where an annotation was added and the document does not have the annotation
    module yet, it adds the import (`Injector.addImport`).  Documents are remembered
    by identifier (`PendingImports`), and the first with it takes the entry.

  A package whose build has errors is left alone.
-/
import ResponseSchema.Injection.Alias
import ResponseSchema.Injection.Discovery
import ResponseSchema.Json.Reader

namespace ResponseSchema

/-! ## Documents that wait for an import -/

/-- The identifiers of documents that wait for an import. -/
structure PendingImports where
  ids : List String := []
  deriving DecidableEq

namespace PendingImports

/-- Add an identifier; whether it was not there. -/
def insert (p : PendingImports) (id : String) : Bool × PendingImports :=
  if id ∈ p.ids then (false, p) else (true, ⟨p.ids ++ [id]⟩)

/-- Remove an identifier; whether it was there. -/
def take (p : PendingImports) (id : String) : Bool × PendingImports :=
  if id ∈ p.ids then (true, ⟨p.ids.filter (· ≠ id)⟩) else (false, p)

end PendingImports

/-! ## Runs -/

/-- A definition that was annotated. -/
structure AnnotatedDefinition where
  document : String
  name : String
  deriving DecidableEq

/-- What a run did. -/
structure Report where
  schemas : SchemaCache
  annotated : List AnnotatedDefinition
  importsAdded : List String
  failures : Entries SchemaError

/-- Whether the run left every document as it was. -/
def Report.isNoop (r : Report) : Bool :=
  r.annotated.isEmpty && r.importsAdded.isEmpty

/-- Names to recognise, and a mapper to ask for schemas. -/
structure Injector where
  settings : Settings := {}
  mapper : SchemaMapper := .algebra

namespace Injector

/-- How far the definitions of a document are: the names annotated, or a fault. -/
structure DefinitionProgress where
  names : List String := []
  fault? : Option SchemaError := none

/-- Annotate a definition that has a text and not yet the annotation. -/
def annotateDefinition (injector : Injector) (qualifier : String) (schemas : SchemaCache)
    (progress : DefinitionProgress) (d : TypeDefinition) : TypeDefinition × DefinitionProgress :=
  let identifier := injector.settings.annotationIdentifier
  match progress.fault?, schemas.get? d.name with
  | none, some text =>
    if d.annotations.any (·.refersTo qualifier identifier) then (d, progress)
    else
      match Json.read text with
      | .ok value =>
        ({ d with annotations := d.annotations ++ [⟨some qualifier, identifier, some value⟩] },
          { progress with names := progress.names ++ [d.name] })
      | .error fault => (d, { progress with fault? := some (.unreadable fault) })
  | _, _ => (d, progress)

/-- How far the documents are: what was annotated and who waits for an import, or a
    fault. -/
structure Progress where
  annotated : List AnnotatedDefinition := []
  pending : PendingImports := {}
  fault? : Option SchemaError := none

/-- Annotate the definitions of a document. -/
def annotate (injector : Injector) (schemas : SchemaCache) (progress : Progress) (d : Document) :
    Document × Progress :=
  if progress.fault?.isSome then (d, progress)
  else
    let qualifier := d.qualifier injector.settings
    let edited := editList (injector.annotateDefinition qualifier schemas) {} d.definitions
    let document := { d with definitions := edited.1 }
    match edited.2.fault? with
    | some e => (document, { progress with fault? := some e })
    | none =>
      if edited.2.names.isEmpty then (document, progress)
      else
        (document,
          { progress with
            annotated := progress.annotated ++ edited.2.names.map (⟨d.id, ·⟩)
            pending := (progress.pending.insert d.id).2 })

/-- Import the annotation module into a document that waits for it and cannot name it. -/
def addImport (injector : Injector) (state : PendingImports × List String) (d : Document) :
    Document × PendingImports × List String :=
  let taken := state.1.take d.id
  if taken.1 then
    match d.annotationAlias injector.settings with
    | .absent =>
      ({ d with imports := d.imports ++ [.ofModule injector.settings.annotationModule] },
        taken.2, state.2 ++ [d.id])
    | .inScope _ | .suppressed => (d, taken.2, state.2)
  else (d, taken.2, state.2)

/-- Run over a package.  The package comes back also from a run that failed. -/
def run (injector : Injector) (p : Package) : Except SchemaError Report × Package :=
  if 0 < p.errorCount then (.error (.aborted p.errorCount), p)
  else
    let found := Findings.ofDocuments injector.settings injector.mapper p.documents
    let (annotated, progress) := p.edit (injector.annotate found.cache) {}
    match progress.fault? with
    | some e => (.error e, annotated)
    | none =>
      let (finished, _, importsAdded) := annotated.edit injector.addImport (progress.pending, [])
      (.ok ⟨found.cache, progress.annotated, importsAdded, found.failures⟩, finished)

end Injector

end ResponseSchema
