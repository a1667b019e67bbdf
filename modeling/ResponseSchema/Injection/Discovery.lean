/-
  Injection — finding the types that need a schema.

  A document counts if it imports the provider module.  Its model calls are the
  calls of the method on a provider, and the targets of a call are the names in
  its response.  Each identifier is tried once: it gets a text in the cache or a
  failure, whichever its first occurrence leads to.
-/
import ResponseSchema.Host.Document
import ResponseSchema.Ty.Response
import ResponseSchema.Injection.Cache
import ResponseSchema.Injection.Mapper

namespace ResponseSchema

namespace Settings

/-- Whether a version is one of the provider module. -/
def admitsVersion (s : Settings) (version : String) : Bool :=
  s.providerVersion.toList.isPrefixOf version.toList

/-- Whether an import is one of the provider module. -/
def isProviderImport (s : Settings) (i : Import) : Bool :=
  i.refersTo s.providerModule && i.version?.all s.admitsVersion

/-- Whether a class is the provider class. -/
def isProvider (s : Settings) (c : ClassRef) : Bool :=
  c.name = s.providerClass ∧ c.module.org = s.providerModule.org ∧
    c.module.name = s.providerModule.name ∧ s.admitsVersion c.module.version

/-- Whether a call is a model call. -/
def isModelCall (s : Settings) (c : Call) : Bool :=
  c.method = s.generateMethod && c.receiver?.any (·.any s.isProvider)

end Settings

/-- What the search has found: the texts, and the names without one. -/
structure Findings where
  cache : SchemaCache := {}
  failures : Entries SchemaError := []

namespace Findings

/-- Try to get the text for a name, unless that has failed before. -/
def addTarget (mapper : SchemaMapper) (f : Findings) (n : NamedType) : Findings :=
  if n.identifier ∈ f.failures.map Prod.fst then f
  else
    let fetched := f.cache.fetch n.identifier fun _ => mapper n >>= Schema.textOfRaw
    match fetched.answer with
    | .ok _ => { f with cache := fetched.cache }
    | .error e => ⟨fetched.cache, f.failures ++ [(n.identifier, e)]⟩

/-- Add the targets of a call. -/
def addCall (settings : Settings) (mapper : SchemaMapper) (f : Findings) (c : Call) : Findings :=
  if settings.isModelCall c then
    match c.result?.bind Ty.response? with
    | some response => response.targets.foldl (addTarget mapper) f
    | none => f
  else f

/-- Add the targets of the calls in a document. -/
def addDocument (settings : Settings) (mapper : SchemaMapper) (f : Findings) (d : Document) :
    Findings :=
  if d.imports.any settings.isProviderImport then d.calls.foldl (addCall settings mapper) f
  else f

/-- The findings in some documents. -/
def ofDocuments (settings : Settings) (mapper : SchemaMapper) (documents : List Document) :
    Findings :=
  documents.foldl (addDocument settings mapper) {}

end Findings

end ResponseSchema
