/-
  Host — the documents of a package, as far as an injection sees them.

  The host owns the text; a `Document` holds what its analysis knows: imports,
  type definitions with their annotations, and calls with the types of receiver
  and result.

  * `TypeDefinition.toNamed` is a definition as the running program sees it,
    its schema annotations turned into metadata;
  * `Package.documents` lists the documents of every module, the tests of a
    module after the rest; `Package.edit` goes through them in this order with a
    state;
  * `documents_edit`: editing a package is editing the list of its documents.
-/
import ResponseSchema.Host.Import
import ResponseSchema.Ty.Basic

namespace ResponseSchema

/-! ## Annotations -/

/-- An annotation, qualified by the name of a module or plain. -/
structure Annotation where
  qualifier? : Option String
  identifier : String
  value? : Option Json := none
  deriving DecidableEq

namespace Annotation

/-- Whether the annotation is the one with this qualifier and identifier. -/
def refersTo (a : Annotation) (qualifier identifier : String) : Bool :=
  a.qualifier? = some qualifier ∧ a.identifier = identifier

@[simp] theorem refersTo_mk {qualifier? : Option String} {value? : Option Json}
    {name qualifier identifier : String} :
    refersTo ⟨qualifier?, name, value?⟩ qualifier identifier ↔
      qualifier? = some qualifier ∧ name = identifier := by
  simp [refersTo]

/-- The annotation as the host writes it. -/
def display (a : Annotation) : String :=
  let reference := match a.qualifier? with
    | some qualifier => qualifier ++ ":" ++ a.identifier
    | none => a.identifier
  match a.value? with
  | some value => "@" ++ reference ++ " " ++ value.compact
  | none => "@" ++ reference

end Annotation

/-! ## Definitions -/

/-- The definition of a type with its annotations. -/
structure TypeDefinition where
  name : String
  type : Ty
  annotations : List Annotation := []
  deriving DecidableEq

namespace TypeDefinition

/-- The values of the schema annotations under this qualifier, each under the key
    for metadata; so the last one counts. -/
def metadata (d : TypeDefinition) (qualifier : String) (settings : Settings) : Entries Json :=
  Entries.ofList <|
    (d.annotations.filter (·.refersTo qualifier settings.annotationIdentifier)).filterMap fun a =>
      a.value?.map fun value => (settings.metadataKey, value)

/-- The definition as the running program sees it. -/
def toNamed (d : TypeDefinition) (qualifier : String) (settings : Settings) : NamedType :=
  ⟨d.name, d.type, d.metadata qualifier settings⟩

end TypeDefinition

/-! ## Calls -/

/-- A class of a module. -/
structure ClassRef where
  module : ModuleId
  name : String
  deriving DecidableEq

/-- The class of a receiver with everything it is a subtype of. -/
structure Receiver where
  ownClass : ClassRef
  supertypes : List ClassRef := []
  deriving DecidableEq

/-- Whether the receiver is an instance of a class with the property. -/
def Receiver.any (r : Receiver) (p : ClassRef → Bool) : Bool :=
  p r.ownClass || r.supertypes.any p

/-- A call of a method, with the receiver and the result type if they are known. -/
structure Call where
  method : String
  receiver? : Option Receiver
  result? : Option Ty
  deriving DecidableEq

/-! ## Documents -/

/-- A document. -/
structure Document where
  id : String
  imports : List Import
  definitions : List TypeDefinition
  calls : List Call
  deriving DecidableEq

/-- The first definition of a name. -/
def Document.definition? (d : Document) (name : String) : Option TypeDefinition :=
  d.definitions.find? (·.name = name)

/-- A module with its documents and their tests. -/
structure Module where
  id : ModuleId
  documents : List Document
  tests : List Document
  deriving DecidableEq

/-- The documents of a module. -/
def Module.allDocuments (m : Module) : List Document :=
  m.documents ++ m.tests

/-- A package, and how many errors its build has reported. -/
structure Package where
  modules : List Module
  errorCount : Nat := 0
  deriving DecidableEq

namespace Package

/-- The documents of every module. -/
def documents (p : Package) : List Document :=
  p.modules.flatMap Module.allDocuments

/-- The first document with an identifier. -/
def document? (p : Package) (id : String) : Option Document :=
  p.documents.find? (·.id = id)

end Package

/-! ## Editing with a state -/

variable {σ α : Type}

/-- Edit the elements of a list from left to right. -/
def editList (f : σ → α → α × σ) (s : σ) : List α → List α × σ
  | [] => ([], s)
  | a :: as =>
    let edited := f s a
    let rest := editList f edited.2 as
    (edited.1 :: rest.1, rest.2)

/-- Edit the documents of a module, then its tests. -/
def Module.edit (f : σ → Document → Document × σ) (s : σ) (m : Module) : Module × σ :=
  let documents := editList f s m.documents
  let tests := editList f documents.2 m.tests
  ({ m with documents := documents.1, tests := tests.1 }, tests.2)

/-- Edit every document of a package in order. -/
def Package.edit (f : σ → Document → Document × σ) (s : σ) (p : Package) : Package × σ :=
  let modules := editList (Module.edit f) s p.modules
  ({ p with modules := modules.1 }, modules.2)

theorem editList_append (f : σ → α → α × σ) : ∀ (as bs : List α) (s : σ),
    editList f s (as ++ bs) =
      ((editList f s as).1 ++ (editList f (editList f s as).2 bs).1,
        (editList f (editList f s as).2 bs).2)
  | [], bs, s => rfl
  | a :: as, bs, s => by simp [editList, editList_append f as bs]

theorem allDocuments_edit (f : σ → Document → Document × σ) (s : σ) (m : Module) :
    ((m.edit f s).1.allDocuments, (m.edit f s).2) = editList f s m.allDocuments := by
  simp [Module.edit, Module.allDocuments, editList_append]

/-- **Editing a package is editing the list of its documents.** -/
theorem documents_edit (f : σ → Document → Document × σ) (s : σ) (p : Package) :
    ((p.edit f s).1.documents, (p.edit f s).2) = editList f s p.documents := by
  obtain ⟨modules, errorCount⟩ := p
  simp only [Package.edit, Package.documents]
  induction modules generalizing s with
  | nil => rfl
  | cons m ms ih =>
    simp only [editList, List.flatMap_cons, editList_append, ← allDocuments_edit, ← ih]

/-! ## Editing one document -/

/-- Edit the first document with an identifier, if there is one. -/
def Package.update (p : Package) (id : String) (f : Document → Document) : Package :=
  (p.edit (fun (found : Bool) d => if found ∨ d.id ≠ id then (d, found) else (f d, true)) false).1

end ResponseSchema
