/-
  Injection — what the search goes through.

  * `Target`: the names that the model calls of some documents refer to;
    `targetsIn` lists them in the order of the search, which goes through this list
    (`ofDocuments_eq_foldl`);
  * `addTarget_eq`: what a step does with a target;
  * `ofDocuments_congr`: the search sees of a document only its calls and
    whether it imports the provider.
-/
import ResponseSchema.Injection.Discovery
import Mathlib.Data.List.Basic

namespace ResponseSchema

namespace Findings

variable {settings : Settings} {mapper : SchemaMapper} {documents : List Document}

/-- A name in the response of a model call in one of the documents. -/
def Target (settings : Settings) (documents : List Document) (n : NamedType) : Prop :=
  ∃ d ∈ documents, d.imports.any settings.isProviderImport ∧
    ∃ c ∈ d.calls, settings.isModelCall c ∧
      ∃ response, c.result?.bind Ty.response? = some response ∧ n ∈ response.targets

/-- The targets in the order of the search, as often as they occur. -/
def targetsIn (settings : Settings) (documents : List Document) : List NamedType :=
  (documents.filter (·.imports.any settings.isProviderImport)).flatMap fun d =>
    (d.calls.filter settings.isModelCall).flatMap fun c =>
      ((c.result?.bind Ty.response?).map Ty.targets).getD []

theorem mem_targetsIn {n : NamedType} :
    n ∈ targetsIn settings documents ↔ Target settings documents n := by
  have response (c : Call) : n ∈ ((c.result?.bind Ty.response?).map Ty.targets).getD [] ↔
      ∃ response, c.result?.bind Ty.response? = some response ∧ n ∈ response.targets := by
    cases c.result?.bind Ty.response? <;> simp
  simp only [targetsIn, Target, List.mem_flatMap, List.mem_filter, response, and_assoc]

/-- **The search goes through the targets one by one.** -/
theorem ofDocuments_eq_foldl : ofDocuments settings mapper documents =
    (targetsIn settings documents).foldl (addTarget mapper) {} := by
  have call : addCall settings mapper = fun f c => if settings.isModelCall c then
      (((c.result?.bind Ty.response?).map Ty.targets).getD []).foldl (addTarget mapper) f
      else f := by
    funext f c
    rw [addCall]
    cases c.result?.bind Ty.response? <;> rfl
  have document : addDocument settings mapper = fun f d =>
      if d.imports.any settings.isProviderImport then
        ((d.calls.filter settings.isModelCall).flatMap fun c =>
          ((c.result?.bind Ty.response?).map Ty.targets).getD []).foldl (addTarget mapper) f
      else f := by
    funext f d
    rw [addDocument, List.foldl_flatMap, List.foldl_filter, call]
  rw [ofDocuments, targetsIn, List.foldl_flatMap, List.foldl_filter, document]

/-! ## Steps of the search -/

/-- The identifiers that have a text or a failure. -/
def names (f : Findings) : List String :=
  f.cache.entries.names ++ f.failures.names

theorem mem_names {f : Findings} {name : String} :
    name ∈ f.names ↔ name ∈ f.cache.entries.names ∨ name ∈ f.failures.names :=
  List.mem_append

/-- **What a step does**: the first time that an identifier occurs, it gets a text or a failure. -/
theorem addTarget_eq (f : Findings) (n : NamedType) : f.addTarget mapper n =
    if n.identifier ∈ f.names then f
    else
      match mapper n >>= Schema.textOfRaw with
      | .ok text => { f with cache := ⟨f.cache.entries ++ [(n.identifier, text)]⟩ }
      | .error e => { f with failures := f.failures ++ [(n.identifier, e)] } := by
  by_cases hfailed : n.identifier ∈ f.failures.names
  · rw [addTarget, if_pos (show n.identifier ∈ f.failures.map Prod.fst from hfailed),
      if_pos (mem_names.2 (.inr hfailed))]
  · rw [addTarget, if_neg (show n.identifier ∉ f.failures.map Prod.fst from hfailed),
      SchemaCache.fetch]
    cases hget : f.cache.get? n.identifier with
    | some text =>
      have hcached : n.identifier ∈ f.cache.entries.names := by
        by_contra hno
        rw [SchemaCache.get?, Entries.lookup_eq_none_iff.2 hno] at hget
        cases hget
      rw [if_pos (mem_names.2 (.inl hcached))]
    | none =>
      have hcached : n.identifier ∉ f.cache.entries.names := Entries.lookup_eq_none_iff.1 hget
      rw [if_neg fun h => (mem_names.1 h).elim hcached hfailed]
      cases mapper n >>= Schema.textOfRaw <;> rfl

theorem addTarget_of_ok {f : Findings} {n : NamedType} {text : String}
    (hnew : n.identifier ∉ f.names) (h : mapper n >>= Schema.textOfRaw = .ok text) :
    f.addTarget mapper n = { f with cache := ⟨f.cache.entries ++ [(n.identifier, text)]⟩ } := by
  rw [addTarget_eq, if_neg hnew, h]

theorem addCall_of_named {f : Findings} {c : Call} {n : NamedType} (hcall : settings.isModelCall c)
    (hresult : c.result? = some n.toTy) (herror : n.referred.isError = false) :
    f.addCall settings mapper c = f.addTarget mapper n := by
  have response : c.result?.bind Ty.response? = some n.toTy := by
    have : n.toTy.isError = false := herror
    simp [hresult, NamedType.toTy, Ty.response?, Ty.isError_named, herror]
  rw [addCall, if_pos hcall, response]
  rfl

theorem addDocument_of_provider {f : Findings} {d : Document}
    (h : d.imports.any settings.isProviderImport) :
    f.addDocument settings mapper d = d.calls.foldl (addCall settings mapper) f := by
  rw [addDocument, if_pos h]

/-! ## Documents that look the same -/

theorem addDocument_congr {d d' : Document} (hcalls : d'.calls = d.calls)
    (himports : d'.imports.any settings.isProviderImport = d.imports.any settings.isProviderImport)
    (f : Findings) : addDocument settings mapper f d' = addDocument settings mapper f d := by
  rw [addDocument, addDocument, hcalls, himports]

/-- The search sees of documents their calls and whether they import the provider. -/
theorem ofDocuments_congr {documents' : List Document}
    (h : List.Forall₂ (fun d d' : Document => d'.calls = d.calls ∧
      d'.imports.any settings.isProviderImport = d.imports.any settings.isProviderImport)
      documents documents') :
    ofDocuments settings mapper documents' = ofDocuments settings mapper documents := by
  rw [ofDocuments, ofDocuments]
  generalize ({} : Findings) = f
  induction h generalizing f with
  | nil => rfl
  | cons hd _ ih => rw [List.foldl_cons, List.foldl_cons, addDocument_congr hd.1 hd.2, ih]

end Findings

/-! ## Documents of model calls -/

/-- A model call with a name as its result. -/
def Settings.modelCall (settings : Settings) (n : NamedType) : Call where
  method := settings.generateMethod
  receiver? := some
    { ownClass := ⟨⟨settings.providerModule.org, settings.providerModule.name,
        settings.providerVersion⟩, settings.providerClass⟩ }
  result? := some n.toTy

/-- The definition of a name, without annotations. -/
def TypeDefinition.ofNamed (n : NamedType) : TypeDefinition :=
  ⟨n.identifier, n.referred, []⟩

/-- A document that imports the provider and has model calls with names as results. -/
def Document.caller (settings : Settings) (id : String) (names : List NamedType) : Document :=
  ⟨id, [.ofModule settings.providerModule], [], names.map settings.modelCall⟩

theorem isModelCall_modelCall (settings : Settings) (n : NamedType) :
    settings.isModelCall (settings.modelCall n) := by
  simp [Settings.isModelCall, Settings.modelCall, Receiver.any, Settings.isProvider,
    Settings.admitsVersion]

theorem isProviderImport_ofModule (settings : Settings) :
    settings.isProviderImport (.ofModule settings.providerModule) := by
  rw [Settings.isProviderImport, Import.refersTo_ofModule]; rfl

theorem Findings.addDocument_caller {settings : Settings} {mapper : SchemaMapper} (f : Findings)
    (id : String) {names : List NamedType} (h : ∀ n ∈ names, n.referred.isError = false) :
    f.addDocument settings mapper (.caller settings id names) =
      names.foldl (addTarget mapper) f := by
  have hprovider : (Document.caller settings id names).imports.any settings.isProviderImport := by
    simp [Document.caller, isProviderImport_ofModule]
  rw [addDocument_of_provider hprovider, Document.caller, List.foldl_map]
  exact List.foldl_ext _ _ f fun f n hn =>
    addCall_of_named (isModelCall_modelCall settings n) rfl (h n hn)

/-- Beside a document that does not import the provider, the names in the calls are all. -/
theorem Findings.ofDocuments_caller {settings : Settings} {mapper : SchemaMapper} (id : String)
    {names : List NamedType} (h : ∀ n ∈ names, n.referred.isError = false) {d : Document}
    (hd : d.imports.any settings.isProviderImport = false) :
    ofDocuments settings mapper [.caller settings id names, d] =
      names.foldl (addTarget mapper) {} := by
  rw [ofDocuments, List.foldl_cons, List.foldl_cons, List.foldl_nil, addDocument_caller _ _ h,
    addDocument, if_neg (by simp [hd])]

end ResponseSchema
