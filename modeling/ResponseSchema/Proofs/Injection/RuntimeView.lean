/-
  Injection — what the running program reads.

  The program sees the annotations of a definition as metadata, under the
  qualifier of its document, and reads the first schema among them.

  * `metadata_annotateWith`: of a definition that was due, the new annotation
    is the only metadata;
  * `annotated_of_run`: that annotation is the schema of the text itself;
  * `resolve_of_run`: so with the standard annotation the program reads for every
    definition that a run has annotated the schema that the run has found.
-/
import ResponseSchema.Proofs.Injection.Rerun
import ResponseSchema.Proofs.Schema.Lossless
import ResponseSchema.Proofs.Ty.Attached
import ResponseSchema.Ty.Resolution

namespace ResponseSchema

/-! ## Annotations as metadata -/

namespace Injector

variable {injector : Injector} {schemas : SchemaCache} {qualifier : String} {t : TypeDefinition}

/-- The metadata of a definition that was due is its new annotation. -/
theorem metadata_annotateWith {text : String} (hdue : injector.due? schemas qualifier t = some text)
    (value : Json) :
    (injector.annotateWith qualifier t value).metadata qualifier injector.settings =
      [(injector.settings.metadataKey, value)] := by
  have hnone : t.annotations.filter (·.refersTo qualifier injector.settings.annotationIdentifier) =
      [] := List.filter_eq_nil_iff.2 (due?_eq_some_iff.1 hdue).2
  rw [TypeDefinition.metadata, annotateWith, List.filter_append, hnone, List.nil_append]
  simp [Entries.ofList, Entries.insert]

/-- A finished run annotates what was due with the very schema of the text. -/
theorem annotated_of_run {p p' : Package} {r : Report} (finished : injector.Finished p r p')
    (hmapper : injector.mapper.Lawful) (hp : p.Distinct) {d : Document} (hd : d ∈ p.documents)
    (ht : t ∈ d.definitions) {text : String}
    (hdue : injector.due? (injector.textsOf p) (d.qualifier injector.settings) t = some text) :
    ∃ s : Schema, s.compact = text ∧
      injector.annotated (injector.textsOf p) (d.qualifier injector.settings) t =
        injector.annotateWith (d.qualifier injector.settings) t s.toJson := by
  obtain ⟨value, hread⟩ := finished.readable text (mem_duesOf_iff.2 ⟨_, hd, t, ht, hdue⟩)
  obtain ⟨s, rfl, hnames⟩ := Findings.namesDistinct_of_textOf hmapper hp
    (Findings.exists_of_get? (due?_eq_some_iff.1 hdue).1)
  obtain rfl := Schema.eq_toJson_of_read_compact hnames hread
  exact ⟨s, rfl, annotated_of_due hdue hread⟩

end Injector

/-- A name with a schema under the standard key, and nothing else, resolves to that schema. -/
theorem resolve_of_metadata (name : String) (type : Ty) (s : Schema) :
    (NamedType.mk name type [(schemaKey, s.toJson)]).toTy.resolve = .ok (.attached s) := by
  have hname : (NamedType.mk name type [(schemaKey, s.toJson)]).toTy.asNamed?.bind
      NamedType.attached? = some s.toJson := attachedSchema?_cons_self s []
  rw [Ty.resolve, hname]
  exact congrArg (Except.map Resolution.attached) (Schema.read_toJson s)

/-- **The running program reads the schemas that a run has found**: where the annotation is
    `JsonSchema` of `ballerina/ai` under the default alias `ai`, every definition that a run
    annotates resolves to the schema whose text the run has for its name. `Lawful` and `Distinct`
    say that the objects of the mapper and the records of the package have no name twice, as
    every object and record of the host. -/
theorem resolve_of_run {settings : Settings} {mapper : SchemaMapper} {p p' : Package} {r : Report}
    (hmodule : settings.annotationModule = ⟨"ballerina", "ai"⟩)
    (hidentifier : settings.annotationIdentifier = "JsonSchema")
    (halias : settings.defaultAlias = "ai") (hmapper : mapper.Lawful) (hp : p.Distinct)
    (hrun : Injector.run ⟨settings, mapper⟩ p = (.ok r, p')) {i j : Nat} {d d' : Document}
    {t t' : TypeDefinition} (hd : p.documents[i]? = some d) (hd' : p'.documents[i]? = some d')
    (ht : d.definitions[j]? = some t) (ht' : d'.definitions[j]? = some t')
    (hnew : t'.annotations ≠ t.annotations) :
    ∃ s, (t'.toNamed (d'.qualifier settings) settings).toTy.resolve = .ok (.attached s) ∧
      r.schemas.get? t'.name = some s.compact := by
  have finished := Injector.finished_of_run hrun
  have injected := forall₂_getElem? finished.documents hd hd'
  rw [finished.schemas] at injected ⊢
  have hbinds : settings.BindsDefault := by
    rw [Settings.BindsDefault, hmodule, halias]; decide
  have hqualifier : d'.qualifier settings = d.qualifier settings :=
    Injector.qualifier_of_injected injected hbinds
  have ht'eq : t' = Injector.annotated ⟨settings, mapper⟩ (Injector.textsOf ⟨settings, mapper⟩ p)
      (d.qualifier settings) t := by
    rw [injected.definitions, List.getElem?_map, ht] at ht'
    exact (Option.some.inj ht').symm
  cases hdue : Injector.due? ⟨settings, mapper⟩ (Injector.textsOf ⟨settings, mapper⟩ p)
      (d.qualifier settings) t with
  | none =>
    rw [Injector.annotated_of_not_due hdue] at ht'eq
    exact absurd (congrArg TypeDefinition.annotations ht'eq) hnew
  | some text =>
    obtain ⟨s, rfl, hannotated⟩ := Injector.annotated_of_run finished hmapper hp
      (List.mem_of_getElem? hd) (List.mem_of_getElem? ht) hdue
    rw [hannotated] at ht'eq
    have hkey : settings.metadataKey = schemaKey := by
      rw [Settings.metadataKey, hmodule, hidentifier]; rfl
    have hmetadata := Injector.metadata_annotateWith hdue s.toJson
    rw [hkey] at hmetadata
    have hresolve : (t'.toNamed (d'.qualifier settings) settings).toTy.resolve =
        .ok (.attached s) := by
      rw [ht'eq, hqualifier, TypeDefinition.toNamed, hmetadata]
      exact resolve_of_metadata _ _ s
    have hname : t'.name = t.name := by rw [ht'eq]; rfl
    exact ⟨s, hresolve, hname ▸ (Injector.due?_eq_some_iff.1 hdue).1⟩

/-- The first type of the probing package is annotated and resolves. -/
theorem resolve_first_of_probe : ∃ r p' d' t',
    Injector.run ⟨{}, .anything⟩ (.probe {}) = (.ok r, p') ∧ p'.documents[1]? = some d' ∧
      d'.definitions[0]? = some t' ∧ t'.annotations ≠ [] ∧
      ∃ s, (t'.toNamed (d'.qualifier {}) {}).toTy.resolve = .ok (.attached s) ∧
        r.schemas.get? t'.name = some s.compact := by
  obtain ⟨r, p', hrun, hdocuments⟩ := run_probe {}
  have hmapper : SchemaMapper.anything.Lawful := by
    intro n v _ h
    cases h
    trivial
  have hprobe : (Package.probe {}).Distinct := by
    have hcall (n : NamedType) (hn : n.referred = .json) (hm : n.metadata = []) :
        ∀ t ∈ (Settings.modelCall {} n).result?, t.Distinct := by
      rintro _ ⟨rfl⟩
      exact ⟨by rw [hn]; trivial, by simp [hm]⟩
    rw [Package.Distinct]
    show ∀ d ∈ [Document.caller {} "calls.bal" [.first], .definer {} [] []], _
    simpa [Document.caller, Document.definer] using
      ⟨hcall .first rfl rfl, hcall .second rfl rfl⟩
  have hd : (Package.probe {}).documents[1]? = some (.definer {} [] []) := rfl
  have hd' : p'.documents[1]? =
      some (.definer {} [.ofModule ⟨"ballerina", "ai"⟩] [.ofFirst {}]) := by
    rw [hdocuments]; rfl
  have ht : (Document.definer {} [] []).definitions[0]? = some (.ofNamed .first) := rfl
  refine ⟨r, p', _, _, hrun, hd', rfl, List.cons_ne_nil _ _, ?_⟩
  exact resolve_of_run rfl rfl rfl hmapper hprobe hrun hd hd' ht rfl (List.cons_ne_nil _ _)

end ResponseSchema
