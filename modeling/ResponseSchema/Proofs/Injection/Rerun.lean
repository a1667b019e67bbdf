/-
  Injection — running again.

  A run changes what the next one looks at: the imports it adds decide what
  qualifies the annotation and which documents are searched.

  `rerun_noop_iff`: every finished run leaves nothing to do iff the import that
  is added binds the default alias and is not one of the provider.
-/
import ResponseSchema.Proofs.Injection.Qualifier

namespace ResponseSchema

namespace Injector

variable {injector : Injector} {p p' : Package} {r : Report}

/-! ## Nothing is left to do -/

theorem isProviderImport_of_injected
    (hmodule : injector.settings.annotationModule ≠ injector.settings.providerModule)
    {schemas : SchemaCache} {d d' : Document} (h : injector.Injected schemas d d') :
    d'.imports.any injector.settings.isProviderImport =
      d.imports.any injector.settings.isProviderImport := by
  rcases h.imports with himports | ⟨-, himports⟩
  · rw [himports]
  · simp [himports, isProviderImport_ofModule_of_ne hmodule]

theorem dues_of_injected {schemas : SchemaCache} {ds ds' : List Document}
    (h : List.Forall₂ (fun d d' => injector.Injected schemas d d' ∧
      d'.qualifier injector.settings = d.qualifier injector.settings) ds ds')
    (hread : ∀ text ∈ injector.dues schemas ds, Readable text) :
    injector.dues schemas ds' = [] := by
  induction h with
  | nil => rfl
  | cons hd _ ih =>
    rw [dues_cons, List.forall_mem_append] at hread
    rw [dues_cons, ih hread.2, List.append_nil]
    exact duesIn_injected hd.1 hd.2 hread.1

/-- **After a run nothing is due, if the next one searches the same documents and qualifies the
    annotation in them as before.** -/
theorem duesOf_of_finished (finished : injector.Finished p r p')
    (h : List.Forall₂ (fun d d' : Document =>
      d'.qualifier injector.settings = d.qualifier injector.settings ∧
      d'.imports.any injector.settings.isProviderImport =
        d.imports.any injector.settings.isProviderImport) p.documents p'.documents) :
    injector.duesOf p' = [] := by
  have htexts : injector.textsOf p' = r.schemas := by
    rw [finished.schemas, textsOf, textsOf, Findings.ofDocuments_congr]
    exact List.Forall₂.mp (fun d d' hd hsame => ⟨hd.calls, hsame.2⟩) finished.documents h
  have hread := finished.readable
  rw [duesOf, ← finished.schemas] at hread
  rw [duesOf, htexts]
  exact dues_of_injected (List.Forall₂.mp (fun d d' hd hsame => ⟨hd, hsame.1⟩)
    finished.documents h) hread

/-- **After a run nothing is due, if the import that is added binds the default alias and is not
    one of the provider.** -/
theorem duesOf_of_run (hbinds : injector.settings.BindsDefault)
    (hmodule : injector.settings.annotationModule ≠ injector.settings.providerModule)
    (h : injector.run p = (.ok r, p')) : injector.duesOf p' = [] := by
  have finished := finished_of_run h
  exact duesOf_of_finished finished (finished.documents.imp fun d d' hd =>
    ⟨qualifier_of_injected hd hbinds, isProviderImport_of_injected hmodule hd⟩)

theorem due?_eq_none (h : injector.duesOf p = []) {d : Document} {t : TypeDefinition}
    (hd : d ∈ p.documents) (ht : t ∈ d.definitions) :
    injector.due? (injector.textsOf p) (d.qualifier injector.settings) t = none := by
  rw [duesOf, dues, List.flatMap_eq_nil_iff] at h
  exact List.filterMap_eq_nil_iff.1 (h d hd) t ht

end Injector

/-! ## A package with something left to do -/

/-- The mapper that admits every value. -/
def SchemaMapper.anything : SchemaMapper := fun _ => .ok (.bool true)

/-- A type that a model call is found for. -/
def NamedType.first : NamedType := .plain "First" .json

/-- A type that a model call is found for only if the document imports the provider. -/
def NamedType.second : NamedType := .plain "Second" .json

variable (settings : Settings)

/-- The annotation that the first type gets without an import. -/
def Annotation.ofFirst : Annotation :=
  ⟨some settings.defaultAlias, settings.annotationIdentifier, some (.object [])⟩

@[simp] theorem Annotation.refersTo_ofFirst {qualifier : String} :
    (ofFirst settings).refersTo qualifier settings.annotationIdentifier ↔
      settings.defaultAlias = qualifier := by
  simp [ofFirst]

/-- The document that defines both types, with its imports and the annotations of the first. -/
def Document.definer (imports : List Import) (annotations : List Annotation) : Document :=
  ⟨"types.bal", imports, [{ TypeDefinition.ofNamed .first with annotations := annotations },
    .ofNamed .second], [settings.modelCall .second]⟩

/-- A call for the first type in one document and both definitions in another. -/
def Package.probe : Package :=
  ⟨[⟨⟨"acme", "app", "0.1.0"⟩, [.caller settings "calls.bal" [.first], .definer settings [] []],
    []⟩], 0⟩

theorem ofDocuments_definer {imports : List Import} (annotations : List Annotation)
    (himports : imports.any settings.isProviderImport = false) :
    Findings.ofDocuments settings .anything [.caller settings "calls.bal" [.first],
      .definer settings imports annotations] = ⟨⟨[("First", Schema.empty.compact)]⟩, []⟩ := by
  rw [Findings.ofDocuments_caller _ (List.forall_mem_singleton.2 rfl) himports]
  rfl

theorem ofDocuments_definer_of_provider {imports : List Import} (annotations : List Annotation)
    (himports : imports.any settings.isProviderImport) :
    Findings.ofDocuments settings .anything [.caller settings "calls.bal" [.first],
      .definer settings imports annotations] =
        ⟨⟨[("First", Schema.empty.compact), ("Second", Schema.empty.compact)]⟩, []⟩ := by
  rw [Findings.ofDocuments, List.foldl_cons, List.foldl_cons, List.foldl_nil,
    Findings.addDocument_caller _ _ (List.forall_mem_singleton.2 rfl),
    Findings.addDocument_of_provider himports, Document.definer, List.foldl_cons, List.foldl_nil,
    Findings.addCall_of_named (isModelCall_modelCall settings .second) rfl rfl]
  rfl

theorem textsOf_probe : Injector.textsOf ⟨settings, .anything⟩ (.probe settings) =
    ⟨[("First", Schema.empty.compact)]⟩ :=
  congrArg Findings.cache (ofDocuments_definer settings [] rfl)

/-- The first run annotates the first type and imports the annotation module beside it. -/
theorem run_probe : ∃ r p', Injector.run ⟨settings, .anything⟩ (.probe settings) = (.ok r, p') ∧
    p'.documents = [.caller settings "calls.bal" [.first],
      .definer settings [.ofModule settings.annotationModule] [.ofFirst settings]] := by
  have hdues : Injector.duesOf ⟨settings, .anything⟩ (.probe settings) =
      [Schema.empty.compact] := by
    rw [Injector.duesOf, textsOf_probe]; rfl
  have hread := Injector.readable_of_duesOf_eq hdues (by decide)
  have hfirst : Injector.annotated ⟨settings, .anything⟩ ⟨[("First", Schema.empty.compact)]⟩
      settings.defaultAlias (.ofNamed .first) =
        { TypeDefinition.ofNamed .first with annotations := [.ofFirst settings] } :=
    Injector.annotated_of_due rfl (Schema.read_compact .empty)
  have hdocuments : (Package.probe settings).documents.map
      (Injector.annotatedIn ⟨settings, .anything⟩ ⟨[("First", Schema.empty.compact)]⟩) =
        [.caller settings "calls.bal" [.first], .definer settings [] [.ofFirst settings]] :=
    congrArg (fun t => [Document.caller settings "calls.bal" [.first], ⟨"types.bal", [],
      [t, .ofNamed .second], [settings.modelCall .second]⟩]) hfirst
  refine ⟨_, _, Injector.run_of_readable (Nat.lt_irrefl 0) hread, ?_⟩
  rw [Injector.importing, documents_edit_fst, Injector.documents_annotating hread,
    Injector.progress_annotating hread, textsOf_probe, hdocuments]
  rfl

theorem qualifier_definer (annotations : List Annotation) {name : String}
    (h : (Import.ofModule settings.annotationModule).implicitAlias? = some name) :
    (Document.definer settings [.ofModule settings.annotationModule]
      annotations).qualifier settings = name := by
  have : (Document.definer settings [.ofModule settings.annotationModule]
      annotations).annotationAlias settings = .inScope name := by
    simp [Document.annotationAlias, Document.definer, boundAlias_ofModule h]
  rw [Document.qualifier, this]

/-- If nothing is due after the first run, the added import binds the default alias and is not
    one of the provider. -/
theorem bindsDefault_of_duesOf_eq_nil {p' : Package}
    (hdocuments : p'.documents = [.caller settings "calls.bal" [.first],
      .definer settings [.ofModule settings.annotationModule] [.ofFirst settings]])
    (h : Injector.duesOf ⟨settings, .anything⟩ p' = []) :
    settings.BindsDefault ∧ settings.annotationModule ≠ settings.providerModule := by
  obtain ⟨name, hname⟩ := Import.exists_implicitAlias_ofModule settings.annotationModule
  have hdue {t : TypeDefinition} (ht : t ∈ (Document.definer settings
      [.ofModule settings.annotationModule] [.ofFirst settings]).definitions) :=
    Injector.due?_eq_none h (by simp [hdocuments]) ht
  rw [qualifier_definer settings _ hname, Injector.textsOf, hdocuments] at hdue
  have hfirst := hdue (.head _)
  have hsecond := hdue (.tail _ (.head _))
  by_cases hmodule : settings.annotationModule = settings.providerModule
  · -- the added import is one of the provider, so the second type is found
    rw [ofDocuments_definer_of_provider _ _
      (by simp [hmodule, isProviderImport_ofModule])] at hsecond
    cases hsecond
  · have hother : settings.isProviderImport (.ofModule settings.annotationModule) = false :=
      isProviderImport_ofModule_of_ne hmodule
    rw [ofDocuments_definer _ _ (by simp [hother]), Injector.due?] at hfirst
    split at hfirst
    · next hrefers =>
      have hdefault : settings.defaultAlias = name := by
        simpa using hrefers
      exact ⟨hname.trans (congrArg some hdefault.symm), hmodule⟩
    · cases hfirst

/-- If the added import does not bind the default alias, something is due after the first run. -/
theorem duesOf_ne_nil_of_not_bindsDefault (hbinds : ¬ settings.BindsDefault) {p' : Package}
    (hdocuments : p'.documents = [.caller settings "calls.bal" [.first],
      .definer settings [.ofModule settings.annotationModule] [.ofFirst settings]]) :
    Injector.duesOf ⟨settings, .anything⟩ p' ≠ [] :=
  fun hdues => hbinds (bindsDefault_of_duesOf_eq_nil settings hdocuments hdues).1

/-! ## Running again -/

/-- **Every finished run leaves nothing to do for another one iff the import of the annotation
    module binds the default alias and is not one of the provider.** -/
theorem rerun_noop_iff : (∀ mapper p r p', Injector.run ⟨settings, mapper⟩ p = (.ok r, p') →
      ∃ r', Injector.run ⟨settings, mapper⟩ p' = (.ok r', p') ∧ r'.isNoop) ↔
    (Import.ofModule settings.annotationModule).implicitAlias? = some settings.defaultAlias ∧
      settings.annotationModule ≠ settings.providerModule := by
  constructor
  · intro h
    obtain ⟨r, p', hrun, hdocuments⟩ := run_probe settings
    obtain ⟨r', hrerun, hnoop⟩ := h .anything (.probe settings) r p' hrun
    exact bindsDefault_of_duesOf_eq_nil settings hdocuments
      ((Injector.isNoop_run_iff hrerun).1 hnoop)
  · rintro ⟨hbinds, hmodule⟩ mapper p r p' hrun
    exact Injector.run_of_duesOf_eq_nil (Injector.finished_of_run hrun).errorCount.2
      (Injector.duesOf_of_run hbinds hmodule hrun)

/-- With another default alias than the last segment of the annotation module, a second run
    annotates once more. -/
theorem rerun_other_alias : ∃ p r p',
    Injector.run ⟨{ defaultAlias := "llm" }, .anything⟩ p = (.ok r, p') ∧
      ¬ ∃ r', Injector.run ⟨{ defaultAlias := "llm" }, .anything⟩ p' = (.ok r', p') ∧
        r'.isNoop := by
  obtain ⟨r, p', hrun, hdocuments⟩ := run_probe { defaultAlias := "llm" }
  refine ⟨_, r, p', hrun, ?_⟩
  rintro ⟨r', hrerun, hnoop⟩
  exact duesOf_ne_nil_of_not_bindsDefault _ (by decide) hdocuments
    ((Injector.isNoop_run_iff hrerun).1 hnoop)

end ResponseSchema
