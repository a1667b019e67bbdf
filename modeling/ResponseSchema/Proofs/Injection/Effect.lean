/-
  Injection — what a run changes, and that it changes nothing else.

  * `MayAnnotate`: a definition has got at most the annotation of its text;
    `Annotates`: it has got it exactly if it was cached and not there;
  * `Effect`: what a finished run has made of a package, and that its report lists
    what has changed (`annotatedSince`, `importedSince`);
  * `PartialEffect`: what a run may have made of a package before it failed;
  * `run_effect`: every run has one of these effects.
-/
import ResponseSchema.Proofs.Injection.Outcome

namespace ResponseSchema

namespace Injector

variable (injector : Injector) (schemas : SchemaCache)

/-! ## Effects -/

/-- At most one annotation has been appended to the definition: with the value of the text that
    the cache has for its name, where no annotation with the qualifier and the identifier was. -/
structure MayAnnotate (qualifier : String) (t t' : TypeDefinition) : Prop where
  name : t'.name = t.name
  type : t'.type = t.type
  annotations : t'.annotations = t.annotations ∨
    ∃ text value, schemas.get? t.name = some text ∧
      (∀ a ∈ t.annotations, ¬ a.refersTo qualifier injector.settings.annotationIdentifier) ∧
      Json.read text = .ok value ∧ t'.annotations =
        t.annotations ++ [⟨some qualifier, injector.settings.annotationIdentifier, some value⟩]

/-- The annotation has been appended exactly if the name is cached and no annotation with the
    qualifier and the identifier was there. -/
structure Annotates (qualifier : String) (t t' : TypeDefinition) : Prop extends
    injector.MayAnnotate schemas qualifier t t' where
  changed : t'.annotations ≠ t.annotations ↔ schemas.contains t.name ∧
    ∀ a ∈ t.annotations, ¬ a.refersTo qualifier injector.settings.annotationIdentifier

/-- What a finished run has made of a document; the qualifier is that of the document before. -/
structure DocumentEffect (d d' : Document) : Prop where
  id : d'.id = d.id
  calls : d'.calls = d.calls
  imports : d'.imports = d.imports ∨
    d'.imports = d.imports ++ [.ofModule injector.settings.annotationModule]
  definitions : List.Forall₂ (injector.Annotates schemas (d.qualifier injector.settings))
    d.definitions d'.definitions

/-- What a failed run may have made of a document. -/
structure DocumentPartialEffect (d d' : Document) : Prop where
  id : d'.id = d.id
  calls : d'.calls = d.calls
  imports : d'.imports = d.imports
  definitions : List.Forall₂ (injector.MayAnnotate schemas (d.qualifier injector.settings))
    d.definitions d'.definitions

/-- The definitions of a document whose annotations differ. -/
def changedIn (d d' : Document) : List AnnotatedDefinition :=
  ((d.definitions.zip d'.definitions).filter fun e => e.1.annotations ≠ e.2.annotations).map
    (⟨d.id, ·.1.name⟩)

/-- The definitions whose annotations differ, in the order of the documents. -/
def annotatedSince (before after : List Document) : List AnnotatedDefinition :=
  (List.zipWith changedIn before after).flatten

/-- What a finished run has made of a package, and how it reports it. -/
structure Effect (p : Package) (r : Report) (p' : Package) : Prop extends
    p.Related (injector.DocumentEffect r.schemas) p' where
  annotated : r.annotated = annotatedSince p.documents p'.documents
  importsAdded : r.importsAdded = importedSince p.documents p'.documents
  isNoop : r.isNoop ↔ p' = p

/-- What a failed run may have made of a package: annotations with the texts found in it. -/
def PartialEffect (p p' : Package) : Prop :=
  p.Related (injector.DocumentPartialEffect (injector.textsOf p)) p'

variable {injector schemas} {qualifier : String} {t t' : TypeDefinition} {d d' : Document}
  {p p' : Package} {r : Report}

/-! ## Definitions -/

theorem isSome_due?_iff : (injector.due? schemas qualifier t).isSome ↔ schemas.contains t.name ∧
    ∀ a ∈ t.annotations, ¬ a.refersTo qualifier injector.settings.annotationIdentifier := by
  simp only [Option.isSome_iff_exists, due?_eq_some_iff, exists_and_right, SchemaCache.contains]

theorem MayAnnotate.refl (t : TypeDefinition) : injector.MayAnnotate schemas qualifier t t :=
  ⟨rfl, rfl, .inl rfl⟩

theorem mayAnnotate_annotateWith {text : String} {value : Json}
    (hdue : injector.due? schemas qualifier t = some text) (hread : Json.read text = .ok value) :
    injector.MayAnnotate schemas qualifier t (injector.annotateWith qualifier t value) := by
  obtain ⟨hcached, hnone⟩ := due?_eq_some_iff.1 hdue
  exact ⟨rfl, rfl, .inr ⟨text, value, hcached, hnone, hread, rfl⟩⟩

/-- A step over the definitions of a document, whether it fails or not. -/
theorem mayAnnotate_annotateDefinition (progress : DefinitionProgress) (t : TypeDefinition) :
    injector.MayAnnotate schemas qualifier t
      (injector.annotateDefinition qualifier schemas progress t).1 := by
  cases hp : progress.fault? with
  | some e =>
    rw [annotateDefinition_of_fault (by simp [hp])]
    exact .refl t
  | none =>
    rcases annotateDefinition_cases progress hp t with
      ⟨-, hstep⟩ | ⟨text, value, hdue, hread, hstep⟩ | ⟨text, fault, -, -, hstep⟩
    · rw [hstep]; exact .refl t
    · rw [hstep]; exact mayAnnotate_annotateWith hdue hread
    · rw [hstep]; exact .refl t

/-- Where the text that is due reads, nothing less is done. -/
theorem annotates_annotated
    (h : ∀ text, injector.due? schemas qualifier t = some text → Readable text) :
    injector.Annotates schemas qualifier t (injector.annotated schemas qualifier t) := by
  cases hdue : injector.due? schemas qualifier t with
  | none =>
    rw [annotated_of_not_due hdue]
    refine ⟨.refl t, iff_of_false (fun hne => hne rfl) fun hmissing => ?_⟩
    have hsome := isSome_due?_iff.2 hmissing
    rw [hdue] at hsome
    cases hsome
  | some text =>
    obtain ⟨value, hread⟩ := h text hdue
    rw [annotated_of_due hdue hread]
    refine ⟨mayAnnotate_annotateWith hdue hread, iff_of_true ?_ ?_⟩
    · simp [annotateWith]
    · exact isSome_due?_iff.1 (by simp [hdue])

/-- Those are changed for which a text was due. -/
theorem filter_zip_of_annotates {ts ts' : List TypeDefinition}
    (h : List.Forall₂ (injector.Annotates schemas qualifier) ts ts') :
    ((ts.zip ts').filter fun e => e.1.annotations ≠ e.2.annotations).map Prod.fst =
      ts.filter fun t => (injector.due? schemas qualifier t).isSome := by
  induction h with
  | nil => rfl
  | cons ht _ ih =>
    have hchanged := ht.changed
    rw [← isSome_due?_iff, ne_comm] at hchanged
    rw [List.zip_cons_cons, List.filter_cons, List.filter_cons]
    simp only [hchanged, decide_eq_true_eq]
    split
    · rw [List.map_cons, ih]
    · exact ih

/-! ## Documents -/

theorem documentEffect_of_injected (h : injector.Injected schemas d d')
    (hread : ∀ text ∈ injector.duesIn schemas d, Readable text) :
    injector.DocumentEffect schemas d d' := by
  refine ⟨h.id, h.calls, h.imports.imp_right And.right, ?_⟩
  rw [h.definitions, List.forall₂_map_right_iff, List.forall₂_same]
  intro t ht
  refine annotates_annotated fun text htext => ?_
  exact hread text (List.mem_filterMap.2 ⟨t, ht, htext⟩)

theorem DocumentPartialEffect.refl (d : Document) :
    injector.DocumentPartialEffect schemas d d :=
  ⟨rfl, rfl, rfl, List.forall₂_same.2 fun t _ => .refl t⟩

/-- A step over the documents; where it fails in the middle of one, the rest of that stays. -/
theorem documentPartialEffect_annotate (progress : Progress) (d : Document) :
    injector.DocumentPartialEffect schemas d (injector.annotate schemas progress d).1 := by
  cases hp : progress.fault? with
  | some e =>
    rw [annotate_of_fault (by simp [hp])]
    exact .refl d
  | none =>
    rw [annotate_fst hp]
    exact ⟨rfl, rfl, rfl,
      forall₂_editList (fun t _ progress => mayAnnotate_annotateDefinition progress t) {}⟩

theorem changedIn_of_effect (h : injector.DocumentEffect schemas d d') :
    changedIn d d' = injector.listedIn schemas d := by
  rw [changedIn, listedIn, ← filter_zip_of_annotates h.definitions, List.map_map]
  rfl

/-! ## Packages -/

theorem annotatedSince_of_effect {ds ds' : List Document}
    (h : List.Forall₂ (injector.DocumentEffect schemas) ds ds') :
    annotatedSince ds ds' = ds.flatMap (injector.listedIn schemas) := by
  induction h with
  | nil => rfl
  | cons hd _ ih =>
    rw [annotatedSince] at ih
    rw [annotatedSince, List.zipWith_cons_cons, List.flatten_cons, ih, changedIn_of_effect hd,
      List.flatMap_cons]

theorem annotatedSince_self (ds : List Document) : annotatedSince ds ds = [] := by
  have unchanged (d : Document) : changedIn d d = [] := by
    simp [changedIn, List.zip_eq_zipWith, List.zipWith_self, List.filter_map, Function.comp_def]
  rw [annotatedSince, List.zipWith_self, List.flatten_eq_nil_iff, List.forall_mem_map]
  exact fun d _ => unchanged d

theorem importedSince_self (ds : List Document) : importedSince ds ds = [] := by
  simp [importedSince, List.zip_eq_zipWith, List.zipWith_self, List.filter_map, Function.comp_def]

theorem effect_of_run (h : injector.run p = (.ok r, p')) : injector.Effect p r p' := by
  have finished := finished_of_run h
  have hread : ∀ d ∈ p.documents, ∀ text ∈ injector.duesIn r.schemas d, Readable text := by
    intro d hd text htext
    rw [finished.schemas] at htext
    exact finished.readable text (List.mem_flatMap.2 ⟨d, hd, htext⟩)
  have documents : List.Forall₂ (injector.DocumentEffect r.schemas) p.documents p'.documents :=
    ((List.forall₂_and_left _ _).2 ⟨hread, finished.documents⟩).imp
      fun d d' hd => documentEffect_of_injected hd.2 hd.1
  have errorCount : p'.errorCount = p.errorCount :=
    finished.errorCount.2.trans finished.errorCount.1.symm
  have annotated : r.annotated = annotatedSince p.documents p'.documents :=
    finished.annotated.trans (annotatedSince_of_effect documents).symm
  refine ⟨⟨errorCount, finished.outline, documents⟩, annotated, finished.importsAdded, ?_⟩
  constructor
  · intro hnoop
    obtain ⟨r', hrun, -⟩ := run_of_duesOf_eq_nil finished.errorCount.1 ((isNoop_run_iff h).1 hnoop)
    rw [h, Prod.mk.injEq] at hrun
    exact hrun.2
  · -- the report lists differences, and a package does not differ from itself
    rintro rfl
    rw [Report.isNoop, annotated, finished.importsAdded, annotatedSince_self, importedSince_self]
    rfl

theorem partialEffect_of_run {e : SchemaError} (h : injector.run p = (.error e, p')) :
    injector.PartialEffect p p' := by
  rcases eq_of_run_error h with ⟨-, rfl⟩ | ⟨-, -, rfl⟩
  · exact ⟨rfl, rfl, List.forall₂_same.2 fun d _ => .refl d⟩
  · exact related_edit _ (fun d _ progress => documentPartialEffect_annotate progress d) {}

/-- **Every run has exactly the effect it reports, or fails after annotations at most.** -/
theorem run_effect (injector : Injector) (p : Package) :
    match injector.run p with
    | (.ok r, p') => injector.Effect p r p'
    | (.error _, p') => injector.PartialEffect p p' := by
  rcases h : injector.run p with ⟨_ | r, p'⟩
  · exact partialEffect_of_run h
  · exact effect_of_run h

end Injector

end ResponseSchema
