/-
  Injection — how a run ends.

  * `duesOf`: the texts that a package is due when a run looks at it;
  * `run_error_iff`: a run fails iff the build has errors or a text that is due
    does not read; `run_of_readable`: any other run finishes;
  * `eq_of_run_error`: what a failed run leaves is the package itself, or what the
    annotating pass has made of it;
  * `Injected`: what a finished run has made of a document, and `finished_of_run`,
    that it has made this of every document and reports it;
  * `firstOutcomes_of_search`: what a run finds for its targets, and reports;
  * `isNoop_run_iff`: a finished run has done nothing iff nothing was due, and has
    left the package as it was then (`run_of_duesOf_eq_nil`).
-/
import ResponseSchema.Proofs.Injection.Importing
import ResponseSchema.Proofs.Injection.Texts

namespace ResponseSchema

namespace Injector

variable (injector : Injector)

/-- The texts that a run over the package finds. -/
def textsOf (p : Package) : SchemaCache :=
  (Findings.ofDocuments injector.settings injector.mapper p.documents).cache

/-- The texts that are due in a package when a run looks at it. -/
def duesOf (p : Package) : List String :=
  injector.dues (injector.textsOf p) p.documents

/-- The package as the annotating pass leaves it, and how far the pass has come. -/
def annotating (p : Package) : Package × Progress :=
  p.edit (injector.annotate (injector.textsOf p)) {}

/-- The package as the importing pass leaves it, with the documents that still wait for an import
    and those that got one. -/
def importing (p : Package) : Package × PendingImports × List String :=
  (injector.annotating p).1.edit injector.addImport ((injector.annotating p).2.pending, [])

/-- What a finished run has made of a document: every text that was due is an annotation, and
    the annotation module may have been imported where it could not be named. -/
structure Injected (schemas : SchemaCache) (d d' : Document) : Prop where
  id : d'.id = d.id
  definitions : d'.definitions =
    d.definitions.map (injector.annotated schemas (d.qualifier injector.settings))
  calls : d'.calls = d.calls
  imports : d'.imports = d.imports ∨ d.annotationAlias injector.settings = .absent ∧
    d'.imports = d.imports ++ [.ofModule injector.settings.annotationModule]

variable {injector} {p : Package}

theorem mem_duesOf_iff {text : String} : text ∈ injector.duesOf p ↔
    ∃ d ∈ p.documents, ∃ t ∈ d.definitions,
      injector.due? (injector.textsOf p) (d.qualifier injector.settings) t = some text := by
  simp only [duesOf, dues, duesIn, List.mem_flatMap, List.mem_filterMap]

theorem readable_compact_iff (s : Schema) :
    Readable s.compact ↔ s.toJson.depth ≤ Json.maxDepth := by
  rw [Readable, Schema.read_compact]
  split
  · next h => simp [h]
  · next h => simp [h]

/-- If all that is due is the text of one schema, not too deep, every text reads. -/
theorem readable_of_duesOf_eq {s : Schema} (h : injector.duesOf p = [s.compact])
    (hdepth : s.toJson.depth ≤ Json.maxDepth) : ∀ text ∈ injector.duesOf p, Readable text := by
  rw [h, List.forall_mem_singleton]
  exact (readable_compact_iff s).2 hdepth

/-! ## Runs that fail -/

theorem run_of_errors (h : 0 < p.errorCount) :
    injector.run p = (.error (.aborted p.errorCount), p) := by
  rw [run, if_pos h]

theorem fault?_annotating : (injector.annotating p).2.fault? =
    (injector.duesOf p).findSome? unreadable? := by
  rw [annotating, edit_snd, fault?_annotate _ _ rfl, duesOf]

theorem fault?_annotating_iff :
    (injector.annotating p).2.fault? = none ↔ ∀ text ∈ injector.duesOf p, Readable text := by
  rw [fault?_annotating, findSome?_unreadable?_eq_none_iff]

/-- The first text that does not read makes the run fail. -/
theorem run_of_unreadable {e : SchemaError} (h0 : ¬ 0 < p.errorCount)
    (h : (injector.duesOf p).findSome? unreadable? = some e) :
    injector.run p = (.error e, (injector.annotating p).1) := by
  rw [← fault?_annotating, annotating, textsOf] at h
  rw [run, if_neg h0]
  simp only [h]
  rfl

theorem run_of_not_readable (h0 : ¬ 0 < p.errorCount)
    (h : ∃ text ∈ injector.duesOf p, ¬ Readable text) :
    ∃ e, injector.run p = (.error e, (injector.annotating p).1) := by
  obtain ⟨e, he⟩ := exists_findSome?_unreadable?_iff.2 h
  exact ⟨e, run_of_unreadable h0 he⟩

/-! ## Runs that finish -/

theorem run_of_readable (h0 : ¬ 0 < p.errorCount) (h : ∀ text ∈ injector.duesOf p, Readable text) :
    injector.run p =
      (.ok ⟨injector.textsOf p, (injector.annotating p).2.annotated, (injector.importing p).2.2,
        (Findings.ofDocuments injector.settings injector.mapper p.documents).failures⟩,
        (injector.importing p).1) := by
  have hfault := fault?_annotating_iff.2 h
  rw [annotating, textsOf] at hfault
  rw [run, if_neg h0]
  simp only [hfault]
  rfl

/-- **A run fails iff the build has errors or a text that is due does not read.** -/
theorem run_error_iff : (∃ e p', injector.run p = (.error e, p')) ↔
    0 < p.errorCount ∨ ∃ text ∈ injector.duesOf p, ¬ Readable text := by
  constructor
  · rintro ⟨e, p', h⟩
    by_contra hno
    rw [not_or] at hno
    rw [run_of_readable hno.1 (by simpa using hno.2)] at h
    cases h
  · intro h
    by_cases h0 : 0 < p.errorCount
    · exact ⟨_, _, run_of_errors h0⟩
    · obtain ⟨e, he⟩ := run_of_not_readable h0 (h.resolve_left h0)
      exact ⟨e, _, he⟩

/-- A failed run has done nothing, or what the annotating pass has done until its fault. -/
theorem eq_of_run_error {e : SchemaError} {p' : Package} (h : injector.run p = (.error e, p')) :
    0 < p.errorCount ∧ p' = p ∨
      ¬ 0 < p.errorCount ∧ (∃ text ∈ injector.duesOf p, ¬ Readable text) ∧
        p' = (injector.annotating p).1 := by
  by_cases h0 : 0 < p.errorCount
  · rw [run_of_errors h0, Prod.mk.injEq] at h
    exact .inl ⟨h0, h.2.symm⟩
  · have hread := (run_error_iff.1 ⟨e, p', h⟩).resolve_left h0
    obtain ⟨e', he'⟩ := run_of_not_readable h0 hread
    rw [he', Prod.mk.injEq] at h
    exact .inr ⟨h0, hread, h.2.symm⟩

theorem documents_annotating (h : ∀ text ∈ injector.duesOf p, Readable text) :
    (injector.annotating p).1.documents =
      p.documents.map (injector.annotatedIn (injector.textsOf p)) := by
  rw [annotating, documents_edit_fst, editList_annotate_of_readable _ _ rfl h]

theorem progress_annotating (h : ∀ text ∈ injector.duesOf p, Readable text) :
    (injector.annotating p).2 =
      p.documents.foldl (injector.progressAfter (injector.textsOf p)) {} := by
  rw [annotating, edit_snd, editList_annotate_of_readable _ _ rfl h]

theorem injected_addImport (schemas : SchemaCache) (state : PendingImports × List String)
    (d : Document) : injector.Injected schemas d
      (injector.addImport state (injector.annotatedIn schemas d)).1 := by
  rcases @addImport_imports injector state (injector.annotatedIn schemas d) with
    h | ⟨habsent, h⟩
  · rw [h]
    exact ⟨rfl, rfl, rfl, .inl rfl⟩
  · rw [h]
    exact ⟨rfl, rfl, rfl, .inr ⟨habsent, rfl⟩⟩

/-- What is known of a run that has finished. -/
structure Finished (injector : Injector) (p : Package) (r : Report) (p' : Package) : Prop where
  errorCount : p.errorCount = 0 ∧ p'.errorCount = 0
  readable : ∀ text ∈ injector.duesOf p, Readable text
  schemas : r.schemas = injector.textsOf p
  outline : p'.outline = p.outline
  documents : List.Forall₂ (injector.Injected r.schemas) p.documents p'.documents
  annotated : r.annotated = p.documents.flatMap (injector.listedIn r.schemas)
  importsAdded : r.importsAdded = importedSince p.documents p'.documents

/-- **Only packages without errors in which every text that is due reads let a run finish, and
    then it has injected every document and says so.** -/
theorem finished_of_run {r : Report} {p' : Package} (h : injector.run p = (.ok r, p')) :
    injector.Finished p r p' := by
  have hno : ¬ ∃ e p', injector.run p = (.error e, p') := by
    rintro ⟨e, p'', he⟩
    rw [h] at he
    cases he
  rw [run_error_iff, not_or] at hno
  have hread : ∀ text ∈ injector.duesOf p, Readable text := by
    intro text htext
    by_contra hread
    exact hno.2 ⟨text, htext, hread⟩
  rw [run_of_readable hno.1 hread, Prod.mk.injEq, Except.ok.injEq] at h
  obtain ⟨rfl, rfl⟩ := h
  have h0 : p.errorCount = 0 := Nat.eq_zero_of_not_pos hno.1
  refine ⟨⟨h0, h0⟩, hread, rfl, ?_, ?_, ?_, ?_⟩
  · rw [importing, outline_edit, annotating, outline_edit]
  · rw [importing, documents_edit_fst, documents_annotating hread]
    exact forall₂_editList_map (fun d _ state => injected_addImport _ state d) _
  · rw [progress_annotating hread, annotated_foldl_progressAfter]
    rfl
  · rw [importing, edit_snd, documents_edit_fst, editList_addImport_added,
      documents_annotating hread,
      importedSince_map (f := injector.annotatedIn _) fun d => ⟨rfl, rfl⟩]
    rfl

/-- A finished run reports what the search has found. -/
theorem reported_of_run {r : Report} {p' : Package} (h : injector.run p = (.ok r, p')) :
    ⟨r.schemas, r.failures⟩ = Findings.ofDocuments injector.settings injector.mapper p.documents := by
  have finished := finished_of_run h
  rw [run_of_readable (by simp [finished.errorCount.1]) finished.readable, Prod.mk.injEq,
    Except.ok.injEq] at h
  obtain ⟨rfl, -⟩ := h
  rfl

/-- **What the search finds, and a finished run reports, are the outcomes of the first
    occurrences of the targets.** -/
theorem firstOutcomes_of_search (injector : Injector) (p : Package) :
    Findings.FirstOutcomes injector.mapper (Findings.targetsIn injector.settings p.documents)
        (Findings.ofDocuments injector.settings injector.mapper p.documents) ∧
      ∀ r p', injector.run p = (.ok r, p') → ⟨r.schemas, r.failures⟩ =
        Findings.ofDocuments injector.settings injector.mapper p.documents :=
  ⟨Findings.firstOutcomes_ofDocuments, fun _ _ h => reported_of_run h⟩

/-! ## Runs with nothing to do -/

theorem flatMap_listedIn_eq_nil_iff {schemas : SchemaCache} (ds : List Document) :
    ds.flatMap (injector.listedIn schemas) = [] ↔ injector.dues schemas ds = [] := by
  simp only [dues, List.flatMap_eq_nil_iff, listedIn_eq_nil_iff]

theorem foldl_progressAfter_of_dues_eq_nil {schemas : SchemaCache} : ∀ {ds : List Document},
    injector.dues schemas ds = [] → ∀ progress : Progress,
    ds.foldl (injector.progressAfter schemas) progress = progress
  | [], _, _ => rfl
  | d :: ds, h, progress => by
    rw [dues_cons, List.append_eq_nil_iff] at h
    rw [List.foldl_cons, progressAfter, if_pos h.1, foldl_progressAfter_of_dues_eq_nil h.2]

theorem annotating_of_duesOf_eq_nil (h : injector.duesOf p = []) :
    injector.annotating p = (p, {}) := by
  refine Prod.ext ?_ ?_
  · rw [annotating, edit_eq_self_iff, editList_annotate_eq_self_iff _ _ rfl, ← duesOf, h]
    simp
  · rw [progress_annotating (by simp [h])]
    exact foldl_progressAfter_of_dues_eq_nil h {}

/-- **With nothing due a run finishes and does nothing.** -/
theorem run_of_duesOf_eq_nil (h0 : p.errorCount = 0) (h : injector.duesOf p = []) :
    ∃ r, injector.run p = (.ok r, p) ∧ r.isNoop := by
  have stopped (d : Document) : injector.addImport ({}, []) d = (d, {}, []) := by
    simp [addImport, PendingImports.take]
  have himport : p.edit injector.addImport ({}, []) = (p, {}, []) := by
    refine Prod.ext ?_ ?_
    · rw [edit_eq_self_iff, editList_of_stopped stopped]
    · rw [edit_snd, editList_of_stopped stopped]
  have hrun := @run_of_readable injector p (by omega) (by simp [h])
  simp only [importing, annotating_of_duesOf_eq_nil h, himport] at hrun
  exact ⟨_, hrun, rfl⟩

/-- **A finished run has done nothing iff nothing was due.** -/
theorem isNoop_run_iff {r : Report} {p' : Package} (h : injector.run p = (.ok r, p')) :
    r.isNoop ↔ injector.duesOf p = [] := by
  have finished := finished_of_run h
  constructor
  · intro hnoop
    simp only [Report.isNoop, Bool.and_eq_true, List.isEmpty_iff] at hnoop
    have hannotated := finished.annotated.symm.trans hnoop.1
    rwa [finished.schemas, flatMap_listedIn_eq_nil_iff] at hannotated
  · intro hdues
    obtain ⟨r', hrun, hnoop⟩ := run_of_duesOf_eq_nil finished.errorCount.1 hdues
    rw [hrun, Prod.mk.injEq, Except.ok.injEq] at h
    exact h.1 ▸ hnoop

end Injector

end ResponseSchema
