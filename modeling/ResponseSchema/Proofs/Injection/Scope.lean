/-
  Injection — whether the annotations of a run have their qualifier in scope.

  A run takes the qualifier from the first import of the annotation module, or else
  from the settings, before it adds imports.

  * `Document.Binds`: some import of the annotation module binds the name;
  * `imports_of_run`: the import is added to an annotated document that cannot name
    the annotation module, unless an earlier document has its identifier;
  * `binds_iff_of_run`: when the qualifier of a new annotation is bound after the
    run.
-/
import ResponseSchema.Proofs.Injection.Delivery
import ResponseSchema.Proofs.Injection.Rerun

namespace ResponseSchema

/-! ## Names in scope -/

/-- The name that an import gives its module: its alias, or else the last segment. -/
def Import.boundName? (i : Import) : Option String :=
  i.alias?.or i.implicitAlias?

theorem Import.boundName?_of_boundAlias {i : Import} {name : String}
    (h : i.boundAlias = .inScope name) : i.boundName? = some name := by
  rw [boundAlias] at h
  rw [boundName?]
  cases halias : i.alias? with
  | some binding =>
    simp only [halias] at h
    split at h
    · cases h
    · cases h; rfl
  | none =>
    cases himplicit : i.implicitAlias? with
    | some segment => simp only [halias, himplicit] at h; cases h; rfl
    | none => simp only [halias, himplicit] at h; cases h

namespace Document

variable {settings : Settings} {name : String} {d d' : Document}

/-- Some import of the annotation module binds the name. -/
def Binds (d : Document) (settings : Settings) (name : String) : Prop :=
  ∃ i ∈ d.imports, i.refersTo settings.annotationModule ∧ i.boundName? = some name

instance (d : Document) (settings : Settings) (name : String) : Decidable (d.Binds settings name) :=
  inferInstanceAs (Decidable (∃ i ∈ d.imports, _ ∧ _))

theorem binds_of_imports_eq (h : d'.imports = d.imports) :
    d'.Binds settings name ↔ d.Binds settings name := by
  rw [Binds, Binds, h]

/-- What an import of the annotation module at the end binds. -/
theorem binds_append (h : d'.imports = d.imports ++ [.ofModule settings.annotationModule]) :
    d'.Binds settings name ↔ d.Binds settings name ∨
      (Import.ofModule settings.annotationModule).implicitAlias? = some name := by
  have hbound : (Import.ofModule settings.annotationModule).boundName? =
      (Import.ofModule settings.annotationModule).implicitAlias? := rfl
  simp only [Binds, h, List.mem_append, List.mem_singleton, or_and_right, exists_or,
    exists_eq_left, Import.refersTo_ofModule, hbound, true_and]

/-- A name that is in scope is bound. -/
theorem binds_of_inScope (h : d.annotationAlias settings = .inScope name) :
    d.Binds settings name := by
  rw [annotationAlias] at h
  split at h
  · next i hfind =>
    have hrefers := List.find?_some hfind
    exact ⟨i, List.mem_of_find?_eq_some hfind, hrefers, Import.boundName?_of_boundAlias h⟩
  · cases h

end Document

/-! ## Names after a run -/

namespace Injector

variable {injector : Injector} {p p' : Package} {r : Report} {k j : Nat} {d d' : Document}
  {t t' : TypeDefinition}

/-- **An annotated document gets the import iff it cannot name the annotation module and no
    earlier document has its identifier.** -/
theorem imports_of_run (h : injector.run p = (.ok r, p')) (hd : p.documents[k]? = some d)
    (hd' : p'.documents[k]? = some d') (hdue : injector.duesIn (injector.textsOf p) d ≠ []) :
    d'.imports = if d.annotationAlias injector.settings = .absent ∧
        ∀ e ∈ p.documents.take k, e.id ≠ d.id
      then d.imports ++ [.ofModule injector.settings.annotationModule] else d.imports := by
  rw [importedIn_of_run h hd hd']
  refine if_congr (and_congr_right fun _ => and_iff_left ?_) rfl rfl
  exact ⟨d, List.mem_of_getElem? hd, hdue, rfl⟩

/-- A new annotation has the qualifier of the document before the run, and a text was due. -/
theorem qualifier_of_new_annotation (h : injector.run p = (.ok r, p'))
    (hd : p.documents[k]? = some d) (hd' : p'.documents[k]? = some d')
    (ht : d.definitions[j]? = some t) (ht' : d'.definitions[j]? = some t') {a : Annotation}
    (ha : a ∈ t'.annotations.drop t.annotations.length) :
    a.qualifier? = some (d.qualifier injector.settings) ∧
      injector.duesIn (injector.textsOf p) d ≠ [] := by
  have finished := finished_of_run h
  have injected := forall₂_getElem? finished.documents hd hd'
  rw [injected.definitions, List.getElem?_map, ht, Option.map_some, finished.schemas] at ht'
  cases ht'
  cases hdue : injector.due? (injector.textsOf p) (d.qualifier injector.settings) t with
  | none =>
    rw [annotated_of_not_due hdue, List.drop_length] at ha
    cases ha
  | some text =>
    have hmem := List.mem_of_getElem? ht
    obtain ⟨value, hread⟩ := finished.readable text
      (mem_duesOf_iff.2 ⟨d, List.mem_of_getElem? hd, _, hmem, hdue⟩)
    rw [annotated_of_due hdue hread, annotateWith, List.drop_left, List.mem_singleton] at ha
    rw [ha]
    exact ⟨rfl, List.ne_nil_of_mem (List.mem_filterMap.2 ⟨t, hmem, hdue⟩)⟩

/-- **The qualifier of a new annotation is bound after the run** iff the first import of the
    annotation module gave it; or, where that import has the alias `_`, another one binds the
    default alias; or, without a name for the module, an import binds the default alias, be it
    the added one, which no document gets that has the identifier of an earlier one. -/
theorem binds_iff_of_run (h : injector.run p = (.ok r, p')) (hd : p.documents[k]? = some d)
    (hd' : p'.documents[k]? = some d') (ht : d.definitions[j]? = some t)
    (ht' : d'.definitions[j]? = some t') {a : Annotation}
    (ha : a ∈ t'.annotations.drop t.annotations.length) :
    a.qualifier? = some (d.qualifier injector.settings) ∧
      (d'.Binds injector.settings (d.qualifier injector.settings) ↔
        match d.annotationAlias injector.settings with
        | .inScope _ => True
        | .suppressed => d.Binds injector.settings injector.settings.defaultAlias
        | .absent => d.Binds injector.settings injector.settings.defaultAlias ∨
            injector.settings.BindsDefault ∧ ∀ e ∈ p.documents.take k, e.id ≠ d.id) := by
  obtain ⟨hqualifier, hdue⟩ := qualifier_of_new_annotation h hd hd' ht ht' ha
  have himports := imports_of_run h hd hd' hdue
  refine ⟨hqualifier, ?_⟩
  rw [Document.qualifier]
  cases halias : d.annotationAlias injector.settings with
  | inScope name =>
    rw [if_neg (by simp [halias])] at himports
    rw [Document.binds_of_imports_eq himports]
    exact iff_of_true (Document.binds_of_inScope halias) trivial
  | suppressed =>
    rw [if_neg (by simp [halias])] at himports
    exact Document.binds_of_imports_eq himports
  | absent =>
    by_cases hfirst : ∀ e ∈ p.documents.take k, e.id ≠ d.id
    · rw [if_pos ⟨halias, hfirst⟩] at himports
      rw [Document.binds_append himports]
      exact or_congr_right (and_iff_left hfirst).symm
    · rw [if_neg fun hadd => hfirst hadd.2] at himports
      rw [Document.binds_of_imports_eq himports]
      exact (or_iff_left fun hadd => hfirst hadd.2).symm

/-- The annotation of the first type of the probing package is in scope. -/
theorem binds_first_of_probe : ∃ r p' d' t',
    Injector.run ⟨{}, .anything⟩ (.probe {}) = (.ok r, p') ∧ p'.documents[1]? = some d' ∧
      d'.definitions[0]? = some t' ∧ t'.annotations = [.ofFirst {}] ∧ d'.Binds {} "ai" := by
  obtain ⟨r, p', hrun, hdocuments⟩ := run_probe {}
  have hd : (Package.probe {}).documents[1]? = some (.definer {} [] []) := rfl
  have hd' : p'.documents[1]? =
      some (.definer {} [.ofModule ⟨"ballerina", "ai"⟩] [.ofFirst {}]) := by
    rw [hdocuments]; rfl
  have ht : (Document.definer {} [] []).definitions[0]? = some (.ofNamed .first) := rfl
  refine ⟨r, p', _, _, hrun, hd', rfl, rfl, ?_⟩
  have hbinds := (binds_iff_of_run hrun hd hd' ht rfl (List.mem_singleton_self _)).2
  exact hbinds.2 (.inr ⟨by decide, by decide⟩)

end Injector

/-- With another default alias than the last segment of the annotation module, a document without
    imports gets an annotation whose qualifier no import binds. -/
theorem unbound_other_alias :
    let settings : Settings := { defaultAlias := "llm" }
    ∃ p r p' d d' t t' a, Injector.run ⟨settings, .anything⟩ p = (.ok r, p') ∧
      p.documents[1]? = some d ∧ p'.documents[1]? = some d' ∧
      d.definitions[0]? = some t ∧ d'.definitions[0]? = some t' ∧
      a ∈ t'.annotations.drop t.annotations.length ∧ a.qualifier? = some "llm" ∧
      d.imports = [] ∧ d'.imports = [.ofModule ⟨"ballerina", "ai"⟩] ∧
      ¬ d'.Binds settings "llm" := by
  intro settings
  obtain ⟨r, p', hrun, hdocuments⟩ := run_probe settings
  have hd' : p'.documents[1]? =
      some (.definer settings [.ofModule ⟨"ballerina", "ai"⟩] [.ofFirst settings]) := by
    rw [hdocuments]; rfl
  exact ⟨_, r, p', _, _, _, _, .ofFirst settings, hrun, rfl, hd', rfl, rfl,
    List.mem_singleton_self _, rfl, rfl, rfl, by decide⟩

end ResponseSchema
