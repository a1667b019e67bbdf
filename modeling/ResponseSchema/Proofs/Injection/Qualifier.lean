/-
  Injection — the qualifier of the annotation before and after a run.

  A run qualifies its annotations before it adds imports.  `BindsDefault`: an
  added import gives the annotation module its default alias; then the qualifier
  of a document is the same afterwards (`qualifier_of_injected`).

  * `annotationAlias_append`: what an import at the end changes;
  * `due?_annotated`: under the same qualifier an annotated definition is not due
    again.
-/
import ResponseSchema.Proofs.Injection.Outcome

namespace ResponseSchema

theorem Import.refersTo_ofModule_iff (m n : ModuleRef) : (ofModule m).refersTo n ↔ m = n := by
  obtain ⟨org, name⟩ := m
  obtain ⟨org', name'⟩ := n
  simp [refersTo, ofModule, ofPath, modulePath, Function.comp_def, joinPath_splitPath]

theorem isProviderImport_ofModule_of_ne {settings : Settings}
    (h : settings.annotationModule ≠ settings.providerModule) :
    settings.isProviderImport (.ofModule settings.annotationModule) = false := by
  rw [Settings.isProviderImport, Bool.and_eq_false_iff]
  exact .inl (Bool.eq_false_iff.2 fun hm => h ((Import.refersTo_ofModule_iff _ _).1 hm))

theorem Import.exists_implicitAlias_ofModule (m : ModuleRef) :
    ∃ name, (ofModule m).implicitAlias? = some name := by
  have h : (splitPath m.name.toList).map String.ofList ≠ [] := by
    simp [splitPath_ne_nil]
  exact ⟨_, List.getLast?_eq_some_getLast h⟩

/-- The import of the annotation module binds the default alias. -/
def Settings.BindsDefault (settings : Settings) : Prop :=
  (Import.ofModule settings.annotationModule).implicitAlias? = some settings.defaultAlias

instance (settings : Settings) : Decidable settings.BindsDefault :=
  inferInstanceAs (Decidable (_ = _))

/-! ## Aliases -/

variable {settings : Settings} {d d' : Document}

/-- An import of the annotation module at the end counts where there is no other. -/
theorem annotationAlias_append
    (himports : d'.imports = d.imports ++ [.ofModule settings.annotationModule]) :
    d'.annotationAlias settings = d.annotationAlias settings ∨
      d'.annotationAlias settings = (Import.ofModule settings.annotationModule).boundAlias := by
  rw [Document.annotationAlias, Document.annotationAlias, himports, List.find?_append]
  cases d.imports.find? (·.refersTo settings.annotationModule) with
  | some i => exact .inl rfl
  | none => exact .inr (by simp)

theorem qualifier_of_imports_eq (h : d'.imports = d.imports) :
    d'.qualifier settings = d.qualifier settings := by
  rw [Document.qualifier, Document.qualifier, Document.annotationAlias, Document.annotationAlias, h]

theorem boundAlias_ofModule {name : String}
    (h : (Import.ofModule settings.annotationModule).implicitAlias? = some name) :
    (Import.ofModule settings.annotationModule).boundAlias = .inScope name := by
  have : (Import.ofModule settings.annotationModule).alias? = none := rfl
  rw [Import.boundAlias, this]
  simp only [h]

namespace Injector

variable {injector : Injector} {schemas : SchemaCache}

/-- **A run does not change what qualifies the annotation in a document, if its imports bind the
    default alias.** -/
theorem qualifier_of_injected (h : injector.Injected schemas d d')
    (hbinds : injector.settings.BindsDefault) :
    d'.qualifier injector.settings = d.qualifier injector.settings := by
  rcases h.imports with himports | ⟨habsent, himports⟩
  · exact qualifier_of_imports_eq himports
  · have before : d.qualifier injector.settings = injector.settings.defaultAlias := by
      rw [Document.qualifier, habsent]
    rw [before]
    rcases annotationAlias_append himports with halias | halias
    · rw [Document.qualifier, halias, habsent]
    · rw [Document.qualifier, halias, boundAlias_ofModule hbinds]

/-! ## Annotated definitions -/

variable {qualifier : String} {t : TypeDefinition}

/-- **A definition is not due once it is annotated.** -/
theorem due?_annotated
    (h : ∀ text, injector.due? schemas qualifier t = some text → Readable text) :
    injector.due? schemas qualifier (injector.annotated schemas qualifier t) = none := by
  cases hdue : injector.due? schemas qualifier t with
  | none => rw [annotated_of_not_due hdue, hdue]
  | some text =>
    obtain ⟨value, hread⟩ := h text hdue
    rw [annotated_of_due hdue hread, due?, if_pos]
    simp [annotateWith]

/-- **Nothing is due in an injected document, as long as its qualifier is the same.** -/
theorem duesIn_injected (h : injector.Injected schemas d d')
    (hqualifier : d'.qualifier injector.settings = d.qualifier injector.settings)
    (hread : ∀ text ∈ injector.duesIn schemas d, Readable text) :
    injector.duesIn schemas d' = [] := by
  rw [duesIn, h.definitions, hqualifier, List.filterMap_eq_nil_iff]
  rw [List.forall_mem_map]
  intro t ht
  refine due?_annotated fun text htext => ?_
  exact hread text (List.mem_filterMap.2 ⟨t, ht, htext⟩)

end Injector

end ResponseSchema
