/-
  Injection — no annotation twice.

  A run looks for the annotation before it adds it.  But what qualifies the annotation
  depends on the imports of the document and on the settings, and both may have changed
  since the last run; and a run that fails leaves some definitions annotated.

  * `TypeDefinition.references`: the qualified references of the annotations;
  * `TypeDefinition.Gains`: one annotation more, under a reference that was not there.
    A step over the definitions gains one or none (`gains_of_mayAnnotate`);
  * `related_run`, `related_afterRuns`: so a run, whether it finishes or fails, and any
    runs in a row have gained annotations one by one;
  * `unrepeated_afterRuns`: where no reference stands twice, none ever will.
-/
import ResponseSchema.Proofs.Injection.Effect
import ResponseSchema.Proofs.Injection.Rerun
import ResponseSchema.Proofs.Injection.FailedRun
import Mathlib.Logic.Relation

namespace ResponseSchema

open Relation

/-! ## References -/

/-- The qualifier and the identifier, if the annotation is qualified. -/
def Annotation.reference? (a : Annotation) : Option (String × String) :=
  a.qualifier?.map (·, a.identifier)

theorem Annotation.refersTo_iff {a : Annotation} {qualifier identifier : String} :
    a.refersTo qualifier identifier ↔ a.reference? = some (qualifier, identifier) := by
  simp [refersTo, reference?, Option.map_eq_some_iff]

namespace TypeDefinition

/-- The qualified references of the annotations, in order. -/
def references (t : TypeDefinition) : List (String × String) :=
  t.annotations.filterMap Annotation.reference?

/-- The definition has got one more annotation, under a reference that was not there. -/
def Gains (t t' : TypeDefinition) : Prop :=
  ∃ a reference, a.reference? = some reference ∧ reference ∉ t.references ∧
    t' = { t with annotations := t.annotations ++ [a] }

theorem Gains.references {t t' : TypeDefinition} (h : t.Gains t') :
    ∃ reference ∉ t.references, t'.references = t.references ++ [reference] := by
  obtain ⟨a, reference, ha, hnew, rfl⟩ := h
  refine ⟨reference, hnew, ?_⟩
  simp [TypeDefinition.references, List.filterMap_append, ha]

theorem Gains.nodup {t t' : TypeDefinition} (h : t.Gains t') (ht : t.references.Nodup) :
    t'.references.Nodup := by
  obtain ⟨reference, hnew, heq⟩ := h.references
  rw [heq, List.nodup_append_comm]
  exact List.nodup_cons.2 ⟨hnew, ht⟩

/-- Annotations gained one by one do not repeat a reference. -/
theorem nodup_of_gains {t t' : TypeDefinition} (h : ReflTransGen Gains t t')
    (ht : t.references.Nodup) : t'.references.Nodup := by
  induction h with
  | refl => exact ht
  | tail _ hgains ih => exact hgains.nodup ih

end TypeDefinition

/-- The definitions of the document have gained annotations one by one. -/
def Document.Grows (d d' : Document) : Prop :=
  List.Forall₂ (ReflTransGen TypeDefinition.Gains) d.definitions d'.definitions

theorem Document.Grows.trans (d d' d'' : Document) (h : d.Grows d') (h' : d'.Grows d'') :
    d.Grows d'' := by
  rw [Grows] at h h' ⊢
  exact forall₂_trans (fun _ _ _ ht ht' => ht.trans ht') h h'

namespace Package

/-- No definition of the package has two annotations with one qualified reference. -/
def Unrepeated (p : Package) : Prop :=
  ∀ d ∈ p.documents, ∀ t ∈ d.definitions, t.references.Nodup

instance (p : Package) : Decidable p.Unrepeated :=
  inferInstanceAs (Decidable (∀ d ∈ p.documents, ∀ t ∈ d.definitions, _))

/-- The package after a run of each injector in turn, be they finished or failed. -/
def afterRuns (p : Package) (injectors : List Injector) : Package :=
  injectors.foldl (fun p injector => (injector.run p).2) p

theorem unrepeated_of_related {p p' : Package} (h : p.Related Document.Grows p')
    (hp : p.Unrepeated) : p'.Unrepeated := by
  refine forall_mem_of_forall₂ h.documents (fun d d' hd => ?_) hp
  exact forall_mem_of_forall₂ hd fun t t' ht => TypeDefinition.nodup_of_gains ht

end Package

namespace Injector

variable {injector : Injector} {schemas : SchemaCache} {qualifier : String}

/-! ## One run -/

/-- A definition that may have been annotated has gained one annotation or none. -/
theorem gains_of_mayAnnotate {t t' : TypeDefinition}
    (h : injector.MayAnnotate schemas qualifier t t') : ReflTransGen TypeDefinition.Gains t t' := by
  obtain ⟨hname, htype, hannotations⟩ := h
  obtain ⟨name, type, annotations⟩ := t'
  subst hname htype
  rcases hannotations with rfl | ⟨text, value, -, hnone, -, rfl⟩
  · exact .refl
  · refine .single ⟨_, (qualifier, injector.settings.annotationIdentifier), rfl, ?_, rfl⟩
    rw [TypeDefinition.references, List.mem_filterMap]
    rintro ⟨a, ha, hreference⟩
    have hrefers := Annotation.refersTo_iff.2 hreference
    exact hnone a ha hrefers

/-- **A run has gained annotations one by one**, whether it has finished or failed. -/
theorem related_run (injector : Injector) (p : Package) :
    p.Related Document.Grows (injector.run p).2 := by
  rcases h : injector.run p with ⟨e | r, p'⟩
  · have effect := partialEffect_of_run h
    exact ⟨effect.errorCount, effect.outline, effect.documents.imp fun d d' hd =>
      hd.definitions.imp fun t t' => gains_of_mayAnnotate⟩
  · have effect := effect_of_run h
    exact ⟨effect.errorCount, effect.outline, effect.documents.imp fun d d' hd =>
      hd.definitions.imp fun t t' ht => gains_of_mayAnnotate ht.toMayAnnotate⟩

/-! ## Runs in a row -/

theorem related_afterRuns (injectors : List Injector) (p : Package) :
    p.Related Document.Grows (p.afterRuns injectors) := by
  induction injectors generalizing p with
  | nil =>
    exact ⟨rfl, rfl, List.forall₂_same.2 fun d _ => List.forall₂_same.2 fun t _ => .refl⟩
  | cons injector injectors ih =>
    exact (related_run injector p).trans Document.Grows.trans (ih (injector.run p).2)

/-- **Runs never repeat an annotation**: where no definition has two annotations with one qualified
    reference, none has after any runs of any injectors. -/
theorem unrepeated_afterRuns {p : Package} (h : p.Unrepeated) (injectors : List Injector) :
    (p.afterRuns injectors).Unrepeated :=
  Package.unrepeated_of_related (related_afterRuns injectors p) h

end Injector

/-- A run that fails between two definitions, one under another default alias and with another
    mapper, and the first one again. -/
theorem unrepeated_afterRuns_scoreAndDeep :
    let p := Package.scoreAndDeep [.score, .deep]
    (∃ e p', Injector.run {} p = (.error e, p')) ∧ p.Unrepeated ∧
      (p.afterRuns [{}, ⟨{ defaultAlias := "llm" }, .anything⟩, {}]).Unrepeated := by
  intro p
  have hmem : Schema.deep.compact ∈ Injector.duesOf {} p := by
    show Schema.deep.compact ∈ Injector.duesOf {} (.scoreAndDeep [.score, .deep])
    rw [duesOf_scoreAndDeep]
    exact List.mem_cons_of_mem _ List.mem_cons_self
  have hp : p.Unrepeated := by decide
  exact ⟨Injector.run_error_iff_depth.2 (.inr ⟨Schema.deep, hmem, depth_deep⟩), hp,
    Injector.unrepeated_afterRuns hp _⟩

end ResponseSchema
