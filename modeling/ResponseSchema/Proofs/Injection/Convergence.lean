/-
  Injection — runs in a row.

  An import that a run adds is there for the next run: it may qualify the annotation in
  its document from then on, and make the document one that is searched.  So a run may
  leave something to do for the next one, but not for ever.

  * `Settled`: a run does nothing, hence neither does any later one (`Settled.runs`);
    a run that adds no import settles the package (`settled_of_run`);
  * `chances`: how many annotations a definition may still get.  What qualifies the
    annotation changes once at most, when the annotation module gets a name
    (`annotationAlias_of_injected`), and an annotation uses a chance up
    (`grown_annotated`);
  * `Runs`: finished runs one after the other;
  * `runs_converge`: the chances bound the annotations, and by that the number of runs
    before one that does nothing.
-/
import ResponseSchema.Proofs.Injection.FailedRun
import ResponseSchema.Proofs.Injection.Rerun
import Mathlib.Algebra.Order.BigOperators.Group.List
import Mathlib.Algebra.Order.Ring.Nat

namespace ResponseSchema

/-- The definitions of a package, each with its document. -/
def Package.definitions (p : Package) : List (Document × TypeDefinition) :=
  p.documents.flatMap fun d => d.definitions.map (d, ·)

namespace Injector

variable (injector : Injector)

/-- A run over the package finishes and does nothing. -/
def Settled (p : Package) : Prop :=
  ∃ r, injector.run p = (.ok r, p) ∧ r.isNoop

/-- Finished runs one after the other: their reports, and the package after the last. -/
inductive Runs : Package → List Report → Package → Prop where
  | nil (p : Package) : Runs p [] p
  | cons {p p' p'' : Package} {r : Report} {rs : List Report} :
    injector.run p = (.ok r, p') → Runs p' rs p'' → Runs p (r :: rs) p''

variable {injector} {p p' : Package} {r : Report} {rs : List Report} {schemas : SchemaCache}
  {d d' : Document} {t : TypeDefinition}

/-! ## Runs that do nothing -/

/-- With nothing due, a run does nothing. -/
theorem settled_of_duesOf_eq_nil (h0 : p.errorCount = 0) (h : injector.duesOf p = []) :
    injector.Settled p :=
  run_of_duesOf_eq_nil h0 h

theorem forall₂_imports_of_importedSince {R : Document → Document → Prop}
    {ds ds' : List Document} (h : List.Forall₂ R ds ds') (hnone : importedSince ds ds' = []) :
    List.Forall₂ (fun d d' : Document => d'.imports = d.imports) ds ds' := by
  refine List.forall₂_iff_zip.2 ⟨h.length_eq, fun {d d'} hmem => ?_⟩
  rw [importedSince, List.map_eq_nil_iff, List.filter_eq_nil_iff] at hnone
  have hsame := hnone (d, d') hmem
  by_contra hdiffer
  exact hsame (decide_eq_true (Ne.symm hdiffer))

/-- **A run that adds no import leaves nothing to do.** -/
theorem settled_of_run (h : injector.run p = (.ok r, p')) (hnone : r.importsAdded = []) :
    injector.Settled p' := by
  have finished := finished_of_run h
  refine settled_of_duesOf_eq_nil finished.errorCount.2 (duesOf_of_finished finished ?_)
  have himports := forall₂_imports_of_importedSince finished.documents
    (finished.importsAdded.symm.trans hnone)
  exact himports.imp fun d d' hsame => ⟨qualifier_of_imports_eq hsame, by rw [hsame]⟩

theorem importsAdded_of_isNoop (h : r.isNoop) : r.importsAdded = [] := by
  rw [Report.isNoop, Bool.and_eq_true] at h
  exact List.isEmpty_iff.1 h.2

/-- **Once settled, a package stays as it is.** -/
theorem Settled.runs (h : injector.Settled p) (hruns : injector.Runs p rs p') :
    p' = p ∧ ∀ r ∈ rs, r.isNoop := by
  induction hruns with
  | nil p => exact ⟨rfl, nofun⟩
  | cons hrun _ ih =>
    obtain ⟨r, hsettled, hnoop⟩ := h
    rw [hsettled, Prod.mk.injEq, Except.ok.injEq] at hrun
    obtain ⟨rfl, rfl⟩ := hrun
    have ⟨hsame, hnoops⟩ := ih ⟨_, hsettled, hnoop⟩
    exact ⟨hsame, List.forall_mem_cons.2 ⟨hnoop, hnoops⟩⟩

/-! ## Chances of an annotation -/

/-- What a run changes of how a document names the annotation module: it may give it a name. -/
theorem annotationAlias_of_injected (h : injector.Injected schemas d d') :
    d'.annotationAlias injector.settings = d.annotationAlias injector.settings ∨
      d.annotationAlias injector.settings = .absent ∧
        d'.annotationAlias injector.settings ≠ .absent := by
  rcases h.imports with himports | ⟨habsent, himports⟩
  · left
    rw [Document.annotationAlias, Document.annotationAlias, himports]
  · rcases annotationAlias_append himports with hsame | hadded
    · exact .inl hsame
    · obtain ⟨name, hname⟩ := Import.exists_implicitAlias_ofModule
        injector.settings.annotationModule
      rw [hadded, boundAlias_ofModule hname]
      refine .inr ⟨habsent, ?_⟩
      rintro ⟨⟩

variable (injector) in
/-- How many annotations a definition in a document may still get: one under the present
    qualifier, and one under the name that an added import gives the annotation module. -/
def chances (d : Document) (t : TypeDefinition) : Nat :=
  (if t.annotations.any (·.refersTo (d.qualifier injector.settings)
    injector.settings.annotationIdentifier) then 0 else 1) +
  if d.annotationAlias injector.settings = .absent then 1 else 0

variable (injector) in
theorem chances_le_two (d : Document) (t : TypeDefinition) : injector.chances d t ≤ 2 := by
  rw [chances]
  split_ifs <;> omega

/-- A document that gets a name for the annotation module does not give new chances. -/
theorem chances_le_of_injected (h : injector.Injected schemas d d') (t : TypeDefinition) :
    injector.chances d' t ≤ injector.chances d t := by
  rcases annotationAlias_of_injected h with hsame | ⟨habsent, hnamed⟩
  · rw [chances, chances, Document.qualifier, Document.qualifier, hsame]
  · rw [chances, chances, if_neg hnamed, if_pos habsent]
    split_ifs <;> omega

theorem chances_annotateWith_lt (h : injector.Injected schemas d d') {text : String}
    (hdue : injector.due? schemas (d.qualifier injector.settings) t = some text) (value : Json) :
    injector.chances d' (injector.annotateWith (d.qualifier injector.settings) t value) <
      injector.chances d t := by
  have hbefore : ¬ t.annotations.any (·.refersTo (d.qualifier injector.settings)
      injector.settings.annotationIdentifier) := by
    simpa using (due?_eq_some_iff.1 hdue).2
  have hafter : (injector.annotateWith (d.qualifier injector.settings) t value).annotations.any
      (·.refersTo (d.qualifier injector.settings) injector.settings.annotationIdentifier) := by
    simp [annotateWith]
  rcases annotationAlias_of_injected h with hsame | ⟨habsent, hnamed⟩
  · have hqualifier : d'.qualifier injector.settings = d.qualifier injector.settings := by
      rw [Document.qualifier, Document.qualifier, hsame]
    rw [chances, chances, hqualifier, hsame, if_pos hafter, if_neg hbefore]
    omega
  · -- the new annotation may not count under the new name, but no other name can follow
    rw [chances, chances, if_neg hbefore, if_pos habsent, if_neg hnamed]
    split_ifs <;> omega

variable (injector) in
/-- The definition has got more annotations, and has lost at least as many chances. -/
def Grown (e e' : Document × TypeDefinition) : Prop :=
  ∃ new, e'.2.annotations = e.2.annotations ++ new ∧
    injector.chances e'.1 e'.2 + new.length ≤ injector.chances e.1 e.2

theorem Grown.refl (e : Document × TypeDefinition) : injector.Grown e e :=
  ⟨[], (List.append_nil _).symm, Nat.le_refl _⟩

theorem Grown.trans {e e' e'' : Document × TypeDefinition} (h : injector.Grown e e')
    (h' : injector.Grown e' e'') : injector.Grown e e'' := by
  obtain ⟨new, happend, hle⟩ := h
  obtain ⟨new', happend', hle'⟩ := h'
  refine ⟨new ++ new', ?_, ?_⟩
  · rw [happend', happend, List.append_assoc]
  · rw [List.length_append]
    omega

variable (injector schemas) in
/-- A text is due for the definition. -/
def isDue (e : Document × TypeDefinition) : Bool :=
  (injector.due? schemas (e.1.qualifier injector.settings) e.2).isSome

/-- **An annotation uses a chance up.** -/
theorem grown_annotated (h : injector.Injected schemas d d')
    (hread : ∀ text, injector.due? schemas (d.qualifier injector.settings) t = some text →
      Readable text) {t' : TypeDefinition}
    (ht' : t' = injector.annotated schemas (d.qualifier injector.settings) t) :
    injector.Grown (d, t) (d', t') ∧
      injector.chances d' t' + (if injector.isDue schemas (d, t) then 1 else 0) ≤
        injector.chances d t := by
  cases hdue : injector.due? schemas (d.qualifier injector.settings) t with
  | none =>
    rw [ht', annotated_of_not_due hdue, isDue, hdue]
    have hle := chances_le_of_injected h t
    exact ⟨⟨[], (List.append_nil _).symm, hle⟩, hle⟩
  | some text =>
    obtain ⟨value, hvalue⟩ := hread text hdue
    rw [ht', annotated_of_due hdue hvalue, isDue, hdue]
    have hlt := chances_annotateWith_lt h hdue value
    exact ⟨⟨[_], rfl, hlt⟩, hlt⟩

/-! ## One run -/

theorem forall₂_definitions_of_finished (finished : injector.Finished p r p') :
    List.Forall₂ (fun e e' => injector.Grown e e' ∧
      injector.chances e'.1 e'.2 + (if injector.isDue r.schemas e then 1 else 0) ≤
        injector.chances e.1 e.2) p.definitions p'.definitions := by
  have hread : ∀ d ∈ p.documents, ∀ t ∈ d.definitions, ∀ text,
      injector.due? r.schemas (d.qualifier injector.settings) t = some text → Readable text := by
    intro d hd t ht text hdue
    rw [finished.schemas] at hdue
    exact finished.readable text (mem_duesOf_iff.2 ⟨d, hd, t, ht, hdue⟩)
  refine List.rel_flatMap ((List.forall₂_and_left _ _).2 ⟨hread, finished.documents⟩) ?_
  rintro d d' ⟨hread, injected⟩
  beta_reduce
  rw [injected.definitions, List.map_map, List.forall₂_map_left_iff, List.forall₂_map_right_iff,
    List.forall₂_same]
  exact fun t ht => grown_annotated injected (hread t ht) rfl

variable (injector) in
/-- The chances of all definitions of a package. -/
def totalChances (p : Package) : Nat :=
  (p.definitions.map fun e => injector.chances e.1 e.2).sum

variable (injector) in
theorem totalChances_le (p : Package) : injector.totalChances p ≤ 2 * p.definitions.length := by
  have h := List.sum_le_card_nsmul (p.definitions.map fun e => injector.chances e.1 e.2) 2
    (List.forall_mem_map.2 fun e _ => chances_le_two injector e.1 e.2)
  rw [List.length_map, Nat.nsmul_eq_mul, Nat.mul_comm] at h
  exact h

theorem length_annotated_of_finished (finished : injector.Finished p r p') :
    r.annotated.length = p.definitions.countP (injector.isDue r.schemas) := by
  rw [finished.annotated, Package.definitions, List.countP_flatMap, List.length_flatMap]
  simp [listedIn, List.countP_eq_length_filter, List.filter_map, Function.comp_def, isDue]

theorem sum_add_countP_le {α β : Type} {f : α → Nat} {g : β → Nat} {q : α → Bool} {as : List α}
    {bs : List β} (h : List.Forall₂ (fun a b => g b + (if q a then 1 else 0) ≤ f a) as bs) :
    (bs.map g).sum + as.countP q ≤ (as.map f).sum := by
  induction h with
  | nil => exact Nat.le_refl _
  | cons hab _ ih =>
    rw [List.map_cons, List.map_cons, List.sum_cons, List.sum_cons, List.countP_cons]
    omega

/-- **The annotations of a run are paid with chances.** -/
theorem totalChances_of_run (h : injector.run p = (.ok r, p')) :
    injector.totalChances p' + r.annotated.length ≤ injector.totalChances p := by
  have finished := finished_of_run h
  rw [length_annotated_of_finished finished]
  exact sum_add_countP_le ((forall₂_definitions_of_finished finished).imp fun e e' he => he.2)

/-- A run that is not without effect annotates something. -/
theorem annotated_ne_nil_of_run (h : injector.run p = (.ok r, p')) (hnoop : ¬ r.isNoop) :
    r.annotated ≠ [] := by
  have finished := finished_of_run h
  intro hnone
  rw [finished.annotated, flatMap_listedIn_eq_nil_iff, finished.schemas] at hnone
  exact hnoop ((isNoop_run_iff h).2 hnone)

/-! ## Runs in a row -/

theorem Runs.grown (h : injector.Runs p rs p') :
    List.Forall₂ injector.Grown p.definitions p'.definitions := by
  induction h with
  | nil p => exact List.forall₂_same.2 fun e _ => .refl e
  | cons hrun _ ih =>
    have hfirst := forall₂_definitions_of_finished (finished_of_run hrun)
    exact forall₂_trans (fun _ _ _ he he' => he.1.trans he') hfirst ih

theorem Runs.totalChances (h : injector.Runs p rs p') :
    injector.totalChances p' + (rs.map (·.annotated.length)).sum ≤ injector.totalChances p := by
  induction h with
  | nil p => exact Nat.le_refl _
  | cons hrun _ ih =>
    have hfirst := totalChances_of_run hrun
    rw [List.map_cons, List.sum_cons]
    omega

theorem Runs.annotated_ne_nil (h : injector.Runs p rs p') :
    ∀ r ∈ rs, ¬ r.isNoop → r.annotated ≠ [] := by
  induction h with
  | nil p => exact nofun
  | cons hrun _ ih => exact List.forall_mem_cons.2 ⟨annotated_ne_nil_of_run hrun, ih⟩

theorem Runs.take (h : injector.Runs p rs p') (n : Nat) : ∃ q, injector.Runs p (rs.take n) q := by
  induction h generalizing n with
  | nil p => exact ⟨p, by rw [List.take_nil]; exact .nil p⟩
  | @cons p _ _ _ _ hrun _ ih =>
    cases n with
    | zero => exact ⟨p, .nil p⟩
    | succ n =>
      obtain ⟨q, hq⟩ := ih n
      exact ⟨q, .cons hrun hq⟩

/-- Runs none of which is without effect are at most as many as there are chances. -/
theorem Runs.length_le (h : injector.Runs p rs p') (hnoop : ∀ r ∈ rs, ¬ r.isNoop) :
    rs.length ≤ 2 * p.definitions.length := by
  have hpaid := h.totalChances
  have hchances := totalChances_le injector p
  have hone : ∀ n ∈ rs.map (·.annotated.length), 1 ≤ n := by
    rw [List.forall_mem_map]
    intro r hr
    exact List.length_pos_iff.2 (h.annotated_ne_nil r hr (hnoop r hr))
  have hlength := List.length_le_sum_of_one_le _ hone
  rw [List.length_map] at hlength
  omega

/-- **More runs than there are chances include one without effect.** -/
theorem Runs.exists_isNoop (h : injector.Runs p rs p') (hlong : 2 * p.definitions.length < rs.length) :
    ∃ r ∈ rs.take (2 * p.definitions.length + 1), r.isNoop := by
  by_contra hno
  obtain ⟨q, hq⟩ := h.take (2 * p.definitions.length + 1)
  have hle := hq.length_le fun r hr hnoop => hno ⟨r, hr, hnoop⟩
  rw [List.length_take] at hle
  omega

/-- A run without effect settles the package for all later ones. -/
theorem Runs.settled (h : injector.Runs p rs p') : ∀ r ∈ rs, r.isNoop → injector.Settled p' := by
  induction h with
  | nil p => exact nofun
  | cons hrun hrest ih =>
    refine List.forall_mem_cons.2 ⟨fun hnoop => ?_, ih⟩
    have hsettled := settled_of_run hrun (importsAdded_of_isNoop hnoop)
    rwa [(hsettled.runs hrest).1]

theorem Runs.pairwise_isNoop (h : injector.Runs p rs p') :
    rs.Pairwise fun r r' => r.isNoop → r'.isNoop := by
  induction h with
  | nil p => exact .nil
  | cons hrun hrest ih =>
    refine .cons (fun r' hr' hnoop => ?_) ih
    have hsettled := settled_of_run hrun (importsAdded_of_isNoop hnoop)
    exact (hsettled.runs hrest).2 r' hr'

variable (injector) in
/-- What runs one after the other come to: no definition gets more than two annotations, one of
    the first runs has no effect, one more than twice the number of definitions, and after
    such a run none has any. -/
structure Converges (p : Package) (rs : List Report) (p' : Package) : Prop where
  annotations : List.Forall₂ (fun e e' : Document × TypeDefinition =>
    ∃ new, e'.2.annotations = e.2.annotations ++ new ∧ new.length ≤ 2) p.definitions p'.definitions
  reached : 2 * p.definitions.length + 1 ≤ rs.length →
    ∃ r ∈ rs.take (2 * p.definitions.length + 1), r.isNoop
  stays : rs.Pairwise fun r r' => r.isNoop → r'.isNoop
  settled : ∀ r ∈ rs, r.isNoop → injector.Settled p'

/-- **Runs in a row converge**: a run that adds no import leaves nothing to do, and of finished
    runs in a row one of the first has no effect, nor has any after it. -/
theorem runs_converge (injector : Injector) :
    (∀ p r p', injector.run p = (.ok r, p') → r.importsAdded = [] → injector.Settled p') ∧
      ∀ p rs p', injector.Runs p rs p' → injector.Converges p rs p' := by
  refine ⟨fun p r p' h hnone => settled_of_run h hnone, fun p rs p' h => ?_⟩
  refine ⟨h.grown.imp ?_, h.exists_isNoop, h.pairwise_isNoop, h.settled⟩
  rintro e e' ⟨new, happend, hle⟩
  have htwo := chances_le_two injector e.1 e.2
  exact ⟨new, happend, by omega⟩

end Injector

/-! ## Runs that always finish -/

theorem run_anything (settings : Settings) {p : Package} (h0 : p.errorCount = 0) :
    ∃ r p', Injector.run ⟨settings, .anything⟩ p = (.ok r, p') := by
  refine ⟨_, _, Injector.run_of_readable (by omega) fun text htext => ?_⟩
  obtain ⟨name, n, raw, s, -, -, hraw, hs, rfl⟩ := Injector.textOf_of_mem_duesOf htext
  cases hraw
  cases hs
  exact ⟨.object [], Schema.read_compact .empty⟩

theorem exists_runs_anything (settings : Settings) (n : Nat) {p : Package}
    (h0 : p.errorCount = 0) :
    ∃ rs p', Injector.Runs ⟨settings, .anything⟩ p rs p' ∧ rs.length = n := by
  induction n generalizing p with
  | zero => exact ⟨[], p, .nil p, rfl⟩
  | succ n ih =>
    obtain ⟨r, p', hrun⟩ := run_anything settings h0
    obtain ⟨rs, p'', hruns, hlength⟩ := ih (Injector.finished_of_run hrun).errorCount.2
    exact ⟨r :: rs, p'', .cons hrun hruns, by rw [List.length_cons, hlength]⟩

/-- Under another default alias the first run over the probing package has an effect and leaves
    something to do; one of the next four has no effect, and the fifth leaves the package
    settled. -/
theorem runs_converge_probe : ∃ r p' rs p'',
    Injector.run ⟨{ defaultAlias := "llm" }, .anything⟩ (.probe { defaultAlias := "llm" }) =
        (.ok r, p') ∧
      ¬ r.isNoop ∧ ¬ Injector.Settled ⟨{ defaultAlias := "llm" }, .anything⟩ p' ∧
      Injector.Runs ⟨{ defaultAlias := "llm" }, .anything⟩ (.probe { defaultAlias := "llm" })
        (r :: rs) p'' ∧
      (r :: rs).length = 5 ∧ (∃ r' ∈ rs, r'.isNoop) ∧
      Injector.Settled ⟨{ defaultAlias := "llm" }, .anything⟩ p'' := by
  obtain ⟨r, p', hrun, hdocuments⟩ := run_probe { defaultAlias := "llm" }
  have hunsettled : ¬ Injector.Settled ⟨{ defaultAlias := "llm" }, .anything⟩ p' := by
    rintro ⟨r', hrerun, hnoop⟩
    exact duesOf_ne_nil_of_not_bindsDefault _ (by decide) hdocuments
      ((Injector.isNoop_run_iff hrerun).1 hnoop)
  have heffect : ¬ r.isNoop := fun hnoop => hunsettled <|
    (Injector.runs_converge _).1 _ _ _ hrun (Injector.importsAdded_of_isNoop hnoop)
  obtain ⟨rs, p'', hrest, hlength⟩ := exists_runs_anything { defaultAlias := "llm" } 4
    (Injector.finished_of_run hrun).errorCount.2
  have hruns := Injector.Runs.cons hrun hrest
  have hfive : (r :: rs).length = 5 := by rw [List.length_cons, hlength]
  have hconverges := (Injector.runs_converge _).2 _ _ _ hruns
  have hdefinitions : (Package.probe { defaultAlias := "llm" }).definitions.length = 2 := rfl
  obtain ⟨r', hr', hnoop⟩ := hconverges.reached (by rw [hdefinitions, hfive])
  have hmem := List.mem_of_mem_take hr'
  -- the run without effect is not the first one
  have hlater : r' ∈ rs := by
    rcases List.mem_cons.1 hmem with rfl | hlater
    · exact absurd hnoop heffect
    · exact hlater
  exact ⟨r, p', rs, p'', hrun, heffect, hunsettled, hruns, hfive, ⟨r', hlater, hnoop⟩,
    hconverges.settled r' hmem hnoop⟩

end ResponseSchema
