/-
  Injection — which documents get the import.

  The pass that annotates asks for an import under the identifier of the document;
  the pass that imports gives it to the first document with this identifier,
  whether this one has asked or not.

  * `importedIn_of_run`: what every document imports after a run;
  * `imports_iff_of_run`: when a document gets the import exactly if it was annotated
    and cannot name the annotation module;
  * `imports_of_run_of_nodup`: always, if no two documents have one identifier.
-/
import ResponseSchema.Proofs.Injection.Effect

namespace ResponseSchema

namespace Injector

variable {injector : Injector} {p p' : Package} {r : Report} {k : Nat} {d d' : Document}

/-! ## Imports after a run -/

/-- **A document gets the import iff it cannot name the annotation module, is the first with its
    identifier, and a text was due in some document with that identifier.** -/
theorem importedIn_of_run (h : injector.run p = (.ok r, p')) (hd : p.documents[k]? = some d)
    (hd' : p'.documents[k]? = some d') :
    d'.imports = if d.annotationAlias injector.settings = .absent ∧
        (∀ e ∈ p.documents.take k, e.id ≠ d.id) ∧
        ∃ e ∈ p.documents, injector.duesIn (injector.textsOf p) e ≠ [] ∧ e.id = d.id
      then d.imports ++ [.ofModule injector.settings.annotationModule] else d.imports := by
  have finished := finished_of_run h
  rw [run_of_readable (by simp [finished.errorCount]) finished.readable, Prod.mk.injEq] at h
  have hannotated : (p.documents.map (injector.annotatedIn (injector.textsOf p)))[k]? =
      some (injector.annotatedIn (injector.textsOf p) d) := by
    rw [List.getElem?_map, hd, Option.map_some]
  have hpending : d.id ∈ (injector.annotating p).2.pending.ids ↔
      ∃ e ∈ p.documents, injector.duesIn (injector.textsOf p) e ≠ [] ∧ e.id = d.id := by
    rw [progress_annotating finished.readable, mem_pending_iff]
    exact or_iff_right List.not_mem_nil
  have hfirst : (∀ e ∈ (p.documents.map (injector.annotatedIn (injector.textsOf p))).take k,
      e.id ≠ d.id) ↔ ∀ e ∈ p.documents.take k, e.id ≠ d.id := by
    rw [← List.map_take, List.forall_mem_map]
    rfl
  rw [← h.2, importing, documents_edit_fst, documents_annotating finished.readable,
    getElem?_editList_addImport _ _ hannotated, Option.some.injEq] at hd'
  rw [← hd', apply_ite Document.imports]
  refine if_congr ?_ rfl rfl
  rw [← hpending, ← hfirst]
  exact ⟨fun h => ⟨h.2.1, h.2.2, h.1⟩, fun h => ⟨h.2.2, h.1, h.2.1⟩⟩

/-- A document was annotated iff a text was due in it. -/
theorem changedIn_of_run (h : injector.run p = (.ok r, p')) (hd : p.documents[k]? = some d)
    (hd' : p'.documents[k]? = some d') :
    changedIn d d' ≠ [] ↔ injector.duesIn (injector.textsOf p) d ≠ [] := by
  have effect := forall₂_getElem? (effect_of_run h).documents hd hd'
  rw [(finished_of_run h).schemas] at effect
  rw [changedIn_of_effect effect, ne_eq, listedIn_eq_nil_iff]

theorem exists_getElem?_of_run (h : injector.run p = (.ok r, p')) (hd : p.documents[k]? = some d) :
    ∃ d', p'.documents[k]? = some d' := by
  have hk : k < p'.documents.length :=
    (effect_of_run h).documents.length_eq ▸ (List.getElem?_eq_some_iff.1 hd).1
  exact ⟨_, List.getElem?_eq_getElem hk⟩

/-- One of the documents with an identifier was annotated iff a text was due in one of them. -/
theorem exists_changedIn_of_run (h : injector.run p = (.ok r, p')) (id : String) :
    (∃ (i : Nat) (e e' : Document), p.documents[i]? = some e ∧ p'.documents[i]? = some e' ∧
      e.id = id ∧ changedIn e e' ≠ []) ↔
    ∃ e ∈ p.documents, injector.duesIn (injector.textsOf p) e ≠ [] ∧ e.id = id := by
  constructor
  · rintro ⟨i, e, e', he, he', hid, hchanged⟩
    exact ⟨e, List.mem_of_getElem? he, (changedIn_of_run h he he').1 hchanged, hid⟩
  · rintro ⟨e, he, hdue, hid⟩
    obtain ⟨i, he⟩ := List.mem_iff_getElem?.1 he
    obtain ⟨e', he'⟩ := exists_getElem?_of_run h he
    exact ⟨i, e, e', he, he', hid, (changedIn_of_run h he he').2 hdue⟩

/-! ## Imports where they are needed -/

/-- **A document gets the import exactly if it was annotated and cannot name the annotation
    module**, iff this is also the condition on which the import is handed out: the document is the
    first with its identifier, and one with this identifier was annotated. -/
theorem imports_iff_of_run (h : injector.run p = (.ok r, p')) (hd : p.documents[k]? = some d)
    (hd' : p'.documents[k]? = some d') :
    (d'.imports = if changedIn d d' ≠ [] ∧ d.annotationAlias injector.settings = .absent
        then d.imports ++ [.ofModule injector.settings.annotationModule] else d.imports) ↔
      (d.annotationAlias injector.settings = .absent → (changedIn d d' ≠ [] ↔
        (∀ e ∈ p.documents.take k, e.id ≠ d.id) ∧
          ∃ (i : Nat) (e e' : Document), p.documents[i]? = some e ∧ p'.documents[i]? = some e' ∧
            e.id = d.id ∧ changedIn e e' ≠ [])) := by
  have hne : d.imports ++ [.ofModule injector.settings.annotationModule] ≠ d.imports :=
    injector.withImport_imports_ne d
  rw [exists_changedIn_of_run h, importedIn_of_run h hd hd']
  by_cases habsent : d.annotationAlias injector.settings = .absent
  · simp only [habsent, true_and, and_true, true_imp_iff]
    by_cases hgiven : (∀ e ∈ p.documents.take k, e.id ≠ d.id) ∧
        ∃ e ∈ p.documents, injector.duesIn (injector.textsOf p) e ≠ [] ∧ e.id = d.id
    · rw [if_pos hgiven, iff_true_right hgiven, eq_comm, hne.ite_eq_left_iff]
    · rw [if_neg hgiven, iff_false_right hgiven, eq_comm, hne.ite_eq_right_iff]
  · simp [habsent]

/-- A document is the first with its identifier if there is no other. -/
theorem ne_id_of_nodup {ds : List Document} (hids : (ds.map Document.id).Nodup)
    (hd : ds[k]? = some d) : ∀ e ∈ ds.take k, e.id ≠ d.id := by
  rw [← List.take_append_drop k ds, List.map_append, List.nodup_append] at hids
  have hdrop : (ds.drop k)[0]? = some d := by rw [List.getElem?_drop]; exact hd
  intro e he
  exact hids.2.2 _ (List.mem_map_of_mem he) _ (List.mem_map_of_mem (List.mem_of_getElem? hdrop))

/-- **If no two documents have one identifier, those get the import that were annotated and cannot
    name the annotation module.** -/
theorem imports_of_run_of_nodup (hids : (p.documents.map Document.id).Nodup)
    (h : injector.run p = (.ok r, p')) (hd : p.documents[k]? = some d)
    (hd' : p'.documents[k]? = some d') :
    d'.imports = if changedIn d d' ≠ [] ∧ d.annotationAlias injector.settings = .absent
      then d.imports ++ [.ofModule injector.settings.annotationModule] else d.imports := by
  have hmem := List.mem_of_getElem? hd
  have hdue : (∃ e ∈ p.documents, injector.duesIn (injector.textsOf p) e ≠ [] ∧ e.id = d.id) ↔
      changedIn d d' ≠ [] := by
    rw [changedIn_of_run h hd hd']
    constructor
    · rintro ⟨e, he, hdue, hid⟩
      exact List.inj_on_of_nodup_map hids he hmem hid ▸ hdue
    · exact fun hdue => ⟨d, hmem, hdue, rfl⟩
  rw [importedIn_of_run h hd hd']
  refine if_congr ?_ rfl rfl
  rw [hdue, and_iff_right (ne_id_of_nodup hids hd), and_comm]

end Injector

/-! ## Two documents with one identifier -/

/-- The document that asks for `Count`. -/
def Document.countCaller : Document :=
  .caller {} "main.bal" [.plain "Count" (.primitive .int)]

/-- The document that defines it. -/
def Document.countDefiner (id : String) : Document :=
  ⟨id, [], [.ofNamed (.plain "Count" (.primitive .int))], []⟩

/-- Two modules with one of these documents each. -/
def Package.countElsewhere (id : String) : Package :=
  ⟨[⟨⟨"acme", "app", "0.1.0"⟩, [.countCaller], []⟩,
    ⟨⟨"acme", "app.types", "0.1.0"⟩, [.countDefiner id], []⟩], 0⟩

theorem run_countElsewhere (id : String) :
    ∃ r p' d₀ d₁, Injector.run {} (.countElsewhere id) = (.ok r, p') ∧
      p'.documents[0]? = some d₀ ∧ p'.documents[1]? = some d₁ := by
  have hdues : Injector.duesOf {} (.countElsewhere id) = [(Schema.ofKind .integer).compact] := rfl
  have hrun := Injector.run_of_readable (Nat.lt_irrefl 0)
    (Injector.readable_of_duesOf_eq hdues (by decide))
  obtain ⟨d₀, hd₀⟩ := Injector.exists_getElem?_of_run (k := 0) hrun rfl
  obtain ⟨d₁, hd₁⟩ := Injector.exists_getElem?_of_run (k := 1) hrun rfl
  exact ⟨_, _, d₀, d₁, hrun, hd₀, hd₁⟩

/-- Where the two have different identifiers, the annotated one gets the import. -/
theorem imports_countElsewhere_types : ∃ r p' d₁,
    Injector.run {} (.countElsewhere "types.bal") = (.ok r, p') ∧ p'.documents[1]? = some d₁ ∧
      Injector.changedIn (.countDefiner "types.bal") d₁ ≠ [] ∧
      d₁.imports = [.ofModule ⟨"ballerina", "ai"⟩] := by
  obtain ⟨r, p', d₀, d₁, hrun, -, hd₁⟩ := run_countElsewhere "types.bal"
  have hd : (Package.countElsewhere "types.bal").documents[1]? =
      some (.countDefiner "types.bal") := rfl
  have hannotated : Injector.changedIn (.countDefiner "types.bal") d₁ ≠ [] :=
    (Injector.changedIn_of_run hrun hd hd₁).2 (List.cons_ne_nil _ _)
  have himports := (Injector.imports_iff_of_run hrun hd hd₁).2 fun _ =>
    iff_of_true hannotated ⟨by decide, 1, _, d₁, hd, hd₁, rfl, hannotated⟩
  rw [if_pos ⟨hannotated, by decide⟩] at himports
  exact ⟨r, p', d₁, hrun, hd₁, hannotated, himports⟩

/-- Where they have the same one, the document that was not annotated gets the import, and the one
    that was annotated and cannot name the annotation module does not. -/
theorem imports_countElsewhere_main : ∃ r p' d₀ d₁,
    Injector.run {} (.countElsewhere "main.bal") = (.ok r, p') ∧
      p'.documents[0]? = some d₀ ∧ p'.documents[1]? = some d₁ ∧
      Injector.changedIn .countCaller d₀ = [] ∧
      d₀.imports = Document.countCaller.imports ++ [.ofModule ⟨"ballerina", "ai"⟩] ∧
      Injector.changedIn (.countDefiner "main.bal") d₁ ≠ [] ∧
      (Document.countDefiner "main.bal").annotationAlias {} = .absent ∧
      d₁.imports = (Document.countDefiner "main.bal").imports := by
  obtain ⟨r, p', d₀, d₁, hrun, hd₀, hd₁⟩ := run_countElsewhere "main.bal"
  have hd : (Package.countElsewhere "main.bal").documents[0]? = some .countCaller := rfl
  have hd' : (Package.countElsewhere "main.bal").documents[1]? =
      some (.countDefiner "main.bal") := rfl
  have hcaller : Injector.changedIn .countCaller d₀ = [] :=
    Decidable.not_not.1 fun hne => (Injector.changedIn_of_run hrun hd hd₀).1 hne rfl
  have hdefiner : Injector.changedIn (.countDefiner "main.bal") d₁ ≠ [] :=
    (Injector.changedIn_of_run hrun hd' hd₁).2 (List.cons_ne_nil _ _)
  have hfirst := Injector.importedIn_of_run hrun hd hd₀
  rw [if_pos ⟨by decide, by simp, _, List.mem_of_getElem? hd', List.cons_ne_nil _ _, rfl⟩]
    at hfirst
  have hsecond := Injector.importedIn_of_run hrun hd' hd₁
  rw [if_neg fun h => h.2.1 .countCaller (.head _) rfl] at hsecond
  exact ⟨r, p', d₀, d₁, hrun, hd₀, hd₁, hcaller, hfirst, hdefiner, by decide, hsecond⟩

end ResponseSchema
