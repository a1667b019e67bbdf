/-
  Injection — the pass that adds imports.

  * `mem_pending_iff`: the documents that wait for an import are those in which a
    text was due;
  * `addImport_eq`: a step adds the import iff the document waits for it and
    cannot name the annotation module, and nobody waits under its identifier then;
  * `getElem?_editList_addImport`: so of the documents with one identifier only
    the first can get the import;
  * `importedSince`: the documents whose imports differ, which the pass lists
    (`editList_addImport_added`).
-/
import ResponseSchema.Proofs.Injection.Annotating

namespace ResponseSchema

/-! ## Documents that wait -/

namespace PendingImports

variable {p : PendingImports} {id x : String}

theorem mem_insert : x ∈ (p.insert id).2.ids ↔ x ∈ p.ids ∨ x = id := by
  rw [insert]
  split
  · next h =>
    refine ⟨.inl, ?_⟩
    rintro (hx | rfl)
    · exact hx
    · exact h
  · simp

theorem take_fst : (p.take id).1 ↔ id ∈ p.ids := by
  rw [take]
  split
  · next h => simp [h]
  · next h => simp [h]

theorem mem_take : x ∈ (p.take id).2.ids ↔ x ∈ p.ids ∧ x ≠ id := by
  rw [take]
  split
  · simp
  · next h =>
    refine ⟨fun hx => ⟨hx, ?_⟩, And.left⟩
    rintro rfl
    exact h hx

end PendingImports

namespace Injector

variable {injector : Injector} {schemas : SchemaCache}

/-- **A document waits for an import iff a text was due in it**, or in one with its identifier. -/
theorem mem_pending_iff (ds : List Document) (progress : Progress) {id : String} :
    id ∈ (ds.foldl (injector.progressAfter schemas) progress).pending.ids ↔
      id ∈ progress.pending.ids ∨ ∃ d ∈ ds, injector.duesIn schemas d ≠ [] ∧ d.id = id := by
  induction ds generalizing progress with
  | nil => simp
  | cons d ds ih =>
    rw [List.foldl_cons, ih, List.exists_mem_cons_iff, ← or_assoc]
    refine or_congr_left ?_
    rw [progressAfter]
    split
    · next h => simp [h]
    · next h => simp [h, PendingImports.mem_insert, eq_comm]

/-! ## Adding imports -/

variable (injector) in
/-- The document, with the annotation module as its last import. -/
def withImport (d : Document) : Document :=
  { d with imports := d.imports ++ [.ofModule injector.settings.annotationModule] }

theorem withImport_imports_ne (d : Document) : (injector.withImport d).imports ≠ d.imports := by
  simp [withImport]

/-- What a step does with a document. -/
theorem addImport_eq (state : PendingImports × List String) (d : Document) :
    injector.addImport state d =
      if d.id ∈ state.1.ids ∧ d.annotationAlias injector.settings = .absent then
        (injector.withImport d, (state.1.take d.id).2, state.2 ++ [d.id])
      else (d, (state.1.take d.id).2, state.2) := by
  rw [addImport]
  simp only [PendingImports.take_fst]
  by_cases hid : d.id ∈ state.1.ids
  · cases halias : d.annotationAlias injector.settings with
    | absent => simp [hid, withImport]
    | inScope name => simp [hid]
    | suppressed => simp [hid]
  · simp [hid]

theorem addImport_pending (state : PendingImports × List String) (d : Document) :
    (injector.addImport state d).2.1 = (state.1.take d.id).2 := by
  rw [addImport_eq]; split <;> rfl

theorem addImport_imports (state : PendingImports × List String) (d : Document) :
    (injector.addImport state d).1 = d ∨ d.annotationAlias injector.settings = .absent ∧
      (injector.addImport state d).1 = injector.withImport d := by
  rw [addImport_eq]
  split
  · next h => exact .inr ⟨h.2, rfl⟩
  · exact .inl rfl

/-- **The pass adds the import to the first of the documents with an identifier that waits, if
    that document cannot name the annotation module.** -/
theorem getElem?_editList_addImport : ∀ (ds : List Document) (state : PendingImports × List String)
    {k : Nat} {d : Document}, ds[k]? = some d →
    (editList injector.addImport state ds).1[k]? = some
      (if d.id ∈ state.1.ids ∧ d.annotationAlias injector.settings = .absent ∧
        ∀ e ∈ ds.take k, e.id ≠ d.id then injector.withImport d else d)
  | [], _, _, _, h => by cases h
  | e :: ds, state, 0, d, h => by
    cases h
    rw [editList, List.getElem?_cons_zero, addImport_eq, apply_ite Prod.fst]
    simp
  | e :: ds, state, k + 1, d, h => by
    have ih := getElem?_editList_addImport ds (injector.addImport state e).2 h
    rw [editList, List.getElem?_cons_succ, ih, addImport_pending]
    refine congrArg some (if_congr ?_ rfl rfl)
    -- after the first document nobody waits under its identifier
    rw [PendingImports.mem_take, List.take_succ_cons, List.forall_mem_cons, and_assoc,
      and_left_comm (a := d.id ≠ e.id), ne_comm]

/-! ## Documents with a new import -/

/-- The documents whose imports differ, in their order. -/
def importedSince (before after : List Document) : List String :=
  ((before.zip after).filter fun e => e.1.imports ≠ e.2.imports).map (·.1.id)

/-- It does not depend on anything but the identifiers and the imports. -/
theorem importedSince_map {f : Document → Document}
    (h : ∀ d, (f d).id = d.id ∧ (f d).imports = d.imports) (before after : List Document) :
    importedSince (before.map f) after = importedSince before after := by
  simp [importedSince, List.zip_map_left, List.filter_map, Function.comp_def, h]

/-- **The pass lists the documents whose imports differ.** -/
theorem editList_addImport_added (ds : List Document) (state : PendingImports × List String) :
    (editList injector.addImport state ds).2.2 =
      state.2 ++ importedSince ds (editList injector.addImport state ds).1 := by
  induction ds generalizing state with
  | nil => simp [editList, importedSince]
  | cons d ds ih =>
    rw [editList, ih, addImport_eq]
    split
    · simp [importedSince, (withImport_imports_ne d).symm]
    · simp [importedSince]

end Injector

end ResponseSchema
