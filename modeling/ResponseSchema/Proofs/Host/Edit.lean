/-
  Host — what editing with a state keeps.

  An edit changes elements where they stand, so their number stays
  (`length_editList`) and a package is left as it was iff its documents are
  (`edit_eq_self_iff`).  Once the state stops an edit, the rest stays
  (`editList_of_stopped`).

  * `forall₂_editList`: what every step keeps of its element, the edit keeps;
  * `Package.outline`: the modules and how many documents each has, which no edit
    changes (`outline_edit`);
  * `Package.Related`: two packages with one outline whose documents are related,
    as before and after an edit (`related_edit`).
-/
import ResponseSchema.Host.Document
import Mathlib.Data.List.Forall2
import Mathlib.Tactic.Common

namespace ResponseSchema

variable {σ α : Type} {f : σ → α → α × σ}

/-- Lists that are related one by one are related at every position. -/
theorem forall₂_getElem? {β : Type} {R : α → β → Prop} {as : List α} {bs : List β}
    (h : List.Forall₂ R as bs) {i : Nat} {a : α} {b : β} (ha : as[i]? = some a)
    (hb : bs[i]? = some b) : R a b := by
  obtain ⟨hi, rfl⟩ := List.getElem?_eq_some_iff.1 ha
  obtain ⟨hi', rfl⟩ := List.getElem?_eq_some_iff.1 hb
  exact h.get hi hi'

theorem forall₂_trans {β γ : Type} {R : α → β → Prop} {S : β → γ → Prop} {T : α → γ → Prop}
    (h : ∀ a b c, R a b → S b c → T a c) : ∀ {as : List α} {bs : List β} {cs : List γ},
    List.Forall₂ R as bs → List.Forall₂ S bs cs → List.Forall₂ T as cs
  | [], [], [], .nil, .nil => .nil
  | _ :: _, _ :: _, _ :: _, .cons hab habs, .cons hbc hbcs =>
    .cons (h _ _ _ hab hbc) (forall₂_trans h habs hbcs)

/-- What a relation hands on, the members of one list hand on to those of the other. -/
theorem forall_mem_of_forall₂ {β : Type} {R : α → β → Prop} {P : α → Prop} {Q : β → Prop}
    {as : List α} {bs : List β} (h : List.Forall₂ R as bs) (hR : ∀ a b, R a b → P a → Q b)
    (has : ∀ a ∈ as, P a) : ∀ b ∈ bs, Q b := by
  induction h with
  | nil => exact nofun
  | cons hab _ ih =>
    rw [List.forall_mem_cons] at has ⊢
    exact ⟨hR _ _ hab has.1, ih has.2⟩

@[simp] theorem length_editList (f : σ → α → α × σ) (s : σ) (as : List α) :
    (editList f s as).1.length = as.length := by
  induction as generalizing s with
  | nil => rfl
  | cons a as ih => simp [editList, ih]

/-- What every step keeps between the element and what it was made from, the edit keeps. -/
theorem forall₂_editList_map {β : Type} {R : β → α → Prop} {g : β → α} {bs : List β}
    (h : ∀ b ∈ bs, ∀ s, R b (f s (g b)).1) (s : σ) :
    List.Forall₂ R bs (editList f s (bs.map g)).1 := by
  induction bs generalizing s with
  | nil => exact .nil
  | cons b bs ih =>
    rw [List.forall_mem_cons] at h
    exact .cons (h.1 s) (ih h.2 _)

/-- **What every step keeps of its element, the edit keeps of all.** -/
theorem forall₂_editList {R : α → α → Prop} {as : List α} (h : ∀ a ∈ as, ∀ s, R a (f s a).1)
    (s : σ) : List.Forall₂ R as (editList f s as).1 := by
  have edited := forall₂_editList_map (g := id) h s
  rwa [List.map_id] at edited

/-- What every step keeps of its element is the same for all elements afterwards. -/
theorem map_editList {β : Type} {g : α → β} (h : ∀ a s, g (f s a).1 = g a) (as : List α) (s : σ) :
    (editList f s as).1.map g = as.map g := by
  induction as generalizing s with
  | nil => rfl
  | cons a as ih => rw [editList, List.map_cons, List.map_cons, h, ih]

/-- In a state that lets nothing change, nothing changes. -/
theorem editList_of_stopped {s : σ} (h : ∀ a, f s a = (a, s)) (as : List α) :
    editList f s as = (as, s) := by
  induction as with
  | nil => rfl
  | cons a as ih => rw [editList, h a, ih]

/-! ## Packages -/

variable (f : σ → Document → Document × σ)

theorem documents_edit_fst (s : σ) (p : Package) :
    (p.edit f s).1.documents = (editList f s p.documents).1 :=
  congrArg Prod.fst (documents_edit f s p)

theorem edit_snd (s : σ) (p : Package) : (p.edit f s).2 = (editList f s p.documents).2 :=
  congrArg Prod.snd (documents_edit f s p)

@[simp] theorem errorCount_edit (s : σ) (p : Package) :
    (p.edit f s).1.errorCount = p.errorCount := rfl

/-- The modules of a package, with the numbers of their documents and of their tests. -/
def Package.outline (p : Package) : List (ModuleId × Nat × Nat) :=
  p.modules.map fun m => (m.id, m.documents.length, m.tests.length)

@[simp] theorem outline_edit (s : σ) (p : Package) : (p.edit f s).1.outline = p.outline :=
  map_editList (by simp [Module.edit]) p.modules s

/-- The packages have the same modules with as many documents each, and their documents are
    related one by one. -/
structure Package.Related (R : Document → Document → Prop) (p p' : Package) : Prop where
  errorCount : p'.errorCount = p.errorCount
  outline : p'.outline = p.outline
  documents : List.Forall₂ R p.documents p'.documents

theorem Package.Related.trans {R S T : Document → Document → Prop} {p p' p'' : Package}
    (h : p.Related R p') (hT : ∀ d d' d'', R d d' → S d' d'' → T d d'')
    (h' : p'.Related S p'') : p.Related T p'' where
  errorCount := h'.errorCount.trans h.errorCount
  outline := h'.outline.trans h.outline
  documents := forall₂_trans hT h.documents h'.documents

theorem related_edit {R : Document → Document → Prop} {p : Package}
    (h : ∀ d ∈ p.documents, ∀ s, R d (f s d).1) (s : σ) : p.Related R (p.edit f s).1 := by
  refine ⟨errorCount_edit f s p, outline_edit f s p, ?_⟩
  rw [documents_edit_fst]
  exact forall₂_editList h s

theorem module_edit_eq_self_iff (s : σ) (m : Module) :
    (m.edit f s).1 = m ↔ (editList f s m.allDocuments).1 = m.allDocuments := by
  obtain ⟨id, documents, tests⟩ := m
  have length := length_editList f s documents
  simp only [Module.edit, Module.allDocuments, editList_append, Module.mk.injEq, true_and]
  constructor
  · rintro ⟨hd, ht⟩
    rw [hd, ht]
  · exact fun h => List.append_inj h length

/-- **A package stays as it is iff its documents do.** -/
theorem edit_eq_self_iff (s : σ) (p : Package) :
    (p.edit f s).1 = p ↔ (editList f s p.documents).1 = p.documents := by
  obtain ⟨modules, errorCount⟩ := p
  simp only [Package.edit, Package.documents, Package.mk.injEq, and_true]
  induction modules generalizing s with
  | nil => simp [editList]
  | cons m ms ih =>
    have hm := module_edit_eq_self_iff f s m
    have length := length_editList f s m.allDocuments
    have hstate : (m.edit f s).2 = (editList f s m.allDocuments).2 :=
      congrArg Prod.snd (allDocuments_edit f s m)
    rw [editList, List.flatMap_cons, editList_append, List.cons.injEq, ih, hm, hstate]
    constructor
    · rintro ⟨hd, ht⟩
      rw [hd, ht]
    · exact fun h => List.append_inj h length

end ResponseSchema
