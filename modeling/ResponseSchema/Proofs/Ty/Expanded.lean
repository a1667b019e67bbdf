/-
  Types — what every schema made from a type has.

  `expand_induction`: a property of schemas that synthesis hands on from the parts
  of a type to the type holds of every schema that it makes.  `Q` is what is known
  of the types, handed down to their parts; it has to say what is needed of the
  schemas that are attached to names, for these are taken as they are.

  `normalize_of_expand`: where no name has an attached schema, the schema is one that
  lowering leaves as it is.
-/
import ResponseSchema.Proofs.Dialect.NormalForm
import ResponseSchema.Proofs.Ty.Foreign

namespace ResponseSchema

namespace Ty

/-! ## Induction along synthesis -/

/-- `Q` passes from a type to its parts. -/
structure Inherited (Q : Ty → Prop) : Prop where
  element : ∀ t, Q (array t) → Q t
  members : ∀ ts, Q (union ts) → ∀ t ∈ ts, Q t
  fields : ∀ fs, Q (record fs) → ∀ e ∈ fs, Q e.2
  referred : ∀ identifier t metadata, Q (named identifier t metadata) → Q t

theorem Inherited.of_reaches {Q : Ty → Prop} (inherited : Inherited Q) {t u : Ty} (hq : Q t)
    (h : t.Reaches u) : Q u := by
  induction h with
  | refl t => exact hq
  | element _ ih => exact ih (inherited.element _ hq)
  | member ht _ ih => exact ih (inherited.members _ hq _ ht)

/-- `P` holds of the schemas that synthesis starts from, and passes from the schemas of the parts
    to the schema that it puts together. -/
structure Builds (Q : Ty → Prop) (P : Schema → Prop) : Prop where
  ofKind : ∀ k, P (.ofKind k)
  anyJson : P .anyJson
  arrayOf : ∀ s, P s → P (.arrayOf s)
  ofAlternatives : ∀ s s' ss, (∀ t ∈ s :: s' :: ss, P t) → P (.ofAlternatives (s :: s' :: ss))
  objectOf : ∀ fs ps, Q (record fs) → Entries.names ps = Entries.names fs → (∀ e ∈ ps, P e.2) →
    P (.objectOf ps)
  attached : ∀ identifier t metadata v s, Q (named identifier t metadata) →
    attachedSchema? metadata = some v → Schema.read v = .ok s → P s

section
variable {Q : Ty → Prop} {P : Schema → Prop}

theorem Builds.joinMembers (builds : Builds Q P) {t : Ty} {ss : List Schema} {s : Schema}
    (hss : ∀ s ∈ ss, P s) (h : joinMembers t ss = .ok s) : P s := by
  rcases ss with _ | ⟨s, _ | ⟨s', ss⟩⟩
  · cases h
  · cases h; exact hss _ (by simp)
  · cases h; exact builds.ofAlternatives s s' ss hss

mutual

/-- **What synthesis hands on from the parts of a type, every schema of a type has.** -/
theorem expand_induction (inherited : Inherited Q) (builds : Builds Q P) (phase : Phase) :
    ∀ (t : Ty) (enclosing : List String) (s : Schema), Q t →
      expand phase enclosing t = .ok s → P s
  | primitive p, _, _, _, h => by cases h; exact builds.ofKind p.kind
  | json, _, _, _, h => by cases h; exact builds.anyJson
  | array element, enclosing, s, hq, h => by
    obtain ⟨items, hitems, rfl⟩ := map_eq_ok h
    have hitem := inherited.element element hq
    exact builds.arrayOf items
      (expand_induction inherited builds phase element enclosing items hitem hitems)
  | union ts, enclosing, s, hq, h => by
    obtain ⟨ss, hss, h⟩ := bind_eq_ok h
    have hmembers := inherited.members ts hq
    exact builds.joinMembers
      (expandAll_induction inherited builds phase ts enclosing ss hmembers hss) h
  | record fields, enclosing, s, hq, h => by
    cases phase with
    | runtime => cases h
    | build =>
      obtain ⟨ps, hps, rfl⟩ := map_eq_ok h
      have hfields := inherited.fields fields hq
      have ⟨hnames, hP⟩ :=
        expandFields_induction inherited builds .build fields enclosing ps hfields hps
      exact builds.objectOf fields ps hq hnames hP
  | named identifier referred metadata, enclosing, s, hq, h => by
    cases hattached : attachedSchema? metadata with
    | some v =>
      rw [expand_named_of_attached hattached] at h
      exact builds.attached identifier referred metadata v s hq hattached h
    | none =>
      cases phase with
      | runtime => rw [expand_named_runtime hattached] at h; cases h
      | build =>
        obtain ⟨-, h⟩ := (expand_named_build_iff hattached).1 h
        have hreferred := inherited.referred identifier referred metadata hq
        exact expand_induction inherited builds .build referred _ s hreferred h
  | error, _, _, _, h => by cases h
  | other _, _, _, _, h => by cases h

theorem expandAll_induction (inherited : Inherited Q) (builds : Builds Q P) (phase : Phase) :
    ∀ (ts : List Ty) (enclosing : List String) (ss : List Schema), (∀ t ∈ ts, Q t) →
      expandAll phase enclosing ts = .ok ss → ∀ s ∈ ss, P s
  | [], _, _, _, h => by cases h; simp
  | t :: ts, enclosing, ss, hq, h => by
    obtain ⟨s, hs, h⟩ := bind_eq_ok h
    obtain ⟨ss, hss, rfl⟩ := map_eq_ok h
    rw [List.forall_mem_cons] at hq ⊢
    exact ⟨expand_induction inherited builds phase t enclosing s hq.1 hs,
      expandAll_induction inherited builds phase ts enclosing ss hq.2 hss⟩

theorem expandFields_induction (inherited : Inherited Q) (builds : Builds Q P) (phase : Phase) :
    ∀ (fs : List (String × Ty)) (enclosing : List String) (ps : List (String × Schema)),
      (∀ e ∈ fs, Q e.2) → expandFields phase enclosing fs = .ok ps →
        Entries.names ps = Entries.names fs ∧ ∀ e ∈ ps, P e.2
  | [], _, _, _, h => by cases h; simp
  | (name, t) :: fs, enclosing, ps, hq, h => by
    obtain ⟨s, hs, h⟩ := bind_eq_ok h
    obtain ⟨ps, hps, rfl⟩ := map_eq_ok h
    rw [List.forall_mem_cons] at hq ⊢
    have ⟨hnames, hP⟩ :=
      expandFields_induction inherited builds phase fs enclosing ps hq.2 hps
    exact ⟨congrArg (name :: ·) hnames,
      expand_induction inherited builds phase t enclosing s hq.1 hs, hP⟩

end

end

/-! ## Types without attached schemas -/

/-- No name in the type, wherever it is, has an attached schema. -/
def Unattached (t : Ty) : Prop :=
  ∀ n ∈ t.allNames, n.attached? = none

instance (t : Ty) : Decidable t.Unattached :=
  inferInstanceAs (Decidable (∀ n ∈ t.allNames, _))

theorem mem_allNamesOfAll {n : NamedType} {ts : List Ty} :
    n ∈ allNamesOfAll ts ↔ ∃ t ∈ ts, n ∈ t.allNames := by
  induction ts with
  | nil => simp [allNamesOfAll]
  | cons t ts ih => simp [allNamesOfAll, ih]

theorem mem_allNamesOfFields {n : NamedType} {fs : List (String × Ty)} :
    n ∈ allNamesOfFields fs ↔ ∃ e ∈ fs, n ∈ e.2.allNames := by
  induction fs with
  | nil => simp [allNamesOfFields]
  | cons e fs ih => simp [allNamesOfFields, ih]

theorem inherited_unattached : Inherited Unattached where
  element _ h := h
  members _ h t ht n hn := h n (mem_allNamesOfAll.2 ⟨t, ht, hn⟩)
  fields _ h e he n hn := h n (mem_allNamesOfFields.2 ⟨e, he, hn⟩)
  referred _ _ _ h n hn := h n (List.mem_cons_of_mem _ hn)

theorem builds_normal : Builds Unattached fun s => s.normalize = s where
  ofKind _ := rfl
  anyJson := rfl
  arrayOf s h := by
    show Schema.arrayOf s.normalize = Schema.arrayOf s
    rw [h]
  ofAlternatives s s' ss h := by
    show Schema.ofAlternatives (Schema.normalizeList (s :: s' :: ss)) = _
    rw [Schema.normalizeList_eq_map, (Schema.map_normalize_eq_self _).2 h]
  objectOf fs ps _ _ h := by
    have hentries : (ps.map fun e => (e.1, e.2.normalize)) = ps := by
      conv_rhs => rw [← List.map_id ps]
      exact List.map_congr_left fun e he => Prod.ext rfl (h e he)
    show Schema.objectOf (Schema.normalizeEntries ps) = _
    rw [Schema.normalizeEntries_eq_map, hentries]
  attached identifier t metadata v s hq hattached := by
    have hnone : attachedSchema? metadata = none := hq _ List.mem_cons_self
    rw [hnone] at hattached
    cases hattached

/-- **Lowering leaves a schema alone that was made without attached schemas.** -/
theorem normalize_of_expand {phase : Phase} {t : Ty} {enclosing : List String} {s : Schema}
    (ht : t.Unattached) (h : expand phase enclosing t = .ok s) : s.normalize = s :=
  expand_induction inherited_unattached builds_normal phase t enclosing s ht h

end Ty

end ResponseSchema
