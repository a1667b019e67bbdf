/-
  Json — texts of records.

  A record is read into a draft, field by field (`foldMembers`).  Its text may have the
  fields in any order, each at most once, and anything under other names.

  * `FieldText`: a member of such a text;
  * `fieldsText_compact`: compact texts are among them;
  * `fold_run`, `foldMembers_enclosed`: what one member does to a state, all of them do in a row;
  * `ReadsFields`, `foldMembers_fields`: so a draft has every field of the text put into it;
  * `element?_first`, `element?_afterComma`: records by positions;
  * `structured_object`, `readAll_ok`: what stands around a record.
-/
import ResponseSchema.Proofs.Json.Reading
import Mathlib.Data.List.Forall2
import Mathlib.Data.List.ReduceOption

namespace ResponseSchema

namespace Json

variable {α φ σ : Type}

/-- A member of a record: a field under its name, or any value under a name that no field has. -/
inductive FieldText (nameOf : φ → String) (Value : φ → List Char → Prop) :
    String → Spelling (Option φ)
  | field {f : φ} {cs : List Char} : Value f cs → FieldText nameOf Value (nameOf f) cs (some f)
  | other {name : String} {cs : List Char} {u : Unit} : (∀ f, nameOf f ≠ name) → AnyValue cs u →
    FieldText nameOf Value name cs none

/-- The members of a record after its opening bracket. -/
def FieldsText (nameOf : φ → String) (Value : φ → List Char → Prop) : Spelling (List (Option φ)) :=
  Enclosed '\x7d' (Member NameText (FieldText nameOf Value))

/-- **The compact text of an object has its members as fields.** -/
theorem fieldsText_compact (nameOf : φ → String) {Value : φ → List Char → Prop} {json : φ → Json}
    (hjson : ∀ f, Value f (json f).render) (fs : List φ) :
    ∃ cs, (object (fs.map fun f => (nameOf f, json f))).render = '\x7b' :: cs ∧
      FieldsText nameOf Value cs (fs.map some) := by
  refine enclosed_members ?_
  rw [List.forall₂_map_left_iff, List.forall₂_map_right_iff, List.forall₂_same]
  exact fun f _ => member_quote (.field (hjson f))

namespace Reader

/-! ## Folds -/

section
variable {Item : Spelling α} (update : σ → α → σ) (Ready : σ → List α → Prop)
  {cs rest : List Char} {as : List α}

/-- **What one step does to a state, a loop does in a row.**  `Ready` says what a state needs
    for the texts that follow. -/
theorem fold_run {step : σ → Reader (Option σ)} {closed : List Char}
    (hstep : ∀ {s a as v rest}, Ready s (a :: as) → After ',' Item v a → Ends rest →
      step s (v ++ rest) = .ok (some (update s a), rest))
    (hready : ∀ {s a as}, Ready s (a :: as) → Ready (update s a) as) (hclosed : Ends closed)
    (hend : ∀ s, step s closed = .ok (none, rest)) (h : Run (After ',' Item) cs as) {s : σ}
    (hs : Ready s as) : fold step s (cs ++ closed) = .ok (as.foldl update s, rest) := by
  have go : ∀ n s, as.length < n → Ready s as →
      foldUpTo step n s (cs ++ closed) = .ok (as.foldl update s, rest) := by
    clear hs
    induction h with
    | nil =>
      rintro (_ | n) s hn -  -- the loop makes one step more than there are texts
      · cases hn
      · exact bind_ok (hend s)
    | @cons v cs a as hv hrun ih =>
      rintro (_ | n) s hn hs
      · cases hn
      · rw [foldUpTo, List.append_assoc, bind_ok (hstep hs hv (ends_run hrun hclosed))]
        exact ih n (update s a) (by simpa using hn) (hready hs)
  have hlength := h.length_le fun _ _ => after_ne_nil
  exact go _ s (by rw [List.length_append]; omega) hs

theorem foldMembers_enclosed {field : σ → String → Reader σ} {Value : String → Spelling α}
    (hfield : ∀ {s a as name v rest}, Ready s (a :: as) → After ':' (Value name) v a → Ends rest →
      field s name (v ++ rest) = .ok (update s a, rest))
    (hready : ∀ {s a as}, Ready s (a :: as) → Ready (update s a) as)
    (h : Enclosed '\x7d' (Member NameText Value) cs as) {s : σ} (hs : Ready s as)
    (rest : List Char) : foldMembers field s (cs ++ rest) = .ok (as.foldl update s, rest) := by
  have hentry : ∀ {s a as rest v}, Ready s (a :: as) → Ends rest → Member NameText Value v a →
      namedField field s (v ++ rest) = .ok (update s a, rest) := by
    rintro s a as rest _ hs hrest ⟨name, n, v, rfl, hn, hv⟩
    rw [List.cons_append, List.append_assoc, List.cons_append, namedField,
      bind_ok (expect_cons _ _), bind_ok (stringRest_nameText hn _)]
    exact hfield hs hv hrest
  have hfold : foldMembers field s = closedOr '\x7d' s (do
      let s ← namedField field s
      fold (fun s => nextMember? (namedField field s)) s) := rfl
  rw [hfold]
  cases h with
  | empty hb =>
    rw [List.append_assoc]
    exact closedOr_close rfl _ _ hb rest
  | @items _ cs b a as hv hrun hb =>
    obtain ⟨b', v, rfl, hb', hv⟩ := hv
    have hends := ends_close (.inr rfl) hb rest
    have hrest : fold (fun s => nextMember? (namedField field s)) (update s a)
        (cs ++ (b ++ '\x7d' :: rest)) = .ok (as.foldl update (update s a), rest) :=
      fold_run update Ready (fun hs hv hrest => nextMember?_afterComma starts_member
        (fun _ hv => hentry hs hrest hv) hv) hready hends (fun _ => nextMember?_close _ hb rest) hrun
        (hready hs)
    simp only [List.append_assoc, List.singleton_append]
    rw [closedOr_more (.inr rfl) starts_member _ _ hb' hv,
      bind_ok (hentry hs (ends_run hrun hends) hv)]
    exact hrest

end

/-! ## Fields -/

/-- A draft that `field` reads into: one field by its name if the draft lacks it, and nothing under
    any other name. -/
structure ReadsFields (field : σ → String → Reader σ) (nameOf : φ → String)
    (Value : φ → List Char → Prop) (put : σ → φ → σ) (Lacks : σ → φ → Prop) : Prop where
  known {s : σ} {f : φ} {v rest : List Char} : Lacks s f →
    After ':' (fun cs _ => Value f cs) v () → Ends rest →
      field s (nameOf f) (v ++ rest) = .ok (put s f, rest)
  other (s : σ) {name : String} : (∀ f, nameOf f ≠ name) → field s name = (do valued skip; pure s)
  lacks_put {s : σ} {f g : φ} : nameOf f ≠ nameOf g → Lacks s g → Lacks (put s f) g

/-- Put a member into a draft if it is a field. -/
def putField (put : σ → φ → σ) (s : σ) : Option φ → σ
  | some f => put s f
  | none => s

/-- The draft lacks all of the fields, and none of them comes twice. -/
def Fits (nameOf : φ → String) (Lacks : σ → φ → Prop) (s : σ) (fs : List (Option φ)) : Prop :=
  (∀ f ∈ fs.reduceOption, Lacks s f) ∧ (fs.reduceOption.map nameOf).Nodup

section
variable {field : σ → String → Reader σ} {put : σ → φ → σ} {Lacks : σ → φ → Prop}
  {nameOf : φ → String} {Value : φ → List Char → Prop} {s : σ} {f? : Option φ} {cs rest : List Char}
  {fs : List (Option φ)}

theorem ReadsFields.member (hfield : ReadsFields field nameOf Value put Lacks) {name : String}
    (hfits : Fits nameOf Lacks s (f? :: fs)) (h : After ':' (FieldText nameOf Value name) cs f?)
    (hrest : Ends rest) : field s name (cs ++ rest) = .ok (putField put s f?, rest) := by
  obtain ⟨b, _, rfl, hb, b', v, rfl, hb', hv⟩ := h
  cases hv with
  | @field f _ hv =>
    exact hfield.known (hfits.1 f (by simp)) ⟨b, _, rfl, hb, b', v, rfl, hb', hv⟩ hrest
  | other hname hv =>
    have hskip := reads_valued reads_skip ⟨b, _, rfl, hb, b', v, rfl, hb', hv⟩ hrest
    rw [hfield.other s hname, bind_ok hskip]
    rfl

theorem ReadsFields.fits (hfield : ReadsFields field nameOf Value put Lacks)
    (h : Fits nameOf Lacks s (f? :: fs)) : Fits nameOf Lacks (putField put s f?) fs := by
  obtain ⟨hlacks, hnodup⟩ := h
  cases f? with
  | none => exact ⟨hlacks, hnodup⟩
  | some f =>
    simp only [List.reduceOption_cons_of_some, List.map_cons, List.nodup_cons, List.mem_map,
      not_exists, not_and, List.mem_cons, forall_eq_or_imp] at hlacks hnodup
    exact ⟨fun g hg => hfield.lacks_put (Ne.symm (hnodup.1 g hg)) (hlacks.2 g hg), hnodup.2⟩

/-- **A draft has every field of a text put into it**, if it lacks them all and none comes
    twice. -/
theorem foldMembers_fields (hfield : ReadsFields field nameOf Value put Lacks)
    (h : FieldsText nameOf Value cs fs) (hlacks : ∀ f, Lacks s f)
    (hnodup : (fs.reduceOption.map nameOf).Nodup) (rest : List Char) :
    foldMembers field s (cs ++ rest) = .ok (fs.reduceOption.foldl put s, rest) := by
  have hfits : Fits nameOf Lacks s fs := ⟨fun f _ => hlacks f, hnodup⟩
  have hread : foldMembers field s (cs ++ rest) = .ok (fs.foldl (putField put) s, rest) :=
    foldMembers_enclosed (putField put) (Fits nameOf Lacks) hfield.member hfield.fits h hfits rest
  have hfold : fs.reduceOption.foldl put s = fs.foldl (putField put) s := by
    rw [List.reduceOption, List.foldl_filterMap]
    rfl
  rw [hread, hfold]

end

theorem once_field {seen : Option α} (hseen : seen = none) {item : Reader α} {Value : Spelling α}
    (hitem : Reads item (Padded Value)) {v rest : List Char} {a : α}
    (hv : After ':' (fun cs _ => Value cs a) v ()) (hrest : Ends rest) :
    once seen item (v ++ rest) = .ok (some a, rest) := by
  obtain ⟨b, _, rfl, hb, b', v, rfl, hb', hv⟩ := hv
  subst hseen
  exact map_ok some (reads_valued hitem ⟨b, _, rfl, hb, b', v, rfl, hb', hv⟩ hrest)

theorem required_some (a : α) (cs : List Char) : required (some a) cs = .ok (a, cs) := rfl

/-! ## Positions -/

section
variable {Item : Spelling α} {item : Reader α} {v b rest : List Char} {a : α}

theorem element?_first (hstarts : Starts Item) (hitem : Reads item (Padded Item))
    (h : Padded Item v a) (hrest : Ends rest) :
    element? true item (v ++ rest) = .ok (some a, rest) := by
  obtain ⟨b, v, rfl, hb, hv⟩ := h
  have hread := hitem (.of_text hv) hrest
  obtain ⟨c, v, rfl, hblank, hclose, -⟩ := hstarts v a hv
  rw [List.cons_append] at hread
  rw [List.append_assoc, List.cons_append, element?, bind_ok (blanks_append hb hblank _),
    bind_ok (peek?_cons _ _)]
  simp only [hclose, if_false, if_true]
  exact map_ok some hread

theorem element?_afterComma (hitem : Reads item (Padded Item)) (h : After ',' Item v a)
    (hrest : Ends rest) : element? false item (v ++ rest) = .ok (some a, rest) := by
  obtain ⟨b, v, rfl, hb, hv⟩ := h
  rw [List.append_assoc, List.cons_append, element?, bind_ok (blanks_append hb rfl _),
    bind_ok (peek?_cons _ _)]
  exact map_ok some (hitem hv hrest)

theorem closeArray_append (hb : Blanks b) (rest : List Char) :
    closeArray (b ++ ']' :: rest) = .ok ((), rest) := by
  rw [closeArray, bind_ok (blanks_append hb rfl _), expect_cons]

end

/-! ## Around a record -/

theorem structured_object (byName byPosition : Reader α) {b : List Char} (hb : Blanks b)
    (cs : List Char) : structured byName byPosition (b ++ '\x7b' :: cs) = byName cs := by
  rw [structured, bind_ok (blanks_append hb rfl _)]
  rfl

theorem readAll_ok {reader : Reader α} {text : String} {b : List Char} {a : α}
    (h : reader text.toList = .ok (a, b)) (hb : Blanks b) : reader.readAll text = .ok a := by
  have hfinish : finish b = .ok ((), []) := by
    rw [finish, bind_ok (blanks_end hb)]
    rfl
  have hread : (do let a ← reader; finish; pure a : Reader α) text.toList = .ok (a, []) := by
    rw [bind_ok h, bind_ok hfinish]
    rfl
  rw [readAll, StateT.run', hread]
  rfl

end Reader

end Json

end ResponseSchema
