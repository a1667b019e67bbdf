/-
  Types — types whose text shows where their arrays begin.

  Types that differ only in unions inside unions, in unions of one member and in what
  their names refer to have one `normal` form.

  * `fills_render`: the text of the normal form has all characters of the text of the
    type, and a pair of parentheses for each array that hides the bars of its element;
  * a type without such arrays is `Legible`, and just these are written as their normal
    forms (`render_normal_iff`).
-/
import ResponseSchema.Proofs.Ty.Parts
import ResponseSchema.Ty.Display

namespace ResponseSchema

namespace Ty

/-! ## Normal forms -/

/-- The type with the given members: a single one alone, others as a union. -/
def ofMembers : List Ty → Ty
  | [t] => t
  | ts => union ts

/-- A name without what it refers to. -/
def bare (identifier : String) : Ty :=
  named identifier json []

mutual

/-- The members of a type with the unions among them opened, each in normal form.  A union without
    members is one itself. -/
def members : Ty → List Ty
  | union [] => [union []]
  | union (t :: ts) => members t ++ membersAll ts
  | array element => [array (ofMembers (members element))]
  | named identifier _ _ => [bare identifier]
  | t => [t]

/-- The members of each type in turn. -/
def membersAll : List Ty → List Ty
  | [] => []
  | t :: ts => members t ++ membersAll ts

end

/-- The type without unions inside unions, unions of one member and what names refer to. -/
def normal (t : Ty) : Ty :=
  ofMembers t.members

theorem members_ne_nil : ∀ t : Ty, t.members ≠ []
  | union (t :: ts) => by
    rw [members]
    simp [members_ne_nil t]
  | union [] | primitive _ | json | array _ | record _ | named .. | error | other _ => by
    simp [members]

mutual

/-- No member is a union of two or more. -/
theorem hasBars_of_mem_members : ∀ {t u : Ty}, u ∈ t.members → u.hasBars = false
  | union (t :: ts), u, h => by
    rcases List.mem_append.1 h with h | h
    · exact hasBars_of_mem_members h
    · exact hasBars_of_mem_membersAll h
  | union [], _, h | primitive _, _, h | json, _, h | array _, _, h | record _, _, h
  | named .., _, h | error, _, h | other _, _, h => by
    obtain rfl := List.mem_singleton.1 h
    rfl

theorem hasBars_of_mem_membersAll : ∀ {ts : List Ty} {u : Ty}, u ∈ membersAll ts →
    u.hasBars = false
  | t :: ts, u, h => by
    rcases List.mem_append.1 h with h | h
    · exact hasBars_of_mem_members h
    · exact hasBars_of_mem_membersAll h

end

theorem normal_cases (t : Ty) :
    (∃ u, t.members = [u] ∧ t.normal = u ∧ u.hasBars = false) ∨
      ∃ u u' us, t.members = u :: u' :: us ∧ t.normal = union (u :: u' :: us) := by
  have hne := members_ne_nil t
  have hbars : ∀ u ∈ t.members, u.hasBars = false := fun u => hasBars_of_mem_members
  rw [normal]
  rcases hmembers : t.members with _ | ⟨u, _ | ⟨u', us⟩⟩
  · exact absurd hmembers hne
  · exact .inl ⟨u, rfl, rfl, hbars u (by simp [hmembers])⟩
  · exact .inr ⟨u, u', us, rfl, rfl⟩

/-! ## The text of a normal form -/

theorem renderMembers_append (ts us : List Ty) :
    renderMembers (ts ++ us) = renderMembers ts ++ renderMembers us := by
  induction ts with
  | nil => rfl
  | cons t ts ih => simp [renderMembers, ih]

/-- After a bar, members are written as the type that they make. -/
theorem renderMembers_eq {ts : List Ty} (h : ts ≠ []) :
    renderMembers ts = '|' :: (ofMembers ts).render := by
  rcases ts with _ | ⟨t, _ | ⟨t', ts⟩⟩
  · exact absurd rfl h
  · rw [renderMembers, renderMembers, List.append_nil, ofMembers]
  · rfl

theorem renderMembers_members (t : Ty) : renderMembers t.members = '|' :: t.normal.render :=
  renderMembers_eq (members_ne_nil t)

theorem render_normal_union (t : Ty) (ts : List Ty) :
    (union (t :: ts)).normal.render = t.normal.render ++ renderMembers (membersAll ts) := by
  have h : renderMembers (union (t :: ts)).members =
      renderMembers t.members ++ renderMembers (membersAll ts) := renderMembers_append _ _
  rw [renderMembers_members, renderMembers_members] at h
  exact (List.cons.inj h).2

theorem hasBars_normal {t : Ty} (h : t.hasBars) : t.normal.hasBars := by
  obtain ⟨u, u', us, rfl⟩ : ∃ u u' us, t = union (u :: u' :: us) := by
    cases t with
    | union ts =>
      rcases ts with _ | ⟨u, _ | ⟨u', us⟩⟩
      · cases h
      · cases h
      · exact ⟨u, u', us, rfl⟩
    | _ => cases h
  rcases normal_cases (union (u :: u' :: us)) with ⟨v, hmembers, -⟩ | ⟨v, v', vs, -, hnormal⟩
  · -- each of the two members has a member of its own
    have hone := congrArg List.length hmembers
    have hfirst := List.length_pos_iff.2 (members_ne_nil u)
    have hsecond := List.length_pos_iff.2 (members_ne_nil u')
    simp only [members, membersAll, List.length_append, List.length_singleton] at hone
    omega
  · rw [hnormal]
    rfl

/-! ## Missing parentheses -/

/-- Whether bars are written at the top of an array's element, and no parentheses around it. -/
def hidesBars : Ty → Bool
  | array element => element.normal.hasBars && !element.hasBars
  | _ => false

/-- Every array shows where its element begins. -/
def Legible (t : Ty) : Prop :=
  ∀ u ∈ t.parts, u.hidesBars = false

instance (t : Ty) : Decidable t.Legible :=
  inferInstanceAs (Decidable (∀ u ∈ t.parts, u.hidesBars = false))

/-- The second text is the first one with `n` more characters in it. -/
def Fills (n : Nat) (cs ds : List Char) : Prop :=
  cs.Sublist ds ∧ ds.length = cs.length + n

namespace Fills

variable {m n : Nat} {cs ds cs' ds' : List Char}

theorem refl (cs : List Char) : Fills 0 cs cs :=
  ⟨.refl cs, rfl⟩

theorem append (h : Fills m cs ds) (h' : Fills n cs' ds') : Fills (m + n) (cs ++ cs') (ds ++ ds') := by
  refine ⟨h.1.append h'.1, ?_⟩
  rw [List.length_append, List.length_append, h.2, h'.2]
  omega

theorem cons (c : Char) (h : Fills n cs ds) : Fills n (c :: cs) (c :: ds) :=
  ⟨h.1.cons_cons c, by rw [List.length_cons, List.length_cons, h.2]; omega⟩

/-- Parentheses are two more characters. -/
theorem parenthesize (h : Fills n cs ds) :
    Fills (n + 2) (cs ++ ['[', ']']) ('(' :: (ds ++ [')', '[', ']'])) := by
  refine ⟨?_, ?_⟩
  · exact (h.1.append (.cons _ (.refl _))).cons _
  · simp only [List.length_cons, List.length_append, List.length_nil, h.2]
    omega

theorem eq_iff (h : Fills n cs ds) : ds = cs ↔ n = 0 := by
  constructor
  · rintro rfl
    have := h.2
    omega
  · rintro rfl
    exact (h.1.eq_of_length h.2.symm).symm

end Fills

mutual

/-- **A type is written as its normal form, less a pair of parentheses for each array that hides
    bars.** -/
theorem fills_render : ∀ t : Ty, Fills (2 * t.parts.countP hidesBars) t.render t.normal.render
  | array element => by
    have ih := fills_render element
    have hnormal : (array element).normal = array element.normal := rfl
    have hcount : (array element).parts.countP hidesBars =
        element.parts.countP hidesBars + if hidesBars (array element) then 1 else 0 :=
      List.countP_cons
    rw [hnormal, render_array, render_array, hcount]
    by_cases hbars : element.hasBars
    · -- parentheses on both sides
      rw [if_pos (hasBars_normal hbars), if_pos hbars]
      simpa [hidesBars, hbars] using (ih.append (.refl [')', '[', ']'])).cons '('
    · rw [if_neg hbars]
      by_cases hhidden : element.normal.hasBars
      · -- the parentheses that are missing
        rw [if_pos hhidden]
        simpa [hidesBars, hbars, hhidden, Nat.mul_add] using ih.parenthesize
      · rw [if_neg hhidden]
        simpa [hidesBars, hhidden] using ih.append (.refl ['[', ']'])
  | union (t :: ts) => by
    rw [render_normal_union, render_union_cons]
    have h := (fills_render t).append (fills_renderMembers ts)
    simpa [parts, partsAll, hidesBars, List.countP_cons, Nat.mul_add] using h
  | union [] | primitive _ | json | record _ | named .. | error | other _ => .refl _

theorem fills_renderMembers : ∀ ts : List Ty,
    Fills (2 * (partsAll ts).countP hidesBars) (renderMembers ts) (renderMembers (membersAll ts))
  | [] => .refl _
  | t :: ts => by
    have h := ((fills_render t).cons '|').append (fills_renderMembers ts)
    rw [membersAll, renderMembers_append, renderMembers_members]
    simpa [partsAll, renderMembers, Nat.mul_add] using h

end

/-- A type is written as its normal form iff it is legible. -/
theorem render_normal_iff {t : Ty} : t.normal.render = t.render ↔ t.Legible := by
  have hcount : 2 * t.parts.countP hidesBars = 0 ↔ t.parts.countP hidesBars = 0 := by omega
  rw [(fills_render t).eq_iff, hcount, List.countP_eq_zero]
  simp [Legible]

end Ty

end ResponseSchema
