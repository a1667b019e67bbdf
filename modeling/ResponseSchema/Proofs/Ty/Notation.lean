/-
  Types — what the text of a type tells.

  * `Reads`: a reader goes over a text once and keeps the members that it has seen before
    each open parenthesis; from the text of a normal form it takes the members of the
    type (`reads_normal`), so that this text belongs to no other (`render_normal_inj`);
  * `exists_legible`: every text is that of a legible type;
  * `legible_iff_unambiguous`: so one text stands for one normal form among the legible
    types, and among no more.
-/
import ResponseSchema.Proofs.Ty.Legible

namespace ResponseSchema

namespace Ty

/-! ## Words -/

/-- The words of the notation, with what they stand for. -/
def words : Entries Ty :=
  [("boolean", primitive .boolean), ("int", primitive .int), ("float", primitive .float),
    ("decimal", primitive .decimal), ("string", primitive .string), ("byte", primitive .byte),
    ("json", json), ("error", error), ("never", union [])]

/-- The characters of the notation that stand in no word. -/
def marks : List Char :=
  ['|', '(', ')', '[', ']']

/-- The type that a word stands for: a name, if the word is not one of the notation. -/
def ofWord (w : List Char) : Ty :=
  (words.lookup (String.ofList w)).getD (bare (String.ofList w))

/-- Whether a text has no other characters than words have. -/
def isWord (w : List Char) : Bool :=
  w.all (· ∉ marks)

/-- Whether an identifier is told from the notation: it has none of its characters, as one of
    letters, digits and underscores has none, and is no word of it. -/
def isPlain (identifier : String) : Bool :=
  isWord identifier.toList && identifier ∉ words.names

/-- Whether the notation has a form for the type: names are plain, and there are no records and no
    shapes outside the algebra. -/
def hasForm : Ty → Bool
  | named identifier _ _ => isPlain identifier
  | record _ | other _ => false
  | _ => true

/-- The type consists of scalars, JSON values, errors, plain names, arrays and unions. -/
def Plain (t : Ty) : Prop :=
  ∀ u ∈ t.parts, u.hasForm

instance (t : Ty) : Decidable t.Plain :=
  inferInstanceAs (Decidable (∀ u ∈ t.parts, u.hasForm))

theorem plain_array_iff {t : Ty} : (array t).Plain ↔ t.Plain := by
  simp [Plain, parts, hasForm]

theorem plain_union_iff {ts : List Ty} : (union ts).Plain ↔ ∀ t ∈ ts, t.Plain := by
  simp only [Plain, parts, partsAll_eq_flatMap, List.forall_mem_cons, hasForm, true_and,
    List.forall_mem_flatMap]

theorem plain_ofMembers {ts : List Ty} (h : ∀ t ∈ ts, t.Plain) : (ofMembers ts).Plain := by
  rcases ts with _ | ⟨t, _ | ⟨t', ts⟩⟩
  · exact plain_union_iff.2 h
  · exact h t List.mem_cons_self
  · exact plain_union_iff.2 h

theorem isWord_of_isPlain {identifier : String} (h : isPlain identifier) :
    isWord identifier.toList :=
  (Bool.and_eq_true_iff.1 h).1

theorem ofWord_of_isPlain {identifier : String} (h : isPlain identifier) :
    ofWord identifier.toList = bare identifier := by
  have hnames : identifier ∉ words.names := of_decide_eq_true (Bool.and_eq_true_iff.1 h).2
  rw [ofWord, String.ofList_toList, Entries.lookup_eq_none_iff.2 hnames, Option.getD_none]

/-! ## Reading a text -/

/-- What has been read after the last bar or parenthesis. -/
inductive Piece where
  | word (w : List Char)
  | whole (t : Ty)

/-- The type that a piece stands for. -/
def Piece.ty : Piece → Ty
  | word w => ofWord w
  | whole t => t

/-- The piece with one more character. -/
def Piece.push (c : Char) : Piece → Piece
  | word w => word (w ++ [c])
  | whole t => whole t

/-- What a reader knows inside a text. -/
structure Reading where
  /-- The members before each open parenthesis, the innermost first. -/
  outer : List (List Ty)
  /-- The members before the last bar. -/
  before : List Ty
  current : Piece

namespace Reading

/-- The members that have been read since the last open parenthesis. -/
def members (r : Reading) : List Ty :=
  r.before ++ [r.current.ty]

/-- What the innermost parentheses enclose; null has them with nothing inside. -/
def enclosed (r : Reading) : Ty :=
  if r.before = [] then primitive .null else union r.members

/-- The reader goes over one character. -/
def step (r : Reading) (c : Char) : Reading :=
  if c = '|' then { r with before := r.members, current := .word [] }
  else if c = '(' then ⟨r.before :: r.outer, [], .word []⟩
  else if c = ')' then
    match r.outer with
    | [] => r
    | before :: outer => ⟨outer, before, .whole r.enclosed⟩
  else if c = '[' then r
  else if c = ']' then { r with current := .whole (array r.current.ty) }
  else { r with current := r.current.push c }

theorem step_bar (r : Reading) : r.step '|' = ⟨r.outer, r.members, .word []⟩ := rfl

theorem step_close {r : Reading} {before : List Ty} {outer : List (List Ty)}
    (h : r.outer = before :: outer) : r.step ')' = ⟨outer, before, .whole r.enclosed⟩ := by
  simp [step, h]

theorem step_of_not_mem_marks (r : Reading) {c : Char} (h : c ∉ marks) :
    r.step c = ⟨r.outer, r.before, r.current.push c⟩ := by
  simp only [marks, List.mem_cons, List.not_mem_nil, or_false, not_or] at h
  simp [step, h]

theorem members_eq_append_iff {r : Reading} {before : List Ty} {t : Ty} :
    r.members = before ++ [t] ↔ r.before = before ∧ r.current.ty = t := by
  rw [members, List.append_singleton_inj]

/-- The reader goes over a text, inside parentheses and after some members. -/
def after (outer : List (List Ty)) (before : List Ty) (cs : List Char) : Reading :=
  cs.foldl step ⟨outer, before, .word []⟩

end Reading

/-- A text that the reader takes for some members, wherever it begins. -/
def Reads (cs : List Char) (ts : List Ty) : Prop :=
  ∀ outer before, (Reading.after outer before cs).outer = outer ∧
    (Reading.after outer before cs).members = before ++ ts

namespace Reads

variable {cs ds : List Char} {t : Ty} {ts us : List Ty}

theorem unique (h : Reads cs ts) (h' : Reads cs us) : ts = us :=
  (h [] []).2.symm.trans (h' [] []).2

theorem word {w : List Char} (h : isWord w) : Reads w [ofWord w] := by
  intro outer before
  have pushed : ∀ w w' : List Char, isWord w →
      w.foldl Reading.step ⟨outer, before, .word w'⟩ = ⟨outer, before, .word (w' ++ w)⟩ := by
    intro w
    induction w with
    | nil => simp
    | cons c w ih =>
      intro w' h
      obtain ⟨hc, hw⟩ : c ∉ marks ∧ isWord w := by simpa [isWord] using h
      rw [List.foldl_cons, Reading.step_of_not_mem_marks _ hc, Piece.push, ih _ hw,
        List.append_assoc, List.singleton_append]
  rw [Reading.after, pushed w [] h]
  exact ⟨rfl, rfl⟩

theorem null : Reads ['(', ')'] [primitive .null] :=
  fun _ _ => ⟨rfl, rfl⟩

theorem bar (h : Reads cs ts) (h' : Reads ds us) : Reads (cs ++ '|' :: ds) (ts ++ us) := by
  intro outer before
  have hafter : Reading.after outer before (cs ++ '|' :: ds) =
      Reading.after outer (before ++ ts) ds := by
    obtain ⟨houter, hmembers⟩ := h outer before
    rw [Reading.after, List.foldl_append, List.foldl_cons, ← Reading.after, Reading.step_bar,
      houter, hmembers, ← Reading.after]
  rw [hafter, ← List.append_assoc]
  exact h' outer (before ++ ts)

theorem array (h : Reads cs [t]) : Reads (cs ++ ['[', ']']) [array t] := by
  intro outer before
  obtain ⟨houter, hmembers⟩ := h outer before
  obtain ⟨hbefore, hcurrent⟩ := Reading.members_eq_append_iff.1 hmembers
  rw [Reading.after, List.foldl_append, ← Reading.after, Reading.members_eq_append_iff]
  exact ⟨houter, hbefore, congrArg Ty.array hcurrent⟩

/-- Parentheses make one member of two or more. -/
theorem group {u u' : Ty} (h : Reads cs (u :: u' :: us)) :
    Reads ('(' :: (cs ++ [')'])) [union (u :: u' :: us)] := by
  intro outer before
  obtain ⟨houter, hmembers⟩ := h (before :: outer) []
  have hbefore : (Reading.after (before :: outer) [] cs).before ≠ [] := by
    intro hnil
    simp [Reading.members, hnil] at hmembers
  have hafter : Reading.after outer before ('(' :: (cs ++ [')'])) =
      ⟨outer, before, .whole (union (u :: u' :: us))⟩ := by
    calc Reading.after outer before ('(' :: (cs ++ [')']))
      _ = (Reading.after (before :: outer) [] cs).step ')' := by
        rw [Reading.after, List.foldl_cons, List.foldl_append]
        rfl
      _ = ⟨outer, before, .whole (Reading.after (before :: outer) [] cs).enclosed⟩ :=
        Reading.step_close houter
      _ = ⟨outer, before, .whole (union (u :: u' :: us))⟩ := by
        rw [Reading.enclosed, if_neg hbefore, hmembers, List.nil_append]
  rw [hafter]
  exact ⟨rfl, rfl⟩

end Reads

mutual

/-- **The text of a normal form is read as its members.** -/
theorem reads_normal : ∀ t : Ty, t.Plain → Reads t.normal.render t.members
  | primitive p, _ => by
    cases p with
    | null => exact .null
    | _ => exact .word (by decide)
  | json, _ | error, _ | union [], _ => .word (by decide)
  | array element, h => by
    have ih := reads_normal element (plain_array_iff.1 h)
    have hnormal : (array element).normal = array element.normal := rfl
    have hmembers : (array element).members = [array element.normal] := rfl
    rw [hnormal, hmembers, render_array]
    rcases normal_cases element with ⟨u, hu, hnormal, hbars⟩ | ⟨u, u', us, hu, hnormal⟩
    · rw [hnormal, hbars]
      rw [hnormal, hu] at ih
      exact ih.array
    · rw [hnormal]
      rw [hnormal, hu] at ih
      simpa [hasBars] using ih.group.array
  | union (t :: ts), h => by
    have ⟨ht, hts⟩ := List.forall_mem_cons.1 (plain_union_iff.1 h)
    rw [render_normal_union]
    exact reads_renderMembers ts hts (reads_normal t ht)
  | named identifier _ _, h => by
    have hplain : isPlain identifier := h _ List.mem_cons_self
    have hread := Reads.word (isWord_of_isPlain hplain)
    rwa [ofWord_of_isPlain hplain] at hread
  | record _, h | other _, h => by
    have hform := h _ List.mem_cons_self
    cases hform

theorem reads_renderMembers : ∀ (ts : List Ty) {cs : List Char} {us : List Ty},
    (∀ t ∈ ts, t.Plain) → Reads cs us →
      Reads (cs ++ renderMembers (membersAll ts)) (us ++ membersAll ts)
  | [], cs, us, _, hread => by simpa [membersAll, renderMembers] using hread
  | t :: ts, cs, us, h, hread => by
    have ⟨ht, hts⟩ := List.forall_mem_cons.1 h
    have hread := reads_renderMembers ts hts (hread.bar (reads_normal t ht))
    rw [membersAll, renderMembers_append, renderMembers_members]
    simpa using hread

end

/-! ## Every text is that of a legible type -/

theorem membersAll_eq_self {ts : List Ty} (h : ∀ t ∈ ts, t.members = [t]) : membersAll ts = ts := by
  induction ts with
  | nil => rfl
  | cons t ts ih =>
    rw [List.forall_mem_cons] at h
    rw [membersAll, h.1, ih h.2, List.singleton_append]

theorem members_ofMembers {ts : List Ty} (hne : ts ≠ []) (h : ∀ t ∈ ts, t.members = [t]) :
    (ofMembers ts).members = ts := by
  rcases ts with _ | ⟨t, _ | ⟨t', ts⟩⟩
  · exact absurd rfl hne
  · exact h t List.mem_cons_self
  · exact membersAll_eq_self h

/-- Plain members in normal form that are written as the text, each after a bar. -/
structure Shows (ts : List Ty) (cs : List Char) : Prop where
  members : ∀ t ∈ ts, t.members = [t]
  plain : ∀ t ∈ ts, t.Plain
  render : renderMembers ts = cs

namespace Shows

variable {cs ds : List Char} {t : Ty} {ts us : List Ty}

theorem nil : Shows [] [] :=
  ⟨by simp, by simp, rfl⟩

theorem single (hmembers : t.members = [t]) (hplain : t.Plain) : Shows [t] ('|' :: t.render) :=
  ⟨by simpa using hmembers, by simpa using hplain, renderMembers_eq (by simp)⟩

theorem append (h : Shows ts cs) (h' : Shows us ds) : Shows (ts ++ us) (cs ++ ds) where
  members := List.forall_mem_append.2 ⟨h.members, h'.members⟩
  plain := List.forall_mem_append.2 ⟨h.plain, h'.plain⟩
  render := by rw [renderMembers_append, h.render, h'.render]

theorem length_pos (h : Shows ts ('|' :: cs)) : 0 < ts.length := by
  rw [List.length_pos_iff]
  rintro rfl
  cases h.render

/-- Without parentheses, brackets belong to the last member. -/
theorem array (h : Shows (ts ++ [t]) cs) : Shows (ts ++ [array t]) (cs ++ ['[', ']']) := by
  obtain ⟨hts, ht⟩ := List.forall_mem_append.1 h.members
  obtain ⟨hplain, htplain⟩ := List.forall_mem_append.1 h.plain
  rw [List.forall_mem_singleton] at ht htplain
  have hbars : t.hasBars = false := hasBars_of_mem_members (ht ▸ List.mem_singleton_self t)
  have hone : Shows [.array t] ('|' :: (t.render ++ ['[', ']'])) := by
    have h := single (t := .array t) (by rw [Ty.members, ht, ofMembers]) (plain_array_iff.2 htplain)
    rwa [render_array, hbars] at h
  have htext : renderMembers ts ++ '|' :: t.render = cs := by
    rw [← h.render, renderMembers_append, renderMembers, renderMembers, List.append_nil]
  have happend := append ⟨hts, hplain, rfl⟩ hone
  rwa [← List.cons_append, ← List.append_assoc, htext] at happend

/-- Parentheses make one member of two or more. -/
theorem group {t' : Ty} (h : Shows (t :: t' :: ts) ('|' :: cs)) :
    Shows [.array (union (t :: t' :: ts))] ('|' :: '(' :: (cs ++ [')', '[', ']'])) := by
  have hmembers : (union (t :: t' :: ts)).members = t :: t' :: ts := membersAll_eq_self h.members
  have htext : (union (t :: t' :: ts)).render = cs := by
    have hrender := h.render
    rw [renderMembers_eq (by simp)] at hrender
    exact (List.cons.inj hrender).2
  have hone := single (t := .array (union (t :: t' :: ts)))
    (by rw [Ty.members, hmembers, ofMembers]; simp) (plain_array_iff.2 (plain_union_iff.2 h.plain))
  rwa [render_array, hasBars, if_pos rfl, htext] at hone

/-- The type with the members is legible, and has the text. -/
theorem exists_type (h : Shows ts ('|' :: cs)) :
    ∃ u : Ty, u.Plain ∧ u.Legible ∧ u.render = cs := by
  have hne : ts ≠ [] := List.length_pos_iff.1 h.length_pos
  have hnormal : (ofMembers ts).normal = ofMembers ts := by
    rw [normal, members_ofMembers hne h.members]
  have hrender := h.render
  rw [renderMembers_eq hne] at hrender
  refine ⟨ofMembers ts, plain_ofMembers h.plain, ?_, (List.cons.inj hrender).2⟩
  rw [← render_normal_iff, hnormal]

end Shows

mutual

/-- **The text of a type shows members**, two or more if the type is written with bars. -/
theorem exists_shows : ∀ t : Ty, t.Plain →
    ∃ ts, Shows ts ('|' :: t.render) ∧ (t.hasBars → 2 ≤ ts.length)
  | array element, h => by
    obtain ⟨ts, hts, hlength⟩ := exists_shows element (plain_array_iff.1 h)
    rw [render_array]
    by_cases hbars : element.hasBars
    · rw [if_pos hbars]
      match ts, hlength hbars, hts with
      | u :: u' :: us, _, hts => exact ⟨_, hts.group, nofun⟩
    · rw [if_neg hbars]
      have hne : ts ≠ [] := List.length_pos_iff.1 hts.length_pos
      obtain ⟨us, u, rfl⟩ := (List.eq_nil_or_concat' ts).resolve_left hne
      refine ⟨us ++ [array u], ?_, nofun⟩
      rw [← List.cons_append]
      exact hts.array
  | union (t :: ts), h => by
    have ⟨ht, hts⟩ := List.forall_mem_cons.1 (plain_union_iff.1 h)
    obtain ⟨us, hus, -⟩ := exists_shows t ht
    obtain ⟨us', hus', hlength⟩ := exists_showsAll ts hts
    refine ⟨us ++ us', hus.append hus', fun hbars => ?_⟩
    have hfirst := hus.length_pos
    rw [List.length_append]
    cases ts with
    | nil => cases hbars
    | cons t' ts =>
      rw [List.length_cons] at hlength
      omega
  | named identifier _ _, h => by
    have hplain : (bare identifier).Plain := by simpa [Plain, parts, hasForm, bare] using h
    exact ⟨[bare identifier], .single rfl hplain, nofun⟩
  | union [], h | primitive _, h | json, h | error, h =>
    ⟨[_], .single rfl h, nofun⟩
  | record _, h | other _, h => by
    have hform := h _ List.mem_cons_self
    cases hform

theorem exists_showsAll : ∀ ts : List Ty, (∀ t ∈ ts, t.Plain) →
    ∃ us, Shows us (renderMembers ts) ∧ ts.length ≤ us.length
  | [], _ => ⟨[], .nil, Nat.le_refl _⟩
  | t :: ts, h => by
    have ⟨ht, hts⟩ := List.forall_mem_cons.1 h
    obtain ⟨us, hus, -⟩ := exists_shows t ht
    obtain ⟨us', hus', hlength⟩ := exists_showsAll ts hts
    have hfirst := hus.length_pos
    refine ⟨us ++ us', hus.append hus', ?_⟩
    rw [List.length_cons, List.length_append]
    omega

end

/-! ## One text -/

/-- Two types are written in the same way in normal form iff they have the same one. -/
theorem render_normal_inj {t u : Ty} (ht : t.Plain) (hu : u.Plain) :
    t.normal.render = u.normal.render ↔ t.normal = u.normal := by
  constructor
  · intro h
    have hread := reads_normal t ht
    rw [h] at hread
    rw [normal, normal, hread.unique (reads_normal u hu)]
  · exact congrArg render

theorem display_inj {t u : Ty} : t.display = u.display ↔ t.render = u.render :=
  String.ofList_inj

/-- Every text is that of a legible type. -/
theorem exists_legible {t : Ty} (ht : t.Plain) :
    ∃ u : Ty, u.Plain ∧ u.Legible ∧ u.display = t.display := by
  obtain ⟨ts, hts, -⟩ := exists_shows t ht
  obtain ⟨u, hu, hlegible, hrender⟩ := hts.exists_type
  exact ⟨u, hu, hlegible, display_inj.2 hrender⟩

/-- A type that is written as a legible one has its normal form iff it is legible too. -/
theorem normal_eq_iff_of_display_eq {t u : Ty} (ht : t.Plain) (hu : u.Plain)
    (hlegible : t.Legible) (h : t.display = u.display) : t.normal = u.normal ↔ u.Legible := by
  calc t.normal = u.normal
    _ ↔ t.normal.render = u.normal.render := (render_normal_inj ht hu).symm
    _ ↔ u.normal.render = u.render := by
      rw [render_normal_iff.2 hlegible, display_inj.1 h]
      exact eq_comm
    _ ↔ u.Legible := render_normal_iff

/-- **The text of a type stands for its normal form alone iff the type is legible**: every legible
    type that is written in the same way is the same up to unions inside unions, unions of one
    member and what names refer to; if the type is not legible, its text is that of a legible type
    that is another one in this sense.  An empty union inside a union does not vanish here: the
    normal form keeps it, as the member `never`. -/
theorem legible_iff_unambiguous {t : Ty} (ht : t.Plain) :
    t.Legible ↔ ∀ u : Ty, u.Plain → u.Legible → u.display = t.display → u.normal = t.normal := by
  constructor
  · intro hlegible u hu hulegible h
    exact (normal_eq_iff_of_display_eq hu ht hulegible h).2 hlegible
  · intro h
    obtain ⟨u, hu, hulegible, hdisplay⟩ := exists_legible ht
    exact (normal_eq_iff_of_display_eq hu ht hulegible hdisplay).1 (h u hu hulegible hdisplay)

theorem unambiguous_people :
    let t := union [array (optional (named "Person" json [])), error]
    let u := union [union [array (union [named "Person" error [], union [primitive .null]])], error]
    t.Plain ∧ t.Legible ∧ u.Plain ∧ u.Legible ∧ u.display = t.display ∧ u ≠ t ∧
      u.normal = t.normal := by
  intro t u
  have ht : t.Plain := by decide
  have hlegible : t.Legible := by decide
  have hu : u.Plain := by decide
  have hulegible : u.Legible := by decide
  have hdisplay : u.display = t.display := by decide
  exact ⟨ht, hlegible, hu, hulegible, hdisplay, by decide,
    (legible_iff_unambiguous ht).1 hlegible u hu hulegible hdisplay⟩

/-- A union of one member between an array and a union hides the bars of the union: the text is that
    of a union whose last member alone is an array. -/
theorem normal_ne_of_display_eq :
    let t := array (union [union [primitive .int, primitive .string]])
    let u := union [primitive .int, array (primitive .string)]
    t.Plain ∧ u.Plain ∧ t.display = "int|string[]" ∧ u.display = "int|string[]" ∧
      t.normal = array (union [primitive .int, primitive .string]) ∧ u.normal = u ∧
      t.normal ≠ u.normal := by
  decide

end Ty

end ResponseSchema
