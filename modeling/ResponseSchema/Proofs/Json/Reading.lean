/-
  Json — every text of a value reads.

  A reader that reads a spelling takes each of its texts off the front of a text, where
  what follows cannot go on with it (`Ends`).

  * `Reads`: the reader has the value of every text as its result;
  * `reads_text`: strings with their quotes;
  * `numeral_unsigned`: numbers, as far as their form goes;
  * `reads_elements`, `reads_members`: what stands between brackets;
  * `reads_skip`: every value is passed over, at any depth.
-/
import ResponseSchema.Json.Shape
import ResponseSchema.Proofs.Json.Strings

namespace ResponseSchema

namespace Json

namespace Reader

variable {α β σ : Type}

/-- What may follow a value: the end, a blank, a comma or a closing bracket. -/
def Ends (rest : List Char) : Prop :=
  ∀ c ∈ rest.head?, isBlank c ∨ c = ',' ∨ c = ']' ∨ c = '\x7d'

/-- The reader takes the texts off the front, where something follows that ends a value. -/
def Reads (reader : Reader α) (Text : Spelling α) : Prop :=
  ∀ {cs : List Char} {a : α} {rest : List Char}, Text cs a → Ends rest →
    reader (cs ++ rest) = .ok (a, rest)

theorem ends_blanks_append {b rest : List Char} (hb : Blanks b) (h : Ends rest) :
    Ends (b ++ rest) := by
  cases b with
  | nil => exact h
  | cons c b =>
    rintro _ ⟨⟩
    exact .inl (hb c List.mem_cons_self)

theorem ends_cons {c : Char} (h : c = ',' ∨ c = ']' ∨ c = '\x7d') (rest : List Char) :
    Ends (c :: rest) := by
  rintro _ ⟨⟩
  exact .inr h

/-! ## Blanks -/

theorem blanks_append {b : List Char} (hb : Blanks b) {c : Char} (hc : isBlank c = false)
    (cs : List Char) : blanks (b ++ c :: cs) = .ok ((), c :: cs) := by
  have hstop : (c :: cs).dropWhile isBlank = c :: cs := List.dropWhile_cons_of_neg (by simp [hc])
  rw [blanks, List.dropWhile_append_of_pos hb, hstop]

theorem blanks_end {b : List Char} (hb : Blanks b) : blanks b = .ok ((), []) := by
  have hall : (b ++ []).dropWhile isBlank = [].dropWhile isBlank := List.dropWhile_append_of_pos hb
  rw [List.append_nil, List.dropWhile_nil] at hall
  rw [blanks, hall]

theorem peek?_cons (c : Char) (cs : List Char) : peek? (c :: cs) = .ok (some c, c :: cs) := rfl

theorem expect_cons (c : Char) (cs : List Char) : expect c (c :: cs) = .ok ((), cs) := by
  rw [expect, bind_ok (next_cons c cs)]
  simp
  rfl

/-- The first character of every text is no blank and closes nothing. -/
def Starts (Text : Spelling α) : Prop :=
  ∀ cs a, Text cs a → ∃ c rest, cs = c :: rest ∧ isBlank c = false ∧ c ≠ ']' ∧ c ≠ '\x7d'

/-- A reader that starts with passing over blanks may find some. -/
theorem reads_padded {reader : Reader α} {Text : Spelling α} (hreader : ∃ r, reader = do blanks; r)
    (hstarts : Starts Text) (h : Reads reader Text) : Reads reader (Padded Text) := by
  obtain ⟨reader, rfl⟩ := hreader
  rintro _ a rest ⟨b, v, rfl, hb, hv⟩ hrest
  have hread := h hv hrest
  obtain ⟨c, cs, rfl, hc, -⟩ := hstarts v a hv
  rw [List.cons_append, bind_ok (blanks_cons hc _)] at hread
  rw [List.append_assoc, List.cons_append, bind_ok (blanks_append hb hc _), hread]

/-! ## Strings -/

theorem starts_stringText : Starts StringText := by
  rintro _ s ⟨n, rfl, -⟩
  exact ⟨'"', _, rfl, rfl, by decide, by decide⟩

theorem reads_text : Reads text (Padded StringText) := by
  refine reads_padded ⟨_, rfl⟩ starts_stringText ?_
  rintro _ s rest ⟨n, rfl, hn⟩ -
  rw [List.cons_append, List.append_assoc]
  exact stringRest_nameText hn rest

theorem charForm_ne_nil {v : List Char} {u : Unit} (h : CharForm v u) : v ≠ [] := by
  cases h <;> simp

theorem skipChar?_charForm {v : List Char} {u : Unit} (h : CharForm v u) (rest : List Char) :
    skipChar? (v ++ rest) = .ok (some u, rest) := by
  cases h with
  | @plain c hquote hbackslash hcontrol =>
    rw [List.singleton_append, skipChar?, bind_ok (next_cons c rest)]
    simp only [hquote, hbackslash, hcontrol, if_false]
    rfl
  | @letter e c he =>
    have hu : e ≠ 'u' := by rintro rfl; cases he
    show (if e = 'u' then _ else _ : Reader (Option Unit)) rest = _
    simp only [hu, he, if_false, Option.isSome_some]
    rfl
  | @code ds n hds =>
    show (do let _ ← hexCode; pure (some ()) : Reader (Option Unit)) (ds ++ rest) = _
    exact bind_ok (hexCode_append hds rest)

theorem skipString_run {cs : List Char} {us : List Unit} (h : Run CharForm cs us)
    (rest : List Char) : skipString (cs ++ '"' :: rest) = .ok ((), rest) := by
  have hmany : many skipChar? (cs ++ '"' :: rest) = .ok (us, rest) :=
    many_run (fun _ => True) (fun _ _ => charForm_ne_nil)
      (fun _ _ rest hv _ => skipChar?_charForm hv rest) (fun _ _ _ _ => trivial) trivial rfl h
  exact bind_ok hmany

/-! ## Numbers -/

theorem not_digit_of_ends {rest : List Char} (h : Ends rest) : ∀ c ∈ rest.head?,
    c.isDigit = false ∧ c ≠ '.' ∧ c ≠ 'e' ∧ c ≠ 'E' := by
  intro c hc
  rcases h c hc with hblank | rfl | rfl | rfl
  · simp only [isBlank, decide_eq_true_eq] at hblank
    rcases hblank with rfl | rfl | rfl | rfl <;> decide
  all_goals decide

theorem someDigits_append {ds rest : List Char} (h : Digits ds)
    (hrest : ∀ c ∈ rest.head?, c.isDigit = false) :
    someDigits (ds ++ rest) = .ok (ds.map fun c => c.toNat - '0'.toNat, rest) := by
  have htake : rest.takeWhile Char.isDigit = [] ∧ rest.dropWhile Char.isDigit = rest := by
    cases rest with
    | nil => exact ⟨rfl, rfl⟩
    | cons c rest =>
      have hc := hrest c rfl
      exact ⟨List.takeWhile_cons_of_neg (by simp [hc]), List.dropWhile_cons_of_neg (by simp [hc])⟩
  have hdigits : digits (ds ++ rest) = .ok (ds.map fun c => c.toNat - '0'.toNat, rest) := by
    rw [digits, List.takeWhile_append_of_pos h.isDigit, List.dropWhile_append_of_pos h.isDigit,
      htake.1, htake.2, List.append_nil]
  rw [someDigits, bind_ok hdigits]
  have hne : (ds.map fun c => c.toNat - '0'.toNat).isEmpty = false := by simp [h.ne_nil]
  simp only [hne]
  rfl

/-- The only digit that counts nothing is zero. -/
theorem eq_zero_of_digit {c : Char} (hc : c.isDigit) (h : c.toNat - '0'.toNat = 0) : c = '0' := by
  have hge : '0'.toNat ≤ c.toNat := by
    simp only [Char.isDigit, Bool.and_eq_true, decide_eq_true_eq] at hc
    exact hc.1
  have heq : c.toNat = '0'.toNat := by omega
  rw [← Char.ofNat_toNat c, heq, Char.ofNat_toNat]

theorem wholePart_append {ds rest : List Char} (h : Whole ds)
    (hrest : ∀ c ∈ rest.head?, c.isDigit = false) :
    wholePart (ds ++ rest) = .ok (ds.map fun c => c.toNat - '0'.toNat, rest) := by
  have hzero : ¬ ((ds.map fun c => c.toNat - '0'.toNat).head? = some 0 ∧
      (ds.map fun c => c.toNat - '0'.toNat).length ≠ 1) := by
    rintro ⟨hhead, hlength⟩
    rw [List.head?_map, Option.map_eq_some_iff] at hhead
    obtain ⟨c, hc, hvalue⟩ := hhead
    have hc0 := eq_zero_of_digit (h.isDigit c (List.mem_of_head? hc)) hvalue
    have hds := h.zero (hc0 ▸ hc)
    simp [hds] at hlength
  rw [wholePart, bind_ok (someDigits_append h.toDigits hrest)]
  simp only [if_neg hzero]
  rfl

theorem fractionPart_append {cs rest : List Char} (h : Fraction cs)
    (hrest : ∀ c ∈ rest.head?, c.isDigit = false ∧ c ≠ '.') :
    ∃ ds, fractionPart (cs ++ rest) = .ok (ds, rest) := by
  cases h with
  | none =>
    have hpoint : rest.head? ≠ some '.' := fun hc => (hrest _ hc).2 rfl
    refine ⟨[], ?_⟩
    rw [List.nil_append, fractionPart, bind_ok (show peek? rest = .ok (rest.head?, rest) from rfl)]
    simp only [if_neg hpoint]
    rfl
  | point hds => exact ⟨_, someDigits_append hds fun c hc => (hrest c hc).1⟩

theorem exponentPart_append {cs rest : List Char} (h : Exponent cs) (hrest : Ends rest) :
    ∃ e, exponentPart (cs ++ rest) = .ok (e, rest) := by
  have hdigit (c : Char) (hc : c ∈ rest.head?) := (not_digit_of_ends hrest c hc).1
  cases h with
  | none =>
    have hmark : ¬ (rest.head? = some 'e' ∨ rest.head? = some 'E') := by
      rintro (hc | hc)
      · exact (not_digit_of_ends hrest _ hc).2.2.1 rfl
      · exact (not_digit_of_ends hrest _ hc).2.2.2 rfl
    refine ⟨none, ?_⟩
    rw [List.nil_append, exponentPart, bind_ok (show peek? rest = .ok (rest.head?, rest) from rfl)]
    simp only [if_neg hmark]
    rfl
  | @mark e sign ds he hsign hds =>
    have hread := someDigits_append hds hdigit
    have hafter (first : Option Char) : ∃ e, (do
        let ds ← someDigits
        let n : Int := ofDigits ds
        pure (some (if first = some '-' then -n else n)) : Reader (Option Int)) (ds ++ rest) =
          .ok (e, rest) := ⟨_, bind_ok hread⟩
    rw [List.cons_append, List.append_assoc]
    cases hsign with
    | none =>
      -- the first digit is no sign
      obtain ⟨d, ds, rfl⟩ := List.exists_cons_of_ne_nil hds.ne_nil
      have hd := hds.isDigit d List.mem_cons_self
      have hnot : ¬ (some d = some '-' ∨ some d = some '+') := by
        rintro (hd' | hd') <;> cases hd' <;> revert hd <;> decide
      obtain ⟨n, hn⟩ := hafter (some d)
      refine ⟨n, Eq.trans ?_ hn⟩
      rcases he with rfl | rfl <;> exact congrFun (if_neg hnot) _
    | plus => rcases he with rfl | rfl <;> exact hafter (some '+')
    | minus => rcases he with rfl | rfl <;> exact hafter (some '-')

theorem numeral_unsigned (negative : Bool) {cs rest : List Char} (h : Unsigned cs)
    (hrest : Ends rest) : ∃ n, numeral negative (cs ++ rest) = .ok (n, rest) := by
  obtain @⟨whole, fraction, exponent, hwhole, hfraction, hexponent⟩ := h
  have hends := not_digit_of_ends hrest
  have hafter : ∀ c ∈ (exponent ++ rest).head?, c.isDigit = false ∧ c ≠ '.' := by
    cases hexponent with
    | none => exact fun c hc => ⟨(hends c hc).1, (hends c hc).2.1⟩
    | mark he => rcases he with rfl | rfl <;> rintro _ ⟨⟩ <;> decide
  have hbefore : ∀ c ∈ (fraction ++ (exponent ++ rest)).head?, c.isDigit = false := by
    cases hfraction with
    | none => exact fun c hc => (hafter c hc).1
    | point hds => rintro _ ⟨⟩; rfl
  obtain ⟨ds, hds⟩ := fractionPart_append hfraction hafter
  obtain ⟨e, he⟩ := exponentPart_append hexponent hrest
  rw [List.append_assoc, List.append_assoc]
  exact ⟨_, (bind_ok (wholePart_append hwhole hbefore)).trans ((bind_ok hds).trans (bind_ok he))⟩

/-! ## Lists between brackets -/

section
variable {Item : Spelling α} {closing : Char} {cs b rest : List Char} {as : List α}

/-- What readers of a list have in common: the end of an empty one, or more. -/
def closedOr (closing : Char) (empty : α) (more : Reader α) : Reader α := do
  blanks
  match ← peek? with
  | none => throw .truncated
  | some c =>
    if c = closing then
      drop
      pure empty
    else more

theorem closedOr_close (hblank : isBlank closing = false) (empty : α) (more : Reader α)
    (hb : Blanks b) (rest : List Char) :
    closedOr closing empty more (b ++ closing :: rest) = .ok (empty, rest) := by
  rw [closedOr, bind_ok (blanks_append hb hblank _), bind_ok (peek?_cons _ _)]
  simp only [if_true]
  rfl

theorem closedOr_more (hclosing : closing = ']' ∨ closing = '\x7d') (hstarts : Starts Item)
    (empty : β) (more : Reader β) (hb : Blanks b) {v : List Char} {a : α} (hv : Item v a)
    (rest : List Char) : closedOr closing empty more (b ++ (v ++ rest)) = more (v ++ rest) := by
  obtain ⟨c, v, rfl, hblank, hlist, hobject⟩ := hstarts v a hv
  have hc : c ≠ closing := by rcases hclosing with rfl | rfl <;> assumption
  rw [List.cons_append, closedOr, bind_ok (blanks_append hb hblank _), bind_ok (peek?_cons _ _)]
  simp only [if_neg hc]

theorem after_ne_nil {sign : Char} {v : List Char} {a : α} (h : After sign Item v a) : v ≠ [] := by
  obtain ⟨b, v, rfl, -⟩ := h
  simp

theorem ends_afterComma {v : List Char} {a : α} (h : After ',' Item v a) (rest : List Char) :
    Ends (v ++ rest) := by
  obtain ⟨b, v, rfl, hb, -⟩ := h
  rw [List.append_assoc]
  exact ends_blanks_append hb (ends_cons (.inl rfl) _)

theorem ends_close (hclosing : closing = ']' ∨ closing = '\x7d') (hb : Blanks b)
    (rest : List Char) : Ends (b ++ closing :: rest) :=
  ends_blanks_append hb (ends_cons (.inr hclosing) rest)

theorem ends_run (h : Run (After ',' Item) cs as) (hrest : Ends rest) : Ends (cs ++ rest) := by
  cases h with
  | nil => exact hrest
  | cons hv => rw [List.append_assoc]; exact ends_afterComma hv _

theorem nextElement?_afterComma {item : Reader α} {v : List Char} {a : α}
    (hitem : Reads item (Padded Item)) (h : After ',' Item v a) (hrest : Ends rest) :
    nextElement? item (v ++ rest) = .ok (some a, rest) := by
  obtain ⟨b, v, rfl, hb, hv⟩ := h
  rw [List.append_assoc, List.cons_append, nextElement?, bind_ok (blanks_append hb rfl _),
    bind_ok (next_cons _ _)]
  exact map_ok some (hitem hv hrest)

theorem nextElement?_close (item : Reader α) (hb : Blanks b) (rest : List Char) :
    nextElement? item (b ++ ']' :: rest) = .ok (none, rest) := by
  rw [nextElement?, bind_ok (blanks_append hb rfl _), bind_ok (next_cons _ _)]
  rfl

/-- **An array is read element by element.** -/
theorem reads_elements {item : Reader α} (hstarts : Starts Item)
    (hitem : Reads item (Padded Item)) : Reads (elements item) (Enclosed ']' Item) := by
  have helements : elements item = closedOr ']' [] (do
      let a ← item
      let as ← many (nextElement? item)
      pure (a :: as)) := rfl
  intro cs as rest h hrest
  rw [helements]
  cases h with
  | empty hb =>
    rw [List.append_assoc]
    exact closedOr_close rfl _ _ hb rest
  | @items _ cs b a as hv hrun hb =>
    obtain ⟨b', v, rfl, hb', hv⟩ := hv
    have hends := ends_close (.inl rfl) hb rest
    have hmany : many (nextElement? item) (cs ++ (b ++ ']' :: rest)) = .ok (as, rest) :=
      many_run Ends (fun _ _ => after_ne_nil) (fun _ _ _ => nextElement?_afterComma hitem)
        (fun _ _ rest hv => ends_afterComma hv rest) hends (nextElement?_close item hb rest) hrun
    simp only [List.append_assoc, List.singleton_append]
    rw [closedOr_more (.inl rfl) hstarts _ _ hb' hv,
      bind_ok (hitem (.of_text hv) (ends_run hrun hends)), bind_ok hmany]
    rfl

theorem nextMember?_afterComma {entry : Reader β} {a : α} {r : β} (hstarts : Starts Item)
    (hentry : ∀ v, Item v a → entry (v ++ rest) = .ok (r, rest)) (h : After ',' Item cs a) :
    nextMember? entry (cs ++ rest) = .ok (some r, rest) := by
  obtain ⟨b, _, rfl, hb, b', v, rfl, hb', hv⟩ := h
  have hread := hentry v hv
  obtain ⟨c, v, rfl, hblank, -⟩ := hstarts v a hv
  rw [List.cons_append] at hread
  simp only [List.append_assoc, List.cons_append]
  rw [nextMember?, bind_ok (blanks_append hb rfl _), bind_ok (next_cons _ _)]
  exact (bind_ok (blanks_append hb' hblank _)).trans (map_ok some hread)

theorem nextMember?_close (entry : Reader α) (hb : Blanks b) (rest : List Char) :
    nextMember? entry (b ++ '\x7d' :: rest) = .ok (none, rest) := by
  rw [nextMember?, bind_ok (blanks_append hb rfl _), bind_ok (next_cons _ _)]
  rfl

/-- **An object is read member by member.** -/
theorem reads_members {entry : Reader α} (hstarts : Starts Item) (hentry : Reads entry Item) :
    Reads (members entry) (Enclosed '\x7d' Item) := by
  have hmembers : members entry = closedOr '\x7d' [] (do
      let m ← entry
      let ms ← many (nextMember? entry)
      pure (m :: ms)) := rfl
  intro cs as rest h hrest
  rw [hmembers]
  cases h with
  | empty hb =>
    rw [List.append_assoc]
    exact closedOr_close rfl _ _ hb rest
  | @items _ cs b a as hv hrun hb =>
    obtain ⟨b', v, rfl, hb', hv⟩ := hv
    have hends := ends_close (.inr rfl) hb rest
    have hmany : many (nextMember? entry) (cs ++ (b ++ '\x7d' :: rest)) = .ok (as, rest) :=
      many_run Ends (fun _ _ => after_ne_nil)
        (fun _ _ _ hv hrest => nextMember?_afterComma hstarts (fun _ hv => hentry hv hrest) hv)
        (fun _ _ rest hv => ends_afterComma hv rest) hends (nextMember?_close entry hb rest) hrun
    simp only [List.append_assoc, List.singleton_append]
    rw [closedOr_more (.inr rfl) hstarts _ _ hb' hv, bind_ok (hentry hv (ends_run hrun hends)),
      bind_ok hmany]
    rfl

end

/-! ## Members -/

theorem starts_member {ι : Type} {Name : Spelling ι} {Value : ι → Spelling α} :
    Starts (Member Name Value) := by
  rintro _ a ⟨i, n, v, rfl, -⟩
  exact ⟨'"', _, rfl, rfl, by decide, by decide⟩

theorem reads_valued {item : Reader α} {Value : Spelling α} (hitem : Reads item (Padded Value)) :
    Reads (valued item) (After ':' Value) := by
  rintro _ a rest ⟨b, v, rfl, hb, hv⟩ hrest
  rw [List.append_assoc, List.cons_append, valued, bind_ok (blanks_append hb rfl _),
    bind_ok (expect_cons _ _)]
  exact hitem hv hrest

/-- A member of which only the form counts. -/
theorem reads_member_skip {item : Reader Unit} {Value : Spelling Unit}
    (hitem : Reads item (Padded Value)) : Reads (member skipString item) fun cs p =>
      Member (Run CharForm) (fun _ => Value) cs p.2 := by
  rintro _ ⟨⟨⟩, ⟨⟩⟩ rest ⟨i, n, v, rfl, hn, hv⟩ hrest
  have hmember : member skipString item = (do
      expect '"'
      let n ← skipString
      let v ← valued item
      pure (n, v)) := by
    simp only [member, valued, bind_assoc]
  rw [List.cons_append, List.append_assoc, List.cons_append, hmember, bind_ok (expect_cons _ _),
    bind_ok (skipString_run hn _), bind_ok (reads_valued hitem hv hrest)]
  rfl

/-! ## Values of which only the form counts -/

theorem ne_of_isDigit {c d : Char} (hc : c.isDigit) (hd : d.isDigit = false) : c ≠ d := by
  rintro rfl
  rw [hd] at hc
  cases hc

theorem unsigned_starts {cs : List Char} (h : Unsigned cs) :
    ∃ c rest, cs = c :: rest ∧ c.isDigit := by
  obtain @⟨whole, fraction, exponent, hwhole, -, -⟩ := h
  obtain ⟨c, whole, rfl⟩ := List.exists_cons_of_ne_nil hwhole.ne_nil
  exact ⟨c, _, rfl, hwhole.isDigit c List.mem_cons_self⟩

/-- The first character tells a value without containers from the others. -/
theorem scalarForm_starts {cs : List Char} (h : ScalarForm cs ()) : ∃ c rest, cs = c :: rest ∧
    isBlank c = false ∧ c ≠ '[' ∧ c ≠ ']' ∧ c ≠ '\x7b' ∧ c ≠ '\x7d' := by
  cases h with
  | null | true | false | string | negative => exact ⟨_, _, rfl, by decide⟩
  | number h =>
    obtain ⟨c, rest, rfl, hc⟩ := unsigned_starts h
    have hne (d : Char) := ne_of_isDigit (d := d) hc
    exact ⟨c, rest, rfl, by simp [isBlank, hne], hne _ rfl, hne _ rfl, hne _ rfl, hne _ rfl⟩

theorem starts_valueOf {Item : Spelling Unit} : Starts (ValueOf Item) := by
  rintro _ _ (h | h | h)
  · obtain ⟨c, rest, rfl, hblank, -, hlist, -, hobject⟩ := scalarForm_starts h
    exact ⟨c, rest, rfl, hblank, hlist, hobject⟩
  · exact ⟨'[', _, rfl, by decide⟩
  · exact ⟨'\x7b', _, rfl, by decide⟩

theorem skipNumber_unsigned {cs rest : List Char} (h : Unsigned cs) (hrest : Ends rest) :
    skipNumber (cs ++ rest) = .ok ((), rest) := by
  obtain ⟨n, hn⟩ := numeral_unsigned false h hrest
  rw [skipNumber, StateT.run, hn]

theorem skipScalar_scalarForm {cs rest : List Char} (h : ScalarForm cs ()) (hrest : Ends rest) :
    skipScalar (cs ++ rest) = .ok ((), rest) := by
  cases h with
  | null | true | false => rfl
  | string h =>
    rw [List.cons_append, List.append_assoc]
    exact skipString_run h rest
  | negative h => exact skipNumber_unsigned h hrest
  | number h =>
    have hread := skipNumber_unsigned h hrest
    obtain ⟨c, cs, rfl, hc⟩ := unsigned_starts h
    rw [List.cons_append, skipScalar, bind_ok (next_cons _ _)]
    simp only [ne_of_isDigit hc (show 'n'.isDigit = false from rfl),
      ne_of_isDigit hc (show 't'.isDigit = false from rfl),
      ne_of_isDigit hc (show 'f'.isDigit = false from rfl),
      ne_of_isDigit hc (show '"'.isDigit = false from rfl),
      ne_of_isDigit hc (show '-'.isDigit = false from rfl), hc, if_false, if_true]
    exact hread

theorem skipUpTo_scalarForm (depth : Nat) {cs rest : List Char} (h : ScalarForm cs ())
    (hrest : Ends rest) : skipUpTo depth (cs ++ rest) = .ok ((), rest) := by
  have hread := skipScalar_scalarForm h hrest
  obtain ⟨c, cs, rfl, hblank, hlist, -, hobject, -⟩ := scalarForm_starts h
  rw [List.cons_append] at hread ⊢
  cases depth with
  | zero => rw [skipUpTo, bind_ok (blanks_cons hblank _), hread]
  | succ depth =>
    rw [skipUpTo, bind_ok (blanks_cons hblank _), bind_ok (peek?_cons _ _)]
    simp only [Option.some.injEq, hlist, hobject, if_false]
    exact hread

theorem skipUpTo_list (depth : Nat) (cs : List Char) : skipUpTo (depth + 1) ('[' :: cs) =
    (do let _ ← elements (skipUpTo depth) : Reader Unit) cs := rfl

theorem skipUpTo_object (depth : Nat) (cs : List Char) : skipUpTo (depth + 1) ('\x7b' :: cs) =
    (do let _ ← members (member skipString (skipUpTo depth)) : Reader Unit) cs := rfl

theorem skipUpTo_passes_blanks (depth : Nat) : ∃ r, skipUpTo depth = (do blanks; r) := by
  cases depth <;> exact ⟨_, rfl⟩

/-- **Values are passed over**, by a reader that may go as deep as they are long.  The induction is
    on how deep they are; what stands between brackets is shorter than the whole. -/
theorem reads_skipUpTo (n depth : Nat) :
    Reads (skipUpTo depth) (Padded fun cs u => ValueWithin n cs u ∧ cs.length ≤ depth) := by
  induction n generalizing depth with
  | zero => rintro _ _ _ ⟨-, -, -, -, ⟨⟩, -⟩
  | succ n ih =>
    refine reads_padded (skipUpTo_passes_blanks depth) (fun _ _ hv => starts_valueOf _ _ hv.1) ?_
    have hstarts (k : Nat) : Starts fun cs u => ValueWithin n cs u ∧ cs.length ≤ k := by
      rintro cs u ⟨hv, -⟩
      cases n with
      | zero => cases hv
      | succ n => exact starts_valueOf cs u hv
    rintro _ _ rest ⟨h | @⟨cs, us, h⟩ | @⟨cs, us, h⟩, hlength⟩ hrest
    · exact skipUpTo_scalarForm depth h hrest
    all_goals
      obtain ⟨depth, rfl⟩ := Nat.exists_eq_add_of_le' (Nat.one_le_of_lt hlength)
      rw [List.length_cons, Nat.add_le_add_iff_right] at hlength
      rw [List.cons_append]
    · have hlist : Enclosed ']' (fun v u => ValueWithin n v u ∧ v.length ≤ depth) cs (us.map id) :=
        h.imp fun v u hlt hv => ⟨hv, by omega⟩
      rw [skipUpTo_list, bind_ok (reads_elements (hstarts depth) (ih depth) hlist hrest)]
      rfl
    · have hlist : Enclosed '\x7d' (fun v p => Member (Run CharForm)
          (fun _ v u => ValueWithin n v u ∧ v.length ≤ depth) v p.2) cs (us.map ((), ·)) := by
        refine h.imp ?_
        rintro _ u hlt ⟨i, m, _, rfl, hm, b, v, rfl, hb, hv⟩
        simp only [List.length_cons, List.length_append] at hlt
        exact ⟨i, m, _, rfl, hm, b, v, rfl, hb, hv.imp (f := id) fun v hle hv => ⟨hv, by omega⟩⟩
      rw [skipUpTo_object, bind_ok (reads_members (fun v p => starts_member v p.2)
        (reads_member_skip (ih depth)) hlist hrest)]
      rfl

theorem reads_skip : Reads skip (Padded AnyValue) := by
  rintro _ u rest ⟨b, v, rfl, hb, n, hv⟩ hrest
  have hlength : v.length ≤ (b ++ v ++ rest).length := by
    simp only [List.length_append]
    omega
  exact reads_skipUpTo n _ ⟨b, v, rfl, hb, hv, hlength⟩ hrest

end Reader

end Json

end ResponseSchema
