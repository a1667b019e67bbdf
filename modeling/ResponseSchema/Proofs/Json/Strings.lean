/-
  Json — strings, however they are spelled.

  * `bind_ok`, `bind_error`, `map_ok`: steps of a reader;
  * `many_run`: what one step reads, a loop reads in a row;
  * `stringRest_nameText`: so every spelling of a string reads as the string, the one
    of the printer among them (`stringRest_escape`).
-/
import ResponseSchema.Proofs.Json.Spelling

namespace ResponseSchema

namespace Json

namespace Reader

variable {α β : Type}

/-! ## Steps of a reader -/

theorem bind_ok {reader : Reader α} {f : α → Reader β} {cs rest : List Char} {a : α}
    (h : reader cs = .ok (a, rest)) : (reader >>= f) cs = f a rest := by
  show (reader cs >>= fun p => f p.1 p.2) = _
  rw [h]; rfl

theorem bind_error {reader : Reader α} {f : α → Reader β} {cs : List Char} {e : Fault}
    (h : reader cs = .error e) : (reader >>= f) cs = .error e := by
  show (reader cs >>= fun p => f p.1 p.2) = _
  rw [h]; rfl

theorem map_ok {reader : Reader α} (f : α → β) {cs rest : List Char} {a : α}
    (h : reader cs = .ok (a, rest)) : (f <$> reader) cs = .ok (f a, rest) := by
  rw [map_eq_pure_bind, bind_ok h]; rfl

theorem blanks_cons {c : Char} (h : isBlank c = false) (cs : List Char) :
    blanks (c :: cs) = .ok ((), c :: cs) := by
  rw [blanks, List.dropWhile_cons_of_neg (by simp [h])]

theorem next_cons (c : Char) (cs : List Char) : next (c :: cs) = .ok (c, cs) := rfl

/-- **What one step reads, a loop reads in a row**, up to where a step yields nothing.  `Good` is
    what a step needs to follow its text. -/
theorem many_run (Good : List Char → Prop) {step : Reader (Option α)} {Item : Spelling α}
    {closed rest cs : List Char} {as : List α} (hItem : ∀ v a, Item v a → v ≠ [])
    (hstep : ∀ v a rest, Item v a → Good rest → step (v ++ rest) = .ok (some a, rest))
    (hgood : ∀ v a rest, Item v a → Good (v ++ rest)) (hclosed : Good closed)
    (hend : step closed = .ok (none, rest)) (h : Run Item cs as) :
    many step (cs ++ closed) = .ok (as, rest) := by
  have follows : ∀ {cs as}, Run Item cs as → Good (cs ++ closed) := by
    rintro _ _ (_ | ⟨hv, -⟩)
    · exact hclosed
    · rw [List.append_assoc]; exact hgood _ _ _ hv
  have go : ∀ n, as.length < n → manyUpTo step n (cs ++ closed) = .ok (as, rest) := by
    induction h with
    | nil =>
      rintro (_ | n) hn
      · cases hn
      · exact bind_ok hend
    | @cons v cs a as hv hrun ih =>
      rintro (_ | n) hn
      · cases hn
      · rw [manyUpTo, List.append_assoc, bind_ok (hstep v a _ hv (follows hrun))]
        exact bind_ok (ih n (by simpa using hn))
  have hlength := h.length_le hItem
  exact go _ (by rw [List.length_append]; omega)

/-! ## Characters -/

theorem hexCode_append {ds : List Char} {n : Nat} (h : HexDigits ds n) (rest : List Char) :
    hexCode (ds ++ rest) = .ok (n, rest) := by
  obtain @⟨a, b, c, d, i, j, k, l, ha, hb, hc, hd⟩ := h
  have long : ¬ (String.ofList [a, b, c, d]).utf8ByteSize < 4 := by
    have size (c : Char) (cs : List Char) : (String.ofList (c :: cs)).utf8ByteSize =
        c.utf8Size + (String.ofList cs).utf8ByteSize := by
      rw [String.ofList_cons, String.utf8ByteSize_append, String.utf8ByteSize_singleton]
    have := Char.utf8Size_pos a
    have := Char.utf8Size_pos b
    have := Char.utf8Size_pos c
    have := Char.utf8Size_pos d
    simp only [size]
    omega
  show (if (String.ofList [a, b, c, d]).utf8ByteSize < 4 then _ else _) = _
  rw [if_neg long]
  simp [ha, hb, hc, hd]

theorem codedChar_code {ds : List Char} {n : Nat} (h : HexDigits ds n)
    (hleading : isLeading n = false) (htrailing : isTrailing n = false) (rest : List Char) :
    codedChar (ds ++ rest) = .ok (Char.ofNat n, rest) := by
  rw [codedChar, bind_ok (hexCode_append h rest)]
  simp only [hleading, htrailing]
  rfl

theorem codedChar_pair {ds ds' : List Char} {n n' : Nat} (h : HexDigits ds n)
    (h' : HexDigits ds' n') (hleading : isLeading n) (htrailing : isTrailing n') (rest : List Char) :
    codedChar (ds ++ '\\' :: 'u' :: (ds' ++ rest)) = .ok (pairedChar n n', rest) := by
  have hnot : isTrailing n = false := by
    simp only [isLeading, isTrailing, decide_eq_true_eq, decide_eq_false_iff_not] at *
    omega
  rw [codedChar, bind_ok (hexCode_append h _)]
  simp only [hnot, hleading]
  have hmarks : expectAll ['\\', 'u'] ('\\' :: 'u' :: (ds' ++ rest)) = .ok ((), ds' ++ rest) := rfl
  refine (bind_ok hmarks).trans ((bind_ok (hexCode_append h' rest)).trans ?_)
  simp only [htrailing]
  rfl

theorem charText_ne_nil {v : List Char} {c : Char} (h : CharText v c) : v ≠ [] := by
  cases h <;> simp

theorem stringChar?_unicode (cs : List Char) :
    stringChar? ('\\' :: 'u' :: cs) = (some <$> codedChar) cs := rfl

theorem stringChar?_charText {v : List Char} {c : Char} (h : CharText v c) (rest : List Char) :
    stringChar? (v ++ rest) = .ok (some c, rest) := by
  cases h with
  | plain hquote hbackslash hcontrol =>
    rw [List.singleton_append, stringChar?, bind_ok (next_cons c rest)]
    simp only [hquote, hbackslash, hcontrol, if_false]
    rfl
  | @letter e c he =>
    have hu : e ≠ 'u' := by rintro rfl; cases he
    show (if e = 'u' then some <$> codedChar else _ : Reader (Option Char)) rest = _
    simp only [hu, he, if_false]
    rfl
  | code hds hleading htrailing =>
    exact (stringChar?_unicode _).trans (map_ok some (codedChar_code hds hleading htrailing rest))
  | pair hds hds' hleading htrailing =>
    have hpair := codedChar_pair hds hds' hleading htrailing rest
    simp only [List.cons_append, List.append_assoc]
    exact (stringChar?_unicode _).trans (map_ok some hpair)

/-! ## Strings -/

/-- **However a string is spelled, it reads.** -/
theorem stringRest_nameText {cs : List Char} {s : String} (h : NameText cs s) (rest : List Char) :
    stringRest (cs ++ '"' :: rest) = .ok (s, rest) := by
  have hmany : many stringChar? (cs ++ '"' :: rest) = .ok (s.toList, rest) :=
    many_run (fun _ => True) (fun _ _ => charText_ne_nil)
      (fun _ _ rest hv _ => stringChar?_charText hv rest) (fun _ _ _ _ => trivial) trivial rfl h
  rw [stringRest, map_ok String.ofList hmany, String.ofList_toList]

theorem stringRest_escape (s : String) (rest : List Char) :
    stringRest (escape s.toList ++ '"' :: rest) = .ok (s, rest) :=
  stringRest_nameText (nameText_escape s) rest

end Reader

end Json

end ResponseSchema
