/-
  Json — reading what was written.

  The compact text of a value without numbers reads back as the value, a
  repeated name with its last value, unless the value nests deeper than the
  reader goes: then the text is malformed (`read_compact`).

  * `upTo` is this outcome for one reader, with the characters that are left;
    `bind_upTo` puts the outcomes of two readers together;
  * `value_render` follows the printer through a value.
-/
import ResponseSchema.Json.Reader
import ResponseSchema.Proofs.Json.Inside
import ResponseSchema.Proofs.Json.Strings

namespace ResponseSchema

namespace Json

namespace Reader

variable {α β : Type}

/-! ## Outcomes by depth -/

/-- What a reader that takes `n` containers yields where there are `depth`. -/
def upTo (n depth : Nat) (a : α) (rest : List Char) : Except Fault (α × List Char) :=
  if depth ≤ n then .ok (a, rest) else .error .malformed

theorem upTo_zero (n : Nat) (a : α) (rest : List Char) : upTo n 0 a rest = .ok (a, rest) :=
  if_pos (Nat.zero_le n)

theorem upTo_succ (n depth : Nat) (a : α) (rest : List Char) :
    upTo (n + 1) (depth + 1) a rest = upTo n depth a rest := by
  simp [upTo]

theorem bind_upTo {reader : Reader α} {f : α → Reader β} {n depth depth' : Nat}
    {cs rest rest' : List Char} {a : α} {b : β} (h : reader cs = upTo n depth a rest)
    (hf : f a rest = upTo n depth' b rest') :
    (reader >>= f) cs = upTo n (max depth depth') b rest' := by
  by_cases hd : depth ≤ n
  · rw [upTo, if_pos hd] at h
    simp only [bind_ok h, hf, upTo, Nat.max_le, hd, true_and]
  · rw [upTo, if_neg hd] at h
    rw [bind_error h, upTo, if_neg fun hle => hd (by omega)]

theorem bind_pure_upTo {reader : Reader α} (f : α → β) {n depth : Nat} {cs rest : List Char} {a : α}
    (h : reader cs = upTo n depth a rest) :
    (reader >>= fun a => pure (f a)) cs = upTo n depth (f a) rest := by
  have := bind_upTo (f := fun a => pure (f a)) h (upTo_zero n (f a) rest).symm
  rwa [Nat.max_zero] at this

theorem map_upTo {reader : Reader α} (f : α → β) {n depth : Nat} {cs rest : List Char} {a : α}
    (h : reader cs = upTo n depth a rest) : (f <$> reader) cs = upTo n depth (f a) rest := by
  rw [map_eq_pure_bind]
  exact bind_pure_upTo f h

/-! ## Values -/

/-- The value is not a number. -/
def NotNumber (v : Json) : Prop :=
  ∀ n, v ≠ .number n

theorem render_head (v : Json) (h : v.All NotNumber) :
    ∃ c cs, v.render = c :: cs ∧ isBlank c = false ∧ c ≠ ']' := by
  cases v with
  | number n => exact absurd rfl (h n)
  | bool b => cases b <;> exact ⟨_, _, rfl, rfl, by decide⟩
  | array vs => cases vs <;> exact ⟨_, _, by rw [render], rfl, by decide⟩
  | object ms => cases ms <;> exact ⟨_, _, by rw [render], rfl, by decide⟩
  | _ => exact ⟨_, _, rfl, rfl, by decide⟩

theorem value_scalar {c : Char} (hblank : isBlank c = false) (hbracket : c ≠ '[')
    (hbrace : c ≠ '\x7b') (n : Nat) (cs : List Char) : value n (c :: cs) = scalar (c :: cs) := by
  cases n with
  | zero => exact bind_ok (blanks_cons hblank cs)
  | succ n =>
    rw [value, bind_ok (blanks_cons hblank cs),
      bind_ok (show peek? (c :: cs) = .ok (some c, c :: cs) from rfl)]
    simp [hbracket, hbrace]

theorem value_bracket (n : Nat) (cs : List Char) :
    value (n + 1) ('[' :: cs) = (Json.array <$> elements (value n)) cs := rfl

theorem value_brace (n : Nat) (cs : List Char) : value (n + 1) ('\x7b' :: cs) =
    ((fun ms => Json.object (Entries.ofList ms)) <$>
      members (member stringRest (value n))) cs := rfl

theorem nextElement?_comma (item : Reader α) (cs : List Char) :
    nextElement? item (',' :: cs) = (some <$> item) cs := rfl

theorem nextMember?_comma (entry : Reader α) (cs : List Char) :
    nextMember? entry (',' :: '"' :: cs) = (some <$> entry) ('"' :: cs) := rfl

theorem length_le_renderElements (vs : List Json) : vs.length < (renderElements vs).length := by
  induction vs with
  | nil => simp [renderElements]
  | cons v vs ih => rw [renderElements]; simp; omega

theorem length_le_renderMembers (ms : List (String × Json)) :
    ms.length < (renderMembers ms).length := by
  induction ms with
  | nil => simp [renderMembers]
  | cons e ms ih => rw [renderMembers]; simp; omega

theorem elements_render {item : Reader α} {v : Json} {text rest : List Char}
    {n depth depth' : Nat} {a : α} {as : List α} (hv : v.All NotNumber)
    (h : item (v.render ++ (text ++ rest)) = upTo n depth a (text ++ rest))
    (hmany : many (nextElement? item) (text ++ rest) = upTo n depth' as rest) :
    elements item (v.render ++ (text ++ rest)) = upTo n (max depth depth') (a :: as) rest := by
  obtain ⟨c, cs, hc, hblank, hclose⟩ := render_head v hv
  have both := bind_upTo (f := fun a => do let as ← many (nextElement? item); pure (a :: as)) h
    (bind_pure_upTo (a :: ·) hmany)
  rw [hc, List.cons_append] at both ⊢
  rw [elements, bind_ok (blanks_cons hblank _),
    bind_ok (show peek? (c :: _) = .ok (some c, c :: _) from rfl)]
  simp only [hclose, if_false]
  exact both

theorem member_render {reader : Reader α} (name : String) {text rest : List Char} {n depth : Nat}
    {a : α} (h : reader (text ++ rest) = upTo n depth a rest) :
    member stringRest reader (quote name ++ ':' :: (text ++ rest)) =
      upTo n depth (name, a) rest := by
  have hname : stringRest (escape name.toList ++ '"' :: ':' :: (text ++ rest)) =
      .ok (name, ':' :: (text ++ rest)) := stringRest_escape name _
  rw [member, quote, List.cons_append, List.append_assoc, bind_ok rfl]
  exact (bind_ok hname).trans (bind_pure_upTo (name, ·) h)

theorem members_render {entry : Reader α} {cs text rest : List Char} {n depth depth' : Nat} {a : α}
    {as : List α} (h : entry ('"' :: cs) = upTo n depth a text)
    (hmany : many (nextMember? entry) text = upTo n depth' as rest) :
    members entry ('"' :: cs) = upTo n (max depth depth') (a :: as) rest :=
  bind_upTo (f := fun a => do let as ← many (nextMember? entry); pure (a :: as)) h
    (bind_pure_upTo (a :: ·) hmany)

mutual

/-- **The text of a value reads back, unless the value nests too deep.** -/
theorem value_render : ∀ (v : Json) (n : Nat) (rest : List Char), v.All NotNumber →
    value n (v.render ++ rest) = upTo n v.depth v.dedup rest
  | null, n, rest, _ =>
    (value_scalar rfl (by decide) (by decide) n _).trans (upTo_zero n null rest).symm
  | bool true, n, rest, _ =>
    (value_scalar rfl (by decide) (by decide) n _).trans (upTo_zero n (bool true) rest).symm
  | bool false, n, rest, _ =>
    (value_scalar rfl (by decide) (by decide) n _).trans (upTo_zero n (bool false) rest).symm
  | .number n, _, _, h => absurd rfl (h n)
  | string s, n, rest, _ => by
    refine Eq.trans ?_ (upTo_zero n (string s) rest).symm
    rw [render, quote, List.cons_append, List.append_assoc,
      value_scalar rfl (by decide) (by decide)]
    exact map_ok Json.string (stringRest_escape s rest)
  | array [], n, rest, _ => by
    cases n with
    | zero => rfl
    | succ n => exact (upTo_zero n _ rest).symm.trans (upTo_succ n 0 _ rest).symm
  | array (v :: vs), n, rest, h => by
    cases n with
    | zero => rfl
    | succ n =>
      have ⟨hv, hvs⟩ := List.forall_mem_cons.1 ((all_array _).1 h).2
      have hmany := manyUpTo_renderElements vs n ((renderElements vs ++ rest).length + 1) rest hvs
        (by have := length_le_renderElements vs; simp; omega)
      have := elements_render hv (value_render v n (renderElements vs ++ rest) hv) hmany
      rw [render, depth, depthElements, dedup, dedupElements, upTo_succ, List.cons_append,
        List.append_assoc, value_bracket]
      exact map_upTo Json.array this
  | object [], n, rest, _ => by
    cases n with
    | zero => rfl
    | succ n => exact (upTo_zero n _ rest).symm.trans (upTo_succ n 0 _ rest).symm
  | object ((name, v) :: ms), n, rest, h => by
    cases n with
    | zero => rfl
    | succ n =>
      have ⟨hv, hms⟩ := List.forall_mem_cons.1 ((all_object _).1 h).2
      have hmember := member_render name (value_render v n (renderMembers ms ++ rest) hv)
      have hmany := manyUpTo_renderMembers ms n ((renderMembers ms ++ rest).length + 1) rest hms
        (by have := length_le_renderMembers ms; simp; omega)
      have := members_render hmember hmany
      rw [render, depth, depthMembers, dedup, dedupMembers, upTo_succ, List.cons_append,
        value_brace, List.append_assoc, List.cons_append, List.append_assoc]
      exact map_upTo (fun ms => Json.object (Entries.ofList ms)) this

theorem manyUpTo_renderElements : ∀ (vs : List Json) (n k : Nat) (rest : List Char),
    (∀ v ∈ vs, v.All NotNumber) → vs.length < k →
    manyUpTo (nextElement? (value n)) k (renderElements vs ++ rest) =
      upTo n (depthElements vs) (dedupElements vs) rest
  | [], n, k, rest, _, hk => by
    obtain ⟨k, rfl⟩ := Nat.exists_eq_succ_of_ne_zero (Nat.ne_zero_of_lt hk)
    exact (upTo_zero _ _ _).symm
  | v :: vs, n, k, rest, h, hk => by
    obtain ⟨k, rfl⟩ := Nat.exists_eq_succ_of_ne_zero (Nat.ne_zero_of_lt hk)
    rw [List.forall_mem_cons] at h
    have hv := value_render v n (renderElements vs ++ rest) h.1
    have hvs := manyUpTo_renderElements vs n k rest h.2 (by simpa using hk)
    have step : nextElement? (value n) (renderElements (v :: vs) ++ rest) =
        upTo n v.depth (some v.dedup) (renderElements vs ++ rest) := by
      rw [renderElements, List.cons_append, List.append_assoc, nextElement?_comma]
      exact map_upTo some hv
    rw [manyUpTo, depthElements, dedupElements]
    exact bind_upTo step (bind_pure_upTo (v.dedup :: ·) hvs)

theorem manyUpTo_renderMembers : ∀ (ms : List (String × Json)) (n k : Nat) (rest : List Char),
    (∀ e ∈ ms, e.2.All NotNumber) → ms.length < k →
    manyUpTo (nextMember? (member stringRest (value n))) k (renderMembers ms ++ rest) =
      upTo n (depthMembers ms) (dedupMembers ms) rest
  | [], n, k, rest, _, hk => by
    obtain ⟨k, rfl⟩ := Nat.exists_eq_succ_of_ne_zero (Nat.ne_zero_of_lt hk)
    exact (upTo_zero _ _ _).symm
  | (name, v) :: ms, n, k, rest, h, hk => by
    obtain ⟨k, rfl⟩ := Nat.exists_eq_succ_of_ne_zero (Nat.ne_zero_of_lt hk)
    rw [List.forall_mem_cons] at h
    have hv := value_render v n (renderMembers ms ++ rest) h.1
    have hms := manyUpTo_renderMembers ms n k rest h.2 (by simpa using hk)
    have step : nextMember? (member stringRest (value n))
        (renderMembers ((name, v) :: ms) ++ rest) =
          upTo n v.depth (some (name, v.dedup)) (renderMembers ms ++ rest) := by
      have hmember := member_render name hv
      rw [renderMembers, List.cons_append, List.append_assoc, List.cons_append, List.append_assoc]
      rw [quote, List.cons_append] at hmember ⊢
      rw [nextMember?_comma]
      exact map_upTo some hmember
    rw [manyUpTo, depthMembers, dedupMembers]
    exact bind_upTo step (bind_pure_upTo ((name, v.dedup) :: ·) hms)

end

end Reader

/-- **The compact text of a value without numbers reads back as the value, or as malformed
    where the value nests too deep.** -/
theorem read_compact {v : Json} (h : v.All Reader.NotNumber) :
    read v.compact = if v.depth ≤ maxDepth then .ok v.dedup else .error .malformed := by
  have hv := Reader.value_render v maxDepth [] h
  rw [List.append_nil, Reader.upTo] at hv
  rw [read, Reader.readAll, compact, String.toList_ofList]
  split at hv
  · next hd =>
    show ((Reader.value maxDepth >>= _) v.render >>= _) = _
    rw [Reader.bind_ok hv, if_pos hd]
    rfl
  · next hd =>
    show ((Reader.value maxDepth >>= _) v.render >>= _) = _
    rw [Reader.bind_error hv, if_neg hd]
    rfl

end Json

end ResponseSchema
