/-
  Entries — lists of named entries in which the first position and the last
  value of a name count.

  * `insert` replaces the value of a name where the name stands, or appends;
    `ofList` inserts one entry after the other into the empty list;
  * `insertNew` appends unless the name is taken, so the first value counts;
  * `Distinct`: no name occurs twice.

  `lookup_insert_self` and `lookup_insert_of_ne` describe `insert` through
  `lookup`; `distinct_insert`, `distinct_ofList` and `distinct_foldl_insertNew`
  say that lists built here are `Distinct`, and `ofList` leaves such lists as
  they are (`ofList_of_distinct`).
-/

namespace ResponseSchema

/-- Named values in a fixed order. -/
abbrev Entries (α : Type) := List (String × α)

namespace Entries

variable {α : Type}

/-- The names, in order. -/
def names (es : Entries α) : List String :=
  es.map Prod.fst

/-- No name occurs twice. -/
def Distinct (es : Entries α) : Prop :=
  es.names.Nodup

instance (es : Entries α) : Decidable es.Distinct :=
  inferInstanceAs (Decidable (List.Nodup _))

/-- Put `value` where `name` stands, or at the end if it stands nowhere. -/
def insert (name : String) (value : α) : Entries α → Entries α
  | [] => [(name, value)]
  | (n, v) :: es => if n = name then (n, value) :: es else (n, v) :: insert name value es

/-- Append `value` under `name` unless the name is taken. -/
def insertNew (name : String) (value : α) (es : Entries α) : Entries α :=
  if name ∈ es.names then es else es ++ [(name, value)]

/-- The entries of `es`, each name at its first position with its last value. -/
def ofList (es : List (String × α)) : Entries α :=
  es.foldl (fun acc e => insert e.1 e.2 acc) []

/-! ## Reading back -/

@[simp] theorem names_nil : names ([] : Entries α) = [] := rfl

@[simp] theorem names_cons (e : String × α) (es : Entries α) :
    names (e :: es) = e.1 :: names es := rfl

theorem lookup_insert_self (name : String) (value : α) :
    ∀ es : Entries α, List.lookup name (insert name value es) = some value
  | [] => by simp [insert]
  | (n, v) :: es => by
    by_cases h : n = name
    · simp [insert, h]
    · have h' : (name == n) = false := by simpa using Ne.symm h
      simp [insert, h, List.lookup_cons, h', lookup_insert_self name value es]

theorem lookup_insert_of_ne {name other : String} (value : α) (h : other ≠ name) :
    ∀ es : Entries α, List.lookup other (insert name value es) = es.lookup other
  | [] => by
    have h' : (other == name) = false := by simpa using h
    simp [insert, List.lookup_cons, h']
  | (n, v) :: es => by
    by_cases hn : n = name
    · have h' : (other == name) = false := by simpa using h
      simp [insert, hn, List.lookup_cons, h']
    · simp [insert, hn, List.lookup_cons, lookup_insert_of_ne value h es]

theorem lookup_eq_none_iff {name : String} {es : Entries α} :
    es.lookup name = none ↔ name ∉ es.names := by
  rw [List.lookup_eq_none_iff, names, List.mem_map]
  constructor
  · rintro h ⟨e, he, rfl⟩
    simpa using h e he
  · intro h e he
    have : name ≠ e.1 := fun heq => h ⟨e, he, heq.symm⟩
    simpa using this

theorem mem_of_lookup {name : String} {value : α} {es : Entries α}
    (h : es.lookup name = some value) : (name, value) ∈ es := by
  obtain ⟨before, after, rfl, -⟩ := List.lookup_eq_some_iff.1 h
  exact List.mem_append_right before List.mem_cons_self

theorem mem_names_insert (name : String) (value : α) (other : String) :
    ∀ es : Entries α, other ∈ (insert name value es).names ↔ other = name ∨ other ∈ es.names
  | [] => by simp [insert]
  | (n, v) :: es => by
    by_cases h : n = name
    · simp [insert, h]
    · simp only [insert, h, if_false, names_cons, List.mem_cons, mem_names_insert name value other es]
      exact or_left_comm

theorem distinct_insert (name : String) (value : α) :
    ∀ {es : Entries α}, es.Distinct → (insert name value es).Distinct
  | [], _ => by simp [insert, Distinct]
  | (n, v) :: es, h => by
    have ⟨hn, hes⟩ : n ∉ names es ∧ (names es).Nodup := by simpa [Distinct] using h
    by_cases heq : n = name
    · simpa [insert, heq, Distinct] using And.intro (heq ▸ hn) hes
    · have ih : (names (insert name value es)).Nodup := distinct_insert name value hes
      have : n ∉ names (insert name value es) := by
        rw [mem_names_insert]
        rintro (h' | h')
        · exact heq h'
        · exact hn h'
      simpa [insert, heq, Distinct] using And.intro this ih

theorem distinct_ofList (es : List (String × α)) : (ofList es).Distinct := by
  have go : ∀ (es : List (String × α)) (acc : Entries α), acc.Distinct →
      (es.foldl (fun acc e => insert e.1 e.2 acc) acc).Distinct := by
    intro es
    induction es with
    | nil => intro acc h; exact h
    | cons e es ih => intro acc h; exact ih _ (distinct_insert e.1 e.2 h)
  exact go es [] (by simp [Distinct])

/-! ## Inserting one by one -/

/-- Steps that append under new names build entries without a repeated name as they are. -/
theorem foldl_of_append_new {step : Entries α → String × α → Entries α}
    (hstep : ∀ (acc : Entries α) (e : String × α), e.1 ∉ acc.names → step acc e = acc ++ [e])
    {es : List (String × α)} (h : Distinct es) : es.foldl step [] = es := by
  have go : ∀ (es : List (String × α)) (acc : Entries α), Distinct (acc ++ es) →
      es.foldl step acc = acc ++ es := by
    intro es
    induction es with
    | nil => intro acc _; simp
    | cons e es ih =>
      intro acc h
      have hnew : e.1 ∉ names acc := by
        intro hmem
        rw [Distinct, names, List.map_append, List.nodup_append] at h
        exact h.2.2 _ hmem _ (by simp) rfl
      rw [List.foldl_cons, hstep acc e hnew, ih _ (by simpa using h)]
      simp
  exact go es [] h

theorem insert_of_new {name : String} (value : α) : ∀ {es : Entries α}, name ∉ es.names →
    insert name value es = es ++ [(name, value)]
  | [], _ => rfl
  | e :: es, h => by
    have ⟨hne, hes⟩ : name ≠ e.1 ∧ name ∉ names es := by simpa using h
    rw [insert, if_neg (Ne.symm hne), insert_of_new value hes, List.cons_append]

/-- Entries without a repeated name are what inserting them one by one makes. -/
theorem ofList_of_distinct {es : List (String × α)} (h : Distinct es) : ofList es = es :=
  foldl_of_append_new (fun _ e hnew => insert_of_new e.2 hnew) h

theorem foldl_insertNew_of_distinct {es : List (String × α)} (h : Distinct es) :
    es.foldl (fun acc e => insertNew e.1 e.2 acc) [] = es :=
  foldl_of_append_new (fun _ _ hnew => if_neg hnew) h

/-! ## Inserting new names -/

theorem mem_foldl_insertNew {e : String × α} : ∀ {es : List (String × α)} {acc : Entries α},
    e ∈ es.foldl (fun acc e => insertNew e.1 e.2 acc) acc → e ∈ acc ∨ e ∈ es
  | [], _, h => .inl h
  | (name, value) :: es, acc, h => by
    rcases @mem_foldl_insertNew _ es _ h with h | h
    · change e ∈ insertNew name value acc at h
      rw [insertNew] at h
      split at h
      · exact .inl h
      · rcases List.mem_append.1 h with h | h
        · exact .inl h
        · exact .inr (List.mem_cons.2 (.inl (List.mem_singleton.1 h)))
    · exact .inr (List.mem_cons_of_mem _ h)

theorem distinct_foldl_insertNew : ∀ (es : List (String × α)) {acc : Entries α}, acc.Distinct →
    (es.foldl (fun acc e => insertNew e.1 e.2 acc) acc).Distinct
  | [], _, h => h
  | (name, value) :: es, acc, h => by
    refine distinct_foldl_insertNew es ?_
    change Distinct (insertNew name value acc)
    rw [insertNew]
    split
    · exact h
    · next hn =>
      rw [Distinct, names, List.map_append, List.nodup_append]
      refine ⟨h, by simp, ?_⟩
      intro a ha b hb same
      have hb : b = name := List.mem_singleton.1 hb
      exact hn (hb ▸ same ▸ ha)

end Entries

end ResponseSchema
