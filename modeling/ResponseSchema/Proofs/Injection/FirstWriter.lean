/-
  Injection — what a cache holds after some requests.

  A request that finds no text runs its producer, and a text that comes from it stays.

  * `fetch_cases`: what one request does;
  * `after`: the cache after some requests, `successes`: the texts that their
    producers have, whether they run or not;
  * `get?_after`: a cache has for each name the first of these texts;
  * `names_after`: its names stand in the order of their first success.
-/
import ResponseSchema.Injection.Cache
import Mathlib.Data.List.Basic
import Mathlib.Data.List.Induction

namespace ResponseSchema

theorem Entries.names_append {α : Type} (es fs : Entries α) :
    Entries.names (es ++ fs) = es.names ++ fs.names :=
  List.map_append

namespace SchemaCache

/-- A request for the text of a name, with what produces it. -/
structure Insertion where
  name : String
  produce : Unit → Except SchemaError String

/-- The cache after some requests, one after the other. -/
def after (ops : List Insertion) : SchemaCache :=
  ops.foldl (fun c op => (c.fetch op.name op.produce).cache) {}

/-- The text that the producer of a request has, under the name. -/
def Insertion.success? (op : Insertion) : Option (String × String) :=
  match op.produce () with
  | .ok text => some (op.name, text)
  | .error _ => none

/-- The texts that the producers of some requests have. -/
def successes (ops : List Insertion) : Entries String :=
  ops.filterMap Insertion.success?

variable {c : SchemaCache} {name text : String} {produce : Unit → Except SchemaError String}

/-! ## One request -/

theorem fetch_of_some (h : c.get? name = some text) (produce : Unit → Except SchemaError String) :
    c.fetch name produce = ⟨.ok text, false, c⟩ := by
  rw [fetch, h]

/-- **What a request does**: it finds a text, or runs its producer and keeps what that gives. -/
theorem fetch_cases (c : SchemaCache) (name : String)
    (produce : Unit → Except SchemaError String) :
    (∃ text, c.get? name = some text ∧ c.fetch name produce = ⟨.ok text, false, c⟩) ∨
    (∃ text, c.get? name = none ∧ produce () = .ok text ∧
      c.fetch name produce = ⟨.ok text, true, ⟨c.entries ++ [(name, text)]⟩⟩) ∨
    ∃ e, c.get? name = none ∧ produce () = .error e ∧
      c.fetch name produce = ⟨.error e, true, c⟩ := by
  cases hget : c.get? name with
  | some text => exact .inl ⟨text, rfl, fetch_of_some hget produce⟩
  | none =>
    right
    rw [fetch, hget]
    cases hproduce : produce () with
    | ok text => exact .inl ⟨text, rfl, rfl, rfl⟩
    | error e => exact .inr ⟨e, rfl, rfl, rfl⟩

/-- The producer runs iff there is no text. -/
theorem produced_iff : (c.fetch name produce).produced = true ↔ c.get? name = none := by
  rcases fetch_cases c name produce with ⟨_, hget, h⟩ | ⟨_, hget, -, h⟩ | ⟨_, hget, -, h⟩ <;>
    simp [h, hget]

/-- A request that fails leaves the cache as it is. -/
theorem cache_of_answer_error {e : SchemaError} (h : (c.fetch name produce).answer = .error e) :
    (c.fetch name produce).cache = c := by
  rcases fetch_cases c name produce with ⟨_, -, hfetch⟩ | ⟨_, -, -, hfetch⟩ | ⟨_, -, -, hfetch⟩
  · rw [hfetch]
  · rw [hfetch] at h
    cases h
  · rw [hfetch]

/-- A text that answers a request is the one in the cache then. -/
theorem get?_of_answer_ok (h : (c.fetch name produce).answer = .ok text) :
    (c.fetch name produce).cache.get? name = some text := by
  rcases fetch_cases c name produce with
    ⟨_, hget, hfetch⟩ | ⟨_, hget, -, hfetch⟩ | ⟨_, -, -, hfetch⟩ <;> rw [hfetch] at h
  · cases h
    rw [hfetch]
    exact hget
  · cases h
    have hnew : c.entries.lookup name = none := hget
    rw [hfetch]
    simp [get?, List.lookup_append, hnew]
  · cases h

theorem mem_names_iff : name ∈ c.entries.names ↔ c.get? name ≠ none := by
  rw [get?, ne_eq, Entries.lookup_eq_none_iff, not_not]

theorem successes_singleton_of_ok {op : Insertion} (h : op.produce () = .ok text) :
    successes [op] = [(op.name, text)] := by
  simp [successes, Insertion.success?, h]

theorem successes_singleton_of_error {op : Insertion} {e : SchemaError}
    (h : op.produce () = .error e) : successes [op] = [] := by
  simp [successes, Insertion.success?, h]

theorem names_successes_singleton (op : Insertion) :
    (successes [op]).names = [op.name] ∨ (successes [op]).names = [] := by
  cases h : op.produce () with
  | ok text => exact .inl (by rw [successes_singleton_of_ok h]; rfl)
  | error e => exact .inr (by rw [successes_singleton_of_error h]; rfl)

/-- A success goes to the end, unless its name has a text. -/
theorem entries_fetch (c : SchemaCache) (op : Insertion) :
    (c.fetch op.name op.produce).cache.entries =
      if op.name ∈ c.entries.names then c.entries else c.entries ++ successes [op] := by
  rcases fetch_cases c op.name op.produce with
    ⟨_, hget, h⟩ | ⟨_, hget, hproduce, h⟩ | ⟨_, hget, hproduce, h⟩
  · rw [h, if_pos (mem_names_iff.2 (by simp [hget]))]
  · rw [h, if_neg fun hmem => mem_names_iff.1 hmem hget, successes_singleton_of_ok hproduce]
  · rw [h, if_neg fun hmem => mem_names_iff.1 hmem hget, successes_singleton_of_error hproduce,
      List.append_nil]

/-- What is there stays the text of its name. -/
theorem get?_fetch (c : SchemaCache) (op : Insertion) (name : String) :
    (c.fetch op.name op.produce).cache.get? name =
      (c.get? name).or ((successes [op]).lookup name) := by
  rw [get?, entries_fetch]
  split
  · next hmem =>
    by_cases hname : name = op.name
    · obtain ⟨text, htext⟩ := Option.ne_none_iff_exists'.1 (mem_names_iff.1 hmem)
      rw [hname, htext]
      exact htext
    · have hother : (successes [op]).lookup name = none := by
        rw [Entries.lookup_eq_none_iff]
        rcases names_successes_singleton op with hnames | hnames <;> simp [hnames, hname]
      rw [hother, Option.or_none]
      rfl
  · exact List.lookup_append

/-! ## Several requests -/

variable {ops : List Insertion}

theorem after_append (ops : List Insertion) (op : Insertion) :
    after (ops ++ [op]) = ((after ops).fetch op.name op.produce).cache := by
  rw [after, List.foldl_append]
  rfl

theorem successes_append (ops more : List Insertion) :
    successes (ops ++ more) = successes ops ++ successes more :=
  List.filterMap_append

/-- **A cache has for each name the first text that a producer had for it.** -/
theorem get?_after (ops : List Insertion) (name : String) :
    (after ops).get? name = (successes ops).lookup name := by
  induction ops using List.reverseRecOn with
  | nil => rfl
  | append_singleton ops op ih =>
    rw [after_append, get?_fetch, ih, successes_append, List.lookup_append]

/-- **The names of a cache stand in the order of their first success.** -/
theorem names_after (ops : List Insertion) :
    (after ops).entries.names = (successes ops).names.eraseDups := by
  induction ops using List.reverseRecOn with
  | nil => rfl
  | append_singleton ops op ih =>
    have hmem : op.name ∈ (after ops).entries.names ↔ op.name ∈ (successes ops).names := by
      rw [ih, List.mem_eraseDups]
    rw [after_append, entries_fetch, successes_append, Entries.names_append,
      List.eraseDups_append]
    split
    · next hold =>
      rw [hmem] at hold
      rw [ih]
      rcases names_successes_singleton op with hnames | hnames <;>
        simp [hnames, List.removeAll, hold]
    · next hnew =>
      rw [hmem] at hnew
      rw [Entries.names_append, ih]
      rcases names_successes_singleton op with hnames | hnames <;>
        simp [hnames, List.removeAll, List.eraseDups_cons, hnew]

/-- A text stays, whatever is asked for later. -/
theorem get?_after_append (h : (after ops).get? name = some text) (more : List Insertion) :
    (after (ops ++ more)).get? name = some text := by
  rw [get?_after] at h ⊢
  rw [successes_append, List.lookup_append, h]
  rfl

end SchemaCache

end ResponseSchema
