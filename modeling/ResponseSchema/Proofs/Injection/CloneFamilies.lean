/-
  Injection — families of handles.

  The answers of handles, from the ledger of what was asked before.  A ledger only grows
  (`Ledger.Extends`), so what a family has once it has for good.

  * `answerAfter?_eq`: every answer is that of the plain cache of the family;
  * `firstWriterWins`: so the first text of a name is the one that all handles of the
    family have from then on, in whatever order they are asked.
-/
import ResponseSchema.Proofs.Injection.Ledger

namespace ResponseSchema

namespace SharedCaches

variable {handle family : Nat}

/-- The answer to a request after some others. -/
def answerAfter? (history : List Request) (r : Request) : Option Answer :=
  (Session.after history).answer? r

/-- The family of a handle, by the handle that has founded it. -/
def family? (history : List Request) (handle : Nat) : Option Nat :=
  (Ledger.ofHistory history).founders[handle]?

/-- What was asked for in a family. -/
def insertionsOf (history : List Request) (family : Nat) : List SchemaCache.Insertion :=
  (Ledger.ofHistory history).insertionsOf family

/-- The handles answer, after some requests, as families whose first writers win. -/
structure FirstWriterWins (history : List Request) : Prop where
  /-- Every answer is one of the plain cache of the family. -/
  answers (r : Request) : answerAfter? history r = (Ledger.ofHistory history).answer? r
  /-- A producer runs iff the family has no text for the name. -/
  produced {handle : Nat} {op : SchemaCache.Insertion} {answer : Except SchemaError String}
    {produced : Bool} : answerAfter? history (.fetch handle op) = some (.fetched answer produced) →
      (produced = true ↔ answerAfter? history (.get handle op.name) = some (.text none))
  /-- A text stays the answer for its name, for all handles of the family. -/
  first {handle : Nat} {op : SchemaCache.Insertion} {text : String} {produced : Bool} :
    answerAfter? history (.fetch handle op) = some (.fetched (.ok text) produced) →
      ∀ later other, family? (history ++ .fetch handle op :: later) other =
          family? history handle →
        answerAfter? (history ++ .fetch handle op :: later) (.get other op.name) =
            some (.text (some text)) ∧
          ∀ produce, answerAfter? (history ++ .fetch handle op :: later)
            (.fetch other ⟨op.name, produce⟩) = some (.fetched (.ok text) false)
  /-- A producer that fails changes nothing. -/
  failed {handle : Nat} {op : SchemaCache.Insertion} {e : SchemaError} {produced : Bool} :
    answerAfter? history (.fetch handle op) = some (.fetched (.error e) produced) →
      Session.after (history ++ [.fetch handle op]) = Session.after history
  /-- The names of a family stand in the order of their first success, with its text. -/
  order {handle family : Nat} : family? history handle = some family → ∃ cache,
    answerAfter? history (.snapshot handle) = some (.entries cache) ∧
      cache.entries.names =
        (SchemaCache.successes (insertionsOf history family)).names.eraseDups ∧
      ∀ name, cache.get? name = (SchemaCache.successes (insertionsOf history family)).lookup name
  /-- Only requests for texts in a family change what it has. -/
  others {handle family : Nat} {r : Request} : family? history handle = some family →
    (∀ other op, r = .fetch other op → family? history other ≠ some family) →
      answerAfter? (history ++ [r]) (.snapshot handle) = answerAfter? history (.snapshot handle)
  /-- A copy stays as it was taken. -/
  copies {handle : Nat} {cache : SchemaCache} :
    answerAfter? history (.snapshot handle) = some (.entries cache) → ∃ number, ∀ later,
      answerAfter? (history ++ .snapshot handle :: later) (.copy number) = some (.entries cache)

theorem answerAfter?_eq (history : List Request) (r : Request) :
    answerAfter? history r = (Ledger.ofHistory history).answer? r := by
  obtain ⟨number, h⟩ := Session.follows_ledger history
  exact (Session.follows_step h (Ledger.valid_ofHistory history) r).1

/-- A fetched answer is that of the plain cache of the family. -/
theorem exists_family_of_fetched {history : List Request} {handle : Nat}
    {op : SchemaCache.Insertion} {answer : Except SchemaError String} {produced : Bool}
    (h : answerAfter? history (.fetch handle op) = some (.fetched answer produced)) :
    ∃ family, family? history handle = some family ∧
      (((Ledger.ofHistory history).plain family).fetch op.name op.produce).answer = answer ∧
      (((Ledger.ofHistory history).plain family).fetch op.name op.produce).produced = produced := by
  rw [answerAfter?_eq] at h
  obtain ⟨family, hf, hanswer⟩ := Option.map_eq_some_iff.1 h
  rw [Answer.fetched.injEq] at hanswer
  exact ⟨family, hf, hanswer⟩

/-- A text that a family has is the answer from then on. -/
theorem answerAfter?_of_get? {history : List Request} {family : Nat} {name text : String}
    (h : ((Ledger.ofHistory history).plain family).get? name = some text) {later : List Request}
    {other : Nat} (hother : family? (history ++ later) other = some family) :
    answerAfter? (history ++ later) (.get other name) = some (.text (some text)) ∧
      ∀ produce, answerAfter? (history ++ later) (.fetch other ⟨name, produce⟩) =
        some (.fetched (.ok text) false) := by
  have hget := (Ledger.extends_append history later).get?_plain h
  rw [family?] at hother
  constructor
  · rw [answerAfter?_eq, Ledger.answer?, hother, Option.map_some, hget]
  · intro produce
    rw [answerAfter?_eq, Ledger.answer?, hother, Option.map_some,
      SchemaCache.fetch_of_some hget]

/-- What a family has stays the same, unless it is asked for a text. -/
theorem plain_append_of_others {history : List Request} {family : Nat} {r : Request}
    (h : ∀ other op, r = .fetch other op → family? history other ≠ some family) :
    (Ledger.ofHistory (history ++ [r])).plain family = (Ledger.ofHistory history).plain family := by
  rw [Ledger.ofHistory_append]
  cases r with
  | fetch other op =>
    cases hother : (Ledger.ofHistory history).founders[other]? with
    | none =>
      have hnone : (Ledger.ofHistory history).answer? (.fetch other op) = none := by
        rw [Ledger.answer?, hother]
        rfl
      rw [Ledger.next_of_none hnone]
    | some f =>
      have hne : f ≠ family := by
        rintro rfl
        exact h other op rfl hother
      rw [Ledger.plain_fetch hother, if_neg hne]
  | get => rfl
  | clone => rfl
  | fresh => rfl
  | snapshot => rfl
  | copy => rfl

section
variable {history : List Request} {op : SchemaCache.Insertion}

theorem produced_of_fetched {answer : Except SchemaError String} {produced : Bool}
    (h : answerAfter? history (.fetch handle op) = some (.fetched answer produced)) :
    produced = true ↔ answerAfter? history (.get handle op.name) = some (.text none) := by
  obtain ⟨family, hf, -, rfl⟩ := exists_family_of_fetched h
  rw [family?] at hf
  rw [SchemaCache.produced_iff, answerAfter?_eq, Ledger.answer?, hf, Option.map_some,
    Option.some.injEq, Answer.text.injEq]

/-- A text that was answered is the answer from then on. -/
theorem first_of_fetched {text : String} {produced : Bool}
    (h : answerAfter? history (.fetch handle op) = some (.fetched (.ok text) produced))
    (later : List Request) {other : Nat}
    (hother : family? (history ++ .fetch handle op :: later) other = family? history handle) :
    answerAfter? (history ++ .fetch handle op :: later) (.get other op.name) =
        some (.text (some text)) ∧
      ∀ produce, answerAfter? (history ++ .fetch handle op :: later)
        (.fetch other ⟨op.name, produce⟩) = some (.fetched (.ok text) false) := by
  obtain ⟨family, hf, hanswer, -⟩ := exists_family_of_fetched h
  have hget : ((Ledger.ofHistory (history ++ [.fetch handle op])).plain family).get? op.name =
      some text := by
    rw [Ledger.ofHistory_append, Ledger.plain_fetch hf, if_pos rfl]
    exact SchemaCache.get?_of_answer_ok hanswer
  rw [List.append_cons] at hother ⊢
  exact answerAfter?_of_get? hget (hother.trans hf)

theorem after_of_failed {e : SchemaError} {produced : Bool}
    (h : answerAfter? history (.fetch handle op) = some (.fetched (.error e) produced)) :
    Session.after (history ++ [.fetch handle op]) = Session.after history := by
  obtain ⟨number, hfollows⟩ := Session.follows_ledger history
  rw [Session.after_append]
  exact Session.next_of_failed hfollows (Ledger.valid_ofHistory history) h

theorem snapshot_of_family (h : family? history handle = some family) :
    answerAfter? history (.snapshot handle) =
      some (.entries ((Ledger.ofHistory history).plain family)) := by
  rw [family?] at h
  rw [answerAfter?_eq, Ledger.answer?, h, Option.map_some]

/-- What a family holds stays, whatever other families are asked for. -/
theorem snapshot_of_others {r : Request} (h : family? history handle = some family)
    (hr : ∀ other op, r = .fetch other op → family? history other ≠ some family) :
    answerAfter? (history ++ [r]) (.snapshot handle) = answerAfter? history (.snapshot handle) := by
  have hlater : family? (history ++ [r]) handle = some family :=
    getElem?_of_prefix (Ledger.extends_append history [r]).founders h
  rw [snapshot_of_family h, snapshot_of_family hlater, plain_append_of_others hr]

/-- A copy is the answer to its number from then on. -/
theorem exists_copy_of_snapshot {cache : SchemaCache}
    (h : answerAfter? history (.snapshot handle) = some (.entries cache)) : ∃ number, ∀ later,
      answerAfter? (history ++ .snapshot handle :: later) (.copy number) =
        some (.entries cache) := by
  rw [answerAfter?_eq] at h
  obtain ⟨family, hf, hcache⟩ := Option.map_eq_some_iff.1 h
  rw [Answer.entries.injEq] at hcache
  have htaken : (Ledger.ofHistory (history ++ [.snapshot handle])).copies =
      (Ledger.ofHistory history).copies ++ [cache] := by
    rw [Ledger.ofHistory_append, Ledger.next, hf, ← hcache]
    rfl
  refine ⟨(Ledger.ofHistory history).copies.length, fun later => ?_⟩
  have hcopy : (Ledger.ofHistory (history ++ [.snapshot handle])).copies[
      (Ledger.ofHistory history).copies.length]? = some cache := by
    rw [htaken, List.getElem?_concat_length]
  rw [List.append_cons, answerAfter?_eq, Ledger.answer?,
    getElem?_of_prefix (Ledger.extends_append _ later).copies hcopy, Option.map_some]

end

/-- **First writers win in every family**: whatever was asked of some handles, each answers as a
    plain cache to which the requests through the handles of its family were made in order. -/
theorem firstWriterWins (history : List Request) : FirstWriterWins history := by
  refine ⟨answerAfter?_eq history, produced_of_fetched, fun h later _ => first_of_fetched h later,
    after_of_failed, fun h => ?_, snapshot_of_others, exists_copy_of_snapshot⟩
  exact ⟨_, snapshot_of_family h, SchemaCache.names_after _, SchemaCache.get?_after _⟩

/-- A clone answers with what was asked for through the first handle, a new handle does not. -/
example : answerAfter? [.fetch 0 ⟨"Score", fun _ => .ok "1"⟩, .clone 0, .fresh] (.get 1 "Score") =
      some (.text (some "1")) ∧
    answerAfter? [.fetch 0 ⟨"Score", fun _ => .ok "1"⟩, .clone 0, .fresh] (.get 2 "Score") =
      some (.text none) :=
  ⟨rfl, rfl⟩

end SharedCaches

end ResponseSchema
