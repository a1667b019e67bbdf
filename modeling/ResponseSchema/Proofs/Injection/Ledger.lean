/-
  Injection — what a history says about handles.

  A handle and its clones are a family.  The handles answer as if every family had a
  plain cache of its own, to which the requests through its handles are made in order.
  A request holds the lock of its cache, so it is one step; threads only decide the
  order of the steps.

  * `Session.step?`: a request, its answer and what it changes;
  * `Ledger`: what a history says without any shared cache, that is which handle has
    founded the family of each handle, and what each family was asked for;
  * `Session.Follows`: the caches of a session are the plain caches of its ledger,
    under other numbers; each step keeps this (`follows_step`), so every session has
    it (`follows_ledger`).
-/
import ResponseSchema.Injection.SharedCache
import ResponseSchema.Proofs.Injection.FirstWriter

namespace ResponseSchema

namespace SharedCaches

/-! ## Requests -/

/-- What may be asked of some handles. -/
inductive Request where
  /-- The text of a name, from its producer if there is none. -/
  | fetch (handle : Nat) (op : SchemaCache.Insertion)
  /-- The text of a name, if there is one. -/
  | get (handle : Nat) (name : String)
  /-- One more handle to the same cache. -/
  | clone (handle : Nat)
  /-- One more handle, to a cache of its own. -/
  | fresh
  /-- A copy of what the cache holds now. -/
  | snapshot (handle : Nat)
  /-- A copy taken before, as it is now. -/
  | copy (number : Nat)

/-- What a request answers. -/
inductive Answer where
  | fetched (answer : Except SchemaError String) (produced : Bool)
  | text (text? : Option String)
  | handles (number : Nat)
  | entries (cache : SchemaCache)

/-- Some handles and the copies taken from them. -/
structure Session where
  shared : SharedCaches := .single
  copies : List SchemaCache := []

namespace Session

/-- The answer to a request and the session after it, if the handle or the copy is there. -/
def step? (s : Session) : Request → Option (Answer × Session)
  | .fetch handle op => do
    let (fetched, shared) ← s.shared.fetch? handle op.name op.produce
    pure (.fetched fetched.answer fetched.produced, { s with shared := shared })
  | .get handle name => do
    let _ ← s.shared.handles[handle]?
    pure (.text (s.shared.get? handle name), s)
  | .clone handle => do
    let shared ← s.shared.clone? handle
    pure (.handles shared.handles.length, { s with shared := shared })
  | .fresh => some (.handles s.shared.fresh.handles.length, { s with shared := s.shared.fresh })
  | .snapshot handle => do
    let cache ← s.shared.snapshot? handle
    pure (.entries cache, { s with copies := s.copies ++ [cache] })
  | .copy number => do
    let cache ← s.copies[number]?
    pure (.entries cache, s)

/-- The session after a request. -/
def next (s : Session) (r : Request) : Session :=
  ((s.step? r).map Prod.snd).getD s

/-- The answer to a request. -/
def answer? (s : Session) (r : Request) : Option Answer :=
  (s.step? r).map Prod.fst

/-- The session after some requests, beginning with one handle. -/
def after (history : List Request) : Session :=
  history.foldl next {}

end Session

/-! ## Ledgers -/

/-- The handle that has founded the family of each handle, what was asked for in which family,
    and what was copied. -/
structure Ledger where
  founders : List Nat := [0]
  insertions : List (Nat × SchemaCache.Insertion) := []
  copies : List SchemaCache := []

namespace Ledger

/-- What was asked for in a family. -/
def insertionsOf (l : Ledger) (family : Nat) : List SchemaCache.Insertion :=
  (l.insertions.filter (·.1 = family)).map Prod.snd

/-- A plain cache to which the requests of the family are made in order. -/
def plain (l : Ledger) (family : Nat) : SchemaCache :=
  .after (l.insertionsOf family)

/-- The answer to a request, from the plain cache of the family. -/
def answer? (l : Ledger) : Request → Option Answer
  | .fetch handle op => l.founders[handle]?.map fun family =>
    let fetched := (l.plain family).fetch op.name op.produce
    .fetched fetched.answer fetched.produced
  | .get handle name => l.founders[handle]?.map fun family => .text ((l.plain family).get? name)
  | .clone handle => l.founders[handle]?.map fun _ => .handles (l.founders.length + 1)
  | .fresh => some (.handles (l.founders.length + 1))
  | .snapshot handle => l.founders[handle]?.map fun family => .entries (l.plain family)
  | .copy number => l.copies[number]?.map .entries

/-- The ledger after a request. -/
def next (l : Ledger) : Request → Ledger
  | .fetch handle op => { l with
    insertions := l.insertions ++ (l.founders[handle]?.map fun family => (family, op)).toList }
  | .clone handle => { l with founders := l.founders ++ l.founders[handle]?.toList }
  | .fresh => { l with founders := l.founders ++ [l.founders.length] }
  | .snapshot handle => { l with
    copies := l.copies ++ (l.founders[handle]?.map l.plain).toList }
  | .get .. | .copy _ => l

/-- The ledger of a history. -/
def ofHistory (history : List Request) : Ledger :=
  history.foldl next {}

/-- Founders are handles, and only for families of handles was something asked. -/
structure Valid (l : Ledger) : Prop where
  founders : ∀ family ∈ l.founders, family < l.founders.length
  insertions : ∀ e ∈ l.insertions, e.1 ∈ l.founders

end Ledger

/-- The session follows the ledger: the caches have numbers, other ones for other families, and
    hold what the plain caches of the families hold. -/
structure Session.Follows (s : Session) (l : Ledger) (number : Nat → Nat) : Prop where
  handles : s.shared.handles = l.founders.map number
  caches : ∀ family ∈ l.founders, s.shared.caches[number family]? = some (l.plain family)
  injective : ∀ f ∈ l.founders, ∀ g ∈ l.founders, number f = number g → f = g
  copies : s.copies = l.copies

variable {s : Session} {l : Ledger} {number : Nat → Nat} {handle family : Nat}

/-- What stands in a list stands in every longer one that begins with it. -/
theorem getElem?_of_prefix {α : Type} {as bs : List α} (h : as <+: bs) {i : Nat} {a : α}
    (ha : as[i]? = some a) : bs[i]? = some a := by
  obtain ⟨hi, rfl⟩ := List.getElem?_eq_some_iff.1 ha
  exact List.prefix_iff_getElem?.1 h i hi

/-! ## Plain caches of a ledger -/

namespace Ledger

theorem insertionsOf_fetch (h : l.founders[handle]? = some family) (op : SchemaCache.Insertion)
    (f : Nat) : (l.next (.fetch handle op)).insertionsOf f =
      if family = f then l.insertionsOf f ++ [op] else l.insertionsOf f := by
  rw [next, h, insertionsOf, Option.map_some, Option.toList_some, List.filter_append,
    List.map_append]
  by_cases hf : family = f
  · simp [hf, insertionsOf]
  · simp [hf, insertionsOf]

/-- A request for a text is made to the plain cache of its family, and to no other. -/
theorem plain_fetch (h : l.founders[handle]? = some family) (op : SchemaCache.Insertion) (f : Nat) :
    (l.next (.fetch handle op)).plain f =
      if family = f then ((l.plain f).fetch op.name op.produce).cache else l.plain f := by
  rw [plain, insertionsOf_fetch h, plain]
  split
  · exact SchemaCache.after_append _ _
  · rfl

/-- Where there is no handle, nothing happens. -/
theorem next_of_none {r : Request} (h : l.answer? r = none) : l.next r = l := by
  cases r with
  | fetch handle op =>
    rw [answer?, Option.map_eq_none_iff] at h
    simp [next, h]
  | get => rfl
  | clone handle =>
    rw [answer?, Option.map_eq_none_iff] at h
    simp [next, h]
  | fresh => cases h
  | snapshot handle =>
    rw [answer?, Option.map_eq_none_iff] at h
    simp [next, h]
  | copy => rfl

theorem Valid.lt (h : l.Valid) (hf : l.founders[handle]? = some family) :
    family < l.founders.length :=
  h.founders family (List.mem_of_getElem? hf)

theorem Valid.found (h : l.Valid) {more : List Nat}
    (hmore : ∀ f ∈ more, f < l.founders.length + more.length) :
    Valid { l with founders := l.founders ++ more } := by
  constructor
  · intro f hf
    rw [List.length_append]
    rcases List.mem_append.1 hf with hf | hf
    · have := h.founders f hf
      omega
    · exact hmore f hf
  · intro e he
    exact List.mem_append_left _ (h.insertions e he)

theorem Valid.next (h : l.Valid) (r : Request) : (l.next r).Valid := by
  cases r with
  | fetch handle op =>
    refine ⟨h.founders, fun e he => ?_⟩
    rcases List.mem_append.1 he with he | he
    · exact h.insertions e he
    · obtain ⟨family, hf, rfl⟩ := Option.map_eq_some_iff.1 (Option.mem_toList.1 he)
      exact List.mem_of_getElem? hf
  | clone handle =>
    refine h.found fun f hf => ?_
    have := h.lt (Option.mem_toList.1 hf)
    omega
  | fresh =>
    refine h.found fun f hf => ?_
    rw [List.mem_singleton.1 hf]
    exact Nat.lt_succ_self _
  | snapshot => exact ⟨h.founders, h.insertions⟩
  | get => exact h
  | copy => exact h

theorem ofHistory_append (history : List Request) (r : Request) :
    ofHistory (history ++ [r]) = (ofHistory history).next r := by
  rw [ofHistory, List.foldl_append]
  rfl

theorem valid_ofHistory (history : List Request) : (ofHistory history).Valid := by
  induction history using List.reverseRecOn with
  | nil => exact ⟨by simp [ofHistory], by simp [ofHistory]⟩
  | append_singleton history r ih =>
    rw [ofHistory_append]
    exact ih.next r

/-- Everything in the ledger is in the other one, which may go on. -/
structure Extends (l l' : Ledger) : Prop where
  founders : l.founders <+: l'.founders
  insertions : l.insertions <+: l'.insertions
  copies : l.copies <+: l'.copies

theorem Extends.refl (l : Ledger) : l.Extends l :=
  ⟨List.prefix_rfl, List.prefix_rfl, List.prefix_rfl⟩

theorem Extends.next {l' : Ledger} (h : l.Extends l') (r : Request) : l.Extends (l'.next r) := by
  cases r with
  | fetch => exact ⟨h.founders, h.insertions.trans (List.prefix_append _ _), h.copies⟩
  | get => exact h
  | clone => exact ⟨h.founders.trans (List.prefix_append _ _), h.insertions, h.copies⟩
  | fresh => exact ⟨h.founders.trans (List.prefix_append _ _), h.insertions, h.copies⟩
  | snapshot => exact ⟨h.founders, h.insertions, h.copies.trans (List.prefix_append _ _)⟩
  | copy => exact h

/-- A history that goes on only adds to its ledger. -/
theorem extends_append (history later : List Request) :
    (ofHistory history).Extends (ofHistory (history ++ later)) := by
  induction later using List.reverseRecOn with
  | nil => rw [List.append_nil]; exact .refl _
  | append_singleton later r ih =>
    rw [← List.append_assoc, ofHistory_append]
    exact ih.next r

theorem Extends.get?_plain {l' : Ledger} (h : l.Extends l') {name text : String}
    (hget : (l.plain family).get? name = some text) : (l'.plain family).get? name = some text := by
  obtain ⟨more, hmore⟩ := (h.insertions.filter (·.1 = family)).map Prod.snd
  rw [plain, insertionsOf, ← hmore]
  exact SchemaCache.get?_after_append hget more

/-- A family that has not been founded has an empty cache. -/
theorem Valid.plain_eq_empty (h : l.Valid) : l.plain l.founders.length = {} := by
  have hnone : l.insertions.filter (·.1 = l.founders.length) = [] := by
    rw [List.filter_eq_nil_iff]
    intro e he hfamily
    have hlt := h.founders e.1 (h.insertions e he)
    rw [of_decide_eq_true hfamily] at hlt
    exact Nat.lt_irrefl _ hlt
  rw [plain, insertionsOf, hnone]
  rfl

end Ledger

/-! ## Sessions follow their ledgers -/

namespace Session

theorem Follows.handles? (h : s.Follows l number) (handle : Nat) :
    s.shared.handles[handle]? = l.founders[handle]?.map number := by
  rw [h.handles, List.getElem?_map]

/-- A handle leads to the cache of its family. -/
theorem Follows.snapshot? (h : s.Follows l number) (handle : Nat) :
    s.shared.snapshot? handle = l.founders[handle]?.map l.plain := by
  rw [SharedCaches.snapshot?, h.handles?]
  cases hf : l.founders[handle]? with
  | none => rfl
  | some family => exact h.caches family (List.mem_of_getElem? hf)

theorem step?_of_none (h : s.Follows l number) {r : Request} (hr : l.answer? r = none) :
    s.step? r = none := by
  cases r with
  | fetch handle op =>
    rw [Ledger.answer?, Option.map_eq_none_iff] at hr
    rw [step?, SharedCaches.fetch?, h.handles?, hr]
    rfl
  | get handle name =>
    rw [Ledger.answer?, Option.map_eq_none_iff] at hr
    rw [step?, h.handles?, hr]
    rfl
  | clone handle =>
    rw [Ledger.answer?, Option.map_eq_none_iff] at hr
    rw [step?, SharedCaches.clone?, h.handles?, hr]
    rfl
  | fresh => cases hr
  | snapshot handle =>
    rw [Ledger.answer?, Option.map_eq_none_iff] at hr
    rw [step?, h.snapshot?, hr]
    rfl
  | copy number =>
    rw [Ledger.answer?, Option.map_eq_none_iff] at hr
    rw [step?, h.copies, hr]
    rfl

theorem follows_fetch (h : s.Follows l number) (hf : l.founders[handle]? = some family)
    (op : SchemaCache.Insertion) :
    Follows ⟨⟨s.shared.caches.set (number family)
      ((l.plain family).fetch op.name op.produce).cache, s.shared.handles⟩, s.copies⟩
      (l.next (.fetch handle op)) number := by
  have hmem := List.mem_of_getElem? hf
  have hlt : number family < s.shared.caches.length :=
    (List.getElem?_eq_some_iff.1 (h.caches family hmem)).1
  refine ⟨h.handles, fun f hfounder => ?_, h.injective, h.copies⟩
  rw [Ledger.plain_fetch hf]
  by_cases hsame : family = f
  · subst hsame
    rw [if_pos rfl]
    exact List.getElem?_set_self hlt
  · rw [if_neg hsame]
    have hother : number family ≠ number f :=
      fun heq => hsame (h.injective family hmem f hfounder heq)
    exact (List.getElem?_set_ne hother).trans (h.caches f hfounder)

theorem follows_clone (h : s.Follows l number) (hf : l.founders[handle]? = some family) :
    Follows ⟨⟨s.shared.caches, s.shared.handles ++ [number family]⟩, s.copies⟩
      (l.next (.clone handle)) number := by
  have hmem := List.mem_of_getElem? hf
  have hfounders : (l.next (.clone handle)).founders = l.founders ++ [family] := by
    rw [Ledger.next, hf]; rfl
  have hold : ∀ f ∈ (l.next (.clone handle)).founders, f ∈ l.founders := by
    intro f hfounder
    rw [hfounders, List.mem_append, List.mem_singleton] at hfounder
    rcases hfounder with hfounder | rfl
    · exact hfounder
    · exact hmem
  refine ⟨?_, fun f hfounder => h.caches f (hold f hfounder),
    fun f hf' g hg => h.injective f (hold f hf') g (hold g hg), h.copies⟩
  rw [hfounders, List.map_append, ← h.handles]
  rfl

theorem follows_fresh (h : s.Follows l number) (hl : l.Valid) :
    ∃ number', Follows { s with shared := s.shared.fresh } (l.next .fresh) number' := by
  -- the handle founds its family, whose cache gets the number that is free
  let number' (f : Nat) : Nat := if f = l.founders.length then s.shared.caches.length else number f
  have hnew : number' l.founders.length = s.shared.caches.length := if_pos rfl
  have hold : ∀ f ∈ l.founders, number' f = number f :=
    fun f hf => if_neg (Nat.ne_of_lt (hl.founders f hf))
  have hlt : ∀ f ∈ l.founders, number f < s.shared.caches.length :=
    fun f hf => (List.getElem?_eq_some_iff.1 (h.caches f hf)).1
  have hcases : ∀ f ∈ (l.next .fresh).founders, f ∈ l.founders ∨ f = l.founders.length := by
    intro f hf
    rcases List.mem_append.1 hf with hf | hf
    · exact .inl hf
    · exact .inr (List.mem_singleton.1 hf)
  refine ⟨number', ?_, fun f hf => ?_, fun f hf g hg heq => ?_, h.copies⟩
  · show s.shared.handles ++ [s.shared.caches.length] = (l.founders ++ [l.founders.length]).map number'
    rw [List.map_append, List.map_congr_left hold, ← h.handles, List.map_singleton, hnew]
  · show (s.shared.caches ++ [⟨[]⟩])[number' f]? = some (l.plain f)
    rcases hcases f hf with hf | rfl
    · rw [hold f hf, List.getElem?_append_left (hlt f hf)]
      exact h.caches f hf
    · rw [hnew, List.getElem?_concat_length, hl.plain_eq_empty]
  · rcases hcases f hf with hf | rfl <;> rcases hcases g hg with hg | rfl
    · rw [hold f hf, hold g hg] at heq
      exact h.injective f hf g hg heq
    · rw [hold f hf, hnew] at heq
      exact absurd heq (Nat.ne_of_lt (hlt f hf))
    · rw [hold g hg, hnew] at heq
      exact absurd heq.symm (Nat.ne_of_lt (hlt g hg))
    · rfl

theorem step?_fetch (h : s.Follows l number) (hf : l.founders[handle]? = some family)
    (op : SchemaCache.Insertion) : s.step? (.fetch handle op) =
      some (.fetched ((l.plain family).fetch op.name op.produce).answer
        ((l.plain family).fetch op.name op.produce).produced,
        ⟨⟨s.shared.caches.set (number family) ((l.plain family).fetch op.name op.produce).cache,
          s.shared.handles⟩, s.copies⟩) := by
  have hcache := h.caches family (List.mem_of_getElem? hf)
  simp [step?, SharedCaches.fetch?, h.handles?, hf, hcache]

theorem exists_step?_of_some (h : s.Follows l number) (hl : l.Valid) {r : Request} {answer : Answer}
    (hr : l.answer? r = some answer) :
    ∃ s' number', s.step? r = some (answer, s') ∧ s'.Follows (l.next r) number' := by
  cases r with
  | fetch handle op =>
    obtain ⟨family, hf, rfl⟩ := Option.map_eq_some_iff.1 hr
    exact ⟨_, number, step?_fetch h hf op, follows_fetch h hf op⟩
  | get handle name =>
    obtain ⟨family, hf, rfl⟩ := Option.map_eq_some_iff.1 hr
    refine ⟨s, number, ?_, h⟩
    rw [step?, SharedCaches.get?, h.handles?, h.snapshot?, hf]
    rfl
  | clone handle =>
    obtain ⟨family, hf, rfl⟩ := Option.map_eq_some_iff.1 hr
    refine ⟨_, number, ?_, follows_clone h hf⟩
    rw [step?, SharedCaches.clone?, h.handles?, hf]
    simp [h.handles]
  | fresh =>
    obtain ⟨number', hfollows⟩ := follows_fresh h hl
    cases hr
    refine ⟨_, number', ?_, hfollows⟩
    simp [step?, SharedCaches.fresh, h.handles]
  | snapshot handle =>
    obtain ⟨family, hf, rfl⟩ := Option.map_eq_some_iff.1 hr
    refine ⟨{ s with copies := s.copies ++ [l.plain family] }, number, ?_,
      h.handles, h.caches, h.injective, ?_⟩
    · rw [step?, h.snapshot?, hf]
      rfl
    · show s.copies ++ [l.plain family] = l.copies ++ (l.founders[handle]?.map l.plain).toList
      rw [h.copies, hf]
      rfl
  | copy position =>
    obtain ⟨cache, hcache, rfl⟩ := Option.map_eq_some_iff.1 hr
    refine ⟨s, number, ?_, h⟩
    rw [step?, h.copies, hcache]
    rfl

/-- **A step answers as the ledger says, and the session follows the ledger after it.** -/
theorem follows_step (h : s.Follows l number) (hl : l.Valid) (r : Request) :
    s.answer? r = l.answer? r ∧ ∃ number', (s.next r).Follows (l.next r) number' := by
  cases hr : l.answer? r with
  | none =>
    have hstep := step?_of_none h hr
    rw [answer?, next, hstep, Ledger.next_of_none hr]
    exact ⟨rfl, number, h⟩
  | some answer =>
    obtain ⟨s', number', hstep, hfollows⟩ := exists_step?_of_some h hl hr
    rw [answer?, next, hstep]
    exact ⟨rfl, number', hfollows⟩

theorem after_append (history : List Request) (r : Request) :
    after (history ++ [r]) = (after history).next r := by
  rw [after, List.foldl_append]
  rfl

/-- **Every session follows the ledger of its history.** -/
theorem follows_ledger (history : List Request) :
    ∃ number, (after history).Follows (.ofHistory history) number := by
  induction history using List.reverseRecOn with
  | nil =>
    refine ⟨id, rfl, ?_, fun f _ g _ h => h, rfl⟩
    intro f hf
    rw [List.mem_singleton.1 hf]
    rfl
  | append_singleton history r ih =>
    obtain ⟨number, h⟩ := ih
    rw [after_append, Ledger.ofHistory_append]
    exact (follows_step h (Ledger.valid_ofHistory history) r).2

/-- A request that fails leaves the session as it is. -/
theorem next_of_failed (h : s.Follows l number) (hl : l.Valid) {op : SchemaCache.Insertion}
    {e : SchemaError} {produced : Bool}
    (hfailed : s.answer? (.fetch handle op) = some (.fetched (.error e) produced)) :
    s.next (.fetch handle op) = s := by
  rw [(follows_step h hl _).1] at hfailed
  obtain ⟨family, hf, hanswer⟩ := Option.map_eq_some_iff.1 hfailed
  rw [Answer.fetched.injEq] at hanswer
  obtain ⟨hlt, hcache⟩ := List.getElem?_eq_some_iff.1 (h.caches family (List.mem_of_getElem? hf))
  rw [next, step?_fetch h hf, SchemaCache.cache_of_answer_error hanswer.1, ← hcache,
    List.set_getElem_self]
  rfl

end Session

end SharedCaches

end ResponseSchema
