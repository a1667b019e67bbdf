/-
  Results — computations that may fail.

  * `bind_eq_ok` and `map_eq_ok` open a computation that has succeeded;
  * `failure?` is the error of one that has not; of several in a row the first
    failure counts (`failure?_bind`);
  * `mapError_bind_congr`: two computations that agree step by step, up to what is
    seen of their errors, agree as a whole.
-/

namespace ResponseSchema

variable {ε α β : Type}

theorem bind_eq_ok {x : Except ε α} {f : α → Except ε β} {b : β} (h : x >>= f = .ok b) :
    ∃ a, x = .ok a ∧ f a = .ok b := by
  cases x with
  | error e => cases h
  | ok a => exact ⟨a, rfl, h⟩

theorem map_eq_ok {x : Except ε α} {f : α → β} {b : β} (h : x.map f = .ok b) :
    ∃ a, x = .ok a ∧ f a = b := by
  cases x with
  | error e => cases h
  | ok a => exact ⟨a, rfl, Except.ok.inj h⟩

/-- What a list is mapped to comes from its elements. -/
theorem exists_of_mapM_eq_ok {f : α → Except ε β} {as : List α} {bs : List β}
    (h : as.mapM f = .ok bs) : ∀ b ∈ bs, ∃ a ∈ as, f a = .ok b := by
  induction as generalizing bs with
  | nil => cases h; simp
  | cons a as ih =>
    rw [List.mapM_cons] at h
    obtain ⟨b, hb, h⟩ := bind_eq_ok h
    obtain ⟨bs, hbs, h⟩ := bind_eq_ok h
    cases h
    intro c hc
    rcases List.mem_cons.1 hc with rfl | hc
    · exact ⟨a, List.mem_cons_self, hb⟩
    · obtain ⟨a', ha', hc⟩ := ih hbs c hc
      exact ⟨a', List.mem_cons_of_mem _ ha', hc⟩

/-! ## Failures -/

/-- The error, if there is no result. -/
def failure? : Except ε α → Option ε
  | .ok _ => none
  | .error e => some e

theorem failure?_eq_none_iff {x : Except ε α} : failure? x = none ↔ ∃ a, x = .ok a := by
  cases x <;> simp [failure?]

theorem failure?_eq_some_iff {x : Except ε α} {e : ε} : failure? x = some e ↔ x = .error e := by
  cases x <;> simp [failure?]

theorem failure?_map (f : α → β) (x : Except ε α) : failure? (x.map f) = failure? x := by
  cases x <;> rfl

/-- Of two computations the first failure counts. -/
theorem failure?_bind {x : Except ε α} {f : α → Except ε β} {o : Option ε}
    (h : ∀ a, x = .ok a → failure? (f a) = o) : failure? (x.bind f) = (failure? x).or o := by
  cases x with
  | error e => rfl
  | ok a => exact h a rfl

theorem failure?_bind_pure (x : Except ε α) (f : α → β) :
    failure? (x >>= fun a => pure (f a)) = failure? x := by
  cases x <;> rfl

/-- Two results put together fail as the first of them that fails. -/
theorem failure?_bind_bind_pure {γ : Type} (x : Except ε α) (y : Except ε β) (f : α → β → γ) :
    failure? (x >>= fun a => y >>= fun b => pure (f a b)) = (failure? x).or (failure? y) :=
  failure?_bind fun a _ => failure?_bind_pure y (f a)

/-! ## Errors seen in another way -/

variable {ε' : Type} {g : ε → ε'}

theorem mapError_map (x : Except ε α) (f : α → β) :
    (x.map f).mapError g = (x.mapError g).map f := by
  cases x <;> rfl

theorem mapError_bind (x : Except ε α) (f : α → Except ε β) :
    (x >>= f).mapError g = x.mapError g >>= fun a => (f a).mapError g := by
  cases x <;> rfl

theorem mapError_bind_congr {x y : Except ε α} {f f' : α → Except ε β}
    (hx : x.mapError g = y.mapError g) (hf : ∀ a, (f a).mapError g = (f' a).mapError g) :
    (x.bind f).mapError g = (y.bind f').mapError g := by
  cases x with
  | error e =>
    cases y with
    | error e' => exact congrArg Except.error (Except.error.inj hx)
    | ok b => cases hx
  | ok a =>
    cases y with
    | error e' => cases hx
    | ok b =>
      cases hx
      exact hf a

end ResponseSchema
