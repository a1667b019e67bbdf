/-
  Json — what holds of everything inside a value.

  * `induction`: what passes from the parts of a value to the value;
  * `All p v`: `p` holds of `v` and of every value inside it;
  * `Distinct`: no object inside has a name twice, as in every value that a
    reader makes;
  * `dedup` keeps of each name its first position and its last value, and leaves
    distinct values as they are (`dedup_of_distinct`).
-/
import ResponseSchema.Json.Basic

namespace ResponseSchema

namespace Json

/-- What passes from elements to arrays and from members to objects every value has. -/
theorem induction {motive : Json → Prop} (null : motive .null) (bool : ∀ b, motive (.bool b))
    (number : ∀ n, motive (.number n)) (string : ∀ s, motive (.string s))
    (array : ∀ vs, (∀ v ∈ vs, motive v) → motive (.array vs))
    (object : ∀ ms, (∀ e ∈ ms, motive e.2) → motive (.object ms)) (v : Json) : motive v := by
  refine @Json.rec motive (fun vs => ∀ v ∈ vs, motive v) (fun ms => ∀ e ∈ ms, motive e.2)
    (fun e => motive e.2) null bool number string array object ?_ ?_ ?_ ?_ ?_ v
  · simp
  · intro v vs hv hvs; exact List.forall_mem_cons.2 ⟨hv, hvs⟩
  · simp
  · intro e ms he hms; exact List.forall_mem_cons.2 ⟨he, hms⟩
  · intro name v hv; exact hv

/-! ## Everything inside -/

mutual

/-- `p` holds of the value and of everything inside it. -/
def All (p : Json → Prop) : Json → Prop
  | array elements => p (array elements) ∧ AllElements p elements
  | object members => p (object members) ∧ AllMembers p members
  | v => p v

/-- `All`, for each element. -/
def AllElements (p : Json → Prop) : List Json → Prop
  | [] => True
  | v :: vs => All p v ∧ AllElements p vs

/-- `All`, for each member. -/
def AllMembers (p : Json → Prop) : List (String × Json) → Prop
  | [] => True
  | (_, v) :: ms => All p v ∧ AllMembers p ms

end

section
variable {p : Json → Prop}

theorem allElements_iff (vs : List Json) : AllElements p vs ↔ ∀ v ∈ vs, v.All p := by
  induction vs with
  | nil => simp [AllElements]
  | cons v vs ih => simp [AllElements, ih]

theorem allMembers_iff (ms : List (String × Json)) : AllMembers p ms ↔ ∀ e ∈ ms, e.2.All p := by
  induction ms with
  | nil => simp [AllMembers]
  | cons e ms ih => simp [AllMembers, ih]

theorem all_array (vs : List Json) : (array vs).All p ↔ p (array vs) ∧ ∀ v ∈ vs, v.All p := by
  rw [All, allElements_iff]

theorem all_object (ms : List (String × Json)) :
    (object ms).All p ↔ p (object ms) ∧ ∀ e ∈ ms, e.2.All p := by
  rw [All, allMembers_iff]

end

mutual

/-- What can be decided of a value can be decided of everything inside one. -/
def decidableAll (p : Json → Prop) [DecidablePred p] : ∀ v : Json, Decidable (v.All p)
  | array vs =>
    have := decidableAllElements p vs
    inferInstanceAs (Decidable (p (array vs) ∧ AllElements p vs))
  | object ms =>
    have := decidableAllMembers p ms
    inferInstanceAs (Decidable (p (object ms) ∧ AllMembers p ms))
  | null => inferInstanceAs (Decidable (p null))
  | bool b => inferInstanceAs (Decidable (p (bool b)))
  | number n => inferInstanceAs (Decidable (p (number n)))
  | string s => inferInstanceAs (Decidable (p (string s)))

/-- `decidableAll`, for each element. -/
def decidableAllElements (p : Json → Prop) [DecidablePred p] :
    ∀ vs : List Json, Decidable (AllElements p vs)
  | [] => isTrue trivial
  | v :: vs =>
    have := decidableAll p v
    have := decidableAllElements p vs
    inferInstanceAs (Decidable (v.All p ∧ AllElements p vs))

/-- `decidableAll`, for each member. -/
def decidableAllMembers (p : Json → Prop) [DecidablePred p] :
    ∀ ms : List (String × Json), Decidable (AllMembers p ms)
  | [] => isTrue trivial
  | (_, v) :: ms =>
    have := decidableAll p v
    have := decidableAllMembers p ms
    inferInstanceAs (Decidable (v.All p ∧ AllMembers p ms))

end

/-! ## Repeated names -/

/-- No name occurs twice among the members, if the value is an object. -/
def NamesDistinct : Json → Prop
  | object members => Entries.Distinct members
  | _ => True

/-- No object inside the value has a name twice. -/
def Distinct (v : Json) : Prop :=
  v.All NamesDistinct

instance : DecidablePred NamesDistinct
  | object members => inferInstanceAs (Decidable (Entries.Distinct members))
  | null | bool _ | number _ | string _ | array _ => isTrue trivial

instance (v : Json) : Decidable v.Distinct :=
  decidableAll NamesDistinct v

theorem distinct_array (vs : List Json) : (array vs).Distinct ↔ ∀ v ∈ vs, v.Distinct := by
  rw [Distinct, all_array]; exact and_iff_right trivial

theorem distinct_object (ms : List (String × Json)) :
    (object ms).Distinct ↔ Entries.Distinct ms ∧ ∀ e ∈ ms, e.2.Distinct :=
  all_object ms

mutual

/-- The value as it is read back: of each name the first position and the last value. -/
def dedup : Json → Json
  | array elements => array (dedupElements elements)
  | object members => object (Entries.ofList (dedupMembers members))
  | v => v

/-- `dedup`, for each element. -/
def dedupElements : List Json → List Json
  | [] => []
  | v :: vs => dedup v :: dedupElements vs

/-- `dedup`, for each member. -/
def dedupMembers : List (String × Json) → List (String × Json)
  | [] => []
  | (name, v) :: ms => (name, dedup v) :: dedupMembers ms

end

mutual

theorem dedup_of_distinct : ∀ v : Json, v.Distinct → v.dedup = v
  | null, _ => rfl
  | bool _, _ => rfl
  | number _, _ => rfl
  | string _, _ => rfl
  | array vs, h => by rw [dedup, dedupElements_of_distinct vs ((distinct_array vs).1 h)]
  | object ms, h => by
    have ⟨names, members⟩ := (distinct_object ms).1 h
    rw [dedup, dedupMembers_of_distinct ms members, Entries.ofList_of_distinct names]

theorem dedupElements_of_distinct : ∀ vs : List Json, (∀ v ∈ vs, v.Distinct) →
    dedupElements vs = vs
  | [], _ => rfl
  | v :: vs, h => by
    rw [List.forall_mem_cons] at h
    rw [dedupElements, dedup_of_distinct v h.1, dedupElements_of_distinct vs h.2]

theorem dedupMembers_of_distinct : ∀ ms : List (String × Json), (∀ e ∈ ms, e.2.Distinct) →
    dedupMembers ms = ms
  | [], _ => rfl
  | (name, v) :: ms, h => by
    rw [List.forall_mem_cons] at h
    rw [dedupMembers, dedup_of_distinct v h.1, dedupMembers_of_distinct ms h.2]

end

end Json

end ResponseSchema
