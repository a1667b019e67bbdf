/-
  Types — the result of a call without its errors.

  The leaves of a type are what is left when the unions inside unions are opened,
  so no leaf is a union.  Errors are told from other results among the leaves.

  * `of_mem_leaves`: no leaf is a union, and leaves have what unions hand on to their
    members;
  * `leaves_unionOf?`: leaves that are put together are the leaves of the result;
  * `response?_eq`: the response of any type, union or not, from its leaves;
  * `response?_filters`: so to take the errors out removes these leaves and nothing
    else, and there is nothing left to take out.
-/
import ResponseSchema.Ty.Response

namespace ResponseSchema

namespace Ty

/-! ## Leaves -/

theorem leaves_union (ts : List Ty) : (union ts).leaves = ts.flatMap leaves := by
  show leavesAll ts = ts.flatMap leaves
  induction ts with
  | nil => rfl
  | cons t ts ih => rw [leavesAll, List.flatMap_cons, ih]

/-- A type that is no union. -/
def IsLeaf (t : Ty) : Prop :=
  ∀ ts, t ≠ union ts

theorem IsLeaf.leaves {t : Ty} (h : t.IsLeaf) : t.leaves = [t] := by
  cases t with
  | union ts => exact absurd rfl (h ts)
  | _ => rfl

section
variable {Q : Ty → Prop}

mutual

/-- A leaf is no union, and has what unions hand on to their members. -/
theorem of_mem_leaves (members : ∀ ts, Q (union ts) → ∀ t ∈ ts, Q t) :
    ∀ {t u : Ty}, Q t → u ∈ t.leaves → u.IsLeaf ∧ Q u
  | union ts, _, hq, h => of_mem_leavesAll members (members ts hq) h
  | primitive _, _, hq, h | json, _, hq, h | array _, _, hq, h | record _, _, hq, h
  | named .., _, hq, h | error, _, hq, h | other _, _, hq, h => by
    obtain rfl := List.mem_singleton.1 h
    exact ⟨nofun, hq⟩

theorem of_mem_leavesAll (members : ∀ ts, Q (union ts) → ∀ t ∈ ts, Q t) :
    ∀ {ts : List Ty} {u : Ty}, (∀ t ∈ ts, Q t) → u ∈ leavesAll ts → u.IsLeaf ∧ Q u
  | t :: ts, _, hq, h => by
    rw [List.forall_mem_cons] at hq
    rcases List.mem_append.1 h with h | h
    · exact of_mem_leaves members hq.1 h
    · exact of_mem_leavesAll members hq.2 h

end

end

theorem isLeaf_of_mem_leaves {t u : Ty} (h : u ∈ t.leaves) : u.IsLeaf :=
  (of_mem_leaves (Q := fun _ => True) (fun _ _ _ _ => trivial) trivial h).1

/-- Types that are leaves are the leaves of their union. -/
theorem leaves_union_of_isLeaf {us : List Ty} (h : ∀ u ∈ us, u.IsLeaf) :
    (union us).leaves = us := by
  rw [leaves_union]
  induction us with
  | nil => rfl
  | cons u us ih =>
    rw [List.forall_mem_cons] at h
    rw [List.flatMap_cons, h.1.leaves, ih h.2, List.singleton_append]

theorem unionOf?_eq_none_iff {us : List Ty} : unionOf? us = none ↔ us = [] := by
  rcases us with _ | ⟨u, _ | ⟨u', us⟩⟩ <;> simp [unionOf?]

theorem leaves_unionOf? {us : List Ty} (h : ∀ u ∈ us, u.IsLeaf) {r : Ty}
    (hr : unionOf? us = some r) : r.leaves = us := by
  rcases us with _ | ⟨u, _ | ⟨u', us⟩⟩
  · cases hr
  · cases hr
    exact (h _ (List.mem_singleton_self _)).leaves
  · cases hr
    exact leaves_union_of_isLeaf h

/-! ## Errors among the leaves -/

/-- The leaves that are no errors. -/
def errorFree (t : Ty) : List Ty :=
  t.leaves.filter fun u => !u.isError

theorem isLeaf_of_mem_errorFree {t u : Ty} (h : u ∈ t.errorFree) : u.IsLeaf :=
  isLeaf_of_mem_leaves (List.mem_filter.1 h).1

theorem errorFree_eq_leaves {t : Ty} (h : ∀ u ∈ t.leaves, u.isError = false) :
    t.errorFree = t.leaves :=
  List.filter_eq_self.2 fun u hu => by rw [h u hu]; rfl

theorem errorFree_eq_nil_iff {t : Ty} : t.errorFree = [] ↔ ∀ u ∈ t.leaves, u.isError := by
  simp [errorFree, List.filter_eq_nil_iff]

theorem response?_of_isLeaf {t : Ty} (h : t.IsLeaf) :
    t.response? = if t.isError then none else some t := by
  cases t with
  | union ts => exact absurd rfl (h ts)
  | _ => rfl

/-- Without an error among its leaves a type is left as it is; otherwise the leaves that are no
    errors are put together. -/
theorem response?_eq (t : Ty) : t.response? =
    if t.leaves.any isError then unionOf? t.errorFree else some t := by
  by_cases hleaf : t.IsLeaf
  · rw [response?_of_isLeaf hleaf, errorFree, hleaf.leaves]
    cases herror : t.isError <;> simp [herror, unionOf?]
  · obtain ⟨ts, rfl⟩ : ∃ ts, t = union ts := by simpa [IsLeaf] using hleaf
    rfl

/-- An error beside a type opens it, and takes its errors out with itself. -/
theorem response?_union_error (t : Ty) : (union [t, error]).response? = unionOf? t.errorFree := by
  have hleaves : (union [t, error]).leaves = t.leaves ++ [error] := by
    rw [leaves_union]
    simp [leaves]
  have herror : error.isError = true := rfl
  rw [response?_eq, errorFree, hleaves, List.filter_append, if_pos (by simp [herror])]
  simp [errorFree, herror]

theorem leaves_of_response? {t r : Ty} (h : t.response? = some r) : r.leaves = t.errorFree := by
  rw [response?_eq] at h
  split at h
  · exact leaves_unionOf? (fun u hu => isLeaf_of_mem_errorFree hu) h
  · next herrors =>
    cases h
    refine (errorFree_eq_leaves fun u hu => ?_).symm
    simpa using fun herror => herrors (List.any_eq_true.2 ⟨u, hu, herror⟩)

theorem response?_eq_self_of_errorFree {t : Ty} (h : ∀ u ∈ t.leaves, u.isError = false) :
    t.response? = some t := by
  rw [response?_eq, if_neg]
  simpa using h

/-- **To take the errors out of a type removes the leaves that are errors and nothing else**: there
    is no response iff there are leaves and all of them are errors, a response has the other leaves
    in their order and is its own response, and a type without errors is left as it is. -/
theorem response?_filters (t : Ty) :
    (t.response? = none ↔ t.leaves ≠ [] ∧ ∀ u ∈ t.leaves, u.isError) ∧
    ∀ r, t.response? = some r →
      r.leaves = t.leaves.filter (fun u => !u.isError) ∧ r.response? = some r ∧
        ((∀ u ∈ t.leaves, u.isError = false) → r = t) := by
  constructor
  · rw [response?_eq, ← errorFree_eq_nil_iff]
    by_cases herrors : t.leaves.any isError
    · have hne : t.leaves ≠ [] := by
        rintro hnil
        simp [hnil] at herrors
      rw [if_pos herrors, unionOf?_eq_none_iff, and_iff_right hne]
    · -- without an error the leaves stay, so all of them are errors only if there are none
      have hsame : t.errorFree = t.leaves := errorFree_eq_leaves (by simpa using herrors)
      rw [if_neg herrors, hsame]
      simp
  · intro r hr
    have hleaves : r.leaves = t.errorFree := leaves_of_response? hr
    refine ⟨hleaves, ?_, fun hfree => ?_⟩
    · refine response?_eq_self_of_errorFree fun u hu => ?_
      rw [hleaves] at hu
      simpa using (List.mem_filter.1 hu).2
    · rw [response?_eq_self_of_errorFree hfree] at hr
      exact (Option.some.inj hr).symm

/-- The result of a call that fails in two ways, one of them behind a name. -/
def scoreOrErrors : Ty :=
  union [primitive .string, named "ApiError" error [], union [primitive .int, error]]

theorem response?_filters_scoreOrErrors :
    let r := union [primitive .string, primitive .int]
    scoreOrErrors.response? = some r ∧
    r.leaves = scoreOrErrors.leaves.filter (fun u => !u.isError) ∧ r.response? = some r := by
  intro r
  have h : scoreOrErrors.response? = some r := rfl
  obtain ⟨hleaves, hagain, -⟩ := (response?_filters scoreOrErrors).2 r h
  exact ⟨h, hleaves, hagain⟩

end Ty

end ResponseSchema
