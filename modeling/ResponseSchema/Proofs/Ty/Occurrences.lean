/-
  Types — names that occur several times.

  Of the names with one identifier only the first counts.

  * `firsts` keeps of each identifier the first occurrence: it is still the one that
    is found (`find?_firsts`), and the order is that in which identifiers occur first
    (`pairwise_firsts`);
  * `entriesOf` lists what names have under their identifiers; where no identifier
    occurs twice, that is what is found under one (`lookup_entriesOf`).
-/
import ResponseSchema.Ty.Response
import Mathlib.Data.List.Basic
import Mathlib.Data.List.Induction

namespace ResponseSchema

namespace NamedType

/-- The identifiers of some names, in order. -/
def identifiers (ns : List NamedType) : List String :=
  ns.map NamedType.identifier

/-- The names, of each identifier only the first. -/
def firsts (ns : List NamedType) : List NamedType :=
  ns.foldl Ty.addTarget []

variable {ns : List NamedType} {n : NamedType} {name : String}

theorem find?_isSome_iff : (ns.find? (·.identifier = name)).isSome ↔ name ∈ identifiers ns := by
  simp [identifiers]

/-! ## First occurrences -/

theorem addTarget_eq (ns : List NamedType) (n : NamedType) :
    Ty.addTarget ns n = if n.identifier ∈ identifiers ns then ns else ns ++ [n] := by
  rw [Ty.addTarget]
  refine if_congr ?_ rfl rfl
  simp [identifiers]

theorem firsts_append (ns : List NamedType) (n : NamedType) :
    firsts (ns ++ [n]) = Ty.addTarget (firsts ns) n := by
  rw [firsts, List.foldl_append]
  rfl

/-- The first name with an identifier stays, and stays the first with it. -/
theorem find?_firsts (ns : List NamedType) (name : String) :
    (firsts ns).find? (·.identifier = name) = ns.find? (·.identifier = name) := by
  induction ns using List.reverseRecOn with
  | nil => rfl
  | append_singleton ns n ih =>
    rw [firsts_append, addTarget_eq, List.find?_append, ← ih]
    split
    · next hmem =>
      by_cases hname : n.identifier = name
      · rw [hname, ← find?_isSome_iff] at hmem
        exact (Option.or_of_isSome hmem).symm
      · simp [hname]
    · exact List.find?_append

theorem mem_identifiers_firsts : name ∈ identifiers (firsts ns) ↔ name ∈ identifiers ns := by
  rw [← find?_isSome_iff, find?_firsts, find?_isSome_iff]

/-- One identifier occurs before another one does. -/
def Before (ns : List NamedType) (a b : String) : Prop :=
  (identifiers ns).idxOf a < (identifiers ns).idxOf b

/-- What is left is in the order in which the identifiers occur first. -/
theorem pairwise_firsts (ns : List NamedType) :
    (identifiers (firsts ns)).Pairwise (Before ns) := by
  induction ns using List.reverseRecOn with
  | nil => exact .nil
  | append_singleton ns n ih =>
    -- an identifier that has occurred keeps the position of its first occurrence
    have position {a : String} (ha : a ∈ identifiers (firsts ns)) :
        (identifiers (ns ++ [n])).idxOf a = (identifiers ns).idxOf a := by
      rw [identifiers, List.map_append]
      exact List.idxOf_append_of_mem (mem_identifiers_firsts.1 ha)
    have earlier : (identifiers (firsts ns)).Pairwise (Before (ns ++ [n])) := by
      refine ih.imp_of_mem fun ha hb hab => ?_
      rwa [Before, position ha, position hb]
    rw [firsts_append, addTarget_eq]
    split
    · exact earlier
    · next hnew =>
      rw [identifiers, List.map_append, List.pairwise_append]
      refine ⟨earlier, List.pairwise_singleton _ _, ?_⟩
      intro a ha b hb
      rw [List.map_singleton, List.mem_singleton] at hb
      rw [mem_identifiers_firsts] at hnew
      have last : (identifiers (ns ++ [n])).idxOf b = (identifiers ns).length := by
        rw [identifiers, List.map_append, hb]
        exact (List.idxOf_append_of_notMem hnew).trans (by simp [identifiers])
      rw [Before, position ha, last]
      exact List.idxOf_lt_length_of_mem (mem_identifiers_firsts.1 ha)

theorem nodup_firsts (ns : List NamedType) : (identifiers (firsts ns)).Nodup := by
  refine (pairwise_firsts ns).imp fun hab => ?_
  rintro rfl
  exact Nat.lt_irrefl _ hab

/-! ## What names have -/

variable {α : Type} {g : NamedType → Option α}

/-- What the names have by `g`, under their identifiers. -/
def entriesOf (g : NamedType → Option α) (ns : List NamedType) : Entries α :=
  ns.filterMap fun n => (g n).map (n.identifier, ·)

theorem entriesOf_append (ns : List NamedType) (n : NamedType) :
    entriesOf g (ns ++ [n]) = entriesOf g ns ++ entriesOf g [n] :=
  List.filterMap_append

theorem entriesOf_cons_of_none (h : g n = none) : entriesOf g (n :: ns) = entriesOf g ns :=
  List.filterMap_cons_none (by rw [h]; rfl)

theorem entriesOf_cons_of_some {a : α} (h : g n = some a) :
    entriesOf g (n :: ns) = (n.identifier, a) :: entriesOf g ns :=
  List.filterMap_cons_some (by rw [h]; rfl)

theorem mem_names_entriesOf :
    name ∈ (entriesOf g ns).names ↔ ∃ n ∈ ns, (g n).isSome ∧ n.identifier = name := by
  simp only [Entries.names, entriesOf, List.mem_map, List.mem_filterMap, Option.map_eq_some_iff,
    Option.isSome_iff_exists]
  constructor
  · rintro ⟨_, ⟨n, hn, a, ha, rfl⟩, rfl⟩
    exact ⟨n, hn, ⟨a, ha⟩, rfl⟩
  · rintro ⟨n, hn, ⟨a, ha⟩, rfl⟩
    exact ⟨_, ⟨n, hn, a, ha, rfl⟩, rfl⟩

theorem names_entriesOf_sublist (ns : List NamedType) :
    (entriesOf g ns).names.Sublist (identifiers ns) := by
  induction ns with
  | nil => exact .slnil
  | cons n ns ih =>
    cases hg : g n with
    | none =>
      rw [entriesOf_cons_of_none hg]
      exact ih.cons _
    | some a =>
      rw [entriesOf_cons_of_some hg]
      exact ih.cons_cons _

/-- Where no identifier occurs twice, what is found under one is what its name has. -/
theorem lookup_entriesOf {ns : List NamedType} (h : (identifiers ns).Nodup) (name : String) :
    (entriesOf g ns).lookup name = (ns.find? (·.identifier = name)).bind g := by
  induction ns with
  | nil => rfl
  | cons n ns ih =>
    have ⟨hn, hns⟩ : n.identifier ∉ identifiers ns ∧ (identifiers ns).Nodup := by
      simpa [identifiers] using h
    by_cases hname : n.identifier = name
    · rw [hname, ← find?_isSome_iff, Option.not_isSome_iff_eq_none] at hn
      rw [List.find?_cons_of_pos (by simpa using hname), Option.bind_some]
      cases hg : g n with
      | none => rw [entriesOf_cons_of_none hg, ih hns, hn, Option.bind_none]
      | some a => rw [entriesOf_cons_of_some hg, hname, List.lookup_cons_self]
    · have hne : (name == n.identifier) = false := by simpa using Ne.symm hname
      rw [List.find?_cons_of_neg (by simpa using hname), ← ih hns]
      cases hg : g n with
      | none => rw [entriesOf_cons_of_none hg]
      | some a => rw [entriesOf_cons_of_some hg, List.lookup_cons, hne]

end NamedType

end ResponseSchema
