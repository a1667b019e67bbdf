/-
  Types — what a type shows through arrays and unions.

  `parts` lists it from left to right, a type before what it consists of; a name or a
  record is shown as it stands, without what is inside.

  * `mem_parts_iff`: the parts are what the type reaches;
  * `collect_eq_foldl`: the search for targets goes through the names among the parts
    one by one;
  * `targets_eq_firstOccurrences`: so the targets are these names, of each identifier
    only the first.
-/
import ResponseSchema.Proofs.Ty.Occurrences
import ResponseSchema.Proofs.Ty.Phases

namespace ResponseSchema

namespace NamedType

/-- The names whose identifier is not among those before them. -/
def firstOccurrences (ns : List NamedType) : List NamedType :=
  (ns.zipIdx.filter fun e => e.1.identifier ∉ identifiers (ns.take e.2)).map Prod.fst

/-- One more name stays unless its identifier has occurred. -/
theorem firstOccurrences_append (ns : List NamedType) (n : NamedType) :
    firstOccurrences (ns ++ [n]) =
      if n.identifier ∈ identifiers ns then firstOccurrences ns else firstOccurrences ns ++ [n] := by
  -- for the others, the same names stand before them
  have others : ns.zipIdx.filter (fun e => e.1.identifier ∉ identifiers ((ns ++ [n]).take e.2)) =
      ns.zipIdx.filter fun e => e.1.identifier ∉ identifiers (ns.take e.2) := by
    refine List.filter_congr fun e he => ?_
    have hlt : e.2 < ns.length + 0 := List.snd_lt_of_mem_zipIdx he
    rw [List.take_append_of_le_length (by omega)]
  have all : (ns ++ [n]).take (0 + ns.length) = ns := by simp
  rw [firstOccurrences, List.zipIdx_append, List.filter_append, List.map_append, others,
    List.zipIdx_singleton, List.filter_singleton, all]
  by_cases hn : n.identifier ∈ identifiers ns <;> simp [hn, firstOccurrences]

theorem firsts_eq_firstOccurrences (ns : List NamedType) : firsts ns = firstOccurrences ns := by
  induction ns using List.reverseRecOn with
  | nil => rfl
  | append_singleton ns n ih =>
    rw [firsts_append, addTarget_eq, firstOccurrences_append, ← ih]
    exact if_congr mem_identifiers_firsts rfl rfl

end NamedType

namespace Ty

/-! ## Parts -/

mutual

/-- The type itself, then the parts of its element or of its members. -/
def parts : Ty → List Ty
  | array element => array element :: parts element
  | union ts => union ts :: partsAll ts
  | t => [t]

/-- The parts of each type in turn. -/
def partsAll : List Ty → List Ty
  | [] => []
  | t :: ts => parts t ++ partsAll ts

end

theorem partsAll_eq_flatMap (ts : List Ty) : partsAll ts = ts.flatMap parts := by
  induction ts with
  | nil => rfl
  | cons t ts ih => rw [partsAll, List.flatMap_cons, ih]

theorem self_mem_parts (t : Ty) : t ∈ t.parts := by
  cases t <;> exact List.mem_cons_self

mutual

theorem reaches_of_mem_parts : ∀ {t u : Ty}, u ∈ t.parts → t.Reaches u
  | array element, u, h => by
    rcases List.mem_cons.1 h with rfl | h
    · exact .refl _
    · exact .element (reaches_of_mem_parts h)
  | union ts, u, h => by
    rcases List.mem_cons.1 h with rfl | h
    · exact .refl _
    · obtain ⟨t, ht, hu⟩ := reaches_of_mem_partsAll h
      exact .member ht hu
  | primitive _, _, h | json, _, h | record _, _, h | named .., _, h | error, _, h
  | other _, _, h => by
    obtain rfl := List.mem_singleton.1 h
    exact .refl _

theorem reaches_of_mem_partsAll : ∀ {ts : List Ty} {u : Ty}, u ∈ partsAll ts →
    ∃ t ∈ ts, t.Reaches u
  | t :: ts, u, h => by
    rcases List.mem_append.1 h with h | h
    · exact ⟨t, List.mem_cons_self, reaches_of_mem_parts h⟩
    · obtain ⟨t', ht', hu⟩ := reaches_of_mem_partsAll h
      exact ⟨t', List.mem_cons_of_mem t ht', hu⟩

end

/-- **The parts of a type are what it reaches through arrays and unions.** -/
theorem mem_parts_iff {t u : Ty} : u ∈ t.parts ↔ t.Reaches u := by
  constructor
  · exact reaches_of_mem_parts
  · intro h
    induction h with
    | refl t => exact self_mem_parts t
    | element _ ih => exact List.mem_cons_of_mem _ ih
    | member ht _ ih =>
      refine List.mem_cons_of_mem _ ?_
      rw [partsAll_eq_flatMap]
      exact List.mem_flatMap.2 ⟨_, ht, ih⟩

/-! ## Names among the parts -/

/-- The names that a type shows, as often as they occur. -/
def directNames (t : Ty) : List NamedType :=
  t.parts.filterMap asNamed?

theorem mem_directNames_iff {t : Ty} {n : NamedType} : n ∈ t.directNames ↔ t.Reaches n.toTy := by
  simp only [directNames, List.mem_filterMap, asNamed?_eq_some_iff, exists_eq_right, mem_parts_iff]

mutual

/-- **The search for targets goes through the names that a type shows**, whatever has been found
    before. -/
theorem collect_eq_foldl : ∀ (t : Ty) (names : List NamedType),
    collect names t = t.directNames.foldl addTarget names
  | array element, names => collect_eq_foldl element names
  | union ts, names => collectAll_eq_foldl ts names
  | primitive _, _ | json, _ | record _, _ | named .., _ | error, _ | other _, _ => rfl

theorem collectAll_eq_foldl : ∀ (ts : List Ty) (names : List NamedType),
    collectAll names ts = ((partsAll ts).filterMap asNamed?).foldl addTarget names
  | [], _ => rfl
  | t :: ts, names => by
    rw [collectAll, collect_eq_foldl t, collectAll_eq_foldl ts, partsAll, List.filterMap_append,
      List.foldl_append, directNames]

end

theorem targets_eq_firsts (t : Ty) : t.targets = NamedType.firsts t.directNames :=
  collect_eq_foldl t []

theorem reaches_of_mem_targets {t : Ty} {n : NamedType} (h : n ∈ t.targets) :
    t.Reaches n.toTy := by
  rw [targets_eq_firsts, NamedType.firsts_eq_firstOccurrences] at h
  obtain ⟨e, he, rfl⟩ := List.mem_map.1 h
  exact mem_directNames_iff.1 (List.fst_mem_of_mem_zipIdx (List.mem_filter.1 he).1)

/-- **The targets of a type are the names that it shows, from left to right, of each identifier
    only the first occurrence**; a name is shown iff it is reached through arrays and unions. -/
theorem targets_eq_firstOccurrences (t : Ty) :
    t.targets = NamedType.firstOccurrences t.directNames ∧
      ∀ n, n ∈ t.directNames ↔ t.Reaches n.toTy := by
  constructor
  · rw [targets_eq_firsts, NamedType.firsts_eq_firstOccurrences]
  · intro n
    exact mem_directNames_iff

/-- The second `Person` is left out although it refers to another type, and so is the name behind
    the first. -/
example :
    let person := named "Person" (array (named "Name" (primitive .string) [])) []
    (union [array (union [person, json]), named "Address" json [], named "Person" json []]).targets =
      [⟨"Person", array (named "Name" (primitive .string) []), []⟩, ⟨"Address", json, []⟩] := by
  decide

end Ty

end ResponseSchema
