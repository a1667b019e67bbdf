/-
  Injection — the outcome of every target.

  The first occurrence of an identifier among the targets decides: it gets a text
  or a fault, and later ones with the same identifier change nothing.

  * `outcomes`: the texts and faults of some names; a step of the search adds
    those of one target (`addTarget_outcomes`), so that the search has found the
    outcomes of the first occurrences (`ofDocuments_eq_outcomes`);
  * `FirstOutcomes`: what this says of single identifiers and of their order.
-/
import ResponseSchema.Proofs.Injection.Findings
import ResponseSchema.Proofs.Ty.Occurrences
import Mathlib.Data.List.Nodup

namespace ResponseSchema

namespace SchemaMapper

variable {mapper : SchemaMapper} {n : NamedType}

/-- The text of a name, if the mapper gives a schema for it that can be lowered. -/
def text? (mapper : SchemaMapper) (n : NamedType) : Option String :=
  match mapper n >>= Schema.textOfRaw with
  | .ok text => some text
  | .error _ => none

/-- Why a name has no text. -/
def fault? (mapper : SchemaMapper) (n : NamedType) : Option SchemaError :=
  match mapper n >>= Schema.textOfRaw with
  | .ok _ => none
  | .error e => some e

theorem text?_eq_some_iff {text : String} :
    mapper.text? n = some text ↔ mapper n >>= Schema.textOfRaw = .ok text := by
  rw [text?]
  cases mapper n >>= Schema.textOfRaw <;> simp

theorem fault?_eq_some_iff {e : SchemaError} :
    mapper.fault? n = some e ↔ mapper n >>= Schema.textOfRaw = .error e := by
  rw [fault?]
  cases mapper n >>= Schema.textOfRaw <;> simp

theorem isSome_fault?_iff : (mapper.fault? n).isSome ↔ ¬ (mapper.text? n).isSome := by
  rw [text?, fault?]
  cases mapper n >>= Schema.textOfRaw <;> simp

end SchemaMapper

namespace Findings

open NamedType

variable {settings : Settings} {mapper : SchemaMapper} {documents : List Document}
  {ns : List NamedType} {name : String}

/-! ## The outcomes of names -/

/-- The texts and the faults of some names. -/
def outcomes (mapper : SchemaMapper) (ns : List NamedType) : Findings :=
  ⟨⟨entriesOf mapper.text? ns⟩, entriesOf mapper.fault? ns⟩

theorem mem_names_outcomes : name ∈ (outcomes mapper ns).names ↔ name ∈ identifiers ns := by
  simp only [mem_names, outcomes, mem_names_entriesOf, ← exists_or, ← and_or_left, ← or_and_right,
    SchemaMapper.isSome_fault?_iff, em, true_and, identifiers, List.mem_map]

/-- Of names with identifiers of their own, each has either a text or a fault. -/
theorem nodup_names_outcomes (h : (identifiers ns).Nodup) : (outcomes mapper ns).names.Nodup := by
  refine List.nodup_append.2 ⟨h.sublist (names_entriesOf_sublist ns),
    h.sublist (names_entriesOf_sublist ns), ?_⟩
  rintro name htext _ hfault rfl
  obtain ⟨n, hn, htext, hname⟩ := mem_names_entriesOf.1 htext
  obtain ⟨m, hm, hfault, hname'⟩ := mem_names_entriesOf.1 hfault
  obtain rfl := List.inj_on_of_nodup_map h hn hm (hname.trans hname'.symm)
  exact SchemaMapper.isSome_fault?_iff.1 hfault htext

/-- **A step of the search adds the outcome of the target** if its identifier is new. -/
theorem addTarget_outcomes (ns : List NamedType) (n : NamedType) :
    (outcomes mapper ns).addTarget mapper n = outcomes mapper (Ty.addTarget ns n) := by
  rw [addTarget_eq, NamedType.addTarget_eq]
  simp only [mem_names_outcomes]
  split
  · rfl
  · rw [outcomes, outcomes, entriesOf_append, entriesOf_append]
    cases h : mapper n >>= Schema.textOfRaw with
    | ok text =>
      have hfault : mapper.fault? n = none := by rw [SchemaMapper.fault?, h]
      rw [entriesOf_cons_of_some (SchemaMapper.text?_eq_some_iff.2 h),
        entriesOf_cons_of_none hfault]
      simp [entriesOf]
    | error e =>
      have htext : mapper.text? n = none := by rw [SchemaMapper.text?, h]
      rw [entriesOf_cons_of_some (SchemaMapper.fault?_eq_some_iff.2 h),
        entriesOf_cons_of_none htext]
      simp [entriesOf]

/-- **The search finds the outcomes of the first occurrences.** -/
theorem ofDocuments_eq_outcomes : ofDocuments settings mapper documents =
    outcomes mapper (firsts (targetsIn settings documents)) := by
  rw [ofDocuments_eq_foldl, firsts, ← List.foldl_hom (outcomes mapper) addTarget_outcomes]
  rfl

theorem get?_ofDocuments : (ofDocuments settings mapper documents).cache.get? name =
    ((targetsIn settings documents).find? (·.identifier = name)).bind mapper.text? := by
  rw [ofDocuments_eq_outcomes, SchemaCache.get?, outcomes, lookup_entriesOf (nodup_firsts _),
    find?_firsts]

theorem lookup_failures_ofDocuments :
    (ofDocuments settings mapper documents).failures.lookup name =
      ((targetsIn settings documents).find? (·.identifier = name)).bind mapper.fault? := by
  rw [ofDocuments_eq_outcomes, outcomes, lookup_entriesOf (nodup_firsts _), find?_firsts]

/-! ## First occurrences -/

/-- Texts and failures are those of the first occurrences: no identifier is left out, none is
    there twice or both ways, and they are listed in the order of the first occurrences. -/
structure FirstOutcomes (mapper : SchemaMapper) (ns : List NamedType) (f : Findings) : Prop where
  distinct : f.names.Nodup
  names (name : String) : name ∈ f.names ↔ ∃ n ∈ ns, n.identifier = name
  texts_inOrder : f.cache.entries.names.Pairwise (Before ns)
  failures_inOrder : f.failures.names.Pairwise (Before ns)
  text (name : String) (n : NamedType) : ns.find? (·.identifier = name) = some n →
    ∀ text, f.cache.get? name = some text ↔ mapper n >>= Schema.textOfRaw = .ok text
  failure (name : String) (n : NamedType) : ns.find? (·.identifier = name) = some n →
    ∀ e, f.failures.lookup name = some e ↔ mapper n >>= Schema.textOfRaw = .error e

theorem firstOutcomes_ofDocuments : FirstOutcomes mapper (targetsIn settings documents)
    (ofDocuments settings mapper documents) where
  distinct := by
    rw [ofDocuments_eq_outcomes]
    exact nodup_names_outcomes (nodup_firsts _)
  names name := by
    rw [ofDocuments_eq_outcomes, mem_names_outcomes, mem_identifiers_firsts, identifiers,
      List.mem_map]
  texts_inOrder := by
    rw [ofDocuments_eq_outcomes]
    exact (pairwise_firsts _).sublist (names_entriesOf_sublist _)
  failures_inOrder := by
    rw [ofDocuments_eq_outcomes]
    exact (pairwise_firsts _).sublist (names_entriesOf_sublist _)
  text name n hfirst text := by
    rw [get?_ofDocuments, hfirst, Option.bind_some, SchemaMapper.text?_eq_some_iff]
  failure name n hfirst e := by
    rw [lookup_failures_ofDocuments, hfirst, Option.bind_some, SchemaMapper.fault?_eq_some_iff]

-- the first occurrence has no schema, so the later one is not tried
example : ofDocuments {} .algebra [.caller {} "calls.bal"
    [.plain "Id" (.other "stream"), .plain "Id" (.primitive .int)]] =
    ⟨{}, [("Id", .unsupported (.other "stream"))]⟩ := rfl

end Findings

end ResponseSchema
