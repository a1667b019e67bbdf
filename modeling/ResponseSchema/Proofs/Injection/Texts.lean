/-
  Injection — the texts that the search finds.

  * `exists_of_get?`: every text is that of a lowered schema, which the mapper
    gave for a target; `textOfRaw_algebra` is this text where the mapper is the
    algebra;
  * `SchemaMapper.Lawful`, `Package.Distinct`: mappers and packages bring no
    repeated names, as the objects of the host cannot have any; then the schemas
    found have none (`namesDistinct_of_textOf`).
-/
import ResponseSchema.Proofs.Dialect.Lowered
import ResponseSchema.Proofs.Injection.FirstOutcomes
import ResponseSchema.Proofs.Ty.Distinct

namespace ResponseSchema

namespace Findings

variable {settings : Settings} {mapper : SchemaMapper} {documents : List Document}

/-! ## Texts -/

/-- The text is that of a schema which the mapper gave for a target of the name. -/
def TextOf (settings : Settings) (mapper : SchemaMapper) (documents : List Document)
    (name text : String) : Prop :=
  ∃ n raw s, Target settings documents n ∧ n.identifier = name ∧ mapper n = .ok raw ∧
    Schema.ofRaw raw = .ok s ∧ s.compact = text

theorem textOf_of_textOfRaw {n : NamedType} {text : String} (hn : Target settings documents n)
    (h : mapper n >>= Schema.textOfRaw = .ok text) :
    TextOf settings mapper documents n.identifier text := by
  obtain ⟨raw, hraw, h⟩ := bind_eq_ok h
  obtain ⟨s, hs, rfl⟩ := map_eq_ok h
  exact ⟨n, raw, s, hn, rfl, hraw, hs, rfl⟩

/-- **Every text found is that of a schema which the mapper gave for a target.** -/
theorem exists_of_get? {name text : String}
    (h : (ofDocuments settings mapper documents).cache.get? name = some text) :
    TextOf settings mapper documents name text := by
  rw [get?_ofDocuments] at h
  obtain ⟨n, hfirst, htext⟩ := Option.bind_eq_some_iff.1 h
  have hname : n.identifier = name := by simpa using List.find?_some hfirst
  rw [← hname]
  exact textOf_of_textOfRaw (mem_targetsIn.1 (List.mem_of_find?_eq_some hfirst))
    (SchemaMapper.text?_eq_some_iff.1 htext)

end Findings

/-! ## Texts of the algebra -/

theorem Schema.textOfRaw_toJson (s : Schema) : textOfRaw s.toJson = .ok s.normalize.compact := by
  rw [textOfRaw, ofRaw_toJson]
  rfl

/-- The text of a name is that of its schema, lowered once more. -/
theorem SchemaMapper.textOfRaw_algebra {n : NamedType} {s : Schema}
    (h : n.toTy.schema .build = .ok s) :
    algebra n >>= Schema.textOfRaw = .ok s.normalize.compact := by
  rw [algebra, h]
  exact s.textOfRaw_toJson

/-! ## Repeated names -/

namespace SchemaMapper

/-- The mapper brings no repeated names where there are none. -/
def Lawful (mapper : SchemaMapper) : Prop :=
  ∀ n v, n.toTy.Distinct → mapper n = .ok v → v.Distinct

theorem lawful_algebra : Lawful algebra := by
  intro n v hn h
  obtain ⟨s, hs, rfl⟩ := map_eq_ok h
  rw [Ty.schema_eq_expand] at hs
  exact Schema.distinct_toJson (Ty.namesDistinct_of_expand .build n.toTy [] s hn hs)

theorem lawful_registered {table : Entries Json} (htable : ∀ e ∈ table, e.2.Distinct) :
    Lawful (registered table) := by
  intro n v hn h
  rw [registered] at h
  split at h
  · next raw hraw _ =>
    cases h
    exact htable _ (Entries.mem_of_lookup hraw)
  · exact lawful_algebra n v hn h

end SchemaMapper

/-- The result types of the calls in the package have no repeated names. -/
def Package.Distinct (p : Package) : Prop :=
  ∀ d ∈ p.documents, ∀ c ∈ d.calls, ∀ t ∈ c.result?, t.Distinct

theorem Findings.distinct_of_target {settings : Settings} {p : Package} (h : p.Distinct)
    {n : NamedType} (hn : Target settings p.documents n) : n.toTy.Distinct := by
  obtain ⟨d, hd, -, c, hc, -, response, hresponse, hn⟩ := hn
  obtain ⟨t, ht, hr⟩ := Option.bind_eq_some_iff.1 hresponse
  exact Ty.distinct_of_mem_targets (Ty.distinct_of_response? (h d hd c hc t ht) hr) n hn

/-- **The schemas found have no repeated names.** -/
theorem Findings.namesDistinct_of_textOf {settings : Settings} {mapper : SchemaMapper} {p : Package}
    (hmapper : mapper.Lawful) (hp : p.Distinct) {name text : String}
    (h : TextOf settings mapper p.documents name text) :
    ∃ s : Schema, s.compact = text ∧ ∀ n ∈ s.nodes, n.NamesDistinct := by
  obtain ⟨n, raw, s, hn, -, hraw, hs, rfl⟩ := h
  have hdistinct := hmapper n raw (distinct_of_target hp hn) hraw
  exact ⟨s, rfl, Schema.namesDistinct_of_lower hdistinct (Schema.lower_of_ofRaw hs)⟩

end ResponseSchema
