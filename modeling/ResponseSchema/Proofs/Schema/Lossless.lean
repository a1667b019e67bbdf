/-
  Schemas — what is written is read back.

  Reading knows more spellings than writing: a node by position, a part that is
  `null`, a kind as an object.  None of them is mistaken for what a schema writes,
  so the value of a schema reads as the schema itself (`read_toJson`).

  * `read_compact_of_distinct`: the text of a schema without repeated names reads
    as its value, up to the depth that the reader admits;
  * `lossless`: so no part of a schema is lost in its value, nor in its text.
-/
import ResponseSchema.Dialect.Lowering
import ResponseSchema.Proofs.Schema.Written

namespace ResponseSchema

namespace Schema

variable {s : Schema}

theorem read_compact_of_distinct (h : ∀ n ∈ s.nodes, n.NamesDistinct) : Json.read s.compact =
    if s.toJson.depth ≤ Json.maxDepth then .ok s.toJson else .error .malformed := by
  rw [read_compact, Json.dedup_of_distinct _ (distinct_toJson h)]

/-- What the text of a schema without repeated names reads as is the value of the schema. -/
theorem eq_toJson_of_read_compact (h : ∀ n ∈ s.nodes, n.NamesDistinct) {value : Json}
    (hread : Json.read s.compact = .ok value) : value = s.toJson := by
  rw [read_compact_of_distinct h] at hread
  split at hread
  · exact (Except.ok.inj hread).symm
  · cases hread

/-- **The codec of schemas is lossless**: the value of a schema reads as the schema, and its text
    reads as the value unless it nests too deep.  `NamesDistinct` says that the properties of
    every node have distinct names, as in every map of the host. -/
theorem lossless (s : Schema) : read s.toJson = .ok s ∧
    ((∀ n ∈ s.nodes, n.NamesDistinct) → Json.read s.compact =
      if s.toJson.depth ≤ Json.maxDepth then .ok s.toJson else .error .malformed) :=
  ⟨read_toJson s, read_compact_of_distinct⟩

/-- Properties with quotes, backslashes, control and non-ASCII characters in their names, and
    below them kinds that are hard to tell apart. -/
def oddNames : Schema :=
  objectOf [("say \"hi\"", ofKind .string), ("C:\\temp", ofKinds [.string]),
    ("\n\x01\x7f", ofKinds []), ("größe", ⟨none, none, some [], none⟩),
    ("", ⟨none, none, none, some []⟩), ("名前", empty)]

theorem lossless_oddNames : (∀ n ∈ oddNames.nodes, n.NamesDistinct) ∧
    oddNames.toJson.depth ≤ Json.maxDepth ∧ read oddNames.toJson = .ok oddNames ∧
    Json.read oddNames.compact = .ok oddNames.toJson := by
  have hnames : ∀ n ∈ oddNames.nodes, n.NamesDistinct := by decide
  have hdepth : oddNames.toJson.depth ≤ Json.maxDepth := by decide
  obtain ⟨hvalue, htext⟩ := lossless oddNames
  exact ⟨hnames, hdepth, hvalue, (htext hnames).trans (if_pos hdepth)⟩

end Schema

end ResponseSchema
