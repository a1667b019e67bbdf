/-
  Injection — texts of schemas made from types.

  The algebra writes the schema of a name as JSON and the injection lowers that
  like any raw schema.  Where the schema is made from the type alone, lowering has
  nothing to do, so the schema of the build and the text that is found agree.
-/
import ResponseSchema.Proofs.Injection.Texts
import ResponseSchema.Proofs.Ty.Expanded

namespace ResponseSchema

/-- **The text of a name without attached schemas is that of its schema**, and it is the text that
    the search finds for the identifier where the name is the first target with it. -/
theorem text_of_schema {n : NamedType} {s : Schema} (hn : n.toTy.Unattached)
    (h : n.toTy.schema .build = .ok s) :
    SchemaMapper.algebra n >>= Schema.textOfRaw = .ok s.compact ∧
    ∀ (settings : Settings) (documents : List Document),
      (Findings.targetsIn settings documents).find? (·.identifier = n.identifier) = some n →
      (Findings.ofDocuments settings .algebra documents).cache.get? n.identifier =
        some s.compact := by
  have hnormal : s.normalize = s := by
    rw [Ty.schema_eq_expand] at h
    exact Ty.normalize_of_expand hn h
  have htext : SchemaMapper.algebra n >>= Schema.textOfRaw = .ok s.compact := by
    rw [SchemaMapper.textOfRaw_algebra h, hnormal]
  refine ⟨htext, fun settings documents hfirst => ?_⟩
  rw [Findings.get?_ofDocuments, hfirst, Option.bind_some]
  exact SchemaMapper.text?_eq_some_iff.2 htext

/-- A name for a record with a list of names in it, a union of one type and an optional field. -/
def NamedType.team : NamedType :=
  let person := plain "Person" (.record [("name", .primitive .string),
    ("nick", .optional (.primitive .string))])
  plain "Team" (.record [("members", .array person.toTy), ("size", .union [.primitive .int])])

theorem text_of_schema_team :
    let person : Schema := .objectOf [("name", .ofKind .string),
      ("nick", .ofAlternatives [.ofKind .string, .ofKind .null])]
    let s : Schema := .objectOf [("members", .arrayOf person), ("size", .ofKind .integer)]
    NamedType.team.toTy.Unattached ∧ NamedType.team.toTy.schema .build = .ok s ∧
    SchemaMapper.algebra .team >>= Schema.textOfRaw = .ok s.compact ∧
    (Findings.ofDocuments {} .algebra [.caller {} "calls.bal" [.team]]).cache.get? "Team" =
      some s.compact := by
  intro person s
  have hteam : NamedType.team.toTy.Unattached := by decide
  have h : NamedType.team.toTy.schema .build = .ok s := rfl
  obtain ⟨htext, hfound⟩ := text_of_schema hteam h
  exact ⟨hteam, h, htext, hfound {} [.caller {} "calls.bal" [.team]] rfl⟩

end ResponseSchema
