/-
  Dialect — a branch on its own in an `allOf`.

  Mappers put a schema into an `allOf` of its own to say more about it beside it, a
  description or `nullable`.

  * `absorb_empty`: folding a schema into the node that says nothing gives the
    schema;
  * `lower_insert_nullable`: a raw schema that is made nullable lowers to its schema
    with null allowed;
  * `ofRaw_wrapped`: so the wrapper has the schema of its branch, and `nullable` on
    the wrapper does what `nullable` on the branch does.
-/
import ResponseSchema.Proofs.Dialect.Locations
import ResponseSchema.Proofs.Dialect.Nullable

namespace ResponseSchema

/-! ## Folding into the empty node -/

namespace Schema

/-- Folding a schema into the node that says nothing gives the schema, if no two of its
    properties have one name. -/
theorem absorb_empty {s : Schema} (h : s.NamesDistinct) : empty.absorb s = s := by
  obtain ⟨type, items, properties, anyOf⟩ := s
  have hproperties : mergeProperties none properties = properties := by
    cases properties with
    | none => rfl
    | some ps => exact congrArg some (Entries.foldl_insertNew_of_distinct (h ps rfl))
  have hanyOf : joinAlternatives none anyOf = anyOf := by
    cases anyOf <;> rfl
  rw [absorb, empty, hproperties, hanyOf]
  rfl

end Schema

/-! ## Setting `nullable` -/

/-- The keywords of a node after `nullable` is set. -/
theorem keywords_insert_nullable (location : Location) (ms : List (String × Json)) :
    keywords location (Entries.insert "nullable" (.bool true) ms) =
      { keywords location ms with nullable := true } := by
  have other {name : String} (hname : name ≠ "nullable") :
      (Entries.insert "nullable" (.bool true) ms).lookup name = ms.lookup name :=
    Entries.lookup_insert_of_ne _ hname ms
  rw [keywords_eq, keywords_eq, Entries.lookup_insert_self, other (by decide), other (by decide),
    other (by decide), other (by decide), other (by decide), other (by decide), other (by decide)]
  rfl

namespace Schema

/-- **A raw schema that is made nullable lowers to its schema with null allowed.** -/
theorem lower_insert_nullable {location : Location} {ms : List (String × Json)} {s : Schema}
    (h : lower location (.object ms) = .ok s) :
    lower location (.object (Entries.insert "nullable" (.bool true) ms)) = .ok s.allowNull := by
  rw [lower] at h ⊢
  obtain ⟨kinds, items, properties, allOf, anyOf, oneOf, hkinds, hitems, hproperties, hall, hany,
    hone, rfl⟩ := (keywords location ms).exists_of_assemble h
  rw [keywords_insert_nullable, ← Keywords.compose_nullable]
  simp only [Keywords.assemble, hkinds, hitems, hproperties, hall, hany, hone]
  rfl

/-! ## Wrappers -/

theorem lower_wrapped {raw : Json} {s : Schema} (hdistinct : raw.Distinct)
    (h : lower [] raw = .ok s) : lower [] (.object [("allOf", .array [raw])]) = .ok s := by
  have hbranch : lowerBranches [.branches .allOf] (.array [raw]) = .ok (some [s]) := by
    rw [lowerBranches, lowerList, lower_of_lower h]
    rfl
  have hkeywords : keywords [] [("allOf", .array [raw])] = { allOf := .ok (some [s]) } := by
    rw [← hbranch]
    rfl
  have hnames : s.NamesDistinct :=
    ((forall_mem_nodes s).1 (namesDistinct_of_lower hdistinct h)).1
  rw [lower, hkeywords]
  exact congrArg Except.ok (absorb_empty hnames)

/-- **A wrapper has the schema of its branch**, and making the wrapper nullable does what making the
    branch nullable does: it allows null in the schema.  `Distinct` says that no object inside the
    branch has a name twice, as in every map of the host. -/
theorem ofRaw_wrapped {raw : Json} {s : Schema} (hdistinct : raw.Distinct)
    (h : ofRaw raw = .ok s) :
    ofRaw (.object [("allOf", .array [raw])]) = ofRaw raw ∧
    ∀ ms, raw = .object ms →
      ofRaw (.object [("allOf", .array [raw]), ("nullable", .bool true)]) =
        ofRaw (.object (Entries.insert "nullable" (.bool true) ms)) ∧
      ofRaw (.object (Entries.insert "nullable" (.bool true) ms)) = .ok s.allowNull := by
  have hraw : lower [] raw = .ok s := lower_of_ofRaw h
  have hwrapper : lower [] (.object [("allOf", .array [raw])]) = .ok s :=
    lower_wrapped hdistinct hraw
  constructor
  · rw [h, ofRaw, hwrapper]
    rfl
  · rintro ms rfl
    have hinner := lower_insert_nullable hraw
    have houter : lower [] (.object [("allOf", .array [.object ms]), ("nullable", .bool true)]) =
        .ok s.allowNull := lower_insert_nullable hwrapper
    rw [ofRaw, ofRaw, houter, hinner]
    exact ⟨rfl, rfl⟩

/-- Photos in the format `byte`, in a wrapper that says what they are called. -/
def namedPhotos : List (String × Json) :=
  [("allOf", .array [.object [("type", .string "string"), ("format", .string "byte")]]),
    ("properties", .object [("name", .object [("type", .string "string"),
      ("nullable", .bool true)])])]

theorem ofRaw_wrapped_namedPhotos :
    let s : Schema := ⟨some (.single .number), none, some [("name", ofKinds [.string, .null])], none⟩
    (Json.object namedPhotos).Distinct ∧ ofRaw (.object namedPhotos) = .ok s ∧
    ofRaw (.object [("allOf", .array [.object namedPhotos])]) = .ok s ∧
    ofRaw (.object [("allOf", .array [.object namedPhotos]), ("nullable", .bool true)]) =
      .ok { s with type := some (.list [.number, .null]) } := by
  intro s
  have hdistinct : (Json.object namedPhotos).Distinct := by decide
  have h : ofRaw (.object namedPhotos) = .ok s := rfl
  obtain ⟨hwrapper, hnullable⟩ := ofRaw_wrapped hdistinct h
  obtain ⟨hsame, hnull⟩ := hnullable namedPhotos rfl
  exact ⟨hdistinct, h, hwrapper.trans h, hsame.trans hnull⟩

end Schema

end ResponseSchema
