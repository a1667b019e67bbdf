/-
  Host — the schema that a declaration carries.

  The annotations of a definition become metadata under a key made from the settings;
  the running program looks for a schema under a key of its own.

  * `metadata_eq`: the metadata is the last value of the schema annotation;
  * `isSchemaKey_metadataKey_iff`: which settings name an annotation that the program
    recognises;
  * `attached_eq_some_iff`: with these, and only with these, it reads the value, if this
    is an object.
-/
import ResponseSchema.Host.Document

namespace ResponseSchema

/-! ## Values under one name -/

theorem Entries.foldl_insert_self {α : Type} (name : String) : ∀ (value : α) (values : List α),
    (values.map (name, ·)).foldl (fun acc e => insert e.1 e.2 acc) [(name, value)] =
      [(name, values.getLastD value)]
  | _, [] => rfl
  | _, v :: values => by
    rw [List.map_cons, List.foldl_cons, insert, if_pos rfl, foldl_insert_self name v values,
      List.getLastD_cons]

/-- Of values under one name the last remains. -/
theorem Entries.ofList_map_name {α : Type} (name : String) (values : List α) :
    ofList (values.map (name, ·)) = values.getLast?.toList.map (name, ·) := by
  cases values with
  | nil => rfl
  | cons v values =>
    rw [List.getLast?_cons, ← List.getLastD_eq_getLast?]
    exact foldl_insert_self name v values

namespace TypeDefinition

/-- The value of the last annotation with a value, of those with this qualifier and identifier. -/
def lastValue? (t : TypeDefinition) (qualifier identifier : String) : Option Json :=
  ((t.annotations.filter (·.refersTo qualifier identifier)).filterMap Annotation.value?).getLast?

variable {t : TypeDefinition} {qualifier : String} {settings : Settings}

/-- The metadata of a definition is the last value of its schema annotation. -/
theorem metadata_eq : t.metadata qualifier settings =
    (t.lastValue? qualifier settings.annotationIdentifier).toList.map
      (settings.metadataKey, ·) := by
  rw [metadata, lastValue?, ← Entries.ofList_map_name, List.map_filterMap]

/-- The program reads the last value, if it is an object under a key that is looked for. -/
theorem attached?_toNamed : (t.toNamed qualifier settings).attached? =
    (t.lastValue? qualifier settings.annotationIdentifier).filter fun value =>
      isSchemaKey settings.metadataKey && value.isObject := by
  rw [NamedType.attached?, toNamed, attachedSchema?, metadata_eq]
  cases t.lastValue? qualifier settings.annotationIdentifier with
  | none => rfl
  | some value =>
    rw [Option.filter_some, Option.toList_some, List.map_singleton, List.find?_singleton]
    split <;> rfl

end TypeDefinition

/-! ## Keys that are looked for -/

section
variable {α : Type} {c : α} {cs before after : List α}

/-- What does not contain a separator begins the whole iff it begins the part before. -/
theorem prefix_append_cons_iff (h : c ∉ cs) : cs <+: before ++ c :: after ↔ cs <+: before := by
  refine ⟨fun hbegins => ?_, fun hbegins => hbegins.trans (List.prefix_append _ _)⟩
  rcases List.prefix_or_prefix_of_prefix hbegins (List.prefix_append before _) with
    hshort | ⟨rest, rfl⟩
  · exact hshort
  · rw [List.prefix_append_right_inj] at hbegins
    cases rest with
    | nil => simp
    | cons a rest =>
      rw [List.cons_prefix_cons] at hbegins
      exact absurd (List.mem_append_right before (hbegins.1 ▸ List.mem_cons_self)) h

/-- And it ends the whole iff it ends the part after. -/
theorem suffix_append_cons_iff (h : c ∉ cs) : cs <:+ before ++ c :: after ↔ cs <:+ after := by
  rw [← List.reverse_prefix, List.reverse_append, List.reverse_cons, List.append_assoc,
    List.singleton_append, prefix_append_cons_iff (mt List.mem_reverse.1 h), List.reverse_prefix]

end

/-- The module of the annotation begins, and its name ends, as in the key that the program looks
    for. -/
def Settings.IsRecognised (s : Settings) : Prop :=
  schemaModule.toList <+: s.annotationModule.display.toList ∧
    schemaIdentifier.toList <:+ s.annotationIdentifier.toList

instance (s : Settings) : Decidable s.IsRecognised :=
  inferInstanceAs (Decidable (_ ∧ _))

/-- The key for metadata is looked for iff its two parts are, since neither contains the colon
    between them. -/
theorem isSchemaKey_metadataKey_iff (s : Settings) :
    isSchemaKey s.metadataKey = true ↔ s.IsRecognised := by
  have hkey : s.metadataKey.toList =
      s.annotationModule.display.toList ++ ':' :: s.annotationIdentifier.toList := by
    simp [Settings.metadataKey]
  rw [isSchemaKey, Bool.and_eq_true, List.isPrefixOf_iff_prefix, List.isSuffixOf_iff_suffix, hkey,
    prefix_append_cons_iff (by decide), suffix_append_cons_iff (by decide), Settings.IsRecognised]

/-- **The running program reads a schema from a definition** iff it is the last value of the
    annotation of the settings, it is an object, and the program recognises that annotation. -/
theorem TypeDefinition.attached_eq_some_iff (t : TypeDefinition) (qualifier : String)
    (settings : Settings) (v : Json) :
    (t.toNamed qualifier settings).attached? = some v ↔
      t.lastValue? qualifier settings.annotationIdentifier = some v ∧ v.isObject = true ∧
        settings.IsRecognised := by
  rw [attached?_toNamed, Option.filter_eq_some_iff, Bool.and_eq_true,
    isSchemaKey_metadataKey_iff, and_comm (a := settings.IsRecognised)]

example : Settings.IsRecognised {} := by decide

/-- The schema of an integer as an annotation of another module is not read. -/
theorem TypeDefinition.attached_other_module :
    let settings : Settings := { annotationModule := ⟨"acme", "llm"⟩ }
    let value : Json := .object [("type", .string "integer")]
    let t : TypeDefinition := ⟨"Count", .primitive .int, [⟨some "llm", "JsonSchema", some value⟩]⟩
    t.lastValue? "llm" settings.annotationIdentifier = some value ∧ value.isObject = true ∧
      (t.toNamed "llm" settings).attached? = none :=
  ⟨rfl, rfl, by decide⟩

end ResponseSchema
