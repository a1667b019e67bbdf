/-
  Types — metadata of other modules.

  The key of an entry of metadata begins with its module, up to the first colon.
  Entries of modules other than that of the schema annotation should not matter, but
  a key is looked at by how it begins and ends, and not by its module.

  * `erase` drops from all metadata in a type the entries under hidden keys;
  * `answers`: what a type answers to every question for a schema;
  * `answers_erase`: entries under keys that are not looked for do not matter;
  * `answers_eq_iff`: those of other modules matter under exactly the keys that
    begin and end as the schema key does.
-/
import ResponseSchema.Proofs.Ty.Phases

namespace ResponseSchema

/-! ## Keys -/

/-- The module of a key: what stands before its first colon. -/
def keyModule (key : String) : List Char :=
  key.toList.takeWhile (· ≠ ':')

/-- Whether a key belongs to another module than that of the schema annotation. -/
def isForeign (key : String) : Bool :=
  decide (keyModule key ≠ schemaModule.toList)

theorem isSchemaKey_iff (key : String) : isSchemaKey key = true ↔
    schemaModule.toList <+: key.toList ∧ schemaIdentifier.toList <:+ key.toList := by
  rw [isSchemaKey, Bool.and_eq_true, List.isPrefixOf_iff_prefix, List.isSuffixOf_iff_suffix]

example : isForeign "other/module:JsonSchema" ∧ ¬ isSchemaKey "other/module:JsonSchema" := by decide

/-! ## Erasing metadata -/

namespace Ty

mutual

/-- The type without the metadata under hidden keys, of any name inside it. -/
def erase (hidden : String → Bool) : Ty → Ty
  | array element => array (erase hidden element)
  | union ts => union (eraseAll hidden ts)
  | record fields => record (eraseFields hidden fields)
  | named identifier referred metadata =>
    named identifier (erase hidden referred) (metadata.filter fun e => !hidden e.1)
  | t => t

/-- `erase`, for each member. -/
def eraseAll (hidden : String → Bool) : List Ty → List Ty
  | [] => []
  | t :: ts => erase hidden t :: eraseAll hidden ts

/-- `erase`, for each field. -/
def eraseFields (hidden : String → Bool) : List (String × Ty) → List (String × Ty)
  | [] => []
  | (name, t) :: fs => (name, erase hidden t) :: eraseFields hidden fs

end

mutual

/-- All names in a type, wherever they are. -/
def allNames : Ty → List NamedType
  | array element => allNames element
  | union ts => allNamesOfAll ts
  | record fields => allNamesOfFields fields
  | named identifier referred metadata => ⟨identifier, referred, metadata⟩ :: allNames referred
  | _ => []

/-- The names in each member. -/
def allNamesOfAll : List Ty → List NamedType
  | [] => []
  | t :: ts => allNames t ++ allNamesOfAll ts

/-- The names in each field. -/
def allNamesOfFields : List (String × Ty) → List NamedType
  | [] => []
  | (_, t) :: fs => allNames t ++ allNamesOfFields fs

end

end Ty

/-- The name without the metadata under hidden keys, of any name inside it. -/
def NamedType.erase (hidden : String → Bool) (n : NamedType) : NamedType :=
  ⟨n.identifier, n.referred.erase hidden, n.metadata.filter fun e => !hidden e.1⟩

/-! ## Answers -/

/-- The error as it is reported, with the text of a type for the type. -/
def SchemaError.worded : SchemaError → SchemaError
  | unsupported type => unsupported (.other type.display)
  | e => e

/-- What a type answers to every question for a schema. -/
structure Answers where
  /-- The schemas attached to the names in the type. -/
  attached : List (Option Json)
  schema : Phase → Except SchemaError Schema
  resolved : Except SchemaError Resolution

/-- The answers of a type, errors as they are reported. -/
def Ty.answers (t : Ty) : Answers where
  attached := t.allNames.map NamedType.attached?
  schema phase := (t.schema phase).mapError SchemaError.worded
  resolved := t.resolve.mapError SchemaError.worded

variable {hidden : String → Bool}

/-! ## The text of a type -/

namespace Ty

theorem hasBars_erase (t : Ty) : (t.erase hidden).hasBars = t.hasBars := by
  cases t with
  | union ts => rcases ts with _ | ⟨_, _ | _⟩ <;> rfl
  | _ => rfl

mutual

theorem render_erase : ∀ t : Ty, (t.erase hidden).render = t.render
  | primitive _ => rfl
  | json => rfl
  | array element => by
    rw [erase, render_array, render_array, hasBars_erase, render_erase element]
  | union [] => rfl
  | union (t :: ts) => by
    rw [erase, eraseAll, render_union_cons, render_union_cons, render_erase t,
      renderMembers_erase ts]
  | record fields => by
    rw [erase, render_record, render_record, renderFields_erase fields]
  | named .. => rfl
  | error => rfl
  | other _ => rfl

theorem renderMembers_erase : ∀ ts : List Ty, renderMembers (eraseAll hidden ts) = renderMembers ts
  | [] => rfl
  | t :: ts => by
    rw [eraseAll, renderMembers, renderMembers, render_erase t, renderMembers_erase ts]

theorem renderFields_erase : ∀ fs : List (String × Ty),
    renderFields (eraseFields hidden fs) = renderFields fs
  | [] => rfl
  | (name, t) :: fs => by
    rw [eraseFields, renderFields, renderFields, render_erase t, renderFields_erase fs]

end

theorem worded_unsupported_erase (t : Ty) :
    (SchemaError.unsupported (t.erase hidden)).worded = (SchemaError.unsupported t).worded := by
  rw [SchemaError.worded, SchemaError.worded, display, display, render_erase]

/-! ## Entries that are not looked for -/

mutual

theorem allNames_erase : ∀ t : Ty, (t.erase hidden).allNames = t.allNames.map (NamedType.erase hidden)
  | primitive _ => rfl
  | json => rfl
  | array element => allNames_erase element
  | union ts => allNamesOfAll_erase ts
  | record fields => allNamesOfFields_erase fields
  | named identifier referred metadata => by
    rw [erase, allNames, allNames, allNames_erase referred]
    rfl
  | error => rfl
  | other _ => rfl

theorem allNamesOfAll_erase : ∀ ts : List Ty,
    allNamesOfAll (eraseAll hidden ts) = (allNamesOfAll ts).map (NamedType.erase hidden)
  | [] => rfl
  | t :: ts => by
    rw [eraseAll, allNamesOfAll, allNamesOfAll, List.map_append, allNames_erase t,
      allNamesOfAll_erase ts]

theorem allNamesOfFields_erase : ∀ fs : List (String × Ty),
    allNamesOfFields (eraseFields hidden fs) = (allNamesOfFields fs).map (NamedType.erase hidden)
  | [] => rfl
  | (name, t) :: fs => by
    rw [eraseFields, allNamesOfFields, allNamesOfFields, List.map_append, allNames_erase t,
      allNamesOfFields_erase fs]

end

/-- Members with the same text have the same schema, or the same error. -/
theorem joinMembers_worded {t u : Ty}
    (h : (SchemaError.unsupported t).worded = (SchemaError.unsupported u).worded)
    (ss : List Schema) :
    (joinMembers t ss).mapError SchemaError.worded = (joinMembers u ss).mapError SchemaError.worded := by
  rcases ss with _ | ⟨s, _ | ⟨s', ss⟩⟩
  · exact congrArg Except.error h
  · rfl
  · rfl

section
variable (hkeys : ∀ key, hidden key → isSchemaKey key = false)
include hkeys

theorem attachedSchema?_filter (metadata : Entries Json) :
    attachedSchema? (metadata.filter fun e => !hidden e.1) = attachedSchema? metadata := by
  rw [attachedSchema?, attachedSchema?, List.find?_filter]
  congr 2
  funext e
  cases hhidden : hidden e.1 with
  | true => simp [hkeys e.1 hhidden]
  | false => simp

variable (phase : Phase)

set_option linter.unusedSectionVars false in
mutual

/-- **Entries under keys that are not looked for have no part in the schema of a type.** -/
theorem expand_erase : ∀ (t : Ty) (enclosing : List String),
    (expand phase enclosing (t.erase hidden)).mapError SchemaError.worded =
      (expand phase enclosing t).mapError SchemaError.worded
  | primitive _, _ => rfl
  | json, _ => rfl
  | array element, enclosing => by
    rw [erase, expand, expand, mapError_map, mapError_map, expand_erase element enclosing]
  | union ts, enclosing => by
    rw [erase, expand, expand]
    exact mapError_bind_congr (expandAll_erase ts enclosing)
      (joinMembers_worded (worded_unsupported_erase (union ts)))
  | record fields, enclosing => by
    have properties := expandFields_erase fields enclosing
    cases phase with
    | runtime => exact congrArg Except.error (worded_unsupported_erase (record fields))
    | build => rw [erase, expand, expand, mapError_map, mapError_map, properties]
  | named identifier referred metadata, enclosing => by
    have inner := expand_erase referred (identifier :: enclosing)
    have herased := attachedSchema?_filter hkeys metadata
    cases hattached : attachedSchema? metadata with
    | some v =>
      rw [hattached] at herased
      rw [erase, expand_named_of_attached herased, expand_named_of_attached hattached]
    | none =>
      rw [hattached] at herased
      cases phase with
      | runtime => rw [erase, expand_named_runtime herased, expand_named_runtime hattached]
      | build =>
        simp only [erase, expand, herased, hattached]
        split
        · rfl
        · exact inner
  | error, _ => rfl
  | other _, _ => rfl

theorem expandAll_erase : ∀ (ts : List Ty) (enclosing : List String),
    (expandAll phase enclosing (eraseAll hidden ts)).mapError SchemaError.worded =
      (expandAll phase enclosing ts).mapError SchemaError.worded
  | [], _ => rfl
  | t :: ts, enclosing => by
    refine mapError_bind_congr (expand_erase t enclosing) fun s => ?_
    rw [mapError_map, mapError_map, expandAll_erase ts enclosing]

theorem expandFields_erase : ∀ (fs : List (String × Ty)) (enclosing : List String),
    (expandFields phase enclosing (eraseFields hidden fs)).mapError SchemaError.worded =
      (expandFields phase enclosing fs).mapError SchemaError.worded
  | [], _ => rfl
  | (name, t) :: fs, enclosing => by
    refine mapError_bind_congr (expand_erase t enclosing) fun s => ?_
    rw [mapError_map, mapError_map, expandFields_erase fs enclosing]

end

theorem asNamed?_erase (t : Ty) : (t.erase hidden).asNamed?.bind NamedType.attached? =
    t.asNamed?.bind NamedType.attached? := by
  cases t with
  | named identifier referred metadata => exact attachedSchema?_filter hkeys metadata
  | _ => rfl

/-- **Entries under keys that are not looked for have no part in any answer.** -/
theorem answers_erase (t : Ty) : (t.erase hidden).answers = t.answers := by
  have schema (phase : Phase) : ((t.erase hidden).schema phase).mapError SchemaError.worded =
      (t.schema phase).mapError SchemaError.worded := by
    rw [schema_eq_expand, schema_eq_expand, expand_erase hkeys]
  have attached : (t.erase hidden).allNames.map NamedType.attached? =
      t.allNames.map NamedType.attached? := by
    rw [allNames_erase, List.map_map]
    exact List.map_congr_left fun n _ => attachedSchema?_filter hkeys n.metadata
  rw [answers, answers, attached, resolve_eq, resolve_eq, mapError_map, mapError_map,
    schema .runtime, asNamed?_erase hkeys]
  simp only [schema]

end

/-! ## Keys of other modules -/

/-- **Metadata of other modules has a part in the answers under exactly the keys that begin and end
    as the schema key does.** -/
theorem answers_eq_iff (hidden : String → Bool) :
    (∀ t u : Ty, t.erase (fun key => isForeign key && hidden key) =
      u.erase (fun key => isForeign key && hidden key) → t.answers = u.answers) ↔
    ∀ key, hidden key → isForeign key →
      ¬ (schemaModule.toList <+: key.toList ∧ schemaIdentifier.toList <:+ key.toList) := by
  constructor
  · intro h key hhidden hforeign hkey
    -- an entry under the key is the whole difference between two names
    let value : Json := .object []
    have same := h (named "Name" json [(key, value)]) (named "Name" json [])
      (by simp [erase, hhidden, hforeign])
    have attached := congrArg Answers.attached same
    simp [answers, allNames, NamedType.attached?, attachedSchema?, (isSchemaKey_iff key).2 hkey,
      value, Json.isObject] at attached
  · intro h t u herase
    have hkeys : ∀ key, (isForeign key && hidden key) = true → isSchemaKey key = false := by
      intro key hkey
      rw [Bool.and_eq_true] at hkey
      rw [Bool.eq_false_iff, ne_eq, isSchemaKey_iff]
      exact h key hkey.2 hkey.1
    rw [← answers_erase hkeys t, herase, answers_erase hkeys u]

/-- A name for numbers with metadata under one key. -/
def counting (metadata : List (String × Json)) : NamedType :=
  ⟨"Count", .primitive .int, metadata⟩

/-- A schema for strings under a key of a module whose name only begins as that of the schema
    annotation answers for the name, with it and without it the same type for all other modules. -/
theorem answers_ne_of_foreign :
    let value : Json := .object [("type", .string "string")]
    let n := counting [("ballerina/aix:JsonSchema", value)]
    isForeign "ballerina/aix:JsonSchema" = true ∧ n.erase isForeign = counting [] ∧
      (counting []).attached? = none ∧ n.attached? = some value ∧
      (counting []).toTy.schema .build = .ok (.ofKind .integer) ∧
      n.toTy.schema .build = .ok (.ofKind .string) ∧
      (counting []).toTy.schema .runtime = .error (.unmapped "Count") ∧
      n.toTy.schema .runtime = .ok (.ofKind .string) ∧
      (counting []).toTy.resolve = .error (.unmapped "Count") ∧
      n.toTy.resolve = .ok (.attached (.ofKind .string)) :=
  ⟨by decide, by decide, rfl, rfl, rfl, rfl, rfl, rfl, rfl, rfl⟩

end Ty

end ResponseSchema
