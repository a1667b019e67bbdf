/-
  Types — value types that describe themselves always have a schema.

  * `ValueType.schema`: the schema of a value type, by its structure;
  * `expand_describe`: the type that describes it has this schema in either phase and
    inside any names, for it consists of scalars, JSON, arrays and unions with null;
  * `isNilable_describe_iff`: null belongs to it iff it does so on the outside;
  * `resolve_describe`: so the running program never fails on such a type, and agrees with
    the build and with lowering.
-/
import ResponseSchema.Proofs.Ty.Expanded
import ResponseSchema.Ty.Resolution
import ResponseSchema.Ty.ValueType

namespace ResponseSchema

namespace ValueType

/-- The schema of the values. -/
def schema : ValueType → Schema
  | boolean => .ofKind .boolean
  | signed _ => .ofKind .integer
  | unsigned bits => .ofKind (if bits = 8 then .number else .integer)
  | floating _ => .ofKind .number
  | text => .ofKind .string
  | unit => .ofKind .null
  | json => .anyJson
  | optional inner => .ofAlternatives [inner.schema, .ofKind .null]
  | sequence element => .arrayOf element.schema
  | pointer inner => inner.schema

/-- **The type that describes a value type has its schema**, whoever asks and inside any names. -/
theorem expand_describe (phase : Phase) (enclosing : List String) (t : ValueType) :
    Ty.expand phase enclosing t.describe = .ok t.schema := by
  induction t with
  | unsigned bits => by_cases h : bits = 8 <;> simp [describe, schema, Ty.expand, h, Primitive.kind]
  | optional inner ih =>
    rw [describe, Ty.optional, Ty.expand, Ty.expandAll, ih]
    rfl
  | sequence element ih =>
    rw [describe, Ty.expand, ih]
    rfl
  | pointer inner ih => exact ih
  | _ => rfl

theorem schema_describe (phase : Phase) (t : ValueType) :
    t.describe.schema phase = .ok t.schema := by
  rw [Ty.schema_eq_expand, expand_describe]

/-- A described type has no names in it. -/
theorem allNames_describe (t : ValueType) : t.describe.allNames = [] := by
  induction t with
  | optional inner ih => simp [describe, Ty.optional, Ty.allNames, Ty.allNamesOfAll, ih]
  | sequence element ih => exact ih
  | pointer inner ih => exact ih
  | _ => rfl

theorem unattached_describe (t : ValueType) : t.describe.Unattached := by
  rw [Ty.Unattached, allNames_describe]
  exact nofun

theorem asNamed?_describe (t : ValueType) : t.describe.asNamed? = none := by
  cases h : t.describe.asNamed? with
  | none => rfl
  | some n =>
    -- a name would be one of the names in it
    have hnames := allNames_describe t
    cases hd : t.describe <;> simp_all [Ty.asNamed?, Ty.allNames]

/-- Null belongs to a value type iff the type behind all pointers is optional, the type of one
    value or that of every JSON value. -/
theorem isNilable_describe_iff (t : ValueType) : t.describe.isNilable ↔
    (∃ inner, t.pointee = optional inner) ∨ t.pointee = unit ∨ t.pointee = json := by
  induction t with
  | unsigned bits => by_cases h : bits = 8 <;> simp [describe, pointee, Ty.isNilable, h]
  | optional inner => simp [describe, Ty.optional, pointee, Ty.isNilable, Ty.anyNilable]
  | pointer inner ih => exact ih
  | _ => simp [describe, pointee, Ty.isNilable]

/-- **Every value type that describes itself resolves**, to a schema derived from it that the build
    has as well and that lowering leaves as it is; and null belongs to it iff the type behind all
    pointers is optional, the type of one value or that of every JSON value. -/
theorem resolve_describe (t : ValueType) : ∃ s,
    t.describe.resolve = .ok (.derived s) ∧ t.describe.schema .build = .ok s ∧
      Schema.ofRaw s.toJson = .ok s ∧
      (t.describe.isNilable ↔
        (∃ inner, t.pointee = optional inner) ∨ t.pointee = unit ∨ t.pointee = json) := by
  refine ⟨t.schema, ?_, schema_describe .build t, ?_, isNilable_describe_iff t⟩
  · rw [Ty.resolve, asNamed?_describe, schema_describe]
    rfl
  · have hnormal := Ty.normalize_of_expand (unattached_describe t) (expand_describe .build [] t)
    rw [Schema.ofRaw_toJson, hnormal]

end ValueType

end ResponseSchema
