/-
  Types — value types that describe themselves.

  A `ValueType` is a type of values in a running program: scalars of some width,
  optional values, sequences, and values behind a pointer.  `describe` is the
  type that the algebra has for it.
-/
import ResponseSchema.Ty.Basic

namespace ResponseSchema

/-- A type of values in a running program. -/
inductive ValueType where
  | boolean
  /-- Integers with a sign. -/
  | signed (bits : Nat)
  /-- Integers without a sign. -/
  | unsigned (bits : Nat)
  /-- Floating-point numbers. -/
  | floating (bits : Nat)
  /-- Characters and texts. -/
  | text
  /-- The type of one value. -/
  | unit
  /-- Any JSON value. -/
  | json
  /-- A value or none. -/
  | optional (inner : ValueType)
  /-- Any number of values, or a fixed one. -/
  | sequence (element : ValueType)
  /-- A value behind a reference of some kind. -/
  | pointer (inner : ValueType)
  deriving DecidableEq

namespace ValueType

/-- The type that describes the values.  Eight bits without a sign are a byte, every
    other integer is an `int`; pointers do not show. -/
def describe : ValueType → Ty
  | boolean => .primitive .boolean
  | signed _ => .primitive .int
  | unsigned bits => .primitive (if bits = 8 then .byte else .int)
  | floating _ => .primitive .float
  | text => .primitive .string
  | unit => .primitive .null
  | json => .json
  | optional inner => .optional inner.describe
  | sequence element => .array element.describe
  | pointer inner => inner.describe

/-- The value type behind all pointers. -/
def pointee : ValueType → ValueType
  | pointer inner => inner.pointee
  | t => t

theorem describe_pointee (t : ValueType) : t.pointee.describe = t.describe := by
  induction t <;> simp_all [pointee, describe]

end ValueType

end ResponseSchema
