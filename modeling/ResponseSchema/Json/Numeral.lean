/-
  Json — reading numbers.

  `numeral` takes a number apart into its digits; `Numeral.number` gives its
  value.  An integer that fits 64 bits is one; every other number, `-0`
  included, is binary.  Its digits are gathered in 64 bits (`gather`): digits of
  the whole part that no longer fit count as a power of ten, and with the
  first digit of the fraction that does not fit, the rest is left out.
-/
import ResponseSchema.Json.Text

namespace ResponseSchema

namespace Json

/-- A number in its written parts. -/
structure Numeral where
  negative : Bool
  whole : List Nat
  fraction : List Nat
  exponent : Option Int

namespace Reader

/-- The digits at the front. -/
def digits : Reader (List Nat) := fun cs =>
  .ok ((cs.takeWhile Char.isDigit).map (fun c => c.toNat - '0'.toNat), cs.dropWhile Char.isDigit)

/-- The digits at the front, at least one. -/
def someDigits : Reader (List Nat) := do
  let ds ← digits
  if ds.isEmpty then
    if (← peek?).isSome then throw .malformed else throw .truncated
  pure ds

/-- The digits of an integer: a zero stands alone. -/
def wholePart : Reader (List Nat) := do
  let ds ← someDigits
  if ds.head? = some 0 ∧ ds.length ≠ 1 then throw .malformed
  pure ds

/-- The digits after a point, if there is one. -/
def fractionPart : Reader (List Nat) := do
  if (← peek?) = some '.' then
    drop
    someDigits
  else pure []

/-- The natural number with the given digits. -/
def ofDigits (ds : List Nat) : Nat :=
  ds.foldl (fun n d => n * 10 + d) 0

/-- The exponent, if there is one. -/
def exponentPart : Reader (Option Int) := do
  let mark ← peek?
  if mark = some 'e' ∨ mark = some 'E' then
    drop
    let sign ← peek?
    if sign = some '-' ∨ sign = some '+' then drop
    let ds ← someDigits
    let n : Int := ofDigits ds
    pure (some (if sign = some '-' then -n else n))
  else pure none

/-- A number after its sign. -/
def numeral (negative : Bool) : Reader Numeral := do
  let whole ← wholePart
  let fraction ← fractionPart
  let exponent ← exponentPart
  pure ⟨negative, whole, fraction, exponent⟩

end Reader

namespace Numeral

/-- `2 ^ 64`, the number of values of a word. -/
def wordSize : Nat := 0x10000000000000000

/-- Append digits to `n` while the result is below `2 ^ 64`; the digits left over
    come second. -/
def gather (n : Nat) : List Nat → Nat × List Nat
  | [] => (n, [])
  | d :: ds => if n * 10 + d < wordSize then gather (n * 10 + d) ds else (n, d :: ds)

/-- The value of an integer of at most 64 bits with the given magnitude, if there is one. -/
def integer? (negative : Bool) (magnitude : Nat) : Option Int :=
  if negative then
    if magnitude ≠ 0 ∧ 2 * magnitude ≤ wordSize then some (-magnitude) else none
  else some magnitude

/-- The value of a number; a binary number that is too large has none. -/
def number (n : Numeral) : Except Fault Number :=
  let (whole, dropped) := gather 0 n.whole
  let (gathered, omitted) := gather whole n.fraction
  let exponent : Int :=
    dropped.length - (n.fraction.length - omitted.length : Nat) + n.exponent.getD 0
  let binary : Except Fault Number :=
    match Binary64.scaled n.negative gathered exponent with
    | some x => .ok (.float x)
    | none => .error .malformed
  if n.fraction.isEmpty ∧ n.exponent = none ∧ dropped.isEmpty then
    match integer? n.negative whole with
    | some i => .ok (.integer i)
    | none => binary
  else binary

end Numeral

/-- A number after its sign. -/
def Reader.number (negative : Bool) : Reader Number := do
  let n ← numeral negative
  liftM n.number

end Json

end ResponseSchema
