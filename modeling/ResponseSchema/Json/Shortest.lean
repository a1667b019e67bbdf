/-
  Json — the shortest decimal text of a binary number.

  Between a `Binary64` and its two neighbours lies an interval of reals that
  round to it.  `shortest` goes through the decimal grids `10 ^ k` from coarse
  to fine and takes the first grid with a point in the interval; of two such
  points it takes the nearer one, and of two equally near ones the even one.

  * `Decimal` is `digits · 10 ^ exponent`, `shortest` its choice for a number;
  * `Decimal.text` writes it with a point for the exponents −5 to 15 of the
    first digit, and with one digit before the point and a signed exponent
    otherwise; `Binary64.text` adds the sign and knows the zeros.
-/
import ResponseSchema.Json.Binary64

namespace ResponseSchema

/-- The decimal number `digits · 10 ^ exponent`. -/
structure Decimal where
  digits : Nat
  exponent : Int
  deriving DecidableEq

namespace Binary64

/-- The reals that round to a number, in units of a quarter of its last place:
    from `low` to `high` around `value`, the ends included iff `closed`. -/
structure Interval where
  low : Nat
  value : Nat
  high : Nat
  closed : Bool

/-- The interval of the magnitude of `x`.  Below a power of two the neighbour is
    only half as far away. -/
def interval (x : Binary64) : Interval where
  low := if x.significand = fullSignificand ∧ -1074 < x.exponent then 4 * x.significand - 1
    else 4 * x.significand - 2
  value := 4 * x.significand
  high := 4 * x.significand + 2
  closed := x.significand % 2 = 0

/-- Whether the point lies in the interval, both scaled alike. -/
def Interval.Contains (i : Interval) (unit point : Nat) : Prop :=
  if i.closed then i.low * unit ≤ point ∧ point ≤ i.high * unit
  else i.low * unit < point ∧ point < i.high * unit

instance (i : Interval) (unit point : Nat) : Decidable (i.Contains unit point) := by
  unfold Interval.Contains; infer_instance

/-- The point of the grid `10 ^ k` that `shortest` would take, if one lies in the
    interval: one of the two next to the value. -/
def onGrid (x : Binary64) (k : Int) : Option Nat :=
  let i := x.interval
  let e := x.exponent - 2
  let unit := Nat.pow 2 e.toNat * Nat.pow 10 (-k).toNat
  let step := Nat.pow 10 k.toNat * Nat.pow 2 (-e).toNat
  let value := i.value * unit
  let below := value / step
  let above := below + 1
  match decide (i.Contains unit (below * step)), decide (i.Contains unit (above * step)) with
  | true, true =>
    let down := value - below * step
    let up := above * step - value
    if down < up ∨ (down = up ∧ below % 2 = 0) then some below else some above
  | true, false => some below
  | false, true => some above
  | false, false => none

/-- The first of the `n` grids from `10 ^ k` downwards with a point in the interval. -/
def firstGrid (x : Binary64) (k : Int) : Nat → Option Decimal
  | 0 => none
  | n + 1 =>
    match x.onGrid k with
    | some digits => some ⟨digits, k⟩
    | none => firstGrid x (k - 1) n

/-- The shortest decimal number that rounds to the magnitude of `x`, which is not zero.
    The search starts above the first digit (`log₁₀ 2 < 0.30103`); seventeen digits
    tell any two numbers apart, so it ends within twenty grids. -/
def shortest (x : Binary64) : Decimal :=
  let top := ((x.significand.log2 : Int) + 1 + x.exponent) * 30103 / 100000 + 1
  (x.firstGrid top 24).getD ⟨x.significand, x.exponent⟩

end Binary64

/-- The decimal digits of a natural number. -/
def decimalText (n : Nat) : List Char :=
  Nat.toDigits 10 n

/-- The exponent of the first digit, at most this far from zero, is written positionally. -/
def Decimal.positional (first : Int) : Prop :=
  -5 ≤ first ∧ first ≤ 15

instance (first : Int) : Decidable (Decimal.positional first) :=
  inferInstanceAs (Decidable (_ ∧ _))

/-- The digits with a point, or with an exponent that always has its sign. -/
def Decimal.text (d : Decimal) : List Char :=
  let digits := decimalText d.digits
  let first := d.exponent + digits.length - 1
  if Decimal.positional first then
    if 0 ≤ d.exponent then digits ++ List.replicate d.exponent.toNat '0' ++ ['.', '0']
    else if 0 ≤ first then
      digits.take (first + 1).toNat ++ '.' :: digits.drop (first + 1).toNat
    else '0' :: '.' :: (List.replicate (-first - 1).toNat '0' ++ digits)
  else
    let mantissa := match digits with
      | c :: cs => if cs.isEmpty then [c] else c :: '.' :: cs
      | [] => []
    let sign := if first < 0 then '-' else '+'
    mantissa ++ 'e' :: sign :: decimalText first.natAbs

/-- The text of a number; a zero keeps its sign. -/
def Binary64.text (x : Binary64) : List Char :=
  let magnitude := if x.significand = 0 then ['0', '.', '0'] else x.shortest.text
  if x.negative then '-' :: magnitude else magnitude

end ResponseSchema
