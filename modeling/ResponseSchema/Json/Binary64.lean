/-
  Json — finite numbers of the 64-bit binary format, in exact arithmetic.

  A `Binary64` is `± significand · 2 ^ exponent` in the one form in which
  every number but the two zeros is written once (`Binary64.Canonical`).

  * `Binary64.nearest` rounds a quotient of natural numbers to the nearest
    such number, a tie to the even significand; too large a quotient has none;
  * `Binary64.scaled` is the value that decimal text is read as: the digits
    rounded to a `Binary64`, then multiplied or divided by the rounded power
    of ten, which is the exact value rounded once only for short digits;
  * `roundQuotient_le` and `le_roundQuotient`: rounding stays within one half.
-/

namespace ResponseSchema

/-- The quotient rounded to the nearest natural number, a tie to the even one. -/
def roundQuotient (num den : Nat) : Nat :=
  let quotient := num / den
  let twice := 2 * (num % den)
  if den < twice ∨ (twice = den ∧ quotient % 2 = 1) then quotient + 1 else quotient

theorem roundQuotient_le {num den : Nat} (h : 0 < den) :
    2 * (den * roundQuotient num den) ≤ 2 * num + den := by
  have hd := Nat.div_add_mod num den
  simp only [roundQuotient]
  split
  · rw [Nat.mul_add]; omega
  · have := Nat.mod_lt num h; omega

theorem le_roundQuotient {num den : Nat} (h : 0 < den) :
    2 * num ≤ 2 * (den * roundQuotient num den) + den := by
  have hd := Nat.div_add_mod num den
  have := Nat.mod_lt num h
  simp only [roundQuotient]
  split
  · rw [Nat.mul_add]; omega
  · omega

namespace Binary64

/-- `2 ^ 52`, the least significand that fills its 53 bits. -/
def fullSignificand : Nat := 0x10000000000000

/-- The significand fills its 53 bits unless the exponent is the least one. -/
def Canonical (significand : Nat) (exponent : Int) : Prop :=
  significand < 2 * fullSignificand ∧ -1074 ≤ exponent ∧ exponent ≤ 971 ∧
    (fullSignificand ≤ significand ∨ exponent = -1074)

instance (significand : Nat) (exponent : Int) : Decidable (Canonical significand exponent) :=
  inferInstanceAs (Decidable (_ ∧ _))

end Binary64

/-- A finite number `± significand · 2 ^ exponent`. -/
structure Binary64 where
  negative : Bool
  significand : Nat
  exponent : Int
  canonical : Binary64.Canonical significand exponent
  deriving DecidableEq

namespace Binary64

/-- Zero, of either sign. -/
def zero (negative : Bool) : Binary64 :=
  ⟨negative, 0, -1074, by decide⟩

instance : Inhabited Binary64 := ⟨zero false⟩

/-- The magnitude as a quotient of natural numbers. -/
def ratio (x : Binary64) : Nat × Nat :=
  (x.significand * Nat.pow 2 x.exponent.toNat, Nat.pow 2 (-x.exponent).toNat)

/-- The quotient `num / (den · 2 ^ e)` as a quotient of natural numbers. -/
def unscale (num den : Nat) (e : Int) : Nat × Nat :=
  (num * Nat.pow 2 (-e).toNat, den * Nat.pow 2 e.toNat)

/-- The exponent at which `num / den` has a 53-bit whole part, or the least one. -/
def exponentFor (num den : Nat) : Int :=
  let e : Int := (num.log2 : Int) - den.log2 - 52
  let scaled := unscale num den e
  max (-1074) (if scaled.1 / scaled.2 < fullSignificand then e - 1 else e)

/-- The number nearest to `± num / den`; none if that is beyond the largest. -/
def nearest (negative : Bool) (num den : Nat) : Option Binary64 :=
  if num = 0 then some (zero negative)
  else
    let e := exponentFor num den
    let scaled := unscale num den e
    let q := roundQuotient scaled.1 scaled.2
    let (significand, exponent) := if q = 2 * fullSignificand then (fullSignificand, e + 1)
      else (q, e)
    if h : Canonical significand exponent then some ⟨negative, significand, exponent, h⟩ else none

/-- The product with a positive number. -/
def mul (x y : Binary64) : Option Binary64 :=
  nearest x.negative (x.ratio.1 * y.ratio.1) (x.ratio.2 * y.ratio.2)

/-- The quotient by a positive number. -/
def div (x y : Binary64) : Option Binary64 :=
  nearest x.negative (x.ratio.1 * y.ratio.2) (x.ratio.2 * y.ratio.1)

/-- The number nearest to `10 ^ k`. -/
def powTen (k : Nat) : Option Binary64 :=
  nearest false (Nat.pow 10 k) 1

/-- `x / 10 ^ k`, in steps of at most `10 ^ 308`, the largest power of ten there is. -/
def divPowTen (x : Binary64) (k : Nat) : Option Binary64 :=
  if x.significand = 0 then some x
  else if k ≤ 308 then (powTen k).bind x.div
  else ((powTen 308).bind x.div).bind (divPowTen · (k - 308))
termination_by k

/-- `± digits · 10 ^ exponent`; none if that is beyond the largest number. -/
def scaled (negative : Bool) (digits : Nat) (exponent : Int) : Option Binary64 :=
  (nearest negative digits 1).bind fun x =>
    if exponent < 0 then divPowTen x (-exponent).toNat
    else if x.significand = 0 then some x
    else if 308 < exponent then none
    else (powTen exponent.toNat).bind x.mul

end Binary64

end ResponseSchema
