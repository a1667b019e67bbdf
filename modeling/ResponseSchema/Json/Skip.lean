/-
  Json — passing over a value that nobody reads.

  `skip` checks the form of a value and drops it.  It is laxer than reading:
  containers nest without limit, numbers may have any size, and a surrogate
  may stand alone.  It is stricter in one point: a number that the end of the
  text cuts off is malformed.
-/
import ResponseSchema.Json.Reader

namespace ResponseSchema

namespace Json

namespace Reader

/-- One character of a string of which only the form counts, or nothing at the
    closing quote. -/
def skipChar? : Reader (Option Unit) := do
  let c ← next
  if c = '"' then pure none
  else if c = '\\' then
    let e ← next
    if e = 'u' then
      let _ ← hexCode
      pure (some ())
    else if (shortEscape? e).isSome then pure (some ())
    else throw .malformed
  else if c.toNat < 0x20 then throw .malformed
  else pure (some ())

/-- A string after its opening quote. -/
def skipString : Reader Unit := do
  let _ ← many skipChar?

/-- A number after its sign, malformed wherever it breaks off. -/
def skipNumber : Reader Unit := fun cs =>
  match (numeral false).run cs with
  | .ok (_, rest) => .ok ((), rest)
  | .error _ => .error .malformed

/-- A value without containers. -/
def skipScalar : Reader Unit := do
  let c ← next
  if c = 'n' then expectAll ['u', 'l', 'l']
  else if c = 't' then expectAll ['r', 'u', 'e']
  else if c = 'f' then expectAll ['a', 'l', 's', 'e']
  else if c = '"' then skipString
  else if c = '-' then skipNumber
  else if c.isDigit then fun cs => skipNumber (c :: cs)
  else throw .malformed

/-- A value in which at most `depth` containers nest. -/
def skipUpTo : (depth : Nat) → Reader Unit
  | 0 => do blanks; skipScalar
  | depth + 1 => do
    blanks
    let c ← peek?
    if c = some '[' then
      drop
      let _ ← elements (skipUpTo depth)
    else if c = some '\x7b' then
      drop
      let _ ← members (member skipString (skipUpTo depth))
    else skipScalar

/-- A value of any depth: no text nests deeper than it is long. -/
def skip : Reader Unit :=
  fun cs => skipUpTo cs.length cs

end Reader

end Json

end ResponseSchema
