/-
  Json — reading values of a given shape.

  Where the shape is known, a text is read into it directly and the first fault
  counts: a value of the wrong shape is mismatched where it starts (`mismatch`),
  a repeated field right after its name (`once`), a missing one at the end of its
  object (`required`).

  `structured` reads a record of fields in either of its two forms, an object by
  names (`foldMembers`) or an array by positions (`element?`).
-/
import ResponseSchema.Json.Skip

namespace ResponseSchema

namespace Json

namespace Reader

variable {α σ : Type}

/-- Fail on a value of the wrong shape.  A container has it where it opens; any
    other value has to be read first and may be faulty itself. -/
def mismatch : Reader α := do
  let c ← peek?
  if c = some '[' ∨ c = some '\x7b' then throw .mismatched
  let _ ← scalar
  throw .mismatched

/-- A string value. -/
def text : Reader String := do
  blanks
  if (← peek?) = some '"' then
    drop
    stringRest
  else mismatch

/-- Go on from `s` by `step`, at most `n` times, until it yields nothing. -/
def foldUpTo (step : σ → Reader (Option σ)) : Nat → σ → Reader σ
  | 0, _ => throw .truncated
  | n + 1, s => do
    match ← step s with
    | none => pure s
    | some s' => foldUpTo step n s'

/-- Go on from `s` by `step`, which takes a character at least, until it yields nothing. -/
def fold (step : σ → Reader (Option σ)) (s : σ) : Reader σ :=
  fun cs => foldUpTo step (cs.length + 1) s cs

/-- The colon after a name and the value after the colon. -/
def valued (item : Reader α) : Reader α := do
  blanks
  expect ':'
  item

/-- The name of a member, then what `field` reads after it. -/
def namedField (field : σ → String → Reader σ) (s : σ) : Reader σ := do
  expect '"'
  let name ← stringRest
  field s name

/-- The members of an object after its opening bracket, one by one. -/
def foldMembers (field : σ → String → Reader σ) (s : σ) : Reader σ := do
  blanks
  match ← peek? with
  | none => throw .truncated
  | some c =>
    if c = '\x7d' then
      drop
      pure s
    else
      let s ← namedField field s
      fold (fun s => nextMember? (namedField field s)) s

/-- The next element of an array, if there is one; `first` if none came before. -/
def element? (first : Bool) (item : Reader α) : Reader (Option α) := do
  blanks
  match ← peek? with
  | none => throw .truncated
  | some c =>
    if c = ']' then pure none
    else if first then some <$> item
    else
      if c ≠ ',' then throw .malformed
      drop
      some <$> item

/-- The closing bracket of an array. -/
def closeArray : Reader Unit := do
  blanks
  expect ']'

/-- An object read by the names of its members, or an array read by positions. -/
def structured (byName byPosition : Reader α) : Reader α := do
  blanks
  let c ← peek?
  if c = some '\x7b' then
    drop
    byName
  else if c = some '[' then
    drop
    let a ← byPosition
    closeArray
    pure a
  else mismatch

/-- A field that must not have been read before. -/
def once (seen : Option α) (item : Reader α) : Reader (Option α) := do
  if seen.isSome then throw .mismatched
  some <$> valued item

/-- A field that must have been read. -/
def required (field : Option α) : Reader α :=
  match field with
  | some a => pure a
  | none => throw .mismatched

end Reader

end Json

end ResponseSchema
