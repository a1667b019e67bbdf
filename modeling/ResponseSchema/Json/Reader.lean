/-
  Json — reading values.

  `Json.read` reads a whole text.  At most 127 containers may nest; the 128th
  is refused where it opens.  In an object the last value of a name counts, at
  the position of its first.

  `Json.Reader.value` takes the number of containers that may still open and
  recurses on it.
-/
import ResponseSchema.Json.Numeral

namespace ResponseSchema

namespace Json

namespace Reader

variable {α : Type}

/-- What follows an element: a comma and the next one, or the closing bracket. -/
def nextElement? (item : Reader α) : Reader (Option α) := do
  blanks
  let c ← next
  if c = ',' then some <$> item
  else if c = ']' then pure none
  else throw .malformed

/-- The elements of an array after its opening bracket. -/
def elements (item : Reader α) : Reader (List α) := do
  blanks
  match ← peek? with
  | none => throw .truncated
  | some c =>
    if c = ']' then
      drop
      pure []
    else
      let a ← item
      let as ← many (nextElement? item)
      pure (a :: as)

/-- A member of an object: name, colon, value. -/
def member {β : Type} (name : Reader α) (item : Reader β) : Reader (α × β) := do
  expect '"'
  let n ← name
  blanks
  expect ':'
  let v ← item
  pure (n, v)

/-- What follows a member: a comma and the next one, or the closing bracket. -/
def nextMember? (entry : Reader α) : Reader (Option α) := do
  blanks
  let c ← next
  if c = ',' then
    blanks
    some <$> entry
  else if c = '\x7d' then pure none
  else throw .malformed

/-- The members of an object after its opening bracket. -/
def members (entry : Reader α) : Reader (List α) := do
  blanks
  match ← peek? with
  | none => throw .truncated
  | some c =>
    if c = '\x7d' then
      drop
      pure []
    else
      let m ← entry
      let ms ← many (nextMember? entry)
      pure (m :: ms)

/-- A value without containers; other characters are malformed at the start of one. -/
def scalar : Reader Json := do
  let c ← next
  if c = 'n' then
    expectAll ['u', 'l', 'l']
    pure .null
  else if c = 't' then
    expectAll ['r', 'u', 'e']
    pure (.bool true)
  else if c = 'f' then
    expectAll ['a', 'l', 's', 'e']
    pure (.bool false)
  else if c = '"' then .string <$> stringRest
  else if c = '-' then .number <$> number true
  else if c.isDigit then fun cs => (.number <$> number false).run (c :: cs)
  else throw .malformed

/-- A value in which at most `depth` containers nest. -/
def value : (depth : Nat) → Reader Json
  | 0 => do blanks; scalar
  | depth + 1 => do
    blanks
    let c ← peek?
    if c = some '[' then
      drop
      .array <$> elements (value depth)
    else if c = some '\x7b' then
      drop
      (fun ms => .object (Entries.ofList ms)) <$> members (member stringRest (value depth))
    else scalar

end Reader

/-- The number of containers that may nest in a text. -/
def maxDepth : Nat := 127

/-- Read a whole text as one value.  No name of an object is special.  The private key for raw
    values is left out: an object where it comes first, with a string that is to be read in place
    of the object, is read like any other. -/
def read (text : String) : Except Fault Json :=
  (Reader.value maxDepth).readAll text

end Json

end ResponseSchema
