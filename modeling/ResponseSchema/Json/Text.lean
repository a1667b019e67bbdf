/-
  Json — reading text: faults, blanks, fixed words and strings.

  A `Reader` takes characters off the front of a text.  It fails with one of
  three faults: the text ended too early, it is no JSON, or it is JSON of the
  wrong shape.  The first fault met is the one reported.

  * `many` runs a reader until it yields nothing;
  * `stringRest` reads a string after its opening quote.  A code point beyond
    U+FFFF is escaped as two surrogates; one that stands alone is malformed.
-/
import ResponseSchema.Json.Basic

namespace ResponseSchema

namespace Json

/-- Why a text does not read. -/
inductive Fault where
  /-- The text ends inside a value. -/
  | truncated
  /-- The text is not JSON, or nests too deep. -/
  | malformed
  /-- The value has the wrong shape for what is read from it. -/
  | mismatched
  deriving DecidableEq

/-- A reader of the characters that are left. -/
abbrev Reader := StateT (List Char) (Except Fault)

namespace Reader

variable {α : Type}

/-- The next character, which stays. -/
def peek? : Reader (Option Char) :=
  fun cs => .ok (cs.head?, cs)

/-- Drop the next character. -/
def drop : Reader Unit :=
  fun cs => .ok ((), cs.tail)

/-- The next character, which there must be. -/
def next : Reader Char
  | [] => .error .truncated
  | c :: cs => .ok (c, cs)

/-- The given character and no other. -/
def expect (c : Char) : Reader Unit := do
  if (← next) ≠ c then throw .malformed

/-- The given characters and no others. -/
def expectAll : List Char → Reader Unit
  | [] => pure ()
  | c :: cs => do expect c; expectAll cs

/-- Whether JSON ignores the character between tokens. -/
def isBlank (c : Char) : Bool :=
  c = ' ' ∨ c = '\t' ∨ c = '\n' ∨ c = '\r'

/-- Drop the blanks at the front. -/
def blanks : Reader Unit :=
  fun cs => .ok ((), cs.dropWhile isBlank)

/-- What `step` yields, at most `n` times, until it yields nothing. -/
def manyUpTo (step : Reader (Option α)) : Nat → Reader (List α)
  | 0 => throw .truncated
  | n + 1 => do
    match ← step with
    | none => pure []
    | some a => do
      let as ← manyUpTo step n
      pure (a :: as)

/-- What `step` yields until it yields nothing.  Each step takes a character at
    least, so the length of the text bounds their number. -/
def many (step : Reader (Option α)) : Reader (List α) :=
  fun cs => manyUpTo step (cs.length + 1) cs

/-- Nothing but blanks may be left. -/
def finish : Reader Unit := do
  blanks
  if (← peek?).isSome then throw .malformed

/-- Read a whole text. -/
def readAll (reader : Reader α) (text : String) : Except Fault α :=
  (do let a ← reader; finish; pure a : Reader α).run' text.toList

/-! ## Strings -/

/-- The value of a hexadecimal digit of either case. -/
def hexValue? (c : Char) : Option Nat :=
  if '0' ≤ c ∧ c ≤ '9' then some (c.toNat - '0'.toNat)
  else if 'a' ≤ c ∧ c ≤ 'f' then some (c.toNat - 'a'.toNat + 10)
  else if 'A' ≤ c ∧ c ≤ 'F' then some (c.toNat - 'A'.toNat + 10)
  else none

/-- Four hexadecimal digits.  The text is too short for them only if it has fewer
    than four bytes left. -/
def hexCode : Reader Nat := fun cs =>
  if (String.ofList (cs.take 4)).utf8ByteSize < 4 then .error .truncated
  else
    match cs with
    | a :: b :: c :: d :: rest =>
      match hexValue? a, hexValue? b, hexValue? c, hexValue? d with
      | some a, some b, some c, some d => .ok (((a * 16 + b) * 16 + c) * 16 + d, rest)
      | _, _, _, _ => .error .malformed
    | _ => .error .malformed

/-- The first of two surrogates. -/
def isLeading (code : Nat) : Bool :=
  0xD800 ≤ code ∧ code ≤ 0xDBFF

/-- The second of two surrogates. -/
def isTrailing (code : Nat) : Bool :=
  0xDC00 ≤ code ∧ code ≤ 0xDFFF

/-- The character that four digits, or two surrogates of four digits each, stand for. -/
def codedChar : Reader Char := do
  let first ← hexCode
  if isTrailing first then throw .malformed
  if isLeading first then
    expectAll ['\\', 'u']
    let second ← hexCode
    if !isTrailing second then throw .malformed
    pure (Char.ofNat ((first - 0xD800) * 0x400 + (second - 0xDC00) + 0x10000))
  else pure (Char.ofNat first)

/-- The character that a letter after a backslash stands for. -/
def shortEscape? : Char → Option Char
  | '"' => some '"'
  | '\\' => some '\\'
  | '/' => some '/'
  | 'b' => some '\x08'
  | 'f' => some '\x0c'
  | 'n' => some '\n'
  | 'r' => some '\r'
  | 't' => some '\t'
  | _ => none

/-- One character of a string, or nothing at the closing quote. -/
def stringChar? : Reader (Option Char) := do
  let c ← next
  if c = '"' then pure none
  else if c = '\\' then
    let e ← next
    if e = 'u' then some <$> codedChar
    else
      match shortEscape? e with
      | some c => pure (some c)
      | none => throw .malformed
  else if c.toNat < 0x20 then throw .malformed
  else pure (some c)

/-- A string after its opening quote. -/
def stringRest : Reader String :=
  String.ofList <$> many stringChar?

end Reader

end Json

end ResponseSchema
