/-
  Json — compact text.

  `Json.render` writes a value without blanks, the members of an object in
  their order.  In strings only the quote, the backslash and the control
  characters below U+0020 are escaped (`escapeChar`), five of these by a
  letter and the others by four lower-case hexadecimal digits.
-/
import ResponseSchema.Json.Basic

namespace ResponseSchema

namespace Json

/-- A hexadecimal digit in lower case. -/
def hexDigit (n : Nat) : Char :=
  Nat.digitChar n

/-- A character as it stands between the quotes of a string. -/
def escapeChar (c : Char) : List Char :=
  if c = '"' then ['\\', '"']
  else if c = '\\' then ['\\', '\\']
  else if c = '\x08' then ['\\', 'b']
  else if c = '\x0c' then ['\\', 'f']
  else if c = '\n' then ['\\', 'n']
  else if c = '\r' then ['\\', 'r']
  else if c = '\t' then ['\\', 't']
  else if c.toNat < 0x20 then
    ['\\', 'u', '0', '0', hexDigit (c.toNat / 16), hexDigit (c.toNat % 16)]
  else [c]

/-- The characters of a string, each escaped. -/
def escape (s : List Char) : List Char :=
  s.flatMap escapeChar

/-- A string between quotes. -/
def quote (s : String) : List Char :=
  '"' :: (escape s.toList ++ ['"'])

/-- A number: integers without a point, binary numbers with one or with an exponent. -/
def renderNumber : Number → List Char
  | .integer n => if n < 0 then '-' :: decimalText n.natAbs else decimalText n.natAbs
  | .float x => x.text

mutual

/-- The compact text of a value. -/
def render : Json → List Char
  | null => ['n', 'u', 'l', 'l']
  | bool true => ['t', 'r', 'u', 'e']
  | bool false => ['f', 'a', 'l', 's', 'e']
  | number n => renderNumber n
  | string s => quote s
  | array [] => ['[', ']']
  | array (v :: vs) => '[' :: (render v ++ renderElements vs)
  | object [] => ['\x7b', '\x7d']
  | object ((name, v) :: ms) => '\x7b' :: (quote name ++ ':' :: (render v ++ renderMembers ms))

/-- The elements after the first, up to the closing bracket. -/
def renderElements : List Json → List Char
  | [] => [']']
  | v :: vs => ',' :: (render v ++ renderElements vs)

/-- The members after the first, up to the closing bracket. -/
def renderMembers : List (String × Json) → List Char
  | [] => ['\x7d']
  | (name, v) :: ms => ',' :: (quote name ++ ':' :: (render v ++ renderMembers ms))

end

/-- The compact text of a value, as a string. -/
def compact (v : Json) : String :=
  String.ofList v.render

end Json

end ResponseSchema
