/-
  Types — types as the host writes them.

  The members of a union are joined by bars, and `[]` after an element makes an
  array; only a union of two or more members needs parentheses before `[]`.
  A name is written without what it refers to.
-/
import ResponseSchema.Ty.Basic

namespace ResponseSchema

/-- The name of a scalar type. -/
def Primitive.display : Primitive → List Char
  | boolean => "boolean".toList
  | int => "int".toList
  | float => "float".toList
  | decimal => "decimal".toList
  | string => "string".toList
  | byte => "byte".toList
  | null => "()".toList

namespace Ty

/-- Whether bars stand at the top of the written type. -/
def hasBars : Ty → Bool
  | union (_ :: _ :: _) => true
  | _ => false

mutual

/-- The characters of a written type. -/
def render : Ty → List Char
  | primitive p => p.display
  | json => "json".toList
  | array element =>
    if element.hasBars then '(' :: (render element ++ [')', '[', ']'])
    else render element ++ ['[', ']']
  | union [] => "never".toList
  | union (t :: ts) => render t ++ renderMembers ts
  | record fields => "record \x7b".toList ++ (renderFields fields ++ [' ', '\x7d'])
  | named identifier _ _ => identifier.toList
  | error => "error".toList
  | other name => name.toList

/-- The members after the first, each after a bar. -/
def renderMembers : List Ty → List Char
  | [] => []
  | t :: ts => '|' :: (render t ++ renderMembers ts)

/-- The fields, each after a blank: type, name, semicolon. -/
def renderFields : List (String × Ty) → List Char
  | [] => []
  | (name, t) :: fs => ' ' :: (render t ++ (' ' :: (name.toList ++ (';' :: renderFields fs))))

end

theorem render_array (element : Ty) : (array element).render =
    if element.hasBars then '(' :: (element.render ++ [')', '[', ']'])
    else element.render ++ ['[', ']'] := rfl

theorem render_union_cons (t : Ty) (ts : List Ty) :
    (union (t :: ts)).render = t.render ++ renderMembers ts := rfl

theorem render_record (fields : List (String × Ty)) : (record fields).render =
    "record \x7b".toList ++ (renderFields fields ++ [' ', '\x7d']) := rfl

/-- A written type. -/
def display (t : Ty) : String :=
  String.ofList t.render

end Ty

end ResponseSchema
