/-
  Types — the response of a model call.

  * `leaves` are the members left when unions inside unions are opened;
  * `response?` takes the error types out of the result of a call: what is
    left is the type that a schema has to describe, if anything is;
  * `targets` are the names that a response refers to directly.  A name is a
    leaf, since its own schema covers what it refers to; of several occurrences
    of one identifier the first counts.
-/
import ResponseSchema.Ty.Basic

namespace ResponseSchema

namespace Ty

mutual

/-- The members of a union with the unions among them opened; any other type alone. -/
def leaves : Ty → List Ty
  | union ts => leavesAll ts
  | t => [t]

/-- The leaves of each type in turn. -/
def leavesAll : List Ty → List Ty
  | [] => []
  | t :: ts => leaves t ++ leavesAll ts

end

/-- The union of the given types: none for no type, a single one alone. -/
def unionOf? : List Ty → Option Ty
  | [] => none
  | [t] => some t
  | ts => some (union ts)

/-- What is left of the result of a call without its errors.  A union without an
    error is left as it is. -/
def response? : Ty → Option Ty
  | union ts =>
    let members := leaves (union ts)
    if members.any isError then unionOf? (members.filter fun t => !t.isError)
    else some (union ts)
  | t => if t.isError then none else some t

/-- The names with one more, unless one with its identifier is there. -/
def addTarget (names : List NamedType) (n : NamedType) : List NamedType :=
  if names.any fun m => m.identifier = n.identifier then names else names ++ [n]

mutual

/-- The names with those that a type refers to directly. -/
def collect (names : List NamedType) : Ty → List NamedType
  | named identifier referred metadata => addTarget names ⟨identifier, referred, metadata⟩
  | array element => collect names element
  | union ts => collectAll names ts
  | _ => names

/-- The names with those of each type in turn. -/
def collectAll (names : List NamedType) : List Ty → List NamedType
  | [] => names
  | t :: ts => collectAll (collect names t) ts

end

/-- The names that a response refers to directly, through arrays and unions. -/
def targets (response : Ty) : List NamedType :=
  collect [] response

end Ty

end ResponseSchema
