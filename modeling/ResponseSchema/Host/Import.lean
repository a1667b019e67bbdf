/-
  Host — modules and their imports.

  An `Import` names a module by organisation and path, and binds it to an alias
  of its own or else to the last segment of the path.

  `modulePath_ofPath`: an import made from a path has that path, so it refers to
  the module it was made for (`refersTo_ofModule`).
-/
import ResponseSchema.Settings.Basic

namespace ResponseSchema

/-- A module with the version it was resolved to. -/
structure ModuleId where
  org : String
  name : String
  version : String
  deriving DecidableEq

/-- The declaration that makes a module available in a document. -/
structure Import where
  org : Option String
  /-- The segments of the module path. -/
  segments : List String
  /-- The name given to the module in the document. -/
  alias? : Option String := none
  /-- The version that the host resolved, if it is known. -/
  version? : Option String := none
  deriving DecidableEq

namespace Import

/-- The segments between the points of a path; one more than there are points. -/
def splitPath : List Char → List (List Char)
  | [] => [[]]
  | c :: cs =>
    if c = '.' then [] :: splitPath cs
    else
      match splitPath cs with
      | [] => [[c]]
      | s :: ss => (c :: s) :: ss

/-- The segments with points between them. -/
def joinPath : List (List Char) → List Char
  | [] => []
  | [s] => s
  | s :: ss => s ++ '.' :: joinPath ss

theorem splitPath_ne_nil (cs : List Char) : splitPath cs ≠ [] := by
  cases cs with
  | nil => simp [splitPath]
  | cons c cs =>
    rw [splitPath]
    split
    · simp
    · split <;> simp

theorem joinPath_splitPath (cs : List Char) : joinPath (splitPath cs) = cs := by
  induction cs with
  | nil => rfl
  | cons c cs ih =>
    rw [splitPath]
    split
    · next h =>
      subst h
      cases hs : splitPath cs with
      | nil => exact absurd hs (splitPath_ne_nil cs)
      | cons s ss => simp_all [joinPath]
    · cases hs : splitPath cs with
      | nil => exact absurd hs (splitPath_ne_nil cs)
      | cons s ss =>
        rw [hs] at ih
        cases ss with
        | nil => simp_all [joinPath]
        | cons t ts => simp_all [joinPath]

/-- The import of a module path. -/
def ofPath (org path : String) : Import where
  org := some org
  segments := (splitPath path.toList).map String.ofList

/-- The import of a module. -/
def ofModule (m : ModuleRef) : Import :=
  ofPath m.org m.name

/-- The path of the module. -/
def modulePath (i : Import) : String :=
  String.ofList (joinPath (i.segments.map String.toList))

/-- Whether the import is of the given module. -/
def refersTo (i : Import) (m : ModuleRef) : Bool :=
  i.org = some m.org ∧ i.modulePath = m.name

/-- The name that the module has in the document without an alias. -/
def implicitAlias? (i : Import) : Option String :=
  i.segments.getLast?

/-- The import as the host writes it. -/
def display (i : Import) : String :=
  let org := match i.org with
    | some org => org ++ "/"
    | none => ""
  let binding := match i.alias? with
    | some name => " as " ++ name
    | none => ""
  "import " ++ org ++ i.modulePath ++ binding ++ ";"

@[simp] theorem modulePath_ofPath (org path : String) : (ofPath org path).modulePath = path := by
  simp [modulePath, ofPath, Function.comp_def, joinPath_splitPath]

@[simp] theorem refersTo_ofModule (m : ModuleRef) : (ofModule m).refersTo m = true := by
  simp [refersTo, ofModule]
  simp [ofPath]

end Import

end ResponseSchema
