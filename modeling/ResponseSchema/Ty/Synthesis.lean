/-
  Types — the schema of a type.

  Schemas are made in two phases.  While the host is built, names and records
  are expanded by their structure; at run time only a schema attached to a name
  can answer for it.  In both an attached schema is taken as it is.

  * `synthesize` walks a type and keeps the names it is inside of, so that a
    name that leads back to itself is an error and not a loop;
  * `expand` is the same walk with these names as an argument;
  * `run_synthesize`: the walk leaves the names as it found them, whether it
    fails or not, and yields what `expand` does; hence `schema_eq_expand`.
-/
import ResponseSchema.Dialect.Lowering

namespace ResponseSchema

/-- Who asks for a schema. -/
inductive Phase where
  /-- The build, which expands names and records. -/
  | build
  /-- The running program, which knows attached schemas only. -/
  | runtime
  deriving DecidableEq

/-- The kind of JSON value for a scalar.  Bytes travel as numbers. -/
def Primitive.kind : Primitive → Kind
  | boolean => .boolean
  | int => .integer
  | float | decimal | byte => .number
  | string => .string
  | null => .null

namespace Ty

/-- The schema of a union from those of its members: an empty union has none, a
    single member needs no alternatives. -/
def joinMembers (type : Ty) : List Schema → Except SchemaError Schema
  | [] => .error (.unsupported type)
  | [s] => .ok s
  | ss => .ok (.ofAlternatives ss)

/-! ## The walk -/

/-- A computation that may fail and keeps the names being expanded, innermost first. -/
abbrev Expansion := ExceptT SchemaError (StateM (List String))

namespace Expansion

/-- Go on with a result that is there already. -/
def ofExcept {α : Type} (result : Except SchemaError α) : Expansion α :=
  ExceptT.mk (pure result)

/-- Expand inside a name, which is left again also after a failure. -/
def inside {α : Type} (identifier : String) (expansion : Expansion α) : Expansion α :=
  ExceptT.mk do
    modify (identifier :: ·)
    let result ← expansion.run
    modify List.tail
    pure result

end Expansion

mutual

/-- The schema of a type, keeping the names being expanded. -/
def synthesize (phase : Phase) : Ty → Expansion Schema
  | primitive p => pure (.ofKind p.kind)
  | json => pure .anyJson
  | array element => do
    let items ← synthesize phase element
    pure (.arrayOf items)
  | union ts => do
    let schemas ← synthesizeAll phase ts
    .ofExcept (joinMembers (union ts) schemas)
  | record fields =>
    match phase with
    | .build => do
      let properties ← synthesizeFields phase fields
      pure (.objectOf properties)
    | .runtime => throw (.unsupported (record fields))
  | named identifier referred metadata =>
    match attachedSchema? metadata with
    | some attached => .ofExcept (Schema.read attached)
    | none =>
      match phase with
      | .runtime => throw (.unmapped identifier)
      | .build => do
        if identifier ∈ (← get) then throw (.recursive identifier)
        .inside identifier (synthesize phase referred)
  | error => throw (.unsupported error)
  | other name => throw (.unsupported (other name))

/-- The schemas of several types in order; the first failure ends it. -/
def synthesizeAll (phase : Phase) : List Ty → Expansion (List Schema)
  | [] => pure []
  | t :: ts => do
    let s ← synthesize phase t
    let ss ← synthesizeAll phase ts
    pure (s :: ss)

/-- The schemas of the fields of a record in order; the first failure ends it. -/
def synthesizeFields (phase : Phase) : List (String × Ty) → Expansion (List (String × Schema))
  | [] => pure []
  | (name, t) :: fs => do
    let s ← synthesize phase t
    let ss ← synthesizeFields phase fs
    pure ((name, s) :: ss)

end

/-- The schemas of several types, one after the other in one walk; a failure is
    the answer for its type and does not end the walk. -/
def synthesizeEach (phase : Phase) :
    List Ty → StateM (List String) (List (Except SchemaError Schema))
  | [] => pure []
  | t :: ts => do
    let result ← (synthesize phase t).run
    let results ← synthesizeEach phase ts
    pure (result :: results)

/-- The schema of a type, not inside any name. -/
def schema (phase : Phase) (t : Ty) : Except SchemaError Schema :=
  ((synthesize phase t).run.run []).1

/-! ## The walk without state -/

mutual

/-- The schema of a type inside the given names, innermost first. -/
def expand (phase : Phase) (enclosing : List String) : Ty → Except SchemaError Schema
  | primitive p => .ok (.ofKind p.kind)
  | json => .ok .anyJson
  | array element => (expand phase enclosing element).map .arrayOf
  | union ts => (expandAll phase enclosing ts).bind (joinMembers (union ts))
  | record fields =>
    match phase with
    | .build => (expandFields phase enclosing fields).map .objectOf
    | .runtime => .error (.unsupported (record fields))
  | named identifier referred metadata =>
    match attachedSchema? metadata with
    | some attached => Schema.read attached
    | none =>
      match phase with
      | .runtime => .error (.unmapped identifier)
      | .build =>
        if identifier ∈ enclosing then .error (.recursive identifier)
        else expand phase (identifier :: enclosing) referred
  | error => .error (.unsupported error)
  | other name => .error (.unsupported (other name))

/-- The schemas of several types in order. -/
def expandAll (phase : Phase) (enclosing : List String) : List Ty → Except SchemaError (List Schema)
  | [] => .ok []
  | t :: ts =>
    (expand phase enclosing t).bind fun s =>
      (expandAll phase enclosing ts).map (s :: ·)

/-- The schemas of the fields of a record in order. -/
def expandFields (phase : Phase) (enclosing : List String) :
    List (String × Ty) → Except SchemaError (List (String × Schema))
  | [] => .ok []
  | (name, t) :: fs =>
    (expand phase enclosing t).bind fun s =>
      (expandFields phase enclosing fs).map ((name, s) :: ·)

end

/-! ## The two walks agree -/

theorem Expansion.run_bind_ok {α β : Type} {x : Expansion α} {f : α → Expansion β}
    {names names' : List String} {a : α} (h : x.run.run names = (.ok a, names')) :
    (x >>= f).run.run names = (f a).run.run names' := by
  rw [ExceptT.run_bind, StateT.run_bind, h]; rfl

theorem Expansion.run_bind_error {α β : Type} {x : Expansion α} {f : α → Expansion β}
    {names names' : List String} {e : SchemaError} (h : x.run.run names = (.error e, names')) :
    (x >>= f).run.run names = (.error e, names') := by
  rw [ExceptT.run_bind, StateT.run_bind, h]; rfl

theorem Expansion.run_inside {α : Type} (identifier : String) {x : Expansion α}
    {names : List String} {r : Except SchemaError α}
    (h : x.run.run (identifier :: names) = (r, identifier :: names)) :
    (Expansion.inside identifier x).run.run names = (r, names) := by
  show ((x.run.run (identifier :: names)).1, (x.run.run (identifier :: names)).2.tail) = _
  rw [h]; rfl

mutual

/-- **The walk yields what `expand` does and leaves the names as they were.** -/
theorem run_synthesize (phase : Phase) : ∀ (t : Ty) (names : List String),
    (synthesize phase t).run.run names = (expand phase names t, names)
  | primitive _, _ => rfl
  | json, _ => rfl
  | array element, names => by
    have h := run_synthesize phase element names
    rw [synthesize, expand]
    cases he : expand phase names element with
    | ok s => rw [Expansion.run_bind_ok (he ▸ h)]; rfl
    | error e => rw [Expansion.run_bind_error (he ▸ h)]; rfl
  | union ts, names => by
    have h := run_synthesizeAll phase ts names
    rw [synthesize, expand]
    cases he : expandAll phase names ts with
    | ok s => rw [Expansion.run_bind_ok (he ▸ h)]; rfl
    | error e => rw [Expansion.run_bind_error (he ▸ h)]; rfl
  | record fields, names => by
    have h := run_synthesizeFields phase fields names
    simp only [synthesize, expand]
    cases phase with
    | runtime => rfl
    | build =>
      cases he : expandFields .build names fields with
      | ok s => exact Expansion.run_bind_ok (he ▸ h)
      | error e => exact Expansion.run_bind_error (he ▸ h)
  | named identifier referred metadata, names => by
    have h := run_synthesize phase referred (identifier :: names)
    simp only [synthesize, expand]
    cases attachedSchema? metadata with
    | some v => rfl
    | none =>
      cases phase with
      | runtime => rfl
      | build =>
        refine (Expansion.run_bind_ok rfl).trans ?_
        by_cases hm : identifier ∈ names
        · rw [if_pos hm, if_pos hm]; rfl
        · rw [if_neg hm, if_neg hm]
          exact Expansion.run_inside identifier h
  | error, _ => rfl
  | other _, _ => rfl

theorem run_synthesizeAll (phase : Phase) : ∀ (ts : List Ty) (names : List String),
    (synthesizeAll phase ts).run.run names = (expandAll phase names ts, names)
  | [], _ => rfl
  | t :: ts, names => by
    have h := run_synthesize phase t names
    have hs := run_synthesizeAll phase ts names
    rw [synthesizeAll, expandAll]
    cases he : expand phase names t with
    | error e => rw [Expansion.run_bind_error (he ▸ h)]; rfl
    | ok s =>
      rw [Expansion.run_bind_ok (he ▸ h)]
      cases hes : expandAll phase names ts with
      | ok ss => rw [Expansion.run_bind_ok (hes ▸ hs)]; rfl
      | error e => rw [Expansion.run_bind_error (hes ▸ hs)]; rfl

theorem run_synthesizeFields (phase : Phase) : ∀ (fs : List (String × Ty)) (names : List String),
    (synthesizeFields phase fs).run.run names = (expandFields phase names fs, names)
  | [], _ => rfl
  | (name, t) :: fs, names => by
    have h := run_synthesize phase t names
    have hs := run_synthesizeFields phase fs names
    rw [synthesizeFields, expandFields]
    cases he : expand phase names t with
    | error e => rw [Expansion.run_bind_error (he ▸ h)]; rfl
    | ok s =>
      rw [Expansion.run_bind_ok (he ▸ h)]
      cases hes : expandFields phase names fs with
      | ok ss => rw [Expansion.run_bind_ok (hes ▸ hs)]; rfl
      | error e => rw [Expansion.run_bind_error (hes ▸ hs)]; rfl

end

theorem schema_eq_expand (phase : Phase) (t : Ty) : schema phase t = expand phase [] t := by
  rw [schema, run_synthesize]

end Ty

end ResponseSchema
