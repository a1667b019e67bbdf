/-
  Types — the schema that was attached last.

  Attaching a schema writes it under the schema key, where an entry may stand
  already; reading takes the first object under any key that begins and ends as that
  one does.

  * `NamedType.earlier?`: what is read before the schema key is reached;
  * `attached?_withSchema`: so a schema that has just been attached is read unless
    something earlier is;
  * `Context`: a place in a type inside arrays and unions, and the schema there as a
    part of the whole (`schema_fill`);
  * `resolve_withSchema`: what is read is the schema of the name, and its part in
    every type around it.
-/
import ResponseSchema.Proofs.Ty.Phases

namespace ResponseSchema

namespace NamedType

/-- The schema that is read from the metadata before the schema key, all of it if the key is not
    there. -/
def earlier? (n : NamedType) : Option Json :=
  attachedSchema? (n.metadata.takeWhile fun e => e.1 ≠ schemaKey)

end NamedType

theorem NamedType.attached?_withSchema (n : NamedType) (s : Schema) :
    (n.withSchema s.toJson).attached? = some (n.earlier?.getD s.toJson) :=
  attachedSchema?_insert_eq s n.metadata

namespace Ty

/-! ## A place in a type -/

/-- A type with a place for another one, inside arrays and unions. -/
inductive Context where
  | place
  | array (inner : Context)
  | union (before : List Ty) (inner : Context) (after : List Ty)

/-- The type with another one in the place. -/
def Context.fill (t : Ty) : Context → Ty
  | place => t
  | array inner => .array (inner.fill t)
  | union before inner after => .union (before ++ inner.fill t :: after)

/-- Members that all have a schema, as one: a single member needs no alternatives. -/
def joined : List Schema → Schema
  | [s] => s
  | ss => .ofAlternatives ss

/-- The schema of the whole, given the schema in the place. -/
def Context.schema (phase : Phase) (atPlace : Except SchemaError Schema) :
    Context → Except SchemaError Schema
  | place => atPlace
  | array inner => (inner.schema phase atPlace).map .arrayOf
  | union before inner after => do
    let ss ← before.mapM (Ty.schema phase)
    let s ← inner.schema phase atPlace
    let ts ← after.mapM (Ty.schema phase)
    pure (joined (ss ++ s :: ts))

theorem joinMembers_append_cons (t : Ty) (ss : List Schema) (s : Schema) (ts : List Schema) :
    joinMembers t (ss ++ s :: ts) = .ok (joined (ss ++ s :: ts)) := by
  rcases ss with _ | ⟨_, _ | _⟩ <;> rcases ts with _ | _ <;> rfl

theorem expandAll_eq_mapM (phase : Phase) (enclosing : List String) (ts : List Ty) :
    expandAll phase enclosing ts = ts.mapM (expand phase enclosing) := by
  induction ts with
  | nil => rfl
  | cons t ts ih => rw [expandAll, ih, List.mapM_cons]; rfl

/-- **The schema of a type in its context is that of the context around its own.** -/
theorem schema_fill (phase : Phase) (t : Ty) (c : Context) :
    (c.fill t).schema phase = c.schema phase (t.schema phase) := by
  induction c with
  | place => rfl
  | array inner ih =>
    rw [Context.fill, Context.schema, ← ih, schema_eq_expand, schema_eq_expand, expand]
  | union before inner after ih =>
    have hexpand : Ty.schema phase = expand phase [] := funext (schema_eq_expand phase)
    rw [Context.fill, Context.schema, ← ih, hexpand, expand, expandAll_eq_mapM, List.mapM_append,
      List.mapM_cons]
    cases before.mapM (expand phase []) with
    | error e => rfl
    | ok ss =>
      cases expand phase [] (inner.fill t) with
      | error e => rfl
      | ok s =>
        cases after.mapM (expand phase []) with
        | error e => rfl
        | ok ts => exact joinMembers_append_cons _ ss s ts

/-! ## Attaching a schema -/

/-- **A schema that is attached to a name is the one that is resolved unless an earlier one is
    read**, and so it is in every type around the name. -/
theorem resolve_withSchema (n : NamedType) (s : Schema) :
    let answer := n.earlier?.elim (.ok s) Schema.read
    (n.withSchema s.toJson).toTy.resolve = answer.map Resolution.attached ∧
      ∀ (phase : Phase) (c : Context),
        (c.fill (n.withSchema s.toJson).toTy).schema phase = c.schema phase answer := by
  intro answer
  have hread : Schema.read (n.earlier?.getD s.toJson) = answer := by
    change _ = n.earlier?.elim (.ok s) Schema.read
    cases n.earlier? with
    | none => exact Schema.read_toJson s
    | some v => rfl
  constructor
  · have hattached : (n.withSchema s.toJson).toTy.asNamed?.bind NamedType.attached? =
        some (n.earlier?.getD s.toJson) :=
      n.attached?_withSchema s
    rw [resolve, hattached]
    exact congrArg (Except.map Resolution.attached) hread
  · intro phase c
    have hattached := n.attached?_withSchema s
    rw [schema_fill, ← hread, schema_eq_expand]
    exact congrArg (c.schema phase) (expand_named_of_attached hattached phase)

/-- A schema under a key with a version in it was there before, and stays the one that is
    resolved. -/
theorem resolve_withSchema_versioned :
    let n : NamedType := ⟨"Person", json, [("ballerina/ai:1:JsonSchema",
      (Schema.ofKind .object).toJson)]⟩
    let t := (n.withSchema (Schema.ofKind .string).toJson).toTy
    t.resolve = .ok (.attached (.ofKind .object)) ∧
      t.resolve ≠ .ok (.attached (.ofKind .string)) ∧
      (array t).schema .runtime = .ok (.arrayOf (.ofKind .object)) := by
  intro n t
  have hresolve : t.resolve = .ok (.attached (.ofKind .object)) := rfl
  refine ⟨hresolve, ?_, rfl⟩
  simp [hresolve, Schema.ofKind]

end Ty

end ResponseSchema
