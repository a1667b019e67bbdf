/-
  Json — the value type.

  Objects are lists of members in their order.  Readers build them without
  repeated names (`Entries.Distinct`); the type admits every list, so that no
  function on values has to carry the proof along.

  * `Json.get?` looks up a member;
  * `Json.depth` counts the containers around the innermost value;
  * `Json.same` decides equality (`same_iff`).
-/
import ResponseSchema.Entries
import ResponseSchema.Json.Shortest

namespace ResponseSchema

/-- A JSON number: an integer of at most 64 bits, or a binary number. -/
inductive Number where
  | integer (value : Int)
  | float (value : Binary64)
  deriving DecidableEq

/-- A JSON value. -/
inductive Json where
  | null
  | bool (value : Bool)
  | number (value : Number)
  | string (value : String)
  | array (elements : List Json)
  | object (members : List (String × Json))

namespace Json

instance : Inhabited Json := ⟨null⟩

/-- The first member called `name`, if the value is an object that has one. -/
def get? (name : String) : Json → Option Json
  | object members => members.lookup name
  | _ => none

/-- Whether the value is an object. -/
def isObject : Json → Bool
  | object _ => true
  | _ => false

/-! ## Nesting -/

mutual

/-- The number of containers on the longest way inwards. -/
def depth : Json → Nat
  | null | bool _ | number _ | string _ => 0
  | array elements => depthElements elements + 1
  | object members => depthMembers members + 1

/-- The greatest depth of an element. -/
def depthElements : List Json → Nat
  | [] => 0
  | v :: vs => max (depth v) (depthElements vs)

/-- The greatest depth of a member. -/
def depthMembers : List (String × Json) → Nat
  | [] => 0
  | (_, v) :: ms => max (depth v) (depthMembers ms)

end

/-! ## Equality -/

mutual

/-- Whether two values are the same, members in the same order. -/
def same : Json → Json → Bool
  | null, null => true
  | bool a, bool b => a == b
  | number a, number b => decide (a = b)
  | string a, string b => a == b
  | array vs, array ws => sameElements vs ws
  | object ms, object ns => sameMembers ms ns
  | _, _ => false

/-- `same`, element by element. -/
def sameElements : List Json → List Json → Bool
  | [], [] => true
  | v :: vs, w :: ws => same v w && sameElements vs ws
  | _, _ => false

/-- `same`, member by member with equal names. -/
def sameMembers : List (String × Json) → List (String × Json) → Bool
  | [], [] => true
  | (m, v) :: ms, (n, w) :: ns => m == n && same v w && sameMembers ms ns
  | _, _ => false

end

mutual

theorem same_iff : ∀ v w : Json, same v w = true ↔ v = w
  | null, w => by cases w <;> simp [same]
  | bool _, w => by cases w <;> simp [same]
  | number _, w => by cases w <;> simp [same]
  | string _, w => by cases w <;> simp [same]
  | array vs, w => by cases w <;> simp [same, sameElements_iff vs]
  | object ms, w => by cases w <;> simp [same, sameMembers_iff ms]

theorem sameElements_iff : ∀ vs ws : List Json, sameElements vs ws = true ↔ vs = ws
  | [], ws => by cases ws <;> simp [sameElements]
  | v :: vs, ws => by cases ws <;> simp [sameElements, same_iff v, sameElements_iff vs]

theorem sameMembers_iff : ∀ ms ns : List (String × Json), sameMembers ms ns = true ↔ ms = ns
  | [], ns => by cases ns <;> simp [sameMembers]
  | (m, v) :: ms, ns => by
    cases ns <;> simp [sameMembers, Prod.ext_iff, same_iff v, sameMembers_iff ms]

end

instance : DecidableEq Json := fun v w => decidable_of_iff _ (same_iff v w)

end Json

end ResponseSchema
