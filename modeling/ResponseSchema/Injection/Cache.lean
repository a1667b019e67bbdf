/-
  Injection — the schema texts of one build.

  A `SchemaCache` keeps one text a name, in the order in which the names got
  theirs.  The first text wins: later requests neither replace it nor run their
  producer.  A producer that fails leaves nothing behind.
-/
import ResponseSchema.SchemaError

namespace ResponseSchema

/-- Schema texts by the name of the type. -/
structure SchemaCache where
  entries : Entries String := []
  deriving DecidableEq

namespace SchemaCache

/-- The text of a name. -/
def get? (c : SchemaCache) (name : String) : Option String :=
  c.entries.lookup name

/-- Whether a name has a text. -/
def contains (c : SchemaCache) (name : String) : Bool :=
  (c.get? name).isSome

/-- The number of texts. -/
def size (c : SchemaCache) : Nat :=
  c.entries.length

/-- Whether there is no text. -/
def isEmpty (c : SchemaCache) : Bool :=
  c.entries.isEmpty

/-- The answer to a request, and what it did. -/
structure Fetched where
  answer : Except SchemaError String
  /-- Whether the producer ran. -/
  produced : Bool
  cache : SchemaCache

/-- The text of a name, from `produce` if it has none yet. -/
def fetch (c : SchemaCache) (name : String) (produce : Unit → Except SchemaError String) :
    Fetched :=
  match c.get? name with
  | some text => ⟨.ok text, false, c⟩
  | none =>
    match produce () with
    | .ok text => ⟨.ok text, true, ⟨c.entries ++ [(name, text)]⟩⟩
    | .error e => ⟨.error e, true, c⟩

/-- Whether two caches have the same texts, in whatever order. -/
def sameEntries (c d : SchemaCache) : Bool :=
  c.size = d.size ∧ c.entries.all fun e => d.get? e.1 = some e.2

end SchemaCache

end ResponseSchema
