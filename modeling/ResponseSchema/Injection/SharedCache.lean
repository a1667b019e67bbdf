/-
  Injection — caches with several handles.

  A handle leads to a cache; its clones lead to the same one, so what is
  produced through one of them the others see.  A new handle has a cache of its
  own.  A snapshot is a copy that later requests do not change.
-/
import ResponseSchema.Injection.Cache

namespace ResponseSchema

/-- Some caches and the handles to them, by number. -/
structure SharedCaches where
  caches : List SchemaCache
  /-- For every handle the number of its cache. -/
  handles : List Nat
  deriving DecidableEq

namespace SharedCaches

/-- One handle to one empty cache. -/
def single : SharedCaches :=
  ⟨[⟨[]⟩], [0]⟩

/-- What the cache of a handle holds now. -/
def snapshot? (s : SharedCaches) (handle : Nat) : Option SchemaCache :=
  (s.handles[handle]?).bind (s.caches[·]?)

/-- The text of a name through a handle. -/
def get? (s : SharedCaches) (handle : Nat) (name : String) : Option String :=
  (s.snapshot? handle).bind (·.get? name)

/-- The text of a name through a handle, from `produce` if its cache has none. -/
def fetch? (s : SharedCaches) (handle : Nat) (name : String)
    (produce : Unit → Except SchemaError String) : Option (SchemaCache.Fetched × SharedCaches) := do
  let number ← s.handles[handle]?
  let cache ← s.caches[number]?
  let fetched := cache.fetch name produce
  pure (fetched, { s with caches := s.caches.set number fetched.cache })

/-- One more handle to the cache of a handle. -/
def clone? (s : SharedCaches) (handle : Nat) : Option SharedCaches := do
  let number ← s.handles[handle]?
  pure { s with handles := s.handles ++ [number] }

/-- One more handle, to an empty cache of its own. -/
def fresh (s : SharedCaches) : SharedCaches :=
  ⟨s.caches ++ [⟨[]⟩], s.handles ++ [s.caches.length]⟩

end SharedCaches

end ResponseSchema
