/-!
# Caches of compiled patterns

A cache keeps values by the text of their pattern.  It is bounded by the total length of the texts
in bytes: a value put while the total is over the limit first drives out entries until about a
tenth of the limit is free.

In which order entries are driven out is left open.  `put` is given the order, and `putOldest` takes
the order in which the texts came in.
-/

namespace SeriesQuery
namespace Pattern

/-- Values by the text of their pattern, with counts of how they were asked for. -/
structure Cache (α : Type) where
  /-- The entries; no text occurs twice. -/
  entries : List (String × α)
  /-- The total length of the texts in bytes. -/
  size : Nat
  /-- The total length beyond which entries are driven out. -/
  limit : Nat
  requests : Nat
  misses : Nat

namespace Cache

variable {α : Type}

/-- An empty cache. -/
def empty (limit : Nat) : Cache α :=
  ⟨[], 0, limit, 0, 0⟩

/-- The value for a text, if there is one. -/
def find? (c : Cache α) (key : String) : Option α :=
  (c.entries.find? fun e => e.1 == key).map (·.2)

/-- The texts of the entries. -/
def keys (c : Cache α) : List String :=
  c.entries.map (·.1)

/-- Asks for a value, and counts that. -/
def get (c : Cache α) (key : String) : Option α × Cache α :=
  let found := c.find? key
  (found, { c with
    requests := c.requests + 1
    misses := if found.isSome then c.misses else c.misses + 1 })

/-- The cache without the entry for a text. -/
def erase (c : Cache α) (key : String) : Cache α :=
  { c with
    entries := c.entries.filter fun e => e.1 != key
    size := c.size - key.utf8ByteSize }

/-- Drives out the entries in the given order, until texts of `room` bytes are gone. -/
def evict (c : Cache α) (room : Nat) : List String → Cache α
  | [] => c
  | key :: rest =>
      if room ≤ key.utf8ByteSize then c.erase key
      else (c.erase key).evict (room - key.utf8ByteSize) rest

/-- Puts the value for a text in, in place of the one that there may be. -/
def insert (c : Cache α) (key : String) (value : α) : Cache α :=
  if (c.find? key).isSome then
    { c with entries := c.entries.map fun e => if e.1 == key then (key, value) else e }
  else
    { c with
      entries := c.entries ++ [(key, value)]
      size := c.size + key.utf8ByteSize }

/-- Puts a value in.  If the cache is over its limit, entries are driven out in the given order. -/
def put (c : Cache α) (order : List String) (key : String) (value : α) : Cache α :=
  if c.limit < c.size then (c.evict (c.limit / 10) order).insert key value
  else c.insert key value

/-- Puts a value in, driving out the oldest entries. -/
def putOldest (c : Cache α) (key : String) (value : α) : Cache α :=
  c.put c.keys key value

/-- The cache without entries; the counts go on. -/
def clear (c : Cache α) : Cache α :=
  { c with entries := [], size := 0 }

end Cache

end Pattern
end SeriesQuery
