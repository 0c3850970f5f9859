/-!
# Bounded caches

A cache holds a value for each of a limited number of keys. Reading and writing an entry
make it the most recent one, and a new key beyond the limit takes the place of the least
recent one. The queue of recency is kept beside the entries.
-/

namespace LogQuery

structure BoundedCache (κ ν : Type) where
  capacity : Nat
  entries : List (κ × ν) := []
  /-- The keys from the least to the most recent. -/
  recency : List κ := []
  deriving Repr

namespace BoundedCache

variable {κ ν : Type} [DecidableEq κ]

/-- The value of a key among entries. -/
def lookup (key : κ) (entries : List (κ × ν)) : Option ν :=
  (entries.find? fun e => e.1 == key).map Prod.snd

def size (c : BoundedCache κ ν) : Nat := c.entries.length

def isEmpty (c : BoundedCache κ ν) : Bool := c.entries.isEmpty

def contains (c : BoundedCache κ ν) (key : κ) : Bool := (lookup key c.entries).isSome

/-- Makes a key the most recent one, if it is in the queue. -/
def touch (c : BoundedCache κ ν) (key : κ) : BoundedCache κ ν :=
  if c.recency.contains key then { c with recency := c.recency.erase key ++ [key] } else c

/-- The value of a key, and the cache in which it is the most recent one. -/
def get (c : BoundedCache κ ν) (key : κ) : Option ν × BoundedCache κ ν :=
  match lookup key c.entries with
  | some value => (some value, c.touch key)
  | none => (none, c)

/-- Replaces the value of a key. -/
def replace (key : κ) (value : ν) (entries : List (κ × ν)) : List (κ × ν) :=
  entries.map fun e => if e.1 == key then (key, value) else e

/-- Drops the least recent key with its entry. -/
def evict (c : BoundedCache κ ν) : BoundedCache κ ν :=
  match c.recency with
  | [] => c
  | oldest :: rest =>
    { c with entries := c.entries.filter fun e => e.1 != oldest, recency := rest }

/-- Adds a key that the cache does not hold. -/
def add (c : BoundedCache κ ν) (key : κ) (value : ν) : BoundedCache κ ν :=
  let grown := { c with entries := c.entries ++ [(key, value)] }
  let kept := if grown.size > c.capacity then grown.evict else grown
  { kept with recency := kept.recency ++ [key] }

/-- Sets the value of a key and makes it the most recent one. A cache without room stores
nothing. -/
def insert (c : BoundedCache κ ν) (key : κ) (value : ν) : BoundedCache κ ν :=
  if c.capacity = 0 then c
  else if c.contains key then { c with entries := replace key value c.entries }.touch key
  else c.add key value

def clear (c : BoundedCache κ ν) : BoundedCache κ ν := { capacity := c.capacity }

end BoundedCache

end LogQuery
