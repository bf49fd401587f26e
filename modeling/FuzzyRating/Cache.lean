import FuzzyRating.Catalog.Json

/-!
A cache of results with a bounded number of entries, each of which is served for a limited time.

The entries stand in the order in which they were last stored or served. The first one makes room
for a new one. Times are in milliseconds and are given by the caller. They may run backwards.
-/

namespace FuzzyRating

/-- The key of a result: the name of the interpretation and the subject's data in the order of their
keys, with a separator between them that JSON never contains. -/
def cacheKey (name : String) (data : PropertyData Float) : String :=
  name ++ "\x1f" ++ data.toJson.compact

structure CacheEntry (alpha : Type) where
  key : String
  value : alpha
  storedAt : Nat
  /-- How often the entry was served since it was stored. -/
  hits : Nat
  deriving Repr

structure Cache (alpha : Type) where
  /-- The entries, least recently used first. -/
  entries : List (CacheEntry alpha)
  maxSize : Nat
  /-- For how long an entry is served. -/
  ttl : Nat
  hits : Nat
  misses : Nat
  /-- Entries that made room for others. -/
  evictions : Nat
  /-- Entries that were too old. -/
  expirations : Nat
  deriving Repr

/-- The counters of a cache. -/
structure CacheStats where
  hits : Nat
  misses : Nat
  evictions : Nat
  expirations : Nat
  size : Nat
  maxSize : Nat
  /-- The part of all look-ups that found something. -/
  hitRate : Float

namespace Cache

variable {alpha : Type}

def empty (maxSize ttl : Nat) : Cache alpha :=
  ⟨[], maxSize, ttl, 0, 0, 0, 0⟩

/-- The age of an entry. One stored later than `now` has none. -/
def age (entry : CacheEntry alpha) (now : Nat) : Nat :=
  now - entry.storedAt

def isExpired (cache : Cache alpha) (entry : CacheEntry alpha) (now : Nat) : Bool :=
  cache.ttl ≤ age entry now

/-- The entry of a key. Looking at it changes nothing. -/
def peek? (cache : Cache alpha) (key : String) : Option (CacheEntry alpha) :=
  cache.entries.find? (·.key == key)

/-- The entries of other keys. -/
def others (cache : Cache alpha) (key : String) : List (CacheEntry alpha) :=
  cache.entries.filter (·.key != key)

/-- Serves the result of a key. An entry that is too old is dropped. -/
def get (cache : Cache alpha) (key : String) (now : Nat) : Option alpha × Cache alpha :=
  match cache.peek? key with
  | none => (none, { cache with misses := cache.misses + 1 })
  | some entry =>
      if cache.isExpired entry now then
        (none, { cache with
          entries := cache.others key
          misses := cache.misses + 1
          expirations := cache.expirations + 1 })
      else
        (some entry.value, { cache with
          entries := cache.others key ++ [{ entry with hits := entry.hits + 1 }]
          hits := cache.hits + 1 })

/-- Stores a result, in place of the one that the key had. In a full cache the least recently used
entry makes room. -/
def set (cache : Cache alpha) (key : String) (value : alpha) (now : Nat) : Cache alpha :=
  let others := cache.others key
  let entry : CacheEntry alpha := ⟨key, value, now, 0⟩
  if cache.maxSize = 0 then
    cache
  else if others.length < cache.maxSize then
    { cache with entries := others ++ [entry] }
  else
    { cache with
      entries := others.drop 1 ++ [entry]
      evictions := cache.evictions + 1 }

/-- Keeps the entries whose age is below the limit, and says how many are dropped. -/
def prune (cache : Cache alpha) (now : Nat) : Nat × Cache alpha :=
  let kept := cache.entries.filter fun entry => age entry now < cache.ttl
  let count := cache.entries.length - kept.length
  (count, { cache with entries := kept, expirations := cache.expirations + count })

/-- Drops all entries and starts to count anew. -/
def clear (cache : Cache alpha) : Cache alpha :=
  empty cache.maxSize cache.ttl

def size (cache : Cache alpha) : Nat :=
  cache.entries.length

def stats (cache : Cache alpha) : CacheStats where
  hits := cache.hits
  misses := cache.misses
  evictions := cache.evictions
  expirations := cache.expirations
  size := cache.size
  maxSize := cache.maxSize
  hitRate :=
    if cache.hits + cache.misses = 0 then 0
    else Float.ofNat cache.hits / Float.ofNat (cache.hits + cache.misses)

end Cache

def CacheStats.toJson (stats : CacheStats) : Json.Value :=
  .object [("hits", .natural stats.hits), ("misses", .natural stats.misses),
    ("evictions", .natural stats.evictions), ("expirations", .natural stats.expirations),
    ("size", .natural stats.size), ("maxSize", .natural stats.maxSize),
    ("hitRate", .number stats.hitRate)]

end FuzzyRating
