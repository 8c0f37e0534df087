import Arborist.Engine.Basic
import Arborist.Settings.Basic

/-!
A cache of parsed trees.  An entry belongs to a language, a path and the time of the file's last
change.  The size of the cache is the number of source bytes in it; when a new source would exceed
the limit, the oldest entries go first.
-/

namespace Arborist

structure CacheEntry where
  key : String
  tree : Tree
  source : ByteArray
  stamp : Binary64
deriving Inhabited

structure TreeCache where
  entries : List CacheEntry := []
  modified : List (String × Bool) := []
  size : Int := 0
  enabled : Value := .bool true
  maxSizeMb : Value := .int 100
  ttlSeconds : Value := .int 300
deriving Inhabited

namespace TreeCache

/-- A cache with its own limits, used where the settings give none; nothing and zero stand for the
standard ones. -/
def withLimits (maxSizeMb ttlSeconds : Value) : TreeCache :=
  { maxSizeMb := if maxSizeMb.isVoid then .int 100 else maxSizeMb
    ttlSeconds := if ttlSeconds.isVoid then .int 300 else ttlSeconds }

def keyOf (language path : String) (modified : Binary64) : String :=
  language ++ ":" ++ path ++ ":" ++ modified.shortestText

def find? (cache : TreeCache) (key : String) : Option CacheEntry :=
  cache.entries.find? fun entry => entry.key == key

def setFlag (key : String) (flag : Bool) : List (String × Bool) → List (String × Bool)
  | [] => [(key, flag)]
  | (other, old) :: rest => if other == key then (other, flag) :: rest else (other, old) :: setFlag key flag rest

def store (entry : CacheEntry) : List CacheEntry → List CacheEntry
  | [] => [entry]
  | other :: rest => if other.key == entry.key then entry :: rest else other :: store entry rest

def dropKey (cache : TreeCache) (key : String) : TreeCache :=
  { cache with
    entries := cache.entries.filter fun entry => entry.key != key
    modified := cache.modified.filter fun (other, _) => other != key }

def remove (cache : TreeCache) (entry : CacheEntry) : TreeCache :=
  { cache.dropKey entry.key with size := cache.size - entry.source.size }

/-- Whether the cache is in use: both its own switch and that of the settings. -/
def isEnabled (cache : TreeCache) (settings : Settings) : Bool :=
  !cache.enabled.isVoid &&
    match settings.cacheEnabled with
    | .ok value => !value.isVoid
    | .error _ => true

/-- The size limit in force; none at all if the cache is switched off. -/
def sizeLimit (cache : TreeCache) (settings : Settings) : Value :=
  if cache.enabled.isVoid then .int 0
  else match settings.maxSizeMb with
    | .ok value => value
    | .error _ => cache.maxSizeMb

def timeToLive (cache : TreeCache) (settings : Settings) : Value :=
  match settings.ttlSeconds with
  | .ok value => value
  | .error _ => cache.ttlSeconds

/-- Megabytes as bytes; the result is exact.  A text or a list can be multiplied but not compared with
a number, and what is said of it depends on the side on which it stands. -/
def bytesOf (megabytes : Value) (refuse : String → Fault) : Except Fault Rat :=
  match megabytes with
  | .string _ | .list _ | .bytes _ => .error (refuse megabytes.kindName)
  | other =>
    match other.toRat? with
    | some value => .ok (value * 1024 * 1024)
    | none => .error (.badOperands "*" other.kindName "int")

/-- The entry of a key, unless it is older than the settings allow; then it goes. -/
def get (cache : TreeCache) (settings : Settings) (now : Binary64) (key : String) :
    Except Fault (Option CacheEntry × TreeCache) :=
  match cache.find? key with
  | none => .ok (none, cache)
  | some entry => do
    let age := now.sub entry.stamp
    if ← (Value.float age).exceeds (cache.timeToLive settings) then return (none, cache.remove entry)
    else return (some entry, cache)

structure EvictionGoal where
  bytes : Int
  entries : Nat
deriving Repr, DecidableEq

/-- The goal of an eviction.  A very small cache loses half of what it holds; one that is nearly full
loses a fifth of its limit beyond what is required. -/
def evictionGoal (cache : TreeCache) (limitMb : Value) (limit : Rat) (required : Int) : EvictionGoal :=
  let isTiny := match limitMb.number? with
    | some megabytes => megabytes.lt (Binary64.ofRat (1 / 10))
    | none => false
  if isTiny || limit < 10 * 1024 then
    ⟨cache.size.fdiv 2, max 1 (cache.entries.length / 2)⟩
  else
    let bytes := Binary64.ofRat limit
    let nearlyFull := bytes.mul (Binary64.ofRat (9 / 10))
    if nearlyFull.lt (.finite cache.size) then
      let fifth := (bytes.mul (Binary64.ofRat (1 / 5))).toRat?.getD 0
      ⟨required + towardZero fifth, max 1 (cache.entries.length / 4)⟩
    else ⟨required, 1⟩

def evictUntil (goal : EvictionGoal) (cache : TreeCache) (freed : Int) (removed : Nat) :
    List CacheEntry → TreeCache
  | [] => cache
  | entry :: rest =>
    let cache := cache.remove entry
    let freed := freed + entry.source.size
    let removed := removed + 1
    if goal.bytes ≤ freed && goal.entries ≤ removed then cache
    else evictUntil goal cache freed removed rest

/-- Entries by age, the oldest first; those of one age stay in their order. -/
def byAge (entries : List CacheEntry) : List CacheEntry :=
  entries.mergeSort fun left right => left.stamp.le right.stamp

def evict (cache : TreeCache) (settings : Settings) (required : Int) : Except Fault TreeCache := do
  let limitMb := cache.sizeLimit settings
  let limit ← bytesOf limitMb fun kind => .notComparable "<=" "int" kind
  if ((cache.size + required : Int) : Rat) ≤ limit || cache.entries.isEmpty then return cache
  else return evictUntil (cache.evictionGoal limitMb limit required) cache 0 0 (byAge cache.entries)

def isBeyondFormat (limitMb : Value) (limit : Rat) : Bool :=
  match limitMb with
  | .int _ => Binary64.ofRat limit = .infinite false
  | _ => false

/-- Makes room for a number of bytes, which may be larger than any source.  The goal of an eviction
takes the limit in the 64-bit format; where there is something to evict, a whole limit beyond the format
is refused. -/
def makeRoom (cache : TreeCache) (settings : Settings) (required : Int) : Except Fault TreeCache := do
  let limitMb := cache.sizeLimit settings
  let limit ← bytesOf limitMb fun kind => .notComparable "<=" "int" kind
  if limit < ((cache.size + required : Int) : Rat) && !cache.entries.isEmpty
      && isBeyondFormat limitMb limit then
    throw .integerTooLarge
  else cache.evict settings required

/-- Stores a tree, unless the cache is off, too small for anything, or smaller than the source. -/
def put (cache : TreeCache) (settings : Settings) (now : Binary64) (key : String) (tree : Tree)
    (source : ByteArray) : Except Fault TreeCache := do
  let limit ← bytesOf (cache.sizeLimit settings) fun kind => .notComparable "<=" kind "int"
  if limit ≤ 1024 || limit < (source.size : Int) then return cache
  else
    let cache ← match cache.find? key with
      | some old => pure { cache with size := cache.size - old.source.size }
      | none =>
        if limit < ((cache.size + source.size : Int) : Rat) then cache.evict settings source.size
        else pure cache
    return { cache with
      entries := store ⟨key, tree, source, now⟩ cache.entries
      modified := setFlag key false cache.modified
      size := cache.size + source.size }

def update (cache : TreeCache) (settings : Settings) (now : Binary64) (key : String) (tree : Tree)
    (source : ByteArray) : Except Fault TreeCache :=
  match cache.find? key with
  | some old =>
    .ok { cache with
      entries := store ⟨key, tree, source, now⟩ cache.entries
      modified := setFlag key false cache.modified
      size := cache.size - old.source.size + source.size }
  | none => if cache.isEnabled settings then cache.put settings now key tree source else .ok cache

def markModified (cache : TreeCache) (key : String) : TreeCache :=
  match cache.find? key with
  | some _ => { cache with modified := setFlag key true cache.modified }
  | none => cache

def isModified (cache : TreeCache) (key : String) : Bool := (cache.modified.lookup key).getD false

def clear (cache : TreeCache) : TreeCache := { cache with entries := [], modified := [], size := 0 }

/-- Removes every entry in whose key a path occurs. -/
def invalidate (cache : TreeCache) (path : String) : TreeCache :=
  (cache.entries.filter fun entry => Text.stringOccursIn path entry.key).foldl remove cache

def report (cache : TreeCache) : Value :=
  let changed := (cache.modified.filter Prod.snd).map Prod.fst
  .object [("keys", .strings (cache.entries.map CacheEntry.key)),
    ("sizes", .list (cache.entries.map fun entry => .nat entry.source.size)),
    ("stamps", .list (cache.entries.map fun entry => .float entry.stamp)),
    ("bytes", .int cache.size), ("enabled", cache.enabled), ("max_size_mb", cache.maxSizeMb),
    ("ttl_seconds", cache.ttlSeconds),
    ("modified", .strings (changed.mergeSort fun left right => left ≤ right)),
    ("tracked", .nat cache.modified.length)]

end TreeCache

end Arborist
