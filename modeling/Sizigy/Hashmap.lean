import Sizigy.Hash
import Sizigy.Library.Outcome
import Sizigy.Library.Probing

/-! `hashmap.c`. A slot whose `in_use` bit is clear is `none`: its stale key and value are
never read. Table sizes are unbounded naturals, so the `unsigned int` and `int` indices of
the source are exact here. The mutex is a field, and its discipline a parameter: under
`Mutex.default` a second acquisition by the same call chain never comes back. -/
namespace Sizigy

open Probing

def initialSize : Nat := 256
def maxChainLength : Nat := 8

inductive Status where
  | ok
  | err
  deriving DecidableEq, Repr

/-- The value `hashmap_hash_int` reduces modulo the table size. -/
class HashKey (K : Type) where
  hash : K → Nat

instance : HashKey CString := ⟨hashString⟩

structure Hashmap (K V : Type) where
  tableSize : Nat
  size : Nat
  entries : Table K V
  lock : Bool
  allocated : entries.length = tableSize
  nonempty : 0 < tableSize

inductive Mutex where
  | ignored
  | default
  deriving DecidableEq, Repr

def pthreadMutexLock (mutex : Mutex) (m : Hashmap K V) : Outcome (Hashmap K V) :=
  match mutex with
  | .ignored => .returned m
  | .default => if m.lock then .blocked else .returned { m with lock := true }

def pthreadMutexUnlock (mutex : Mutex) (m : Hashmap K V) : Hashmap K V :=
  match mutex with
  | .ignored => m
  | .default => { m with lock := false }

def hashmapCreate : Hashmap K V where
  tableSize := initialSize
  size := 0
  entries := List.replicate initialSize none
  lock := false
  allocated := List.length_replicate
  nonempty := by decide

section Operations

variable [DecidableEq K] [HashKey K]

def hashmapHashInt (m : Hashmap K V) (key : K) : Nat := HashKey.hash key % m.tableSize

/-- Slot for a key, or `none` for `HASHMAP_FULL`: the first of the eight slots from its
home that is free or holds the key. -/
def hashmapHash (m : Hashmap K V) (key : K) : Option Nat :=
  if m.size ≥ m.tableSize / 2 then none
  else probe (fun curr => (slot m.entries curr).isNone || holds m.entries key curr)
    m.tableSize maxChainLength (hashmapHashInt m key)

/-- Slot that holds a key, found by the probe that `hashmap_get` and `hashmap_del` share. -/
def hashmapFind (m : Hashmap K V) (key : K) : Option Nat :=
  probe (holds m.entries key) m.tableSize maxChainLength (hashmapHashInt m key)

/-- The table that `calloc` hands to `hashmap_rehash`, not yet filled. -/
def Hashmap.grown (m : Hashmap K V) : Hashmap K V where
  tableSize := 2 * m.tableSize
  size := 0
  entries := List.replicate (2 * m.tableSize) none
  lock := m.lock
  allocated := List.length_replicate
  nonempty := by have := m.nonempty; omega

def Hashmap.store (m : Hashmap K V) (index : Nat) (key : K) (val : V) : Hashmap K V :=
  { m with
    entries := m.entries.set index (some (key,val))
    size := if (slot m.entries index).isNone then m.size + 1 else m.size
    allocated := by rw [List.length_set,m.allocated] }

/-- The loop of `hashmap_rehash` over the old array, calling the public put. -/
def copyEntries (put : Hashmap K V → K → V → Outcome (Status × Hashmap K V)) :
    Table K V → Hashmap K V → Outcome (Status × Hashmap K V)
  | [], m => .returned (.ok,m)
  | none :: rest, m => copyEntries put rest m
  | some (key,val) :: rest, m => do
    let (status,m) ← put m key val
    if status ≠ .ok then return (status,m) else copyEntries put rest m

/-- `calloc` answers for the number of entries asked for. -/
def hashmapRehash (calloc : Nat → Bool)
    (put : Hashmap K V → K → V → Outcome (Status × Hashmap K V))
    (m : Hashmap K V) : Outcome (Status × Hashmap K V) :=
  if calloc (2 * m.tableSize) then copyEntries put m.entries m.grown else .returned (.err,m)

/-- `hashmap_put` past its first lock. The nested put of `hashmap_rehash` locks again. -/
def putLocked (mutex : Mutex) (calloc : Nat → Bool) :
    Nat → Hashmap K V → K → V → Outcome (Status × Hashmap K V)
  | 0, _, _, _ => .unfinished
  | fuel + 1, m, key, val =>
    match hashmapHash m key with
    | some index => .returned (.ok,pthreadMutexUnlock mutex (m.store index key val))
    | none => do
      let (status,m) ← hashmapRehash calloc
        (fun m key val => do putLocked mutex calloc fuel (← pthreadMutexLock mutex m) key val) m
      if status = .err then return (.err,pthreadMutexUnlock mutex m)
      else putLocked mutex calloc fuel m key val

def hashmapPut (mutex : Mutex) (calloc : Nat → Bool) (fuel : Nat) (m : Hashmap K V)
    (key : K) (val : V) : Outcome (Status × Hashmap K V) := do
  putLocked mutex calloc fuel (← pthreadMutexLock mutex m) key val

/-- Value found by the probe, with no lock taken. -/
def Hashmap.lookup (m : Hashmap K V) (key : K) : Option V :=
  (hashmapFind m key).bind fun curr => (slot m.entries curr).map Prod.snd

def hashmapGet (mutex : Mutex) (m : Hashmap K V) (key : K) : Outcome (Option V × Hashmap K V) := do
  let m ← pthreadMutexLock mutex m
  return (m.lookup key,pthreadMutexUnlock mutex m)

/-- Blank the slot of a key; only the `in_use` bit and the size change. -/
def Hashmap.remove (m : Hashmap K V) (key : K) : Status × Hashmap K V :=
  match hashmapFind m key with
  | some curr =>
    (.ok,{ m with
      entries := m.entries.set curr none
      size := m.size - 1
      allocated := by rw [List.length_set,m.allocated] })
  | none => (.err,m)

def hashmapDel (mutex : Mutex) (m : Hashmap K V) (key : K) : Outcome (Status × Hashmap K V) := do
  let m ← pthreadMutexLock mutex m
  let (status,m) := m.remove key
  return (status,pthreadMutexUnlock mutex m)

/-- The callback runs over the used slots in array order until it answers an error. -/
def iterateEntries (f : σ → K × V → Status × σ) : Table K V → σ → Status × σ
  | [], s => (.ok,s)
  | none :: rest, s => iterateEntries f rest s
  | some data :: rest, s =>
    match f s data with
    | (.ok,s) => iterateEntries f rest s
    | (.err,s) => (.err,s)

def hashmapIterate2 (m : Hashmap K V) (f : σ → K × V → Status × σ) (s : σ) : Status × σ :=
  if m.size = 0 then (.err,s) else iterateEntries f m.entries s

/-- A pair is stored in some slot. -/
def Hashmap.Contains (m : Hashmap K V) (key : K) (val : V) : Prop :=
  ∃ i, slot m.entries i = some (key,val)

end Operations

end Sizigy
