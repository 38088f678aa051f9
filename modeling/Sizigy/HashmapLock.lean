import Mathlib.Data.List.Induction
import Sizigy.HashmapInvariant

/-! The default mutex of a map under calls from one thread. A put that finds no slot goes
through `hashmap_rehash`, whose own calls of the public put lock again: the run is safe
exactly while every put finds a slot in the table as it stands. -/
namespace Sizigy.HashmapLock

open Probing

variable {V : Type} {m m' : Hashmap CString V} {key : CString}

inductive Call (V : Type) where
  | put (key : CString) (val : V)
  | get (key : CString)
  | del (key : CString)

def Call.run (fuel : Nat) (m : Hashmap CString V) : Call V → Outcome (Hashmap CString V)
  | .put key val => do return (← hashmapPut .default (fun _ => true) fuel m key val).2
  | .get key => do return (← hashmapGet .default m key).2
  | .del key => do return (← hashmapDel .default m key).2

def runCalls (fuel : Nat) : List (Call V) → Hashmap CString V → Outcome (Hashmap CString V)
  | [], m => .returned m
  | call :: calls, m => do runCalls fuel calls (← call.run fuel m)

/-- No prefix of the calls ends in a second acquisition, and each that returns has
released the lock. -/
def LockSafe (calls : List (Call V)) : Prop :=
  ∀ before after fuel, calls = before ++ after →
    runCalls fuel before hashmapCreate ≠ .blocked ∧
    ∀ m, runCalls fuel before hashmapCreate = .returned m → m.lock = false

/-- Below the load threshold, with a free slot or the key itself in the key's window. -/
def HasRoom (m : Hashmap CString V) (key : CString) : Prop :=
  m.size < m.tableSize / 2 ∧ ∃ offset < maxChainLength,
    slot m.entries (m.window key offset) = none ∨
    ∃ val, slot m.entries (m.window key offset) = some (key,val)

theorem hasRoom_iff (m : Hashmap CString V) (key : CString) :
    HasRoom m key ↔ ∃ index, hashmapHash m key = some index := by
  rw [← Option.isSome_iff_exists,← Option.ne_none_iff_isSome,ne_eq,hashmapHash_none_iff,not_or]
  refine and_congr Nat.not_le.symm ?_
  simp only [not_forall,not_and_or,not_not,exists_prop,ne_eq]

theorem runCalls_append (fuel : Nat) (before after : List (Call V)) (m : Hashmap CString V) :
    runCalls fuel (before ++ after) m = runCalls fuel before m >>= runCalls fuel after := by
  induction before generalizing m with
  | nil => rfl
  | cons call before ih =>
    simp only [List.cons_append,runCalls]
    cases call.run fuel m <;> simp [ih]

theorem Call.run_le (call : Call V) (m : Hashmap CString V) (le : fuel ≤ more) :
    (call.run fuel m).Le (call.run more m) := by
  cases call with
  | put key val => exact (hashmapPut_le _ _ le m key val).bind fun _ => .refl _
  | get key => exact .refl _
  | del key => exact .refl _

theorem runCalls_le (calls : List (Call V)) (m : Hashmap CString V) (le : fuel ≤ more) :
    (runCalls fuel calls m).Le (runCalls more calls m) := by
  induction calls generalizing m with
  | nil => exact .refl _
  | cons call calls ih => exact (call.run_le m le).bind ih

/-- The copy loop reaches its first used slot with the lock held by the outer put. -/
theorem copyEntries_blocked (calloc : Nat → Bool) (fuel : Nat) (rest : Table CString V)
    (m : Hashmap CString V) (held : m.lock = true) (member : some pair ∈ rest) :
    copyEntries (fun m key val => do
      putLocked .default calloc fuel (← pthreadMutexLock .default m) key val) rest m = .blocked := by
  induction rest with
  | nil => simp at member
  | cons first rest ih =>
    cases first with
    | none => exact ih (by simpa using member)
    | some other => simp [copyEntries,pthreadMutexLock,held]

theorem lock_released (released : m.lock = false) :
    pthreadMutexLock .default m = .returned { m with lock := true } := by
  simp [pthreadMutexLock,released]

/-- Whatever the mutex, a put that returns has left the lock free. -/
theorem putLocked_released (free : mutex = .ignored → m.lock = false)
    (done : putLocked mutex calloc fuel m key val = .returned (status,m')) : m'.lock = false := by
  have unlocked (m : Hashmap CString V) (free : mutex = .ignored → m.lock = false) :
      (pthreadMutexUnlock mutex m).lock = false := by
    cases mutex with
    | ignored => exact free rfl
    | default => rfl
  induction fuel generalizing m key val status m' with
  | zero => cases done
  | succ fuel ih =>
    simp only [putLocked] at done
    split at done
    next index found =>
      obtain ⟨_,rfl⟩ := Prod.mk.inj (Outcome.returned.inj done)
      exact unlocked _ free
    next =>
      obtain ⟨⟨middle,m₁⟩,rehashed,continued⟩ := Outcome.bind_eq_returned.mp done
      have next : mutex = .ignored → m₁.lock = false := by
        simp only [hashmapRehash] at rehashed
        split at rehashed
        · refine copyEntries_invariant (fun m => mutex = .ignored → m.lock = false) (fun _ _ => True) _ ?_
            m.entries m.grown (fun _ _ _ => trivial) free rehashed
          intro m₂ key₂ val₂ status₂ m₃ before _ put ignored
          obtain ⟨m₄,locked,inner⟩ := Outcome.bind_eq_returned.mp put
          subst ignored
          obtain rfl := Outcome.returned.inj locked
          exact ih before inner
        · obtain ⟨_,rfl⟩ := Prod.mk.inj (Outcome.returned.inj rehashed)
          exact free
      simp only at continued
      split at continued
      · obtain ⟨_,rfl⟩ := Prod.mk.inj (Outcome.returned.inj continued)
        exact unlocked _ next
      · exact ih next continued

/-- Without room the put holds its lock when the copy loop asks for it again. -/
theorem put_full_blocks (valid : m.Valid) (released : m.lock = false)
    (full : ¬HasRoom m key) (val : V) (fuel : Nat) :
    (Call.put key val).run (fuel + 1) m = .blocked := by
  have noSlot : hashmapHash { m with lock := true } key = none := by
    rw [hasRoom_iff] at full
    exact Option.eq_none_iff_forall_not_mem.mpr fun index found => full ⟨index,found⟩
  obtain ⟨pair,member⟩ := exists_used (relock_valid valid true) noSlot
  have blocked := copyEntries_blocked (fun _ => true) fuel m.entries
    (Hashmap.grown { m with lock := true }) rfl member
  have put : hashmapPut .default (fun _ => true) (fuel + 1) m key val = .blocked := by
    rw [hashmapPut,lock_released released,Outcome.returned_bind,putLocked,noSlot]
    simp only [hashmapRehash,if_true,blocked,Outcome.blocked_bind]
  rw [Call.run,put,Outcome.blocked_bind]

theorem put_room_returns (released : m.lock = false) (room : HasRoom m key) (val : V) (fuel : Nat) :
    ∃ m', (Call.put key val).run (fuel + 1) m = .returned m' ∧ m'.lock = false := by
  obtain ⟨index,found⟩ := (hasRoom_iff m key).mp room
  have found' : hashmapHash { m with lock := true } key = some index := found
  have put : hashmapPut .default (fun _ => true) (fuel + 1) m key val = .returned
      (.ok,pthreadMutexUnlock .default (Hashmap.store { m with lock := true } index key val)) := by
    rw [hashmapPut,lock_released released,Outcome.returned_bind,putLocked,found']
  exact ⟨_,by rw [Call.run,put]; rfl,rfl⟩

theorem get_returns (released : m.lock = false) (key : CString) (fuel : Nat) :
    ∃ m', (Call.get key).run fuel m = .returned m' ∧ m'.lock = false := by
  refine ⟨{ m with lock := false },?_,rfl⟩
  rw [Call.run,hashmapGet,lock_released released]
  rfl

theorem del_returns (released : m.lock = false) (key : CString) (fuel : Nat) :
    ∃ m', (Call.del key).run fuel m = .returned m' ∧ m'.lock = false := by
  refine ⟨pthreadMutexUnlock .default (Hashmap.remove { m with lock := true } key).2,?_,rfl⟩
  rw [Call.run,hashmapDel,lock_released released]
  rfl

theorem Call.run_valid (call : Call V) (valid : m.Valid) (done : call.run fuel m = .returned m') :
    m'.Valid := by
  have relock (mutex : Mutex) {m m' : Hashmap CString V} (valid : m.Valid)
      (locked : pthreadMutexLock mutex m = .returned m') : m'.Valid :=
    lock_invariant Hashmap.Valid (fun _ lock valid => relock_valid valid lock) mutex valid locked
  cases call with
  | put key val =>
    obtain ⟨⟨status,m₁⟩,put,equal⟩ := Outcome.bind_eq_returned.mp done
    exact Outcome.returned.inj equal ▸ put_valid valid put
  | get key =>
    obtain ⟨⟨value,m₁⟩,got,equal⟩ := Outcome.bind_eq_returned.mp done
    obtain ⟨m₂,locked,unlocked⟩ := Outcome.bind_eq_returned.mp got
    obtain ⟨-,rfl⟩ := Prod.mk.inj (Outcome.returned.inj unlocked)
    exact Outcome.returned.inj equal ▸ relock_valid (relock _ valid locked) false
  | del key =>
    obtain ⟨⟨status,m₁⟩,deleted,equal⟩ := Outcome.bind_eq_returned.mp done
    obtain ⟨m₂,locked,unlocked⟩ := Outcome.bind_eq_returned.mp deleted
    obtain ⟨-,rfl⟩ := Prod.mk.inj (Outcome.returned.inj unlocked)
    exact Outcome.returned.inj equal ▸
      relock_valid (remove_valid (relock _ valid locked) key) false

theorem runCalls_valid (calls : List (Call V)) (valid : m.Valid)
    (done : runCalls fuel calls m = .returned m') : m'.Valid := by
  induction calls generalizing m with
  | nil => exact Outcome.returned.inj done ▸ valid
  | cons call calls ih =>
    obtain ⟨m₁,first,rest⟩ := Outcome.bind_eq_returned.mp done
    exact ih (call.run_valid valid first) rest

/-- Every put of the calls finds room in the table that the calls before it leave. -/
def RoomThroughout (calls : List (Call V)) : Prop :=
  ∀ before key val after fuel m, calls = before ++ .put key val :: after →
    runCalls fuel before hashmapCreate = .returned m → HasRoom m key

theorem runCalls_snoc (fuel : Nat) (calls : List (Call V)) (call : Call V)
    (done : runCalls fuel calls start = .returned m) :
    runCalls fuel (calls ++ [call]) start = call.run fuel m := by
  rw [runCalls_append,done,Outcome.returned_bind,runCalls]
  cases call.run fuel m <;> rfl

theorem runCalls_released (calls : List (Call V)) (fuel : Nat) (room : RoomThroughout calls) :
    runCalls fuel calls hashmapCreate = .unfinished ∨
    ∃ m, runCalls fuel calls hashmapCreate = .returned m ∧ m.lock = false := by
  induction calls using List.reverseRecOn with
  | nil => exact .inr ⟨_,rfl,rfl⟩
  | append_singleton calls call ih =>
    have earlier : RoomThroughout calls := by
      intro before key val after fuel m split
      exact room before key val (after ++ [call]) fuel m (by rw [split]; simp)
    rcases ih earlier with stuck | ⟨m,done,released⟩
    · exact .inl (by rw [runCalls_append,stuck]; rfl)
    · rw [runCalls_snoc fuel calls call done]
      cases call with
      | get key => exact .inr (get_returns released key fuel)
      | del key => exact .inr (del_returns released key fuel)
      | put key val =>
        cases fuel with
        | zero =>
          refine .inl ?_
          rw [Call.run,hashmapPut,lock_released released]
          rfl
        | succ fuel =>
          exact .inr (put_room_returns released (room calls key val [] _ m rfl done) val fuel)

/-- The lock discipline holds along a sequence of calls exactly when no put has to grow
the table. -/
theorem lockSafe_iff_roomThroughout (calls : List (Call V)) :
    LockSafe calls ↔ RoomThroughout calls := by
  constructor
  · intro safe before key val after fuel m split done
    by_contra full
    have released := (safe before (.put key val :: after) fuel split).2 m done
    have more := (runCalls_le before hashmapCreate (Nat.le_succ fuel)).returned done
    have blocked := put_full_blocks (runCalls_valid before create_valid done) released full val fuel
    have shape : calls = (before ++ [.put key val]) ++ after := by rw [split]; simp
    refine (safe _ _ (fuel + 1) shape).1 ?_
    rw [runCalls_snoc _ _ _ more,blocked]
  · intro room before after fuel split
    have earlier : RoomThroughout before := by
      intro front key val back fuel' m split'
      exact room front key val (back ++ after) fuel' m (by rw [split,split']; simp)
    rcases runCalls_released before fuel earlier with stuck | ⟨m,done,released⟩
    · simp [stuck]
    · rw [done]
      exact ⟨by simp,fun m' same => Outcome.returned.inj same ▸ released⟩

/-- Nine two-byte keys whose home is slot 159 of the initial table. -/
def chainKeys : List CString :=
  [[98,54],[99,116],[103,107],[104,114],[106,112],[111,108],[118,110],[118,117],[49,52]].map cstr

theorem chain_puts_relock : ¬LockSafe (chainKeys.map fun key => Call.put key ()) := by
  intro safe
  exact (safe _ [] 2 (List.append_nil _).symm).1 rfl

end Sizigy.HashmapLock
