import Sizigy.HashmapInvariant

/-! What a successful put and a deletion do to the stored pairs. A put may go wrong in one
way only: it takes a hole in front of the slot that already holds its key. A table with no
such hole stays one through puts and rehashes; only deletions make holes. -/

set_option linter.unusedSectionVars false

namespace Sizigy

open Probing

variable {K V : Type} [DecidableEq K] [HashKey K] {m m' : Hashmap K V} {key : K} {val : V}

/-- A slot chosen for the key is not a hole in front of a stored copy of it. -/
def Hashmap.Clear (m : Hashmap K V) (key : K) : Prop :=
  ∀ index, hashmapHash m key = some index → slot m.entries index = none →
    ∀ val, ¬m.Contains key val

theorem packed_clear (valid : m.Valid) (packed : m.Packed) (key : K) : m.Clear key := by
  rintro index found free val ⟨i,stored⟩
  obtain ⟨_,_,offset,bound,rfl,_,earlier⟩ := hashmapHash_some found
  obtain ⟨offset',bound',position⟩ := valid.within i key val stored
  have same : i = m.window key offset' := by rw [position,m.allocated]; rfl
  subst same
  rcases Nat.lt_trichotomy offset' offset with less | rfl | greater
  · exact (earlier offset' less).2 val stored
  · simp [free] at stored
  · refine packed key offset' val bound' ?_ offset greater ?_
    · rw [m.allocated]; exact stored
    · rw [m.allocated]; exact free

/-- The pairs of one table are those of another with one key overwritten. -/
def Overwrites (m : Hashmap K V) (key : K) (val : V) (m' : Hashmap K V) : Prop :=
  ∀ key' val', m'.Contains key' val' ↔
    (key' = key ∧ val' = val) ∨ (key' ≠ key ∧ m.Contains key' val')

theorem store_spec (unique : m.Unique) (clear : m.Clear key)
    (found : hashmapHash m key = some index) (val : V) :
    (m.store index key val).Unique ∧ Overwrites m key val (m.store index key val) := by
  obtain ⟨_,inside,_,_,_,choice,_⟩ := hashmapHash_some found
  have only : ∀ j v, slot m.entries j = some (key,v) → j = index := by
    intro j v stored
    rcases choice with free | ⟨v',held⟩
    · exact absurd ⟨j,stored⟩ (clear index found free v)
    · exact unique j index key v v' stored held
  refine ⟨store_unique unique inside only val,fun key' val' => ?_⟩
  simp only [Hashmap.Contains,store_slot inside]
  constructor
  · rintro ⟨i,stored⟩
    split at stored
    · obtain ⟨rfl,rfl⟩ := Prod.mk.inj (Option.some.inj stored)
      exact .inl ⟨rfl,rfl⟩
    · by_cases same : key' = key
      · subst key'
        exact absurd (only i val' stored) ‹_›
      · exact .inr ⟨same,i,stored⟩
  · rintro (⟨rfl,rfl⟩ | ⟨apart,i,stored⟩)
    · exact ⟨index,by simp⟩
    · refine ⟨i,?_⟩
      rw [if_neg]
      · exact stored
      · rintro rfl
        rcases choice with free | ⟨v',held⟩
        · simp [free] at stored
        · exact apart (Prod.mk.inj (Option.some.inj (stored.symm.trans held))).1

/-- A table as a run of puts from an empty one leaves it. -/
structure Hashmap.Fresh (m : Hashmap K V) : Prop where
  valid : m.Valid
  unique : m.Unique
  packed : m.Packed

theorem create_fresh : (hashmapCreate : Hashmap K V).Fresh :=
  ⟨create_valid,create_unique,create_packed⟩

theorem grown_unique (m : Hashmap K V) : m.grown.Unique := by
  simp [Hashmap.Unique,Hashmap.grown]

theorem grown_packed (m : Hashmap K V) : m.grown.Packed := by
  simp [Hashmap.Packed,Hashmap.grown]

theorem grown_fresh (valid : m.Valid) : m.grown.Fresh := ⟨grown_valid valid,grown_unique m,grown_packed m⟩

theorem grown_empty (m : Hashmap K V) : ¬m.grown.Contains key val := by
  simp [Hashmap.Contains,Hashmap.grown]

/-- A put that stores nothing under its key yet adds the pair and keeps the keys distinct. -/
def Adds (put : Hashmap K V → K → V → Outcome (Status × Hashmap K V)) : Prop :=
  ∀ {m m' : Hashmap K V} {key val}, m.Unique → (∀ v, ¬m.Contains key v) →
    put m key val = .returned (.ok,m') → m'.Unique ∧ Overwrites m key val m'

theorem copyEntries_spec (put : Hashmap K V → K → V → Outcome (Status × Hashmap K V)) (one : Adds put)
    (rest : Table K V) (m : Hashmap K V) (unique : m.Unique) (distinct : Distinct rest)
    (apart : ∀ key v v', some (key,v) ∈ rest → ¬m.Contains key v')
    (done : copyEntries put rest m = .returned (.ok,m')) :
    m'.Unique ∧ ∀ key val, m'.Contains key val ↔ m.Contains key val ∨ some (key,val) ∈ rest := by
  induction rest generalizing m with
  | nil =>
    obtain ⟨-,rfl⟩ := Prod.mk.inj (Outcome.returned.inj done)
    exact ⟨unique,by simp⟩
  | cons first rest ih =>
    obtain ⟨head,tail⟩ := List.pairwise_cons.mp distinct
    cases first with
    | none =>
      obtain ⟨unique',contents⟩ := ih m unique tail
        (fun key v v' member => apart key v v' (.tail _ member)) done
      exact ⟨unique',by simpa using contents⟩
    | some pair =>
      obtain ⟨key,val⟩ := pair
      obtain ⟨⟨status,m₁⟩,putDone,continued⟩ := Outcome.bind_eq_returned.mp done
      simp only at continued
      split at continued
      next failed =>
        obtain ⟨rfl,-⟩ := Prod.mk.inj (Outcome.returned.inj continued)
        exact absurd rfl failed
      next succeeded =>
        rw [not_not] at succeeded
        subst succeeded
        obtain ⟨unique₁,written⟩ := one unique (fun v => apart key val v (.head _)) putDone
        obtain ⟨unique',contents⟩ := ih m₁ unique₁ tail (by
          intro key' v v' member contained
          rcases (written key' v').mp contained with ⟨rfl,rfl⟩ | ⟨_,before⟩
          · exact head _ member _ _ _ rfl rfl
          · exact apart key' v v' (.tail _ member) before) continued
        refine ⟨unique',fun key' val' => ?_⟩
        rw [contents,written]
        have absent := apart key val val' (.head _)
        constructor
        · rintro ((⟨rfl,rfl⟩ | ⟨_,before⟩) | member)
          · exact .inr (.head _)
          · exact .inl before
          · exact .inr (.tail _ member)
        · rintro (before | member)
          · refine .inl (.inr ⟨?_,before⟩)
            rintro rfl
            exact absent before
          · rcases List.mem_cons.mp member with equal | later
            · obtain ⟨rfl,rfl⟩ := Prod.mk.inj (Option.some.inj equal)
              exact .inl (.inl ⟨rfl,rfl⟩)
            · exact .inr later

/-- A rehash that succeeds keeps the pairs. -/
theorem hashmapRehash_spec (put : Hashmap K V → K → V → Outcome (Status × Hashmap K V)) (one : Adds put)
    (unique : m.Unique) (done : hashmapRehash calloc put m = .returned (.ok,m')) :
    m'.Unique ∧ ∀ key val, m'.Contains key val ↔ m.Contains key val := by
  simp only [hashmapRehash] at done
  split at done
  · obtain ⟨unique',contents⟩ := copyEntries_spec put one m.entries m.grown (grown_unique m)
      (distinct_of_unique unique) (fun _ _ _ _ => grown_empty m) done
    refine ⟨unique',fun key val => ?_⟩
    rw [contents]
    simp only [grown_empty,false_or]
    exact mem_iff_slot
  · simp at done

theorem lock_relocked (locked : pthreadMutexLock mutex m = .returned m') : ∃ lock, m' = { m with lock := lock } :=
  lock_invariant (fun m' => ∃ lock, m' = { m with lock := lock }) (by rintro _ lock ⟨_,rfl⟩; exact ⟨lock,rfl⟩) mutex
    ⟨m.lock,rfl⟩ locked

theorem locked_adds (one : Adds (putLocked (K := K) (V := V) mutex calloc fuel)) :
    Adds (hashmapPut (K := K) (V := V) mutex calloc fuel) := by
  intro m m' key val unique absent done
  obtain ⟨m₁,locked,inner⟩ := Outcome.bind_eq_returned.mp done
  obtain ⟨lock,rfl⟩ := lock_relocked locked
  exact one (m := { m with lock := lock }) unique absent inner

/-- However the table grows under it, a put of a new key adds its pair: a rehash only ever
puts keys that its table does not hold. -/
theorem putLocked_adds (mutex : Mutex) (calloc : Nat → Bool) (fuel : Nat) :
    Adds (putLocked (K := K) (V := V) mutex calloc fuel) := by
  induction fuel with
  | zero =>
    intro m m' key val _ _ done
    contradiction
  | succ fuel ih =>
    intro m m' key val unique absent done
    simp only [putLocked] at done
    split at done
    next index found =>
      obtain ⟨-,rfl⟩ := Prod.mk.inj (Outcome.returned.inj done)
      have stored := store_spec unique (fun _ _ _ => absent) found val
      cases mutex <;> exact stored
    next =>
      obtain ⟨⟨status,m₁⟩,rehashed,continued⟩ := Outcome.bind_eq_returned.mp done
      cases status with
      | err => simp at continued
      | ok =>
        obtain ⟨unique₁,contents⟩ := hashmapRehash_spec _ (locked_adds ih) unique rehashed
        obtain ⟨unique',written⟩ := ih unique₁ (fun v => by rw [contents]; exact absent v) continued
        exact ⟨unique',fun key' val' => by rw [written,contents]⟩

/-- A rehash that succeeds closes every hole. -/
theorem hashmapRehash_packed (valid : m.Valid)
    (done : hashmapRehash calloc (hashmapPut mutex calloc fuel) m = .returned (.ok,m')) :
    m'.Valid ∧ m'.Packed := by
  exact rehashed_invariant (fun m => m.Valid ∧ m.Packed) (fun _ _ => True) (fun _ _ _ _ _ => trivial)
    (fun _ _ _ val both _ found => ⟨store_valid both.1 found val,store_packed both.1 both.2 found val⟩)
    (fun m both => ⟨grown_valid both.1,grown_packed m⟩) (fun _ lock both => ⟨relock_valid both.1 lock,both.2⟩)
    ⟨grown_valid valid,grown_packed m⟩ (fun _ _ _ => trivial) done

theorem putLocked_spec (valid : m.Valid) (unique : m.Unique) (clear : m.Clear key)
    (done : putLocked mutex calloc fuel m key val = .returned (.ok,m')) :
    m'.Unique ∧ Overwrites m key val m' ∧ (m.Packed → m'.Packed) := by
  induction fuel generalizing m with
  | zero => contradiction
  | succ fuel ih =>
    simp only [putLocked] at done
    split at done
    next index found =>
      obtain ⟨-,rfl⟩ := Prod.mk.inj (Outcome.returned.inj done)
      obtain ⟨unique',written⟩ := store_spec unique clear found val
      have packed' (packed : m.Packed) := store_packed valid packed found val
      cases mutex <;> exact ⟨unique',written,packed'⟩
    next =>
      obtain ⟨⟨status,m₁⟩,rehashed,continued⟩ := Outcome.bind_eq_returned.mp done
      cases status with
      | err => simp at continued
      | ok =>
        obtain ⟨unique₁,contents⟩ :=
          hashmapRehash_spec _ (locked_adds (putLocked_adds mutex calloc fuel)) unique rehashed
        obtain ⟨valid₁,packed₁⟩ := hashmapRehash_packed valid rehashed
        obtain ⟨unique',written,packed'⟩ := ih valid₁ unique₁ (packed_clear valid₁ packed₁ key) continued
        refine ⟨unique',fun key' val' => ?_,fun _ => packed' packed₁⟩
        rw [written,contents]

/-- A put of a key with no hole in front of it overwrites exactly that key. -/
theorem put_spec (valid : m.Valid) (unique : m.Unique) (clear : m.Clear key)
    (done : hashmapPut mutex calloc fuel m key val = .returned (.ok,m')) :
    m'.Valid ∧ m'.Unique ∧ Overwrites m key val m' ∧ (m.Packed → m'.Packed) := by
  have valid' := put_valid valid done
  obtain ⟨m₁,locked,inner⟩ := Outcome.bind_eq_returned.mp done
  obtain ⟨lock,rfl⟩ := lock_relocked locked
  have result := putLocked_spec (relock_valid valid lock) unique clear inner
  exact ⟨valid',result⟩

theorem put_fresh (fresh : m.Fresh)
    (done : hashmapPut mutex calloc fuel m key val = .returned (.ok,m')) :
    m'.Fresh ∧ Overwrites m key val m' := by
  obtain ⟨valid,unique,written,packed⟩ :=
    put_spec fresh.valid fresh.unique (packed_clear fresh.valid fresh.packed key) done
  exact ⟨⟨valid,unique,packed fresh.packed⟩,written⟩

theorem copyEntries_ok (put : Hashmap K V → K → V → Outcome (Status × Hashmap K V))
    (one : ∀ {m key val status m'}, put m key val = .returned (status,m') → status = .ok)
    (rest : Table K V) (m : Hashmap K V)
    (done : copyEntries put rest m = .returned (status,m')) : status = .ok := by
  induction rest generalizing m with
  | nil => exact (Prod.mk.inj (Outcome.returned.inj done)).1.symm
  | cons first rest ih =>
    cases first with
    | none => exact ih m done
    | some pair =>
      obtain ⟨⟨middle,m₁⟩,putDone,continued⟩ := Outcome.bind_eq_returned.mp done
      obtain rfl := one putDone
      exact ih m₁ (by simpa using continued)

theorem putLocked_ok
    (done : putLocked mutex (fun _ => true) fuel m key val = .returned (status,m')) :
    status = .ok := by
  induction fuel generalizing m key val status m' with
  | zero => contradiction
  | succ fuel ih =>
    simp only [putLocked] at done
    split at done
    · exact (Prod.mk.inj (Outcome.returned.inj done)).1.symm
    · obtain ⟨⟨middle,m₁⟩,rehashed,continued⟩ := Outcome.bind_eq_returned.mp done
      have grew : middle = .ok := by
        refine copyEntries_ok _ ?_ m.entries m.grown rehashed
        intro m key val status m' putDone
        obtain ⟨m₂,_,nested⟩ := Outcome.bind_eq_returned.mp putDone
        exact ih nested
      subst grew
      exact ih (by simpa using continued)

/-- With an allocator that always succeeds no put fails. -/
theorem put_ok (done : hashmapPut mutex (fun _ => true) fuel m key val = .returned (status,m')) :
    status = .ok := by
  obtain ⟨m₁,_,inner⟩ := Outcome.bind_eq_returned.mp done
  exact putLocked_ok inner

/-- A deletion answers `HASHMAP_OK` exactly for a stored key, and removes that key only. -/
theorem remove_spec (valid : m.Valid) (unique : m.Unique) (key : K) :
    (m.remove key).2.Unique ∧
    ((m.remove key).1 = .ok ↔ ∃ val, m.Contains key val) ∧
    ∀ key' val', (m.remove key).2.Contains key' val' ↔ key' ≠ key ∧ m.Contains key' val' := by
  have missing : m.lookup key = none ↔ ∀ val, ¬m.Contains key val := lookup_none_iff valid
  unfold Hashmap.remove
  split
  next index found =>
    obtain ⟨inside,val,held⟩ := hashmapFind_some found
    have inEntries : index < m.entries.length := by rw [m.allocated]; exact inside
    refine ⟨Probing.Unique.erase unique inEntries,⟨fun _ => ⟨val,index,held⟩,fun _ => rfl⟩,?_⟩
    intro key' val'
    simp only [Hashmap.Contains,slot_set m.entries index _ none inEntries]
    constructor
    · rintro ⟨i,stored⟩
      split at stored
      · contradiction
      next apart =>
        refine ⟨?_,i,stored⟩
        rintro rfl
        exact apart (unique i index key' val' val stored held)
    · rintro ⟨apart,i,stored⟩
      refine ⟨i,?_⟩
      rw [if_neg]
      · exact stored
      · rintro rfl
        exact apart (Prod.mk.inj (Option.some.inj (stored.symm.trans held))).1
  next found =>
    have absent : ∀ val, ¬m.Contains key val := missing.mp (by simp [Hashmap.lookup,found])
    refine ⟨unique,by simp [absent],fun key' val' => ⟨?_,And.right⟩⟩
    intro contained
    refine ⟨?_,contained⟩
    rintro rfl
    exact absent val' contained

/-- Writing a slot that holds no other key leaves the lookups of the others as they are. -/
theorem lookup_set_other (m : Hashmap K V) (key' : K) (entries : Table K V) (size : Nat)
    (allocated : entries.length = m.tableSize)
    (other : ∀ i val, slot entries i = some (key',val) ↔ slot m.entries i = some (key',val)) :
    ({ m with entries := entries, size := size, allocated := allocated } : Hashmap K V).lookup key' =
      m.lookup key' := by
  have held : holds entries key' = holds m.entries key' := by
    funext i
    rw [Bool.eq_iff_iff,holds_iff,holds_iff]
    simp only [other]
  have found : hashmapFind { m with entries := entries, size := size, allocated := allocated } key' =
      hashmapFind m key' := congrArg (probe · m.tableSize maxChainLength (hashmapHashInt m key')) held
  rw [Hashmap.lookup,found,Hashmap.lookup]
  cases position : hashmapFind m key' with
  | none => rfl
  | some i =>
    obtain ⟨_,val,stored⟩ := hashmapFind_some position
    simp only [Option.bind_some,stored,(other i val).mpr stored]

/-- The slot that is chosen for a key is where the next lookup finds it. -/
theorem store_lookup (found : hashmapHash m key = some index) (val : V) (key' : K) :
    (m.store index key val).lookup key' = if key' = key then some val else m.lookup key' := by
  obtain ⟨_,inside,offset,bound,position,choice,earlier⟩ := hashmapHash_some found
  split
  next same =>
    subst same
    have here : slot (m.store index key' val).entries index = some (key',val) := by
      rw [store_slot inside,if_pos rfl]
    have chosen : hashmapFind (m.store index key' val) key' = some index := by
      refine (probe_eq_some_iff (hashmapHashInt_lt _ key')).mpr
        ⟨offset,bound,position.symm,holds_iff.mpr ⟨val,here⟩,fun l less => ?_⟩
      obtain ⟨used,others⟩ := earlier l less
      rw [Bool.eq_false_iff,ne_eq,holds_iff]
      rintro ⟨v,stored⟩
      change slot (m.store index key' val).entries (m.window key' l) = _ at stored
      rw [store_slot inside] at stored
      split at stored
      next same =>
        rcases choice with free | ⟨v',held⟩
        · exact used (same ▸ free)
        · exact others v' (same ▸ held)
      next => exact others v stored
    rw [Hashmap.lookup,chosen,Option.bind_some,here]
    rfl
  next apart =>
    refine lookup_set_other m key' _ _ _ fun i val' => ?_
    rw [slot_set m.entries index i _ (by rw [m.allocated]; exact inside)]
    split
    next same =>
      subst same
      constructor
      · intro stored
        exact absurd (Prod.mk.inj (Option.some.inj stored)).1.symm apart
      · intro stored
        rcases choice with free | ⟨v',held⟩
        · simp [free] at stored
        · exact absurd (Prod.mk.inj (Option.some.inj (stored.symm.trans held))).1 apart
    next => rfl

theorem remove_lookup (m : Hashmap K V) (apart : key' ≠ key) : (m.remove key).2.lookup key' = m.lookup key' := by
  unfold Hashmap.remove
  split
  next index found =>
    obtain ⟨inside,val,held⟩ := hashmapFind_some found
    refine lookup_set_other m key' _ _ _ fun i val' => ?_
    rw [slot_set m.entries index i none (by rw [m.allocated]; exact inside)]
    split
    next same =>
      subst same
      rw [held]
      simp [apart.symm]
    next => rfl
  next => rfl

theorem remove_relocked (m : Hashmap K V) (lock : Bool) (key : K) :
    (({ m with lock := lock } : Hashmap K V).remove key).2 = { (m.remove key).2 with lock := lock } := by
  have same : hashmapFind { m with lock := lock } key = hashmapFind m key := rfl
  unfold Hashmap.remove
  rw [same]
  cases hashmapFind m key with
  | none => rfl
  | some index => rfl

/-- A deletion that returns leaves the table without the key, but for the lock. -/
theorem del_removed (done : hashmapDel mutex m key = .returned (status,m')) :
    ∃ lock, m' = { (m.remove key).2 with lock := lock } := by
  obtain ⟨m₁,locked,done⟩ := Outcome.bind_eq_returned.mp done
  obtain ⟨lock,rfl⟩ := lock_relocked locked
  have after : pthreadMutexUnlock mutex (({ m with lock := lock } : Hashmap K V).remove key).2 = m' :=
    (Prod.mk.inj (Outcome.returned.inj done)).2
  rw [← after,remove_relocked]
  cases mutex with
  | ignored => exact ⟨lock,rfl⟩
  | default => exact ⟨false,rfl⟩

/-- A put finds a slot, or the table can grow and holds no key twice. -/
def Hashmap.Room (m : Hashmap K V) (calloc : Nat → Bool) (key : K) : Prop :=
  hashmapHash m key ≠ none ∨ (m.Unique ∧ calloc = fun _ => true)

/-- With room a put changes the lookup of its own key and no other. -/
theorem put_lookup (valid : m.Valid) (room : m.Room calloc key)
    (done : hashmapPut mutex calloc fuel m key val = .returned (status,m')) (key' : K) :
    m'.lookup key' = if key' = key then some val else m.lookup key' := by
  cases found : hashmapHash m key with
  | none =>
    obtain ⟨unique,rfl⟩ := room.resolve_left fun some => some found
    obtain rfl := put_ok done
    have clear : m.Clear key := fun index chosen => by simp [found] at chosen
    obtain ⟨valid',unique',written,_⟩ := put_spec valid unique clear done
    apply Option.ext
    intro val'
    rw [lookup_some_iff valid' unique',written]
    split
    next same => simp [same,eq_comm]
    next apart => simp [apart,lookup_some_iff valid unique]
  | some index =>
    obtain ⟨m₁,locked,inner⟩ := Outcome.bind_eq_returned.mp done
    obtain ⟨lock,rfl⟩ := lock_relocked locked
    cases fuel with
    | zero => cases inner
    | succ fuel =>
      have found' : hashmapHash { m with lock := lock } key = some index := found
      rw [putLocked,found'] at inner
      obtain ⟨_,rfl⟩ := Prod.mk.inj (Outcome.returned.inj inner)
      have stored := store_lookup found val key'
      cases mutex with
      | ignored => exact stored
      | default => exact stored

theorem store_fresh (fresh : m.Fresh) (found : hashmapHash m key = some index) (val : V) :
    (m.store index key val).Fresh where
  valid := store_valid fresh.valid found val
  unique := (store_spec fresh.unique (packed_clear fresh.valid fresh.packed key) found val).1
  packed := store_packed fresh.valid fresh.packed found val

theorem relock_fresh (fresh : m.Fresh) (lock : Bool) : ({ m with lock := lock } : Hashmap K V).Fresh :=
  ⟨relock_valid fresh.valid lock,fresh.unique,fresh.packed⟩

theorem putLocked_fresh (fresh : m.Fresh) (done : putLocked mutex calloc fuel m key val = .returned (status,m')) :
    m'.Fresh :=
  putLocked_invariant Hashmap.Fresh (fun _ _ => True) (fun _ _ _ _ _ => trivial)
    (fun _ _ _ val fresh _ found => store_fresh fresh found val) (fun _ fresh => grown_fresh fresh.valid)
    (fun _ lock fresh => relock_fresh fresh lock) mutex calloc fuel m fresh trivial done

/-- Puts keep a table fresh, whatever the allocator does. -/
theorem hashmapPut_fresh (fresh : m.Fresh) (done : hashmapPut mutex calloc fuel m key val = .returned (status,m')) :
    m'.Fresh := by
  obtain ⟨m₁,locked,inner⟩ := Outcome.bind_eq_returned.mp done
  obtain ⟨lock,rfl⟩ := lock_relocked locked
  exact putLocked_fresh (relock_fresh fresh lock) inner

/-- A put that finds no hole in front of its key keeps the keys distinct, whatever the allocator does: a table that
it grew was filled by puts alone. -/
theorem hashmapPut_unique (valid : m.Valid) (unique : m.Unique) (clear : m.Clear key)
    (done : hashmapPut mutex calloc fuel m key val = .returned (status,m')) : m'.Unique := by
  have unlocked {m : Hashmap K V} (unique : m.Unique) : (pthreadMutexUnlock mutex m).Unique := by
    cases mutex <;> exact unique
  obtain ⟨m₁,locked,inner⟩ := Outcome.bind_eq_returned.mp done
  obtain ⟨lock,rfl⟩ := lock_relocked locked
  cases fuel with
  | zero => contradiction
  | succ fuel =>
    simp only [putLocked] at inner
    split at inner
    next index found =>
      obtain ⟨-,rfl⟩ := Prod.mk.inj (Outcome.returned.inj inner)
      exact unlocked (store_spec (m := { m with lock := lock }) unique clear found val).1
    next =>
      obtain ⟨⟨status',m₂⟩,rehashed,continued⟩ := Outcome.bind_eq_returned.mp inner
      have grown : m₂.Fresh ∨ status' = .err ∧ m₂.Unique := by
        unfold hashmapRehash at rehashed
        split at rehashed
        · refine .inl (copyEntries_invariant Hashmap.Fresh (fun _ _ => True) _ ?_ _ _ (fun _ _ _ => trivial)
            (grown_fresh (relock_valid valid lock)) rehashed)
          exact fun m key val status m' fresh _ put => hashmapPut_fresh fresh put
        · obtain ⟨rfl,rfl⟩ := Prod.mk.inj (Outcome.returned.inj rehashed)
          exact .inr ⟨rfl,unique⟩
      dsimp only at continued
      split at continued
      next =>
        obtain ⟨-,rfl⟩ := Prod.mk.inj (Outcome.returned.inj continued)
        exact unlocked (grown.elim Hashmap.Fresh.unique And.right)
      next returned =>
        rcases grown with fresh | ⟨failed,_⟩
        · exact (putLocked_fresh fresh continued).unique
        · exact absurd failed returned

end Sizigy
