import Sizigy.Hashmap

/-! What one slot choice, one store and one growth can do, and the rule that carries a
property of tables through `hashmap_put` with its nested rehashes. Every table invariant
below is an instance of that rule. -/
set_option linter.unusedSectionVars false

namespace Sizigy

open Probing

variable {K V : Type} [DecidableEq K] [HashKey K] {m m' : Hashmap K V} {key : K}

theorem hashmapHashInt_lt (m : Hashmap K V) (key : K) : hashmapHashInt m key < m.tableSize :=
  Nat.mod_lt _ m.nonempty

/-- The `offset`-th slot of the window of a key. -/
def Hashmap.window (m : Hashmap K V) (key : K) (offset : Nat) : Nat :=
  (hashmapHashInt m key + offset) % m.tableSize

theorem window_lt (m : Hashmap K V) (key : K) (offset : Nat) : m.window key offset < m.tableSize :=
  Nat.mod_lt _ m.nonempty

theorem stop_false_iff (t : Table K V) (i : Nat) :
    ((slot t i).isNone || holds t key i) = false ↔
      slot t i ≠ none ∧ ∀ v, slot t i ≠ some (key,v) := by
  rw [Bool.or_eq_false_iff,Bool.eq_false_iff,Bool.eq_false_iff,ne_eq,ne_eq,holds_iff]
  simp

theorem hashmapHash_some {index : Nat} (found : hashmapHash m key = some index) :
    m.size < m.tableSize / 2 ∧ index < m.tableSize ∧
    ∃ offset < maxChainLength, index = m.window key offset ∧
      (slot m.entries index = none ∨ ∃ v, slot m.entries index = some (key,v)) ∧
      ∀ l < offset, slot m.entries (m.window key l) ≠ none ∧
        ∀ v, slot m.entries (m.window key l) ≠ some (key,v) := by
  unfold hashmapHash at found
  split at found
  · contradiction
  next room =>
    obtain ⟨offset,bound,rfl,here,earlier⟩ :=
      (probe_eq_some_iff (hashmapHashInt_lt m key)).mp found
    refine ⟨Nat.lt_of_not_le room,window_lt m key offset,offset,bound,rfl,?_,?_⟩
    · simpa [holds_iff] using here
    · intro l less
      exact (stop_false_iff _ _).mp (earlier l less)

theorem hashmapHash_none_iff :
    hashmapHash m key = none ↔ m.tableSize / 2 ≤ m.size ∨
      ∀ l < maxChainLength, slot m.entries (m.window key l) ≠ none ∧
        ∀ v, slot m.entries (m.window key l) ≠ some (key,v) := by
  unfold hashmapHash
  split
  next full => simp [full]
  next room =>
    rw [probe_eq_none_iff (hashmapHashInt_lt m key)]
    simp only [stop_false_iff]
    exact ⟨.inr,fun h => h.resolve_left room⟩

/-- The facts that no failing allocation and no deletion can break. -/
structure Hashmap.Valid (m : Hashmap K V) : Prop where
  counted : m.size = used m.entries
  half : m.size ≤ m.tableSize / 2
  grown : ∃ doublings, m.tableSize = initialSize * 2 ^ doublings
  within : Within maxChainLength (hashmapHashInt m) m.entries

def Hashmap.Unique (m : Hashmap K V) : Prop := Probing.Unique m.entries

def Hashmap.Packed (m : Hashmap K V) : Prop :=
  Probing.Packed maxChainLength (hashmapHashInt m) m.entries

theorem Hashmap.Valid.chain_le (valid : m.Valid) : maxChainLength ≤ m.tableSize := by
  obtain ⟨doublings,equal⟩ := valid.grown
  have one := Nat.one_le_two_pow (n := doublings)
  rw [equal]
  calc maxChainLength ≤ initialSize * 1 := by decide
    _ ≤ initialSize * 2 ^ doublings := Nat.mul_le_mul_left _ one

/-- A map without a slot for some key has entries. -/
theorem exists_used (valid : m.Valid) (full : hashmapHash m key = none) :
    ∃ pair : K × V, some pair ∈ m.entries := by
  rcases hashmapHash_none_iff.mp full with crowded | chain
  · have positive : 0 < used m.entries := by
      have eight := valid.chain_le
      have counted := valid.counted
      have : maxChainLength = 8 := rfl
      omega
    obtain ⟨entry,member,isSome⟩ := List.countP_pos_iff.mp positive
    obtain ⟨pair,rfl⟩ := Option.isSome_iff_exists.mp isSome
    exact ⟨pair,member⟩
  · obtain ⟨pair,stored⟩ := Option.ne_none_iff_exists'.mp (chain 0 (by decide)).1
    exact ⟨pair,mem_iff_slot.mpr ⟨_,stored⟩⟩

theorem create_valid : (hashmapCreate : Hashmap K V).Valid where
  counted := by simp [hashmapCreate]
  half := by simp [hashmapCreate]
  grown := ⟨0,by simp [hashmapCreate]⟩
  within := by simp [hashmapCreate]

theorem create_unique : (hashmapCreate : Hashmap K V).Unique := by
  simp [Hashmap.Unique,hashmapCreate]

theorem create_packed : (hashmapCreate : Hashmap K V).Packed := by
  simp [Hashmap.Packed,hashmapCreate]

theorem store_counted (counted : m.size = used m.entries) (inside : index < m.tableSize) (key : K) (val : V) :
    (m.store index key val).size = used (m.store index key val).entries := by
  have count := used_set m.entries index (some (key,val)) (by rw [m.allocated]; exact inside)
  cases free : slot m.entries index <;> simp [Hashmap.store,free] at count ⊢ <;> omega

theorem store_within (within : Within maxChainLength (hashmapHashInt m) m.entries)
    (found : hashmapHash m key = some index) (val : V) :
    Within maxChainLength (hashmapHashInt (m.store index key val)) (m.store index key val).entries := by
  obtain ⟨_,inside,offset,bound,position,_,_⟩ := hashmapHash_some found
  exact within.set (by rw [m.allocated]; exact inside) ⟨offset,bound,by rw [position,m.allocated]; rfl⟩

theorem store_valid (valid : m.Valid) (found : hashmapHash m key = some index) (val : V) :
    (m.store index key val).Valid := by
  obtain ⟨room,inside,_⟩ := hashmapHash_some found
  refine ⟨store_counted valid.counted inside key val,?_,valid.grown,store_within valid.within found val⟩
  simp only [Hashmap.store]
  split <;> omega

theorem grown_valid (valid : m.Valid) : m.grown.Valid where
  counted := by simp [Hashmap.grown]
  half := by simp [Hashmap.grown]
  grown := by
    obtain ⟨doublings,equal⟩ := valid.grown
    exact ⟨doublings + 1,by simp only [Hashmap.grown,equal,Nat.pow_succ',Nat.mul_left_comm]⟩
  within := by simp [Hashmap.grown]

theorem store_unique (unique : m.Unique) (inside : index < m.tableSize)
    (only : ∀ j v, slot m.entries j = some (key,v) → j = index) (val : V) :
    (m.store index key val).Unique :=
  Probing.Unique.set unique (by rw [m.allocated]; exact inside) only

theorem store_packed (valid : m.Valid) (packed : m.Packed)
    (found : hashmapHash m key = some index) (val : V) : (m.store index key val).Packed := by
  obtain ⟨_,inside,offset,bound,position,_,earlier⟩ := hashmapHash_some found
  refine Probing.Packed.set packed ?_ (by rw [m.allocated]; exact inside) bound
    (by rw [position,m.allocated]; rfl) ?_
  · rw [m.allocated]; exact valid.chain_le
  · intro l less
    rw [m.allocated]
    exact (earlier l less).1

theorem store_slot (inside : index < m.tableSize) (val : V) (j : Nat) :
    slot (m.store index key val).entries j =
      if j = index then some (key,val) else slot m.entries j :=
  slot_set m.entries index j _ (by rw [m.allocated]; exact inside)

section Rule

variable (inv : Hashmap K V → Prop) (allow : K → V → Prop)

theorem copyEntries_invariant (put : Hashmap K V → K → V → Outcome (Status × Hashmap K V))
    (kept : ∀ m key val status m', inv m → allow key val →
      put m key val = .returned (status,m') → inv m')
    (rest : Table K V) (m : Hashmap K V) (allowed : ∀ key val, some (key,val) ∈ rest → allow key val)
    (start : inv m) (done : copyEntries put rest m = .returned (status,m')) : inv m' := by
  induction rest generalizing m with
  | nil =>
    obtain ⟨rfl,rfl⟩ := Prod.mk.inj (Outcome.returned.inj done)
    exact start
  | cons first rest ih =>
    cases first with
    | none => exact ih m (fun key val member => allowed key val (.tail _ member)) start done
    | some pair =>
      obtain ⟨⟨middle,m₁⟩,putDone,continued⟩ := Outcome.bind_eq_returned.mp done
      have next := kept _ _ _ _ _ start (allowed _ _ (.head _)) putDone
      simp only at continued
      split at continued
      · obtain ⟨rfl,rfl⟩ := Prod.mk.inj (Outcome.returned.inj continued)
        exact next
      · exact ih m₁ (fun key val member => allowed key val (.tail _ member)) next continued

variable (stored : ∀ m key val, inv m → m.Contains key val → allow key val)
  (store : ∀ m index key val, inv m → allow key val → hashmapHash m key = some index →
    inv (m.store index key val))
  (grow : ∀ m, inv m → inv m.grown)
  (relock : ∀ (m : Hashmap K V) lock, inv m → inv { m with lock := lock })

include relock in
theorem lock_invariant (mutex : Mutex) (start : inv m)
    (locked : pthreadMutexLock mutex m = .returned m') : inv m' := by
  cases mutex with
  | ignored => exact Outcome.returned.inj locked ▸ start
  | default =>
    simp only [pthreadMutexLock] at locked
    split at locked
    · contradiction
    · exact Outcome.returned.inj locked ▸ relock m true start

include relock in
theorem unlock_invariant (mutex : Mutex) (start : inv m) : inv (pthreadMutexUnlock mutex m) := by
  cases mutex with
  | ignored => exact start
  | default => exact relock m false start

include stored store grow relock

/-- A property that allows every stored pair, and that stores and growth keep, is kept by
a put with all its nested rehashes, whatever its status and the allocator do. -/
theorem putLocked_invariant (mutex : Mutex) (calloc : Nat → Bool) (fuel : Nat) (m : Hashmap K V)
    (start : inv m) (allowed : allow key val)
    (done : putLocked mutex calloc fuel m key val = .returned (status,m')) : inv m' := by
  induction fuel generalizing m key val status m' with
  | zero => contradiction
  | succ fuel ih =>
    simp only [putLocked] at done
    split at done
    next index found =>
      obtain ⟨rfl,rfl⟩ := Prod.mk.inj (Outcome.returned.inj done)
      exact unlock_invariant inv relock mutex (store m index key val start allowed found)
    next =>
      obtain ⟨⟨middle,m₁⟩,rehashed,continued⟩ := Outcome.bind_eq_returned.mp done
      have next : inv m₁ := by
        simp only [hashmapRehash] at rehashed
        split at rehashed
        · refine copyEntries_invariant inv allow _ ?_ m.entries m.grown ?_ (grow m start) rehashed
          · intro m₂ key₂ val₂ status₂ m₃ before ok putDone
            obtain ⟨m₄,locked,inner⟩ := Outcome.bind_eq_returned.mp putDone
            exact ih m₄ (lock_invariant inv relock mutex before locked) ok inner
          · intro key₂ val₂ member
            exact stored m key₂ val₂ start (mem_iff_slot.mp member)
        · obtain ⟨rfl,rfl⟩ := Prod.mk.inj (Outcome.returned.inj rehashed)
          exact start
      simp only at continued
      split at continued
      · obtain ⟨rfl,rfl⟩ := Prod.mk.inj (Outcome.returned.inj continued)
        exact unlock_invariant inv relock mutex next
      · exact ih m₁ next allowed continued

theorem hashmapPut_invariant (mutex : Mutex) (calloc : Nat → Bool) (fuel : Nat) (m : Hashmap K V)
    (start : inv m) (allowed : allow key val)
    (done : hashmapPut mutex calloc fuel m key val = .returned (status,m')) : inv m' := by
  obtain ⟨m₁,locked,inner⟩ := Outcome.bind_eq_returned.mp done
  exact putLocked_invariant inv allow stored store grow relock mutex calloc fuel m₁
    (lock_invariant inv relock mutex start locked) allowed inner

/-- The same for a rehash that succeeds, from the new table on. -/
theorem rehashed_invariant (start : inv m.grown) (allowed : ∀ key val, m.Contains key val → allow key val)
    (done : hashmapRehash calloc (hashmapPut mutex calloc fuel) m = .returned (.ok,m')) : inv m' := by
  simp only [hashmapRehash] at done
  split at done
  · refine copyEntries_invariant inv allow _ ?_ m.entries m.grown (fun key val member => ?_) start done
    · intro m₁ key₁ val₁ status₁ m₂ before ok putDone
      exact hashmapPut_invariant inv allow stored store grow relock mutex calloc fuel m₁ before ok putDone
    · exact allowed key val (mem_iff_slot.mp member)
  · simp at done

end Rule

theorem copyEntries_le {put put' : Hashmap K V → K → V → Outcome (Status × Hashmap K V)}
    (le : ∀ m key val, (put m key val).Le (put' m key val)) (rest : Table K V) (m : Hashmap K V) :
    (copyEntries put rest m).Le (copyEntries put' rest m) := by
  induction rest generalizing m with
  | nil => exact .refl _
  | cons first rest ih =>
    cases first with
    | none => exact ih m
    | some pair =>
      refine (le m pair.1 pair.2).bind fun (status,m₁) => ?_
      by_cases failed : status ≠ .ok
      · simpa only [if_pos failed] using .refl _
      · simpa only [if_neg failed] using ih m₁

theorem putLocked_le_succ (mutex : Mutex) (calloc : Nat → Bool) (fuel : Nat) (m : Hashmap K V)
    (key : K) (val : V) :
    (putLocked mutex calloc fuel m key val).Le (putLocked mutex calloc (fuel + 1) m key val) := by
  induction fuel generalizing m key val with
  | zero => exact .unfinished _
  | succ fuel ih =>
    rw [putLocked,putLocked]
    split
    · exact .refl _
    · refine Outcome.Le.bind ?_ fun (status,m₁) => ?_
      · simp only [hashmapRehash]
        split
        · refine copyEntries_le (fun m key val => ?_) _ _
          exact (Outcome.Le.refl _).bind fun m => ih m key val
        · exact .refl _
      · by_cases failed : status = .err
        · simpa only [if_pos failed] using .refl _
        · simpa only [if_neg failed] using ih m₁ key val

theorem hashmapPut_le (mutex : Mutex) (calloc : Nat → Bool) {fuel more : Nat} (le : fuel ≤ more)
    (m : Hashmap K V) (key : K) (val : V) :
    (hashmapPut mutex calloc fuel m key val).Le (hashmapPut mutex calloc more m key val) := by
  induction le with
  | refl => exact .refl _
  | step _ ih =>
    exact ih.trans ((Outcome.Le.refl _).bind fun m => putLocked_le_succ mutex calloc _ m key val)

theorem relock_valid (valid : m.Valid) (lock : Bool) : ({ m with lock := lock } : Hashmap K V).Valid :=
  ⟨valid.counted,valid.half,valid.grown,valid.within⟩

theorem put_valid (valid : m.Valid)
    (done : hashmapPut mutex calloc fuel m key val = .returned (status,m')) : m'.Valid :=
  hashmapPut_invariant Hashmap.Valid (fun _ _ => True) (fun _ _ _ _ _ => trivial)
    (fun _ _ _ val valid _ found => store_valid valid found val) (fun _ valid => grown_valid valid)
    (fun _ lock valid => relock_valid valid lock) mutex calloc fuel m valid trivial done

/-- A put stores nothing but the pair it is given and pairs that were there before. -/
theorem put_subset (done : hashmapPut mutex calloc fuel m key val = .returned (status,m'))
    (contained : m'.Contains key' val') : (key' = key ∧ val' = val) ∨ m.Contains key' val' := by
  let allow (key' : K) (val' : V) : Prop := (key' = key ∧ val' = val) ∨ m.Contains key' val'
  refine hashmapPut_invariant (fun m₁ => ∀ key' val', m₁.Contains key' val' → allow key' val') allow
    ?_ ?_ ?_ ?_ mutex calloc fuel m ?_ (.inl ⟨rfl,rfl⟩) done key' val' contained
  · exact fun _ _ _ all there => all _ _ there
  · rintro m₁ index key₁ val₁ all new found key₂ val₂ ⟨i,there⟩
    rw [store_slot (hashmapHash_some found).2.1] at there
    split at there
    · obtain ⟨rfl,rfl⟩ := Prod.mk.inj (Option.some.inj there)
      exact new
    · exact all _ _ ⟨i,there⟩
  · rintro m₁ - key₂ val₂ ⟨i,there⟩
    simp [Hashmap.grown] at there
  · exact fun _ _ all => all
  · exact fun _ _ there => .inr there

theorem lookup_eq (m : Hashmap K V) (key : K) :
    m.lookup key = Probing.lookup maxChainLength (hashmapHashInt m) m.entries key := by
  simp [Hashmap.lookup,Probing.lookup,hashmapFind,m.allocated]

theorem lookup_some_iff (valid : m.Valid) (unique : m.Unique) :
    m.lookup key = some val ↔ m.Contains key val := by
  rw [lookup_eq]
  exact lookup_eq_some_iff unique valid.within (by rw [m.allocated]; exact hashmapHashInt_lt m key)

theorem lookup_none_iff (valid : m.Valid) :
    m.lookup key = none ↔ ∀ val, ¬m.Contains key val := by
  rw [lookup_eq,lookup_eq_none_iff valid.within (by rw [m.allocated]; exact hashmapHashInt_lt m key)]
  simp only [Hashmap.Contains,not_exists]
  exact forall_comm

theorem hashmapFind_some {index : Nat} (found : hashmapFind m key = some index) :
    index < m.tableSize ∧ ∃ val, slot m.entries index = some (key,val) := by
  obtain ⟨offset,_,position,here,_⟩ := (probe_eq_some_iff (hashmapHashInt_lt m key)).mp found
  exact ⟨position ▸ window_lt m key offset,holds_iff.mp here⟩

theorem lookup_contains (found : m.lookup key = some val) : m.Contains key val := by
  simp only [Hashmap.lookup,Option.bind_eq_some_iff,Option.map_eq_some_iff] at found
  obtain ⟨i,position,⟨key',val'⟩,stored,rfl⟩ := found
  obtain ⟨_,v,same⟩ := hashmapFind_some position
  obtain ⟨rfl,rfl⟩ := Prod.mk.inj (Option.some.inj (stored.symm.trans same))
  exact ⟨i,stored⟩

theorem remove_valid (valid : m.Valid) (key : K) : (m.remove key).2.Valid := by
  unfold Hashmap.remove
  split
  next index found =>
    obtain ⟨inside,val,stored⟩ := hashmapFind_some found
    have inEntries : index < m.entries.length := by rw [m.allocated]; exact inside
    have count := used_set m.entries index none inEntries
    have before := valid.counted
    have half := valid.half
    simp only [stored,Option.isSome_some,Option.isSome_none,Bool.toNat_true,Bool.toNat_false] at count
    exact ⟨by dsimp only; omega,by dsimp only; omega,valid.grown,valid.within.erase inEntries⟩
  next => exact valid

end Sizigy
