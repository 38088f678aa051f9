import Sizigy.HashmapRefinement

/-! Growth of the map. A rehash that succeeds keeps the stored pairs, however many rehashes run
inside it. One that fails inside its copy loop leaves a table that has lost the entries not yet
copied; whether that can happen is decided by where the entries go when they are put, in the
order of the slots, into a table of twice the size. -/

set_option linter.unusedSectionVars false

namespace Sizigy.HashmapRehash

open Probing HashmapRefinement

variable {K V : Type} [DecidableEq K] [HashKey K] {m m' m₁ : Hashmap K V} {key : K} {val : V}

/-- A table of at least the given size in which every entry is counted and in its window. -/
structure Sized (n : Nat) (m : Hashmap K V) : Prop where
  counted : m.size = used m.entries
  within : Within maxChainLength (hashmapHashInt m) m.entries
  large : n ≤ m.tableSize

theorem store_sized (sized : Sized n m) (found : hashmapHash m key = some index) (val : V) :
    Sized n (m.store index key val) :=
  ⟨store_counted sized.counted (hashmapHash_some found).2.1 key val,store_within sized.within found val,sized.large⟩

theorem grown_sized (large : n ≤ 2 * m.tableSize) : Sized n m.grown :=
  ⟨by simp [Hashmap.grown],by simp [Hashmap.grown],large⟩

theorem rehashed_sized
    (done : hashmapRehash calloc (hashmapPut mutex calloc fuel) m = .returned (.ok,m')) :
    Sized (2 * m.tableSize) m' := by
  refine rehashed_invariant (Sized (2 * m.tableSize)) (fun _ _ => True) (fun _ _ _ _ _ => trivial) ?_ ?_ ?_
    (grown_sized (Nat.le_refl _)) (fun _ _ _ => trivial) done
  · exact fun _ _ _ val sized _ found => store_sized sized found val
  · exact fun m₁ sized => grown_sized (by have := sized.large; omega)
  · exact fun _ _ sized => ⟨sized.counted,sized.within,sized.large⟩

theorem contains_lookup (unique : m.Unique) (within : Within maxChainLength (hashmapHashInt m) m.entries) :
    m.lookup key = some val ↔ m.Contains key val := by
  rw [lookup_eq]
  exact lookup_eq_some_iff unique within (by rw [m.allocated]; exact hashmapHashInt_lt m key)

/-- The same pairs, found and counted alike. -/
structure SameContents (m m' : Hashmap K V) : Prop where
  pairs : ∀ key val, m'.Contains key val ↔ m.Contains key val
  lookup : ∀ key, m'.lookup key = m.lookup key
  size : m'.size = m.size

theorem SameContents.trans (first : SameContents m m₁) (second : SameContents m₁ m') : SameContents m m' :=
  ⟨fun key val => (second.pairs key val).trans (first.pairs key val),
    fun key => (second.lookup key).trans (first.lookup key),second.size.trans first.size⟩

theorem rehashed_same (counted : m.size = used m.entries) (unique : m.Unique)
    (within : Within maxChainLength (hashmapHashInt m) m.entries)
    (done : hashmapRehash calloc (hashmapPut mutex calloc fuel) m = .returned (.ok,m')) :
    SameContents m m' ∧ m'.Unique := by
  have sized := rehashed_sized done
  obtain ⟨unique',pairs⟩ := hashmapRehash_spec _ (locked_adds (putLocked_adds mutex calloc fuel)) unique done
  refine ⟨⟨pairs,fun key => Option.ext fun val => ?_,?_⟩,unique'⟩
  · rw [contains_lookup unique' sized.within,contains_lookup unique within,pairs]
  · rw [sized.counted,counted]
    apply Nat.le_antisymm
    · refine used_le_used unique' fun i key v stored => ?_
      obtain ⟨j,there⟩ := (pairs key v).mp ⟨i,stored⟩
      exact ⟨j,v,there⟩
    · refine used_le_used unique fun i key v stored => ?_
      obtain ⟨j,there⟩ := (pairs key v).mpr ⟨i,stored⟩
      exact ⟨j,v,there⟩

/-- A put that does not grow the table. -/
def place (m : Hashmap K V) (key : K) (val : V) : Option (Hashmap K V) :=
  (hashmapHash m key).map fun index => m.store index key val

/-- The copy loop with such puts. -/
def refill : Table K V → Hashmap K V → Option (Hashmap K V)
  | [], m => some m
  | none :: rest, m => refill rest m
  | some (key,val) :: rest, m => (place m key val).bind (refill rest)

/-- The entries, in the order of their slots, put into a table of twice the size. -/
def regrow (m : Hashmap K V) : Option (Hashmap K V) := refill m.entries m.grown

theorem put_found (found : hashmapHash m key = some index) (calloc : Nat → Bool) (fuel : Nat) (val : V) :
    hashmapPut .ignored calloc (fuel + 1) m key val = .returned (.ok,m.store index key val) := by
  simp [hashmapPut,pthreadMutexLock,putLocked,found,pthreadMutexUnlock]

theorem put_full (full : hashmapHash m key = none) (calloc : Nat → Bool) (fuel : Nat) (val : V) :
    hashmapPut .ignored calloc (fuel + 1) m key val = (do
      let (status,m) ← hashmapRehash calloc (hashmapPut .ignored calloc fuel) m
      if status = .err then return (.err,m) else hashmapPut .ignored calloc fuel m key val) := by
  change putLocked .ignored calloc (fuel + 1) m key val = _
  rw [putLocked,full]
  rfl

theorem refill_copies (rest : Table K V) (m : Hashmap K V) (filled : refill rest m = some m₁)
    (calloc : Nat → Bool) (fuel : Nat) :
    copyEntries (hashmapPut .ignored calloc (fuel + 1)) rest m = .returned (.ok,m₁) := by
  induction rest generalizing m with
  | nil => simpa [refill,copyEntries] using filled
  | cons first rest ih =>
    cases first with
    | none => exact ih m filled
    | some pair =>
      obtain ⟨key,val⟩ := pair
      cases found : hashmapHash m key with
      | none => simp [refill,place,found] at filled
      | some index =>
        simp only [refill,place,found,Option.map_some,Option.bind_some] at filled
        simpa [copyEntries,put_found found] using ih _ filled

theorem store_size_le (m : Hashmap K V) (index : Nat) (key : K) (val : V) :
    (m.store index key val).size ≤ m.size + 1 := by
  simp only [Hashmap.store]
  split <;> omega

/-- A copy loop that meets a full window, with no memory to grow once more, stops there. -/
theorem refill_fails (calloc : Nat → Bool) (rest : Table K V) (m : Hashmap K V) (spilled : refill rest m = none)
    (refused : calloc (2 * m.tableSize) = false) (fuel : Nat) :
    ∃ m', copyEntries (hashmapPut .ignored calloc (fuel + 1)) rest m = .returned (.err,m') ∧
      m'.size < m.size + used rest := by
  induction rest generalizing m with
  | nil => simp [refill] at spilled
  | cons first rest ih =>
    cases first with
    | none =>
      obtain ⟨m',copied,smaller⟩ := ih m spilled refused
      exact ⟨m',copied,by simpa [used] using smaller⟩
    | some pair =>
      obtain ⟨key,val⟩ := pair
      cases found : hashmapHash m key with
      | none => exact ⟨m,by simp [copyEntries,put_full found,hashmapRehash,refused],by simp [used]⟩
      | some index =>
        simp only [refill,place,found,Option.map_some,Option.bind_some] at spilled
        obtain ⟨m',copied,smaller⟩ := ih (m.store index key val) spilled refused
        have grew := store_size_le m index key val
        have more : used (some (key,val) :: rest) = used rest + 1 := by simp [used]
        exact ⟨m',by simpa [copyEntries,put_found found] using copied,by omega⟩

theorem regrow_rehashes (calloc : Nat → Bool) (regrown : regrow m = some m₁)
    (allowed : calloc (2 * m.tableSize) = true) (fuel : Nat) :
    hashmapRehash calloc (hashmapPut .ignored calloc (fuel + 1)) m = .returned (.ok,m₁) := by
  simp only [hashmapRehash,allowed,if_true]
  exact refill_copies m.entries m.grown regrown calloc fuel

theorem regrow_same (valid : m.Valid) (unique : m.Unique) (regrown : regrow m = some m₁) :
    SameContents m m₁ ∧ m₁.Valid ∧ m₁.Unique := by
  have done := regrow_rehashes (fun _ => true) regrown rfl 0
  obtain ⟨same,unique₁⟩ := rehashed_same valid.counted unique valid.within done
  exact ⟨same,(hashmapRehash_packed valid done).1,unique₁⟩

theorem regrow_tableSize (regrown : regrow m = some m₁) : m₁.tableSize = 2 * m.tableSize := by
  have refilled (rest : Table K V) (m : Hashmap K V) (filled : refill rest m = some m₁) :
      m₁.tableSize = m.tableSize := by
    induction rest generalizing m with
    | nil => simp_all [refill]
    | cons first rest ih =>
      cases first with
      | none => exact ih m filled
      | some pair =>
        obtain ⟨m₂,placed,filled⟩ := Option.bind_eq_some_iff.mp filled
        obtain ⟨index,_,rfl⟩ := Option.map_eq_some_iff.mp placed
        exact ih (m.store index pair.1 pair.2) filled
  exact refilled m.entries m.grown regrown

theorem place_put (placed : place m key val = some m₁) (calloc : Nat → Bool) (fuel : Nat) :
    hashmapPut .ignored calloc (fuel + 1) m key val = .returned (.ok,m₁) := by
  obtain ⟨index,found,rfl⟩ := Option.map_eq_some_iff.mp placed
  exact put_found found calloc fuel val

/-- The map that puts of these keys into an empty one leave, each with the value 0. -/
def filled (keys : List CString) : Option (Hashmap CString Nat) :=
  refill (keys.map fun key => some (key,0)) hashmapCreate

theorem refill_run (keys : List CString) {m m₁ : Hashmap CString Nat} (fresh : m.Fresh)
    (run : Run (fun _ => Called) hashmapCreate past m)
    (stored : refill (keys.map fun key => some (key,0)) m = some m₁) :
    m₁.Fresh ∧ Run (fun _ => Called) hashmapCreate (past ++ keys.map (Op.put · 0)) m₁ := by
  induction keys generalizing m past with
  | nil =>
    obtain rfl : m = m₁ := by simpa [refill] using stored
    exact ⟨fresh,by simpa using run⟩
  | cons key keys ih =>
    obtain ⟨m₂,placed,stored⟩ := Option.bind_eq_some_iff.mp stored
    have done := place_put placed (fun _ => true) 0
    have called : Called m (.put key 0) m₂ := ⟨1,.ok,done⟩
    simpa using ih (put_fresh fresh done).1 (run.snoc called) stored

theorem filled_run {m : Hashmap CString Nat} (stored : filled keys = some m) :
    m.Fresh ∧ Run (fun _ => Called) hashmapCreate (keys.map (Op.put · 0)) m :=
  refill_run keys create_fresh .nil stored

/-- Eight keys whose home is slot 248 in the tables of 256 and of 512 slots. -/
def clusterKeys : List CString :=
  [cstr [103,54],cstr [56,55],cstr [97,120,54],cstr [99,106,111],cstr [99,112,117],cstr [99,49,100],
    cstr [100,103,51],cstr [100,52,97]]

/-- Four more whose home is slot 252 in both: they wrap around the end of the smaller table. -/
def wrappingKeys : List CString := [cstr [113,110],cstr [117,110],cstr [56,98],cstr [57,52]]

theorem cluster_filled : (filled clusterKeys).isSome = true := by decide +kernel

theorem crowd_filled : (filled (clusterKeys ++ wrappingKeys)).isSome = true := by decide +kernel

def cluster : Hashmap CString Nat := (filled clusterKeys).get cluster_filled

def crowd : Hashmap CString Nat := (filled (clusterKeys ++ wrappingKeys)).get crowd_filled

def newcomer : CString := cstr [114,50]

/-- The rehash of the crowded map grows twice, the second time inside its copy loop. -/
theorem crowd_rehashed : ∃ m', hashmapRehash (fun _ => true) (hashmapPut .ignored (fun _ => true) 3) crowd =
    .returned (.ok,m') ∧ m'.tableSize = 1024 ∧ m'.size = 12 := by
  have evaluated : (match hashmapRehash (fun _ => true) (hashmapPut .ignored (fun _ => true) 3) crowd with
      | .returned (.ok,m') => m'.tableSize == 1024 && m'.size == 12
      | _ => false) = true := by decide +kernel
  split at evaluated
  next m' done => exact ⟨m',done,by simpa using evaluated⟩
  next => contradiction

/-- A rehash that returns `HASHMAP_OK`, whatever it nests, keeps the pairs and their number, has
distinct keys in a table at least twice as large, and answers every lookup as before. -/
theorem growth_loses_nothing (counted : m.size = used m.entries) (unique : m.Unique)
    (within : Within maxChainLength (hashmapHashInt m) m.entries)
    (done : hashmapRehash calloc (hashmapPut .ignored calloc fuel) m = .returned (.ok,m')) :
    (∀ key val, m'.Contains key val ↔ m.Contains key val) ∧ m'.size = m.size ∧ m'.Unique ∧
      2 * m.tableSize ≤ m'.tableSize ∧
      ∀ key, ∃ found, hashmapGet .ignored m key = .returned (found,m) ∧
        hashmapGet .ignored m' key = .returned (found,m') := by
  obtain ⟨same,unique'⟩ := rehashed_same counted unique within done
  refine ⟨same.pairs,same.size,unique',(rehashed_sized done).large,fun key => ⟨m.lookup key,rfl,?_⟩⟩
  rw [← same.lookup key]
  rfl

theorem crowd_keeps : ∃ m', m'.tableSize = 1024 ∧ m'.size = 12 ∧
    hashmapRehash (fun _ => true) (hashmapPut .ignored (fun _ => true) 3) crowd = .returned (.ok,m') ∧
    ∀ key val, m'.Contains key val ↔ crowd.Contains key val := by
  obtain ⟨m',done,large,count⟩ := crowd_rehashed
  have fresh := (filled_run (Option.some_get crowd_filled).symm).1
  exact ⟨m',large,count,done,(growth_loses_nothing fresh.valid.counted fresh.unique fresh.valid.within done).1⟩

/-- For so many doublings, while the key finds no slot, all entries find one in the next table. -/
def Steady : Nat → Hashmap K V → K → Prop
  | 0, _, _ => True
  | n + 1, m, key => hashmapHash m key = none → ∃ m₁, regrow m = some m₁ ∧ Steady n m₁ key

theorem steady_next (steady : ∀ n, Steady n m key) (full : hashmapHash m key = none) :
    ∃ m₁, regrow m = some m₁ ∧ ∀ n, Steady n m₁ key := by
  obtain ⟨m₁,regrown,_⟩ := steady 1 full
  refine ⟨m₁,regrown,fun n => ?_⟩
  obtain ⟨m₂,regrown',later⟩ := steady (n + 1) full
  exact Option.some.inj (regrown'.symm.trans regrown) ▸ later

/-- With room for all entries in each next table, only an outermost growth can fail. -/
theorem steady_same (valid : m.Valid) (unique : m.Unique) (steady : ∀ n, Steady n m key)
    (failed : hashmapPut .ignored calloc fuel m key val = .returned (.err,m')) : SameContents m m' := by
  induction fuel generalizing m with
  | zero => simp [hashmapPut,pthreadMutexLock,putLocked] at failed
  | succ fuel ih =>
    cases found : hashmapHash m key with
    | some index => simp [put_found found] at failed
    | none =>
      rw [put_full found] at failed
      obtain ⟨m₁,regrown,later⟩ := steady_next steady found
      cases allowed : calloc (2 * m.tableSize) with
      | false =>
        obtain rfl : m = m' := by simpa [hashmapRehash,allowed] using failed
        exact ⟨fun _ _ => .rfl,fun _ => rfl,rfl⟩
      | true =>
        cases fuel with
        | zero =>
          obtain ⟨⟨status,m₂⟩,rehashed,failed⟩ := Outcome.bind_eq_returned.mp failed
          have fine : status = .ok := by
            simp only [hashmapRehash,allowed,if_true] at rehashed
            refine copyEntries_ok _ ?_ m.entries m.grown rehashed
            intro m key val status m' done
            simp [hashmapPut,pthreadMutexLock,putLocked] at done
          simp [fine,hashmapPut,pthreadMutexLock,putLocked] at failed
        | succ fuel =>
          obtain ⟨same,valid₁,unique₁⟩ := regrow_same valid unique regrown
          rw [regrow_rehashes calloc regrown allowed fuel] at failed
          exact same.trans (ih valid₁ unique₁ later (by simpa using failed))

/-- Otherwise an allocator that refuses from some size on makes the put lose entries. -/
theorem unsteady_loses (valid : m.Valid) (unique : m.Unique) (n : Nat) (unsteady : ¬Steady n m key) (val : V) :
    ∃ limit fuel m', 2 * m.tableSize ≤ limit ∧ m'.size < m.size ∧
      hashmapPut .ignored (fun size => decide (size ≤ limit)) fuel m key val = .returned (.err,m') := by
  induction n generalizing m with
  | zero => exact absurd trivial unsteady
  | succ n ih =>
    simp only [Steady,Classical.not_imp,not_exists,not_and] at unsteady
    obtain ⟨full,spills⟩ := unsteady
    cases regrown : regrow m with
    | none =>
      have refused : decide (2 * m.grown.tableSize ≤ 2 * m.tableSize) = false := by
        have positive := m.nonempty
        have double : m.grown.tableSize = 2 * m.tableSize := rfl
        exact decide_eq_false (by omega)
      obtain ⟨m',copied,smaller⟩ := refill_fails (fun size => decide (size ≤ 2 * m.tableSize))
        m.entries m.grown regrown refused 0
      have empty : m.grown.size = 0 := rfl
      refine ⟨2 * m.tableSize,2,m',Nat.le_refl _,by rw [valid.counted]; omega,?_⟩
      simp [put_full full,hashmapRehash,copied]
    | some m₁ =>
      obtain ⟨same,valid₁,unique₁⟩ := regrow_same valid unique regrown
      obtain ⟨limit,fuel,m',large,smaller,failed⟩ := ih valid₁ unique₁ (spills m₁ regrown)
      have size := regrow_tableSize regrown
      rw [same.size] at smaller
      refine ⟨limit,fuel + 1 + 1,m',by omega,smaller,?_⟩
      have allowed : decide (2 * m.tableSize ≤ limit) = true := decide_eq_true (by omega)
      have more := (hashmapPut_le .ignored (fun size => decide (size ≤ limit)) (Nat.le_succ fuel) m₁ key val).returned
        failed
      rw [put_full full,regrow_rehashes (fun size => decide (size ≤ limit)) regrown allowed fuel]
      simpa using more

/-- No entry lies in front of its home, past the end of the table. -/
def Unwrapped (m : Hashmap K V) : Prop :=
  ∀ i key val, slot m.entries i = some (key,val) → hashmapHashInt m key ≤ i

instance (m : Hashmap K V) : Decidable (Unwrapped m) :=
  decidable_of_iff (∀ entry ∈ m.entries.zipIdx, ∀ pair ∈ entry.1, hashmapHashInt m pair.1 ≤ entry.2) (by
    constructor
    · intro all i key val stored
      exact all (some (key,val),i) (List.mem_zipIdx_iff_getElem?.mpr (Option.join_eq_some_iff.mp stored)) (key,val) rfl
    · rintro unwrapped ⟨entry,i⟩ listed ⟨key,val⟩ rfl
      exact unwrapped i key val (Option.join_eq_some_iff.mpr (List.mem_zipIdx_iff_getElem?.mp listed)))

/-- In a table of twice the size a slot of the window, if the old one did not wrap there, is the
old slot in one of the halves. -/
theorem window_half (double : m.tableSize = 2 * n) (key : K) (l : Nat) (fits : HashKey.hash key % n + l < n) :
    m.window key l = hashmapHashInt m key + l ∧ m.window key l % n = HashKey.hash key % n + l := by
  have half : hashmapHashInt m key % n = HashKey.hash key % n := by
    rw [hashmapHashInt,double]
    exact Nat.mod_mod_of_dvd _ ⟨2,Nat.mul_comm 2 n⟩
  have small : hashmapHashInt m key < 2 * n := double ▸ hashmapHashInt_lt m key
  have split := Nat.div_add_mod (hashmapHashInt m key) n
  have quotient : hashmapHashInt m key / n < 2 := Nat.div_lt_of_lt_mul (by omega)
  have below : n * (hashmapHashInt m key / n) ≤ n * 1 := Nat.mul_le_mul_left n (by omega)
  have position : m.window key l = hashmapHashInt m key + l := Nat.mod_eq_of_lt (by omega)
  have same : hashmapHashInt m key + l = HashKey.hash key % n + l + n * (hashmapHashInt m key / n) := by omega
  refine ⟨position,?_⟩
  rw [position,same,Nat.add_mul_mod_self_left]
  exact Nat.mod_eq_of_lt fits

/-- The copy loop at slot `i` of a table of `n` slots none of whose entries wraps: the new table
uses, in either half, only slots in front of `i`, and the entries to come are in their windows. -/
structure Refilling (n i : Nat) (rest : Table K V) (m : Hashmap K V) : Prop where
  double : m.tableSize = 2 * n
  ends : i + rest.length = n
  few : m.size + used rest < n
  unwrapped : Unwrapped m
  before : ∀ p pair, slot m.entries p = some pair → p % n < i
  near : ∀ j key val, slot rest j = some (key,val) →
    HashKey.hash key % n ≤ i + j ∧ i + j < HashKey.hash key % n + maxChainLength

namespace Refilling

variable {rest : Table K V} {first : Option (K × V)}

theorem room (refilling : Refilling n i (first :: rest) m) : i < n := by
  have ends := refilling.ends
  simp only [List.length_cons] at ends
  omega

theorem later (refilling : Refilling n i (first :: rest) m) (j : Nat) (key : K) (val : V)
    (stored : slot rest j = some (key,val)) :
    HashKey.hash key % n ≤ i + 1 + j ∧ i + 1 + j < HashKey.hash key % n + maxChainLength := by
  have bounds := refilling.near (j + 1) key val (by simpa [slot] using stored)
  omega

theorem skip (refilling : Refilling n i (none :: rest) m) : Refilling n (i + 1) rest m where
  double := refilling.double
  ends := by
    have ends := refilling.ends
    simp only [List.length_cons] at ends
    omega
  few := by simpa [used] using refilling.few
  unwrapped := refilling.unwrapped
  before p pair stored := Nat.lt_succ_of_lt (refilling.before p pair stored)
  near := refilling.later

/-- The slot at the old offset of the entry is free, in whichever half it is. -/
theorem free (refilling : Refilling n i (some (key,val) :: rest) m) :
    slot m.entries (m.window key (i - HashKey.hash key % n)) = none := by
  obtain ⟨home,_⟩ := refilling.near 0 key val rfl
  have room := refilling.room
  have remainder := (window_half refilling.double key (i - HashKey.hash key % n) (by omega)).2
  by_contra taken
  obtain ⟨pair,stored⟩ := Option.ne_none_iff_exists'.mp taken
  have := refilling.before _ pair stored
  omega

/-- The entry moves to its old offset or a smaller one. -/
theorem hash (refilling : Refilling n i (some (key,val) :: rest) m) :
    ∃ offset, hashmapHash m key = some (m.window key offset) ∧ HashKey.hash key % n + offset ≤ i := by
  obtain ⟨home,close⟩ := refilling.near 0 key val rfl
  cases found : hashmapHash m key with
  | none =>
    rcases hashmapHash_none_iff.mp found with loaded | crowded
    · have few := refilling.few
      have double := refilling.double
      omega
    · exact absurd refilling.free (crowded (i - HashKey.hash key % n) (by omega)).1
  | some index =>
    obtain ⟨_,_,offset,_,rfl,_,earlier⟩ := hashmapHash_some found
    refine ⟨offset,rfl,?_⟩
    by_contra high
    exact (earlier (i - HashKey.hash key % n) (by omega)).1 refilling.free

theorem store (refilling : Refilling n i (some (key,val) :: rest) m)
    (found : hashmapHash m key = some (m.window key offset)) (low : HashKey.hash key % n + offset ≤ i) :
    Refilling n (i + 1) rest (m.store (m.window key offset) key val) := by
  have inside := (hashmapHash_some found).2.1
  have room := refilling.room
  obtain ⟨position,remainder⟩ := window_half refilling.double key offset (by omega)
  refine ⟨refilling.double,?_,?_,fun p key' val' stored => ?_,fun p pair stored => ?_,refilling.later⟩
  · have ends := refilling.ends
    simp only [List.length_cons] at ends
    omega
  · have size := store_size_le m (m.window key offset) key val
    have more : used (some (key,val) :: rest) = used rest + 1 := by simp [used]
    have few := refilling.few
    omega
  · rw [store_slot inside] at stored
    split at stored
    next same =>
      obtain ⟨rfl,_⟩ := Prod.mk.inj (Option.some.inj stored)
      change hashmapHashInt m key ≤ p
      omega
    next => exact refilling.unwrapped p key' val' stored
  · rw [store_slot inside] at stored
    split at stored
    next same =>
      rw [same,remainder]
      omega
    next => exact Nat.lt_succ_of_lt (refilling.before p pair stored)

theorem completes (refilling : Refilling n i rest m) : ∃ m₁, refill rest m = some m₁ ∧ Unwrapped m₁ := by
  induction rest generalizing i m with
  | nil => exact ⟨m,rfl,refilling.unwrapped⟩
  | cons first rest ih =>
    cases first with
    | none => exact ih refilling.skip
    | some pair =>
      obtain ⟨offset,found,low⟩ := refilling.hash
      simpa [refill,place,found] using ih (refilling.store found low)

end Refilling

/-- In a table that does not wrap an entry is at its home or less than a window behind it. -/
theorem unwrapped_near (valid : m.Valid) (unwrapped : Unwrapped m) (stored : slot m.entries j = some (key,val)) :
    HashKey.hash key % m.tableSize ≤ j ∧ j < HashKey.hash key % m.tableSize + maxChainLength := by
  obtain ⟨offset,bound,position⟩ := valid.within j key val stored
  have home := unwrapped j key val stored
  have inside := hashmapHashInt_lt m key
  have chain := valid.chain_le
  rw [m.allocated] at position
  simp only [hashmapHashInt] at position home inside
  have fits : HashKey.hash key % m.tableSize + offset < m.tableSize := by
    by_contra wrapped
    rw [Nat.mod_eq_sub_mod (by omega),Nat.mod_eq_of_lt (by omega)] at position
    omega
  rw [Nat.mod_eq_of_lt fits] at position
  omega

theorem unwrapped_regrow (valid : m.Valid) (unwrapped : Unwrapped m) :
    ∃ m₁, regrow m = some m₁ ∧ Unwrapped m₁ := by
  have start : Refilling m.tableSize 0 m.entries m.grown := by
    refine ⟨rfl,by simp [m.allocated],?_,fun i key val stored => ?_,fun p pair stored => ?_,?_⟩
    · have empty : m.grown.size = 0 := rfl
      have half := valid.half
      have counted := valid.counted
      have positive := m.nonempty
      omega
    · simp [Hashmap.grown] at stored
    · simp [Hashmap.grown] at stored
    · intro j key val stored
      simpa using unwrapped_near valid unwrapped stored
  exact start.completes

/-- Entries that do not wrap around the end of the table find their slots in every next one. -/
theorem unwrapped_steady (valid : m.Valid) (unique : m.Unique) (unwrapped : Unwrapped m) (key : K) (n : Nat) :
    Steady n m key := by
  induction n generalizing m with
  | zero => trivial
  | succ n ih =>
    intro _
    obtain ⟨m₁,regrown,unwrapped₁⟩ := unwrapped_regrow valid unwrapped
    obtain ⟨_,valid₁,unique₁⟩ := regrow_same valid unique regrown
    exact ⟨m₁,regrown,ih valid₁ unique₁ unwrapped₁⟩

/-- A put that fails changes no lookup and no count, whatever the allocator does, exactly when
the entries find their slots in every next table for as long as the key finds none. -/
theorem failed_put_harmless_iff (valid : m.Valid) (unique : m.Unique) (key : K) (val : V) :
    (∀ calloc fuel m', hashmapPut .ignored calloc fuel m key val = .returned (.err,m') →
      (∀ key', m'.lookup key' = m.lookup key') ∧ m'.size = m.size) ↔ ∀ n, Steady n m key := by
  constructor
  · intro harmless n
    by_contra unsteady
    obtain ⟨limit,fuel,m',_,smaller,failed⟩ := unsteady_loses valid unique n unsteady val
    exact absurd (harmless _ fuel m' failed).2 (Nat.ne_of_lt smaller)
  · intro steady calloc fuel m' failed
    have same := steady_same valid unique steady failed
    exact ⟨same.lookup,same.size⟩

/-- Eight keys up to the end of the table: the put of one more with their home cannot do harm. -/
theorem cluster_harmless : hashmapHash cluster newcomer = none ∧
    ∀ calloc fuel m', hashmapPut .ignored calloc fuel cluster newcomer 0 = .returned (.err,m') →
      (∀ key', m'.lookup key' = cluster.lookup key') ∧ m'.size = cluster.size := by
  have fresh := (filled_run (Option.some_get cluster_filled).symm).1
  have unwrapped : Unwrapped cluster := by decide +kernel
  exact ⟨by decide +kernel,(failed_put_harmless_iff fresh.valid fresh.unique newcomer 0).mpr
    (unwrapped_steady fresh.valid fresh.unique unwrapped newcomer)⟩

/-- With four wrapped keys as well, and no memory beyond 512 slots, the same put forgets four of
the eight: the wrapped ones are copied first and take the end of their window. -/
theorem crowd_loses : Run (fun _ => Called) hashmapCreate ((clusterKeys ++ wrappingKeys).map (Op.put · 0)) crowd ∧
    crowd.Unique ∧ crowd.size = 12 ∧
    crowd.lookup (cstr [100,52,97]) = some 0 ∧
    ∃ m', hashmapPut .ignored (fun size => decide (size ≤ 512)) 3 crowd newcomer 0 = .returned (.err,m') ∧
      m'.size = 8 ∧ m'.lookup (cstr [100,52,97]) = none := by
  obtain ⟨fresh,run⟩ := filled_run (Option.some_get crowd_filled).symm
  have evaluated : (match hashmapPut .ignored (fun size => decide (size ≤ 512)) 3 crowd newcomer 0 with
      | .returned (.err,m') => crowd.size == 12 && crowd.lookup (cstr [100,52,97]) == some 0 && m'.size == 8 &&
        m'.lookup (cstr [100,52,97]) == none
      | _ => false) = true := by decide +kernel
  split at evaluated
  next m' failed =>
    simp only [Bool.and_eq_true,beq_iff_eq] at evaluated
    obtain ⟨⟨⟨size,stored⟩,smaller⟩,lost⟩ := evaluated
    exact ⟨run,fresh.unique,size,stored,m',failed,smaller,lost⟩
  next => contradiction

end Sizigy.HashmapRehash
