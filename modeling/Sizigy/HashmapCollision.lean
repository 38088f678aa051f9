import Mathlib.Combinatorics.Enumerative.DoubleCounting
import Mathlib.Order.Interval.Finset.Nat
import Sizigy.HashmapRehash

/-! Which keys can be put in every order. A table without holes fills the window of a key as
soon as enough other keys hash, before any reduction, to places from which probing leads
there, and doubling the table does not help: the retry loop of `hashmap_put` then has no end.
With no such key in a pool, every put of a key of the pool returns. -/

set_option linter.unusedSectionVars false

namespace Sizigy.HashmapCollision

open Probing HashmapRefinement
open HashmapRehash (filled filled_run)

variable {K V : Type} [DecidableEq K] [HashKey K] {m m' : Hashmap K V} {key : K} {val : V} {pool : Finset K}

/-- The other keys of the pool that hash into an interval. -/
def rivals (pool : Finset K) (key : K) (low high : Nat) : Finset K :=
  (pool.erase key).filter fun other => low ≤ HashKey.hash other ∧ HashKey.hash other ≤ high

/-- One of the eight places from the hash of the key stays free of the other keys: no interval
that ends there has as many of their hashes as places. -/
def Loose (pool : Finset K) (key : K) : Prop :=
  ∃ offset < maxChainLength, ∀ low ≤ HashKey.hash key + offset,
    (rivals pool key low (HashKey.hash key + offset)).card ≤ HashKey.hash key + offset - low

theorem window_unreduced (large : HashKey.hash key + offset < m.tableSize) :
    m.window key offset = HashKey.hash key + offset := by
  rw [window_eq]
  exact Nat.mod_eq_of_lt large

/-- A stored key that hashes to at most a free place lies in front of it. -/
theorem packed_before (fresh : m.Fresh) (stored : m.Contains key val) (low : HashKey.hash key ≤ place)
    (free : slot m.entries (place % m.tableSize) = none) :
    ∃ position, HashKey.hash key ≤ position ∧ position < place ∧
      slot m.entries (position % m.tableSize) = some (key,val) := by
  obtain ⟨i,stored⟩ := stored
  obtain ⟨offset,bound,rfl⟩ := fresh.valid.within i key val stored
  have packed := fresh.packed key offset val bound stored
  rw [m.allocated] at stored packed
  have reduced (l : Nat) : (hashmapHashInt m key + l) % m.tableSize = (HashKey.hash key + l) % m.tableSize :=
    window_eq m key l
  rw [reduced] at stored
  refine ⟨HashKey.hash key + offset,by omega,?_,stored⟩
  by_contra beyond
  obtain ⟨l,rfl⟩ := Nat.exists_eq_add_of_le low
  rcases Nat.lt_or_ge l offset with less | more
  · exact packed l less (by rw [reduced,free])
  · obtain rfl : l = offset := by omega
    simp [free] at stored

/-- In a fresh table with all the rivals the window of a key that is not loose is full. -/
theorem crowded_full (fresh : m.Fresh) (stored : ∀ other ∈ pool.erase key, ∃ val, m.Contains other val)
    (absent : ∀ val, ¬m.Contains key val) (crowded : ¬Loose pool key) : hashmapHash m key = none := by
  rw [hashmapHash_none_iff]
  refine .inr fun offset bound => ⟨fun free => crowded ⟨offset,bound,fun low le => ?_⟩,fun val here => ?_⟩
  · rw [window_eq] at free
    have position (other : K) (rival : other ∈ rivals pool key low (HashKey.hash key + offset)) :
        ∃ position, (low ≤ position ∧ position < HashKey.hash key + offset) ∧
          ∃ val, slot m.entries (position % m.tableSize) = some (other,val) := by
      obtain ⟨member,above,below⟩ := Finset.mem_filter.mp rival
      obtain ⟨val,contained⟩ := stored other member
      obtain ⟨position,start,inside,here⟩ := packed_before fresh contained below free
      exact ⟨position,⟨Nat.le_trans above start,inside⟩,val,here⟩
    choose! place inside here using position
    have count := Finset.card_le_card_of_injOn (t := Finset.Ico low (HashKey.hash key + offset)) place
      (fun other rival => Finset.mem_coe.mpr (Finset.mem_Ico.mpr (inside other rival))) (by
        intro a rivalA b rivalB same
        obtain ⟨v,first⟩ := here a rivalA
        obtain ⟨v',second⟩ := here b rivalB
        rw [same,second] at first
        exact (Prod.mk.inj (Option.some.inj first)).1.symm)
    simpa using count
  · exact absent val ⟨_,here⟩

/-- The put of such a key never returns. -/
theorem crowded_never_returns (fresh : m.Fresh) (stored : ∀ other ∈ pool.erase key, ∃ val, m.Contains other val)
    (absent : ∀ val, ¬m.Contains key val) (crowded : ¬Loose pool key) (fuel : Nat) (result : Status × Hashmap K V) :
    nestedPut fuel m key val ≠ .returned result := by
  induction fuel generalizing m with
  | zero => exact fun done => by contradiction
  | succ fuel ih =>
    intro done
    rw [nestedPut_succ,crowded_full fresh stored absent crowded] at done
    obtain ⟨⟨status,m₁⟩,copied,retried⟩ := Outcome.bind_eq_returned.mp done
    obtain rfl := copyEntries_ok _ put_ok m.entries m.grown copied
    have rehashed : hashmapRehash (fun _ => true) (hashmapPut .ignored (fun _ => true) fuel) m = .returned (.ok,m₁) :=
      copied
    obtain ⟨unique,contents⟩ :=
      hashmapRehash_spec _ (locked_adds (putLocked_adds .ignored _ fuel)) fresh.unique rehashed
    obtain ⟨valid,packed⟩ := hashmapRehash_packed fresh.valid rehashed
    refine ih ⟨valid,unique,packed⟩ ?_ ?_ (by simpa using retried)
    · simpa only [contents] using stored
    · simpa only [contents] using absent

/-- In a table beyond all hashes an entry stands at its hash plus an offset, with no hole between. -/
theorem large_position (fresh : m.Fresh) (large : HashKey.hash key + maxChainLength ≤ m.tableSize)
    (stored : slot m.entries place = some (key,val)) :
    ∃ offset < maxChainLength, place = HashKey.hash key + offset ∧
      ∀ l < offset, slot m.entries (HashKey.hash key + l) ≠ none := by
  obtain ⟨offset,bound,position⟩ := fresh.valid.within place key val stored
  have packed := fresh.packed key offset val bound (position ▸ stored)
  rw [m.allocated] at position packed
  have reduced (l : Nat) (less : l < maxChainLength) :
      (hashmapHashInt m key + l) % m.tableSize = HashKey.hash key + l := by
    exact window_unreduced (by omega)
  refine ⟨offset,bound,position.trans (reduced offset bound),fun l less => ?_⟩
  rw [← reduced l (by omega)]
  exact packed l less

/-- The keys of a block of slots behind a free one hash into the block. -/
theorem block_rival (fresh : m.Fresh) (large : HashKey.hash key + maxChainLength ≤ m.tableSize)
    (stored : slot m.entries place = some (key,val)) (low : Nat) (le : low ≤ place)
    (start : ∀ before, before + 1 = low → ¬slot m.entries before ≠ none) :
    low ≤ HashKey.hash key ∧ HashKey.hash key ≤ place := by
  obtain ⟨offset,_,rfl,between⟩ := large_position fresh large stored
  refine ⟨?_,Nat.le_add_right _ _⟩
  by_contra less
  have free := start (low - 1) (by omega)
  obtain ⟨l,position⟩ := Nat.exists_eq_add_of_le (show HashKey.hash key ≤ low - 1 by omega)
  rw [position] at free
  exact free (between l (by omega))

/-- A block of slots that hold keys of a set is no longer than the set is large. -/
theorem block_card {keys : Finset K} (unique : m.Unique)
    (held : ∀ place ∈ Finset.Icc low high, ∃ other ∈ keys, ∃ val, slot m.entries place = some (other,val)) :
    (Finset.Icc low high).card ≤ keys.card := by
  refine Finset.card_le_card_of_forall_subsingleton
    (fun place other => ∃ val, slot m.entries place = some (other,val)) held ?_
  rintro other _ a ⟨_,v,first⟩ b ⟨_,v',second⟩
  exact unique a b other v v' first second

/-- Where a key finds its window full, the block of slots up to one of the window is held by its
rivals there. -/
theorem block_rivals (fresh : m.Fresh) (drawn : m.DrawnFrom pool.toList)
    (large : ∀ other ∈ pool, HashKey.hash other + maxChainLength ≤ m.tableSize) (member : key ∈ pool)
    (crowded : ∀ l < maxChainLength, slot m.entries (m.window key l) ≠ none ∧
      ∀ v, slot m.entries (m.window key l) ≠ some (key,v))
    (block : ∀ place, low ≤ place → place ≤ high → slot m.entries place ≠ none)
    (start : ∀ before, before + 1 = low → ¬slot m.entries before ≠ none)
    (place : Nat) (inside : place ∈ Finset.Icc low high) :
    ∃ other ∈ rivals pool key low high, ∃ val, slot m.entries place = some (other,val) := by
  obtain ⟨above,below⟩ := Finset.mem_Icc.mp inside
  obtain ⟨⟨other,val⟩,stored⟩ := Option.ne_none_iff_exists'.mp (block place above below)
  have listed : other ∈ pool := Finset.mem_toList.mp (drawn other val ⟨place,stored⟩)
  have range := block_rival fresh (large other listed) stored low above start
  have apart : other ≠ key := by
    rintro rfl
    have room := large other member
    obtain ⟨offset,bound,position,_⟩ := large_position fresh room stored
    exact (crowded offset bound).2 val (by rw [window_unreduced (by omega),← position]; exact stored)
  exact ⟨other,Finset.mem_filter.mpr ⟨Finset.mem_erase.mpr ⟨apart,listed⟩,range.1,by omega⟩,val,stored⟩

/-- In a large enough fresh table with keys of the pool every loose key finds a slot. -/
theorem loose_hash (fresh : m.Fresh) (drawn : m.DrawnFrom pool.toList) (loose : Loose pool key)
    (large : ∀ other ∈ pool, HashKey.hash other + maxChainLength ≤ m.tableSize) (member : key ∈ pool)
    (few : pool.card < m.tableSize / 2) : hashmapHash m key ≠ none := by
  obtain ⟨offset,bound,loose⟩ := loose
  intro full
  rcases hashmapHash_none_iff.mp full with loaded | crowded
  · have least := used_le_pool fresh.unique pool.toList fun i other v stored => drawn other v ⟨i,stored⟩
    rw [Finset.length_toList] at least
    have counted := fresh.valid.counted
    omega
  · have room := large key member
    have taken := (crowded offset bound).1
    rw [window_unreduced (by omega)] at taken
    obtain ⟨low,le,block,start⟩ :=
      block_start (fun place => slot m.entries place ≠ none) (HashKey.hash key + offset) taken
    have count := block_card fresh.unique (block_rivals fresh drawn large member crowded block start)
    rw [Nat.card_Icc] at count
    have few := loose low le
    omega

theorem loose_fits (loose : ∀ key ∈ pool, Loose pool key) (nonempty : 0 < n) :
    ∃ doublings, Fits V pool.toList (n * 2 ^ doublings) := by
  let bound := pool.sup HashKey.hash + maxChainLength + 2 * pool.card + 2
  have large : bound ≤ n * 2 ^ bound := by
    calc bound ≤ 1 * 2 ^ bound := by rw [Nat.one_mul]; exact Nat.le_of_lt Nat.lt_two_pow_self
      _ ≤ n * 2 ^ bound := Nat.mul_le_mul_right _ nonempty
  refine ⟨bound,fun m fresh drawn size key member => ?_⟩
  have listed := Finset.mem_toList.mp member
  rw [← size] at large
  refine loose_hash fresh drawn (loose key listed) (fun other among => ?_) listed ?_
  · have := Finset.le_sup (f := HashKey.hash) among
    omega
  · omega

/-- One put of a key of the pool that returns. -/
def Puts (pool : Finset CString) (m : Hashmap CString V) (op : Op V) (m' : Hashmap CString V) : Prop :=
  (∃ key ∈ pool, ∃ val, op = .put key val) ∧ Called m op m'

theorem puts_fresh {pool : Finset CString} {m m' : Hashmap CString V} (fresh : m.Fresh)
    (drawn : m.DrawnFrom pool.toList) (puts : Puts pool m op m') : m'.Fresh ∧ m'.DrawnFrom pool.toList := by
  obtain ⟨⟨key,member,val,rfl⟩,fuel,status,done⟩ := puts
  obtain rfl := put_ok done
  obtain ⟨fresh',written⟩ := put_fresh fresh done
  refine ⟨fresh',fun key' val' contained => ?_⟩
  rcases (written key' val').mp contained with ⟨rfl,_⟩ | ⟨_,before⟩
  · exact Finset.mem_toList.mpr member
  · exact drawn key' val' before

/-- If every put of a key of the pool returns, any keys of it can be stored, and no others. -/
theorem stored_reached {pool : Finset CString} (val : V)
    (returns : ∀ ops (m : Hashmap CString V), Run (fun _ => Puts pool) hashmapCreate ops m → ∀ key ∈ pool,
      ∃ fuel m', hashmapPut .ignored (fun _ => true) fuel m key val = .returned (.ok,m'))
    (keys : List CString) (among : ∀ key ∈ keys, key ∈ pool) :
    ∃ ops m, Run (fun _ => Puts pool) hashmapCreate ops m ∧ m.Fresh ∧
      ∀ key, (∃ v : V, m.Contains key v) ↔ key ∈ keys := by
  induction keys with
  | nil => exact ⟨[],hashmapCreate,.nil,create_fresh,by simp [Hashmap.Contains,hashmapCreate]⟩
  | cons key keys ih =>
    obtain ⟨ops,m,run,fresh,stored⟩ := ih fun key member => among key (.tail _ member)
    have member := among key (.head _)
    obtain ⟨fuel,m',done⟩ := returns ops m run key member
    obtain ⟨fresh',written⟩ := put_fresh fresh done
    have puts : Puts pool m (.put key val) m' := ⟨⟨key,member,val,rfl⟩,fuel,.ok,done⟩
    refine ⟨_,m',run.snoc puts,fresh',fun key' => ?_⟩
    have contents : ∀ v, m'.Contains key' v ↔ (key' = key ∧ v = val) ∨ (key' ≠ key ∧ m.Contains key' v) := written key'
    simp only [contents,List.mem_cons,← stored]
    by_cases same : key' = key
    · simp [same]
    · simp [same]

/-- Every put of a key of a pool returns, in every state that puts of its keys reach, exactly
when no key's window is filled by the others. -/
theorem puts_return_iff [Inhabited V] (pool : Finset CString) :
    (∀ ops (m : Hashmap CString V), Run (fun _ => Puts pool) hashmapCreate ops m → ∀ key ∈ pool, ∀ val,
      ∃ fuel m', hashmapPut .ignored (fun _ => true) fuel m key val = .returned (.ok,m')) ↔
    ∀ key ∈ pool, Loose pool key := by
  constructor
  · intro returns key member
    by_contra crowded
    obtain ⟨ops,m,run,fresh,stored⟩ :=
      stored_reached default (fun ops m run key member => returns ops m run key member _)
      (pool.erase key).toList fun other among => Finset.mem_of_mem_erase (Finset.mem_toList.mp among)
    obtain ⟨fuel,m',done⟩ := returns ops m run key member default
    refine crowded_never_returns fresh (fun other among => ?_) (fun v contained => ?_) crowded fuel _ done
    · exact (stored other).mpr (Finset.mem_toList.mpr among)
    · simpa using (stored key).mp ⟨v,contained⟩
  · intro loose ops m run key member val
    have reached := run.invariant (fun _ m => m.Fresh ∧ m.DrawnFrom pool.toList)
      ⟨create_fresh,by simp [Hashmap.DrawnFrom,Hashmap.Contains,hashmapCreate]⟩
      fun _ _ _ _ _ before taken => puts_fresh before.1 before.2 taken
    obtain ⟨doublings,fits⟩ := loose_fits (V := V) loose m.nonempty
    have growing : Growing pool.toList (m.tableSize * 2 ^ doublings) doublings m := ⟨reached.1,reached.2,rfl⟩
    obtain ⟨fuel,m',done,_⟩ := growing_put_returns fits doublings growing (Finset.mem_toList.mpr member)
    exact ⟨fuel,m',done⟩

/-- More than eight keys with one hash are not loose. -/
theorem clash_crowded (same : ∀ other ∈ pool, HashKey.hash other = HashKey.hash key)
    (many : maxChainLength < pool.card) :
    ¬Loose pool key := by
  rintro ⟨offset,bound,loose⟩
  have few := loose (HashKey.hash key) (Nat.le_add_right _ _)
  have all : rivals pool key (HashKey.hash key) (HashKey.hash key + offset) = pool.erase key := by
    refine Finset.filter_true_of_mem fun other member => ?_
    have := same other (Finset.mem_of_mem_erase member)
    omega
  have most := Finset.pred_card_le_card_erase (s := pool) (a := key)
  rw [all] at few
  omega

/-- Nine topic names with one CRC. -/
def clashing : List CString :=
  [cstr [119,121,118,120,108,99],cstr [87,118,69,65,87,102],cstr [70,71,111,98,80,100],cstr [72,72,112,82,108,106],
    cstr [89,121,90,113,107,104],cstr [104,71,67,107,87,111],cstr [101,57,53,73,68,109],cstr [121,118,105,72,80,109],
    cstr [54,54,51,90,109,108]]

theorem clashing_nodup : clashing.Nodup := by decide +kernel

theorem clashing_hash : ∀ key ∈ clashing, HashKey.hash key = 9004264894435945142 := by decide +kernel

theorem eight_filled : (filled (clashing.take 8)).isSome = true := by decide +kernel

def eight : Hashmap CString Nat := (filled (clashing.take 8)).get eight_filled

def ninth : CString := cstr [54,54,51,90,109,108]

/-- After puts of the first eight the put of the ninth goes on doubling the table. -/
theorem ninth_never_returns : Run (fun _ => Called) hashmapCreate ((clashing.take 8).map (Op.put · 0)) eight ∧
    ∀ fuel result, hashmapPut .ignored (fun _ => true) fuel eight ninth 0 ≠ .returned result := by
  obtain ⟨fresh,run⟩ := filled_run (Option.some_get eight_filled).symm
  have present : ∀ key ∈ clashing.take 8, (eight.lookup key).isSome = true := by decide +kernel
  have absent : eight.lookup ninth = none := by decide +kernel
  have members (key : CString) (among : key ∈ clashing.toFinset.erase ninth) : key ∈ clashing.take 8 := by
    obtain ⟨apart,listed⟩ := Finset.mem_erase.mp among
    have split : clashing = clashing.take 8 ++ [ninth] := rfl
    rw [List.mem_toFinset,split,List.mem_append] at listed
    exact listed.resolve_right fun last => apart (List.mem_singleton.mp last)
  have crowded : ¬Loose clashing.toFinset ninth := by
    refine clash_crowded (fun other among => ?_) ?_
    · rw [clashing_hash other (List.mem_toFinset.mp among)]
      exact (clashing_hash ninth (by simp [clashing,ninth])).symm
    · rw [List.toFinset_card_of_nodup clashing_nodup]
      decide
  refine ⟨run,fun fuel result => ?_⟩
  refine crowded_never_returns fresh ?_ ((lookup_none_iff fresh.valid).mp absent) crowded fuel result
  intro key among
  obtain ⟨val,found⟩ := Option.isSome_iff_exists.mp (present key (members key among))
  exact ⟨val,lookup_contains found⟩

end Sizigy.HashmapCollision
