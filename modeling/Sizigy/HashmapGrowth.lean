import Mathlib.Data.List.FinRange
import Sizigy.HashmapContents

/-! When the retry loop of `hashmap_put` ends. Growth is certain to stop at a table size at
which the keys at hand are few and no key's window is met by the windows of eight others:
no order of insertion can fill a chain there, so no rehash, nested or not, goes past it. -/

set_option linter.unusedSectionVars false

namespace Sizigy

open Probing

variable {K V : Type} [DecidableEq K] [HashKey K] {m m' : Hashmap K V} {key : K} {val : V}

/-- Two keys compete for some slot of a table of the given size. -/
def WindowsMeet (n : Nat) (key other : K) : Prop :=
  ∃ a < maxChainLength, ∃ b < maxChainLength,
    (HashKey.hash key + a) % n = (HashKey.hash other + b) % n

instance (n : Nat) (key other : K) : Decidable (WindowsMeet n key other) :=
  inferInstanceAs (Decidable (∃ a < maxChainLength, ∃ b < maxChainLength,
    (HashKey.hash key + a) % n = (HashKey.hash other + b) % n))

/-- A table of size `n` has a slot for each key of the pool, in any order of insertion. -/
structure Roomy (pool : List K) (n : Nat) : Prop where
  half : pool.length < n / 2
  sparse : ∀ key ∈ pool,
    (pool.filter fun other => decide (other ≠ key ∧ WindowsMeet n key other)).length < maxChainLength

def Hashmap.DrawnFrom (m : Hashmap K V) (pool : List K) : Prop :=
  ∀ key val, m.Contains key val → key ∈ pool

theorem window_eq (m : Hashmap K V) (key : K) (offset : Nat) :
    m.window key offset = (HashKey.hash key + offset) % m.tableSize :=
  Nat.mod_add_mod _ _ _

theorem roomy_hash (valid : m.Valid) (unique : m.Unique) (drawn : m.DrawnFrom pool)
    (roomy : Roomy pool m.tableSize) (member : key ∈ pool) : hashmapHash m key ≠ none := by
  rw [ne_eq,hashmapHash_none_iff,not_or]
  constructor
  · have few := used_le_pool unique pool fun i key v stored => drawn key v ⟨i,stored⟩
    have counted := valid.counted
    have half := roomy.half
    omega
  · intro crowded
    have occupant (l : Fin maxChainLength) : ∃ pair, slot m.entries (m.window key l) = some pair :=
      Option.ne_none_iff_exists'.mp (crowded l l.isLt).1
    choose pair stored using occupant
    have distinct : Function.Injective fun l => (pair l).1 := by
      intro a b same
      have first : slot m.entries (m.window key a) = some ((pair a).1,(pair a).2) := stored a
      have second : slot m.entries (m.window key b) = some ((pair a).1,(pair b).2) := by
        rw [stored b]
        exact congrArg some (Prod.ext same.symm rfl)
      have position := unique _ _ _ _ _ first second
      exact Fin.ext (window_injective valid.chain_le a.isLt b.isLt position)
    have subset : List.ofFn (fun l => (pair l).1) ⊆
        pool.filter fun other => decide (other ≠ key ∧ WindowsMeet m.tableSize key other) := by
      intro other listed
      obtain ⟨l,rfl⟩ := List.mem_ofFn.mp listed
      have here : slot m.entries (m.window key l) = some ((pair l).1,(pair l).2) := stored l
      obtain ⟨offset,bound,position⟩ := valid.within _ _ _ here
      refine List.mem_filter.mpr ⟨drawn _ _ ⟨_,here⟩,decide_eq_true ⟨?_,l,l.isLt,offset,bound,?_⟩⟩
      · intro same
        exact (crowded l l.isLt).2 (pair l).2 (by rw [here,same])
      · rw [← window_eq,position,m.allocated]
        exact window_eq m _ offset
    have eight := ((List.nodup_ofFn.mpr distinct).subperm subset).length_le
    rw [List.length_ofFn] at eight
    exact absurd (roomy.sparse key member) (Nat.not_lt.mpr eight)

/-- A table from which `doublings` growths lead to size `n`, holding keys of the pool. -/
structure Growing (pool : List K) (n doublings : Nat) (m : Hashmap K V) : Prop where
  fresh : m.Fresh
  drawn : m.DrawnFrom pool
  reaches : m.tableSize * 2 ^ doublings = n

abbrev nestedPut (fuel : Nat) (m : Hashmap K V) (key : K) (val : V) :
    Outcome (Status × Hashmap K V) := hashmapPut .ignored (fun _ => true) fuel m key val

/-- The copy loop ends if every put on a table at most that far from the end does. -/
theorem copyEntries_ends {pool : List K} {n : Nat} (doublings : Nat)
    (one : ∀ left ≤ doublings, ∀ {m : Hashmap K V} {key val}, Growing pool n left m → key ∈ pool →
      ∃ fuel m', nestedPut fuel m key val = .returned (.ok,m') ∧
        ∃ left' ≤ left, Growing pool n left' m')
    (rest : Table K V) (members : ∀ key val, some (key,val) ∈ rest → key ∈ pool)
    (left : Nat) (close : left ≤ doublings) (m : Hashmap K V) (growing : Growing pool n left m) :
    ∃ fuel m', copyEntries (nestedPut fuel) rest m = .returned (.ok,m') ∧
      ∃ left' ≤ left, Growing pool n left' m' := by
  induction rest generalizing left m with
  | nil => exact ⟨0,m,rfl,left,Nat.le_refl _,growing⟩
  | cons first rest ih =>
    have members' := fun key val member => members key val (List.mem_cons_of_mem first member)
    cases first with
    | none => exact ih members' left close m growing
    | some pair =>
      obtain ⟨fuel₁,m₁,done₁,left₁,le₁,growing₁⟩ :=
        one left close growing (members pair.1 pair.2 (.head _))
      obtain ⟨fuel₂,m₂,done₂,left₂,le₂,growing₂⟩ :=
        ih members' left₁ (Nat.le_trans le₁ close) m₁ growing₁
      refine ⟨max fuel₁ fuel₂,m₂,?_,left₂,Nat.le_trans le₂ le₁,growing₂⟩
      have first := (hashmapPut_le .ignored (fun _ => true) (Nat.le_max_left fuel₁ fuel₂) m
        pair.1 pair.2).returned done₁
      have later := (copyEntries_le (fun m key val => hashmapPut_le .ignored (fun _ => true)
        (Nat.le_max_right fuel₁ fuel₂) m key val) rest m₁).returned done₂
      rw [copyEntries,nestedPut,first,Outcome.returned_bind]
      simpa using later

theorem grown_growing (valid : m.Valid) (reaches : m.tableSize * 2 ^ (doublings + 1) = n) :
    Growing pool n doublings m.grown where
  fresh := grown_fresh valid
  drawn := fun _ _ contained => absurd contained (grown_empty m)
  reaches := by
    rw [← reaches,Nat.pow_succ',← Nat.mul_assoc,Nat.mul_comm m.tableSize 2]
    rfl

theorem put_growing (growing : Growing pool n left m) (member : key ∈ pool)
    (done : nestedPut fuel m key val = .returned (.ok,m')) (reaches : m'.tableSize * 2 ^ left' = n) :
    Growing pool n left' m' := by
  refine ⟨(put_fresh growing.fresh done).1,fun key' val' contained => ?_,reaches⟩
  rcases put_subset done contained with ⟨rfl,rfl⟩ | before
  · exact member
  · exact growing.drawn _ _ before

theorem nestedPut_succ (fuel : Nat) (m : Hashmap K V) (key : K) (val : V) :
    nestedPut (fuel + 1) m key val = (match hashmapHash m key with
      | some index => .returned (.ok,m.store index key val)
      | none => do
        let (status,m) ← copyEntries (nestedPut fuel) m.entries m.grown
        if status = .err then return (.err,m) else nestedPut fuel m key val) := by
  rfl

/-- A retry after a finished copy, with the fuel both need. -/
theorem nestedPut_retry (full : hashmapHash m key = none)
    (copied : copyEntries (nestedPut fuel₁) m.entries m.grown = .returned (.ok,m₁))
    (retried : nestedPut fuel₂ m₁ key val = .returned (.ok,m')) :
    nestedPut (max fuel₁ fuel₂ + 1) m key val = .returned (.ok,m') := by
  have copied' := (copyEntries_le (fun m key val => hashmapPut_le .ignored (fun _ => true)
    (Nat.le_max_left fuel₁ fuel₂) m key val) m.entries m.grown).returned copied
  have retried' := (hashmapPut_le .ignored (fun _ => true) (Nat.le_max_right fuel₁ fuel₂) m₁
    key val).returned retried
  rw [nestedPut_succ,full]
  simp only [copied',Outcome.returned_bind]
  exact retried'

/-- Every key of the pool finds a slot in every fresh table of size `n` with keys of the pool. -/
def Fits (V : Type) (pool : List K) (n : Nat) : Prop :=
  ∀ m : Hashmap K V, m.Fresh → m.DrawnFrom pool → m.tableSize = n → ∀ key ∈ pool, hashmapHash m key ≠ none

theorem roomy_fits {pool : List K} (roomy : Roomy pool n) : Fits V pool n := by
  rintro m fresh drawn rfl key member
  exact roomy_hash fresh.valid fresh.unique drawn roomy member

/-- A put on the way to a table size that fits returns, without growing past it. -/
theorem growing_put_returns {pool : List K} (fits : Fits V pool n) (doublings : Nat)
    (growing : Growing pool n doublings m) (member : key ∈ pool) :
    ∃ fuel m', nestedPut fuel m key val = .returned (.ok,m') ∧
      ∃ left ≤ doublings, Growing pool n left m' := by
  induction doublings using Nat.strong_induction_on generalizing m key val with
  | _ doublings ih =>
    cases found : hashmapHash m key with
    | some index =>
      have done : nestedPut 1 m key val = .returned (.ok,m.store index key val) := by
        rw [nestedPut_succ,found]
      exact ⟨1,_,done,doublings,Nat.le_refl _,put_growing growing member done growing.reaches⟩
    | none =>
      cases doublings with
      | zero =>
        have size : m.tableSize = n := by simpa using growing.reaches
        exact absurd found (fits m growing.fresh growing.drawn size key member)
      | succ doublings =>
        obtain ⟨fuel₁,m₁,copied,left₁,le₁,growing₁⟩ :=
          copyEntries_ends doublings
            (fun left le => ih left (by omega)) m.entries
            (fun key val member => growing.drawn key val (mem_iff_slot.mp member)) doublings
            (Nat.le_refl _) m.grown (grown_growing growing.fresh.valid growing.reaches)
        obtain ⟨fuel₂,m₂,retried,left₂,le₂,growing₂⟩ := ih left₁ (by omega) growing₁ member
        exact ⟨_,m₂,nestedPut_retry found copied retried,left₂,by omega,growing₂⟩

/-- Some power-of-two multiple of the table size is roomy for the stored keys and the new one. -/
def Hashmap.Settles (m : Hashmap K V) (key : K) : Prop :=
  ∃ pool doublings, m.DrawnFrom pool ∧ key ∈ pool ∧ Roomy pool (m.tableSize * 2 ^ doublings)

/-- A put whose growth settles returns. -/
theorem settles_put_returns (valid : m.Valid) (unique : m.Unique) (settles : m.Settles key)
    (val : V) :
    ∃ fuel m', hashmapPut .ignored (fun _ => true) fuel m key val = .returned (.ok,m') := by
  obtain ⟨pool,doublings,drawn,member,roomy⟩ := settles
  cases found : hashmapHash m key with
  | some index =>
    have done : nestedPut 1 m key val = .returned (.ok,m.store index key val) := by
      rw [nestedPut_succ,found]
    exact ⟨1,_,done⟩
  | none =>
    cases doublings with
    | zero => exact absurd found (roomy_hash valid unique drawn (by simpa using roomy) member)
    | succ doublings =>
      obtain ⟨fuel₁,m₁,copied,left₁,le₁,growing₁⟩ :=
        copyEntries_ends _ (fun left _ _ _ _ growing member =>
            growing_put_returns (roomy_fits roomy) left growing member) m.entries
          (fun key val member => drawn key val (mem_iff_slot.mp member)) doublings
          (Nat.le_refl _) m.grown (grown_growing valid rfl)
      obtain ⟨fuel₂,m₂,retried,_⟩ := growing_put_returns (roomy_fits roomy) left₁ growing₁ member
      exact ⟨_,m₂,nestedPut_retry found copied retried⟩

end Sizigy
