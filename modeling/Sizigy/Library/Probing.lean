import Mathlib.Data.List.Perm.Subperm
import Mathlib.Data.Nat.ModEq

/-! Bounded linear probing over an arbitrary key type. A table is a list of slots; a key
may only live in the window of `w` slots that starts, cyclically, at its home. Nothing
here fixes how a slot is chosen for insertion: the lemmas say which choices keep the keys
unique, the windows respected and the windows free of holes before a stored key. -/
namespace Probing

abbrev Table (K V : Type) := List (Option (K × V))

def slot (t : Table K V) (i : Nat) : Option (K × V) := (t[i]?).join

def holds [DecidableEq K] (t : Table K V) (key : K) (i : Nat) : Bool :=
  match slot t i with
  | some (stored, _) => stored = key
  | none => false

/-- First stop of a cyclic walk of at most the given number of slots. -/
def probe (stop : Nat → Bool) (n : Nat) : Nat → Nat → Option Nat
  | 0, _ => none
  | steps + 1, curr => if stop curr then some curr else probe stop n steps ((curr + 1) % n)

theorem shift_mod (curr l n : Nat) : ((curr + 1) % n + l) % n = (curr + (l + 1)) % n := by
  rw [Nat.mod_add_mod]
  congr 1
  omega

theorem probe_eq_some_iff {stop : Nat → Bool} {n steps curr i : Nat} (inside : curr < n) :
    probe stop n steps curr = some i ↔ ∃ offset < steps, (curr + offset) % n = i ∧
      stop i = true ∧ ∀ l < offset, stop ((curr + l) % n) = false := by
  induction steps generalizing curr with
  | zero => simp [probe]
  | succ steps ih =>
    have home : curr % n = curr := Nat.mod_eq_of_lt inside
    have next : (curr + 1) % n < n := Nat.mod_lt _ (Nat.zero_lt_of_lt inside)
    by_cases stopped : stop curr = true
    · simp only [probe,stopped,if_true,Option.some.injEq]
      constructor
      · rintro rfl
        exact ⟨0,Nat.succ_pos _,home,stopped,by simp⟩
      · rintro ⟨offset,_,rfl,_,earlier⟩
        cases offset with
        | zero => exact home.symm
        | succ offset => exact absurd (earlier 0 (Nat.succ_pos _)) (by simp [home,stopped])
    · simp only [probe,stopped,Bool.false_eq_true,if_false,ih next]
      constructor
      · rintro ⟨offset,bound,position,here,earlier⟩
        refine ⟨offset + 1,by omega,by rw [← position,shift_mod],here,?_⟩
        intro l less
        cases l with
        | zero => simpa [home] using stopped
        | succ l => rw [← shift_mod]; exact earlier l (by omega)
      · rintro ⟨offset,bound,position,here,earlier⟩
        cases offset with
        | zero =>
          rw [Nat.add_zero,home] at position
          exact absurd (position ▸ here) stopped
        | succ offset =>
          refine ⟨offset,by omega,by rw [shift_mod,position],here,?_⟩
          intro l less
          rw [shift_mod]
          exact earlier (l + 1) (by omega)

theorem probe_eq_none_iff {stop : Nat → Bool} {n steps curr : Nat} (inside : curr < n) :
    probe stop n steps curr = none ↔ ∀ l < steps, stop ((curr + l) % n) = false := by
  induction steps generalizing curr with
  | zero => simp [probe]
  | succ steps ih =>
    have home : curr % n = curr := Nat.mod_eq_of_lt inside
    have next : (curr + 1) % n < n := Nat.mod_lt _ (Nat.zero_lt_of_lt inside)
    by_cases stopped : stop curr = true
    · simp only [probe,stopped,if_true,reduceCtorEq,false_iff,not_forall]
      exact ⟨0,Nat.succ_pos _,by simp [home,stopped]⟩
    · simp only [probe,stopped,Bool.false_eq_true,if_false,ih next]
      constructor
      · intro all l less
        cases l with
        | zero => simpa [home] using stopped
        | succ l => rw [← shift_mod]; exact all l (by omega)
      · intro all l less
        rw [shift_mod]
        exact all (l + 1) (by omega)

theorem holds_iff [DecidableEq K] {t : Table K V} {key : K} {i : Nat} :
    holds t key i = true ↔ ∃ v, slot t i = some (key,v) := by
  unfold holds
  split
  next stored _ equal =>
    constructor
    · intro same
      exact ⟨_,by rw [equal,of_decide_eq_true same]⟩
    · rintro ⟨v,other⟩
      simpa [equal] using congrArg (Option.map Prod.fst) other
  next equal => simp [equal]

theorem slot_set (t : Table K V) (i j : Nat) (e : Option (K × V)) (inside : i < t.length) :
    slot (t.set i e) j = if j = i then e else slot t j := by
  by_cases same : j = i
  · subst j; simp [slot,inside]
  · simp [slot,same,List.getElem?_set_ne (Ne.symm same)]

@[simp] theorem slot_empty (n i : Nat) : slot (List.replicate n (none : Option (K × V))) i = none := by
  by_cases inside : i < n <;> simp [slot,inside]

theorem mem_iff_slot {t : Table K V} {e : K × V} : some e ∈ t ↔ ∃ i, slot t i = some e := by
  rw [List.mem_iff_getElem?]
  simp [slot,Option.join_eq_some_iff]

/-- No key is stored twice. -/
def Unique (t : Table K V) : Prop :=
  ∀ i j key v v', slot t i = some (key,v) → slot t j = some (key,v') → i = j

/-- Every stored key lies in its own window. -/
def Within (w : Nat) (home : K → Nat) (t : Table K V) : Prop :=
  ∀ i key v, slot t i = some (key,v) → ∃ offset < w, i = (home key + offset) % t.length

/-- No hole lies between the home of a stored key and its slot. -/
def Packed (w : Nat) (home : K → Nat) (t : Table K V) : Prop :=
  ∀ key offset v, offset < w → slot t ((home key + offset) % t.length) = some (key,v) →
    ∀ l < offset, slot t ((home key + l) % t.length) ≠ none

@[simp] theorem unique_empty : Unique (List.replicate n (none : Option (K × V))) := by simp [Unique]

@[simp] theorem within_empty (home : K → Nat) : Within w home (List.replicate n (none : Option (K × V))) := by
  simp [Within]

@[simp] theorem packed_empty (home : K → Nat) : Packed w home (List.replicate n (none : Option (K × V))) := by
  simp [Packed]

theorem Unique.set {t : Table K V} (unique : Unique t) (inside : i < t.length)
    (only : ∀ j v', slot t j = some (key,v') → j = i) : Unique (t.set i (some (key,v))) := by
  intro a b key' va vb ha hb
  rw [slot_set t i _ _ inside] at ha hb
  by_cases sa : a = i <;> by_cases sb : b = i
  · rw [sa,sb]
  · simp only [sa,sb,if_true,if_false,Option.some.injEq,Prod.mk.injEq] at ha hb
    rw [sa]
    exact (only b _ (ha.1 ▸ hb)).symm
  · simp only [sa,sb,if_true,if_false,Option.some.injEq,Prod.mk.injEq] at ha hb
    rw [sb]
    exact only a _ (hb.1 ▸ ha)
  · simp only [sa,sb,if_false] at ha hb
    exact unique a b key' va vb ha hb

theorem Within.set {t : Table K V} (within : Within w home t) (inside : i < t.length)
    (position : ∃ offset < w, i = (home key + offset) % t.length) :
    Within w home (t.set i (some (key,v))) := by
  intro j key' v' stored
  rw [slot_set t i _ _ inside] at stored
  rw [List.length_set]
  split at stored
  next same =>
    obtain ⟨rfl,_⟩ := Prod.mk.inj (Option.some.inj stored)
    exact same ▸ position
  next => exact within j key' v' stored

theorem window_injective {a b h n w : Nat} (fits : w ≤ n) (ha : a < w) (hb : b < w)
    (same : (h + a) % n = (h + b) % n) : a = b := by
  have congruent : a ≡ b [MOD n] := Nat.ModEq.add_left_cancel' h same
  exact Nat.ModEq.eq_of_lt_of_lt congruent (by omega) (by omega)

theorem Packed.set {t : Table K V} (packed : Packed w home t) (fits : w ≤ t.length)
    (inside : i < t.length) (bound : offset < w) (position : i = (home key + offset) % t.length)
    (full : ∀ l < offset, slot t ((home key + l) % t.length) ≠ none) :
    Packed w home (t.set i (some (key,v))) := by
  have kept (j : Nat) (used : slot t j ≠ none) : slot (t.set i (some (key,v))) j ≠ none := by
    rw [slot_set t i _ _ inside]
    split <;> simp [used]
  intro key' offset' v' bound' stored l less
  rw [List.length_set] at stored ⊢
  apply kept
  rw [slot_set t i _ _ inside] at stored
  split at stored
  next same =>
    obtain ⟨rfl,_⟩ := Prod.mk.inj (Option.some.inj stored)
    have equal := window_injective fits bound' bound (same.trans position)
    exact full l (by omega)
  next => exact packed key' offset' v' bound' stored l less

theorem Unique.erase {t : Table K V} (unique : Unique t) (inside : i < t.length) :
    Unique (t.set i none) := by
  intro a b key va vb ha hb
  rw [slot_set t i _ _ inside] at ha hb
  split at ha
  · contradiction
  · split at hb
    · contradiction
    · exact unique a b key va vb ha hb

theorem Within.erase {t : Table K V} (within : Within w home t) (inside : i < t.length) :
    Within w home (t.set i none) := by
  intro j key v stored
  rw [slot_set t i _ _ inside] at stored
  rw [List.length_set]
  split at stored
  · contradiction
  · exact within j key v stored

/-- The stored keys of a list of slots are pairwise distinct. -/
def Distinct (t : Table K V) : Prop :=
  t.Pairwise fun a b => ∀ key v v', a = some (key,v) → b ≠ some (key,v')

theorem distinct_of_unique {t : Table K V} (unique : Unique t) : Distinct t := by
  apply List.pairwise_iff_getElem.mpr
  intro i j hi hj less key v v' first second
  have si : slot t i = some (key,v) := by simp [slot,hi,first]
  have sj : slot t j = some (key,v') := by simp [slot,hj,second]
  have := unique i j key v v' si sj
  omega

section Lookup

variable [DecidableEq K]

/-- Value under a key, found by walking its window past holes and other keys. -/
def lookup (w : Nat) (home : K → Nat) (t : Table K V) (key : K) : Option V :=
  (probe (holds t key) t.length w (home key)).bind fun i => (slot t i).map Prod.snd

theorem lookup_eq_some_iff {t : Table K V} (unique : Unique t) (within : Within w home t)
    (inside : home key < t.length) :
    lookup w home t key = some v ↔ ∃ i, slot t i = some (key,v) := by
  simp only [lookup,Option.bind_eq_some_iff,Option.map_eq_some_iff]
  constructor
  · rintro ⟨i,found,⟨key',v'⟩,stored,rfl⟩
    obtain ⟨_,_,_,here,_⟩ := (probe_eq_some_iff inside).mp found
    obtain ⟨v'',same⟩ := holds_iff.mp here
    obtain ⟨rfl,rfl⟩ := Prod.mk.inj (Option.some.inj (stored.symm.trans same))
    exact ⟨i,stored⟩
  · rintro ⟨i,stored⟩
    obtain ⟨offset,bound,rfl⟩ := within i key v stored
    cases found : probe (holds t key) t.length w (home key) with
    | none =>
      have missed := (probe_eq_none_iff inside).mp found offset bound
      rw [holds_iff.mpr ⟨v,stored⟩] at missed
      contradiction
    | some j =>
      obtain ⟨_,_,_,here,_⟩ := (probe_eq_some_iff inside).mp found
      obtain ⟨v',same⟩ := holds_iff.mp here
      obtain rfl := unique _ _ key v v' stored same
      exact ⟨_,rfl,_,stored,rfl⟩

theorem lookup_eq_none_iff {t : Table K V} (within : Within w home t)
    (inside : home key < t.length) :
    lookup w home t key = none ↔ ∀ i v, slot t i ≠ some (key,v) := by
  constructor
  · intro missing i v stored
    obtain ⟨offset,bound,rfl⟩ := within i key v stored
    cases found : probe (holds t key) t.length w (home key) with
    | none =>
      have missed := (probe_eq_none_iff inside).mp found offset bound
      rw [holds_iff.mpr ⟨v,stored⟩] at missed
      contradiction
    | some j =>
      obtain ⟨_,_,_,here,_⟩ := (probe_eq_some_iff inside).mp found
      obtain ⟨v',same⟩ := holds_iff.mp here
      simp [lookup,found,same] at missing
  · intro absent
    cases found : probe (holds t key) t.length w (home key) with
    | none => simp [lookup,found]
    | some j =>
      obtain ⟨_,_,_,here,_⟩ := (probe_eq_some_iff inside).mp found
      obtain ⟨v,same⟩ := holds_iff.mp here
      exact absurd same (absent j v)

end Lookup

/-- Number of slots in use. -/
def used (t : Table K V) : Nat := t.countP Option.isSome

@[simp] theorem used_empty : used (List.replicate n (none : Option (K × V))) = 0 := by
  simp [used,List.countP_replicate]

theorem used_set (t : Table K V) (i : Nat) (e : Option (K × V)) (inside : i < t.length) :
    used (t.set i e) + (slot t i).isSome.toNat = used t + e.isSome.toNat := by
  induction t generalizing i with
  | nil => simp at inside
  | cons first t ih =>
    cases i with
    | zero => cases first <;> cases e <;> simp [used,slot]
    | succ i =>
      have rest := ih i (by simpa using inside)
      simp only [used,slot] at rest
      cases first <;> simp [used,slot] <;> omega

theorem used_eq_keys (t : Table K V) : used t = (t.filterMap (Option.map Prod.fst)).length := by
  induction t with
  | nil => rfl
  | cons first t ih => cases first <;> simp_all [used]

/-- A table with unique keys from a pool uses no more slots than the pool has entries. -/
theorem used_le_pool {t : Table K V} (unique : Unique t) (pool : List K)
    (drawn : ∀ i key v, slot t i = some (key,v) → key ∈ pool) : used t ≤ pool.length := by
  have nodup : (t.filterMap (Option.map Prod.fst)).Nodup := by
    apply List.pairwise_filterMap.mpr
    refine (distinct_of_unique unique).imp ?_
    rintro a b apart key first key' second rfl
    obtain ⟨⟨k,v⟩,rfl,rfl⟩ := Option.map_eq_some_iff.mp first
    obtain ⟨⟨k',v'⟩,rfl,same⟩ := Option.map_eq_some_iff.mp second
    obtain rfl : k' = k := same
    exact apart k' v v' rfl rfl
  rw [used_eq_keys]
  refine (nodup.subperm fun key member => ?_).length_le
  obtain ⟨entry,inside,mapped⟩ := List.mem_filterMap.mp member
  obtain ⟨⟨k,v⟩,rfl,rfl⟩ := Option.map_eq_some_iff.mp mapped
  obtain ⟨i,stored⟩ := mem_iff_slot.mp inside
  exact drawn i k v stored

/-- A table with unique keys, all of which another one stores, uses no more slots. -/
theorem used_le_used {t t' : Table K V} (unique : Unique t)
    (stored : ∀ i key v, slot t i = some (key,v) → ∃ j v', slot t' j = some (key,v')) : used t ≤ used t' := by
  rw [used_eq_keys t']
  refine used_le_pool unique _ fun i key v here => ?_
  obtain ⟨j,v',there⟩ := stored i key v here
  exact List.mem_filterMap.mpr ⟨_,mem_iff_slot.mpr ⟨j,there⟩,rfl⟩

/-- The block of taken slots that ends at a taken one starts somewhere, behind a free slot if
not at the first. -/
theorem block_start (taken : Nat → Prop) (y : Nat) (here : taken y) :
    ∃ a ≤ y, (∀ s, a ≤ s → s ≤ y → taken s) ∧ ∀ b, b + 1 = a → ¬taken b := by
  induction y with
  | zero =>
    refine ⟨0,Nat.le_refl 0,fun s _ high => ?_,fun b start => ?_⟩
    · rwa [Nat.le_zero.mp high]
    · contradiction
  | succ y ih =>
    by_cases before : taken y
    · obtain ⟨a,le,block,start⟩ := ih before
      refine ⟨a,Nat.le_succ_of_le le,fun s low high => ?_,start⟩
      rcases Nat.lt_or_eq_of_le high with less | rfl
      · exact block s low (Nat.le_of_lt_succ less)
      · exact here
    · refine ⟨y + 1,Nat.le_refl _,fun s low high => ?_,fun b start => ?_⟩
      · rwa [Nat.le_antisymm high low]
      · rwa [Nat.succ.inj start]

end Probing
