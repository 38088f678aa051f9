import Sizigy.HashmapGrowth
import Sizigy.Library.Run

/-! The map against the finite map it is meant to be. Its representation invariant holds in
every reachable state, whatever the allocator answers. The two maps agree along every run
whose puts never take a hole in front of a stored copy of their key; deletions make such
holes, and nothing else does. -/
namespace Sizigy.HashmapRefinement

open Probing

variable {V : Type}

inductive Op (V : Type) where
  | put (key : CString) (val : V)
  | del (key : CString)

def Op.apply (map : CString → Option V) : Op V → CString → Option V
  | .put key val => Function.update map key (some val)
  | .del key => Function.update map key none

/-- The abstract map after a sequence of operations. -/
def finiteMap (ops : List (Op V)) : CString → Option V := ops.foldl Op.apply fun _ => none

/-- One call that returns, with mutexes ignored and an allocator that succeeds. -/
def Called (m : Hashmap CString V) : Op V → Hashmap CString V → Prop
  | .put key val, m' => ∃ fuel status,
    hashmapPut .ignored (fun _ => true) fuel m key val = .returned (status,m')
  | .del key, m' => ∃ status, hashmapDel .ignored m key = .returned (status,m')

/-- One call that returns, with mutexes ignored and any allocator. -/
def Attempted (m : Hashmap CString V) : Op V → Hashmap CString V → Prop
  | .put key val, m' => ∃ calloc fuel status,
    hashmapPut .ignored calloc fuel m key val = .returned (status,m')
  | .del key, m' => ∃ status, hashmapDel .ignored m key = .returned (status,m')

theorem attempted_valid {op : Op V} {m m' : Hashmap CString V} (valid : m.Valid)
    (attempted : Attempted m op m') : m'.Valid := by
  cases op with
  | put key val =>
    obtain ⟨calloc,fuel,status,done⟩ := attempted
    exact put_valid valid done
  | del key =>
    obtain ⟨status,done⟩ := attempted
    obtain ⟨_,rfl⟩ := Prod.mk.inj (Outcome.returned.inj done)
    exact remove_valid valid key

/-- A lookup of a stored key finds an entry with that key, if not always the same one. -/
theorem stored_found {m : Hashmap CString V} (valid : m.Valid) (stored : m.Contains key val) :
    ∃ j val', slot m.entries j = some (key,val') ∧ hashmapGet .ignored m key = .returned (some val',m) := by
  cases found : m.lookup key with
  | none => exact absurd stored ((lookup_none_iff valid).mp found val)
  | some val' =>
    obtain ⟨j,held⟩ := lookup_contains found
    exact ⟨j,val',held,by rw [← found]; rfl⟩

/-- In every reachable state the size is the number of used slots and at most half of a table
of a power-of-two multiple of 256 slots, and every used slot lies among the eight from the
home of its key, where a lookup finds that key. -/
theorem attempted_run_represented {ops : List (Op V)} {m : Hashmap CString V}
    (run : Run (fun _ m op m' => Attempted m op m') hashmapCreate ops m) :
    m.size = used m.entries ∧ m.size ≤ m.tableSize / 2 ∧
    (∃ doublings, m.tableSize = 256 * 2 ^ doublings) ∧
    ∀ i key val, slot m.entries i = some (key,val) →
      (∃ offset < 8, i = (hashmapHashInt m key + offset) % m.tableSize) ∧
      ∃ j val', slot m.entries j = some (key,val') ∧
        hashmapGet .ignored m key = .returned (some val',m) := by
  have valid := run.invariant (fun _ m => m.Valid) create_valid
    fun _ _ _ _ _ before attempted => attempted_valid before attempted
  refine ⟨valid.counted,valid.half,valid.grown,fun i key val stored => ⟨?_,?_⟩⟩
  · obtain ⟨offset,small,position⟩ := valid.within i key val stored
    rw [m.allocated] at position
    exact ⟨offset,small,position⟩
  · exact stored_found valid ⟨i,stored⟩

/-- The condition on a call in the state before it. -/
def Admissible (m : Hashmap CString V) : Op V → Prop
  | .put key _ => m.Clear key
  | .del _ => True

/-- Lookups and deletions answer as the finite map says. -/
def Refines (ops : List (Op V)) (m : Hashmap CString V) : Prop :=
  (∀ key, hashmapGet .ignored m key = .returned (finiteMap ops key,m)) ∧
  ∀ key, ∃ m', hashmapDel .ignored m key =
    .returned (if (finiteMap ops key).isSome then .ok else .err,m')

/-- The stored pairs are the graph of the finite map. -/
structure Represents (ops : List (Op V)) (m : Hashmap CString V) : Prop where
  valid : m.Valid
  unique : m.Unique
  graph : ∀ key val, m.Contains key val ↔ finiteMap ops key = some val

theorem finiteMap_snoc (ops : List (Op V)) (op : Op V) :
    finiteMap (ops ++ [op]) = op.apply (finiteMap ops) := by
  simp [finiteMap]

theorem create_represents : Represents ([] : List (Op V)) hashmapCreate :=
  ⟨create_valid,create_unique,by simp [Hashmap.Contains,hashmapCreate,finiteMap]⟩

theorem called_represents {ops : List (Op V)} {op : Op V} {m m' : Hashmap CString V}
    (represents : Represents ops m) (admissible : Admissible m op) (called : Called m op m') :
    Represents (ops ++ [op]) m' := by
  cases op with
  | put key val =>
    obtain ⟨fuel,status,done⟩ := called
    obtain rfl := put_ok done
    obtain ⟨valid,unique,written,_⟩ := put_spec represents.valid represents.unique admissible done
    refine ⟨valid,unique,fun key' val' => ?_⟩
    rw [written,finiteMap_snoc,represents.graph]
    by_cases same : key' = key
    · simp [same,Op.apply,eq_comm]
    · simp [same,Op.apply]
  | del key =>
    obtain ⟨status,done⟩ := called
    obtain ⟨rfl,rfl⟩ := Prod.mk.inj (Outcome.returned.inj done)
    obtain ⟨unique,_,contents⟩ := remove_spec represents.valid represents.unique key
    refine ⟨remove_valid represents.valid key,unique,fun key' val' => ?_⟩
    change (m.remove key).2.Contains key' val' ↔ _
    rw [contents,finiteMap_snoc,represents.graph]
    by_cases same : key' = key
    · simp [same,Op.apply]
    · simp [same,Op.apply]

theorem represents_refines {ops : List (Op V)} {m : Hashmap CString V}
    (represents : Represents ops m) : Refines ops m := by
  have lookup (key : CString) : m.lookup key = finiteMap ops key := by
    apply Option.ext
    intro val
    rw [lookup_some_iff represents.valid represents.unique,represents.graph]
  refine ⟨fun key => ?_,fun key => ⟨(m.remove key).2,?_⟩⟩
  · rw [← lookup]
    rfl
  · obtain ⟨_,status,_⟩ := remove_spec represents.valid represents.unique key
    have present : (m.remove key).1 = .ok ↔ (finiteMap ops key).isSome = true := by
      rw [status,Option.isSome_iff_exists]
      simp only [represents.graph]
    change Outcome.returned ((m.remove key).1,_) = _
    congr 2
    split
    next stored => exact present.mpr stored
    next absent =>
      cases answer : (m.remove key).1 with
      | ok => exact absurd (present.mp answer) absent
      | err => rfl

/-- Along every run of admissible calls the map refines the finite map, and in every state
such a run reaches a put whose growth settles returns. -/
theorem admissible_run_refines {ops : List (Op V)} {m : Hashmap CString V}
    (run : Run (fun _ m op m' => Admissible m op ∧ Called m op m') hashmapCreate ops m) :
    Refines ops m ∧ ∀ key val, m.Settles key →
      ∃ fuel m', hashmapPut .ignored (fun _ => true) fuel m key val = .returned (.ok,m') := by
  have represents := run.invariant Represents create_represents
    fun _ _ _ _ _ before taken => called_represents before taken.1 taken.2
  exact ⟨represents_refines represents,fun key val settles =>
    settles_put_returns represents.valid represents.unique settles val⟩

def keyC : CString := cstr [99]
def keyK : CString := cstr [107]

/-- The two keys share slot 64 as their home; the second is stored in slot 65. -/
def twoKeys : Hashmap CString Nat := (hashmapCreate.store 64 keyC 1).store 65 keyK 2

theorem twoKeys_drawn : twoKeys.DrawnFrom [keyC,keyK] := by
  rintro key val ⟨i,stored⟩
  rw [twoKeys,store_slot (by decide)] at stored
  split at stored
  · simp [(Prod.mk.inj (Option.some.inj stored)).1.symm]
  · rw [store_slot (by decide)] at stored
    split at stored
    · simp [(Prod.mk.inj (Option.some.inj stored)).1.symm]
    · simp [hashmapCreate] at stored

theorem twoKeys_called : Called ((hashmapCreate : Hashmap CString Nat).store 64 keyC 1)
    (.put keyK 2) twoKeys := ⟨1,.ok,rfl⟩

theorem oneKey_called : Called (hashmapCreate : Hashmap CString Nat) (.put keyC 1)
    (hashmapCreate.store 64 keyC 1) := ⟨1,.ok,rfl⟩

/-- Two keys that share their home, both where the invariant wants them. -/
theorem twoKeys_represented : ∃ ops, Run (fun _ m op m' => Attempted m op m') hashmapCreate ops twoKeys ∧
    twoKeys.size = used twoKeys.entries ∧ ∃ offset < 8,
      65 = (hashmapHashInt twoKeys keyK + offset) % twoKeys.tableSize := by
  have first : Attempted (hashmapCreate : Hashmap CString Nat) (.put keyC 1)
      (hashmapCreate.store 64 keyC 1) := ⟨fun _ => false,1,.ok,rfl⟩
  have second : Attempted ((hashmapCreate : Hashmap CString Nat).store 64 keyC 1) (.put keyK 2) twoKeys :=
    ⟨fun _ => false,1,.ok,rfl⟩
  have run : Run (fun _ m op m' => Attempted m op m') hashmapCreate [.put keyC 1,.put keyK 2] twoKeys :=
    (Run.nil.snoc first).snoc second
  obtain ⟨counted,_,_,entries⟩ := attempted_run_represented run
  exact ⟨_,run,counted,(entries 65 keyK 2 rfl).1⟩

theorem twoKeys_refines : Refines [.put keyC 1,.put keyK 2] twoKeys ∧ twoKeys.Settles keyC ∧
    ∃ fuel m', hashmapPut .ignored (fun _ => true) fuel twoKeys keyC 3 = .returned (.ok,m') := by
  have fresh : (hashmapCreate : Hashmap CString Nat).Fresh := create_fresh
  obtain ⟨fuel,status,done⟩ := oneKey_called
  obtain rfl := put_ok done
  have fresh₁ := (put_fresh fresh done).1
  have run : Run (fun _ m op m' => Admissible m op ∧ Called m op m')
      (hashmapCreate : Hashmap CString Nat) ([] ++ [.put keyC 1] ++ [.put keyK 2]) twoKeys :=
    (Run.nil.snoc ⟨packed_clear fresh.valid fresh.packed keyC,oneKey_called⟩).snoc
      ⟨packed_clear fresh₁.valid fresh₁.packed keyK,twoKeys_called⟩
  have settles : twoKeys.Settles keyC :=
    ⟨[keyC,keyK],0,twoKeys_drawn,by simp,by decide,by decide +kernel⟩
  exact ⟨(admissible_run_refines run).1,settles,(admissible_run_refines run).2 keyC 3 settles⟩

/-- Deleting the first key leaves a hole that the next put of the second one takes: its old
copy in slot 65 survives the deletion that follows. -/
def staleOps : List (Op Nat) := [.put keyC 1,.put keyK 2,.del keyC,.put keyK 3,.del keyK]

def stale : Hashmap CString Nat := (((twoKeys.remove keyC).2.store 64 keyK 3).remove keyK).2

theorem stale_not_refined :
    Run (fun _ m op m' => Called m op m') hashmapCreate staleOps stale ∧ ¬Refines staleOps stale := by
  constructor
  · have again : Called (twoKeys.remove keyC).2 (.put keyK 3)
        ((twoKeys.remove keyC).2.store 64 keyK 3) := ⟨1,.ok,rfl⟩
    have dropC : Called twoKeys (.del keyC) (twoKeys.remove keyC).2 := ⟨_,rfl⟩
    have dropK : Called ((twoKeys.remove keyC).2.store 64 keyK 3) (.del keyK) stale := ⟨_,rfl⟩
    exact ((((Run.nil.snoc oneKey_called).snoc twoKeys_called).snoc dropC).snoc again).snoc dropK
  · intro refines
    have found : stale.lookup keyK = some 2 := by decide +kernel
    have answer := (Prod.mk.inj (Outcome.returned.inj (refines.1 keyK))).1
    have absent : finiteMap staleOps keyK = none := by decide +kernel
    rw [found,absent] at answer
    contradiction

end Sizigy.HashmapRefinement
