import Mathlib.Data.List.Nodup

/-! Singly linked nodes in a memory with a bump allocator. A chain is what a walk from a pointer
to the null pointer meets: the addresses of its nodes with their data. -/
namespace Linked

structure Node (D : Type) where
  data : D
  next : Option Nat

structure Memory (D : Type) where
  limit : Nat
  cell : Nat → Option (Node D)
  fresh : ∀ p, limit ≤ p → cell p = none

namespace Memory

def empty : Memory D := ⟨0,fun _ => none,fun _ _ => rfl⟩

def malloc (m : Memory D) (node : Node D) : Memory D where
  limit := m.limit + 1
  cell := Function.update m.cell m.limit (some node)
  fresh := by
    intro p above
    rw [Function.update_of_ne (by omega)]
    exact m.fresh p (by omega)

def free (m : Memory D) (p : Nat) : Memory D where
  limit := m.limit
  cell := Function.update m.cell p none
  fresh := by
    intro q above
    by_cases same : q = p
    · simp [same]
    · simpa [same] using m.fresh q above

def setNext (m : Memory D) (p : Nat) (next : Option Nat) : Memory D where
  limit := m.limit
  cell := Function.update m.cell p ((m.cell p).map fun node => { node with next := next })
  fresh := by
    intro q above
    by_cases same : q = p
    · subst q; simp [m.fresh p above]
    · simpa [same] using m.fresh q above

variable {m : Memory D} {node : Node D} {p q : Nat}

@[simp] theorem malloc_new : (m.malloc node).cell m.limit = some node := by simp [malloc]

theorem malloc_old (live : m.cell p = some found) : (m.malloc node).cell p = some found := by
  have apart : p ≠ m.limit := by
    rintro rfl
    simp [m.fresh m.limit (Nat.le_refl _)] at live
  simpa [malloc,apart] using live

theorem free_other (apart : q ≠ p) : (m.free p).cell q = m.cell q := by simp [free,apart]

theorem setNext_other (apart : q ≠ p) : (m.setNext p next).cell q = m.cell q := by simp [setNext,apart]

theorem setNext_same (live : m.cell p = some node) :
    (m.setNext p next).cell p = some { node with next := next } := by
  simp [setNext,live]

end Memory

/-- The nodes met from a pointer on, in order, each with its data. -/
def Chain (m : Memory D) : Option Nat → List (Nat × D) → Prop
  | start, [] => start = none
  | start, (p,d) :: rest => start = some p ∧ ∃ next, m.cell p = some ⟨d,next⟩ ∧ Chain m next rest

namespace Chain

variable {m m' : Memory D} {start : Option Nat} {l l' : List (Nat × D)}

theorem null_iff (chain : Chain m start l) : start = none ↔ l = [] := by
  cases l with
  | nil => simpa [Chain] using chain
  | cons first rest => simp [chain.1]

theorem unique (chain : Chain m start l) (other : Chain m start l') : l = l' := by
  induction l generalizing start l' with
  | nil => exact (other.null_iff.mp chain).symm
  | cons first rest ih =>
    obtain ⟨rfl,next,stored,later⟩ := chain
    cases l' with
    | nil => simp [Chain] at other
    | cons first' rest' =>
      obtain ⟨same,next',stored',later'⟩ := other
      have address := Option.some.inj same
      rw [← address,stored] at stored'
      obtain ⟨data,rfl⟩ := Node.mk.inj (Option.some.inj stored')
      rw [ih later later',Prod.ext address data]

theorem live (chain : Chain m start l) (member : (p,d) ∈ l) : ∃ next, m.cell p = some ⟨d,next⟩ := by
  induction l generalizing start with
  | nil => simp at member
  | cons first rest ih =>
    obtain ⟨rfl,next,stored,later⟩ := chain
    rcases List.mem_cons.mp member with rfl | member
    · exact ⟨next,stored⟩
    · exact ih later member

theorem suffix (before : List (Nat × D)) (chain : Chain m start (before ++ (p,d) :: after)) :
    Chain m (some p) ((p,d) :: after) := by
  induction before generalizing start with
  | nil => exact chain.1 ▸ chain
  | cons first rest ih =>
    obtain ⟨_,_,_,later⟩ := chain
    exact ih later

/-- A chain ends, so it meets no address twice. -/
theorem nodup (chain : Chain m start l) : (l.map Prod.fst).Nodup := by
  induction l generalizing start with
  | nil => simp
  | cons first rest ih =>
    obtain ⟨rfl,next,stored,later⟩ := id chain
    refine List.nodup_cons.mpr ⟨fun again => ?_,ih later⟩
    obtain ⟨⟨p,d⟩,member,same⟩ := List.mem_map.mp again
    obtain ⟨before,after,rfl⟩ := List.append_of_mem member
    have whole := (suffix before later).unique (same ▸ chain)
    have longer := congrArg List.length whole
    simp at longer
    omega

theorem frame (chain : Chain m start l) (same : ∀ p ∈ l.map Prod.fst, m'.cell p = m.cell p) : Chain m' start l := by
  induction l generalizing start with
  | nil => exact chain
  | cons first rest ih =>
    obtain ⟨rfl,next,stored,later⟩ := chain
    refine ⟨rfl,next,?_,ih later fun p member => same p (List.mem_cons_of_mem _ member)⟩
    rw [same first.1 (by simp),stored]

theorem malloc (chain : Chain m start l) (node : Node D) : Chain (m.malloc node) start l := by
  refine chain.frame fun p member => ?_
  obtain ⟨⟨p,d⟩,listed,rfl⟩ := List.mem_map.mp member
  obtain ⟨next,stored⟩ := chain.live listed
  rw [stored,Memory.malloc_old stored]

/-- The address that is allocated next is not on any chain. -/
theorem limit_fresh (chain : Chain m start l) : m.limit ∉ l.map Prod.fst := by
  intro member
  obtain ⟨⟨p,d⟩,listed,same⟩ := List.mem_map.mp member
  obtain ⟨next,stored⟩ := chain.live listed
  have gone := m.fresh p (Nat.le_of_eq same.symm)
  simp [stored] at gone

/-- A last node that is pointed to another one is the last but one. -/
theorem extend (before : List (Nat × D)) (chain : Chain m start (before ++ [(last,d)]))
    (stored : m.cell p = some ⟨e,none⟩) (apart : p ∉ (before ++ [(last,d)]).map Prod.fst) :
    Chain (m.setNext last (some p)) start (before ++ [(last,d),(p,e)]) := by
  have distinct := chain.nodup
  have other : p ≠ last := by
    rintro rfl
    simp at apart
  induction before generalizing start with
  | nil =>
    obtain ⟨rfl,next,here,_⟩ := chain
    exact ⟨rfl,some p,Memory.setNext_same here,rfl,none,by rw [Memory.setNext_other other,stored],rfl⟩
  | cons first rest ih =>
    obtain ⟨rfl,next,here,later⟩ := chain
    simp only [List.cons_append,List.map_cons,List.nodup_cons,List.mem_cons,not_or] at distinct apart
    have elsewhere : first.1 ≠ last := by
      rintro rfl
      simp at distinct
    refine ⟨rfl,next,?_,ih later apart.2 distinct.2⟩
    rw [Memory.setNext_other elsewhere,here]

end Chain

end Linked
