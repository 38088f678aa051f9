import Mathlib.Data.List.Basic

/-! The part of `list.c` that the broker uses for subscribers: the chain of nodes from `head`
and the counter `len`, which removal leaves alone. Nothing here reads `tail`. -/
namespace Sizigy

structure LinkedList (α : Type) where
  nodes : List α
  len : Nat

def listCreate : LinkedList α := ⟨[],0⟩

/-- With a zero counter the new node replaces the whole chain. -/
def listHeadInsert (l : LinkedList α) (val : α) : LinkedList α :=
  if l.len = 0 then ⟨[val],l.len + 1⟩ else ⟨val :: l.nodes,l.len + 1⟩

/-- The first node on which the comparison answers zero is dropped. -/
def listRemoveNode (cmp : α → Int) : List α → List α
  | [] => []
  | head :: next => if cmp head = 0 then next else head :: listRemoveNode cmp next

/-- The counter is never below the length of the chain. -/
def LinkedList.Covered (l : LinkedList α) : Prop := l.nodes.length ≤ l.len

theorem listCreate_covered : (listCreate : LinkedList α).Covered := Nat.le_refl 0

theorem listHeadInsert_nodes {l : LinkedList α} (covered : l.Covered) (val : α) :
    (listHeadInsert l val).nodes = val :: l.nodes ∧ (listHeadInsert l val).Covered := by
  unfold listHeadInsert LinkedList.Covered at *
  split
  next zero =>
    have empty : l.nodes = [] := List.eq_nil_of_length_eq_zero (by omega)
    simp [empty]
  next => exact ⟨rfl,Nat.succ_le_succ covered⟩

theorem listRemoveNode_eq (cmp : α → Int) (l : List α) :
    listRemoveNode cmp l = l.eraseP fun a => decide (cmp a = 0) := by
  induction l with
  | nil => rfl
  | cons head next ih =>
    simp only [listRemoveNode,List.eraseP_cons,ih]
    by_cases zero : cmp head = 0 <;> simp [zero]

theorem listRemoveNode_length (cmp : α → Int) (l : List α) :
    (listRemoveNode cmp l).length ≤ l.length := by
  rw [listRemoveNode_eq]
  exact List.length_eraseP_le

end Sizigy
