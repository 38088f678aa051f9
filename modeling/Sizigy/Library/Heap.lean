import Mathlib.Logic.Function.Basic

/-! A heap of cells of one type with a bump allocator. Cells are never reused, so a
pointer names one object for the whole run. -/

structure Heap (α : Type) where
  next : Nat
  cell : Nat → α

namespace Heap

def alloc (h : Heap α) (value : α) : Heap α := ⟨h.next + 1, Function.update h.cell h.next value⟩

def modify (h : Heap α) (p : Nat) (f : α → α) : Heap α :=
  { h with cell := Function.update h.cell p (f (h.cell p)) }

@[simp] theorem alloc_next (h : Heap α) (value : α) : (h.alloc value).next = h.next + 1 := rfl

@[simp] theorem modify_next (h : Heap α) (p : Nat) (f : α → α) : (h.modify p f).next = h.next := rfl

@[simp] theorem alloc_new (h : Heap α) (value : α) : (h.alloc value).cell h.next = value := by
  simp [alloc]

theorem alloc_old (h : Heap α) (value : α) (p : Nat) (apart : p ≠ h.next) :
    (h.alloc value).cell p = h.cell p := by
  simp [alloc,apart]

@[simp] theorem modify_same (h : Heap α) (p : Nat) (f : α → α) :
    (h.modify p f).cell p = f (h.cell p) := by
  simp [modify]

theorem modify_other (h : Heap α) (p q : Nat) (f : α → α) (apart : q ≠ p) :
    (h.modify p f).cell q = h.cell q := by
  simp [modify,apart]

/-- A field that the update keeps is kept in every cell. -/
theorem modify_field (h : Heap α) (p q : Nat) (f : α → α) (field : α → β)
    (keeps : ∀ a, field (f a) = field a) : field ((h.modify p f).cell q) = field (h.cell q) := by
  by_cases same : q = p
  · subst q; simp [keeps]
  · rw [modify_other h p q f same]

end Heap
