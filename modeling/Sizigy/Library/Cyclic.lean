import Mathlib.Data.List.Range
import Mathlib.Data.Nat.ModEq
import Mathlib.Logic.Function.Basic

/-! Windows of a cyclic store. A window is the list of cells from a start position on, with
positions taken modulo the capacity; queues over a fixed array are such windows. -/
namespace Cyclic

def window (cells : Nat → α) (capacity start n : Nat) : List α :=
  (List.range n).map fun i => cells ((start + i) % capacity)

@[simp] theorem window_length (cells : Nat → α) (capacity start n : Nat) :
    (window cells capacity start n).length = n := by
  simp [window]

@[simp] theorem window_zero (cells : Nat → α) (capacity start : Nat) :
    window cells capacity start 0 = [] := rfl

theorem window_snoc (cells : Nat → α) (capacity start n : Nat) :
    window cells capacity start (n + 1) =
      window cells capacity start n ++ [cells ((start + n) % capacity)] := by
  simp [window,List.range_succ]

theorem window_cons (cells : Nat → α) (capacity start n : Nat) :
    window cells capacity start (n + 1) =
      cells (start % capacity) :: window cells capacity ((start + 1) % capacity) n := by
  simp only [window,List.range_succ_eq_map,List.map_cons,List.map_map,Nat.add_zero]
  congr 1
  apply List.map_congr_left
  intro i _
  simp only [Function.comp_def,Nat.mod_add_mod]
  congr 2
  omega

theorem offset_injective {capacity i j : Nat} (start : Nat) (left : i < capacity) (right : j < capacity)
    (equal : (start + i) % capacity = (start + j) % capacity) : i = j := by
  have cancelled : Nat.ModEq capacity i j := Nat.ModEq.add_left_cancel' start equal
  exact Nat.ModEq.eq_of_lt_of_lt cancelled left right

/-- The cell behind a window that leaves one free is not in it. -/
theorem window_update (cells : Nat → α) (value : α) {capacity start n : Nat}
    (room : n < capacity) :
    window (Function.update cells ((start + n) % capacity) value) capacity start n =
      window cells capacity start n := by
  apply List.map_congr_left
  intro i member
  have inside := List.mem_range.mp member
  have apart : (start + i) % capacity ≠ (start + n) % capacity := fun equal =>
    absurd (offset_injective start (inside.trans room) room equal) (by omega)
  exact Function.update_of_ne apart value cells

theorem succ_mod {i capacity : Nat} (inside : i < capacity) :
    (i + 1) % capacity = if i + 1 = capacity then 0 else i + 1 := by
  split
  next last => rw [last,Nat.mod_self]
  next => exact Nat.mod_eq_of_lt (by omega)

end Cyclic
