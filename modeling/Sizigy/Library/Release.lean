import Mathlib.Data.List.Nodup
import Sizigy.Library.Outcome

/-! Memory that is given back block by block. Freeing a block twice is not defined. A sequence of
frees is defined exactly when it names no block twice and none that was freed before. -/

namespace Release

variable {B : Type} [DecidableEq B]

def free (freed : List B) (block : B) : Outcome (List B) :=
  if block ∈ freed then .crashed else .returned (freed ++ [block])

def freeAll (freed : List B) : List B → Outcome (List B)
  | [] => .returned freed
  | block :: rest => do freeAll (← free freed block) rest

theorem freeAll_append (freed left right : List B) :
    freeAll freed (left ++ right) = freeAll freed left >>= fun freed => freeAll freed right := by
  induction left generalizing freed with
  | nil => rfl
  | cons block left ih =>
    simp only [List.cons_append,freeAll,Outcome.bind_assoc]
    exact Outcome.bind_congr ih

@[simp] theorem freeAll_singleton (freed : List B) (block : B) : freeAll freed [block] = free freed block := by
  unfold freeAll freeAll free
  split <;> rfl

theorem freeAll_eq_returned {freed blocks freed' : List B} :
    freeAll freed blocks = .returned freed' ↔
      freed' = freed ++ blocks ∧ blocks.Nodup ∧ ∀ block ∈ blocks, block ∉ freed := by
  induction blocks generalizing freed with
  | nil => simp [freeAll,eq_comm]
  | cons block rest ih =>
    simp only [freeAll,Outcome.bind_eq_returned,List.nodup_cons]
    constructor
    · rintro ⟨now,first,later⟩
      unfold free at first
      split at first
      next => cases first
      next fresh =>
        obtain rfl := Outcome.returned.inj first
        obtain ⟨rfl,distinct,apart⟩ := ih.mp later
        refine ⟨by simp,⟨fun twice => apart block twice (by simp),distinct⟩,?_⟩
        rintro b (_ | ⟨_,member⟩)
        · exact fresh
        · exact fun before => apart b member (List.mem_append_left _ before)
    · rintro ⟨rfl,⟨once,distinct⟩,apart⟩
      have fresh := apart block List.mem_cons_self
      refine ⟨freed ++ [block],if_neg fresh,ih.mpr ⟨by simp,distinct,fun b member before => ?_⟩⟩
      rcases List.mem_append.mp before with old | new
      · exact apart b (List.mem_cons_of_mem _ member) old
      · exact once (List.mem_singleton.mp new ▸ member)

end Release
