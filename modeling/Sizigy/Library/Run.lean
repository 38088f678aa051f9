import Mathlib.Order.Basic

/-! Finite labelled runs. A step sees the labels already taken, so that a condition on
a run may speak about its history as well as about the state before each step. -/

inductive Run (step : List L → S → L → S → Prop) (start : S) : List L → S → Prop where
  | nil : Run step start [] start
  | snoc : Run step start past s → step past s label next → Run step start (past ++ [label]) next

namespace Run

theorem invariant {step : List L → S → L → S → Prop} (property : List L → S → Prop)
    (initial : property [] start)
    (preserved : ∀ past s label next, Run step start past s → property past s →
      step past s label next → property (past ++ [label]) next)
    (run : Run step start past s) : property past s := by
  induction run with
  | nil => exact initial
  | snoc run taken ih => exact preserved _ _ _ _ run ih taken

theorem mono {step step' : List L → S → L → S → Prop} (run : Run step start past s)
    (weaker : ∀ past s label next, step past s label next → step' past s label next) : Run step' start past s := by
  induction run with
  | nil => exact .nil
  | snoc _ taken ih => exact ih.snoc (weaker _ _ _ _ taken)

/-- A run all of whose labels meet a condition is a run of the steps that meet it. -/
theorem restrict {step : List L → S → L → S → Prop} {condition : L → Prop} (run : Run step start past s)
    (all : ∀ label ∈ past, condition label) :
    Run (fun past s label next => condition label ∧ step past s label next) start past s := by
  induction run with
  | nil => exact .nil
  | snoc run taken ih =>
    have before := ih fun label member => all label (List.mem_append_left _ member)
    exact before.snoc ⟨all _ (List.mem_append_right _ (List.mem_singleton.mpr rfl)),taken⟩

end Run
