import Sizigy.Library.Outcome
import Sizigy.Library.Run

/-! Two executions side by side. They are in lockstep when they show the same events and end
the same way with related results. The relation goes through sequencing, and from single steps
to whole runs. -/

namespace Outcome

inductive Lockstep (related : α → β → Prop) : Outcome α → Outcome β → Prop where
  | returned (pair : related value value') : Lockstep related (.returned value) (.returned value')
  | blocked : Lockstep related .blocked .blocked
  | crashed : Lockstep related .crashed .crashed
  | unfinished : Lockstep related .unfinished .unfinished

namespace Lockstep

variable {related : α → β → Prop}

theorem refl (x : Outcome α) : Lockstep (fun value value' => value' = value ∧ x = .returned value) x x := by
  cases x with
  | returned value => exact .returned ⟨rfl,rfl⟩
  | blocked => exact .blocked
  | crashed => exact .crashed
  | unfinished => exact .unfinished

theorem bind {related' : γ → δ → Prop} {f : α → Outcome γ} {g : β → Outcome δ} (first : Lockstep related x y)
    (next : ∀ value value', related value value' → Lockstep related' (f value) (g value')) :
    Lockstep related' (x >>= f) (y >>= g) := by
  cases first with
  | returned pair => exact next _ _ pair
  | blocked => exact .blocked
  | crashed => exact .crashed
  | unfinished => exact .unfinished

theorem imp {related' : α → β → Prop} (step : Lockstep related x y)
    (weaker : ∀ value value', related value value' → related' value value') : Lockstep related' x y := by
  cases step with
  | returned pair => exact .returned (weaker _ _ pair)
  | blocked => exact .blocked
  | crashed => exact .crashed
  | unfinished => exact .unfinished

/-- Two continuations of one call. -/
theorem fork {f : α → Outcome γ} {g : α → Outcome δ} {related : γ → δ → Prop} (x : Outcome α)
    (next : ∀ value, Lockstep related (f value) (g value)) : Lockstep related (x >>= f) (x >>= g) :=
  (refl x).bind fun value _ same => same.1 ▸ next value

theorem returned_iff (step : Lockstep related x y) (done : x = .returned value) :
    ∃ value', y = .returned value' ∧ related value value' := by
  subst done
  cases step with
  | returned pair => exact ⟨_,rfl,pair⟩

end Lockstep

end Outcome

namespace Exec

structure Lockstep (related : α → β → Prop) (x : Exec ε α) (y : Exec ε β) : Prop where
  events : y.events = x.events
  outcome : Outcome.Lockstep related x.outcome y.outcome

namespace Lockstep

variable {related : α → β → Prop}

theorem pure (pair : related value value') : Lockstep related (Pure.pure value : Exec ε α) (Pure.pure value') :=
  ⟨rfl,.returned pair⟩

theorem lift (step : Outcome.Lockstep related x y) : Lockstep related (Exec.lift x : Exec ε α) (Exec.lift y) :=
  ⟨rfl,step⟩

theorem emit (event : ε) : Lockstep (fun _ _ => True) (Exec.emit event) (Exec.emit event) :=
  ⟨rfl,.returned trivial⟩

theorem bind {related' : γ → δ → Prop} {x : Exec ε α} {y : Exec ε β} {f : α → Exec ε γ} {g : β → Exec ε δ}
    (first : Lockstep related x y)
    (next : ∀ value value', related value value' → Lockstep related' (f value) (g value')) :
    Lockstep related' (x >>= f) (y >>= g) := by
  obtain ⟨events,outcome⟩ := x
  obtain ⟨events',outcome'⟩ := y
  obtain ⟨rfl,step⟩ := first
  dsimp only at step
  cases step with
  | returned pair =>
    have later := next _ _ pair
    rw [returned_bind,returned_bind]
    exact ⟨by rw [later.events],later.outcome⟩
  | blocked => exact ⟨rfl,.blocked⟩
  | crashed => exact ⟨rfl,.crashed⟩
  | unfinished => exact ⟨rfl,.unfinished⟩

end Lockstep

end Exec

/-- Two runs with the same inputs show the same, if single steps from related states do. -/
theorem Run.lockstep {step step' : List L → S → L → S → Prop} (related : S → S → Prop) (input : L → I)
    (shown : L → O) (initial : related start start')
    (keeps : ∀ past s label next past' s' label' next', step past s label next → step' past' s' label' next' →
      related s s' → input label' = input label → shown label' = shown label ∧ related next next')
    (run : Run step start past s) (run' : Run step' start' past' s') (same : past'.map input = past.map input) :
    past'.map shown = past.map shown ∧ related s s' := by
  induction run generalizing past' s' with
  | nil =>
    cases run' with
    | nil => exact ⟨rfl,initial⟩
    | snoc => simp at same
  | snoc run taken ih =>
    cases run' with
    | nil => simp at same
    | snoc run' taken' =>
      rw [List.map_append,List.map_append] at same
      obtain ⟨before,last⟩ := List.append_inj' same rfl
      obtain ⟨shown',pair⟩ := ih run' before
      obtain ⟨shownLast,pair'⟩ := keeps _ _ _ _ _ _ _ _ taken taken' pair (List.singleton_inj.mp last)
      rw [List.map_append,List.map_append,shown',List.map_singleton,List.map_singleton,shownLast]
      exact ⟨rfl,pair'⟩
