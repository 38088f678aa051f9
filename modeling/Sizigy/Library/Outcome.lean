import Mathlib.Order.Basic

/-! Results of calls that need not come back. A call may return, wait for ever on a
lock its own chain holds, dereference a null pointer, or still be running when the
given fuel is used up. `Exec` adds the events emitted on the way, which survive a
call that never returns. -/

inductive Outcome (α : Type) where
  | returned (value : α)
  | blocked
  | crashed
  | unfinished
  deriving DecidableEq, Repr

namespace Outcome

def bind : Outcome α → (α → Outcome β) → Outcome β
  | returned value, next => next value
  | blocked, _ => blocked
  | crashed, _ => crashed
  | unfinished, _ => unfinished

instance : Monad Outcome where
  pure := returned
  bind := bind

@[simp] theorem pure_eq (value : α) : (pure value : Outcome α) = returned value := rfl

@[simp] theorem returned_bind (value : α) (next : α → Outcome β) :
    (returned value >>= next) = next value := rfl

@[simp] theorem blocked_bind (next : α → Outcome β) : (blocked >>= next) = blocked := rfl

@[simp] theorem crashed_bind (next : α → Outcome β) : (crashed >>= next) = crashed := rfl

@[simp] theorem unfinished_bind (next : α → Outcome β) :
    (unfinished >>= next) = unfinished := rfl

theorem bind_assoc (x : Outcome α) (f : α → Outcome β) (g : β → Outcome γ) :
    x >>= f >>= g = x >>= fun value => f value >>= g := by
  cases x <;> rfl

theorem bind_congr {x : Outcome α} {f g : α → Outcome β} (same : ∀ value, f value = g value) :
    x >>= f = x >>= g := by
  cases x with
  | returned value => exact same value
  | blocked => rfl
  | crashed => rfl
  | unfinished => rfl

theorem bind_eq_returned {x : Outcome α} {next : α → Outcome β} {result : β} :
    (x >>= next) = returned result ↔ ∃ value, x = returned value ∧ next value = returned result := by
  cases x <;> simp

/-- More fuel can only finish a call, never change the result of a finished one. -/
def Le (x y : Outcome α) : Prop := x = unfinished ∨ x = y

theorem Le.refl (x : Outcome α) : Le x x := .inr rfl

theorem Le.unfinished (y : Outcome α) : Le .unfinished y := .inl rfl

theorem Le.trans {x y z : Outcome α} (first : Le x y) (second : Le y z) : Le x z := by
  rcases first with rfl | rfl
  · exact .inl rfl
  · exact second

theorem Le.returned {x y : Outcome α} (le : Le x y) (value : x = .returned result) :
    y = .returned result := by
  rcases le with rfl | rfl
  · contradiction
  · exact value

theorem Le.bind {x y : Outcome α} {f g : α → Outcome β} (le : Le x y)
    (nexts : ∀ value, Le (f value) (g value)) : Le (x >>= f) (y >>= g) := by
  rcases le with rfl | rfl
  · exact .inl rfl
  · cases x with
    | returned value => exact nexts value
    | blocked => exact .inr rfl
    | crashed => exact .inr rfl
    | unfinished => exact .inl rfl

end Outcome

structure Exec (ε α : Type) where
  events : List ε
  outcome : Outcome α

namespace Exec

def bind (x : Exec ε α) (next : α → Exec ε β) : Exec ε β :=
  match x.outcome with
  | .returned value => ⟨x.events ++ (next value).events, (next value).outcome⟩
  | .blocked => ⟨x.events, .blocked⟩
  | .crashed => ⟨x.events, .crashed⟩
  | .unfinished => ⟨x.events, .unfinished⟩

instance : Monad (Exec ε) where
  pure value := ⟨[], .returned value⟩
  bind := bind

def emit (event : ε) : Exec ε Unit := ⟨[event], .returned ()⟩

def lift (x : Outcome α) : Exec ε α := ⟨[], x⟩

@[simp] theorem pure_outcome (value : α) : (pure value : Exec ε α).outcome = .returned value := rfl

@[simp] theorem pure_events (value : α) : (pure value : Exec ε α).events = [] := rfl

@[simp] theorem lift_outcome (x : Outcome α) : (lift x : Exec ε α).outcome = x := rfl

@[simp] theorem lift_events (x : Outcome α) : (lift x : Exec ε α).events = [] := rfl

@[simp] theorem emit_outcome (event : ε) : (emit event).outcome = .returned () := rfl

@[simp] theorem emit_events (event : ε) : (emit event).events = [event] := rfl

@[simp] theorem bind_outcome (x : Exec ε α) (next : α → Exec ε β) :
    (x >>= next).outcome = x.outcome >>= fun value => (next value).outcome := by
  change (bind x next).outcome = _
  unfold bind
  split <;> simp_all

theorem bind_events (x : Exec ε α) (next : α → Exec ε β) (value : α)
    (returned : x.outcome = .returned value) :
    (x >>= next).events = x.events ++ (next value).events := by
  change (bind x next).events = _
  simp [bind,returned]

theorem bind_silent (x : Exec ε α) (next : α → Exec ε β) (silent : ∀ value, (next value).events = []) :
    (x >>= next).events = x.events := by
  change (bind x next).events = _
  unfold bind
  split
  · simp [silent]
  · rfl
  · rfl
  · rfl

theorem returned_bind (events : List ε) (value : α) (next : α → Exec ε β) :
    ((⟨events,.returned value⟩ : Exec ε α) >>= next) =
      ⟨events ++ (next value).events,(next value).outcome⟩ := rfl

theorem emit_bind (event : ε) (next : Unit → Exec ε β) :
    (emit event >>= next) = ⟨event :: (next ()).events,(next ()).outcome⟩ := rfl

@[simp] theorem emit_bind_events (event : ε) (next : Unit → Exec ε β) :
    (emit event >>= next).events = event :: (next ()).events := rfl

@[simp] theorem lift_bind (value : α) (next : α → Exec ε β) :
    (lift (.returned value) >>= next) = next value := rfl

@[simp] theorem pure_bind (value : α) (next : α → Exec ε β) : (pure value >>= next) = next value :=
  rfl

theorem bind_assoc (x : Exec ε α) (f : α → Exec ε β) (g : β → Exec ε γ) :
    x >>= f >>= g = x >>= fun value => f value >>= g := by
  obtain ⟨events,outcome⟩ := x
  cases outcome with
  | returned value =>
    rw [returned_bind,returned_bind]
    obtain ⟨events',outcome'⟩ := f value
    cases outcome' with
    | returned value' => simp only [returned_bind,List.append_assoc]
    | blocked => rfl
    | crashed => rfl
    | unfinished => rfl
  | blocked => rfl
  | crashed => rfl
  | unfinished => rfl

/-- A call of whose result only the second part is used. -/
def second (x : Exec ε (α × β)) : Exec ε β := x >>= fun value => pure value.2

end Exec
