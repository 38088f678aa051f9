import Mathlib.Algebra.BigOperators.Group.Finset.Piecewise
import Mathlib.Data.Fintype.Basic
import Mathlib.Logic.Function.Basic
import Sizigy.Library.Run

/-! Threads that share data under one mutex and one condition variable. Each point of a
thread's code says what the thread does next. A wait gives the mutex back and sleeps, a signal
wakes one sleeper if there is one, sleepers may also wake by themselves, and who woke takes the
mutex again before going on. The data may also be accessed without the mutex.

An outline of the code gives an invariant of the shared data and an assertion for every point.
What is asserted outside of the mutex has to survive what the others do under it. An outline need
only be checked point by point, and then holds in every interleaving. -/

namespace Monitor

/-- What a thread does at a point of its code; work on the shared data may fail. -/
inductive Act (S P : Type) where
  | choose (next : P → Prop)
  | lock (next : P)
  | work (f : S → Option (S × P))
  | wait (next : P)
  | signal (next : P)
  | unlock (next : P)
  | access (f : S → S × P)

inductive Status (P : Type) where
  | running (p : P)
  | sleeping (p : P)
  | woken (p : P)
  | crashed

structure State (T S P : Type) where
  shared : S
  owner : Option T
  status : T → Status P

variable {T S P : Type} [DecidableEq T]

def State.move (s : State T S P) (t : T) (status : Status P) : State T S P :=
  { s with status := Function.update s.status t status }

inductive Step (program : P → Act S P) (t : T) (s : State T S P) : State T S P → Prop where
  | choose (here : s.status t = .running p) (act : program p = .choose next) (chosen : next q) :
    Step program t s (s.move t (.running q))
  | lock (here : s.status t = .running p) (act : program p = .lock q) (free : s.owner = none) :
    Step program t s ({ s with owner := some t }.move t (.running q))
  | work (here : s.status t = .running p) (act : program p = .work f) (done : f s.shared = some (shared,q)) :
    Step program t s ({ s with shared := shared }.move t (.running q))
  | crash (here : s.status t = .running p) (act : program p = .work f) (fails : f s.shared = none) :
    Step program t s (s.move t .crashed)
  | wait (here : s.status t = .running p) (act : program p = .wait q) (own : s.owner = some t) :
    Step program t s ({ s with owner := none }.move t (.sleeping q))
  | signal (here : s.status t = .running p) (act : program p = .signal q)
    (nobody : ∀ u r, s.status u ≠ .sleeping r) : Step program t s (s.move t (.running q))
  | wake (here : s.status t = .running p) (act : program p = .signal q) (asleep : s.status u = .sleeping r) :
    Step program t s ((s.move t (.running q)).move u (.woken r))
  | unlock (here : s.status t = .running p) (act : program p = .unlock q) (own : s.owner = some t) :
    Step program t s ({ s with owner := none }.move t (.running q))
  | access (here : s.status t = .running p) (act : program p = .access f) :
    Step program t s ({ s with shared := (f s.shared).1 }.move t (.running (f s.shared).2))
  | spurious (asleep : s.status t = .sleeping r) : Step program t s (s.move t (.woken r))
  | resume (awake : s.status t = .woken r) (free : s.owner = none) :
    Step program t s ({ s with owner := some t }.move t (.running r))

/-- The points under the mutex, what the shared data meets while it is free, and what it meets
at each point. A lock at a point under the mutex needs no rule, as it is never passed. -/
structure Outline (program : P → Act S P) (guarded : P → Bool) (inv : S → Prop) (asserted : P → S → Prop) :
    Prop where
  choose : ∀ p next, program p = .choose next → guarded p = false ∧
    ∀ q, next q → guarded q = false ∧ ∀ s, asserted p s → asserted q s
  lock : ∀ p q, program p = .lock q → guarded p = false → guarded q = true ∧
    ∀ s, asserted p s → inv s → asserted q s
  work : ∀ p f, program p = .work f → guarded p = true ∧
    ∀ s, asserted p s → ∃ s' q, f s = some (s',q) ∧ guarded q = true ∧ asserted q s' ∧
      ∀ r, guarded r = false → asserted r s → asserted r s'
  wait : ∀ p q, program p = .wait q → guarded p = true ∧ guarded q = true ∧
    (∀ s, asserted p s → inv s) ∧ ∀ s, inv s → asserted q s
  signal : ∀ p q, program p = .signal q → guarded p = true ∧ guarded q = true ∧ ∀ s, asserted p s → asserted q s
  unlock : ∀ p q, program p = .unlock q → guarded p = true ∧
    ∀ s, asserted p s → guarded q = false ∧ inv s ∧ asserted q s
  access : ∀ p f, program p = .access f → guarded p = false ∧
    ∀ s, asserted p s → guarded (f s).2 = false ∧ asserted (f s).2 (f s).1 ∧ (inv s → inv (f s).1) ∧
      ∀ r, asserted r s → asserted r (f s).1

section Safety

variable {program : P → Act S P} {guarded : P → Bool} {inv : S → Prop} {asserted : P → S → Prop}
variable {s s' : State T S P} {t u : T}

/-- The mutex belongs to the one thread that is at a point under it. -/
structure Sound (guarded : P → Bool) (inv : S → Prop) (asserted : P → S → Prop) (s : State T S P) : Prop where
  running : ∀ t p, s.status t = .running p → (guarded p = true ↔ s.owner = some t)
  resting : ∀ t p, s.status t = .sleeping p ∨ s.status t = .woken p →
    s.owner ≠ some t ∧ guarded p = true ∧ ∀ shared, inv shared → asserted p shared
  free : s.owner = none → inv s.shared
  held : ∀ t p, s.status t = .running p → asserted p s.shared
  alive : ∀ t, s.status t ≠ .crashed

@[simp] theorem move_same (s : State T S P) (t : T) (status : Status P) : (s.move t status).status t = status := by
  simp [State.move]

theorem move_other (s : State T S P) (status : Status P) (apart : u ≠ t) :
    (s.move t status).status u = s.status u := by
  simp [State.move,apart]

@[simp] theorem move_owner (s : State T S P) (t : T) (status : Status P) : (s.move t status).owner = s.owner := rfl

@[simp] theorem move_shared (s : State T S P) (t : T) (status : Status P) : (s.move t status).shared = s.shared := rfl

/-- Another thread's step leaves a running thread where it is. -/
theorem step_other (apart : t ≠ u) (now : s.status t = .running p) (step : Step program u s s') :
    s'.status t = .running p := by
  have moved (m : State T S P) (status : Status P) (same : m.status = s.status) :
      (m.move u status).status t = .running p := by
    rw [move_other m status apart,same,now]
  cases step with
  | @wake q _ v r _ _ asleep =>
    have awake : t ≠ v := by
      rintro rfl
      exact absurd (asleep.symm.trans now) (by simp)
    rw [move_other _ _ awake]
    exact moved s _ rfl
  | _ => exact moved _ _ rfl

omit [DecidableEq T] in
/-- A thread that has the mutex is running. -/
theorem Sound.owner_running (sound : Sound guarded inv asserted s) (own : s.owner = some t) :
    ∃ p, s.status t = .running p := by
  cases now : s.status t with
  | running p => exact ⟨p,rfl⟩
  | sleeping p => exact absurd own (sound.resting t p (.inl now)).1
  | woken p => exact absurd own (sound.resting t p (.inr now)).1
  | crashed => exact absurd now (sound.alive t)

/-- One thread moves; the others keep their place, their hold of the mutex and what they assert. -/
theorem Sound.transfer (sound : Sound guarded inv asserted s)
    (others : ∀ u, u ≠ t → s'.status u = s.status u)
    (owners : ∀ u, u ≠ t → (s'.owner = some u ↔ s.owner = some u))
    (keeps : ∀ u p, u ≠ t → s.status u = .running p → asserted p s.shared → asserted p s'.shared)
    (running : ∀ p, s'.status t = .running p →
      (guarded p = true ↔ s'.owner = some t) ∧ asserted p s'.shared)
    (resting : ∀ p, s'.status t = .sleeping p ∨ s'.status t = .woken p →
      s'.owner ≠ some t ∧ guarded p = true ∧ ∀ shared, inv shared → asserted p shared)
    (free : s'.owner = none → inv s'.shared) (alive : s'.status t ≠ .crashed) :
    Sound guarded inv asserted s' where
  running u p now := by
    by_cases same : u = t
    · subst same
      exact (running p now).1
    · rw [others u same] at now
      rw [owners u same]
      exact sound.running u p now
  resting u p now := by
    by_cases same : u = t
    · subst same
      exact resting p now
    · rw [others u same] at now
      obtain ⟨apart,under,resumes⟩ := sound.resting u p now
      exact ⟨fun own => apart ((owners u same).mp own),under,resumes⟩
  free := free
  held u p now := by
    by_cases same : u = t
    · subst same
      exact (running p now).2
    · rw [others u same] at now
      exact keeps u p same now (sound.held u p now)
  alive u := by
    by_cases same : u = t
    · subst same
      exact alive
    · rw [others u same]
      exact sound.alive u

/-- A thread goes to another point of its code. -/
theorem Sound.arrive {m : State T S P} (sound : Sound guarded inv asserted s) (same : m.status = s.status)
    (owners : ∀ u, u ≠ t → (m.owner = some u ↔ s.owner = some u))
    (keeps : ∀ u p, u ≠ t → s.status u = .running p → asserted p s.shared → asserted p m.shared)
    (under : guarded q = true ↔ m.owner = some t) (reached : asserted q m.shared)
    (free : m.owner = none → inv m.shared) : Sound guarded inv asserted (m.move t (.running q)) := by
  refine sound.transfer (t := t) ?_ owners keeps ?_ (by simp) free (by simp)
  · intro u apart
    rw [move_other m _ apart,same]
  · intro p now
    obtain rfl : q = p := by simpa using now
    exact ⟨under,reached⟩

omit [DecidableEq T] in
/-- What the owner of the mutex does leaves the others where they are if it keeps what is asserted outside. -/
theorem Sound.keeps (sound : Sound guarded inv asserted s) (own : s.owner = some t)
    (stable : ∀ r, guarded r = false → asserted r s.shared → asserted r shared) :
    ∀ u p, u ≠ t → s.status u = .running p → asserted p s.shared → asserted p shared := by
  intro u p apart now known
  refine stable p ?_ known
  rw [← Bool.not_eq_true,sound.running u p now,own]
  exact fun equal => apart (Option.some.inj equal).symm

theorem Sound.woken (sound : Sound guarded inv asserted s) (asleep : s.status u = .sleeping r) :
    Sound guarded inv asserted (s.move u (.woken r)) := by
  refine sound.transfer (t := u) (fun v apart => move_other s _ apart) (fun _ _ => Iff.rfl) (fun _ _ _ _ => id)
    (by simp) ?_ sound.free (by simp)
  intro p now
  obtain rfl : r = p := by simpa using now
  exact sound.resting u r (.inl asleep)

theorem Sound.signalled (outline : Outline program guarded inv asserted) (sound : Sound guarded inv asserted s)
    (here : s.status t = .running p) (act : program p = .signal q) :
    Sound guarded inv asserted (s.move t (.running q)) := by
  obtain ⟨inside,under,keeps⟩ := outline.signal p q act
  have own : s.owner = some t := (sound.running t p here).mp inside
  exact sound.arrive rfl (fun _ _ => Iff.rfl) (fun _ _ _ _ => id) (by simp [under,own])
    (keeps _ (sound.held t p here)) sound.free

theorem step_sound (outline : Outline program guarded inv asserted) (sound : Sound guarded inv asserted s)
    (step : Step program t s s') : Sound guarded inv asserted s' := by
  cases step with
  | @choose p next q here act chosen =>
    obtain ⟨outside,others⟩ := outline.choose p next act
    obtain ⟨outside',known⟩ := others q chosen
    have loose : s.owner ≠ some t := by
      rw [Ne,← sound.running t p here,outside]
      decide
    exact sound.arrive rfl (fun _ _ => Iff.rfl) (fun _ _ _ _ => id) (by simp [outside',loose])
      (known _ (sound.held t p here)) sound.free
  | @lock p q here act free =>
    have outside : guarded p = false := by
      rw [← Bool.not_eq_true,sound.running t p here,free]
      simp
    obtain ⟨under,locked⟩ := outline.lock p q act outside
    refine sound.arrive (m := { s with owner := some t }) rfl ?_ (fun _ _ _ _ => id) (by simp [under])
      (locked _ (sound.held t p here) (sound.free free)) (by simp)
    intro u apart
    simp [free,Ne.symm apart]
  | @work p f shared q here act done =>
    obtain ⟨inside,works⟩ := outline.work p f act
    have own : s.owner = some t := (sound.running t p here).mp inside
    obtain ⟨shared',q',done',under,after,stable⟩ := works s.shared (sound.held t p here)
    obtain ⟨rfl,rfl⟩ : shared = shared' ∧ q = q' := by simpa using done.symm.trans done'
    exact sound.arrive (m := { s with shared := shared }) rfl (fun _ _ => Iff.rfl) (sound.keeps own stable)
      (by simp [under,own]) after (by simp [own])
  | @crash p f here act fails =>
    obtain ⟨inside,works⟩ := outline.work p f act
    obtain ⟨shared',q',done',_⟩ := works s.shared (sound.held t p here)
    exact absurd (fails.symm.trans done') (by simp)
  | @wait p q here act own =>
    obtain ⟨_,under,leaves,returns⟩ := outline.wait p q act
    refine sound.transfer (t := t) (fun u apart => move_other { s with owner := none } _ apart) ?_
      (fun _ _ _ _ => id) (by simp) ?_ (fun _ => leaves _ (sound.held t p here)) (by simp)
    · intro u apart
      simp [own,Ne.symm apart]
    · intro p' now
      obtain rfl : q = p' := by simpa using now
      exact ⟨by simp,under,returns⟩
  | signal here act _ => exact sound.signalled outline here act
  | @wake p q u r here act asleep =>
    have apart : u ≠ t := by
      rintro rfl
      exact absurd (asleep.symm.trans here) (by simp)
    exact (sound.signalled outline here act).woken (by rw [move_other s _ apart,asleep])
  | @unlock p q here act own =>
    obtain ⟨outside,holds,known⟩ := (outline.unlock p q act).2 _ (sound.held t p here)
    refine sound.arrive (m := { s with owner := none }) rfl ?_ (fun _ _ _ _ => id) (by simp [outside]) known
      (fun _ => holds)
    intro u apart
    simp [own,Ne.symm apart]
  | @access p f here act =>
    obtain ⟨outside,accesses⟩ := outline.access p f act
    obtain ⟨outside',known,kept,stable⟩ := accesses s.shared (sound.held t p here)
    have loose : s.owner ≠ some t := by
      rw [Ne,← sound.running t p here,outside]
      decide
    exact sound.arrive (m := { s with shared := (f s.shared).1 }) rfl (fun _ _ => Iff.rfl)
      (fun _ r _ _ => stable r) (by simp [outside',loose]) known fun free => kept (sound.free free)
  | spurious asleep => exact sound.woken asleep
  | @resume r awake free =>
    obtain ⟨_,under,returns⟩ := sound.resting t r (.inr awake)
    refine sound.arrive (m := { s with owner := some t }) rfl ?_ (fun _ _ _ _ => id) (by simp [under])
      (returns _ (sound.free free)) (by simp)
    intro u apart
    simp [free,Ne.symm apart]

/-- The rule of monitors: an outline holds along every interleaving. -/
theorem run_sound (outline : Outline program guarded inv asserted) (sound : Sound guarded inv asserted start)
    (run : Run (fun _ s t s' => Step program t s s') start past s) : Sound guarded inv asserted s :=
  Run.invariant (fun _ s => Sound guarded inv asserted s) sound
    (fun _ _ _ _ _ sound step => step_sound outline sound step) run

/-- Who sleeps or was woken comes from a wait. -/
def Waited (program : P → Act S P) (s : State T S P) : Prop :=
  ∀ t r, s.status t = .sleeping r ∨ s.status t = .woken r → ∃ p, program p = .wait r

theorem Waited.move {m : State T S P} (waited : Waited program s) (same : m.status = s.status)
    (new : ∀ r, status = .sleeping r ∨ status = .woken r → ∃ p, program p = .wait r) :
    Waited program (m.move t status) := by
  intro u r now
  by_cases own : u = t
  · subst own
    exact new r (by simpa using now)
  · rw [move_other m _ own,same] at now
    exact waited u r now

theorem step_waited (waited : Waited program s) (step : Step program t s s') : Waited program s' := by
  cases step with
  | choose | lock | work | crash | signal | unlock | access | resume => exact waited.move rfl (by simp)
  | @wait p q here act own =>
    refine waited.move rfl fun r now => ⟨p,?_⟩
    obtain rfl : q = r := by simpa using now
    exact act
  | @wake p q u r here act asleep =>
    refine (waited.move rfl (by simp)).move (s := s.move t (.running q)) rfl fun r' now => ?_
    obtain rfl : r = r' := by simpa using now
    exact waited u r (.inl asleep)
  | @spurious r asleep =>
    refine waited.move rfl fun r' now => ?_
    obtain rfl : r = r' := by simpa using now
    exact waited t r (.inl asleep)

theorem run_waited (waited : Waited program start)
    (run : Run (fun _ s t s' => Step program t s s') start past s) : Waited program s :=
  Run.invariant (fun _ s => Waited program s) waited (fun _ _ _ _ _ waited step => step_waited waited step) run

end Safety

section Progress

variable [Fintype T] {program : P → Act S P} {guarded : P → Bool} {inv : S → Prop} {asserted : P → S → Prop}
variable {supply : S → Nat} {credit : P → Nat} {s s' : State T S P} {t u : T}

def Status.weight : Status P → Nat
  | .woken _ => 1
  | _ => 0

/-- How many threads were woken and do not have the mutex yet. -/
def State.woken (s : State T S P) : Nat := ∑ t, (s.status t).weight

/-- The credit of the point that the owner of the mutex is at. -/
def State.ownerCredit (credit : P → Nat) (s : State T S P) : Nat :=
  match s.owner with
  | none => 0
  | some t => match s.status t with
    | .running p => credit p
    | _ => 0

/-- Threads wait for something that the shared data supplies, and only where there is none. A
point has credit for what its thread will still take or signal, so that no work creates
a unit that nobody is told about. -/
structure Supplied (program : P → Act S P) (asserted : P → S → Prop) (supply : S → Nat) (credit : P → Nat) :
    Prop where
  work : ∀ p f s s' q, program p = .work f → asserted p s → f s = some (s',q) →
    supply s' + credit p ≤ supply s + credit q
  wait : ∀ p q, program p = .wait q → 1 ≤ credit q ∧ ∀ s, asserted p s → supply s = 0
  signal : ∀ p q, program p = .signal q → credit p ≤ credit q + 1
  unlock : ∀ p q, program p = .unlock q → credit p = 0
  access : ∀ p f s, program p = .access f → asserted p s → supply (f s).1 ≤ supply s

/-- While somebody sleeps, there are no more units than threads on their way to take one. -/
structure Balanced (supply : S → Nat) (credit : P → Nat) (s : State T S P) : Prop where
  resting : ∀ t r, s.status t = .sleeping r ∨ s.status t = .woken r → 1 ≤ credit r
  enough : ∀ t r, s.status t = .sleeping r → supply s.shared ≤ s.woken + s.ownerCredit credit

theorem woken_move (s : State T S P) (t : T) (status : Status P) :
    (s.move t status).woken + (s.status t).weight = s.woken + status.weight := by
  have changed : (fun u => ((s.move t status).status u).weight) =
      Function.update (fun u => (s.status u).weight) t status.weight := by
    funext u
    by_cases same : u = t
    · subst same
      simp
    · simp [move_other s status same,same]
  have before := Finset.sum_update_of_mem (Finset.mem_univ t) (fun u => (s.status u).weight) (s.status t).weight
  have after := Finset.sum_update_of_mem (Finset.mem_univ t) (fun u => (s.status u).weight) status.weight
  rw [Function.update_eq_self] at before
  unfold State.woken
  rw [changed,after,before]
  omega

omit [Fintype T] [DecidableEq T] in
theorem credit_free (free : s.owner = none) : s.ownerCredit credit = 0 := by simp [State.ownerCredit,free]

omit [Fintype T] [DecidableEq T] in
theorem credit_owned (own : s.owner = some t) (now : s.status t = .running p) : s.ownerCredit credit = credit p := by
  simp [State.ownerCredit,own,now]

omit [Fintype T] in
theorem credit_moved (own : s.owner = some t) : (s.move t (.running q)).ownerCredit credit = credit q :=
  credit_owned own (move_same ..)

omit [Fintype T] in
theorem credit_other (loose : s.owner ≠ some t) (status : Status P) :
    (s.move t status).ownerCredit credit = s.ownerCredit credit := by
  unfold State.ownerCredit
  rw [move_owner]
  cases own : s.owner with
  | none => rfl
  | some u =>
    have apart : u ≠ t := by
      rintro rfl
      exact loose own
    simp only [move_other s status apart]

/-- A thread goes to another point of its code, and the account of the step is even. -/
theorem Balanced.arrive {m : State T S P} (balanced : Balanced supply credit s) (same : m.status = s.status)
    (even : supply m.shared + s.ownerCredit credit + (s.status t).weight ≤
      supply s.shared + (m.move t (.running q)).ownerCredit credit) :
    Balanced supply credit (m.move t (.running q)) := by
  have counted := woken_move m t (.running q)
  have unchanged : m.woken = s.woken := by rw [State.woken,same,State.woken]
  rw [same,unchanged] at counted
  constructor
  · intro u r now
    by_cases own : u = t
    · subst own
      simp at now
    · rw [move_other m _ own,same] at now
      exact balanced.resting u r now
  · intro u r now
    by_cases own : u = t
    · subst own
      simp at now
    · rw [move_other m _ own,same] at now
      have enough := balanced.enough u r now
      rw [move_shared]
      simp only [Status.weight] at counted even
      omega

/-- A sleeper that wakes is one thread more on its way. -/
theorem Balanced.woken (balanced : Balanced supply credit s) (asleep : s.status u = .sleeping r)
    (loose : s.owner ≠ some u) : Balanced supply credit (s.move u (.woken r)) where
  resting v r' now := by
    by_cases same : v = u
    · subst same
      obtain rfl : r = r' := by simpa using now
      exact balanced.resting v r (.inl asleep)
    · rw [move_other s _ same] at now
      exact balanced.resting v r' now
  enough v r' _ := by
    have counted := woken_move s u (.woken r)
    have enough := balanced.enough u r asleep
    rw [asleep] at counted
    simp only [Status.weight] at counted
    rw [credit_other loose,move_shared]
    omega

/-- A signal that wakes somebody pays for one unit. -/
theorem Balanced.wake (balanced : Balanced supply credit s) (own : s.owner = some t)
    (here : s.status t = .running p) (asleep : s.status u = .sleeping r) (due : credit p ≤ credit q + 1) :
    Balanced supply credit ((s.move t (.running q)).move u (.woken r)) := by
  have apart : u ≠ t := by
    rintro rfl
    exact absurd (asleep.symm.trans here) (by simp)
  have enough := balanced.enough u r asleep
  have moved := woken_move s t (.running q)
  have woke := woken_move (s.move t (.running q)) u (.woken r)
  rw [move_other s _ apart] at woke
  simp only [here,asleep,Status.weight] at moved woke
  rw [credit_owned own here] at enough
  have loose : (s.move t (.running q)).owner ≠ some u := by
    rw [move_owner,own]
    simp [Ne.symm apart]
  constructor
  · intro v r' now
    by_cases same : v = u
    · subst same
      obtain rfl : r = r' := by simpa using now
      exact balanced.resting v r (.inl asleep)
    · by_cases self : v = t
      · subst self
        rw [move_other _ _ same] at now
        simp at now
      · rw [move_other _ _ same,move_other _ _ self] at now
        exact balanced.resting v r' now
  · intro v r' _
    rw [credit_other loose,credit_moved own,move_shared,move_shared]
    omega

theorem step_balanced (outline : Outline program guarded inv asserted)
    (supplied : Supplied program asserted supply credit) (sound : Sound guarded inv asserted s)
    (balanced : Balanced supply credit s) (step : Step program t s s') :
    Balanced supply credit s' := by
  cases step with
  | @choose p next q here act chosen =>
    have loose : s.owner ≠ some t := by
      rw [Ne,← sound.running t p here,(outline.choose p next act).1]
      decide
    exact balanced.arrive rfl (by simp [here,Status.weight,credit_other loose])
  | @lock p q here act free =>
    exact balanced.arrive (m := { s with owner := some t }) rfl (by simp [here,Status.weight,credit_free free])
  | @work p f shared q here act done =>
    have own : s.owner = some t := (sound.running t p here).mp (outline.work p f act).1
    have even := supplied.work p f s.shared shared q act (sound.held t p here) done
    refine balanced.arrive (m := { s with shared := shared }) rfl ?_
    have ahead : State.ownerCredit credit ({ s with shared := shared }.move t (.running q)) = credit q :=
      credit_moved own
    rw [credit_owned own here,ahead,here]
    simpa [Status.weight] using even
  | @crash p f here act fails =>
    obtain ⟨inside,works⟩ := outline.work p f act
    obtain ⟨shared',q',done',_⟩ := works s.shared (sound.held t p here)
    exact absurd (fails.symm.trans done') (by simp)
  | @wait p q here act own =>
    obtain ⟨credited,none⟩ := supplied.wait p q act
    constructor
    · intro u r now
      by_cases same : u = t
      · subst same
        obtain rfl : q = r := by simpa using now
        exact credited
      · rw [move_other _ _ same] at now
        exact balanced.resting u r now
    · intro u r _
      have empty : supply s.shared = 0 := none _ (sound.held t p here)
      rw [move_shared]
      exact le_of_eq_of_le empty (Nat.zero_le _)
  | @signal p q here act nobody =>
    constructor
    · intro u r now
      by_cases same : u = t
      · subst same
        simp at now
      · rw [move_other _ _ same] at now
        exact balanced.resting u r now
    · intro u r now
      by_cases same : u = t
      · subst same
        simp at now
      · rw [move_other _ _ same] at now
        exact absurd now (nobody u r)
  | @wake p q u r here act asleep =>
    have own : s.owner = some t := (sound.running t p here).mp (outline.signal p q act).1
    exact balanced.wake own here asleep (supplied.signal p q act)
  | @unlock p q here act own =>
    have spent := supplied.unlock p q act
    refine balanced.arrive (m := { s with owner := none }) rfl ?_
    rw [credit_owned own here,here]
    simp [Status.weight,spent]
  | @access p f here act =>
    have loose : s.owner ≠ some t := by
      rw [Ne,← sound.running t p here,(outline.access p f act).1]
      decide
    have less := supplied.access p f s.shared act (sound.held t p here)
    refine balanced.arrive (m := { s with shared := (f s.shared).1 }) rfl ?_
    have unowned : ({ s with shared := (f s.shared).1 } : State T S P).owner ≠ some t := loose
    rw [credit_other unowned,here]
    simpa [Status.weight,State.ownerCredit] using less
  | @spurious r asleep => exact balanced.woken asleep (sound.resting t r (.inl asleep)).1
  | @resume r awake free =>
    have credited := balanced.resting t r (.inr awake)
    refine balanced.arrive (m := { s with owner := some t }) rfl ?_
    rw [credit_free free,credit_moved rfl,awake]
    simp only [Status.weight]
    omega

/-- What both rules give along every interleaving. -/
theorem run_balanced (outline : Outline program guarded inv asserted)
    (supplied : Supplied program asserted supply credit) (sound : Sound guarded inv asserted start)
    (balanced : Balanced supply credit start)
    (run : Run (fun _ s t s' => Step program t s s') start past s) :
    Sound guarded inv asserted s ∧ Balanced supply credit s :=
  Run.invariant (fun _ s => Sound guarded inv asserted s ∧ Balanced supply credit s) ⟨sound,balanced⟩
    (fun _ _ _ _ _ both step => ⟨step_sound outline both.1 step,step_balanced outline supplied both.1 both.2 step⟩) run

/-- The thread can go on by itself: it neither chooses what to call next nor sleeps, nor does it
need a mutex that another thread has. -/
def Ready (program : P → Act S P) (s : State T S P) (t : T) : Prop :=
  match s.status t with
  | .running p => match program p with
    | .choose _ => False
    | .lock _ => s.owner = none
    | _ => True
  | .woken _ => s.owner = none
  | _ => False

omit [Fintype T] in
theorem ready_steps (outline : Outline program guarded inv asserted) (sound : Sound guarded inv asserted s)
    (ready : Ready program s t) : ∃ s', Step program t s s' := by
  unfold Ready at ready
  cases now : s.status t with
  | running p =>
    rw [now] at ready
    cases act : program p with
    | choose next => simp [act] at ready
    | lock q => exact ⟨_,.lock now act (by simpa [act] using ready)⟩
    | work f =>
      obtain ⟨inside,works⟩ := outline.work p f act
      obtain ⟨shared,q,done,_⟩ := works s.shared (sound.held t p now)
      exact ⟨_,.work now act done⟩
    | wait q => exact ⟨_,.wait now act ((sound.running t p now).mp (outline.wait p q act).1)⟩
    | signal q =>
      by_cases asleep : ∃ u r, s.status u = .sleeping r
      · obtain ⟨u,r,asleep⟩ := asleep
        exact ⟨_,.wake now act asleep⟩
      · exact ⟨_,.signal now act fun u r found => asleep ⟨u,r,found⟩⟩
    | unlock q => exact ⟨_,.unlock now act ((sound.running t p now).mp (outline.unlock p q act).1)⟩
    | access f => exact ⟨_,.access now act⟩
  | sleeping p => simp [now] at ready
  | woken p => exact ⟨_,.resume now (by simpa [now] using ready)⟩
  | crashed => simp [now] at ready

omit [DecidableEq T] in
/-- Where no thread asks for a mutex that it has, those that cannot go on are between two calls or sleep,
and who sleeps has nothing to get. -/
theorem stuck_waits (outline : Outline program guarded inv asserted)
    (once : ∀ p q, program p = .lock q → guarded p = false) (sound : Sound guarded inv asserted s)
    (balanced : Balanced supply credit s) (stuck : ∀ t, ¬Ready program s t) :
    s.owner = none ∧
    (∀ t, (∃ p next, s.status t = .running p ∧ program p = .choose next) ∨ ∃ r, s.status t = .sleeping r) ∧
    ∀ t r, s.status t = .sleeping r → supply s.shared = 0 := by
  have free : s.owner = none := by
    by_contra taken
    obtain ⟨t,own⟩ := Option.ne_none_iff_exists'.mp taken
    obtain ⟨p,now⟩ := sound.owner_running own
    have inside := (sound.running t p now).mpr own
    apply stuck t
    unfold Ready
    rw [now]
    cases act : program p with
    | choose next => exact absurd ((outline.choose p next act).1.symm.trans inside) (by decide)
    | lock q => exact absurd ((once p q act).symm.trans inside) (by decide)
    | _ => simp only [act]
  have nobody (t : T) (r : P) : s.status t ≠ .woken r := by
    intro now
    apply stuck t
    unfold Ready
    rw [now]
    exact free
  refine ⟨free,fun t => ?_,fun t r asleep => ?_⟩
  · have rest := stuck t
    unfold Ready at rest
    cases now : s.status t with
    | running p =>
      rw [now] at rest
      cases act : program p with
      | choose next => exact .inl ⟨p,next,rfl,act⟩
      | _ => simp [act,free] at rest
    | sleeping r => exact .inr ⟨r,rfl⟩
    | woken r => exact absurd now (nobody t r)
    | crashed => exact absurd now (sound.alive t)
  · have enough := balanced.enough t r asleep
    have none : s.woken = 0 := by
      refine Finset.sum_eq_zero fun u _ => ?_
      cases now : s.status u with
      | woken r' => exact absurd now (nobody u r')
      | _ => rfl
    rw [credit_free free,none] at enough
    omega

end Progress

end Monitor
