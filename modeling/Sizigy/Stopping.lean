import Mathlib.Algebra.BigOperators.Fin
import Mathlib.Algebra.BigOperators.Group.Finset.Piecewise
import Sizigy.Library.Run

/-! How the server stops. `sigint_handler` writes to an event counter once more than there are workers in
the pool, and every thread that runs `worker` leaves when `epoll_wait` tells it of the counter, which it
sets back to zero. So does the keepalive thread, which goes on unless it read a one. The pool, the bus
thread and the main thread run `worker`, one more than there are writes; but a thread that is in
`epoll_wait` when the signal comes leaves after the handler, because the call fails. -/
namespace Sizigy.Stopping

/-- Where a thread that runs `worker` is: in `epoll_wait`, serving a request, on its way out because of the
counter, or out of the loop. -/
inductive Phase where
  | polling
  | handling
  | quitting
  | gone
  deriving DecidableEq

/-- `n` is the size of the pool. Thread 0 is the main thread, and `none` is the keepalive thread; `calls` has the
writes left to a thread that is in the handler. The fields from `signals` on are not kept by the code: how
many signals came and writes were made, how many of these met a counter that was not zero, how often the
keepalive thread and a leaving thread found it not zero, and how many threads left because of the
counter and because of the signal. -/
structure State (n : Nat) where
  counter : Nat
  phase : Fin (n + 2) → Phase
  calls : Option (Fin (n + 2)) → Option Nat
  val : Nat
  watching : Bool
  signals : Nat
  written : Nat
  merged : Nat
  taken : Nat
  read : Nat
  left : Nat
  interrupted : Nat

inductive Action (n : Nat) where
  | signal (thread : Option (Fin (n + 2)))
  | write (thread : Option (Fin (n + 2)))
  | back (thread : Option (Fin (n + 2)))
  | event (t : Fin (n + 2))
  | served (t : Fin (n + 2))
  | notice (t : Fin (n + 2))
  | leave (t : Fin (n + 2))
  | watch

variable {n : Nat}

/-- `val` is not initialised. -/
def start (val : Nat) : State n := ⟨0,fun _ => .polling,fun _ => none,val,true,0,0,0,0,0,0,0⟩

def State.enter (s : State n) (t : Fin (n + 2)) (phase : Phase) : State n :=
  { s with phase := Function.update s.phase t phase }

def State.call (s : State n) (thread : Option (Fin (n + 2))) (writes : Option Nat) : State n :=
  { s with calls := Function.update s.calls thread writes }

/-- One if there is something to read. -/
def State.unread (s : State n) : Nat := if s.counter = 0 then 0 else 1

/-- Only the main thread still runs when it has left the loop. -/
def State.alive (s : State n) : Option (Fin (n + 2)) → Bool
  | none => s.watching
  | some t => t = 0 ∨ s.phase t ≠ .gone

/-- The handler of the other signal may be called inside the handler. -/
def signal (s : State n) (thread : Option (Fin (n + 2))) : State n :=
  { s.call thread (some ((s.calls thread).getD 0 + (n + 1))) with signals := s.signals + 1 }

def write (s : State n) (thread : Option (Fin (n + 2))) (writes : Nat) : State n :=
  { s.call thread (some writes) with
    counter := s.counter + 1, written := s.written + 1, merged := s.merged + s.unread }

/-- `epoll_wait` is not called again after a handler. -/
def back (s : State n) (thread : Option (Fin (n + 2))) : State n :=
  match thread with
  | none => s.call none none
  | some t =>
    if s.phase t = .polling then
      { (s.call (some t) none).enter t .gone with interrupted := s.interrupted + 1 }
    else s.call (some t) none

/-- `eventfd_read` by a thread that leaves. -/
def leave (s : State n) (t : Fin (n + 2)) : State n :=
  { s.enter t .gone with counter := 0, read := s.read + s.unread, left := s.left + 1 }

/-- A read that fails leaves `val` as it was. -/
def watch (s : State n) : State n :=
  let val := if s.counter = 0 then s.val else s.counter
  { s with counter := 0, val := val, taken := s.taken + s.unread, watching := val ≠ 1 }

def step (s : State n) : Action n → Option (State n)
  | .signal thread => if s.alive thread then some (signal s thread) else none
  | .write thread => match s.calls thread with
    | some (writes + 1) => some (write s thread writes)
    | _ => none
  | .back thread => if s.calls thread = some 0 then some (back s thread) else none
  | .event t => if s.calls (some t) = none ∧ s.phase t = .polling then some (s.enter t .handling) else none
  | .served t => if s.calls (some t) = none ∧ s.phase t = .handling then some (s.enter t .polling) else none
  | .notice t =>
    if s.calls (some t) = none ∧ s.phase t = .polling ∧ s.counter ≠ 0 then some (s.enter t .quitting) else none
  | .leave t => if s.calls (some t) = none ∧ s.phase t = .quitting then some (leave s t) else none
  | .watch => if s.calls none = none ∧ s.watching then some (watch s) else none

/-- Nothing is left to do unless a request or a signal comes. -/
def Quiet (s : State n) : Prop :=
  (∀ thread, step s (.write thread) = none ∧ step s (.back thread) = none) ∧
  ∀ t, step s (.served t) = none ∧ step s (.notice t) = none ∧ step s (.leave t) = none

/-- The writes that the handlers still have to make. -/
def State.pending (s : State n) : Nat := ∑ thread, (s.calls thread).getD 0

def Phase.isGone : Phase → Nat
  | .gone => 1
  | _ => 0

def State.departed (s : State n) : Nat := ∑ t, (s.phase t).isGone

/-- The threads that `start_server` waits for in vain. -/
def State.staying (s : State n) : Nat := (Finset.univ.filter fun t => s.phase t ≠ .gone).card

abbrev Stops (val : Nat) : List (Action n) → State n → Prop :=
  Run (fun _ s action s' => step s action = some s') (start val)

variable {s s' : State n} {t : Fin (n + 2)} {action : Action n} {past : List (Action n)}

private theorem sum_update [Fintype ι] [DecidableEq ι] (f : ι → α) (weight : α → Nat) (i : ι) (a : α) :
    ∑ j, weight (Function.update f i a j) + weight (f i) = ∑ j, weight (f j) + weight a := by
  have changed :
      (fun j => weight (Function.update f i a j)) = Function.update (fun j => weight (f j)) i (weight a) := by
    funext j
    by_cases same : j = i
    · subst same
      simp
    · simp [same]
  have before := Finset.sum_update_of_mem (Finset.mem_univ i) (fun j => weight (f j)) (weight (f i))
  have after := Finset.sum_update_of_mem (Finset.mem_univ i) (fun j => weight (f j)) (weight a)
  rw [Function.update_eq_self] at before
  rw [changed,after,before]
  omega

theorem call_pending (s : State n) (thread : Option (Fin (n + 2))) (writes : Option Nat) :
    (s.call thread writes).pending + (s.calls thread).getD 0 = s.pending + writes.getD 0 :=
  sum_update s.calls (·.getD 0) thread writes

theorem enter_departed (s : State n) (t : Fin (n + 2)) (phase : Phase) :
    (s.enter t phase).departed + (s.phase t).isGone = s.departed + phase.isGone :=
  sum_update s.phase Phase.isGone t phase

/-- Every write that found the counter at zero was read once or can still be read, each handler makes all its
writes, and whoever is gone left for one of two reasons. -/
structure Ledger (s : State n) : Prop where
  written : s.written = s.merged + s.taken + s.read + s.unread
  read : s.read ≤ s.left
  handlers : s.written + s.pending = (n + 1) * s.signals
  called : ∀ thread, s.calls thread ≠ none → s.signals ≠ 0
  interrupted : s.interrupted ≠ 0 → s.signals ≠ 0
  gone : s.departed = s.left + s.interrupted

theorem start_ledger (val : Nat) : Ledger (start val : State n) where
  written := rfl
  read := Nat.le_refl _
  handlers := by simp [start,State.pending]
  called := fun _ called => absurd rfl called
  interrupted := fun interrupted => absurd rfl interrupted
  gone := by simp [start,State.departed,Phase.isGone]

theorem signal_ledger (ledger : Ledger s) (thread : Option (Fin (n + 2))) : Ledger (signal s thread) where
  written := ledger.written
  read := ledger.read
  handlers := by
    have pending : (signal s thread).pending + (s.calls thread).getD 0 =
        s.pending + ((s.calls thread).getD 0 + (n + 1)) :=
      call_pending s thread (some ((s.calls thread).getD 0 + (n + 1)))
    have handlers := ledger.handlers
    change s.written + (signal s thread).pending = (n + 1) * (s.signals + 1)
    rw [Nat.mul_succ]
    omega
  called := fun _ _ => Nat.succ_ne_zero _
  interrupted := fun _ => Nat.succ_ne_zero _
  gone := ledger.gone

theorem write_ledger (ledger : Ledger s) (calls : s.calls thread = some (writes + 1)) :
    Ledger (write s thread writes) where
  written := by
    have full : (write s thread writes).unread = 1 := by simp [State.unread,write]
    have written := ledger.written
    change s.written + 1 = s.merged + s.unread + s.taken + s.read + (write s thread writes).unread
    omega
  read := ledger.read
  handlers := by
    have pending : (write s thread writes).pending + (s.calls thread).getD 0 = s.pending + writes :=
      call_pending s thread (some writes)
    have handlers := ledger.handlers
    rw [calls] at pending
    simp only [Option.getD_some] at pending
    change s.written + 1 + (write s thread writes).pending = (n + 1) * s.signals
    omega
  called := fun _ _ => ledger.called thread (by simp [calls])
  interrupted := ledger.interrupted
  gone := ledger.gone

/-- A thread that is not gone may go elsewhere. -/
theorem enter_ledger (ledger : Ledger s) (here : s.phase t ≠ .gone) (there : phase ≠ .gone) :
    Ledger (s.enter t phase) where
  written := ledger.written
  read := ledger.read
  handlers := ledger.handlers
  called := ledger.called
  interrupted := ledger.interrupted
  gone := by
    have departed := enter_departed s t phase
    have stays : (s.phase t).isGone = 0 := by
      cases at_phase : s.phase t <;> first | rfl | exact absurd at_phase here
    have stays' : phase.isGone = 0 := by
      cases phase <;> first | rfl | exact absurd rfl there
    have gone := ledger.gone
    change (s.enter t phase).departed = s.left + s.interrupted
    omega

theorem call_ledger (ledger : Ledger s) (calls : s.calls thread = some 0) : Ledger (s.call thread none) where
  written := ledger.written
  read := ledger.read
  handlers := by
    have pending := call_pending s thread none
    have handlers := ledger.handlers
    rw [calls] at pending
    simp only [Option.getD_some,Option.getD_none,Nat.add_zero] at pending
    change s.written + (s.call thread none).pending = (n + 1) * s.signals
    omega
  called := fun _ _ => ledger.called thread (by simp [calls])
  interrupted := ledger.interrupted
  gone := ledger.gone

theorem back_ledger (ledger : Ledger s) (calls : s.calls thread = some 0) : Ledger (back s thread) := by
  have returned := call_ledger ledger calls
  have signals : s.signals ≠ 0 := ledger.called thread (by simp [calls])
  cases thread with
  | none => exact returned
  | some t =>
    simp only [back]
    split
    · rename_i polling
      have departed := enter_departed s t .gone
      rw [polling] at departed
      simp only [Phase.isGone,Nat.add_zero] at departed
      have gone := ledger.gone
      refine ⟨returned.written,returned.read,returned.handlers,fun _ _ => signals,fun _ => signals,?_⟩
      change (s.enter t .gone).departed = s.left + (s.interrupted + 1)
      omega
    · exact returned

theorem leave_ledger (ledger : Ledger s) (here : s.phase t ≠ .gone) : Ledger (leave s t) where
  written := by
    have empty : (leave s t).unread = 0 := by simp [State.unread,leave]
    have written := ledger.written
    change s.written = s.merged + s.taken + (s.read + s.unread) + (leave s t).unread
    omega
  read := by
    have once : s.unread ≤ 1 := by
      unfold State.unread
      split <;> omega
    have read := ledger.read
    change s.read + s.unread ≤ s.left + 1
    omega
  handlers := ledger.handlers
  called := ledger.called
  interrupted := ledger.interrupted
  gone := by
    have departed := enter_departed s t .gone
    have stays : (s.phase t).isGone = 0 := by
      cases at_phase : s.phase t <;> first | rfl | exact absurd at_phase here
    have gone := ledger.gone
    have out : Phase.gone.isGone = 1 := rfl
    change (s.enter t .gone).departed = s.left + 1 + s.interrupted
    omega

theorem watch_ledger (ledger : Ledger s) : Ledger (watch s) where
  written := by
    have empty : (watch s).unread = 0 := by simp [State.unread,watch]
    have written := ledger.written
    change s.written = s.merged + (s.taken + s.unread) + s.read + (watch s).unread
    omega
  read := ledger.read
  handlers := ledger.handlers
  called := ledger.called
  interrupted := ledger.interrupted
  gone := ledger.gone

theorem step_ledger (ledger : Ledger s) (taken : step s action = some s') : Ledger s' := by
  cases action with
  | signal thread =>
    simp only [step,Option.ite_none_right_eq_some,Option.some.injEq] at taken
    exact taken.2 ▸ signal_ledger ledger thread
  | write thread =>
    simp only [step] at taken
    split at taken
    · rename_i writes calls
      exact Option.some.inj taken ▸ write_ledger ledger calls
    · cases taken
  | back thread =>
    simp only [step,Option.ite_none_right_eq_some,Option.some.injEq] at taken
    exact taken.2 ▸ back_ledger ledger taken.1
  | event t =>
    simp only [step,Option.ite_none_right_eq_some,Option.some.injEq] at taken
    exact taken.2 ▸ enter_ledger ledger (by simp [taken.1.2]) (by decide)
  | served t =>
    simp only [step,Option.ite_none_right_eq_some,Option.some.injEq] at taken
    exact taken.2 ▸ enter_ledger ledger (by simp [taken.1.2]) (by decide)
  | notice t =>
    simp only [step,Option.ite_none_right_eq_some,Option.some.injEq] at taken
    exact taken.2 ▸ enter_ledger ledger (by simp [taken.1.2.1]) (by decide)
  | leave t =>
    simp only [step,Option.ite_none_right_eq_some,Option.some.injEq] at taken
    exact taken.2 ▸ leave_ledger ledger (by simp [taken.1.2])
  | watch =>
    simp only [step,Option.ite_none_right_eq_some,Option.some.injEq] at taken
    exact taken.2 ▸ watch_ledger ledger

theorem run_ledger (run : Stops val past s) : Ledger s :=
  run.invariant (fun _ s => Ledger s) (start_ledger val) fun _ _ _ _ _ ledger taken => step_ledger ledger taken

theorem staying_departed (s : State n) : s.staying + s.departed = n + 2 := by
  have gone : s.departed = (Finset.univ.filter fun t => s.phase t = .gone).card := by
    rw [Finset.card_filter,State.departed]
    refine Finset.sum_congr rfl fun t _ => ?_
    cases s.phase t <;> rfl
  have split := Finset.card_filter_add_card_filter_not (s := Finset.univ) fun t => s.phase t = .gone
  rw [Finset.card_univ,Fintype.card_fin] at split
  simp only [State.staying,ne_eq,gone]
  omega

theorem quiet_pending (quiet : Quiet s) : s.pending = 0 := by
  refine Finset.sum_eq_zero fun thread _ => ?_
  have write := (quiet.1 thread).1
  cases calls : s.calls thread with
  | none => rfl
  | some writes => cases writes with
    | zero => rfl
    | succ writes => simp [step,calls] at write

/-- Who stays waits in `epoll_wait`, and the counter does not wake it. -/
theorem quiet_staying (quiet : Quiet s) (stays : s.phase t ≠ .gone) : s.counter = 0 := by
  have back := (quiet.1 (some t)).2
  have write := (quiet.1 (some t)).1
  obtain ⟨served, notice, leave⟩ := quiet.2 t
  have free : s.calls (some t) = none := by
    cases calls : s.calls (some t) with
    | none => rfl
    | some writes => cases writes with
      | zero => simp [step,calls] at back
      | succ writes => simp [step,calls] at write
  cases phase : s.phase t with
  | polling => simpa [step,free,phase] using notice
  | handling => simp [step,free,phase] at served
  | quitting => simp [step,free,phase] at leave
  | gone => exact absurd phase stays

/-- After a signal that met a thread in `epoll_wait`, at most as many threads stay as writes were lost: written
over one that nobody had read yet, or read by the keepalive thread. -/
theorem stays_only_by_loss (run : Stops val past s) (quiet : Quiet s) (interrupted : s.interrupted ≠ 0) :
    s.staying ≤ s.merged + s.taken := by
  have ledger := run_ledger run
  have all := staying_departed s
  by_cases none_stays : s.staying = 0
  · omega
  obtain ⟨t, stays⟩ := Finset.card_ne_zero.mp none_stays
  have empty := quiet_staying quiet (Finset.mem_filter.mp stays).2
  have unread : s.unread = 0 := if_pos empty
  have enough : n + 1 ≤ s.written := by
    have handlers := ledger.handlers
    rw [quiet_pending quiet,Nat.add_zero] at handlers
    rw [handlers]
    exact Nat.le_mul_of_pos_right _ (Nat.pos_of_ne_zero (ledger.interrupted interrupted))
  have written := ledger.written
  have read := ledger.read
  have gone := ledger.gone
  omega

theorem foldlM_run (run : Stops val past s) (ran : actions.foldlM step s = some s') :
    Stops val (past ++ actions) s' := by
  induction actions generalizing past s with
  | nil =>
    obtain rfl : s = s' := by simpa using ran
    simpa using run
  | cons action actions ih =>
    simp only [List.foldlM_cons,Option.bind_eq_bind,Option.bind_eq_some_iff] at ran
    obtain ⟨next, taken, rest⟩ := ran
    simpa using ih (run.snoc taken) rest

instance (s : State n) : Decidable (Quiet s) := inferInstanceAs (Decidable (_ ∧ _))

/-- The signal meets thread 1, and the keepalive thread takes the first of the five writes. -/
def outrun : List (Action 4) :=
  [.signal (some 1),.write (some 1),.watch] ++ ([2,3,4,5] : List (Fin 6)).flatMap (fun t =>
    [.write (some 1),.notice t,.leave t]) ++ [.back (some 1)]

def outrunEnd : State 4 := (outrun.foldlM step (start 0)).get (by decide +kernel)

/-- Then the main thread stays. -/
theorem outrun_stays : Stops 0 outrun outrunEnd ∧ Quiet outrunEnd ∧ outrunEnd.phase 0 = .polling ∧
    outrunEnd.staying ≤ outrunEnd.merged + outrunEnd.taken ∧ outrunEnd.merged + outrunEnd.taken = 1 := by
  have run : Stops 0 ([] ++ outrun) outrunEnd := foldlM_run .nil (Option.some_get _).symm
  have quiet : Quiet outrunEnd := by decide +kernel
  exact ⟨run,quiet,by decide +kernel,stays_only_by_loss run quiet (by decide +kernel),by decide +kernel⟩

end Sizigy.Stopping
