import Sizigy.Library.Monitor
import Sizigy.Queue

/-! Threads that call `enqueue` and `dequeue` on one queue, interleaved between any two of their
assignments. Data comes out in the order in which it went in, each once, and a thread that
waits for data is woken for it. -/

namespace Sizigy.Queue
open Linked Monitor

variable {α : Type}

/-- The queue, with the data put into it and got out of it so far, in order; the code does not
keep these records. -/
structure Shared (α : Type) where
  queue : State α
  put : List α
  got : List α

/-- Between two calls, and the points of both calls. -/
inductive Point (α : Type) where
  | idle
  | enqueue (data : α)
  | allocate (data : α)
  | count (data : α) (item : Nat)
  | attach (data : α) (item : Nat)
  | moveRear (item : Nat)
  | signal
  | enqueued
  | dequeue
  | test
  | wait
  | detach
  | dropRear (delItem : Nat)
  | read (delItem : Nat)
  | free (delItem : Nat) (item : α)
  | countDown (item : α)
  | dequeued (item : α)

/-- The value of a call that returns. -/
def done : Outcome β → Option β
  | .returned value => some value
  | _ => none

def program : Point α → Act (Shared α) (Point α)
  | .idle => .choose fun p => p = .dequeue ∨ ∃ data, p = .enqueue data
  | .enqueue data => .lock (.allocate data)
  | .allocate data => .work fun s =>
    some ({ s with queue := newItem s.queue data },.count data s.queue.items.limit)
  | .count data item => .work fun s => some ({ s with queue := countUp s.queue },.attach data item)
  | .attach data item => .work fun s => do
    let queue ← done (Queue.attach s.queue item)
    return ({ s with queue := queue, put := s.put ++ [data] },.moveRear item)
  | .moveRear item => .work fun s => some ({ s with queue := Queue.moveRear s.queue item },.signal)
  | .signal => .signal .enqueued
  | .enqueued => .unlock .idle
  | .dequeue => .lock .test
  | .test => .work fun s => some (s,if s.queue.queue.len = 0 then .wait else .detach)
  | .wait => .wait .test
  | .detach => .work fun s => do
    let (delItem,queue) ← done (Queue.detach s.queue)
    return ({ s with queue := queue },.dropRear delItem)
  | .dropRear delItem => .work fun s => some ({ s with queue := Queue.dropRear s.queue },.read delItem)
  | .read delItem => .work fun s => do
    let item ← done (itemData s.queue delItem)
    return ({ s with got := s.got ++ [item] },.free delItem item)
  | .free delItem item => .work fun s => do
    let queue ← done (freeItem s.queue delItem)
    return ({ s with queue := queue },.countDown item)
  | .countDown item => .work fun s => some ({ s with queue := Queue.countDown s.queue },.dequeued item)
  | .dequeued _ => .unlock .idle

/-- A step of a thread that nobody interrupts. It stays where it has to wait, and between two calls. -/
def advance (s : Shared α × Point α) : Option (Shared α × Point α) :=
  match program s.2 with
  | .choose _ | .wait _ => some s
  | .lock p | .signal p | .unlock p => some (s.1,p)
  | .work f => f s.1
  | .access f => some (f s.1)

def alone : Nat → Shared α × Point α → Option (Shared α × Point α)
  | 0, s => some s
  | steps + 1, s => (advance s).bind (alone steps)

/-- Uninterrupted, the steps of a thread that puts data are `enqueue`. -/
theorem alone_enqueue (s : Shared α) (data : α) : alone 7 (s,.enqueue data) =
    (done (Queue.enqueue s.queue data)).map fun queue => (⟨queue,s.put ++ [data],s.got⟩,.idle) := by
  let counted := countUp (newItem s.queue data)
  change (done (Queue.attach counted s.queue.items.limit) >>= _).bind (alone 3) =
    (done (Queue.attach counted s.queue.items.limit >>= _)).map _
  rcases Queue.attach counted s.queue.items.limit with queue | _ | _ | _ <;> rfl

/-- Uninterrupted, the steps of a thread that takes data are `dequeue`, which waits on an empty queue. -/
theorem alone_dequeue (s : Shared α) : alone 8 (s,.dequeue) =
    if s.queue.queue.len = 0 then some (s,.wait)
    else (done (Queue.dequeue s.queue)).map fun taken => (⟨taken.2,s.put,s.got ++ [taken.1]⟩,.idle) := by
  have tested : alone 8 (s,.dequeue) = alone 6 (s,if s.queue.queue.len = 0 then .wait else .detach) := rfl
  rw [tested]
  by_cases empty : s.queue.queue.len = 0
  · rw [if_pos empty,if_pos empty]
    rfl
  · rw [if_neg empty,if_neg empty,Queue.dequeue,if_neg empty]
    change (done (Queue.detach s.queue) >>= _).bind (alone 5) = _
    rcases Queue.detach s.queue with ⟨delItem,queue⟩ | _ | _ | _
    · let dropped := Queue.dropRear queue
      change (done (itemData dropped delItem) >>= _).bind _ = (done (itemData dropped delItem >>= _)).map _
      rcases itemData dropped delItem with item | _ | _ | _
      · change (done (freeItem dropped delItem) >>= _).bind _ = (done (freeItem dropped delItem >>= _)).map _
        rcases freeItem dropped delItem with queue | _ | _ | _ <;> rfl
      all_goals rfl
    all_goals rfl

def guarded : Point α → Bool
  | .idle | .enqueue _ | .dequeue => false
  | _ => true

/-- Everything between two calls: what was put and not got yet is in the queue. -/
def Settled (s : Shared α) : Prop := ∃ l, Holds s.queue l ∧ s.put = s.got ++ l.map Prod.snd

/-- An item beside the chain. -/
structure Beside (s : State α) (l : List (Nat × α)) (item : Nat) (data : α) : Prop where
  stored : ∃ next, s.items.cell item = some ⟨data,next⟩
  apart : item ∉ l.map Prod.fst

/-- What a thread that has the lock knows at each of its points. -/
def asserted : Point α → Shared α → Prop
  | .idle, _ | .enqueue _, _ | .dequeue, _ => True
  | .count data item, s => ∃ l, Shape s.queue l.length l (last l) (some item) ∧
    s.queue.items.cell item = some ⟨data,none⟩ ∧ item ∉ l.map Prod.fst ∧ s.put = s.got ++ l.map Prod.snd
  | .attach data item, s => ∃ l, Shape s.queue (l.length + 1) l (last l) (some item) ∧
    s.queue.items.cell item = some ⟨data,none⟩ ∧ item ∉ l.map Prod.fst ∧ s.put = s.got ++ l.map Prod.snd
  | .moveRear item, s => ∃ l data, Shape s.queue (l.length + 1) (l ++ [(item,data)]) (last l) none ∧
    s.put = s.got ++ (l ++ [(item,data)]).map Prod.snd
  | .wait, s => Settled s ∧ s.queue.queue.len = 0
  | .detach, s => Settled s ∧ s.queue.queue.len ≠ 0
  | .dropRear delItem, s => ∃ l data, Shape s.queue (l.length + 1) l (last ((delItem,data) :: l)) (some delItem) ∧
    Beside s.queue l delItem data ∧ s.put = s.got ++ data :: l.map Prod.snd
  | .read delItem, s => ∃ l data, Shape s.queue (l.length + 1) l (last l) (some delItem) ∧
    Beside s.queue l delItem data ∧ s.put = s.got ++ data :: l.map Prod.snd
  | .free delItem item, s => ∃ l, Shape s.queue (l.length + 1) l (last l) (some delItem) ∧
    delItem ∉ l.map Prod.fst ∧ s.put = s.got ++ l.map Prod.snd ∧ s.got.getLast? = some item
  | .countDown item, s => ∃ l, Shape s.queue (l.length + 1) l (last l) none ∧
    s.put = s.got ++ l.map Prod.snd ∧ s.got.getLast? = some item
  | .dequeued item, s => Settled s ∧ s.got.getLast? = some item
  | _, s => Settled s

variable {s s' : Shared α} {p q : Point α}

/-- Each step under the lock goes through and leads to what is known at the next point. -/
theorem work_asserted (act : program p = .work f) (known : asserted p s) :
    ∃ s' q, f s = some (s',q) ∧ guarded q = true ∧ asserted q s' := by
  cases p with
  | allocate data =>
    obtain ⟨l,holds,recorded⟩ := known
    obtain ⟨shape,stored,apart⟩ := newItem_shape holds data
    obtain rfl := Act.work.inj act
    exact ⟨_,_,rfl,rfl,l,shape,stored,apart,recorded⟩
  | count data item =>
    obtain ⟨l,shape,stored,apart,recorded⟩ := known
    obtain rfl := Act.work.inj act
    exact ⟨_,_,rfl,rfl,l,countUp_shape shape,stored,apart,recorded⟩
  | attach data item =>
    obtain ⟨l,shape,stored,apart,recorded⟩ := known
    obtain ⟨queue,attached,shape'⟩ := attach_shape shape stored apart
    obtain rfl := Act.work.inj act
    exact ⟨⟨queue,s.put ++ [data],s.got⟩,.moveRear item,by simp [attached,done],rfl,l,data,shape',
      by simp [recorded]⟩
  | moveRear item =>
    obtain ⟨l,data,shape,recorded⟩ := known
    obtain rfl := Act.work.inj act
    exact ⟨_,_,rfl,rfl,_,by simpa [Holds] using moveRear_shape shape item,recorded⟩
  | test =>
    obtain rfl := Act.work.inj act
    refine ⟨s,_,rfl,?_⟩
    by_cases empty : s.queue.queue.len = 0
    · rw [if_pos empty]
      exact ⟨rfl,known,empty⟩
    · rw [if_neg empty]
      exact ⟨rfl,known,empty⟩
  | detach =>
    obtain ⟨⟨l,holds,recorded⟩,filled⟩ := known
    rcases l with _ | ⟨⟨item,data⟩,l⟩
    · exact absurd holds.len filled
    · obtain ⟨queue,detached,shape,apart,stored⟩ := detach_shape holds
      obtain rfl := Act.work.inj act
      exact ⟨{ s with queue := queue },.dropRear item,by simp [detached,done],rfl,l,data,shape,⟨stored,apart⟩,recorded⟩
  | dropRear delItem =>
    obtain ⟨l,data,shape,beside,recorded⟩ := known
    obtain rfl := Act.work.inj act
    refine ⟨_,_,rfl,rfl,l,data,dropRear_shape shape,⟨?_,beside.apart⟩,recorded⟩
    obtain ⟨next,stored⟩ := beside.stored
    refine ⟨next,?_⟩
    rw [← stored]
    unfold Queue.dropRear
    split <;> rfl
  | read delItem =>
    obtain ⟨l,data,shape,⟨⟨next,stored⟩,apart⟩,recorded⟩ := known
    obtain rfl := Act.work.inj act
    exact ⟨{ s with got := s.got ++ [data] },.free delItem data,by simp [itemData_stored stored,done],rfl,l,shape,apart,
      by simp [recorded],by simp⟩
  | free delItem item =>
    obtain ⟨l,shape,apart,recorded,taken⟩ := known
    obtain ⟨queue,freed,shape'⟩ := freeItem_shape shape apart
    obtain rfl := Act.work.inj act
    exact ⟨{ s with queue := queue },.countDown item,by simp [freed,done],rfl,l,shape',recorded,taken⟩
  | countDown item =>
    obtain ⟨l,shape,recorded,taken⟩ := known
    obtain rfl := Act.work.inj act
    exact ⟨_,_,rfl,rfl,⟨l,countDown_shape shape,recorded⟩,taken⟩
  | _ => cases act

/-- Outside of the lock a thread knows nothing. -/
theorem outside_asserted (outside : guarded p = false) (s : Shared α) : asserted p s := by
  cases p with
  | idle | enqueue _ | dequeue => trivial
  | _ => simp [guarded] at outside

theorem outline : Outline (program (α := α)) guarded Settled asserted where
  choose p next act := by
    cases p with
    | idle =>
      obtain rfl := Act.choose.inj act
      refine ⟨rfl,fun q called => ?_⟩
      rcases called with rfl | ⟨data,rfl⟩
      · exact ⟨rfl,fun _ _ => trivial⟩
      · exact ⟨rfl,fun _ _ => trivial⟩
    | _ => cases act
  lock p q act := by
    cases p with
    | enqueue data =>
      obtain rfl := Act.lock.inj act
      exact fun _ => ⟨rfl,fun _ _ settled => settled⟩
    | dequeue =>
      obtain rfl := Act.lock.inj act
      exact fun _ => ⟨rfl,fun _ _ settled => settled⟩
    | _ => cases act
  work p f act := by
    refine ⟨?_,fun s known => ?_⟩
    · cases p with
      | idle | enqueue _ | dequeue => cases act
      | _ => rfl
    · obtain ⟨s',q,worked,under,known'⟩ := work_asserted act known
      exact ⟨s',q,worked,under,known',fun r outside _ => outside_asserted outside s'⟩
  wait p q act := by
    cases p with
    | wait =>
      obtain rfl := Act.wait.inj act
      exact ⟨rfl,rfl,fun _ known => known.1,fun _ settled => settled⟩
    | _ => cases act
  signal p q act := by
    cases p with
    | signal =>
      obtain rfl := Act.signal.inj act
      exact ⟨rfl,rfl,fun _ known => known⟩
    | _ => cases act
  unlock p q act := by
    cases p with
    | enqueued =>
      obtain rfl := Act.unlock.inj act
      exact ⟨rfl,fun _ known => ⟨rfl,known,trivial⟩⟩
    | dequeued item =>
      obtain rfl := Act.unlock.inj act
      exact ⟨rfl,fun _ known => ⟨rfl,known.1,trivial⟩⟩
    | _ => cases act
  access p f act := by cases p <;> cases act

/-- A thread asks for the lock only where it does not have it. -/
theorem locks_once (p q : Point α) (act : program p = .lock q) : guarded p = false := by
  cases p with
  | enqueue _ | dequeue => rfl
  | _ => cases act

/-- One while a thread is about to take an item, or has counted one that it has not signalled. -/
def credit : Point α → Nat
  | .idle | .enqueue _ | .allocate _ | .count _ _ | .enqueued | .dequeue | .dequeued _ => 0
  | _ => 1

theorem supplied : Supplied (program (α := α)) asserted (fun s => s.queue.queue.len) credit where
  work p f s s' q act known worked := by
    cases p with
    | allocate data =>
      obtain rfl := Act.work.inj act
      obtain ⟨rfl,rfl⟩ := Prod.mk.inj (Option.some.inj worked)
      exact Nat.le_refl _
    | count data item =>
      obtain rfl := Act.work.inj act
      obtain ⟨rfl,rfl⟩ := Prod.mk.inj (Option.some.inj worked)
      exact Nat.le_refl _
    | attach data item =>
      obtain ⟨l,shape,stored,apart,_⟩ := known
      obtain ⟨queue,attached,shape'⟩ := attach_shape shape stored apart
      obtain rfl := Act.work.inj act
      obtain ⟨rfl,rfl⟩ : ⟨queue,s.put ++ [data],s.got⟩ = s' ∧ .moveRear item = q := by
        simpa [attached,done] using worked
      have same : queue.queue.len = s.queue.queue.len := shape'.len.trans shape.len.symm
      simp [same,credit]
    | moveRear item =>
      obtain rfl := Act.work.inj act
      obtain ⟨rfl,rfl⟩ := Prod.mk.inj (Option.some.inj worked)
      exact Nat.le_refl _
    | test =>
      obtain rfl := Act.work.inj act
      obtain ⟨rfl,rfl⟩ := Prod.mk.inj (Option.some.inj worked)
      split <;> exact Nat.le_refl _
    | detach =>
      obtain ⟨⟨l,holds,_⟩,filled⟩ := known
      rcases l with _ | ⟨⟨item,data⟩,l⟩
      · exact absurd holds.len filled
      · obtain ⟨queue,detached,shape,_⟩ := detach_shape holds
        obtain rfl := Act.work.inj act
        obtain ⟨rfl,rfl⟩ : { s with queue := queue } = s' ∧ .dropRear item = q := by
          simpa [detached,done] using worked
        have same : queue.queue.len = s.queue.queue.len := shape.len.trans holds.len.symm
        simp [same,credit]
    | dropRear delItem =>
      obtain rfl := Act.work.inj act
      obtain ⟨rfl,rfl⟩ := Prod.mk.inj (Option.some.inj worked)
      have same : (Queue.dropRear s.queue).queue.len = s.queue.queue.len := by
        unfold Queue.dropRear
        split <;> rfl
      simp [same,credit]
    | read delItem =>
      obtain ⟨l,data,_,⟨⟨next,stored⟩,_⟩,_⟩ := known
      obtain rfl := Act.work.inj act
      obtain ⟨rfl,rfl⟩ : { s with got := s.got ++ [data] } = s' ∧ .free delItem data = q := by
        simpa [itemData_stored stored,done] using worked
      exact Nat.le_refl _
    | free delItem item =>
      obtain ⟨l,shape,apart,_⟩ := known
      obtain ⟨queue,freed,shape'⟩ := freeItem_shape shape apart
      obtain rfl := Act.work.inj act
      obtain ⟨rfl,rfl⟩ : { s with queue := queue } = s' ∧ .countDown item = q := by
        simpa [freed,done] using worked
      have same : queue.queue.len = s.queue.queue.len := shape'.len.trans shape.len.symm
      simp [same,credit]
    | countDown item =>
      obtain ⟨l,shape,_⟩ := known
      obtain rfl := Act.work.inj act
      obtain ⟨rfl,rfl⟩ := Prod.mk.inj (Option.some.inj worked)
      have filled := shape.len
      simp only [Queue.countDown,credit]
      omega
    | _ => cases act
  wait p q act := by
    cases p with
    | wait =>
      obtain rfl := Act.wait.inj act
      exact ⟨Nat.le_refl 1,fun _ known => known.2⟩
    | _ => cases act
  signal p q act := by
    cases p with
    | signal =>
      obtain rfl := Act.signal.inj act
      exact Nat.le_refl 1
    | _ => cases act
  unlock p q act := by
    cases p with
    | enqueued | dequeued _ => rfl
    | _ => cases act
  access p f s act := by cases p <;> cases act

section Threads

variable {T : Type} [DecidableEq T]

/-- A new queue, and threads that have called nothing yet. -/
def start : Monitor.State T (Shared α) (Point α) := ⟨⟨createQueue,[],[]⟩,none,fun _ => .running .idle⟩

/-- The states that threads reach by any interleaving. -/
def Reached (past : List T) (s : Monitor.State T (Shared α) (Point α)) : Prop :=
  Run (fun _ s t s' => Step program t s s') start past s

variable {past : List T} {s : Monitor.State T (Shared α) (Point α)}

omit [DecidableEq T] in
theorem start_sound : Sound guarded Settled asserted (start : Monitor.State T (Shared α) (Point α)) where
  running t p now := by
    obtain rfl := Status.running.inj now
    simp [guarded,start]
  resting t p now := by simp [start] at now
  free _ := ⟨[],create_holds,rfl⟩
  held t p now := by
    obtain rfl := Status.running.inj now
    trivial
  alive t := by simp [start]

omit [DecidableEq T] in
theorem start_waited : Waited program (start : Monitor.State T (Shared α) (Point α)) := by
  intro t r now
  simp [start] at now

theorem reached_sound (reached : Reached past s) : Sound guarded Settled asserted s :=
  run_sound outline start_sound reached

/-- What was got is the beginning of what was put, in the middle of a call as well. -/
theorem asserted_prefix {s : Shared α} (under : guarded p = true) (known : asserted p s) : s.got <+: s.put := by
  cases p with
  | idle | enqueue _ | dequeue => simp [guarded] at under
  | count _ _ | attach _ _ =>
    obtain ⟨l,_,_,_,recorded⟩ := known
    exact ⟨_,recorded.symm⟩
  | moveRear _ =>
    obtain ⟨l,_,_,recorded⟩ := known
    exact ⟨_,recorded.symm⟩
  | dropRear _ | read _ =>
    obtain ⟨l,_,_,_,recorded⟩ := known
    exact ⟨_,recorded.symm⟩
  | free _ _ =>
    obtain ⟨l,_,_,recorded,_⟩ := known
    exact ⟨_,recorded.symm⟩
  | countDown _ =>
    obtain ⟨l,_,recorded,_⟩ := known
    exact ⟨_,recorded.symm⟩
  | wait | detach | dequeued _ =>
    obtain ⟨⟨l,_,recorded⟩,_⟩ := known
    exact ⟨_,recorded.symm⟩
  | allocate _ | signal | enqueued | test =>
    obtain ⟨l,_,recorded⟩ := known
    exact ⟨_,recorded.symm⟩

/-- In every interleaving: nothing crashes, one thread at most is between its lock and its unlock, what
was got so far is the beginning of what was put, a call of `dequeue` returns what was got last,
and while nobody has the lock the chain of items is what was put and not got. -/
theorem threads_fifo (reached : Reached past s) :
    (∀ t, s.status t ≠ .crashed) ∧
    (∀ t u p q, s.status t = .running p → s.status u = .running q → guarded p = true → guarded q = true → t = u) ∧
    s.shared.got <+: s.shared.put ∧
    (∀ t item, s.status t = .running (.dequeued item) → s.shared.got.getLast? = some item) ∧
    (s.owner = none → ∃ l, Holds s.shared.queue l ∧ s.shared.put = s.shared.got ++ l.map Prod.snd) := by
  have sound := reached_sound reached
  refine ⟨sound.alive,fun t u p q here there under under' => ?_,?_,fun t item now => ?_,sound.free⟩
  · have own := (sound.running t p here).mp under
    exact Option.some.inj (own.symm.trans ((sound.running u q there).mp under'))
  · cases own : s.owner with
    | none =>
      obtain ⟨l,_,recorded⟩ := sound.free own
      exact ⟨_,recorded.symm⟩
    | some t =>
      obtain ⟨p,now⟩ := sound.owner_running own
      exact asserted_prefix ((sound.running t p now).mpr own) (sound.held t p now)
  · exact (sound.held t _ now).2

/-- One thread went to sleep in `dequeue`, and the other one has put a seven. -/
theorem filled_reached : ∃ (past : List Bool) (s : Monitor.State Bool (Shared Nat) (Point Nat)),
    Reached past s ∧ s.owner = none ∧ s.shared.put = [7] ∧ s.shared.got = [] := by
  have run : Reached (α := Nat) [] (start (T := Bool)) := .nil
  have run := Run.snoc run (.choose (t := false) rfl rfl (.inl rfl))
  have run := Run.snoc run (.lock (t := false) rfl rfl rfl)
  have run := Run.snoc run (.work (t := false) rfl rfl rfl)
  have run := Run.snoc run (.wait (t := false) rfl rfl rfl)
  have run := Run.snoc run (.choose (t := true) rfl rfl (.inr ⟨7,rfl⟩))
  have run := Run.snoc run (.lock (t := true) rfl rfl rfl)
  have run := Run.snoc run (.work (t := true) rfl rfl rfl)
  have run := Run.snoc run (.work (t := true) rfl rfl rfl)
  have run := Run.snoc run (.work (t := true) rfl rfl rfl)
  have run := Run.snoc run (.work (t := true) rfl rfl rfl)
  have run := Run.snoc run (.wake (t := true) (u := false) rfl rfl rfl)
  have run := Run.snoc run (.unlock (t := true) rfl rfl rfl)
  exact ⟨_,_,run,rfl,rfl,rfl⟩

theorem filled_fifo : ∃ (past : List Bool) (s : Monitor.State Bool (Shared Nat) (Point Nat)),
    Reached past s ∧ s.shared.put = [7] ∧ ∃ l, Holds s.shared.queue l ∧ [7] = l.map Prod.snd := by
  obtain ⟨past,s,reached,free,put,got⟩ := filled_reached
  obtain ⟨l,holds,recorded⟩ := (threads_fifo reached).2.2.2.2 free
  rw [put,got] at recorded
  exact ⟨past,s,reached,put,l,holds,recorded⟩

/-- When nobody has the lock, the items of the queue have what was put and not got, in order. A release of the
queue gives their data back and leaves no item allocated, and a walk calls its callback for each item once. -/
theorem released_complete (reached : Reached past s) (free : s.owner = none) :
    ∃ items : List (Nat × Node α), s.shared.put = s.shared.got ++ items.map (fun item => item.2.data) ∧
      (items.map Prod.fst).Nodup ∧ (∀ item ∈ items, s.shared.queue.items.cell item.1 = some item.2) ∧
      (∀ fuel > items.length, ∃ left,
        releaseQueue fuel s.shared.queue = .returned (items.map (fun item => item.2.data),left) ∧
        ∀ p, left.items.cell p = none) ∧
      ∀ (σ : Type) (f : Nat → Node α → σ → Int × σ), ∀ fuel > items.length, ∀ ptr,
        sendQueue f s.shared.queue fuel s.shared.queue.queue.front 0 ptr =
          .returned (items.foldl (fun now item => f item.1 item.2 now.2) (0,ptr)) := by
  obtain ⟨l,holds,recorded⟩ := (reached_sound reached).free free
  obtain ⟨items,rfl,stored⟩ := chain_items holds.chain
  have whole : (items.map fun item => (item.1,item.2.data)).map Prod.snd = items.map fun item => item.2.data := by
    simp
  have addresses : (items.map fun item => (item.1,item.2.data)).map Prod.fst = items.map Prod.fst := by simp
  refine ⟨items,by rw [recorded,whole],addresses ▸ holds.chain.nodup,stored,fun fuel enough => ?_,
    fun σ f fuel enough ptr => sendQueue_spec f holds.chain ⟨rfl,stored⟩ (by simpa using enough) 0 ptr⟩
  obtain ⟨left,released,empty⟩ := releaseQueue_spec holds (by simpa using enough)
  refine ⟨left,by rw [released,whole],fun p => ?_⟩
  by_contra live
  simpa using (empty.live p).mp live

theorem filled_released : ∃ (past : List Bool) (s : Monitor.State Bool (Shared Nat) (Point Nat)),
    Reached past s ∧ s.owner = none ∧ ∃ left, releaseQueue 2 s.shared.queue = .returned ([7],left) ∧
      ∀ p, left.items.cell p = none := by
  obtain ⟨past,s,reached,free,put,got⟩ := filled_reached
  obtain ⟨items,recorded,_,_,released,_⟩ := released_complete reached free
  rw [put,got] at recorded
  have whole : items.map (fun item => item.2.data) = [7] := recorded.symm
  have one : items.length = 1 := by simpa using congrArg List.length whole
  refine ⟨past,s,reached,free,?_⟩
  rw [← whole]
  exact released 2 (by omega)

variable [Fintype T]

omit [DecidableEq T] in
theorem start_balanced :
    Balanced (fun s => s.queue.queue.len) credit (start : Monitor.State T (Shared α) (Point α)) where
  resting t r now := by simp [start] at now
  enough t r now := by simp [start] at now

/-- No wake-up is lost: if no thread can go on by itself, then the lock is free, every thread is between two
calls or sleeps in `dequeue`, and if one sleeps the queue is empty. A thread that can go on has a step. -/
theorem waits_only_when_empty (reached : Reached past s) :
    (∀ t, Ready program s t → ∃ s', Step program t s s') ∧
    ((∀ t, ¬Ready program s t) → s.owner = none ∧
      (∀ t, s.status t = .running .idle ∨ s.status t = .sleeping .test) ∧
      ∀ t, s.status t = .sleeping .test → s.shared.put = s.shared.got) := by
  obtain ⟨sound,balanced⟩ := run_balanced outline supplied start_sound start_balanced reached
  refine ⟨fun t ready => ready_steps outline sound ready,fun stuck => ?_⟩
  obtain ⟨free,places,empty⟩ := stuck_waits outline locks_once sound balanced stuck
  refine ⟨free,fun t => ?_,fun t asleep => ?_⟩
  · rcases places t with ⟨p,next,now,act⟩ | ⟨r,asleep⟩
    · cases p with
      | idle => exact .inl now
      | _ => cases act
    · obtain ⟨p,act⟩ := run_waited start_waited reached t r (.inl asleep)
      cases p with
      | wait =>
        obtain rfl := Act.wait.inj act
        exact .inr asleep
      | _ => cases act
  · obtain ⟨l,holds,recorded⟩ := sound.free free
    have none : l = [] := List.eq_nil_of_length_eq_zero (holds.len.symm.trans (empty t _ asleep))
    simpa [none] using recorded

/-- A thread that calls `dequeue` on a new queue is alone with it. -/
theorem alone_waits : ∃ (past : List Unit) (s : Monitor.State Unit (Shared Nat) (Point Nat)),
    Reached past s ∧ s.status () = .sleeping .test ∧ s.shared.put = s.shared.got := by
  have run : Reached (α := Nat) [] (start (T := Unit)) := .nil
  have run := Run.snoc run (.choose (t := ()) rfl rfl (.inl rfl))
  have run := Run.snoc run (.lock (t := ()) rfl rfl rfl)
  have run := Run.snoc run (.work (t := ()) rfl rfl rfl)
  have run := Run.snoc run (.wait (t := ()) rfl rfl rfl)
  exact ⟨_,_,run,rfl,((waits_only_when_empty run).2 fun _ ready => ready).2.2 () rfl⟩

end Threads

end Sizigy.Queue
