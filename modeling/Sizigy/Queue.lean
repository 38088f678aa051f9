import Sizigy.Library.Linked
import Sizigy.Library.Outcome

/-! `queue.c` on its items, in the steps that a thread makes while it has the lock of the queue.
The chain of items from `front`, the pointer `rear` and the counter `len` agree between two
calls. Reading or freeing an item that is not there is a crash. -/

namespace Sizigy.Queue
open Linked

variable {α : Type}

/-- The fields of `Queue` that the lock guards. -/
structure Header where
  len : Nat
  front : Option Nat
  rear : Option Nat

structure State (α : Type) where
  items : Memory α
  queue : Header

def createQueue : State α := ⟨.empty,⟨0,none,none⟩⟩

/-- `malloc` of an item that points to no other one. -/
def newItem (s : State α) (data : α) : State α := { s with items := s.items.malloc ⟨data,none⟩ }

def countUp (s : State α) : State α := { s with queue := { s.queue with len := s.queue.len + 1 } }

/-- The first assignment of either branch of `enqueue`; the second one is the same in both. -/
def attach (s : State α) (item : Nat) : Outcome (State α) :=
  if s.queue.front = none ∧ s.queue.rear = none then
    .returned { s with queue := { s.queue with front := some item } }
  else match s.queue.rear with
    | none => .crashed
    | some rear => match s.items.cell rear with
      | none => .crashed
      | some _ => .returned { s with items := s.items.setNext rear (some item) }

def moveRear (s : State α) (item : Nat) : State α := { s with queue := { s.queue with rear := some item } }

def enqueue (s : State α) (data : α) : Outcome (State α) := do
  let item := s.items.limit
  let s ← attach (countUp (newItem s data)) item
  return moveRear s item

/-- The front item, with `front` moved to the next one. -/
def detach (s : State α) : Outcome (Nat × State α) :=
  match s.queue.front with
  | none => .crashed
  | some delItem => match s.items.cell delItem with
    | none => .crashed
    | some node => .returned (delItem,{ s with queue := { s.queue with front := node.next } })

def dropRear (s : State α) : State α :=
  if s.queue.front = none then { s with queue := { s.queue with rear := none } } else s

def itemData (s : State α) (item : Nat) : Outcome α :=
  match s.items.cell item with
  | none => .crashed
  | some node => .returned node.data

def freeItem (s : State α) (item : Nat) : Outcome (State α) :=
  match s.items.cell item with
  | none => .crashed
  | some _ => .returned { s with items := s.items.free item }

def countDown (s : State α) : State α := { s with queue := { s.queue with len := s.queue.len - 1 } }

/-- With nobody else to fill the queue, an empty one is waited for in vain. -/
def dequeue (s : State α) : Outcome (α × State α) :=
  if s.queue.len = 0 then .blocked
  else do
    let (delItem,s) ← detach s
    let s := dropRear s
    let item ← itemData s delItem
    let s ← freeItem s delItem
    return (item,countDown s)

/-- The data of the items that are dequeued, which nothing frees, and the items left. -/
def releaseQueue : Nat → State α → Outcome (List α × State α)
  | 0, _ => .unfinished
  | fuel + 1, s =>
    if 0 < s.queue.len then do
      let (item,s) ← dequeue s
      let (items,s) ← releaseQueue fuel s
      return (item :: items,s)
    else .returned ([],s)

/-- The callback gets each item in turn, its address with the fields that it may read; the answer for the last
one is returned. -/
def sendQueue (f : Nat → Node α → σ → Int × σ) (s : State α) : Nat → Option Nat → Int → σ → Outcome (Int × σ)
  | 0, _, _, _ => .unfinished
  | _ + 1, none, ret, ptr => .returned (ret,ptr)
  | fuel + 1, some item, _, ptr =>
    match s.items.cell item with
    | none => .crashed
    | some node =>
      let (ret,ptr) := f item node ptr
      sendQueue f s fuel node.next ret ptr

/-- The chain from `front`, the counter, the rear pointer, and the one item beside the chain that
is allocated, if there is one. -/
structure Shape (s : State α) (len : Nat) (l : List (Nat × α)) (rear loose : Option Nat) : Prop where
  chain : Chain s.items s.queue.front l
  len : s.queue.len = len
  rear : s.queue.rear = rear
  live : ∀ p, s.items.cell p ≠ none ↔ p ∈ l.map Prod.fst ∨ loose = some p

def last (l : List (Nat × α)) : Option Nat := (l.map Prod.fst).getLast?

/-- A queue between two calls. -/
def Holds (s : State α) (l : List (Nat × α)) : Prop := Shape s l.length l (last l) none

theorem create_holds : Holds (createQueue : State α) [] where
  chain := rfl
  len := rfl
  rear := rfl
  live := by simp [createQueue,Memory.empty]

variable {s s' : State α} {l : List (Nat × α)} {n : Nat} {rear loose : Option Nat}

@[simp] theorem last_snoc (l : List (Nat × α)) (p : Nat) (x : α) : last (l ++ [(p,x)]) = some p := by
  simp [last]

theorem newItem_shape (shape : Shape s n l rear none) (data : α) :
    Shape (newItem s data) n l rear (some s.items.limit) ∧
      (newItem s data).items.cell s.items.limit = some ⟨data,none⟩ ∧ s.items.limit ∉ l.map Prod.fst := by
  refine ⟨⟨shape.chain.malloc _,shape.len,shape.rear,fun p => ?_⟩,Memory.malloc_new,shape.chain.limit_fresh⟩
  by_cases same : p = s.items.limit
  · subst same
    simp [newItem]
  · have unchanged : (newItem s data).items.cell p = s.items.cell p := by simp [newItem,Memory.malloc,same]
    rw [unchanged,shape.live p]
    simp [Ne.symm same]

theorem countUp_shape (shape : Shape s n l rear loose) : Shape (countUp s) (n + 1) l rear loose :=
  ⟨shape.chain,by simp [countUp,shape.len],shape.rear,shape.live⟩

/-- The loose item becomes the last one of the chain, while `rear` still is where it was. -/
theorem attach_shape (shape : Shape s n l (last l) (some p)) (stored : s.items.cell p = some ⟨x,none⟩)
    (apart : p ∉ l.map Prod.fst) :
    ∃ s', attach s p = .returned s' ∧ Shape s' n (l ++ [(p,x)]) (last l) none := by
  obtain ⟨chain,len,rear,live⟩ := shape
  rcases l.eq_nil_or_concat' with rfl | ⟨before,⟨q,d⟩,rfl⟩
  · have front : s.queue.front = none := chain
    refine ⟨_,if_pos ⟨front,rear⟩,⟨⟨rfl,none,stored,rfl⟩,len,rear,fun p' => ?_⟩⟩
    rw [live p']
    simp [eq_comm]
  · rw [last_snoc] at rear
    obtain ⟨next,found⟩ := chain.live (p := q) (d := d) (by simp)
    have elsewhere : q ≠ p := by
      rintro rfl
      simp at apart
    refine ⟨{ s with items := s.items.setNext q (some p) },by simp [attach,rear,found],?_⟩
    refine ⟨by simpa using chain.extend before stored apart,len,by simpa using rear,fun p' => ?_⟩
    have same : (s.items.setNext q (some p)).cell p' ≠ none ↔ s.items.cell p' ≠ none := by
      by_cases hit : p' = q
      · subst hit
        simp [Memory.setNext_same found,found]
      · rw [Memory.setNext_other hit]
    rw [same,live p']
    simp only [List.map_append,List.map_cons,List.map_nil,List.mem_append,List.mem_singleton,reduceCtorEq,
      or_false,Option.some.injEq,eq_comm]

theorem moveRear_shape (shape : Shape s n l rear loose) (p : Nat) : Shape (moveRear s p) n l (some p) loose :=
  ⟨shape.chain,shape.len,rfl,shape.live⟩

theorem detach_shape (shape : Shape s n ((p,x) :: l) rear none) :
    ∃ s', detach s = .returned (p,s') ∧ Shape s' n l rear (some p) ∧ p ∉ l.map Prod.fst ∧
      ∃ next, s'.items.cell p = some ⟨x,next⟩ := by
  have distinct := (List.nodup_cons.mp shape.chain.nodup).1
  obtain ⟨⟨front,next,stored,later⟩,len,rear,live⟩ := shape
  refine ⟨{ s with queue := { s.queue with front := next } },by simp [detach,front,stored],?_,distinct,next,stored⟩
  refine ⟨later,len,rear,fun p' => ?_⟩
  rw [live p']
  simp only [List.map_cons,List.mem_cons,reduceCtorEq,or_false,Option.some.injEq]
  rw [or_comm,eq_comm]

theorem dropRear_shape (shape : Shape s n l (last ((p,x) :: l)) loose) : Shape (dropRear s) n l (last l) loose := by
  unfold dropRear
  cases l with
  | nil =>
    have front : s.queue.front = none := shape.chain
    rw [if_pos front]
    exact ⟨shape.chain,shape.len,rfl,shape.live⟩
  | cons first rest =>
    have front : s.queue.front ≠ none := by
      rw [shape.chain.1]
      simp
    rw [if_neg front]
    simpa [last] using shape

theorem itemData_stored (stored : s.items.cell p = some ⟨x,next⟩) : itemData s p = .returned x := by
  simp [itemData,stored]

theorem freeItem_shape (shape : Shape s n l rear (some p)) (apart : p ∉ l.map Prod.fst) :
    ∃ s', freeItem s p = .returned s' ∧ Shape s' n l rear none := by
  obtain ⟨node,stored⟩ := Option.ne_none_iff_exists'.mp ((shape.live p).mpr (.inr rfl))
  refine ⟨{ s with items := s.items.free p },by simp [freeItem,stored],?_,shape.len,shape.rear,fun p' => ?_⟩
  · exact shape.chain.frame fun q member => Memory.free_other fun same => apart (same ▸ member)
  · by_cases same : p' = p
    · subst same
      simpa [Memory.free] using apart
    · rw [Memory.free_other same,shape.live p']
      simp [Ne.symm same]

theorem countDown_shape (shape : Shape s (n + 1) l rear loose) : Shape (countDown s) n l rear loose :=
  ⟨shape.chain,by simp [countDown,shape.len],shape.rear,shape.live⟩

theorem dequeue_holds (holds : Holds s ((p,x) :: l)) : ∃ s', dequeue s = .returned (x,s') ∧ Holds s' l := by
  obtain ⟨s₁,detached,shape,apart,next,stored⟩ := detach_shape holds
  have dropped := dropRear_shape shape
  have kept : (dropRear s₁).items = s₁.items := by
    unfold dropRear
    split <;> rfl
  obtain ⟨s₂,freed,shape'⟩ := freeItem_shape dropped apart
  have filled : s.queue.len ≠ 0 := by
    rw [holds.len]
    exact Nat.succ_ne_zero _
  refine ⟨countDown s₂,?_,countDown_shape shape'⟩
  simp [dequeue,filled,detached,itemData_stored (by rw [kept,stored]),freed]

/-- A release returns the data of all items, in order, and leaves no item allocated. -/
theorem releaseQueue_spec (holds : Holds s l) (enough : l.length < fuel) :
    ∃ s', releaseQueue fuel s = .returned (l.map Prod.snd,s') ∧ Holds s' [] := by
  induction l generalizing s fuel with
  | nil =>
    obtain ⟨fuel,rfl⟩ : ∃ more, fuel = more + 1 := ⟨fuel - 1,by simp at enough; omega⟩
    have empty : s.queue.len = 0 := holds.len
    exact ⟨s,by simp [releaseQueue,empty],holds⟩
  | cons first rest ih =>
    obtain ⟨fuel,rfl⟩ : ∃ more, fuel = more + 1 := ⟨fuel - 1,by omega⟩
    obtain ⟨s₁,taken,holds'⟩ := dequeue_holds holds
    obtain ⟨s₂,released,empty⟩ := ih holds' (by simpa using enough)
    have filled : 0 < s.queue.len := by
      rw [holds.len]
      exact Nat.succ_pos _
    exact ⟨s₂,by simp [releaseQueue,filled,taken,released],empty⟩

/-- The items of a chain, with their fields as the memory has them. -/
def ItemsOf (s : State α) (l : List (Nat × α)) (items : List (Nat × Node α)) : Prop :=
  items.map (fun item => (item.1,item.2.data)) = l ∧ ∀ item ∈ items, s.items.cell item.1 = some item.2

theorem chain_items (chain : Chain s.items start l) : ∃ items, ItemsOf s l items := by
  induction l generalizing start with
  | nil => exact ⟨[],rfl,fun _ member => absurd member List.not_mem_nil⟩
  | cons first rest ih =>
    obtain ⟨_,next,stored,later⟩ := chain
    obtain ⟨items,same,known⟩ := ih later
    refine ⟨(first.1,⟨first.2,next⟩) :: items,by simp [same],fun item member => ?_⟩
    rcases List.mem_cons.mp member with rfl | member
    · exact stored
    · exact known item member

/-- The callback gets every item once, in order. -/
theorem sendQueue_spec (f : Nat → Node α → σ → Int × σ) (chain : Chain s.items start l) (known : ItemsOf s l items)
    (enough : l.length < fuel) (ret : Int) (ptr : σ) : sendQueue f s fuel start ret ptr =
      .returned (items.foldl (fun now item => f item.1 item.2 now.2) (ret,ptr)) := by
  induction items generalizing start l fuel ret ptr with
  | nil =>
    obtain ⟨fuel,rfl⟩ : ∃ more, fuel = more + 1 := ⟨fuel - 1,by omega⟩
    obtain rfl : [] = l := known.1
    obtain rfl : start = none := chain
    rfl
  | cons item items ih =>
    obtain ⟨rfl,stored⟩ := known
    obtain ⟨rfl,next,stored',later⟩ := chain
    have here := stored item List.mem_cons_self
    obtain rfl : item.2.next = next := congrArg Node.next (Option.some.inj (here.symm.trans stored'))
    obtain ⟨fuel,rfl⟩ : ∃ more, fuel = more + 1 := ⟨fuel - 1,by omega⟩
    simp only [sendQueue,here]
    exact ih later ⟨rfl,fun item member => stored item (List.mem_cons_of_mem _ member)⟩ (by simpa using enough) _ _

end Sizigy.Queue
