import Sizigy.Library.Linked
import Sizigy.Library.Outcome
import Sizigy.Library.Run

/-! `list.c` on its nodes, with all three fields of `List`. Insertions keep the counter, the
head and the tail in agreement with the chain. `del_subscriber` removes a node from the chain
behind the back of the other two fields: a removal that finds something breaks them, and
until then nothing else does. Reading a null or freed node is a crash. -/
namespace Sizigy.NodeList

open Linked

variable {α : Type}

/-- The fields of `List`. -/
structure Header where
  head : Option Nat
  tail : Option Nat
  len : Nat

structure State (α : Type) where
  nodes : Memory α
  list : Header

def listCreate : State α := ⟨.empty,⟨none,none,0⟩⟩

def listHeadInsert (s : State α) (val : α) : State α :=
  let newNode := s.nodes.limit
  if s.list.len = 0 then
    ⟨s.nodes.malloc ⟨val,none⟩,⟨some newNode,some newNode,s.list.len + 1⟩⟩
  else
    ⟨s.nodes.malloc ⟨val,s.list.head⟩,⟨some newNode,s.list.tail,s.list.len + 1⟩⟩

def listTailInsert (s : State α) (val : α) : Outcome (State α) :=
  let newNode := s.nodes.limit
  let nodes := s.nodes.malloc ⟨val,none⟩
  if s.list.len = 0 then
    .returned ⟨nodes,⟨some newNode,some newNode,s.list.len + 1⟩⟩
  else match s.list.tail with
    | none => .crashed
    | some tail =>
      match nodes.cell tail with
      | none => .crashed
      | some _ => .returned ⟨nodes.setNext tail (some newNode),⟨s.list.head,some newNode,s.list.len + 1⟩⟩

/-- The comparison of a node with the one to remove, as a function of the former's data. -/
def listRemoveNode (cmp : α → Int) : Nat → Memory α → Option Nat → Outcome (Option Nat × Memory α)
  | 0, _, _ => .unfinished
  | _ + 1, nodes, none => .returned (none,nodes)
  | fuel + 1, nodes, some head =>
    match nodes.cell head with
    | none => .crashed
    | some node =>
      if cmp node.data = 0 then .returned (node.next,nodes.free head)
      else do
        let (next,nodes) ← listRemoveNode cmp fuel nodes node.next
        return (some head,nodes.setNext head next)

/-- The nodes followed, and the data freed with them. -/
def listRelease (deep : Bool) : Nat → Option Nat → Memory α → Outcome (List Nat × List α × Memory α)
  | 0, _, nodes => .returned ([],[],nodes)
  | _ + 1, none, _ => .crashed
  | len + 1, some h, nodes =>
    match nodes.cell h with
    | none => .crashed
    | some node => do
      let (followed,freed,nodes) ← listRelease deep len node.next (nodes.free h)
      return (h :: followed,if deep then node.data :: freed else freed,nodes)

/-- On the list of the topic; the lookup of the topic and the lock are left out. -/
def addSubscriber (s : State α) (sub : α) : State α := listHeadInsert s sub

def delSubscriber (cmp : α → Int) (fuel : Nat) (s : State α) : Outcome (State α) := do
  let (head,nodes) ← listRemoveNode cmp fuel s.nodes s.list.head
  return ⟨nodes,{ s.list with head := head }⟩

inductive Op (α : Type) where
  | headInsert (val : α)
  | tailInsert (val : α)
  | addSubscriber (sub : α)
  | delSubscriber (cmp : α → Int)

/-- One call that returns. -/
def Step (s : State α) : Op α → State α → Prop
  | .headInsert val, s' => s' = listHeadInsert s val
  | .tailInsert val, s' => listTailInsert s val = .returned s'
  | .addSubscriber sub, s' => s' = addSubscriber s sub
  | .delSubscriber cmp, s' => ∃ fuel, delSubscriber cmp fuel s = .returned s'

/-- The three fields agree with the chain. -/
def Agrees (s : State α) (l : List (Nat × α)) : Prop :=
  Chain s.nodes s.list.head l ∧ s.list.len = l.length ∧ (s.list.head = none ↔ s.list.len = 0) ∧
    (0 < s.list.len → s.list.tail = (l.map Prod.fst).getLast?)

theorem create_agrees : Agrees (listCreate : State α) [] := by
  simp [Agrees,listCreate,Chain]

theorem listHeadInsert_zero (zero : s.list.len = 0) (val : α) : listHeadInsert s val =
    ⟨s.nodes.malloc ⟨val,none⟩,⟨some s.nodes.limit,some s.nodes.limit,s.list.len + 1⟩⟩ := if_pos zero

theorem listHeadInsert_pos (positive : s.list.len ≠ 0) (val : α) : listHeadInsert s val =
    ⟨s.nodes.malloc ⟨val,s.list.head⟩,⟨some s.nodes.limit,s.list.tail,s.list.len + 1⟩⟩ := if_neg positive

theorem headInsert_agrees (agrees : Agrees s l) (val : α) :
    Agrees (listHeadInsert s val) ((s.nodes.limit,val) :: l) := by
  obtain ⟨chain,len,empty,tail⟩ := agrees
  by_cases zero : s.list.len = 0
  · obtain rfl : l = [] := List.eq_nil_of_length_eq_zero (by omega)
    simp [Agrees,listHeadInsert_zero zero,zero,Chain]
  · rw [listHeadInsert_pos zero]
    refine ⟨⟨rfl,s.list.head,Memory.malloc_new,chain.malloc _⟩,by simp [len],by simp,fun _ => ?_⟩
    rcases l.eq_nil_or_concat' with rfl | ⟨before,last,rfl⟩
    · simp [len] at zero
    · simpa [List.getLast?_cons] using tail (by omega)

theorem tailInsert_agrees (agrees : Agrees s l) (val : α) :
    ∃ s', listTailInsert s val = .returned s' ∧ Agrees s' (l ++ [(s.nodes.limit,val)]) := by
  obtain ⟨chain,len,empty,tail⟩ := agrees
  by_cases zero : s.list.len = 0
  · obtain rfl : l = [] := List.eq_nil_of_length_eq_zero (by omega)
    exact ⟨_,if_pos zero,by simp [Agrees,Chain,zero]⟩
  · rcases l.eq_nil_or_concat' with rfl | ⟨before,⟨last,d⟩,rfl⟩
    · simp [len] at zero
    · have target : s.list.tail = some last := by simpa using tail (by omega)
      obtain ⟨next,stored⟩ := chain.live (p := last) (d := d) (by simp)
      have live : (s.nodes.malloc ⟨val,none⟩).cell last = some ⟨d,next⟩ := Memory.malloc_old stored
      have extended := (chain.malloc ⟨val,none⟩).extend before Memory.malloc_new chain.limit_fresh
      have present : s.list.head ≠ none := fun none => zero (empty.mp none)
      refine ⟨⟨(s.nodes.malloc ⟨val,none⟩).setNext last (some s.nodes.limit),
        ⟨s.list.head,some s.nodes.limit,s.list.len + 1⟩⟩,by simp [listTailInsert,zero,target,live],?_⟩
      exact ⟨by simpa using extended,by simp [len],by simp [present],by simp⟩

/-- A removal that returns leaves the chain without its first hit. -/
theorem removeNode_chain (cmp : α → Int) (chain : Chain nodes start l)
    (done : listRemoveNode cmp fuel nodes start = .returned (start',nodes')) :
    Chain nodes' start' (l.eraseP fun entry => decide (cmp entry.2 = 0)) ∧
      ∀ p, p ∉ l.map Prod.fst → nodes'.cell p = nodes.cell p := by
  induction l generalizing start start' nodes' fuel with
  | nil =>
    obtain rfl : start = none := chain
    cases fuel with
    | zero => contradiction
    | succ fuel =>
      obtain ⟨rfl,rfl⟩ := Prod.mk.inj (Outcome.returned.inj done)
      exact ⟨rfl,fun _ _ => rfl⟩
  | cons first rest ih =>
    have distinct := List.nodup_cons.mp chain.nodup
    obtain ⟨rfl,next,stored,later⟩ := chain
    cases fuel with
    | zero => contradiction
    | succ fuel =>
      simp only [listRemoveNode,stored] at done
      by_cases hit : cmp first.2 = 0
      · simp only [hit,if_true] at done
        obtain ⟨rfl,rfl⟩ := Prod.mk.inj (Outcome.returned.inj done)
        have apart (p : Nat) (member : p ∈ rest.map Prod.fst) : p ≠ first.1 := by
          rintro rfl
          exact distinct.1 member
        refine ⟨?_,fun p outside => Memory.free_other fun same => outside (by simp [same])⟩
        simpa [hit] using later.frame fun p member => Memory.free_other (apart p member)
      · rw [if_neg hit] at done
        obtain ⟨⟨next',nodes₁⟩,removed,rest'⟩ := Outcome.bind_eq_returned.mp done
        obtain ⟨rfl,rfl⟩ := Prod.mk.inj (Outcome.returned.inj rest')
        obtain ⟨after,kept⟩ := ih later removed
        have here : nodes₁.cell first.1 = some ⟨first.2,next⟩ := by rw [kept first.1 distinct.1,stored]
        have apart (p : Nat) (member : p ∈ (rest.eraseP fun entry => decide (cmp entry.2 = 0)).map Prod.fst) :
            p ≠ first.1 := by
          rintro rfl
          exact distinct.1 ((List.eraseP_sublist.map Prod.fst).subset member)
        have framed : Chain (nodes₁.setNext first.1 next') next' _ :=
          after.frame fun p member => Memory.setNext_other (apart p member)
        constructor
        · rw [List.eraseP_cons_of_neg (by simpa using hit)]
          exact ⟨rfl,next',Memory.setNext_same here,framed⟩
        · intro p outside
          simp only [List.map_cons,List.mem_cons,not_or] at outside
          rw [Memory.setNext_other outside.1,kept p outside.2]

theorem removeNode_returns (cmp : α → Int) (chain : Chain nodes start l) :
    ∃ result, listRemoveNode cmp (l.length + 1) nodes start = .returned result := by
  induction l generalizing start with
  | nil =>
    obtain rfl : start = none := chain
    exact ⟨_,rfl⟩
  | cons first rest ih =>
    obtain ⟨rfl,next,stored,later⟩ := chain
    obtain ⟨⟨next',nodes'⟩,removed⟩ := ih later
    by_cases hit : cmp first.2 = 0
    · exact ⟨(next,nodes.free first.1),by simp [listRemoveNode,stored,hit]⟩
    · exact ⟨(some first.1,nodes'.setNext first.1 next'),by simp [listRemoveNode,stored,hit,removed]⟩

/-- A release that is told the length of the chain follows the chain. -/
theorem release_follows (deep : Bool) (chain : Chain nodes start l) :
    ∃ nodes', listRelease deep l.length start nodes =
      .returned (l.map Prod.fst,if deep then l.map Prod.snd else [],nodes') := by
  induction l generalizing start nodes with
  | nil => exact ⟨nodes,by simp [listRelease]⟩
  | cons first rest ih =>
    have distinct := List.nodup_cons.mp chain.nodup
    obtain ⟨rfl,next,stored,later⟩ := chain
    have framed : Chain (nodes.free first.1) next rest := later.frame fun p member =>
      Memory.free_other fun same => distinct.1 (same ▸ member)
    obtain ⟨nodes',released⟩ := ih framed
    refine ⟨nodes',?_⟩
    cases deep <;> simp_all [listRelease]

/-- What the three fields are for: they agree with the chain, a release follows exactly the
counted nodes, and an insertion at the tail appends to the chain. -/
structure Intact (s : State α) : Prop where
  represented : ∃ l, Agrees s l
  releases : ∀ deep, ∃ l freed nodes, Chain s.nodes s.list.head l ∧ l.length = s.list.len ∧
    listRelease deep s.list.len s.list.head s.nodes = .returned (l.map Prod.fst,freed,nodes)
  appends : ∀ val, ∃ l s' p, Chain s.nodes s.list.head l ∧ listTailInsert s val = .returned s' ∧
    Chain s'.nodes s'.list.head (l ++ [(p,val)])

theorem agrees_intact (agrees : Agrees s l) : Intact s where
  represented := ⟨l,agrees⟩
  releases := by
    intro deep
    obtain ⟨nodes',released⟩ := release_follows deep agrees.1
    exact ⟨l,_,nodes',agrees.1,agrees.2.1.symm,by rw [agrees.2.1]; exact released⟩
  appends := by
    intro val
    obtain ⟨s',inserted,agrees'⟩ := tailInsert_agrees agrees val
    exact ⟨l,s',s.nodes.limit,agrees.1,inserted,agrees'.1⟩

/-- A deletion finds no node that compares equal. -/
def Misses (s : State α) : Op α → Prop
  | .delSubscriber cmp => ∀ l, Chain s.nodes s.list.head l → ∀ entry ∈ l, cmp entry.2 ≠ 0
  | _ => True

/-- From a list in order every call returns. -/
theorem intact_proceeds (intact : Intact s) (op : Op α) : ∃ s', Step s op s' := by
  cases op with
  | headInsert val => exact ⟨_,rfl⟩
  | addSubscriber sub => exact ⟨_,rfl⟩
  | tailInsert val =>
    obtain ⟨_,s',_,_,inserted,_⟩ := intact.appends val
    exact ⟨s',inserted⟩
  | delSubscriber cmp =>
    obtain ⟨l,agrees⟩ := intact.represented
    obtain ⟨⟨head,nodes⟩,removed⟩ := removeNode_returns cmp agrees.1
    exact ⟨⟨nodes,{ s.list with head := head }⟩,l.length + 1,by simp [delSubscriber,removed]⟩

theorem del_chain {cmp : α → Int} (chain : Chain s.nodes s.list.head l) (stepped : Step s (.delSubscriber cmp) s') :
    Chain s'.nodes s'.list.head (l.eraseP fun entry => decide (cmp entry.2 = 0)) ∧
      s'.list.len = s.list.len ∧ s'.list.tail = s.list.tail := by
  obtain ⟨fuel,done⟩ := stepped
  obtain ⟨⟨head,nodes⟩,removed,rest⟩ := Outcome.bind_eq_returned.mp done
  obtain rfl := Outcome.returned.inj rest
  exact ⟨(removeNode_chain cmp chain removed).1,rfl,rfl⟩

/-- One call keeps the list in order exactly when it is not a deletion that finds something. -/
theorem step_intact_iff (intact : Intact s) (stepped : Step s op s') : Intact s' ↔ Misses s op := by
  obtain ⟨l,agrees⟩ := intact.represented
  cases op with
  | headInsert val => exact iff_of_true (stepped ▸ agrees_intact (headInsert_agrees agrees val)) trivial
  | addSubscriber sub => exact iff_of_true (stepped ▸ agrees_intact (headInsert_agrees agrees sub)) trivial
  | tailInsert val =>
    obtain ⟨s₁,inserted,agrees'⟩ := tailInsert_agrees agrees val
    obtain rfl := Outcome.returned.inj (inserted.symm.trans stepped)
    exact iff_of_true (agrees_intact agrees') trivial
  | delSubscriber cmp =>
    obtain ⟨chain,len,tail⟩ := del_chain agrees.1 stepped
    constructor
    · intro intact' l₁ chain₁ entry member hit
      obtain rfl := agrees.1.unique chain₁
      obtain ⟨l',chain',len',_⟩ := intact'.represented
      obtain rfl := chain.unique chain'
      have shorter := List.length_eraseP_of_mem (p := fun entry => decide (cmp entry.2 = 0)) member (by simpa using hit)
      have counted := agrees.2.1
      have positive := List.length_pos_of_mem member
      omega
    · intro misses
      have same : l.eraseP (fun entry => decide (cmp entry.2 = 0)) = l :=
        List.eraseP_of_forall_not fun entry member => by simpa using misses l agrees.1 entry member
      rw [same] at chain
      refine agrees_intact ⟨chain,len.trans agrees.2.1,?_,?_⟩
      · rw [chain.null_iff,← agrees.1.null_iff,len]
        exact agrees.2.2.1
      · rw [len,tail]
        exact agrees.2.2.2

/-- A run keeps the list in order in all its states exactly when none of its deletions finds a
subscriber to remove. -/
theorem intact_run_iff (ops : List (Op α)) (s : State α) :
    Run (fun _ s op s' => Step s op s' ∧ Intact s') listCreate ops s ↔
      Run (fun _ s op s' => Step s op s' ∧ Misses s op) listCreate ops s := by
  have start : Intact (listCreate : State α) := agrees_intact create_agrees
  constructor
  · intro run
    have both := run.invariant
      (fun ops s => Intact s ∧ Run (fun _ s op s' => Step s op s' ∧ Misses s op) listCreate ops s)
      ⟨start,.nil⟩ fun _ _ _ _ _ before taken =>
        ⟨taken.2,before.2.snoc ⟨taken.1,(step_intact_iff before.1 taken.1).mp taken.2⟩⟩
    exact both.2
  · intro run
    have both := run.invariant
      (fun ops s => Intact s ∧ Run (fun _ s op s' => Step s op s' ∧ Intact s') listCreate ops s)
      ⟨start,.nil⟩ fun _ _ _ _ _ before taken => by
        have after := (step_intact_iff before.1 taken.1).mpr taken.2
        exact ⟨after,before.2.snoc ⟨taken.1,after⟩⟩
    exact both.2

/-- One subscriber with descriptor 5 comes and goes. -/
def comesAndGoes : List (Op Int) := [.addSubscriber 5,.delSubscriber fun fd => if fd = 5 then 0 else 1]

theorem gone_not_intact : ∃ s, Run (fun _ => Step) listCreate comesAndGoes s ∧ s.list.len = 1 ∧ s.list.head = none ∧
    ¬Intact s ∧ listRelease true s.list.len s.list.head s.nodes = .crashed := by
  let s : State Int := addSubscriber listCreate 5
  have added : Step listCreate (.addSubscriber 5) s := rfl
  have removed : Step s (.delSubscriber fun fd => if fd = 5 then 0 else 1)
      ⟨s.nodes.free 0,{ s.list with head := none }⟩ := ⟨1,rfl⟩
  refine ⟨_,(Run.nil.snoc added).snoc removed,rfl,rfl,?_,rfl⟩
  intro intact
  obtain ⟨l,_,len,empty,_⟩ := intact.represented
  exact absurd (empty.mp rfl) (by simp [s,addSubscriber,listHeadInsert,listCreate])

end Sizigy.NodeList
