import Sizigy.Library.Release
import Sizigy.Listener
import Sizigy.Ordering
import Sizigy.PendingRetained
import Sizigy.Queue

/-! The end of `start_server`: the topics and the clients are given back. After any run the maps
lead to every block once, as long as no CONNECT stores its client in front of an entry that has
its id already; such a client would be freed twice. -/
namespace Sizigy.Shutdown

open Machine Conversation Release
open ClientRegistry (Filed handler_filed)
open Listener (Attended)
open PendingRetained (Retaining Carried)
open Sizigy.Ordering (Stocked)

inductive TopicPart where
  | struct
  | name
  | list
  | node (i : Nat)
  | subscription (i : Nat)
  | queue
  deriving DecidableEq

inductive MessagePart where
  | struct
  | sender
  | topic
  | payload
  deriving DecidableEq

inductive ClientPart where
  | struct
  | id
  | addr
  | reply
  | publish
  | publishHeader
  | publishTopic
  | publishMessage
  | payload
  | payloadData
  deriving DecidableEq

inductive MapPart where
  | struct
  | entries
  deriving DecidableEq

/-- What `malloc` handed out for the data of the broker. A key is known by its text, for the map
holds a copy of its own under each. -/
inductive Block where
  | key (name : CString)
  | topic (t : Nat) (part : TopicPart)
  | message (m : Nat) (part : MessagePart)
  | client (c : Nat) (part : ClientPart)
  | topics (part : MapPart)
  | clients (part : MapPart)
  deriving DecidableEq

def messageBlocks (m : Nat) : List Block :=
  [.message m .sender,.message m .topic,.message m .payload,.message m .struct]

def destroyMessage (freed : List Block) : Option Nat → Outcome (List Block)
  | none => .returned freed
  | some m => freeAll freed (messageBlocks m)

/-- The loop of `list_release`, which trusts `len` and reads the node before it looks at it. -/
def releaseNodes (t : Nat) (deep : Int) : Nat → Nat → List Subscription → List Block → Outcome (List Block)
  | 0,_,_,freed => .returned freed
  | _ + 1,_,[],_ => .crashed
  | len + 1,i,_ :: next,freed => do
    let freed ← if deep = 1 then free freed (.topic t (.subscription i)) else .returned freed
    let freed ← free freed (.topic t (.node i))
    releaseNodes t deep len (i + 1) next freed

def listRelease (t : Nat) (l : LinkedList Subscription) (deep : Int) (freed : List Block) : Outcome (List Block) := do
  let freed ← releaseNodes t deep l.len 0 l.nodes freed
  free freed (.topic t .list)

/-- Nothing is ever put into the queue of a topic. -/
def releaseQueue (t : Nat) (freed : List Block) : Outcome (List Block) := do
  let _ ← Queue.releaseQueue 1 (Queue.createQueue : Queue.State Nat)
  free freed (.topic t .queue)

def destroyTopic (b : Broker) (freed : List Block) (t : Nat) : Outcome (List Block) := do
  let freed ← free freed (.topic t .name)
  let freed ← listRelease t (b.topic.cell t).subscribers 1 freed
  let freed ← releaseQueue t freed
  let freed ← destroyMessage freed (b.topic.cell t).retained
  free freed (.topic t .struct)

/-- The callback for the topics; it always answers `HASHMAP_OK`. -/
def destroyTopics (b : Broker) (freed : Outcome (List Block)) (kv : CString × Nat) : Status × Outcome (List Block) :=
  (.ok,do
    let freed ← destroyTopic b (← freed) kv.2
    free freed (.key kv.1))

/-- The union of a reply; one of the other kind would be freed as what it is not. -/
def freeBody (c : Nat) (opcode : UInt8) (freed : List Block) : ReplyBody → Outcome (List Block)
  | .publish _ =>
    if opcode = Opcode.publish then freeAll freed [.client c .publishHeader,.client c .publishTopic,
      .client c .publishMessage,.client c .publish]
    else .crashed
  | .payload _ =>
    if opcode = Opcode.publish then .crashed
    else freeAll freed [.client c .payloadData,.client c .payload]

def freeReply (c : Nat) (freed : List Block) : Option Reply → Outcome (List Block)
  | none => .returned freed
  | some r => do
    let freed ← freeBody c r.opcode freed r.body
    free freed (.client c .reply)

/-- The server itself lies on the stack. -/
def freeClient (b : Broker) (freed : List Block) (c : Nat) : Outcome (List Block) :=
  if c = 0 then .crashed
  else do
    let freed ← free freed (.client c .id)
    let freed ← freeReply c freed (b.client.cell c).reply
    let freed ← free freed (.client c .addr)
    free freed (.client c .struct)

def destroyClients (b : Broker) (freed : Outcome (List Block)) (kv : CString × Nat) : Status × Outcome (List Block) :=
  (.ok,do freeClient b (← freed) kv.2)

def hashmapReleaseMap (part : MapPart → Block) (m : Hashmap CString Nat)
    (func : Outcome (List Block) → CString × Nat → Status × Outcome (List Block)) (freed : List Block) :
    Outcome (List Block) := do
  let freed ← (hashmapIterate2 m func (.returned freed)).2
  let freed ← free freed (part .entries)
  free freed (part .struct)

/-- The messages that were retained once and replaced. -/
def freedBefore (b : Broker) : List Block :=
  ((List.range b.message.next).filter fun m => (b.message.cell m).live = false).flatMap messageBlocks

/-- The clean-up of `start_server`, as far as topics and clients go. -/
def cleanup (b : Broker) : Outcome (List Block) := do
  let freed ← hashmapReleaseMap .topics b.topics (destroyTopics b) (freedBefore b)
  hashmapReleaseMap .clients b.clients (destroyClients b) freed

variable {env : Env} {b b' b₁ : Broker} {c t : Nat} {past : List Label} {label : Label}

/-- Subscriptions and nodes from the given one on. -/
def nodeBlocks (t : Nat) (i : Nat) : Nat → List Block
  | 0 => []
  | n + 1 => [.topic t (.subscription i),.topic t (.node i)] ++ nodeBlocks t (i + 1) n

def topicBlocks (b : Broker) (t : Nat) : List Block :=
  [.topic t .name] ++ nodeBlocks t 0 (b.topic.cell t).subscribers.nodes.length ++ [.topic t .list,.topic t .queue] ++
    (b.topic.cell t).retained.toList.flatMap messageBlocks ++ [.topic t .struct]

def bodyBlocks (c : Nat) : ReplyBody → List Block
  | .publish _ => [.client c .publishHeader,.client c .publishTopic,.client c .publishMessage,.client c .publish]
  | .payload _ => [.client c .payloadData,.client c .payload]

def replyBlocks (c : Nat) (r : Reply) : List Block := bodyBlocks c r.body ++ [.client c .reply]

def clientBlocks (b : Broker) (c : Nat) : List Block :=
  [.client c .id] ++ (b.client.cell c).reply.toList.flatMap (replyBlocks c) ++ [.client c .addr,.client c .struct]

/-- What the clean-up frees, in order. -/
def plan (b : Broker) : List Block :=
  ((b.topics.entries.filterMap id).flatMap fun kv => topicBlocks b kv.2 ++ [.key kv.1]) ++
    [.topics .entries,.topics .struct] ++
    ((b.clients.entries.filterMap id).flatMap fun kv => clientBlocks b kv.2) ++ [.clients .entries,.clients .struct]

theorem free_eq (freed : List Block) (block : Block) : free freed block = freeAll freed [block] :=
  (freeAll_singleton freed block).symm

theorem releaseNodes_eq (t i : Nat) (nodes : List Subscription) (freed : List Block) :
    releaseNodes t 1 nodes.length i nodes freed = freeAll freed (nodeBlocks t i nodes.length) := by
  induction nodes generalizing i freed with
  | nil => rfl
  | cons sub nodes ih =>
    simp only [List.length_cons,releaseNodes,nodeBlocks,if_true,ih,free_eq,← freeAll_append,← List.append_assoc]
    rfl

theorem destroyTopic_eq (exact' : (b.topic.cell t).subscribers.len = (b.topic.cell t).subscribers.nodes.length)
    (freed : List Block) : destroyTopic b freed t = freeAll freed (topicBlocks b t) := by
  have queue (freed : List Block) : releaseQueue t freed = freeAll freed [.topic t .queue] := free_eq freed _
  have retained (freed : List Block) : destroyMessage freed (b.topic.cell t).retained =
      freeAll freed ((b.topic.cell t).retained.toList.flatMap messageBlocks) := by
    cases (b.topic.cell t).retained with
    | none => rfl
    | some m => simp [destroyMessage]
  unfold destroyTopic listRelease topicBlocks
  simp only [exact',releaseNodes_eq,queue,retained,free_eq,← freeAll_append]
  simp only [List.append_assoc]
  rfl

/-- The kind of a pending reply is the kind of what it points to. -/
def Typed (r : Reply) : Prop := r.opcode = Opcode.publish ↔ ∃ p, r.body = .publish p

theorem freeReply_eq (c : Nat) (typed : ∀ r, reply = some r → Typed r) (freed : List Block) :
    freeReply c freed reply = freeAll freed (reply.toList.flatMap (replyBlocks c)) := by
  cases reply with
  | none => rfl
  | some r =>
    have freedBody (freed : List Block) : freeBody c r.opcode freed r.body = freeAll freed (bodyBlocks c r.body) := by
      cases body : r.body with
      | publish p =>
        have opcode : r.opcode = Opcode.publish := (typed r rfl).mpr ⟨p,body⟩
        simp only [freeBody,bodyBlocks,opcode,if_true]
      | payload payload =>
        have opcode : r.opcode ≠ Opcode.publish := fun publish => by
          obtain ⟨p,other⟩ := (typed r rfl).mp publish
          rw [body] at other
          cases other
        simp only [freeBody,bodyBlocks,opcode,if_false]
    simp only [freeReply,freedBody,free_eq,← freeAll_append,Option.toList_some,List.flatMap_singleton,replyBlocks]

theorem freeClient_eq (client : c ≠ 0) (typed : ∀ r, (b.client.cell c).reply = some r → Typed r) (freed : List Block) :
    freeClient b freed c = freeAll freed (clientBlocks b c) := by
  unfold freeClient clientBlocks
  simp only [client,if_false,freeReply_eq c typed,free_eq,← freeAll_append]
  simp only [List.append_assoc]
  rfl

/-- A callback that always answers `HASHMAP_OK` is run for all that is stored. -/
theorem iterate_frees (blocks : CString × Nat → List Block) (step : List Block → CString × Nat → Outcome (List Block))
    (entries : Probing.Table CString Nat)
    (each : ∀ kv, some kv ∈ entries → ∀ freed, step freed kv = freeAll freed (blocks kv)) (s : Outcome (List Block)) :
    (iterateEntries (fun s kv => (.ok,s >>= fun freed => step freed kv)) entries s).2 =
      s >>= fun freed => freeAll freed ((entries.filterMap id).flatMap blocks) := by
  induction entries generalizing s with
  | nil => cases s <;> rfl
  | cons entry entries ih =>
    have later := ih fun kv member => each kv (List.mem_cons_of_mem _ member)
    cases entry with
    | none => exact later s
    | some kv =>
      have here := each kv List.mem_cons_self
      simp only [iterateEntries,later,Outcome.bind_assoc,List.filterMap_cons,id,List.flatMap_cons,here,freeAll_append]

theorem releaseMap_eq (part : MapPart → Block) {m : Hashmap CString Nat} (valid : m.Valid)
    (blocks : CString × Nat → List Block) (step : List Block → CString × Nat → Outcome (List Block))
    (each : ∀ key c, m.Contains key c → ∀ freed, step freed (key,c) = freeAll freed (blocks (key,c)))
    (freed : List Block) :
    hashmapReleaseMap part m (fun s kv => (.ok,s >>= fun freed => step freed kv)) freed =
      freeAll freed ((m.entries.filterMap id).flatMap blocks ++ [part .entries,part .struct]) := by
  have walked : (hashmapIterate2 m (fun s kv => (.ok,s >>= fun freed => step freed kv)) (.returned freed)).2 =
      freeAll freed ((m.entries.filterMap id).flatMap blocks) := by
    unfold hashmapIterate2
    split
    next empty =>
      have unused : m.entries.filterMap id = [] := by
        rw [List.filterMap_eq_nil_iff]
        intro entry member
        have none := List.countP_eq_zero.mp (valid.counted.symm.trans empty) entry member
        simpa using none
      rw [unused]
      rfl
    next =>
      exact iterate_frees blocks step m.entries (fun kv member => each kv.1 kv.2 (Probing.mem_iff_slot.mp member)) _
  unfold hashmapReleaseMap
  rw [walked]
  simp only [free_eq,← freeAll_append]
  rfl

/-- The counters agree with their lists. -/
def Exact (b : Broker) : Prop := ∀ t, (b.topic.cell t).subscribers.len = (b.topic.cell t).subscribers.nodes.length

/-- What the clean-up relies on. -/
structure Tidy (b : Broker) : Prop where
  attended : Attended b
  ready : Ready b
  stocked : Stocked b
  fresh : b.topics.Fresh
  exact : Exact b
  retaining : Retaining b
  filed : Filed b
  typed : ∀ c, c < b.client.next → ∀ r, (b.client.cell c).reply = some r → Typed r

theorem start_tidy (server : Fd) : Tidy (startServer server) where
  attended := Listener.start_attended server
  ready := start_ready server
  stocked := Ordering.start_stocked server
  fresh := create_fresh
  exact t := rfl
  retaining := (PendingRetained.start_guarded server).retaining
  filed := ClientRegistry.start_filed server
  typed c _ r pending := by simp [startServer] at pending

theorem cleanup_eq (tidy : Tidy b) : cleanup b = freeAll (freedBefore b) (plan b) := by
  have topics (freed : List Block) := releaseMap_eq .topics tidy.fresh.valid
    (fun kv => topicBlocks b kv.2 ++ [.key kv.1])
    (fun freed kv => destroyTopic b freed kv.2 >>= fun freed => free freed (.key kv.1))
    (fun key t _ freed => by rw [destroyTopic_eq (tidy.exact t),freeAll_append]; simp only [free_eq]) freed
  have clients (freed : List Block) := releaseMap_eq .clients tidy.filed.valid (fun kv => clientBlocks b kv.2)
    (fun freed kv => freeClient b freed kv.2) (fun key c stored freed => by
      obtain ⟨client,known⟩ := tidy.attended.enrolled key c stored
      exact freeClient_eq client (tidy.typed c known) freed) freed
  have first := topics (freedBefore b)
  unfold cleanup plan
  rw [List.append_assoc _ _ [Block.clients .entries,Block.clients .struct],freeAll_append,← first]
  exact Outcome.bind_congr clients

/-- A stored pair of a map. -/
theorem mem_entries {m : Hashmap CString Nat} {kv : CString × Nat} :
    kv ∈ m.entries.filterMap id ↔ m.Contains kv.1 kv.2 := by
  rw [List.mem_filterMap]
  constructor
  · rintro ⟨entry,member,rfl⟩
    exact Probing.mem_iff_slot.mp member
  · exact fun stored => ⟨some kv,Probing.mem_iff_slot.mpr stored,rfl⟩

/-- The entries of a map have different keys. -/
theorem entries_apart {m : Hashmap CString Nat} (unique : m.Unique) :
    (m.entries.filterMap id).Pairwise fun kv kv' => kv.1 ≠ kv'.1 := by
  rw [List.pairwise_filterMap]
  refine (Probing.distinct_of_unique unique).imp fun {a b} apart => ?_
  rintro kv rfl kv' rfl same
  exact apart kv.1 kv.2 kv'.2 rfl (congrArg some (Prod.ext same.symm rfl))

theorem mem_nodeBlocks {i n : Nat} {block : Block} : block ∈ nodeBlocks t i n ↔
    ∃ j, i ≤ j ∧ j < i + n ∧ (block = .topic t (.subscription j) ∨ block = .topic t (.node j)) := by
  induction n generalizing i with
  | zero =>
    simp only [nodeBlocks,List.not_mem_nil,false_iff]
    rintro ⟨j,low,high,_⟩
    omega
  | succ n ih =>
    simp only [nodeBlocks,List.mem_append,ih,List.mem_cons,List.not_mem_nil,or_false]
    constructor
    · rintro (here | ⟨j,low,high,block⟩)
      · exact ⟨i,Nat.le_refl i,by omega,here⟩
      · exact ⟨j,by omega,by omega,block⟩
    · rintro ⟨j,low,high,block⟩
      by_cases first : j = i
      · subst first
        exact .inl block
      · exact .inr ⟨j,by omega,by omega,block⟩

theorem nodeBlocks_nodup (t i n : Nat) : (nodeBlocks t i n).Nodup := by
  induction n generalizing i with
  | zero => exact List.nodup_nil
  | succ n ih =>
    refine List.Nodup.append (by simp) (ih (i + 1)) ?_
    intro block here later
    obtain ⟨j,low,_,block⟩ := mem_nodeBlocks.mp later
    rcases block with rfl | rfl
    · simp at here
      omega
    · simp at here
      omega

theorem mem_messageBlocks {m : Nat} {block : Block} : block ∈ messageBlocks m ↔ ∃ part, block = .message m part := by
  constructor
  · simp only [messageBlocks,List.mem_cons,List.not_mem_nil,or_false]
    rintro (rfl | rfl | rfl | rfl) <;> exact ⟨_,rfl⟩
  · rintro ⟨part,rfl⟩
    cases part <;> simp [messageBlocks]

/-- The blocks of a topic are its own and those of the message it retains. -/
theorem mem_topicBlocks {block : Block} : block ∈ topicBlocks b t ↔
    (∃ part, block = .topic t part ∧ ∀ i, part = .subscription i ∨ part = .node i →
      i < (b.topic.cell t).subscribers.nodes.length) ∨
    ∃ m part, (b.topic.cell t).retained = some m ∧ block = .message m part := by
  unfold topicBlocks
  simp only [List.mem_append,List.mem_flatMap,mem_nodeBlocks,mem_messageBlocks,List.mem_cons,List.not_mem_nil,or_false,
    Option.mem_toList]
  constructor
  · rintro ((((rfl | ⟨j,_,inside,rfl | rfl⟩) | rfl | rfl) | ⟨m,held,part,rfl⟩) | rfl)
    · exact .inl ⟨_,rfl,by simp⟩
    · exact .inl ⟨_,rfl,by rintro i (same | same) <;> cases same; omega⟩
    · exact .inl ⟨_,rfl,by rintro i (same | same) <;> cases same; omega⟩
    · exact .inl ⟨_,rfl,by simp⟩
    · exact .inl ⟨_,rfl,by simp⟩
    · exact .inr ⟨m,part,held,rfl⟩
    · exact .inl ⟨_,rfl,by simp⟩
  · rintro (⟨part,rfl,inside⟩ | ⟨m,part,held,rfl⟩)
    · cases part with
      | subscription i =>
        exact .inl (.inl (.inl (.inr ⟨i,Nat.zero_le i,by have := inside i (.inl rfl); omega,.inl rfl⟩)))
      | node i => exact .inl (.inl (.inl (.inr ⟨i,Nat.zero_le i,by have := inside i (.inr rfl); omega,.inr rfl⟩)))
      | struct | name | list | queue => simp
    · exact .inl (.inr ⟨m,held,part,rfl⟩)

theorem messageBlocks_nodup (m : Nat) : (messageBlocks m).Nodup := by simp [messageBlocks]

theorem topicBlocks_nodup (b : Broker) (t : Nat) : (topicBlocks b t).Nodup := by
  have nodes := nodeBlocks_nodup t 0 (b.topic.cell t).subscribers.nodes.length
  have retained : ((b.topic.cell t).retained.toList.flatMap messageBlocks).Nodup := by
    cases (b.topic.cell t).retained with
    | none => simp
    | some m => simpa using messageBlocks_nodup m
  have lone : [Block.topic t .struct].Nodup := by simp
  have ends : [Block.topic t .list,Block.topic t .queue].Nodup := by simp
  unfold topicBlocks
  refine ((((List.nodup_singleton _).append nodes ?_).append ends ?_).append retained ?_).append lone ?_
  · intro block first second
    obtain ⟨j,_,_,rfl | rfl⟩ := mem_nodeBlocks.mp second <;> simp at first
  · intro block first second
    rcases List.mem_append.mp first with name | node
    · obtain rfl := List.mem_singleton.mp name
      simp at second
    · obtain ⟨j,_,_,rfl | rfl⟩ := mem_nodeBlocks.mp node <;> simp at second
  · intro block first second
    obtain ⟨m,_,inside⟩ := List.mem_flatMap.mp second
    obtain ⟨part,rfl⟩ := mem_messageBlocks.mp inside
    simp [mem_nodeBlocks] at first
  · intro block first second
    obtain rfl := List.mem_singleton.mp second
    simp [mem_nodeBlocks,mem_messageBlocks] at first

/-- Whether a client owns a block of the kind. -/
def Owns (reply : Option Reply) : ClientPart → Prop
  | .struct | .id | .addr => True
  | .reply => ∃ r, reply = some r
  | .publish | .publishHeader | .publishTopic | .publishMessage => ∃ r p, reply = some r ∧ r.body = .publish p
  | .payload | .payloadData => ∃ r p, reply = some r ∧ r.body = .payload p

theorem mem_clientBlocks {block : Block} :
    block ∈ clientBlocks b c ↔ ∃ part, block = .client c part ∧ Owns (b.client.cell c).reply part := by
  unfold clientBlocks
  cases (b.client.cell c).reply with
  | none =>
    constructor
    · simp only [Option.toList_none,List.flatMap_nil,List.append_nil,List.cons_append,List.nil_append,List.mem_cons,
        List.not_mem_nil,or_false]
      rintro (rfl | rfl | rfl) <;> exact ⟨_,rfl,trivial⟩
    · rintro ⟨part,rfl,owns⟩
      cases part <;> simp [Owns] at owns ⊢
  | some r =>
    simp only [Option.toList_some,List.flatMap_singleton,replyBlocks]
    cases body : r.body with
    | publish p =>
      simp only [bodyBlocks]
      constructor
      · simp only [List.cons_append,List.nil_append,List.mem_cons,List.not_mem_nil,or_false]
        rintro (rfl | rfl | rfl | rfl | rfl | rfl | rfl | rfl)
        all_goals refine ⟨_,rfl,?_⟩
        all_goals simp [Owns,body]
      · rintro ⟨part,rfl,owns⟩
        cases part <;> simp [Owns,body] at owns ⊢
    | payload p =>
      simp only [bodyBlocks]
      constructor
      · simp only [List.cons_append,List.nil_append,List.mem_cons,List.not_mem_nil,or_false]
        rintro (rfl | rfl | rfl | rfl | rfl | rfl)
        all_goals refine ⟨_,rfl,?_⟩
        all_goals simp [Owns,body]
      · rintro ⟨part,rfl,owns⟩
        cases part <;> simp [Owns,body] at owns ⊢

theorem clientBlocks_nodup (b : Broker) (c : Nat) : (clientBlocks b c).Nodup := by
  unfold clientBlocks
  cases (b.client.cell c).reply with
  | none => simp
  | some r =>
    simp only [Option.toList_some,List.flatMap_singleton,replyBlocks]
    cases r.body with
    | publish p => simp [bodyBlocks]
    | payload p => simp [bodyBlocks]

/-- The blocks that the two maps lead to. -/
def Reachable (b : Broker) : Block → Prop
  | .key name => ∃ t, b.topics.Contains name t
  | .topic t part => (∃ name, b.topics.Contains name t) ∧ ∀ i, part = .subscription i ∨ part = .node i →
    i < (b.topic.cell t).subscribers.nodes.length
  | .message m _ => ∃ name t, b.topics.Contains name t ∧ (b.topic.cell t).retained = some m
  | .client c part => (∃ key, b.clients.Contains key c) ∧ Owns (b.client.cell c).reply part
  | .topics _ => True
  | .clients _ => True

theorem mem_plan {block : Block} : block ∈ plan b ↔ Reachable b block := by
  unfold plan
  simp only [List.mem_append,List.mem_flatMap,mem_entries,mem_topicBlocks,mem_clientBlocks,List.mem_cons,
    List.not_mem_nil,or_false]
  constructor
  · rintro (((⟨⟨name,t⟩,stored,(⟨part,rfl,inside⟩ | ⟨m,part,held,rfl⟩) | rfl⟩ | rfl | rfl) |
      ⟨⟨key,c⟩,stored,part,rfl,owns⟩) | rfl | rfl)
    · exact ⟨⟨name,stored⟩,inside⟩
    · exact ⟨name,t,stored,held⟩
    · exact ⟨t,stored⟩
    · trivial
    · trivial
    · exact ⟨⟨key,stored⟩,owns⟩
    · trivial
    · trivial
  · intro reachable
    cases block with
    | key name =>
      obtain ⟨t,stored⟩ := reachable
      exact .inl (.inl (.inl ⟨(name,t),stored,.inr rfl⟩))
    | topic t part =>
      obtain ⟨⟨name,stored⟩,inside⟩ := reachable
      exact .inl (.inl (.inl ⟨(name,t),stored,.inl (.inl ⟨part,rfl,inside⟩)⟩))
    | message m part =>
      obtain ⟨name,t,stored,held⟩ := reachable
      exact .inl (.inl (.inl ⟨(name,t),stored,.inl (.inr ⟨m,part,held,rfl⟩)⟩))
    | client c part =>
      obtain ⟨⟨key,stored⟩,owns⟩ := reachable
      exact .inl (.inr ⟨(key,c),stored,part,rfl,owns⟩)
    | topics part => cases part <;> simp
    | clients part => cases part <;> simp

theorem topics_nodup (tidy : Tidy b) :
    ((b.topics.entries.filterMap id).flatMap fun kv => topicBlocks b kv.2 ++ [Block.key kv.1]).Nodup := by
  rw [List.nodup_flatMap]
  refine ⟨fun kv _ => (topicBlocks_nodup b kv.2).append (List.nodup_singleton _) fun block first second => ?_,
    (entries_apart tidy.fresh.unique).imp_of_mem ?_⟩
  · obtain rfl := List.mem_singleton.mp second
    simp [mem_topicBlocks] at first
  · intro kv kv' here here' apart block first second
    have named := (tidy.stocked.named kv.1 kv.2 (mem_entries.mp here)).2
    have named' := (tidy.stocked.named kv'.1 kv'.2 (mem_entries.mp here')).2
    have topics : kv.2 ≠ kv'.2 := fun same => apart (by rw [← named,← named',same])
    simp only [List.mem_append,mem_topicBlocks,List.mem_singleton] at first second
    rcases first with (⟨part,rfl,_⟩ | ⟨m,part,held,rfl⟩) | rfl
    · simp [topics] at second
    · rcases second with (⟨_,other,_⟩ | ⟨m',part',held',other⟩) | other
      · cases other
      · obtain ⟨rfl,_⟩ := Block.message.inj other
        exact topics (tidy.retaining.apart _ _ _ held' held)
      · cases other
    · simp [apart] at second

theorem clients_nodup (filed : Filed b) :
    ((b.clients.entries.filterMap id).flatMap fun kv => clientBlocks b kv.2).Nodup := by
  rw [List.nodup_flatMap]
  refine ⟨fun kv _ => clientBlocks_nodup b kv.2,(entries_apart filed.unique).imp_of_mem ?_⟩
  intro kv kv' here here' apart block first second
  obtain ⟨part,rfl,_⟩ := mem_clientBlocks.mp first
  obtain ⟨part',same,_⟩ := mem_clientBlocks.mp second
  obtain ⟨clients,_⟩ := Block.client.inj same
  have own := (filed.own kv.1 kv.2 (mem_entries.mp here)).2
  have own' := (filed.own kv'.1 kv'.2 (mem_entries.mp here')).2
  exact apart (by rw [← own,← own',clients])

theorem plan_nodup (tidy : Tidy b) : (plan b).Nodup := by
  have topics := topics_nodup tidy
  have clients := clients_nodup tidy.filed
  unfold plan
  refine ((topics.append (by simp) ?_).append clients ?_).append (by simp) ?_
  · intro block first second
    rcases List.mem_pair.mp second with rfl | rfl <;> simp [mem_topicBlocks] at first
  · intro block first second
    obtain ⟨kv,_,inside⟩ := List.mem_flatMap.mp second
    obtain ⟨part,rfl,_⟩ := mem_clientBlocks.mp inside
    simp [mem_topicBlocks] at first
  · intro block first second
    rcases List.mem_pair.mp second with rfl | rfl <;> simp [mem_topicBlocks,mem_clientBlocks] at first

/-- A message that a topic retains was not freed. -/
theorem plan_unfreed (tidy : Tidy b) : ∀ block ∈ plan b, block ∉ freedBefore b := by
  intro block planned before
  obtain ⟨m,dead,inside⟩ := List.mem_flatMap.mp before
  obtain ⟨part,rfl⟩ := mem_messageBlocks.mp inside
  obtain ⟨name,t,_,held⟩ := mem_plan.mp planned
  have live := (tidy.retaining.held t m held).alive.2
  have dead := (List.mem_filter.mp dead).2
  simp [live] at dead

/-- The clean-up ends, and frees each block that the maps lead to once. -/
theorem tidy_cleanup (tidy : Tidy b) : cleanup b = .returned (freedBefore b ++ plan b) := by
  rw [cleanup_eq tidy]
  exact freeAll_eq_returned.mpr ⟨rfl,plan_nodup tidy,plan_unfreed tidy⟩

/-- The condition on a CONNECT with an id: the slot for the client is not a hole in front of an entry that has the
id. -/
def Unholed (b : Broker) (label : Label) : Prop :=
  ∀ c pkt, .call .connect c (some (.connect pkt)) ∈ label.events → pkt.idlen ≠ 0 →
    (ClientRegistry.cleared b c pkt).Clear (ClientRegistry.newId b c pkt)

/-- The map of topics was filled by puts alone, and the counters agree with their lists. -/
def Counted (b : Broker) : Prop := b.topics.Fresh ∧ Exact b

theorem Counted.of_same (counted : Counted b) (same : SameTopics b b') : Counted b' := by
  refine ⟨same.topics ▸ counted.1,fun t => ?_⟩
  rw [same.subscribers t]
  exact counted.2 t

theorem getTopic_counted (counted : Counted b) (done : getTopic env b name = .returned (raw,b')) : Counted b' := by
  obtain ⟨_,lock,rfl⟩ := getTopic_spec done
  exact ⟨relock_fresh counted.1 lock,counted.2⟩

theorem findTopic_counted (counted : Counted b) (done : findTopic env b name = .returned (t,b')) : Counted b' := by
  rcases findTopic_cases done with found | ⟨b₁,looked,rfl,put⟩
  · exact getTopic_counted counted found
  · obtain ⟨fresh,exact'⟩ := getTopic_counted counted looked
    obtain ⟨⟨status,topics⟩,put',done⟩ := Outcome.bind_eq_returned.mp put
    obtain rfl := Outcome.returned.inj done
    refine ⟨hashmapPut_fresh (m := (createTopic b₁ name).2.topics) fresh put',fun t => ?_⟩
    show ((b₁.topic.alloc ⟨name,listCreate,none⟩).cell t).subscribers.len =
      ((b₁.topic.alloc ⟨name,listCreate,none⟩).cell t).subscribers.nodes.length
    by_cases new : t = b₁.topic.next
    · rw [new,Heap.alloc_new]
      rfl
    · rw [Heap.alloc_old _ _ t new]
      exact exact' t

theorem addSubscriber_counted (counted : Counted b) (done : addSubscriber env b s = .returned b') : Counted b' := by
  obtain ⟨t,b₁,got,rfl⟩ := addSubscriber_cases done
  obtain ⟨fresh,exact'⟩ := getTopic_counted counted got
  refine ⟨fresh,fun p => ?_⟩
  rw [insertSubscriber_subscribers b₁ t s p]
  split
  next =>
    have before := exact' p
    unfold listHeadInsert
    split
    next empty => simp [empty]
    next => simp [before]
  next => exact exact' p

theorem handler_counted (counted : Counted b) (decodable : Decodable (Command.ctype command))
    (done : command.handler env b c = .returned (rc,b')) : Counted b' := by
  rcases decodable_command decodable with rfl | rfl | rfl | rfl
  · exact counted.of_same (connectHandler_store done).sameTopics
  · exact counted.of_same (publishHandler_store done).sameTopics
  · exact counted.of_same (pingreqHandler_store done).sameTopics
  · obtain ⟨pkt,_,⟨_,rfl⟩ | ⟨_,t,b₁,b₂,found,added,rfl⟩⟩ := subscribeHandler_cases done
    · exact counted.of_same (SameTopics.of_eq rfl rfl)
    · have acked := (findTopic_counted counted found).of_same (SameTopics.of_eq rfl rfl : SameTopics b₁
        (setAckReply env b₁ c Opcode.suback 0))
      exact (addSubscriber_counted acked added).of_same (SameTopics.of_eq rfl rfl)

theorem delivered_counted (counted : Counted b) (done : (deliverReply env b c r).outcome = .returned (rc,b')) :
    Counted b' := by
  obtain ⟨p,t,b₁,_,_,found,_,rfl⟩ | ⟨_,_,_,_,_,_,rfl⟩ | ⟨_,_,_,_,rfl⟩ := deliverReply_shape done
  · exact ((findTopic_counted counted found).of_same (published_same env b₁ t p).1).of_same (SameTopics.of_eq rfl rfl)
  · exact counted.of_same (SameTopics.of_eq rfl rfl)
  · exact counted

theorem payload_typed (other : opcode ≠ Opcode.publish) : Typed ⟨opcode,fd,.payload payload,retained⟩ :=
  ⟨fun publish => absurd publish other,fun ⟨_,body⟩ => by cases body⟩

theorem asked_typed (asked : Asked env fd none command pkt reply) : ∀ r, reply = some r → Typed r := by
  intro r pending
  cases asked with
  | connect | pingreq | subscribe =>
    obtain rfl := Option.some.inj pending
    exact payload_typed (by decide)
  | publish topic =>
    obtain rfl := Option.some.inj pending
    exact ⟨fun _ => ⟨_,rfl⟩,fun _ => rfl⟩
  | nothing => cases pending

theorem delivered_retaining (retaining : Retaining b) (named : Named b)
    (done : (deliverReply env b c r).outcome = .returned (rc,b')) : Retaining b' := by
  obtain ⟨p,t,b₁,_,_,found,_,rfl⟩ | ⟨_,_,_,_,_,_,rfl⟩ | ⟨_,_,_,_,rfl⟩ := deliverReply_shape done
  · have before := retaining.carried (PendingRetained.findTopic_carried found).1
    have own := (findTopic_extends named found).2
    by_cases retain : p.retain = 0
    · have same : SameStore b₁ (updateClientLastAction env (published env b₁ t p) c) := by
        rw [published,if_pos retain]
        exact (touchAll_same env b₁ _).trans ⟨rfl,rfl,rfl⟩
      exact before.carried (.of_store same)
    · have same : SameStore (retainMessage b₁ t p) (updateClientLastAction env (published env b₁ t p) c) := by
        rw [published,if_neg retain]
        exact (touchAll_same env _ _).trans ⟨rfl,rfl,rfl⟩
      exact (before.replaced own (retainMessage_replaced b₁ t p)).carried (.of_store same)
  · exact retaining.carried (.of_store ⟨rfl,rfl,rfl⟩)
  · exact retaining

/-- A step for one client leaves the replies of the others as they were. -/
theorem touched_typed {k : Kernel} (tidy : Tidy b) (touched : Touched c { b with kernel := k } b')
    (own : ∀ r, (b'.client.cell c).reply = some r → Typed r) :
    ∀ d, d < b'.client.next → ∀ r, (b'.client.cell d).reply = some r → Typed r := by
  intro d known r pending
  by_cases same : d = c
  · subst same
    exact own r pending
  · rw [touched.reply d same] at pending
    rw [touched.next] at known
    exact tidy.typed d known r pending

theorem linked_registry (env : Env) (b : Broker) (k : Kernel) (c : Nat) (pkt : Packet) :
    ClientRegistry.SameRegistry b (linked env { b with kernel := k } c pkt) := by
  have kernel : ClientRegistry.SameRegistry b { b with kernel := k } := .of_eq rfl rfl
  exact kernel.trans (ClientRegistry.SameRegistry.linked env { b with kernel := k } c pkt)

theorem progress_tidy (tidy : Tidy b) (attended : Attended b') (unholed : ∀ c conn,
      .call .connect c (some (.connect conn)) ∈ events → conn.idlen ≠ 0 →
        (ClientRegistry.cleared b c conn).Clear (ClientRegistry.newId b c conn))
    (progress : Progress env b who events b') : Tidy b' := by
  have ready := progress_ready tidy.ready progress
  obtain ⟨_,moved⟩ := Ordering.progress_moved tidy.stocked tidy.ready progress
  have counted : Counted b := ⟨tidy.fresh,tidy.exact⟩
  cases progress with
  | idle idle =>
    obtain ⟨fresh,exact'⟩ := counted.of_same idle.store.sameTopics
    refine ⟨attended,ready,moved.stocked,fresh,exact',tidy.retaining.carried (.of_store idle.store),
      tidy.filed.of_idle idle,fun c known r pending => ?_⟩
    by_cases old : c < b.client.next
    · rw [(idle.old c old).reply] at pending
      exact tidy.typed c old r pending
    · rw [(idle.new c (Nat.not_lt.mp old) known).1] at pending
      cases pending
  | @unknown c k pkt serving turn =>
    have quiet : (b.client.cell c).reply = none := tidy.ready c serving.known serving.handler
    obtain ⟨fresh,exact'⟩ := counted.of_same (SameTopics.of_eq rfl rfl :
      SameTopics b (awaitReply (linked env { b with kernel := k } c pkt) (b.fd c) c))
    refine ⟨attended,ready,moved.stocked,fresh,exact',tidy.retaining.carried (.of_store ⟨rfl,rfl,rfl⟩),
      tidy.filed.of_same ((linked_registry env b k c pkt).trans (ClientRegistry.SameRegistry.awaitReply _ _ c)),
      touched_typed tidy (unknown_touched env b c k pkt) fun r pending => ?_⟩
    rw [awaitReply_reply,linked_reply] at pending
    cases quiet.symm.trans pending
  | @request c k command pkt rc b₁ serving turn decodable handled =>
    have quiet : (b.client.cell c).reply = none := tidy.ready c serving.known serving.handler
    have stored := linked_ptr env { b with kernel := k } c pkt
    have begun : SameStore b (linked env { b with kernel := k } c pkt) := ⟨rfl,rfl,rfl⟩
    have armed : SameStore b₁ (awaitReply b₁ (b.fd c) c) := ⟨rfl,rfl,rfl⟩
    have registry := linked_registry env b k c pkt
    obtain ⟨fresh,exact'⟩ :=
      (handler_counted (counted.of_same begun.sameTopics) decodable handled).of_same armed.sameTopics
    have carried := ((Carried.of_store begun).trans (PendingRetained.handler_carried decodable handled)).trans
      (.of_store armed)
    refine ⟨attended,ready,moved.stocked,fresh,exact',tidy.retaining.carried carried,?_,
      touched_typed tidy (request_touched decodable handled) ?_⟩
    · refine (handler_filed (tidy.filed.of_same registry) serving.known decodable stored ?_ handled).of_same
        (ClientRegistry.SameRegistry.awaitReply b₁ _ c)
      rintro conn rfl rfl named
      rw [ClientRegistry.cleared_same registry,ClientRegistry.newId_same registry]
      exact unholed c conn (List.mem_singleton.mpr rfl) named
    · have asked := handler_asked decodable stored handled
      rw [linked_reply,quiet,← awaitReply_reply b₁ (b.fd c) c] at asked
      exact asked_typed asked
  | @reply c k r rc b₁ serving turn pending delivered =>
    have begun : SameStore b { b with kernel := k } := ⟨rfl,rfl,rfl⟩
    have finished : SameStore b₁ (finishReply b₁ c) := ⟨rfl,rfl,rfl⟩
    have kernel : ClientRegistry.SameRegistry b { b with kernel := k } := .of_eq rfl rfl
    have registry := (kernel.trans (ClientRegistry.SameRegistry.deliverReply delivered)).trans
      (ClientRegistry.SameRegistry.finishReply b₁ c)
    have touched := (Touched.of_local (deliverReply_local delivered)).trans (finishReply_touched b₁ c)
    obtain ⟨fresh,exact'⟩ :=
      (delivered_counted (counted.of_same begun.sameTopics) delivered).of_same finished.sameTopics
    have retaining := delivered_retaining (tidy.retaining.carried (.of_store begun))
      (tidy.stocked.named.of_same begun.sameTopics) delivered
    refine ⟨attended,ready,moved.stocked,fresh,exact',retaining.carried (.of_store finished),
      tidy.filed.of_same registry,touched_typed tidy touched fun r pending => ?_⟩
    simp [finishReply] at pending

theorem run_tidy (run : Run (fun _ b label b' => Unholed b label ∧ Performed b label b') (startServer server) past b) :
    Tidy b := by
  refine Run.invariant (fun _ b => Tidy b) (start_tidy server) ?_ run
  rintro _ b label b' _ tidy ⟨unholed,performed⟩
  exact progress_tidy tidy (Listener.performed_fate tidy.attended performed).2 unholed
    (performed_progress tidy.attended.registered performed)

/-- After every run in which no CONNECT stores its client in front of an entry with the same id, the clean-up comes
to its end: it frees nothing twice, nothing that was freed before and not the server, and of the memory
that the maps of topics and clients lead to it forgets nothing. -/
theorem cleanup_frees_once
    (run : Run (fun _ b label b' => Unholed b label ∧ Performed b label b') (startServer server) past b) :
    ∃ freed, cleanup b = .returned (freedBefore b ++ freed) ∧ freed.Nodup ∧
      (∀ block ∈ freed, block ∉ freedBefore b) ∧ (∀ part, .client 0 part ∉ freed) ∧
      ∀ block, block ∈ freed ↔ Reachable b block := by
  have tidy := run_tidy run
  refine ⟨plan b,tidy_cleanup tidy,plan_nodup tidy,plan_unfreed tidy,fun part planned => ?_,fun block => mem_plan⟩
  obtain ⟨⟨key,stored⟩,_⟩ := mem_plan.mp planned
  exact (tidy.attended.enrolled key 0 stored).1 rfl

theorem newIds_unholed (checked : ClientRegistry.newIds b label = true) : Unholed b label :=
  fun c pkt called _ => ClientRegistry.newIds_clear checked c pkt called

def tidyScript (b : Broker) : List (Env × Action) → Bool
  | [] => true
  | (env,action) :: rest =>
    possible env b action && ClientRegistry.newIds b (labelled env b action) && tidyScript (after env b action) rest

theorem tidyScript_run
    (run : Run (fun _ b label b' => Unholed b label ∧ Performed b label b') start past b)
    (checked : tidyScript b script = true) :
    Run (fun _ b label b' => Unholed b label ∧ Performed b label b') start (past ++ trace b script)
      (follow b script) := by
  induction script generalizing past b with
  | nil => simpa [trace,follow] using run
  | cons step rest ih =>
    simp only [tidyScript,Bool.and_eq_true] at checked
    obtain ⟨⟨possible',new⟩,later⟩ := checked
    have longer := ih (run.snoc ⟨newIds_unholed new,possible_performed _ _ _ possible'⟩) later
    rwa [List.append_assoc] at longer

/-- Two clients connect, the first one subscribes to `a`, and the second one leaves a message there. -/
def session : List (Env × Action) :=
  ClientRegistry.connecting 97 98 ++
    [(plainEnv,.arrive 4 ⟨[.bytes 0x80 [0,0,0,9,0,1,0,97]],.quiet⟩),(plainEnv,Ledger.turn .refused 4),
      (plainEnv,Ledger.turn .refused 4),(plainEnv,.arrive 6 PendingRetained.retainedLetter),
      (plainEnv,Ledger.turn .refused 6),(plainEnv,Ledger.turn .refused 6)]

def ended : Broker := follow (startServer 3) session

/-- The topic, its subscription, the message and both clients are freed. -/
theorem session_cleanup : ∃ freed, cleanup ended = .returned (freedBefore ended ++ freed) ∧ freed.Nodup ∧
    .topic 0 .struct ∈ freed ∧ .topic 0 (.subscription 0) ∈ freed ∧ .message 0 .payload ∈ freed ∧
    .client 1 .struct ∈ freed ∧ .client 2 .struct ∈ freed := by
  have run : Run _ (startServer 3) ([] ++ trace (startServer 3) session) ended :=
    tidyScript_run Run.nil (by decide +kernel)
  have topic : ended.topics.Contains (cstr [97]) 0 := lookup_contains (by decide +kernel)
  have first : ended.clients.Contains (cstr [97]) 1 := lookup_contains (by decide +kernel)
  have second : ended.clients.Contains (cstr [98]) 2 := lookup_contains (by decide +kernel)
  have nodes : (ended.topic.cell 0).subscribers.nodes.length = 1 := by decide +kernel
  have retained : (ended.topic.cell 0).retained = some 0 := by decide +kernel
  obtain ⟨freed,done,distinct,_,_,all⟩ := cleanup_frees_once run
  refine ⟨freed,done,distinct,(all _).mpr ⟨⟨_,topic⟩,by simp⟩,(all _).mpr ⟨⟨_,topic⟩,?_⟩,
    (all _).mpr ⟨_,_,topic,retained⟩,(all _).mpr ⟨⟨_,first⟩,trivial⟩,(all _).mpr ⟨⟨_,second⟩,trivial⟩⟩
  rintro i (same | same)
  · cases same
    rw [nodes]
    exact Nat.zero_lt_one
  · cases same

end Sizigy.Shutdown
