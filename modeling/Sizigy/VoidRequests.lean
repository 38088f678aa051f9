import Sizigy.Delivery
import Sizigy.Forwarding
import Sizigy.HashmapLock

/-! Requests that ask for nothing. A handler that answers with return code 1 has changed no
topic, no subscriber list and no registration. An UNSUBSCRIBE from a client that is not
subscribed is as harmless exactly if the topic exists and no subscription of it has the
client's descriptor: a missing topic is dereferenced, and an equal descriptor is removed. -/
namespace Sizigy.VoidRequests

open Machine Forwarding Delivery

variable {env : Env} {b b' : Broker} {c t : Nat} {name : CString} {command : Command}

/-- A step of the running broker, or any command handled for any client. -/
inductive Move where
  | performed (label : Label)
  | served (env : Env) (c : Nat) (command : Command) (pkt : Packet)

def Moved (b : Broker) : Move → Broker → Prop
  | .performed label, b' => Performed b label b'
  | .served env c command pkt, b' => ∃ rc, (serveRequest env b c command.ctype pkt).outcome = .returned (rc,b')

/-- The reply that waits for the client acknowledges with return code 1. -/
def Refused (env : Env) (b : Broker) (c : Nat) : Prop :=
  ∃ opcode fd retained, (b.client.cell c).reply =
    some ⟨opcode,fd,.payload (ackBuffer env opcode 1),retained⟩

/-- There is no such topic, or the client is not among its subscribers. -/
def Void (b : Broker) (c : Nat) (name : CString) : Prop :=
  ∀ t, b.topics.Contains name t → ∀ s ∈ (b.topic.cell t).subscribers.nodes, s.client ≠ c

/-- The handler returns with an UNSUBACK to send, and the topics are as they were. -/
def Harmless (env : Env) (b : Broker) (c : Nat) (pkt : Unsubscribe) : Prop :=
  ∃ b' rc, unsubscribeHandler env (linked env b c (.unsubscribe pkt)) c = .returned (0,b') ∧
    (b'.client.cell c).reply =
      some ⟨Opcode.unsuback,b.fd c,.payload (ackBuffer env Opcode.unsuback rc),env.junkRetained⟩ ∧
    SameTopics b b'

/-- The request names no topic, or one that exists and has no subscription with the
descriptor of the client. -/
def Spared (b : Broker) (c : Nat) (pkt : Unsubscribe) : Prop :=
  pkt.topicLen = 0 ∨ ∃ t, b.topics.lookup (cstr pkt.topic) = some t ∧
    ∀ s ∈ (b.topic.cell t).subscribers.nodes, b.fd s.client ≠ b.fd c

theorem ackBuffer_rc (same : ackBuffer env opcode rc = ackBuffer env opcode' rc') : rc = rc' := by
  have decoded : (unpackAck (arrived (ackBuffer env opcode rc).bytes fun _ => 0)).1 = ackPkt opcode 0 rc :=
    ackBuffer_unpacked opcode rc _
  rw [same,ackBuffer_unpacked] at decoded
  exact congrArg Ack.rc decoded.symm

theorem Refused.code (refused : Refused env b c) (opcode : UInt8)
    (pending : (b.client.cell c).reply.map Reply.body = some (.payload (ackBuffer env opcode rc))) : rc = 1 := by
  obtain ⟨opcode',fd,retained,acked⟩ := refused
  rw [acked] at pending
  exact (ackBuffer_rc (ReplyBody.payload.inj (Option.some.inj pending))).symm

/-- Whatever the command: with return code 1 nothing was stored or removed. -/
theorem refused_unchanged (done : command.handler env (linked env b c pkt) c = .returned (rc,b'))
    (refused : Refused env b' c) : SameTopics b b' ∧ b'.clients = b.clients := by
  cases command with
  | connect =>
    obtain ⟨conn,b₁,_,registered,rfl⟩ := connectHandler_cases done
    have code : (if conn.idlen = 0 then 1 else 0 : UInt8) = 1 := by
      apply refused.code Opcode.connack
      simp only [updateClientLastAction_reply,setAckReply_reply,Option.map_some]
    have unnamed : conn.idlen = 0 := by
      by_contra named
      simp [named] at code
    rw [registerClient,if_pos unnamed] at registered
    obtain rfl := Outcome.returned.inj registered
    exact ⟨SameTopics.of_eq rfl rfl,rfl⟩
  | publish =>
    have same := (publishHandler_store done).sameTopics
    refine ⟨(linked_same env b c pkt).trans same,?_⟩
    change publishHandler env (linked env b c pkt) c = .returned (rc,b') at done
    unfold publishHandler at done
    split at done
    · obtain ⟨_,rfl⟩ := Prod.mk.inj (Outcome.returned.inj done)
      split <;> rfl
    · cases done
  | pingreq =>
    obtain ⟨_,rfl⟩ := Prod.mk.inj (Outcome.returned.inj done)
    exact ⟨SameTopics.of_eq rfl rfl,rfl⟩
  | subscribe =>
    obtain ⟨sub,_,⟨_,rfl⟩ | ⟨_,t,b₁,b₂,found,added,rfl⟩⟩ := subscribeHandler_cases done
    · exact ⟨SameTopics.of_eq rfl rfl,rfl⟩
    · have code : (0 : UInt8) = 1 := by
        apply refused.code Opcode.suback
        simp only [Broker.setClient_same,addSubscriber_client added,setAckReply_reply,Option.map_some]
      simp at code
  | unsubscribe =>
    obtain ⟨unsub,_,⟨_,rfl⟩ | ⟨_,deleted⟩⟩ := unsubscribeHandler_cases done
    · exact ⟨SameTopics.of_eq rfl rfl,rfl⟩
    · have code : (0 : UInt8) = 1 := by
        apply refused.code Opcode.unsuback
        simp only [delSubscriber_client deleted,setAckReply_reply,Option.map_some]
      simp at code
  | disconnect =>
    obtain ⟨_,rfl⟩ := Prod.mk.inj (Outcome.returned.inj done)
    rw [closeSockets_eq]
    exact ⟨SameTopics.of_eq rfl rfl,rfl⟩

/-- Between two calls nobody holds the mutex of the topics. -/
def Released (b : Broker) : Prop := b.topics.lock = false

namespace Released

theorem of_topics (released : Released b) (topics : b'.topics = b.topics) : Released b' := by
  rwa [Released,topics]

theorem getTopic (released : Released b) : getTopic env b name = .returned (b.topics.lookup name,b) := by
  unfold Sizigy.getTopic hashmapGet
  cases env.mutex with
  | ignored => rfl
  | default =>
    have unlocked : ({ b.topics with lock := false } : Hashmap CString Nat) = b.topics := by
      rw [← released]
    rw [HashmapLock.lock_released released]
    change Outcome.returned (b.topics.lookup name,{ b with topics := { b.topics with lock := false } }) = _
    rw [unlocked]

theorem putTopic (released : Released b) (done : putTopic env b name t = .returned b') : Released b' := by
  obtain ⟨⟨status,topics⟩,put,done⟩ := Outcome.bind_eq_returned.mp done
  obtain rfl := Outcome.returned.inj done
  obtain ⟨m,locked,put⟩ := Outcome.bind_eq_returned.mp put
  refine HashmapLock.putLocked_released (fun ignored => ?_) put
  rw [ignored] at locked
  obtain rfl := Outcome.returned.inj locked
  exact released

theorem findTopic (released : Released b) (done : findTopic env b name = .returned (t,b')) : Released b' := by
  rcases findTopic_cases done with got | ⟨b₁,got,_,put⟩
  · rw [released.getTopic] at got
    obtain ⟨_,rfl⟩ := Prod.mk.inj (Outcome.returned.inj got)
    exact released
  · rw [released.getTopic] at got
    obtain ⟨_,rfl⟩ := Prod.mk.inj (Outcome.returned.inj got)
    have created : Released (createTopic b name).2 := released.of_topics rfl
    exact created.putTopic put

theorem addSubscriber (released : Released b) (done : addSubscriber env b s = .returned b') : Released b' := by
  obtain ⟨t,b₁,got,rfl⟩ := addSubscriber_cases done
  rw [released.getTopic] at got
  obtain ⟨_,rfl⟩ := Prod.mk.inj (Outcome.returned.inj got)
  exact released.of_topics rfl

theorem delSubscriber (released : Released b) (done : delSubscriber env b s = .returned b') : Released b' := by
  obtain ⟨t,b₁,got,rfl⟩ := delSubscriber_cases done
  rw [released.getTopic] at got
  obtain ⟨_,rfl⟩ := Prod.mk.inj (Outcome.returned.inj got)
  exact released.of_topics rfl

theorem handler (released : Released b) (done : command.handler env b c = .returned (rc,b')) : Released b' := by
  cases command with
  | connect => exact released.of_topics (connectHandler_store done).topics
  | publish => exact released.of_topics (publishHandler_store done).topics
  | pingreq => exact released.of_topics (pingreqHandler_store done).topics
  | subscribe =>
    obtain ⟨_,_,⟨_,rfl⟩ | ⟨_,t,b₁,b₂,found,added,rfl⟩⟩ := subscribeHandler_cases done
    · exact released.of_topics rfl
    · have acked : Released (setAckReply env b₁ c Opcode.suback 0) := (released.findTopic found).of_topics rfl
      exact (acked.addSubscriber added).of_topics rfl
  | unsubscribe =>
    obtain ⟨_,_,⟨_,rfl⟩ | ⟨_,deleted⟩⟩ := unsubscribeHandler_cases done
    · exact released.of_topics rfl
    · have acked : Released (setAckReply env b c Opcode.unsuback 0) := released.of_topics rfl
      exact acked.delSubscriber deleted
  | disconnect =>
    obtain ⟨_,rfl⟩ := Prod.mk.inj (Outcome.returned.inj done)
    rw [closeSockets_eq]
    exact released.of_topics rfl

theorem serveRequest (released : Released b)
    (done : (serveRequest env b c opcode pkt).outcome = .returned (rc,b')) : Released b' := by
  have begun : Released (linked env b c pkt) := released.of_topics rfl
  obtain ⟨b₁,rfl,⟨command,rc',_,returned⟩ | ⟨_,rfl⟩⟩ := serveRequest_cases done
  · exact (begun.handler returned).of_topics rfl
  · exact begun.of_topics rfl

theorem requestHandler (released : Released b)
    (done : (requestHandler env b c).outcome = .returned (rc,b')) : Released b' := by
  obtain ⟨packet,s,_,⟨_,rfl⟩ | ⟨opcode,buffer,_,⟨_,rfl⟩ | ⟨pkt,_,served⟩⟩⟩ := requestHandler_cases done
  · exact released.of_topics rfl
  · exact released.of_topics rfl
  · have stored : Released (b.setKernel (·.setSocket (b.fd c) s)) := released.of_topics rfl
    exact stored.serveRequest served

theorem replyHandler (released : Released b)
    (done : (replyHandler env b c).outcome = .returned (rc,b')) : Released b' := by
  rcases replyHandler_cases done with ⟨_,rfl,_⟩ | ⟨reply,b₁,_,delivered,_,rfl⟩
  · exact released
  · refine of_topics (b := b₁) ?_ rfl
    rcases deliverReply_cases delivered with ⟨p,_,equal⟩ | ⟨same,_⟩
    · rw [equal] at delivered
      obtain ⟨t,b₂,_,found,_,_,same,_⟩ := publishReply_cases delivered
      exact (released.findTopic found).of_topics same.topics
    · exact released.of_topics same.topics

theorem sweep (released : Released b) (env : Env) : Released (keepaliveSweep env b) := by
  refine hashmapIterate2_invariant Released (fun b kv before => ?_) b.clients b released
  unfold checkClientStatus
  dsimp only
  split
  · exact before.of_topics rfl
  · exact before

theorem accept (released : Released b) (env : Env) (server : Nat) (accepted : Accepted) :
    Released (acceptHandler env b server accepted).2 := by
  cases accepted with
  | refused => exact released
  | lost fd => exact released
  | taken fd s => exact released

theorem processed (released : Released b) (processed : Processed env w b c readiness events b') :
    Released b' := by
  cases processed with
  | error => exact released.of_topics rfl
  | quit => exact released
  | accept => exact released.accept env c w.accepted
  | request _ _ done => exact released.requestHandler done
  | reply _ _ done => exact released.replyHandler done

theorem performed (released : Released b) (performed : Performed b label b') : Released b' := by
  obtain ⟨env,action,events⟩ := label
  obtain ⟨enabled,outcome,_⟩ := performed
  cases action with
  | arrive fd s =>
    obtain rfl := Outcome.returned.inj outcome
    exact released.of_topics rfl
  | event w fd readiness =>
    obtain ⟨⟨data,interest,armed⟩,_⟩ := enabled
    have disarmed : Released (b.setKernel (·.disarm fd)) := released.of_topics rfl
    exact disarmed.processed (workerEvent_processed armed outcome)
  | sweep =>
    obtain rfl := Outcome.returned.inj outcome
    exact released.sweep env
  | disconnect c =>
    obtain rfl := Outcome.returned.inj outcome
    rw [closeSockets_eq]
    exact released.of_topics rfl

end Released

theorem run_released (run : Run (fun _ b move b' => Moved b move b') (startServer fd) past b) : Released b := by
  have initial : Released (startServer fd) := rfl
  refine run.invariant (fun _ b => Released b) initial ?_
  intro past b move b' _ released moved
  cases move with
  | performed label => exact released.performed moved
  | served env c command pkt =>
    obtain ⟨rc,served⟩ := moved
    exact released.serveRequest served

/-- What `del_subscriber` makes of the topic that it finds. -/
def removeSubscriber (b : Broker) (t : Nat) (s : Subscription) : Broker :=
  b.setTopic t fun k =>
    { k with subscribers :=
        { k.subscribers with nodes := listRemoveNode (subCompare b · s) k.subscribers.nodes } }

theorem removes_nothing_iff (b : Broker) (s : Subscription) (l : List Subscription) :
    listRemoveNode (subCompare b · s) l = l ↔ ∀ other ∈ l, b.fd other.client ≠ b.fd s.client := by
  simp [listRemoveNode_eq,List.eraseP_eq_self_iff,subCompare]

theorem removeSubscriber_same_iff (b : Broker) (t : Nat) (s : Subscription) :
    SameTopics b (removeSubscriber b t s) ↔
      ∀ other ∈ (b.topic.cell t).subscribers.nodes, b.fd other.client ≠ b.fd s.client := by
  rw [← removes_nothing_iff]
  constructor
  · intro same
    have kept := same.subscribers t
    rw [removeSubscriber,Broker.setTopic_same] at kept
    exact congrArg LinkedList.nodes kept
  · intro nothing
    refine ⟨rfl,rfl,fun p => ?_,fun p => ?_⟩
    · exact b.setTopic_field t p _ Topic.name fun _ => rfl
    · by_cases here : p = t
      · subst here
        rw [removeSubscriber,Broker.setTopic_same]
        simp only [nothing]
      · rw [removeSubscriber,b.setTopic_other t p _ here]

/-- The client with its packet and the UNSUBACK for it. -/
def acked (env : Env) (b : Broker) (c : Nat) (pkt : Unsubscribe) (rc : UInt8) : Broker :=
  setAckReply env (linked env b c (.unsubscribe pkt)) c Opcode.unsuback rc

theorem acked_same (env : Env) (b : Broker) (c : Nat) (pkt : Unsubscribe) (rc : UInt8) :
    SameTopics b (acked env b c pkt rc) := SameTopics.of_eq rfl rfl

theorem acked_fd (env : Env) (b : Broker) (c : Nat) (pkt : Unsubscribe) (rc : UInt8) (p : Nat) :
    (acked env b c pkt rc).fd p = b.fd p :=
  ((setAckReply_local ..).fd p).trans ((linked_local env b c (.unsubscribe pkt)).fd p)

theorem acked_reply (env : Env) (b : Broker) (c : Nat) (pkt : Unsubscribe) (rc : UInt8) :
    ((acked env b c pkt rc).client.cell c).reply =
      some ⟨Opcode.unsuback,b.fd c,.payload (ackBuffer env Opcode.unsuback rc),env.junkRetained⟩ := by
  rw [acked,setAckReply_reply,(linked_local env b c (.unsubscribe pkt)).fd]

theorem unsubscribe_unnamed (empty : pkt.topicLen = 0) :
    unsubscribeHandler env (linked env b c (.unsubscribe pkt)) c = .returned (0,acked env b c pkt 1) := by
  simp [unsubscribeHandler,empty,acked]

theorem unsubscribe_named (released : Released b) (topic : pkt.topicLen ≠ 0) :
    unsubscribeHandler env (linked env b c (.unsubscribe pkt)) c =
      match b.topics.lookup (cstr pkt.topic) with
      | none => .crashed
      | some t => .returned (0,removeSubscriber (acked env b c pkt 0) t ⟨c,cstr pkt.topic,0⟩) := by
  have waiting : Released (acked env b c pkt 0) := released.of_topics rfl
  have got : getTopic env (acked env b c pkt 0) (cstr pkt.topic) =
      .returned (b.topics.lookup (cstr pkt.topic),acked env b c pkt 0) := waiting.getTopic
  simp only [unsubscribeHandler,linked_ptr,if_neg topic,delSubscriber]
  rw [← acked,got]
  cases b.topics.lookup (cstr pkt.topic) with
  | none => rfl
  | some t => rfl

theorem harmless_iff_spared (released : Released b) (env : Env) (c : Nat) (pkt : Unsubscribe) :
    Harmless env b c pkt ↔ Spared b c pkt := by
  by_cases topic : pkt.topicLen = 0
  · refine ⟨fun _ => .inl topic,fun _ => ?_⟩
    exact ⟨_,1,unsubscribe_unnamed topic,acked_reply env b c pkt 1,acked_same env b c pkt 1⟩
  · have handled : unsubscribeHandler env (linked env b c (.unsubscribe pkt)) c = _ :=
      unsubscribe_named released topic
    unfold Harmless Spared
    rw [handled]
    cases b.topics.lookup (cstr pkt.topic) with
    | none => simp [topic]
    | some t =>
      have same_iff := removeSubscriber_same_iff (acked env b c pkt 0) t ⟨c,cstr pkt.topic,0⟩
      simp only [acked_fd] at same_iff
      constructor
      · rintro ⟨b',rc,returned,_,same⟩
        obtain ⟨_,rfl⟩ := Prod.mk.inj (Outcome.returned.inj returned)
        have unchanged : SameTopics (acked env b c pkt 0) _ := ⟨same.topics,same.next,same.name,same.subscribers⟩
        exact .inr ⟨t,rfl,same_iff.mp unchanged⟩
      · rintro (empty | ⟨t',found,apart⟩)
        · exact absurd empty topic
        · obtain rfl := Option.some.inj found
          have unchanged := (acked_same env b c pkt 0).trans (same_iff.mpr apart)
          exact ⟨_,0,rfl,acked_reply env b c pkt 0,unchanged⟩

/-- In every state the broker reaches: a refused request changed nothing, and an UNSUBSCRIBE
that has nothing to remove is harmless exactly if it is spared. -/
theorem void_requests (run : Run (fun _ b move b' => Moved b move b') (startServer fd) past b) :
    (∀ env c command pkt rc b', Command.handler command env (linked env b c pkt) c = .returned (rc,b') →
      Refused env b' c → SameTopics b b' ∧ b'.clients = b.clients) ∧
    ∀ env c pkt, Void b c (cstr pkt.topic) → (Harmless env b c pkt ↔ Spared b c pkt) := by
  refine ⟨fun env c command pkt rc b' done refused => refused_unchanged done refused,?_⟩
  intro env c pkt _
  exact harmless_iff_spared (run_released run) env c pkt

/-- The runs of the broker are among these runs. -/
theorem performed_moved (run : Run (fun _ b label b' => Performed b label b') start past b) :
    Run (fun _ b move b' => Moved b move b') start (past.map .performed) b := by
  induction run with
  | nil => exact .nil
  | snoc run taken ih =>
    rw [List.map_append]
    exact ih.snoc taken

/-- The client at descriptor 4 has subscribed to `a`, and another one is at descriptor 6. -/
def twoClients : List (Env × Action) :=
  [(plainEnv,subscribing),(plainEnv,turn),(plainEnv,.event (worker (.taken 6 ⟨[],.quiet⟩)) 3 .ready)]

/-- An UNSUBSCRIBE from `a`. -/
def leaving : Unsubscribe := ⟨⟨Opcode.unsubscribe,9⟩,1,[97]⟩

def uninvolved (b : Broker) (c : Nat) : Option (CString × Nat) → Bool
  | none => true
  | some (_,t) => (b.topic.cell t).subscribers.nodes.all fun s => s.client ≠ c

theorem uninvolved_void (uninvolved' : b.topics.entries.all (uninvolved b c) = true) (name : CString) :
    Void b c name := by
  rintro t ⟨i,stored⟩ s member
  have free := List.all_eq_true.mp uninvolved' _ (Probing.mem_iff_slot.mpr ⟨i,stored⟩)
  simpa using List.all_eq_true.mp free s member

/-- The second client's UNSUBSCRIBE leaves the first one subscribed. -/
theorem bystander_harmless : Harmless plainEnv (follow (startServer 3) twoClients) 2 leaving := by
  have run := performed_moved (follow_run (startServer 3) twoClients (by decide +kernel))
  refine ((void_requests run).2 plainEnv 2 leaving (uninvolved_void (by decide +kernel) _)).mpr ?_
  exact .inr ⟨0,by decide +kernel,by decide +kernel⟩

/-- The UNSUBSCRIBE of a client that has just connected dereferences the missing topic. -/
theorem unknown_topic_crashes :
    Run (fun _ b move b' => Moved b move b') (startServer 3)
      [.performed (labelled plainEnv (startServer 3) subscribing)] joined ∧
    joined.topics.lookup (cstr leaving.topic) = none ∧ Void joined 1 (cstr leaving.topic) ∧
    unsubscribeHandler plainEnv (linked plainEnv joined 1 (.unsubscribe leaving)) 1 = .crashed ∧
    ¬Harmless plainEnv joined 1 leaving := by
  have run : Run (fun _ b move b' => Moved b move b') (startServer 3)
      [.performed (labelled plainEnv (startServer 3) subscribing)] joined :=
    Run.nil.snoc (possible_performed plainEnv (startServer 3) subscribing (by decide +kernel))
  have unknown : joined.topics.lookup (cstr leaving.topic) = none := by decide +kernel
  have crashed : unsubscribeHandler plainEnv (linked plainEnv joined 1 (.unsubscribe leaving)) 1 = .crashed := by
    rw [unsubscribe_named (run_released run) (by decide),unknown]
  refine ⟨run,unknown,uninvolved_void (by decide +kernel) _,crashed,?_⟩
  rintro ⟨b',rc,returned,_⟩
  rw [crashed] at returned
  cases returned

end Sizigy.VoidRequests
