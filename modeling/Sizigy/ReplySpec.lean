import Sizigy.ServerSpec

/-! What the reply handler sends. Publishing a message passes one packet to each subscriber
in the order of the list, and no reply changes a topic's name or subscribers. -/
namespace Sizigy

variable {env : Env} {b b' : Broker} {c t : Nat}

/-- The map of topics, their names and their subscribers are as before. -/
structure SameTopics (b b' : Broker) : Prop where
  topics : b'.topics = b.topics
  next : b'.topic.next = b.topic.next
  name : ∀ t, (b'.topic.cell t).name = (b.topic.cell t).name
  subscribers : ∀ t, (b'.topic.cell t).subscribers = (b.topic.cell t).subscribers

namespace SameTopics

theorem of_eq (topics : b'.topics = b.topics) (topic : b'.topic = b.topic) : SameTopics b b' :=
  ⟨topics,by rw [topic],fun t => by rw [topic],fun t => by rw [topic]⟩

theorem refl (b : Broker) : SameTopics b b := of_eq rfl rfl

theorem trans (first : SameTopics b b') (second : SameTopics b' b'') : SameTopics b b'' :=
  ⟨second.topics.trans first.topics,second.next.trans first.next,
    fun t => (second.name t).trans (first.name t),
    fun t => (second.subscribers t).trans (first.subscribers t)⟩

end SameTopics

/-- The topics and all messages are as before. -/
structure SameStore (b b' : Broker) : Prop where
  topics : b'.topics = b.topics
  topic : b'.topic = b.topic
  message : b'.message = b.message

namespace SameStore

theorem refl (b : Broker) : SameStore b b := ⟨rfl,rfl,rfl⟩

theorem trans (first : SameStore b b') (second : SameStore b' b'') : SameStore b b'' :=
  ⟨second.topics.trans first.topics,second.topic.trans first.topic,second.message.trans first.message⟩

theorem sameTopics (same : SameStore b b') : SameTopics b b' := SameTopics.of_eq same.topics same.topic

end SameStore

/-- Packets passed to the descriptors of some subscriptions, with the peers found there. -/
def publications (b : Broker) (t : Nat) (bytes : List UInt8) (subs : List Subscription) : List Event :=
  subs.map fun s => .publish t (b.fd s.client) (b.kernel.connection (b.fd s.client)) bytes

theorem publications_congr (fd : ∀ p, b'.fd p = b.fd p) (kernel : b'.kernel = b.kernel)
    (t : Nat) (bytes : List UInt8) (subs : List Subscription) :
    publications b' t bytes subs = publications b t bytes subs := by
  simp only [publications,fd,kernel]

/-- The clients of some subscriptions with their last action set. -/
def touchAll (env : Env) (b : Broker) (subs : List Subscription) : Broker :=
  subs.foldl (fun b sub => updateClientLastAction env b sub.client) b

theorem touchAll_same (env : Env) (b : Broker) (subs : List Subscription) : SameStore b (touchAll env b subs) := by
  induction subs generalizing b with
  | nil => exact SameStore.refl b
  | cons sub subs ih =>
    have clock : SameStore b (updateClientLastAction env b sub.client) := ⟨rfl,rfl,rfl⟩
    exact clock.trans (ih _)

theorem touchAll_local (env : Env) (b : Broker) (subs : List Subscription) (c : Nat) :
    Local c b (touchAll env b subs) := by
  induction subs generalizing b with
  | nil => exact Local.refl c b
  | cons sub subs ih => exact (updateClientLastAction_local env b c sub.client).trans (ih _)

theorem fanOut_shape (env : Env) (t : Nat) (bytes : List UInt8) (subs : List Subscription) (b : Broker) :
    ∃ total, fanOut env t bytes subs b =
      ⟨publications b t bytes subs,.returned (total,touchAll env b subs)⟩ := by
  induction subs generalizing b with
  | nil => exact ⟨0,rfl⟩
  | cons sub subs ih =>
    obtain ⟨total,rest⟩ := ih (updateClientLastAction env b sub.client)
    have clock := updateClientLastAction_local env b 0 sub.client
    rw [publications_congr clock.fd clock.kernel] at rest
    refine ⟨(env.sendall (b.fd sub.client) bytes).2 + total,?_⟩
    simp only [fanOut,rest,Exec.emit_bind,Exec.returned_bind,Exec.pure_events,Exec.pure_outcome,List.append_nil]
    rfl

theorem retainMessage_same (b : Broker) (t : Nat) (msg : Publish) :
    SameTopics b (retainMessage b t msg) ∧ ∀ c, Local c b (retainMessage b t msg) := by
  have shape : ∃ message, retainMessage b t msg =
      ({ b with message := message } : Broker).setTopic t fun k => { k with retained := some b.message.next } := by
    unfold retainMessage
    cases (b.topic.cell t).retained with
    | none => exact ⟨_,rfl⟩
    | some p => exact ⟨_,rfl⟩
  obtain ⟨message,shape⟩ := shape
  rw [shape]
  refine ⟨⟨rfl,rfl,fun p => ?_,fun p => ?_⟩,fun c => Local.of_eq rfl rfl⟩
  · exact Broker.setTopic_field _ t p (fun k => { k with retained := some b.message.next }) Topic.name
      fun _ => rfl
  · exact Broker.setTopic_field _ t p (fun k => { k with retained := some b.message.next })
      Topic.subscribers fun _ => rfl

/-- The bytes that `publish_message` encodes for every subscriber. -/
def publishBytes (env : Env) (msg : Publish) : List UInt8 :=
  (packPublish (bufferInit msg.header.size.toNat env.junk) msg).bytes

/-- The broker after `publish_message`. -/
def published (env : Env) (b : Broker) (t : Nat) (msg : Publish) : Broker :=
  touchAll env (if msg.retain = 0 then b else retainMessage b t msg) (b.topic.cell t).subscribers.nodes

theorem published_same (env : Env) (b : Broker) (t : Nat) (msg : Publish) :
    SameTopics b (published env b t msg) ∧ ∀ c, Local c b (published env b t msg) := by
  unfold published
  split
  · exact ⟨(touchAll_same env b _).sameTopics,touchAll_local env b _⟩
  · obtain ⟨same,loc⟩ := retainMessage_same b t msg
    exact ⟨same.trans (touchAll_same env _ _).sameTopics,fun c => (loc c).trans (touchAll_local env _ _ c)⟩

theorem publishMessage_shape (env : Env) (b : Broker) (t : Nat) (msg : Publish) :
    ∃ total, publishMessage env b t msg =
      ⟨publications b t (publishBytes env msg) (b.topic.cell t).subscribers.nodes,
        .returned (total,published env b t msg)⟩ := by
  unfold publishMessage published
  split
  · exact fanOut_shape ..
  · obtain ⟨same,loc⟩ := retainMessage_same b t msg
    obtain ⟨total,done⟩ := fanOut_shape env t (publishBytes env msg) (b.topic.cell t).subscribers.nodes
      (retainMessage b t msg)
    rw [publications_congr (loc 0).fd (loc 0).kernel] at done
    refine ⟨total,?_⟩
    simp only [same.subscribers]
    exact done

/-- The acknowledgement of a delivered PUBLISH. -/
def pubackTo (env : Env) (b : Broker) (fd : Fd) (p : Publish) : List Event :=
  if p.qos = 1 then [.reply fd (b.kernel.connection fd) (ackBuffer env Opcode.puback 0).bytes] else []

theorem publishReply_shape (found : findTopic env b (cstr p.topic) = .returned (t,b₁)) :
    ∃ ret, publishReply env b c fd p =
      ⟨publications b₁ t (publishBytes env p) (b₁.topic.cell t).subscribers.nodes ++ pubackTo env b₁ fd p,
        .returned (ret,updateClientLastAction env (published env b₁ t p) c)⟩ := by
  obtain ⟨total,done⟩ := publishMessage_shape env b₁ t p
  have loc := (published_same env b₁ t p).2
  have clock : (total : Int) > -1 := by omega
  unfold publishReply pubackTo
  simp only [found,Exec.lift_bind,done,Exec.returned_bind,clock,if_true]
  by_cases qos : p.qos = 1
  · simp only [qos,if_true,sendReply,Exec.emit_bind,(updateClientLastAction_local env _ c c).kernel,
      (loc c).kernel]
    exact ⟨_,rfl⟩
  · simp only [qos,if_false]
    exact ⟨_,rfl⟩

theorem publishReply_found (done : (publishReply env b c fd p).outcome = .returned result) :
    ∃ t b₁, findTopic env b (cstr p.topic) = .returned (t,b₁) := by
  unfold publishReply at done
  rw [Exec.bind_outcome] at done
  obtain ⟨⟨t,b₁⟩,found,_⟩ := Outcome.bind_eq_returned.mp done
  exact ⟨t,b₁,found⟩

def IsReply (event : Event) : Prop := ∃ fd peer bytes, event = .reply fd peer bytes

theorem pubackTo_replies (env : Env) (b : Broker) (fd : Fd) (p : Publish) :
    ∀ event ∈ pubackTo env b fd p, IsReply event := by
  intro event member
  unfold pubackTo at member
  split at member
  · exact ⟨_,_,_,List.mem_singleton.mp member⟩
  · cases member

theorem publishReply_returned (done : (publishReply env b c fd p).outcome = .returned (ret,b')) :
    ∃ t b₁, findTopic env b (cstr p.topic) = .returned (t,b₁) ∧
      (publishReply env b c fd p).events =
        publications b₁ t (publishBytes env p) (b₁.topic.cell t).subscribers.nodes ++ pubackTo env b₁ fd p ∧
      b' = updateClientLastAction env (published env b₁ t p) c := by
  obtain ⟨t,b₁,found⟩ := publishReply_found done
  obtain ⟨_,shape⟩ : ∃ ret, publishReply env b c fd p = ⟨_,.returned (ret,_)⟩ := publishReply_shape found
  rw [shape] at done ⊢
  obtain ⟨_,rfl⟩ := Prod.mk.inj (Outcome.returned.inj done)
  exact ⟨t,b₁,found,rfl,rfl⟩

/-- A PUBLISH that is answered to its end: the topic was found, its subscribers got the
packet, and at most an acknowledgement followed. -/
theorem publishReply_cases (done : (publishReply env b c fd p).outcome = .returned (ret,b')) :
    ∃ t b₁ acks, findTopic env b (cstr p.topic) = .returned (t,b₁) ∧
      (publishReply env b c fd p).events =
        publications b₁ t (publishBytes env p) (b₁.topic.cell t).subscribers.nodes ++ acks ∧
      (∀ event ∈ acks, IsReply event) ∧ SameTopics b₁ b' ∧ Local c b₁ b' := by
  obtain ⟨t,b₁,found,shown,rfl⟩ := publishReply_returned done
  obtain ⟨same,loc⟩ := published_same env b₁ t p
  exact ⟨t,b₁,_,found,shown,pubackTo_replies env b₁ fd p,same.trans (SameTopics.of_eq rfl rfl),
    (loc c).trans (updateClientLastAction_local env _ c c)⟩

/-- The PUBLISH that follows a SUBACK. -/
def retainedBytes (env : Env) (r : Message) : List UInt8 :=
  publishBytes env (publishPkt r.topic.bytes r.payload.bytes r.qos 1 0)

theorem retainedReply_live (alive : m < b.message.next ∧ (b.message.cell m).live = true) :
    ∃ ret, retainedReply env b c fd payload m =
      ⟨[.reply fd (b.kernel.connection fd) payload.bytes,
          .reply fd (b.kernel.connection fd) (retainedBytes env (b.message.cell m))],
        .returned (ret,updateClientLastAction env b c)⟩ := by
  unfold retainedReply
  simp only [alive,and_self,if_true]
  exact ⟨_,rfl⟩

theorem retainedReply_freed (freed : ¬(m < b.message.next ∧ (b.message.cell m).live = true)) :
    retainedReply env b c fd payload m =
      ⟨[.reply fd (b.kernel.connection fd) payload.bytes],.crashed⟩ := by
  unfold retainedReply
  simp only [freed,if_false]
  rfl

/-- A retained message is only sent while it is alive; a freed one is dereferenced. -/
theorem retainedReply_returned (done : (retainedReply env b c fd payload m).outcome = .returned (ret,b')) :
    (retainedReply env b c fd payload m).events = [.reply fd (b.kernel.connection fd) payload.bytes,
      .reply fd (b.kernel.connection fd) (retainedBytes env (b.message.cell m))] ∧
    b' = updateClientLastAction env b c := by
  by_cases alive : m < b.message.next ∧ (b.message.cell m).live = true
  · obtain ⟨_,shape⟩ : ∃ ret, retainedReply env b c fd payload m = ⟨_,.returned (ret,_)⟩ := retainedReply_live alive
    rw [shape] at done ⊢
    obtain ⟨_,rfl⟩ := Prod.mk.inj (Outcome.returned.inj done)
    exact ⟨rfl,rfl⟩
  · rw [retainedReply_freed alive] at done
    cases done

/-- What delivering a reply did: a PUBLISH went to the subscribers of its topic, a SUBACK was
followed by a retained message, or an acknowledgement went alone. -/
theorem deliverReply_shape (done : (deliverReply env b c r).outcome = .returned (ret,b')) :
    (∃ p t b₁, r.opcode = Opcode.publish ∧ r.body = .publish p ∧
      findTopic env b (cstr p.topic) = .returned (t,b₁) ∧
      (deliverReply env b c r).events =
        publications b₁ t (publishBytes env p) (b₁.topic.cell t).subscribers.nodes ++ pubackTo env b₁ r.fd p ∧
      b' = updateClientLastAction env (published env b₁ t p) c) ∨
    (∃ payload m, r.body = .payload payload ∧ r.opcode = Opcode.suback ∧ r.retained = some m ∧
      (deliverReply env b c r).events = [.reply r.fd (b.kernel.connection r.fd) payload.bytes,
        .reply r.fd (b.kernel.connection r.fd) (retainedBytes env (b.message.cell m))] ∧
      b' = updateClientLastAction env b c) ∨
    (∃ payload, r.body = .payload payload ∧ r.opcode ≠ Opcode.publish ∧
      (deliverReply env b c r).events = [.reply r.fd (b.kernel.connection r.fd) payload.bytes] ∧ b' = b) := by
  have alone (payload : Buffer) (body : r.body = .payload payload) (other : r.opcode ≠ Opcode.publish)
      (sent : deliverReply env b c r = do return (← sendReply env b r.fd payload,b)) :
      ∃ payload, r.body = .payload payload ∧ r.opcode ≠ Opcode.publish ∧
        (deliverReply env b c r).events = [.reply r.fd (b.kernel.connection r.fd) payload.bytes] ∧ b' = b := by
    rw [sent] at done ⊢
    obtain ⟨_,rfl⟩ := Prod.mk.inj (Outcome.returned.inj done)
    exact ⟨payload,body,other,rfl,rfl⟩
  cases body : r.body with
  | publish p =>
    by_cases publish : r.opcode = Opcode.publish
    · have branch : deliverReply env b c r = publishReply env b c r.fd p := by
        simp only [deliverReply,body,publish,if_true]
      rw [branch] at done ⊢
      obtain ⟨t,b₁,found,shown,after⟩ := publishReply_returned done
      exact .inl ⟨p,t,b₁,publish,rfl,found,shown,after⟩
    · simp only [deliverReply,body,publish,if_false] at done
      cases done
  | payload payload =>
    by_cases publish : r.opcode = Opcode.publish
    · simp only [deliverReply,body,publish,if_true] at done
      cases done
    cases retained : r.retained with
    | none =>
      exact .inr (.inr (body ▸ alone payload body publish (by
        simp only [deliverReply,body,publish,if_false,retained])))
    | some m =>
      by_cases suback : r.opcode = Opcode.suback
      · have branch : deliverReply env b c r = retainedReply env b c r.fd payload m := by
          simp only [deliverReply,body,retained]
          rw [if_neg publish,if_pos suback]
        rw [branch] at done ⊢
        obtain ⟨shown,after⟩ := retainedReply_returned done
        exact .inr (.inl ⟨payload,m,rfl,suback,rfl,shown,after⟩)
      · exact .inr (.inr (body ▸ alone payload body publish (by
          simp only [deliverReply,body,publish,if_false,retained,suback])))

/-- A reply handles no request. -/
theorem deliverReply_uncalled (done : (deliverReply env b c r).outcome = .returned (ret,b')) (command : Command)
    (d : Nat) (pkt : Option Packet) : .call command d pkt ∉ (deliverReply env b c r).events := by
  intro called
  rcases deliverReply_shape done with ⟨_,_,_,_,_,_,shown,_⟩ | ⟨_,_,_,_,_,shown,_⟩ | ⟨_,_,_,shown,_⟩
  all_goals simp [shown,publications,pubackTo] at called

/-- A reply is a PUBLISH to fan out, or one or two packets to its own client. -/
theorem deliverReply_cases (done : (deliverReply env b c reply).outcome = .returned (ret,b')) :
    (∃ p, reply.body = .publish p ∧ deliverReply env b c reply = publishReply env b c reply.fd p) ∨
    (SameTopics b b' ∧ Local c b b' ∧ ∀ event ∈ (deliverReply env b c reply).events, IsReply event) := by
  rcases deliverReply_shape done with ⟨p,_,_,publish,body,_⟩ | ⟨_,_,_,_,_,shown,rfl⟩ | ⟨_,_,_,shown,rfl⟩
  · refine .inl ⟨p,body,?_⟩
    simp only [deliverReply,body,publish,if_true]
  · refine .inr ⟨SameTopics.of_eq rfl rfl,updateClientLastAction_local env b c c,fun event member => ?_⟩
    rw [shown] at member
    rcases List.mem_cons.mp member with first | later
    · exact ⟨_,_,_,first⟩
    · exact ⟨_,_,_,List.mem_singleton.mp later⟩
  · refine .inr ⟨SameTopics.refl _,Local.refl _ _,fun event member => ?_⟩
    rw [shown] at member
    exact ⟨_,_,_,List.mem_singleton.mp member⟩

/-- The reply freed and the client waiting for input again. -/
def finishReply (b : Broker) (c : Nat) : Broker :=
  (b.setClient c fun k => { k with reply := none, ctxHandler := .request }).setKernel
    (·.modEpoll (b.fd c) .epollin c)

theorem replyHandler_cases (done : (replyHandler env b c).outcome = .returned (rc,b')) :
    ((b.client.cell c).reply = none ∧ b' = b ∧ (replyHandler env b c).events = []) ∨
    ∃ reply b₁, (b.client.cell c).reply = some reply ∧
      (deliverReply env b c reply).outcome = .returned (rc,b₁) ∧
      (replyHandler env b c).events = (deliverReply env b c reply).events ∧ b' = finishReply b₁ c := by
  unfold replyHandler at done ⊢
  cases pending : (b.client.cell c).reply with
  | none =>
    rw [pending] at done
    obtain ⟨_,rfl⟩ := Prod.mk.inj (Outcome.returned.inj done)
    exact .inl ⟨rfl,rfl,rfl⟩
  | some reply =>
    rw [pending] at done
    simp only [Exec.bind_outcome] at done
    obtain ⟨⟨ret,b₁⟩,delivered,done⟩ := Outcome.bind_eq_returned.mp done
    obtain ⟨rfl,rfl⟩ := Prod.mk.inj (Outcome.returned.inj done)
    refine .inr ⟨reply,b₁,rfl,delivered,Exec.bind_silent _ _ fun _ => rfl,?_⟩
    have kept := Broker.setClient_field b₁ c c (fun k => { k with reply := none, ctxHandler := .request })
      Client.fd fun _ => rfl
    rw [finishReply]
    change Broker.setKernel _ _ = _
    rw [Broker.fd,kept]
    rfl

end Sizigy
