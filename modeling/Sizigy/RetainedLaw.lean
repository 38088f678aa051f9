import Sizigy.ExactlyOnce
import Sizigy.Forwarding
import Sizigy.RetainedStore

/-! The law of retained messages. With requests that run one after the other, a SUBSCRIBE is
answered with the message of the latest PUBLISH on its topic that had the retain flag set. -/
namespace Sizigy.RetainedLaw

open Bytes ExactlyOnce Forwarding Machine PacketCodec

/-- A PUBLISH that its sender sized correctly and that came through `recv_packet`, with a
topic and a payload that are C strings. -/
structure Plain (p : Publish) : Prop where
  topicLength : p.topic.length = p.topicLen.toNat
  messageLength : p.message.length = p.messageLen.toNat
  inside : 14 + p.topicLen.toNat + p.messageLen.toNat ≤ p.header.size.toNat
  small : p.header.size.toNat ≤ onemb * 2 + headlen
  topicFree : 0 ∉ p.topic
  messageFree : 0 ∉ p.message

/-- Receiving and decoding give such a packet whenever its lengths lie within it. -/
theorem received_plain
    (received : recvPacket junk fuel (requestRing stack) s = .returned (some (opcode,buffer),s'))
    (within : 14 + (unpackPublish buffer).1.topicLen.toNat + (unpackPublish buffer).1.messageLen.toNat ≤
      buffer.size)
    (topicFree : 0 ∉ (unpackPublish buffer).1.topic) (messageFree : 0 ∉ (unpackPublish buffer).1.message) :
    Plain (unpackPublish buffer).1 := by
  obtain ⟨small,declared,fresh⟩ := recvPacket_fits received
  have size : (unpackPublish buffer).1.header.size.toNat = buffer.size := by
    have field : (unpackPublish buffer).1.header.size.toNat = decode (load buffer.data (buffer.pos + 1) 4) :=
      PacketBounds.uint32_length buffer.data _
    rw [field,fresh]
    exact declared
  exact ⟨load_length _ _ _,load_length _ _ _,by omega,by omega,topicFree,messageFree⟩

/-- SUBSCRIBE and PUBLISH requests with topics and payloads that are C strings. -/
def Proper : Request → Prop
  | .subscribe _ pkt => 0 ∉ pkt.topic
  | .unsubscribe _ _ => False
  | .publish _ p => Plain p

def Completed (b : Broker) (turn : Turn) (b' : Broker) : Prop :=
  Proper turn.request ∧ Served (fun _ => True) b turn b'

/-- What a request leaves for later subscribers of a topic. -/
def retains (topic : List UInt8) : Request → Option Publish
  | .publish _ p => if p.retain ≠ 0 ∧ p.topic = topic then some p else none
  | _ => none

/-- The latest PUBLISH on the topic with the retain flag set. -/
def latest (past : List Turn) (topic : List UInt8) : Option Publish :=
  past.foldl (fun now turn => (retains topic turn.request).or now) none

variable {env : Env} {b b' : Broker} {c t : Nat} {name : CString} {past : List Turn} {turn : Turn}

@[simp] theorem latest_snoc (past : List Turn) (turn : Turn) (topic : List UInt8) :
    latest (past ++ [turn]) topic = (retains topic turn.request).or (latest past topic) := by
  simp [latest]

/-- The retained message of the topic that a lookup returns. -/
def retainedOf (b : Broker) (name : CString) : Option Nat :=
  (b.topics.lookup name).bind fun t => (b.topic.cell t).retained

theorem retainedOf_some (found : b.topics.lookup name = some t) :
    retainedOf b name = (b.topic.cell t).retained := by
  rw [retainedOf,found,Option.bind_some]

theorem same_retainedOf (same : SameStore b b') (name : CString) : retainedOf b' name = retainedOf b name := by
  rw [retainedOf,same.topics,same.topic,retainedOf]

theorem findTopic_retainedOf (shelved : Shelved b) (memory : env.calloc = fun _ => true)
    (done : findTopic env b name = .returned (t,b')) (name' : CString) :
    retainedOf b' name' = retainedOf b name' := by
  obtain ⟨_,here,others,⟨found,topic⟩ | ⟨absent,rfl,topic⟩⟩ := findTopic_stored shelved memory done
  · by_cases own : name' = name
    · rw [own,retainedOf_some here,retainedOf_some found,topic]
    · rw [retainedOf,others name' own,topic,retainedOf]
  · by_cases own : name' = name
    · rw [own,retainedOf_some here,topic,Heap.alloc_new,retainedOf,absent]
      rfl
    · rw [retainedOf,retainedOf,others name' own]
      cases found : b.topics.lookup name' with
      | none => rfl
      | some t =>
        rw [Option.bind_some,Option.bind_some,topic,
          Heap.alloc_old _ _ t (Nat.ne_of_lt (shelved.known found).1)]

theorem addSubscriber_retainedOf (done : addSubscriber env b s = .returned b') (name : CString) :
    retainedOf b' name = retainedOf b name := by
  obtain ⟨_,lookup,retained⟩ := addSubscriber_retained done
  rw [retainedOf,lookup]
  simp only [retained]
  rfl

/-- The pending SUBACK of a SUBSCRIBE and the retained message it captures. -/
theorem subscribeHandler_captured (shelved : Shelved b) (memory : env.calloc = fun _ => true)
    (stored : (b.client.cell c).ptr = some (.subscribe pkt)) (topic : pkt.topicLen ≠ 0)
    (done : subscribeHandler env b c = .returned (rc,b')) :
    b'.message = b.message ∧ (∀ name, retainedOf b' name = retainedOf b name) ∧
      (b'.client.cell c).reply = some ⟨Opcode.suback,b.fd c,.payload (ackBuffer env Opcode.suback 0),
        retainedOf b (cstr pkt.topic)⟩ := by
  obtain ⟨pkt',stored',⟨empty,_⟩ | ⟨_,t,b₁,b₂,found,added,rfl⟩⟩ := subscribeHandler_cases done
  all_goals obtain rfl := Packet.subscribe.inj (Option.some.inj (stored.symm.trans stored'))
  · exact absurd empty topic
  · have here := (findTopic_stored shelved memory found).2.1
    have first (name : CString) := findTopic_retainedOf shelved memory found name
    have second (name : CString) := addSubscriber_retainedOf added name
    obtain ⟨message,_,retained⟩ := addSubscriber_retained added
    have acked : (setAckReply env b₁ c Opcode.suback 0).message = b₁.message := rfl
    refine ⟨message.trans (acked.trans (findTopic_message found)),fun name => (second name).trans (first name),?_⟩
    have pending := setAckReply_reply env b₁ c Opcode.suback 0
    have fd : b₁.fd c = b.fd c := (findTopic_local (d := c) found).fd c
    rw [← addSubscriber_client added,fd] at pending
    have captured : (b₂.topic.cell t).retained = retainedOf b (cstr pkt.topic) := by
      rw [← first,retainedOf_some here]
      exact retained t
    rw [b₂.setClient_same,pending,captured]
    rfl

/-- A topic keeps the message of the given PUBLISH, or none. -/
def Kept (b : Broker) (name : CString) : Option Publish → Prop
  | none => retainedOf b name = none
  | some p => Plain p ∧ cstr p.topic = name ∧ ∃ m, retainedOf b name = some m ∧ m < b.message.next ∧
      b.message.cell m = { createMessage p with retained := 1 }

theorem Kept.congr (kept : Kept b name p) (retained : retainedOf b' name = retainedOf b name)
    (message : b'.message = b.message) : Kept b' name p := by
  cases p with
  | none => exact retained.trans kept
  | some p =>
    obtain ⟨plain,own,m,found,stored⟩ := kept
    exact ⟨plain,own,m,retained.trans found,by rwa [message]⟩

/-- A retained message is there to be read and bears the name of its topic. -/
theorem Kept.named (kept : Kept b name p) (found : retainedOf b name = some m) :
    (m < b.message.next ∧ (b.message.cell m).live = true) ∧ (b.message.cell m).topic = name := by
  cases p with
  | none =>
    rw [show retainedOf b name = none from kept] at found
    cases found
  | some p =>
    obtain ⟨_,own,m',found',less,stored⟩ := kept
    obtain rfl := Option.some.inj (found.symm.trans found')
    rw [stored]
    exact ⟨⟨less,rfl⟩,own⟩

structure Keeps (past : List Turn) (b : Broker) : Prop where
  shelved : Shelved b
  kept : ∀ name : CString, Kept b name (latest past name.bytes)

theorem start_keeps (empty : b.topics = hashmapCreate) : Keeps [] b := by
  refine ⟨(empty_shelved empty).1,fun name => ?_⟩
  have nothing : b.topics.lookup name = none := by
    rw [empty,lookup_none_iff create_valid]
    simp [Hashmap.Contains,hashmapCreate]
  exact congrArg (Option.bind · fun t => (b.topic.cell t).retained) nothing

variable {held : CString → Option Publish}

/-- Replacing the retained message of a topic leaves those of the other names alone. -/
theorem replaced_kept (shelved : Shelved b) (kept : ∀ name, Kept b name (held name))
    (found : b.topics.lookup (cstr p.topic) = some t) (plain : Plain p) (replaced : Replaced b t p b')
    (name : CString) : Kept b' name (if name = cstr p.topic then some p else held name) := by
  have current : retainedOf b (cstr p.topic) = (b.topic.cell t).retained := retainedOf_some found
  have found' : b'.topics.lookup (cstr p.topic) = some t := by rw [replaced.topics,found]
  by_cases own : name = cstr p.topic
  · subst own
    rw [if_pos rfl]
    refine ⟨plain,rfl,b.message.next,(retainedOf_some found').trans replaced.retained,?_,replaced.stored ?_⟩
    · rw [replaced.grown]
      exact Nat.lt_succ_self _
    · intro m retained
      exact ((kept _).named (current.trans retained)).1.1
  · rw [if_neg own]
    have same : retainedOf b' name = retainedOf b name := by
      rw [retainedOf,retainedOf,replaced.topics]
      cases there : b.topics.lookup name with
      | none => rfl
      | some t' =>
        rw [Option.bind_some,Option.bind_some,replaced.other t' (shelved.apart found there own)]
    have before := kept name
    cases earlier : held name with
    | none =>
      rw [earlier] at before
      exact same.trans before
    | some q =>
      rw [earlier] at before
      obtain ⟨plain',own',m,retained,less,stored⟩ := before
      refine ⟨plain',own',m,same.trans retained,by rw [replaced.grown]; omega,?_⟩
      rw [replaced.kept m (Nat.ne_of_lt less) fun shared => ?_]
      · exact stored
      · have others := ((kept _).named (current.trans shared)).2
        rw [stored] at others
        exact own (own'.symm.trans others)

theorem published_kept (shelved : Shelved b) (kept : ∀ name, Kept b name (held name))
    (found : b.topics.lookup (cstr p.topic) = some t) (plain : Plain p) (name : CString) :
    Kept (published env b t p) name (if p.retain ≠ 0 ∧ name = cstr p.topic then some p else held name) := by
  unfold published
  generalize touched : (b.topic.cell t).subscribers.nodes = subs
  by_cases retain : p.retain = 0
  · rw [if_pos retain,if_neg (fun both => both.1 retain)]
    have same := touchAll_same env b subs
    exact (kept name).congr (same_retainedOf same name) same.message
  · rw [if_neg retain]
    simp only [retain,ne_eq,not_false_eq_true,true_and]
    have same := touchAll_same env (retainMessage b t p) subs
    exact (replaced_kept shelved kept found plain (retainMessage_replaced b t p) name).congr
      (same_retainedOf same name) same.message

theorem proper_topic (plain : Plain p) (name : CString) : p.topic = name.bytes ↔ name = cstr p.topic := by
  constructor
  · intro same
    rw [same,cstr_bytes]
  · intro own
    rw [own,cstr_of_nulFree plain.topicFree]

/-- The reply handler after a SUBSCRIBE: the SUBACK, and the message it captured. -/
theorem replyHandler_suback (env : Env)
    (pending : (b.client.cell c).reply = some ⟨Opcode.suback,fd,.payload payload,retained⟩)
    (alive : ∀ m, retained = some m → m < b.message.next ∧ (b.message.cell m).live = true) :
    ∃ rc b', (replyHandler env b c).outcome = .returned (rc,b') ∧ SameStore b b' ∧
      (replyHandler env b c).events = .reply fd (b.kernel.connection fd) payload.bytes ::
        retained.toList.map fun m => .reply fd (b.kernel.connection fd) (retainedBytes env (b.message.cell m)) := by
  unfold replyHandler
  rw [pending]
  cases retained with
  | none => exact ⟨_,_,rfl,⟨rfl,rfl,rfl⟩,rfl⟩
  | some m =>
    obtain ⟨ret,delivered⟩ : ∃ ret, retainedReply env b c fd payload m = ⟨_,.returned (ret,_)⟩ :=
      retainedReply_live (alive m rfl)
    have branch : deliverReply env b c ⟨Opcode.suback,fd,.payload payload,some m⟩ =
      retainedReply env b c fd payload m := rfl
    simp only [branch,delivered,Exec.returned_bind]
    exact ⟨_,_,rfl,⟨rfl,rfl,rfl⟩,rfl⟩

theorem subscribe_shown (keeps : Keeps past b) (memory : env.calloc = fun _ => true) (topic : pkt.topicLen ≠ 0)
    (done : (handle env b (.subscribe c pkt)).outcome = .returned b') :
    (∀ name : CString, Kept b' name (latest past name.bytes)) ∧
      (handle env b (.subscribe c pkt)).events = .call .subscribe c (some (.subscribe pkt)) ::
        .reply (b.fd c) (b.kernel.connection (b.fd c)) (ackBuffer env Opcode.suback 0).bytes ::
        (retainedOf b (cstr pkt.topic)).toList.map fun m =>
          .reply (b.fd c) (b.kernel.connection (b.fd c)) (retainedBytes env (b.message.cell m)) := by
  obtain ⟨rc,b₁,rc',handled,replied,events⟩ := handle_cases done
  dsimp only [Request.client,Request.packet,Request.command] at *
  have begun : SameStore b (linked env b c (.subscribe pkt)) := ⟨rfl,rfl,rfl⟩
  have shelved : Shelved (linked env b c (.subscribe pkt)) :=
    keeps.shelved.of_same (SameTopics.of_eq rfl rfl)
  obtain ⟨message,retained,pending⟩ :=
    subscribeHandler_captured shelved memory (linked_ptr env b c _) topic handled
  have loc := (linked_local env b c (.subscribe pkt)).trans (subscribeHandler_local handled).1
  have armed := awaitReply_touched b₁ c
  rw [loc.fd] at armed
  rw [same_retainedOf begun,(linked_local env b c _).fd,← awaitReply_reply b₁ (b.fd c) c] at pending
  have same (name : CString) : retainedOf (awaitReply b₁ (b.fd c) c) name = retainedOf b name :=
    (retained name).trans (same_retainedOf begun name)
  have cells : (awaitReply b₁ (b.fd c) c).message = b.message := message
  obtain ⟨rc₂,b₂,outcome,store,shown⟩ := replyHandler_suback env pending fun m found => by
    rw [cells]
    exact ((keeps.kept _).named found).1
  obtain rfl := (Prod.mk.inj (Outcome.returned.inj (replied.symm.trans outcome))).2
  refine ⟨fun name => ?_,?_⟩
  · exact (keeps.kept name).congr ((same_retainedOf store name).trans (same name)) (store.message.trans cells)
  · rw [events,shown,armed.connection,loc.kernel,cells]

/-- A delivered PUBLISH is the latest one on its topic if it is to be retained. -/
theorem publish_kept (keeps : Keeps past b) (memory : env.calloc = fun _ => true) (topic : p.topicLen ≠ 0)
    (plain : Plain p) (done : (handle env b (.publish c p)).outcome = .returned b') (name : CString) :
    Kept b' name (if p.retain ≠ 0 ∧ name = cstr p.topic then some p else latest past name.bytes) := by
  obtain ⟨rc,b₁,rc',handled,replied,_⟩ := handle_cases done
  dsimp only [Request.client,Request.packet,Request.command] at *
  obtain ⟨p',stored,_,_,pending⟩ := publishHandler_local handled
  obtain rfl := Packet.publish.inj (Option.some.inj ((linked_ptr env b c _).symm.trans stored))
  have begun : SameStore b (linked env b c (.publish p)) := ⟨rfl,rfl,rfl⟩
  have armed : SameStore b₁ (awaitReply b₁ (b.fd c) c) := ⟨rfl,rfl,rfl⟩
  have same := begun.trans ((publishHandler_store handled).trans armed)
  have shelved := keeps.shelved.of_same same.sameTopics
  have pending := pending topic
  rw [← awaitReply_reply b₁ (b.fd c) c] at pending
  rcases replyHandler_cases replied with ⟨nothing,_⟩ | ⟨reply,b₂,pending',delivered,_,rfl⟩
  · rw [pending] at nothing
    cases nothing
  · obtain rfl := Option.some.inj (pending.symm.trans pending')
    rw [deliverReply_publish] at delivered
    obtain ⟨t,b₃,_,found,_⟩ := publishReply_cases delivered
    obtain ⟨ret,shape⟩ := publishReply_shape found
    rw [shape] at delivered
    obtain ⟨_,rfl⟩ := Prod.mk.inj (Outcome.returned.inj delivered)
    obtain ⟨shelved₃,here,_⟩ := findTopic_stored shelved memory found
    have kept (name : CString) : Kept b₃ name (latest past name.bytes) := (keeps.kept name).congr
      ((findTopic_retainedOf shelved memory found name).trans (same_retainedOf same name))
      ((findTopic_message found).trans same.message)
    have finished : SameStore (published env b₃ t p)
      (finishReply (updateClientLastAction env (published env b₃ t p) c) c) := ⟨rfl,rfl,rfl⟩
    exact (published_kept shelved₃ kept here plain name).congr (same_retainedOf finished name) finished.message

theorem completed_keeps (keeps : Keeps past b) (completed : Completed b turn b') :
    Keeps (past ++ [turn]) b' := by
  obtain ⟨proper,served⟩ := completed
  obtain ⟨shelved,_⟩ := handle_spec keeps.shelved served.memory served.topic served.outcome
  refine ⟨shelved,fun name => ?_⟩
  have topic := served.topic
  have done := served.outcome
  rw [latest_snoc]
  cases request : turn.request with
  | subscribe c pkt =>
    rw [request] at topic done
    exact (subscribe_shown keeps served.memory topic done).1 name
  | unsubscribe c pkt =>
    rw [request] at proper
    exact absurd proper id
  | publish c p =>
    rw [request] at topic done proper
    have kept := publish_kept keeps served.memory topic proper done name
    simp only [← proper_topic proper] at kept
    simp only [retains]
    split at kept
    next both => rwa [if_pos both]
    next other => rwa [if_neg other]

/-- What follows the SUBACK of a SUBSCRIBE: nothing, or one packet with the topic, the payload
and the QoS of a PUBLISH, the retain flag set and the dup flag clear. -/
def FollowedBy (fd : Fd) (peer : Option Peer) (topic : List UInt8) (rest : List Event) : Option Publish → Prop
  | none => rest = []
  | some p => ∃ bytes, rest = [.reply fd peer bytes] ∧
      ∀ behind, (unpackPublish (arrived bytes behind)).1 = publishLetter topic p.message p.qos 1 0

theorem kept_followedBy (kept : Kept b (cstr topic) p) (topicFree : 0 ∉ topic) (fd : Fd) (peer : Option Peer) :
    FollowedBy fd peer topic
      ((retainedOf b (cstr topic)).toList.map fun m => .reply fd peer (retainedBytes env (b.message.cell m))) p := by
  cases p with
  | none =>
    rw [show retainedOf b (cstr topic) = none from kept]
    rfl
  | some p =>
    obtain ⟨plain,own,m,retained,_,stored⟩ := kept
    rw [retained]
    refine ⟨_,rfl,fun behind => ?_⟩
    have short := p.topicLen.toNat_lt
    have topicLe := strlen_cstr_le p.topic
    have payloadLe := strlen_cstr_le p.message
    have := plain.topicLength
    have := plain.messageLength
    have := plain.inside
    have small := plain.small
    have limit : onemb * 2 + headlen < 2 ^ 32 - 2 := by decide
    have topicName : (b.message.cell m).topic = cstr p.topic := by rw [stored]; rfl
    have payload : (b.message.cell m).payload = cstr p.message := by rw [stored]; rfl
    have level : (b.message.cell m).qos = p.qos := by rw [stored]; rfl
    rw [retainedBytes_unpacked _ behind (by rw [topicName]; omega) (by rw [topicName,payload]; omega),
      topicName,payload,level,own,cstr_of_nulFree topicFree,cstr_of_nulFree plain.messageFree]

/-- Along every run of SUBSCRIBEs and PUBLISHes, a SUBSCRIBE is answered with a SUBACK and,
exactly when a retained PUBLISH on its topic came before, with the latest such message. -/
theorem subscribe_answered (empty : start.topics = hashmapCreate)
    (run : Run (fun _ => Completed) start past b) (completed : Completed b turn b')
    (request : turn.request = .subscribe c pkt) :
    ∃ ack rest, turn.events = .call .subscribe c (some (.subscribe pkt)) ::
        .reply (b.fd c) (b.kernel.connection (b.fd c)) ack :: rest ∧
      (∀ behind, (unpackAck (arrived ack behind)).1 = ackLetter Opcode.suback 0 0) ∧
      FollowedBy (b.fd c) (b.kernel.connection (b.fd c)) pkt.topic rest (latest past pkt.topic) := by
  have keeps := run.invariant Keeps (start_keeps empty) fun _ _ _ _ _ before taken =>
    completed_keeps before taken
  obtain ⟨proper,served⟩ := completed
  have topic := served.topic
  have done := served.outcome
  have shown := served.events
  rw [request] at proper topic done shown
  have topicFree : 0 ∉ pkt.topic := proper
  obtain ⟨_,events⟩ := subscribe_shown keeps served.memory topic done
  refine ⟨_,_,shown.symm.trans events,ackBuffer_unpacked Opcode.suback 0,?_⟩
  have kept := keeps.kept (cstr pkt.topic)
  rw [cstr_of_nulFree topicFree] at kept
  exact kept_followedBy kept topicFree _ _

/-- A PUBLISH to `a` with the retain flag set. -/
def retainA : Publish := ⟨⟨Opcode.publish,16⟩,1,1,1,1,0,[97],[98]⟩

def kept : Broker := afterRequest pair (.publish 2 retainA)

theorem retainA_answered : ∃ ack bytes,
    (turnOf kept subscribeA).events = [.call .subscribe 1 (some subscribeA.packet),
      .reply 4 (some (.client 1)) ack,.reply 4 (some (.client 1)) bytes] ∧
    (∀ behind, (unpackAck (arrived ack behind)).1 = ackLetter Opcode.suback 0 0) ∧
    ∀ behind, (unpackPublish (arrived bytes behind)).1 =
      { header := { opcode := Opcode.publish, size := 18 }, topicLen := 1, messageLen := 1, qos := 1,
        retain := 1, dup := 0, topic := [97], message := [98] } := by
  have plain : Plain retainA := ⟨rfl,rfl,by decide,by decide,by decide,by decide⟩
  have first : Completed pair (turnOf pair (.publish 2 retainA)) kept :=
    ⟨plain,served_after trivial (by decide) (by decide +kernel)⟩
  have topicFree : (0 : UInt8) ∉ [97] := by decide
  have second : Completed kept (turnOf kept subscribeA) (afterRequest kept subscribeA) :=
    ⟨topicFree,served_after trivial (by decide) (by decide +kernel)⟩
  obtain ⟨ack,rest,events,acked,followed⟩ := subscribe_answered rfl (Run.nil.snoc first) second rfl
  obtain ⟨bytes,rfl,decoded⟩ := followed
  have fd : kept.fd 1 = 4 := by decide +kernel
  have peer : kept.kernel.connection 4 = some (.client 1) := by decide +kernel
  rw [fd,peer] at events
  exact ⟨ack,bytes,events,acked,decoded⟩

end Sizigy.RetainedLaw
