import Sizigy.Library.Lockstep
import Sizigy.Machine

/-! Replies and uninitialised memory. `set_reply` leaves the `retained` field of a new reply as
`malloc` found it, and the reply handler reads that field of a SUBACK. Two brokers whose
replies differ only where nothing is read go on in the same way, unless a SUBSCRIBE comes
without a topic: its SUBACK is never given a `retained` field of its own. -/
namespace Sizigy.Uninitialised

open Machine

variable {env : Env} {b b' : Broker} {c t : Nat} {junk : Option Nat}

/-- The same surroundings with another content of the memory for a new reply. -/
def holding (env : Env) (junk : Option Nat) : Env := { env with junkRetained := junk }

/-- A reply as its handler sees it. -/
def blank (r : Reply) : Reply := if r.opcode = Opcode.suback then r else { r with retained := none }

def visible (k : Client) : Client := { k with reply := k.reply.map blank }

/-- Two brokers that differ only in `retained` fields that no handler reads. -/
structure Alike (b b' : Broker) : Prop where
  topics : b'.topics = b.topics
  clients : b'.clients = b.clients
  topic : b'.topic = b.topic
  message : b'.message = b.message
  kernel : b'.kernel = b.kernel
  next : b'.client.next = b.client.next
  cells : ∀ p, visible (b'.client.cell p) = visible (b.client.cell p)

/-- The same value and brokers that are alike. -/
def Paired (x y : α × Broker) : Prop := y.1 = x.1 ∧ Alike x.2 y.2

namespace Alike

theorem refl (b : Broker) : Alike b b := ⟨rfl,rfl,rfl,rfl,rfl,rfl,fun _ => rfl⟩

theorem field (alike : Alike b b') (f : Client → β) (blind : ∀ k, f (visible k) = f k) (p : Nat) :
    f (b'.client.cell p) = f (b.client.cell p) := by
  rw [← blind (b'.client.cell p),alike.cells,blind]

theorem fd (alike : Alike b b') (p : Nat) : b'.fd p = b.fd p := alike.field Client.fd (fun _ => rfl) p

theorem setKernel (alike : Alike b b') (f : Kernel → Kernel) : Alike (b.setKernel f) (b'.setKernel f) :=
  { alike with kernel := congrArg f alike.kernel }

theorem modEpoll (alike : Alike b b') (c : Nat) (event : Interest) :
    Alike (b.setKernel (·.modEpoll (b.fd c) event c)) (b'.setKernel (·.modEpoll (b'.fd c) event c)) := by
  rw [alike.fd]
  exact alike.setKernel _

theorem setTopic (alike : Alike b b') (t : Nat) (f : Topic → Topic) : Alike (b.setTopic t f) (b'.setTopic t f) :=
  { alike with topic := congrArg (·.modify t f) alike.topic }

theorem setClient (alike : Alike b b') (c : Nat) {f g : Client → Client}
    (keeps : ∀ k k', visible k' = visible k → visible (g k') = visible (f k)) :
    Alike (b.setClient c f) (b'.setClient c g) where
  topics := alike.topics
  clients := alike.clients
  topic := alike.topic
  message := alike.message
  kernel := alike.kernel
  next := alike.next
  cells p := by
    by_cases same : p = c
    · subst same
      rw [b.setClient_same,b'.setClient_same]
      exact keeps _ _ (alike.cells p)
    · rw [b.setClient_other c p f same,b'.setClient_other c p g same]
      exact alike.cells p

theorem edit (alike : Alike b b') (c : Nat) (f : Client → Client) (beside : ∀ k, visible (f k) = f (visible k)) :
    Alike (b.setClient c f) (b'.setClient c f) :=
  alike.setClient c fun k k' same => by rw [beside,beside,same]

theorem clocked (alike : Alike b b') (c : Nat) :
    Alike (updateClientLastAction env b c) (updateClientLastAction (holding env junk) b' c) :=
  alike.edit c (fun k => { k with lastActionTime := env.now }) fun _ => rfl

/-- A reply that is no SUBACK hides what its memory held. -/
theorem replied (alike : Alike b b') (c : Nat) (body : ReplyBody) (other : opcode ≠ Opcode.suback) :
    Alike (b.setClient c fun k => { k with reply := some ⟨opcode,k.fd,body,env.junkRetained⟩ })
      (b'.setClient c fun k => { k with reply := some ⟨opcode,k.fd,body,junk⟩ }) := by
  refine alike.setClient c fun k k' same => ?_
  have shown (retained : Option Nat) (k : Client) :
      visible { k with reply := some ⟨opcode,k.fd,body,retained⟩ } =
        { visible k with reply := some ⟨opcode,(visible k).fd,body,none⟩ } := by
    simp only [visible,Option.map_some,blank,other,if_false]
  rw [shown,shown,same]

theorem linked (alike : Alike b b') (c : Nat) (pkt : Packet) :
    Alike (linked env b c pkt) (Sizigy.linked (holding env junk) b' c pkt) :=
  (alike.clocked c).edit c (fun k => { k with ptr := some pkt }) fun _ => rfl

theorem awaitReply (alike : Alike b b') (fd : Fd) (c : Nat) : Alike (awaitReply b fd c) (Sizigy.awaitReply b' fd c) :=
  (alike.edit c (fun k => { k with ctxHandler := .reply }) fun _ => rfl).setKernel _

theorem awaitRequest (alike : Alike b b') (fd : Fd) (c : Nat) :
    Alike (awaitRequest b fd c) (Sizigy.awaitRequest b' fd c) :=
  (alike.edit c (fun k => { k with ctxHandler := .request }) fun _ => rfl).setKernel _

theorem addClient (alike : Alike b b') (c : Nat) :
    (addClient env b c).Lockstep Alike (Sizigy.addClient (holding env junk) b' c) := by
  unfold Sizigy.addClient
  rw [alike.clients,alike.field Client.id fun _ => rfl]
  exact .fork _ fun _ => .returned { alike with clients := rfl }

theorem delClient (alike : Alike b b') (c : Nat) :
    (delClient env b c).Lockstep Alike (Sizigy.delClient (holding env junk) b' c) := by
  unfold Sizigy.delClient
  rw [alike.clients,alike.field Client.id fun _ => rfl]
  exact .fork _ fun _ => .returned { alike with clients := rfl }

theorem getTopic (alike : Alike b b') (name : CString) :
    (getTopic env b name).Lockstep Paired (Sizigy.getTopic (holding env junk) b' name) := by
  unfold Sizigy.getTopic
  rw [alike.topics]
  exact .fork _ fun _ => .returned ⟨rfl,{ alike with topics := rfl }⟩

theorem putTopic (alike : Alike b b') (name : CString) (t : Nat) :
    (putTopic env b name t).Lockstep Alike (Sizigy.putTopic (holding env junk) b' name t) := by
  unfold Sizigy.putTopic
  rw [alike.topics]
  exact .fork _ fun _ => .returned { alike with topics := rfl }

theorem findTopic (alike : Alike b b') (name : CString) :
    (findTopic env b name).Lockstep Paired (Sizigy.findTopic (holding env junk) b' name) := by
  unfold Sizigy.findTopic
  refine (alike.getTopic name).bind ?_
  rintro ⟨raw,b₁⟩ ⟨raw',b₁'⟩ ⟨same,alike₁⟩
  obtain rfl : raw' = raw := same
  cases raw' with
  | some t => exact .returned ⟨rfl,alike₁⟩
  | none =>
    have created : Alike (createTopic b₁ name).2 (createTopic b₁' name).2 :=
      { alike₁ with topic := congrArg (·.alloc ⟨name,listCreate,none⟩) alike₁.topic }
    have next : b₁'.topic.next = b₁.topic.next := by rw [alike₁.topic]
    simp only [createTopic,next]
    exact (created.putTopic name _).bind fun _ _ alike₂ => .returned ⟨rfl,alike₂⟩

theorem addSubscriber (alike : Alike b b') (s : Subscription) :
    (addSubscriber env b s).Lockstep Alike (Sizigy.addSubscriber (holding env junk) b' s) := by
  unfold Sizigy.addSubscriber
  refine (alike.getTopic s.topic).bind ?_
  rintro ⟨raw,b₁⟩ ⟨raw',b₁'⟩ ⟨same,alike₁⟩
  obtain rfl : raw' = raw := same
  cases raw' with
  | none => exact .crashed
  | some t => exact .returned (alike₁.setTopic t _)

theorem registerClient (alike : Alike b b') (c : Nat) (pkt : Connect) :
    (registerClient env b c pkt).Lockstep Alike (Sizigy.registerClient (holding env junk) b' c pkt) := by
  unfold Sizigy.registerClient
  split
  · exact .returned alike
  · split
    · refine (alike.delClient c).bind fun b₁ b₁' alike₁ => ?_
      have renamed := alike₁.edit c (fun k => { k with id := cstr pkt.id }) fun _ => rfl
      exact renamed.addClient c
    · exact alike.addClient c

theorem connectHandler (alike : Alike b b') (c : Nat) :
    (connectHandler env b c).Lockstep Paired (Sizigy.connectHandler (holding env junk) b' c) := by
  unfold Sizigy.connectHandler
  rw [alike.field Client.ptr fun _ => rfl]
  split
  next pkt _ =>
    refine (alike.registerClient c pkt).bind fun b₁ b₁' alike₁ => .returned ⟨rfl,?_⟩
    have acked : Alike (setAckReply env b₁ c Opcode.connack (if pkt.idlen = 0 then 1 else 0))
        (setAckReply (holding env junk) b₁' c Opcode.connack (if pkt.idlen = 0 then 1 else 0)) :=
      alike₁.replied c _ (by decide)
    exact acked.clocked c
  next => exact .crashed

theorem publishHandler (alike : Alike b b') (c : Nat) :
    (publishHandler env b c).Lockstep Paired (Sizigy.publishHandler (holding env junk) b' c) := by
  unfold Sizigy.publishHandler
  rw [alike.field Client.ptr fun _ => rfl]
  split
  next pkt _ =>
    refine .returned ⟨rfl,?_⟩
    dsimp only
    split
    · exact alike
    · exact alike.replied c (.publish pkt) (by decide)
  next => exact .crashed

theorem pingreqHandler (alike : Alike b b') (c : Nat) :
    (pingreqHandler env b c).Lockstep Paired (Sizigy.pingreqHandler (holding env junk) b' c) := by
  have acked : Alike (setAckReply env b c Opcode.pingresp 0) (setAckReply (holding env junk) b' c Opcode.pingresp 0) :=
    alike.replied c _ (by decide)
  exact .returned ⟨rfl,acked.clocked c⟩

end Alike

theorem setClient_setClient (b : Broker) (c : Nat) (f g : Client → Client) :
    (b.setClient c f).setClient c g = b.setClient c fun k => g (f k) := by
  simp only [Broker.setClient,Heap.modify,Function.update_self,Function.update_idem]

/-- Adding a subscriber neither reads nor writes a client. -/
theorem addSubscriber_setClient (env : Env) (b : Broker) (c : Nat) (f : Client → Client) (s : Subscription) :
    addSubscriber env (b.setClient c f) s =
      addSubscriber env b s >>= fun b₁ => .returned (b₁.setClient c f) := by
  simp only [addSubscriber,getTopic,Outcome.bind_assoc,Broker.setClient_topics]
  refine Outcome.bind_congr ?_
  rintro ⟨raw,topics⟩
  cases raw with
  | none => rfl
  | some t => rfl

/-- With a topic the SUBACK is given its `retained` field, whatever the memory held. -/
theorem subscribeHandler_topic (stored : (b.client.cell c).ptr = some (.subscribe pkt)) (topic : pkt.topicLen ≠ 0) :
    subscribeHandler env b c = (do
      let (t,b₁) ← findTopic env b (cstr pkt.topic)
      let b₂ ← addSubscriber env b₁ ⟨c,(b₁.topic.cell t).name,pkt.qos⟩
      return (0,b₂.setClient c fun k =>
        { k with reply := some ⟨Opcode.suback,k.fd,.payload (ackBuffer env Opcode.suback 0),
          (b₂.topic.cell t).retained⟩ })) := by
  simp only [subscribeHandler,stored,topic,if_false]
  refine Outcome.bind_congr ?_
  rintro ⟨t,b₁⟩
  simp only [setAckReply,setReply,addSubscriber_setClient,Outcome.bind_assoc]
  refine Outcome.bind_congr fun b₂ => ?_
  simp only [Outcome.returned_bind,setClient_setClient,Broker.setClient_topic,Option.map_some]

/-- A request that sets every field that is read of its reply: no SUBSCRIBE without a topic. -/
def Topical (ptr : Option Packet) : Prop := ∀ pkt, ptr = some (.subscribe pkt) → pkt.topicLen ≠ 0

/-- No SUBSCRIBE with an empty topic is handled among some events. -/
def NamesTopic (events : List Event) : Prop := ∀ c ptr, .call .subscribe c ptr ∈ events → Topical ptr

namespace Alike

theorem subscribeHandler (alike : Alike b b') (topical : Topical (b.client.cell c).ptr) :
    (subscribeHandler env b c).Lockstep Paired (Sizigy.subscribeHandler (holding env junk) b' c) := by
  have same := alike.field Client.ptr (fun _ => rfl) c
  have crash (b : Broker) (env : Env) (other : ∀ pkt, (b.client.cell c).ptr ≠ some (.subscribe pkt)) :
      Sizigy.subscribeHandler env b c = .crashed := by
    unfold Sizigy.subscribeHandler
    split
    next pkt stored => exact absurd stored (other pkt)
    next => rfl
  by_cases subscribe : ∃ pkt, (b.client.cell c).ptr = some (.subscribe pkt)
  · obtain ⟨pkt,stored⟩ := subscribe
    have topic := topical pkt stored
    rw [subscribeHandler_topic stored topic,subscribeHandler_topic (same.trans stored) topic]
    refine (alike.findTopic (cstr pkt.topic)).bind ?_
    rintro ⟨t,b₁⟩ ⟨t',b₁'⟩ ⟨found,alike₁⟩
    obtain rfl : t' = t := found
    dsimp only
    rw [alike₁.topic]
    refine (alike₁.addSubscriber _).bind fun b₂ b₂' alike₂ => .returned ⟨rfl,?_⟩
    dsimp only
    rw [alike₂.topic]
    exact alike₂.edit c _ fun _ => rfl
  · have other := not_exists.mp subscribe
    rw [crash b env other,crash b' (holding env junk) fun pkt => same ▸ other pkt]
    exact .crashed

theorem handler (alike : Alike b b') (decodable : Decodable (Command.ctype command))
    (topical : command = .subscribe → Topical (b.client.cell c).ptr) :
    (command.handler env b c).Lockstep Paired (command.handler (holding env junk) b' c) := by
  rcases decodable_command decodable with rfl | rfl | rfl | rfl
  · exact alike.connectHandler c
  · exact alike.publishHandler c
  · exact alike.pingreqHandler c
  · exact alike.subscribeHandler (topical rfl)

theorem callCommand (alike : Alike b b') (decodable : Decodable (Command.ctype command))
    (topical : command = .subscribe → Topical (b.client.cell c).ptr) :
    (callCommand env b c command).Lockstep (fun x y => Alike x.2.2 y.2.2)
      (Sizigy.callCommand (holding env junk) b' c command) := by
  unfold Sizigy.callCommand
  rw [alike.field Client.ptr fun _ => rfl]
  refine (Exec.Lockstep.emit _).bind fun _ _ _ => ?_
  exact (Exec.Lockstep.lift (alike.handler decodable topical)).bind fun _ _ pair => .pure pair.2

theorem serveRequest (alike : Alike b b') (decodable : Decodable opcode)
    (topical : opcode = Opcode.subscribe → Topical (some pkt)) :
    (serveRequest env b c opcode pkt).Lockstep Paired (Sizigy.serveRequest (holding env junk) b' c opcode pkt) := by
  have linked : Alike (Sizigy.linked env b c pkt) (Sizigy.linked (holding env junk) b' c pkt) := alike.linked c pkt
  by_cases known : ∃ command : Command, command.ctype = opcode
  · obtain ⟨command,rfl⟩ := known
    have topical' : command = .subscribe → Topical ((Sizigy.linked env b c pkt).client.cell c).ptr := by
      intro subscribe
      rw [linked_ptr]
      exact topical (congrArg Command.ctype subscribe)
    rw [serveRequest_command,serveRequest_command,alike.fd]
    exact (linked.callCommand decodable topical').bind fun _ _ pair => .pure ⟨rfl,pair.awaitReply _ c⟩
  · have unknown : ∀ command : Command, command.ctype ≠ opcode := fun command equal => known ⟨command,equal⟩
    rw [serveRequest_unknown env b c pkt unknown,serveRequest_unknown _ b' c pkt unknown,alike.fd]
    exact .pure ⟨rfl,linked.awaitReply _ c⟩

theorem sendReply (alike : Alike b b') (fd : Fd) (buffer : Buffer) :
    (sendReply env b fd buffer).Lockstep (fun x y => y = x) (Sizigy.sendReply (holding env junk) b' fd buffer) := by
  unfold Sizigy.sendReply
  rw [alike.kernel]
  exact (Exec.Lockstep.emit _).bind fun _ _ _ => .pure rfl

theorem fanOut (alike : Alike b b') (t : Nat) (bytes : List UInt8) (subs : List Subscription) :
    (fanOut env t bytes subs b).Lockstep Paired (Sizigy.fanOut (holding env junk) t bytes subs b') := by
  induction subs generalizing b b' with
  | nil => exact .pure ⟨rfl,alike⟩
  | cons sub subs ih =>
    simp only [Sizigy.fanOut]
    rw [alike.fd,alike.kernel]
    refine (Exec.Lockstep.emit _).bind fun _ _ _ => ?_
    refine (ih (alike.clocked sub.client)).bind ?_
    rintro ⟨total,b₁⟩ ⟨total',b₁'⟩ ⟨same,alike₁⟩
    exact .pure ⟨congrArg ((env.sendall (b.fd sub.client) bytes).2 + ·) same,alike₁⟩

theorem destroyMessage (alike : Alike b b') (m : Nat) : Alike (destroyMessage b m) (Sizigy.destroyMessage b' m) :=
  { alike with message := congrArg (·.modify m fun k => { k with live := false }) alike.message }

theorem retainMessage (alike : Alike b b') (t : Nat) (msg : Publish) :
    Alike (retainMessage b t msg) (Sizigy.retainMessage b' t msg) := by
  have stored : Alike { b with message := b.message.alloc { createMessage msg with retained := 1 } }
      { b' with message := b'.message.alloc { createMessage msg with retained := 1 } } :=
    { alike with message := congrArg (·.alloc { createMessage msg with retained := 1 }) alike.message }
  have next : b'.message.next = b.message.next := by rw [alike.message]
  have old : (b'.topic.cell t).retained = (b.topic.cell t).retained := by rw [alike.topic]
  simp only [Sizigy.retainMessage,old,next]
  cases (b.topic.cell t).retained with
  | none => exact stored.setTopic t fun k => { k with retained := some b.message.next }
  | some p => exact (stored.destroyMessage p).setTopic t fun k => { k with retained := some b.message.next }

theorem publishMessage (alike : Alike b b') (t : Nat) (msg : Publish) :
    (publishMessage env b t msg).Lockstep Paired (Sizigy.publishMessage (holding env junk) b' t msg) := by
  have kept : Alike (if msg.retain = 0 then b else Sizigy.retainMessage b t msg)
      (if msg.retain = 0 then b' else Sizigy.retainMessage b' t msg) := by
    split
    · exact alike
    · exact alike.retainMessage t msg
  simp only [Sizigy.publishMessage]
  rw [kept.topic]
  exact kept.fanOut t _ _

theorem publishReply (alike : Alike b b') (c : Nat) (fd : Fd) (p : Publish) :
    (publishReply env b c fd p).Lockstep Paired (Sizigy.publishReply (holding env junk) b' c fd p) := by
  unfold Sizigy.publishReply
  refine (Exec.Lockstep.lift (alike.findTopic _)).bind ?_
  rintro ⟨t,b₁⟩ ⟨t',b₁'⟩ ⟨found,alike₁⟩
  obtain rfl : t' = t := found
  refine (alike₁.publishMessage t' p).bind ?_
  rintro ⟨sent,b₂⟩ ⟨sent',b₂'⟩ ⟨same,alike₂⟩
  obtain rfl : sent' = sent := same
  have clocked : Alike (if (sent' : Int) > -1 then updateClientLastAction env b₂ c else b₂)
      (if (sent' : Int) > -1 then updateClientLastAction (holding env junk) b₂' c else b₂') := by
    split
    · exact alike₂.clocked c
    · exact alike₂
  dsimp only
  split
  · exact (clocked.sendReply fd _).bind fun _ _ same => .pure ⟨same,clocked⟩
  · exact .pure ⟨rfl,clocked⟩

theorem retainedReply (alike : Alike b b') (c : Nat) (fd : Fd) (payload : Buffer) (m : Nat) :
    (retainedReply env b c fd payload m).Lockstep Paired
      (Sizigy.retainedReply (holding env junk) b' c fd payload m) := by
  unfold Sizigy.retainedReply
  rw [alike.message]
  refine (alike.sendReply fd payload).bind fun first first' same => ?_
  subst same
  dsimp only
  split
  · refine (alike.sendReply fd _).bind fun second second' same => ?_
    subst same
    exact .pure ⟨rfl,alike.clocked c⟩
  · exact .lift .crashed

end Alike

theorem deliverReply_blank (env : Env) (b : Broker) (c : Nat) (r : Reply) :
    deliverReply env b c (blank r) = deliverReply env b c r := by
  unfold blank
  split
  · rfl
  next other =>
    unfold deliverReply
    dsimp only
    split
    · rfl
    · split
      · rfl
      · cases r.retained with
        | none => rfl
        | some m => rfl

/-- The branches of `reply_handler`. -/
inductive Branch where
  | publish
  | retained
  | other
  deriving DecidableEq

def branch (r : Reply) : Branch :=
  if r.opcode = Opcode.publish then .publish
  else if r.opcode = Opcode.suback ∧ r.retained ≠ none then .retained
  else .other

/-- The branch that the reply handler will take for a client. -/
def upcoming (b : Broker) (c : Nat) : Option Branch := (b.client.cell c).reply.map branch

theorem branch_blank (r : Reply) : branch (blank r) = branch r := by
  unfold blank
  split
  · rfl
  next other => simp only [branch,other,false_and]

namespace Alike

theorem upcoming (alike : Alike b b') (c : Nat) : upcoming b' c = Uninitialised.upcoming b c := by
  refine alike.field (fun k => k.reply.map branch) (fun k => ?_) c
  simp only [visible,Option.map_map,Function.comp_def,branch_blank]

theorem deliverReply (alike : Alike b b') (c : Nat) (r : Reply) :
    (deliverReply env b c r).Lockstep Paired (Sizigy.deliverReply (holding env junk) b' c r) := by
  have plain (payload : Buffer) :
      (do return (← Sizigy.sendReply env b r.fd payload,b) : Exec Event (Int × Broker)).Lockstep Paired
        (do return (← Sizigy.sendReply (holding env junk) b' r.fd payload,b')) :=
    (alike.sendReply r.fd payload).bind fun _ _ same => .pure ⟨same,alike⟩
  unfold Sizigy.deliverReply
  split
  · split
    · exact alike.publishReply c r.fd _
    · exact .lift .crashed
  · split
    · exact .lift .crashed
    · split
      · split
        · exact alike.retainedReply c r.fd _ _
        · exact plain _
      · exact plain _

theorem replyHandler (alike : Alike b b') (c : Nat) :
    (replyHandler env b c).Lockstep Paired (Sizigy.replyHandler (holding env junk) b' c) := by
  have same : ((b'.client.cell c).reply).map blank = ((b.client.cell c).reply).map blank :=
    congrArg Client.reply (alike.cells c)
  unfold Sizigy.replyHandler
  cases pending : (b.client.cell c).reply with
  | none =>
    rw [pending,Option.map_none,Option.map_eq_none_iff] at same
    rw [same]
    exact .pure ⟨rfl,alike⟩
  | some r =>
    rw [pending] at same
    obtain ⟨r',pending',blank'⟩ := Option.map_eq_some_iff.mp same
    have delivered : (Sizigy.deliverReply env b c r).Lockstep Paired
        (Sizigy.deliverReply (holding env junk) b' c r') := by
      rw [← deliverReply_blank _ b' c r',blank',deliverReply_blank]
      exact alike.deliverReply c r
    rw [pending']
    refine delivered.bind ?_
    rintro ⟨ret,b₁⟩ ⟨ret',b₁'⟩ ⟨same',alike₁⟩
    have freed : Alike (b₁.setClient c _) (b₁'.setClient c _) :=
      alike₁.edit c (fun k => { k with reply := none, ctxHandler := .request }) fun _ => rfl
    exact .pure ⟨same',freed.modEpoll c .epollin⟩

theorem requestHandler (alike : Alike b b') (c : Nat)
    (names : NamesTopic (requestHandler env b c).events) :
    (requestHandler env b c).Lockstep Paired (Sizigy.requestHandler (holding env junk) b' c) := by
  unfold Sizigy.requestHandler
  rw [alike.kernel,alike.fd]
  refine (Exec.Lockstep.lift (.refl _)).bind ?_
  rintro ⟨packet,s⟩ ⟨packet',s'⟩ ⟨same,received⟩
  obtain ⟨rfl,rfl⟩ := Prod.mk.inj same
  have stored := alike.setKernel (·.setSocket (b.fd c) s')
  cases packet' with
  | none => exact .pure ⟨rfl,stored.awaitRequest (b.fd c) c⟩
  | some packet =>
    obtain ⟨opcode,buffer⟩ := packet
    rw [requestHandler_events received] at names
    dsimp only
    cases decoded : (unpackPacket opcode buffer).1 with
    | none => exact .pure ⟨rfl,stored⟩
    | some pkt =>
      rw [decoded] at names
      refine stored.serveRequest (unpackPacket_decodable decoded) fun subscribe => names c (some pkt) ?_
      subst subscribe
      change _ ∈ (Sizigy.serveRequest _ _ _ (Command.ctype .subscribe) _).events
      rw [serveRequest_events]
      exact List.mem_singleton.mpr rfl

theorem alloc (alike : Alike b b') (k : Client) :
    Alike { b with client := b.client.alloc k } { b' with client := b'.client.alloc k } where
  topics := alike.topics
  clients := alike.clients
  topic := alike.topic
  message := alike.message
  kernel := alike.kernel
  next := congrArg (· + 1) alike.next
  cells p := by
    by_cases new : p = b.client.next
    · have new' : p = b'.client.next := new.trans alike.next.symm
      have left : (b.client.alloc k).cell p = k := new ▸ Heap.alloc_new _ _
      have right : (b'.client.alloc k).cell p = k := new' ▸ Heap.alloc_new _ _
      exact congrArg Uninitialised.visible (right.trans left.symm)
    · have left : (b.client.alloc k).cell p = b.client.cell p := Heap.alloc_old _ _ p new
      have right : (b'.client.alloc k).cell p = b'.client.cell p := Heap.alloc_old _ _ p (alike.next ▸ new)
      change visible ((b'.client.alloc k).cell p) = visible ((b.client.alloc k).cell p)
      rw [left,right]
      exact alike.cells p

theorem acceptHandler (alike : Alike b b') (server : Nat) (accepted : Accepted) :
    Alike (acceptHandler env b server accepted).2 (Sizigy.acceptHandler (holding env junk) b' server accepted).2 := by
  cases accepted with
  | refused => exact alike
  | lost fd => exact alike.setKernel (·.accept fd .stray ⟨[],.quiet⟩)
  | taken fd s =>
    have joined := ((alike.setKernel (·.accept fd (.client b.client.next) s)).alloc
      ⟨.online,configKeepalive,env.now,fd,.request,env.randomName,none,none⟩).setKernel
      (·.addEpoll fd b.client.next)
    have armed := joined.modEpoll server .epollin
    simp only [Sizigy.acceptHandler,alike.next]
    exact armed

theorem checkClientStatus (alike : Alike b b') (kv : CString × Nat) :
    (checkClientStatus (holding env junk) b' kv).1 = (Sizigy.checkClientStatus env b kv).1 ∧
      Alike (Sizigy.checkClientStatus env b kv).2 (Sizigy.checkClientStatus (holding env junk) b' kv).2 := by
  have status := alike.field Client.status (fun _ => rfl) kv.2
  have last := alike.field Client.lastActionTime (fun _ => rfl) kv.2
  have keepalive := alike.field Client.keepalive (fun _ => rfl) kv.2
  have fd := alike.field Client.fd (fun _ => rfl) kv.2
  have closed := (alike.setKernel (·.close (b.client.cell kv.2).fd)).edit kv.2
    (fun k => { k with status := .offline }) fun _ => rfl
  have now : (holding env junk).now = env.now := rfl
  simp only [Sizigy.checkClientStatus,status,last,keepalive,fd,now]
  split
  · exact ⟨rfl,closed⟩
  · exact ⟨rfl,alike⟩

end Alike

/-- Two walks over one map stay in step as long as their callbacks do. -/
theorem iterate_lockstep (related : σ → τ → Prop) {f : σ → K × V → Status × σ} {g : τ → K × V → Status × τ}
    (keeps : ∀ s s' kv, related s s' → (g s' kv).1 = (f s kv).1 ∧ related (f s kv).2 (g s' kv).2)
    (t : Probing.Table K V) (pair : related s s') : related (iterateEntries f t s).2 (iterateEntries g t s').2 := by
  induction t generalizing s s' with
  | nil => exact pair
  | cons entry t ih =>
    cases entry with
    | none => exact ih pair
    | some kv =>
      have next := keeps s s' kv pair
      simp only [iterateEntries]
      generalize f s kv = left at next
      generalize g s' kv = right at next
      obtain ⟨status,s₁⟩ := left
      obtain ⟨status',s₁'⟩ := right
      obtain ⟨rfl,pair₁⟩ := next
      cases status' with
      | ok => exact ih pair₁
      | err => exact pair₁

namespace Alike

theorem keepaliveSweep (alike : Alike b b') :
    Alike (keepaliveSweep env b) (Sizigy.keepaliveSweep (holding env junk) b') := by
  unfold Sizigy.keepaliveSweep hashmapIterate2
  rw [alike.clients]
  split
  · exact alike
  · exact iterate_lockstep Alike (fun _ _ kv pair => pair.checkClientStatus kv) _ alike

theorem workerEvent (alike : Alike b b') (w : Worker) (fd : Fd) (readiness : Readiness)
    (names : NamesTopic (workerEvent env w b fd readiness).events) :
    (workerEvent env w b fd readiness).Lockstep Alike (Sizigy.workerEvent (holding env junk) w b' fd readiness) := by
  unfold Sizigy.workerEvent
  rw [alike.kernel]
  split
  · exact .pure alike
  next r registered =>
    have disarmed := alike.setKernel (·.disarm fd)
    simp only [closeSockets_eq,disarmed.field Client.ctxHandler (fun _ => rfl)]
    split
    · exact .pure (disarmed.setKernel _)
    next ready =>
      split
      · exact .pure disarmed
      next apart =>
        split
        · exact .pure (disarmed.acceptHandler _ _)
        next ctx =>
          have step : Sizigy.workerEvent env w b fd readiness =
              (do return (← Sizigy.requestHandler env (b.setKernel (·.disarm fd)) r.data).2) := by
            simp only [Sizigy.workerEvent,registered,ready,apart,ctx,if_false]
          rw [step,Exec.bind_silent _ _ fun _ => rfl] at names
          exact (disarmed.requestHandler r.data names).bind fun _ _ pair => .pure pair.2
        · exact (disarmed.replyHandler _).bind fun _ _ pair => .pure pair.2

/-- Every action goes on alike, unless it handles a SUBSCRIBE without a topic. -/
theorem perform (alike : Alike b b') (action : Action) (names : NamesTopic (perform env b action).events) :
    (perform env b action).Lockstep Alike (Machine.perform (holding env junk) b' action) := by
  cases action with
  | arrive fd s => exact .pure (alike.setKernel _)
  | event w fd readiness => exact alike.workerEvent w fd readiness names
  | sweep => exact .pure alike.keepaliveSweep
  | disconnect c =>
    have closed := alike.setKernel (·.close (b.fd c))
    simp only [Machine.perform,disconnectHandler,closeSockets_eq,alike.fd]
    exact .pure closed

theorem enabled (alike : Alike b b') (enabled : Enabled b action) : Enabled b' action := by
  cases action with
  | arrive => trivial
  | event w fd readiness =>
    unfold Enabled FreshFd
    rw [alike.kernel]
    exact enabled
  | sweep => trivial
  | disconnect c =>
    rw [Enabled,alike.kernel,alike.fd]
    exact enabled

end Alike

/-- All that a step is given but the memory of a new reply. -/
def given (label : Label) : Env × Action := (holding label.env none,label.action)

theorem given_env (same : given label' = given label) :
    label'.env = holding label.env label'.env.junkRetained ∧ label'.action = label.action := by
  obtain ⟨env,action⟩ := Prod.mk.inj same
  have restored := congrArg (holding · label'.env.junkRetained) env
  exact ⟨restored,action⟩

theorem performed_alike (alike : Alike b b') (names : NamesTopic label.events) (performed : Performed b label next)
    (performed' : Performed b' label' next') (same : given label' = given label) :
    label'.events = label.events ∧ Alike next next' := by
  obtain ⟨env,action⟩ := given_env same
  have step : (perform label.env b label.action).Lockstep Alike (perform label'.env b' label'.action) := by
    rw [env,action]
    exact alike.perform label.action (performed.events ▸ names)
  obtain ⟨last,outcome,pair⟩ := step.outcome.returned_iff performed.outcome
  obtain rfl := Outcome.returned.inj (performed'.outcome.symm.trans outcome)
  exact ⟨performed'.events.symm.trans (step.events.trans performed.events),pair⟩

/-- Two runs that are given the same but for the memory of new replies show the same packets
step by step and will take the same branches, as long as no SUBSCRIBE has an empty topic. One
more action shows the same in both and ends in the same way, also when it does not return. -/
theorem replies_independent
    (run : Run (fun _ b label b' => NamesTopic label.events ∧ Performed b label b') (startServer fd) past b)
    (run' : Run (fun _ b label b' => Performed b label b') (startServer fd) past' b')
    (same : past'.map given = past.map given) :
    past'.map Label.events = past.map Label.events ∧ (∀ c, upcoming b' c = upcoming b c) ∧
      ∀ env action junk, NamesTopic (perform env b action).events →
        (perform env b action).Lockstep (fun _ _ => True) (perform (holding env junk) b' action) := by
  obtain ⟨shown,alike⟩ := run.lockstep Alike given Label.events (Alike.refl _)
    (fun _ _ _ _ _ _ _ _ taken taken' pair same => performed_alike pair taken.1 taken.2 taken' same) run' same
  refine ⟨shown,alike.upcoming,fun env action junk names => ?_⟩
  have step : (perform env b action).Lockstep Alike (perform (holding env junk) b' action) :=
    alike.perform action names
  exact ⟨step.events,step.outcome.imp fun _ _ _ => trivial⟩

theorem trace_given (b : Broker) (script : List (Env × Action)) :
    (trace b script).map given = script.map fun step => (holding step.1 none,step.2) := by
  induction script generalizing b with
  | nil => rfl
  | cons step rest ih =>
    rw [trace,List.map_cons,ih]
    rfl

def emptySubscribe : Event → Bool
  | .call .subscribe _ (some (.subscribe pkt)) => pkt.topicLen = 0
  | _ => false

theorem namesTopic_of_none (none : events.any emptySubscribe = false) : NamesTopic events := by
  intro c ptr called pkt stored empty
  subst stored
  have found : events.any emptySubscribe = true :=
    List.any_eq_true.mpr ⟨_,called,by simp [emptySubscribe,empty]⟩
  exact Bool.false_ne_true (none.symm.trans found)

def turn (accepted : Accepted) (fd : Fd) : Action := .event ⟨fun c => 64 + 16 * c,6,accepted⟩ fd .ready

/-- The client at descriptor 4 leaves a message on the topic `a`. Then the one at descriptor 5
sends a packet, while the memory for its reply holds a pointer or none. -/
def answered (packet : Arrival) (junk : Option Nat) : List (Env × Action) :=
  [(plainEnv,turn (.taken 4 ⟨[.bytes 0x30 [0,0,0,16,0,1,0,0,0,1,0,1,0,97,98]],.quiet⟩) 3),
    (plainEnv,turn (.taken 5 ⟨[packet],.quiet⟩) 3),
    (plainEnv,turn .refused 4),
    (plainEnv,turn .refused 4),
    (holding plainEnv junk,turn .refused 5),
    (plainEnv,turn .refused 5)]

theorem answered_given (packet : Arrival) (junk : Option Nat) :
    (trace (startServer 3) (answered packet junk)).map given =
      (trace (startServer 3) (answered packet none)).map given := by
  rw [trace_given,trace_given]
  rfl

/-- A PINGREQ is answered the same whether the memory of its reply held a pointer or not. -/
theorem pingreq_independent :
    Run (fun _ b label b' => NamesTopic label.events ∧ Performed b label b') (startServer 3)
      (trace (startServer 3) (answered (.bytes 0xC0 [0,0,0,8,0,0,0]) none))
      (follow (startServer 3) (answered (.bytes 0xC0 [0,0,0,8,0,0,0]) none)) ∧
    (trace (startServer 3) (answered (.bytes 0xC0 [0,0,0,8,0,0,0]) (some 0))).map Label.events =
      (trace (startServer 3) (answered (.bytes 0xC0 [0,0,0,8,0,0,0]) none)).map Label.events := by
  have run := follow_run (startServer 3) (answered (.bytes 0xC0 [0,0,0,8,0,0,0]) none) (by decide +kernel)
  have run' := follow_run (startServer 3) (answered (.bytes 0xC0 [0,0,0,8,0,0,0]) (some 0)) (by decide +kernel)
  have checked : (trace (startServer 3) (answered (.bytes 0xC0 [0,0,0,8,0,0,0]) none)).all
      (fun label => !label.events.any emptySubscribe) = true := by decide +kernel
  have calm : Run (fun _ b label b' => NamesTopic label.events ∧ Performed b label b') _ _ _ :=
    run.restrict fun label member => namesTopic_of_none (by simpa using List.all_eq_true.mp checked label member)
  exact ⟨calm,(replies_independent calm run' (answered_given _ _)).1⟩

/-- A SUBSCRIBE without a topic is followed by another client's message in one run only. -/
theorem subscribe_depends : ∃ past past' b b',
    Run (fun _ b label b' => Performed b label b') (startServer 3) past b ∧
      Run (fun _ b label b' => Performed b label b') (startServer 3) past' b' ∧
      past'.map given = past.map given ∧ past'.map Label.events ≠ past.map Label.events := by
  have run := follow_run (startServer 3) (answered (.bytes 0x80 [0,0,0,8,0,0,0]) none) (by decide +kernel)
  have run' := follow_run (startServer 3) (answered (.bytes 0x80 [0,0,0,8,0,0,0]) (some 0)) (by decide +kernel)
  refine ⟨_,_,_,_,run,run',answered_given _ _,fun same => ?_⟩
  have fewer := congrArg (List.map List.length) same
  rw [List.map_map,List.map_map] at fewer
  exact absurd fewer (by decide +kernel)

end Sizigy.Uninitialised
