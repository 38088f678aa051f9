import Sizigy.Library.PubSub
import Sizigy.Library.Simulation
import Sizigy.Ordering
import Sizigy.RetainedLaw

/-! The broker as a publish/subscribe service. Whatever the interleaving of accepts, requests,
replies, sweeps and closed connections, the packets that the broker writes are those that an
abstract service sends for the same requests, to the descriptors of the same clients and in the
same order. -/
namespace Sizigy.PubSubRefinement

open Machine Conversation Simulation
open ExactlyOnce (subscribeHandler_lists deliverReply_publish)
open Forwarding (arrived ackBuffer_unpacked publishBytes_unpacked retainedBytes_unpacked cstr_of_nulFree)
open PacketCodec (ackLetter publishLetter)
open RetainedLaw (Plain Kept retainedOf)
open Sizigy.Ordering (SameFds)

abbrev Service := PubSub.State Nat CString Publish Ack

abbrev Request := PubSub.Request CString Publish Ack

/-- A message as those get it who subscribe later. -/
def remembered (p : Publish) : Publish := publishLetter p.topic p.message p.qos 1 0

def keptAs (p : Publish) : Option Publish := if p.retain = 0 then none else some (remembered p)

def confirmed (p : Publish) : Option Ack := if p.qos = 1 then some (ackLetter Opcode.puback 0 0) else none

/-- What a dispatched packet asks for. Packets of the other commands are never decoded. -/
def requestOf : Command → Packet → Request
  | .connect,.connect conn => .other (ackLetter Opcode.connack 0 (if conn.idlen = 0 then 1 else 0))
  | .pingreq,_ => .other (ackLetter Opcode.pingresp 0 0)
  | .subscribe,.subscribe sub => .subscribe (cstr sub.topic) (ackLetter Opcode.suback 0 0)
  | .publish,.publish p =>
    if p.topicLen = 0 then .void else .publish (cstr p.topic) p (keptAs p) (confirmed p)
  | _,_ => .void

def called : Event → Option (Nat × Request)
  | .call command c (some pkt) => some (c,requestOf command pkt)
  | _ => none

def written : Event → Option (Fd × List UInt8)
  | .publish _ fd _ bytes => some (fd,bytes)
  | .reply fd _ bytes => some (fd,bytes)
  | .call .. => none

/-- The bytes decode to what was to be sent, wherever they arrive. -/
def Carries : PubSub.Sent Publish Ack → List UInt8 → Prop
  | .ack ack,bytes => ∀ behind, (unpackAck (arrived bytes behind)).1 = ack
  | .letter p,bytes => ∀ behind, (unpackPublish (arrived bytes behind)).1 = p

/-- A packet to the descriptor of the client it is for. -/
def Reads (b : Broker) (sent : Nat × PubSub.Sent Publish Ack) (event : Fd × List UInt8) : Prop :=
  sent.1 < b.client.next ∧ b.fd sent.1 = event.1 ∧ Carries sent.2 event.2

/-- A SUBSCRIBE has a topic, and a PUBLISH is sized correctly and made of C strings. -/
def WellFormed : Packet → Prop
  | .subscribe sub => sub.topicLen ≠ 0
  | .publish p => Plain p
  | _ => True

structure Orderly (label : Label) : Prop where
  memory : label.env.calloc = fun _ => true
  wellFormed : ∀ command c pkt, .call command c (some pkt) ∈ label.events → WellFormed pkt

/-- The retained message that a pending SUBACK points to, as long as it is not freed. -/
inductive Captured (messages : Heap Message) : Option Nat → Option Publish → Prop where
  | none : Captured messages none none
  | some (less : m < messages.next) (stored : (messages.cell m).live = true → ∃ p, Plain p ∧
      messages.cell m = { createMessage p with retained := 1 } ∧ letter = some (remembered p)) :
    Captured messages (some m) letter

/-- A pending reply, and what the service has to do for the client. -/
inductive Owes (messages : Heap Message) (fd : Fd) :
    Option Reply → Option (PubSub.Duty CString Publish Ack) → Prop where
  | nothing : Owes messages fd none none
  | ack (other : opcode ≠ Opcode.publish) (alone : opcode ≠ Opcode.suback) :
    Owes messages fd (some ⟨opcode,fd,.payload (ackBuffer env opcode rc),retained⟩)
      (some (.acknowledge (ackLetter opcode 0 rc) none))
  | suback (captured : Captured messages retained letter) :
    Owes messages fd (some ⟨Opcode.suback,fd,.payload (ackBuffer env Opcode.suback 0),retained⟩)
      (some (.acknowledge (ackLetter Opcode.suback 0 0) letter))
  | publish (plain : Plain p) :
    Owes messages fd (some ⟨Opcode.publish,fd,.publish p,retained⟩)
      (some (.deliver (cstr p.topic) p (keptAs p) (confirmed p)))

variable {env : Env} {b b' b₁ : Broker} {c t : Nat} {s : Service} {label : Label} {past : List Label}
variable {p : Publish} {fd : Fd} {messages messages' : Heap Message}

/-- Messages are only added and freed. -/
def Faded (messages messages' : Heap Message) : Prop :=
  ∀ m, m < messages.next → m < messages'.next ∧
    ((messages'.cell m).live = true → messages'.cell m = messages.cell m)

theorem Faded.refl (messages : Heap Message) : Faded messages messages := fun _ less => ⟨less,fun _ => rfl⟩

theorem retainMessage_faded (b : Broker) (t : Nat) (msg : Publish) :
    Faded b.message (retainMessage b t msg).message := by
  intro m less
  have added := Heap.alloc_old b.message { createMessage msg with retained := 1 } m (Nat.ne_of_lt less)
  unfold retainMessage
  cases (b.topic.cell t).retained with
  | none => exact ⟨Nat.lt_succ_of_lt less,fun _ => added⟩
  | some old =>
    refine ⟨Nat.lt_succ_of_lt less,fun live => ?_⟩
    by_cases own : m = old
    · subst own
      simp [destroyMessage,Broker.setTopic] at live
    · have same := Heap.modify_other (b.message.alloc { createMessage msg with retained := 1 }) old m
        (fun k => { k with live := false }) own
      exact same.trans added

theorem published_faded (env : Env) (b : Broker) (t : Nat) (p : Publish) :
    Faded b.message (published env b t p).message := by
  unfold published
  rw [(touchAll_same env _ _).message]
  split
  · exact Faded.refl _
  · exact retainMessage_faded b t p

theorem Captured.faded (captured : Captured messages retained letter) (faded : Faded messages messages') :
    Captured messages' retained letter := by
  cases captured with
  | none => exact .none
  | some less stored =>
    obtain ⟨less',same⟩ := faded _ less
    refine .some less' fun live => ?_
    have before := same live
    rw [before] at live ⊢
    exact stored live

theorem Owes.faded (owes : Owes messages fd reply duty) (faded : Faded messages messages') :
    Owes messages' fd reply duty := by
  cases owes with
  | nothing => exact .nothing
  | ack other alone => exact .ack other alone
  | suback captured => exact .suback (captured.faded faded)
  | publish plain => exact .publish plain

/-- The topics hold what the service knows of the names. -/
structure Stores (b : Broker) (s : Service) : Prop where
  shelved : Shelved b
  subscribers : ∀ name, s.subscribers name = (subscribersOf b name).map Subscription.client
  retained : ∃ held : CString → Option Publish, (∀ name, Kept b name (held name)) ∧
    ∀ name, s.retained name = (held name).map remembered

theorem Stores.congr (stores : Stores b s) (same : SameStore b b') : Stores b' s where
  shelved := stores.shelved.of_same same.sameTopics
  subscribers name := by rw [same_subscribersOf same.sameTopics,stores.subscribers]
  retained := by
    obtain ⟨held,kept,told⟩ := stores.retained
    exact ⟨held,fun name => (kept name).congr (RetainedLaw.same_retainedOf same name) same.message,told⟩

theorem Stores.owe (stores : Stores b s) (c : Nat) (duty : Option (PubSub.Duty CString Publish Ack)) :
    Stores b (s.owe c duty) :=
  ⟨stores.shelved,stores.subscribers,stores.retained⟩

/-- The broker is in a state of the service. -/
structure Serves (b : Broker) (s : Service) : Prop where
  registered : Registered b
  ready : Ready b
  stores : Stores b s
  known : ∀ name, ∀ c ∈ s.subscribers name, c < b.client.next
  owes : ∀ c, c < b.client.next → Owes b.message (b.fd c) (b.client.cell c).reply (s.duty c)
  fresh : ∀ c, b.client.next ≤ c → s.duty c = none

theorem start_serves (server : Fd) : Serves (startServer server) PubSub.State.initial := by
  obtain ⟨shelved,nobody⟩ := empty_shelved (b := startServer server) rfl
  have kept := (RetainedLaw.start_keeps (b := startServer server) rfl).kept
  refine ⟨start_registered server,start_ready server,⟨shelved,fun name => ?_,fun _ => none,kept,fun _ => rfl⟩,nofun,?_,
    fun _ _ => rfl⟩
  · rw [nobody]
    rfl
  · intro c known
    exact .nothing

/-- A client with nothing to be sent is owed nothing. -/
theorem Serves.silent (serves : Serves b s) (known : c < b.client.next) (quiet : (b.client.cell c).reply = none) :
    s.duty c = none := by
  have owes := serves.owes c known
  rw [quiet] at owes
  generalize s.duty c = duty at owes ⊢
  cases owes with
  | nothing => rfl

theorem idle_serves (serves : Serves b s) (registered : Registered b') (ready : Ready b') (idle : Idle b b') :
    Serves b' s where
  registered := registered
  ready := ready
  stores := serves.stores.congr idle.store
  known name c member := (serves.known name c member).trans_le idle.next
  owes c known := by
    rw [idle.store.message]
    by_cases old : c < b.client.next
    · have unmoved := idle.old c old
      have fd : b'.fd c = b.fd c := unmoved.fd
      rw [unmoved.reply,fd]
      exact serves.owes c old
    · have new := Nat.not_lt.mp old
      rw [(idle.new c new known).1,serves.fresh c new]
      exact .nothing
  fresh c new := serves.fresh c (idle.next.trans new)

variable {s' : Service} {k : Kernel} {pkt : Packet} {command : Command}

/-- A step for one client. -/
theorem touched_serves (serves : Serves b s) (registered : Registered b') (ready : Ready b')
    (touched : Touched c { b with kernel := k } b') (inside : c < b.client.next) (stores : Stores b' s')
    (duties : s'.duty = Function.update s.duty c duty)
    (members : ∀ name, ∀ d ∈ s'.subscribers name, d = c ∨ d ∈ s.subscribers name)
    (faded : Faded b.message b'.message) (own : Owes b'.message (b.fd c) (b'.client.cell c).reply duty) :
    Serves b' s' where
  registered := registered
  ready := ready
  stores := stores
  known name d member := by
    rw [touched.next]
    rcases members name d member with rfl | before
    · exact inside
    · exact serves.known name d before
  owes d known := by
    rw [duties,touched.fd]
    by_cases same : d = c
    · subst same
      rw [Function.update_self]
      exact own
    · rw [Function.update_of_ne same,touched.reply d same]
      rw [touched.next] at known
      exact (serves.owes d known).faded faded
  fresh d new := by
    rw [touched.next] at new
    rw [duties,Function.update_of_ne (Nat.ne_of_gt (inside.trans_le new))]
    exact serves.fresh d new

/-- The reply that a request leaves, unless it is a SUBSCRIBE. -/
theorem asked_owes (silent : s.duty c = none) (wellFormed : WellFormed pkt) (other : command ≠ .subscribe)
    (asked : Asked env fd none command pkt reply) :
    ∃ duty, s.ask c (requestOf command pkt) = s.owe c duty ∧ Owes messages fd reply duty := by
  cases asked with
  | connect => exact ⟨_,rfl,.ack (by decide) (by decide)⟩
  | pingreq => exact ⟨_,rfl,.ack (by decide) (by decide)⟩
  | subscribe => exact absurd rfl other
  | publish topic =>
    refine ⟨_,?_,.publish wellFormed⟩
    rw [requestOf,if_neg topic]
    rfl
  | nothing empty =>
    refine ⟨none,?_,.nothing⟩
    rw [requestOf,if_pos empty,PubSub.State.owe,Function.update_eq_self_iff.mpr silent.symm]
    rfl

theorem handler_store (decodable : Decodable (Command.ctype command)) (other : command ≠ .subscribe)
    (done : command.handler env b c = .returned (rc,b')) : SameStore b b' := by
  rcases decodable_command decodable with rfl | rfl | rfl | rfl
  · exact connectHandler_store done
  · exact publishHandler_store done
  · exact pingreqHandler_store done
  · exact absurd rfl other

/-- A SUBSCRIBE captures the retained message of its topic. -/
theorem captured_kept (kept : Kept b name held) : Captured b.message (retainedOf b name) (held.map remembered) := by
  cases held with
  | none =>
    rw [show retainedOf b name = none from kept]
    exact .none
  | some p =>
    obtain ⟨plain,_,m,retained,less,stored⟩ := kept
    rw [retained]
    exact .some less fun _ => ⟨p,plain,stored,rfl⟩

theorem subscribe_serves (serves : Serves b s) (registered : Registered (awaitReply b₁ (b.fd c) c))
    (ready : Ready (awaitReply b₁ (b.fd c) c)) (memory : env.calloc = fun _ => true) (topic : sub.topicLen ≠ 0)
    (serving : Serving b c .request k) (decodable : Decodable (Command.ctype .subscribe))
    (handled : subscribeHandler env (linked env { b with kernel := k } c (.subscribe sub)) c = .returned (rc,b₁)) :
    Serves (awaitReply b₁ (b.fd c) c) (s.ask c (.subscribe (cstr sub.topic) (ackLetter Opcode.suback 0 0))) := by
  have begun : SameStore b (linked env { b with kernel := k } c (.subscribe sub)) := ⟨rfl,rfl,rfl⟩
  have armed : SameStore b₁ (awaitReply b₁ (b.fd c) c) := ⟨rfl,rfl,rfl⟩
  have stores := serves.stores.congr begun
  have stored := linked_ptr env { b with kernel := k } c (.subscribe sub)
  obtain ⟨shelved,_,lists⟩ := subscribeHandler_lists stores.shelved memory stored topic handled
  obtain ⟨message,retained,pending⟩ := RetainedLaw.subscribeHandler_captured stores.shelved memory stored topic handled
  obtain ⟨held,kept,told⟩ := stores.retained
  have touched := request_touched decodable handled
  rw [← awaitReply_reply b₁ (b.fd c) c] at pending
  refine touched_serves serves registered ready touched serving.known
    (Stores.congr ⟨shelved,fun name => ?_,held,?_,told⟩ armed)
    rfl (fun name d member => ?_) (fun m less => ?_) ?_
  · rw [lists name]
    by_cases own : name = cstr sub.topic
    · subst own
      simp [PubSub.State.ask,PubSub.State.owe,stores.subscribers]
    · simp [PubSub.State.ask,PubSub.State.owe,stores.subscribers,own]
  · exact fun name => (kept name).congr (retained name) message
  · by_cases own : name = cstr sub.topic
    · subst own
      simpa [PubSub.State.ask,PubSub.State.owe] using member
    · right
      simpa [PubSub.State.ask,PubSub.State.owe,own] using member
  · rw [armed.message,message]
    exact ⟨less,fun _ => rfl⟩
  · rw [pending,armed.message,message,told]
    rw [(linked_local env { b with kernel := k } c (.subscribe sub)).fd]
    exact .suback (captured_kept (kept _))

theorem request_serves (serves : Serves b s) (registered : Registered (awaitReply b₁ (b.fd c) c))
    (ready : Ready (awaitReply b₁ (b.fd c) c)) (memory : env.calloc = fun _ => true) (wellFormed : WellFormed pkt)
    (serving : Serving b c .request k) (decodable : Decodable (Command.ctype command))
    (handled : command.handler env (linked env { b with kernel := k } c pkt) c = .returned (rc,b₁)) :
    Serves (awaitReply b₁ (b.fd c) c) (s.ask c (requestOf command pkt)) := by
  have quiet : (b.client.cell c).reply = none := serves.ready c serving.known serving.handler
  have stored := linked_ptr env { b with kernel := k } c pkt
  have asked := handler_asked decodable stored handled
  rw [linked_reply,quiet,(linked_local env { b with kernel := k } c pkt).fd,← awaitReply_reply b₁ (b.fd c) c] at asked
  by_cases subscribe : command = .subscribe
  · subst subscribe
    generalize answer : ((awaitReply b₁ (b.fd c) c).client.cell c).reply = reply at asked
    cases asked with
    | subscribe => exact subscribe_serves serves registered ready memory wellFormed serving decodable handled
  · obtain ⟨duty,asks,owes⟩ := asked_owes (serves.silent serving.known quiet) wellFormed subscribe asked
    have begun : SameStore b (linked env { b with kernel := k } c pkt) := ⟨rfl,rfl,rfl⟩
    have armed : SameStore b₁ (awaitReply b₁ (b.fd c) c) := ⟨rfl,rfl,rfl⟩
    have same := (begun.trans (handler_store decodable subscribe handled)).trans armed
    rw [asks]
    refine touched_serves serves registered ready (request_touched decodable handled) serving.known
      ((serves.stores.congr same).owe c duty) rfl (fun _ _ member => .inr member) ?_ owes
    rw [same.message]
    exact Faded.refl _

/-- A forwarded PUBLISH decodes to the one that was received. -/
theorem plain_carried (env : Env) (plain : Plain p) : Carries (.letter p) (publishBytes env p) := by
  intro behind
  have topic : strlen (cstr p.topic) = p.topicLen.toNat := by
    rw [strlen,cstr_of_nulFree plain.topicFree,plain.topicLength]
  have message : strlen (cstr p.message) = p.messageLen.toNat := by
    rw [strlen,cstr_of_nulFree plain.messageFree,plain.messageLength]
  have short := p.topicLen.toNat_lt
  have small := p.messageLen.toNat_lt
  rw [publishBytes_unpacked env p behind (by omega) (by omega) (by rw [topic,message]; exact plain.inside),topic,
    message,
    UInt16.ofNat_toNat,UInt32.ofNat_toNat,cstr_of_nulFree plain.topicFree,cstr_of_nulFree plain.messageFree]

/-- A retained message is sent as those remember it who published it. -/
theorem remembered_carried {r : Message} (env : Env) (plain : Plain p)
    (stored : r = { createMessage p with retained := 1 }) :
    Carries (.letter (remembered p)) (retainedBytes env r) := by
  intro behind
  subst stored
  have topicLe := strlen_cstr_le p.topic
  have payloadLe := strlen_cstr_le p.message
  have short := p.topicLen.toNat_lt
  have := plain.topicLength
  have := plain.messageLength
  have := plain.inside
  have := plain.small
  have limit : onemb * 2 + headlen < 2 ^ 32 - 2 := by decide
  rw [retainedBytes_unpacked _ behind (show strlen (cstr p.topic) < 2 ^ 16 by omega)
    (show 16 + strlen (cstr p.topic) + strlen (cstr p.message) < 2 ^ 32 by omega)]
  show publishLetter (cstr p.topic).bytes (cstr p.message).bytes p.qos 1 0 = _
  rw [cstr_of_nulFree plain.topicFree,cstr_of_nulFree plain.messageFree,remembered]

theorem deliverReply_alone (env : Env) (b : Broker) (c : Nat) (opcode : UInt8) (fd : Fd) (payload : Buffer)
    (retained : Option Nat) (other : opcode ≠ Opcode.publish)
    (alone : opcode = Opcode.suback → retained = none) :
    ∃ ret, deliverReply env b c ⟨opcode,fd,.payload payload,retained⟩ =
      ⟨[.reply fd (b.kernel.connection fd) payload.bytes],.returned (ret,b)⟩ := by
  unfold deliverReply
  simp only [other,if_false]
  cases retained with
  | none => exact ⟨_,rfl⟩
  | some m =>
    have apart : opcode ≠ Opcode.suback := fun suback => absurd (alone suback) (by simp)
    simp only [apart,if_false]
    exact ⟨_,rfl⟩

theorem answer_owed (owed : s.duty c = some duty) :
    s.answer c = ((s.perform c duty).1.owe c none,(s.perform c duty).2) := by
  simp [PubSub.State.answer,owed]

/-- After the delivery of an acknowledgement nothing is owed to its client, and all else is as it was. -/
theorem acknowledged_serves (serves : Serves b s) (registered : Registered (finishReply b₁ c))
    (ready : Ready (finishReply b₁ c)) (serving : Serving b c .reply k) (same : SameStore b b₁)
    (touched : Touched c { b with kernel := k } (finishReply b₁ c)) : Serves (finishReply b₁ c) (s.owe c none) := by
  have finished : SameStore b₁ (finishReply b₁ c) := ⟨rfl,rfl,rfl⟩
  have store := same.trans finished
  refine touched_serves serves registered ready touched serving.known ((serves.stores.congr store).owe c none) rfl
    (fun _ _ member => .inr member) ?_ ?_
  · rw [store.message]
    exact Faded.refl _
  · simp only [finishReply,Broker.setKernel_client,Broker.setClient_same]
    exact .nothing

/-- A PUBLISH changes the retained message of its topic at most. -/
theorem published_stores (stores : Stores b s) (found : b.topics.lookup (cstr p.topic) = some t) (plain : Plain p) :
    Stores (published env b t p)
      { s with retained := Function.update s.retained (cstr p.topic) ((keptAs p).or (s.retained (cstr p.topic))) } := by
  have same := (published_same env b t p).1
  obtain ⟨held,kept,told⟩ := stores.retained
  refine ⟨stores.shelved.of_same same,fun name => ?_,_,
    fun name => RetainedLaw.published_kept stores.shelved kept found plain name,
    fun name => ?_⟩
  · rw [same_subscribersOf same]
    exact stores.subscribers name
  · by_cases own : name = cstr p.topic
    · subst own
      by_cases retain : p.retain = 0
      · simp [keptAs,retain,told]
      · simp [keptAs,retain]
    · simp [own,told]

/-- What is written for the subscriptions of a topic. -/
theorem publications_read (known : ∀ sub ∈ subs, sub.client < b'.client.next) (fds : ∀ c, b'.fd c = b.fd c)
    (carries : Carries (.letter p) bytes) :
    List.Forall₂ (Reads b') ((subs.map Subscription.client).map fun d => (d,.letter p))
      ((publications b t bytes subs).filterMap written) := by
  have shown : (publications b t bytes subs).filterMap written = subs.map fun sub => (b.fd sub.client,bytes) := by
    simp [publications,List.filterMap_map,Function.comp_def,written]
  rw [shown,List.map_map,List.forall₂_map_left_iff,List.forall₂_map_right_iff,List.forall₂_same]
  exact fun sub member => ⟨known sub member,fds _,carries⟩

theorem puback_read (env : Env) (b : Broker) (known : c < b'.client.next) (own : b'.fd c = fd) :
    List.Forall₂ (Reads b') ((confirmed p).toList.map fun ack => (c,.ack ack))
      ((pubackTo env b fd p).filterMap written) := by
  unfold confirmed pubackTo
  by_cases qos : p.qos = 1
  · rw [if_pos qos,if_pos qos]
    exact .cons ⟨known,own,ackBuffer_unpacked Opcode.puback 0⟩ .nil
  · rw [if_neg qos,if_neg qos]
    exact .nil

theorem publish_answered (serves : Serves b s) (registered : Registered (finishReply b₁ c))
    (ready : Ready (finishReply b₁ c)) (memory : env.calloc = fun _ => true) (serving : Serving b c .reply k)
    (owed : s.duty c = some (.deliver (cstr p.topic) p (keptAs p) (confirmed p))) (plain : Plain p)
    (touched : Touched c { b with kernel := k } (finishReply b₁ c))
    (delivered : (publishReply env { b with kernel := k } c (b.fd c) p).outcome = .returned (rc,b₁)) :
    Serves (finishReply b₁ c) (s.answer c).1 ∧ List.Forall₂ (Reads (finishReply b₁ c)) (s.answer c).2
      ((publishReply env { b with kernel := k } c (b.fd c) p).events.filterMap written) := by
  have begun : SameStore b { b with kernel := k } := ⟨rfl,rfl,rfl⟩
  have stores := serves.stores.congr begun
  obtain ⟨t,b₂,found,shown,rfl⟩ := publishReply_returned delivered
  obtain ⟨shelved,here,lists⟩ := findTopic_shelved stores.shelved memory found
  have message := findTopic_message found
  have fds (d : Nat) : b₂.fd d = b.fd d := (findTopic_local (d := d) found).fd d
  have stores : Stores b₂ s := by
    obtain ⟨held,kept,told⟩ := stores.retained
    refine ⟨shelved,fun name => by rw [lists name]; exact stores.subscribers name,held,fun name => ?_,told⟩
    exact (kept name).congr (RetainedLaw.findTopic_retainedOf stores.shelved memory found name) message
  have finished : SameStore (published env b₂ t p)
    (finishReply (updateClientLastAction env (published env b₂ t p) c) c) := ⟨rfl,rfl,rfl⟩
  have members := stores.subscribers (cstr p.topic)
  rw [subscribersOf_some here] at members
  rw [answer_owed owed]
  refine ⟨?_,?_⟩
  · refine touched_serves serves registered ready touched serving.known
      (((published_stores stores here plain).congr finished).owe c none) rfl (fun _ _ member => .inr member) ?_ ?_
    · rw [finished.message,← show _ = b.message from message]
      exact published_faded env b₂ t p
    · simp only [finishReply,Broker.setKernel_client,Broker.setClient_same]
      exact .nothing
  · rw [shown,List.filterMap_append]
    refine List.rel_append ?_ (puback_read env b₂ ?_ (touched.fd c))
    · rw [members]
      refine publications_read (fun sub member => ?_) (fun d => (touched.fd d).trans (fds d).symm)
        (plain_carried env plain)
      rw [touched.next]
      exact serves.known (cstr p.topic) _ (members ▸ List.mem_map_of_mem member)
    · rw [touched.next]
      exact serving.known

theorem reply_answered (serves : Serves b s) (registered : Registered (finishReply b₁ c))
    (ready : Ready (finishReply b₁ c)) (memory : env.calloc = fun _ => true) (serving : Serving b c .reply k)
    (pending : (b.client.cell c).reply = some r)
    (delivered : (deliverReply env { b with kernel := k } c r).outcome = .returned (rc,b₁)) :
    Serves (finishReply b₁ c) (s.answer c).1 ∧ List.Forall₂ (Reads (finishReply b₁ c)) (s.answer c).2
      ((deliverReply env { b with kernel := k } c r).events.filterMap written) := by
  have touched := (Touched.of_local (deliverReply_local delivered)).trans (finishReply_touched b₁ c)
  have inside : c < (finishReply b₁ c).client.next := by
    rw [touched.next]
    exact serving.known
  have fd : (finishReply b₁ c).fd c = b.fd c := touched.fd c
  have owes := serves.owes c serving.known
  rw [pending] at owes
  generalize owed : s.duty c = duty at owes
  cases owes with
  | @ack opcode env' rc' retained other alone =>
    obtain ⟨ret,shape⟩ := deliverReply_alone env { b with kernel := k } c opcode (b.fd c) (ackBuffer env' opcode rc')
      retained other fun suback => absurd suback alone
    rw [shape] at delivered ⊢
    obtain ⟨_,rfl⟩ := Prod.mk.inj (Outcome.returned.inj delivered)
    rw [answer_owed owed]
    exact ⟨acknowledged_serves serves registered ready serving ⟨rfl,rfl,rfl⟩ touched,
      .cons ⟨inside,fd,ackBuffer_unpacked opcode rc'⟩ .nil⟩
  | @suback retained letter env' captured =>
    rw [answer_owed owed]
    cases captured with
    | none =>
      obtain ⟨ret,shape⟩ := deliverReply_alone env { b with kernel := k } c Opcode.suback (b.fd c)
        (ackBuffer env' Opcode.suback 0) none (by decide) fun _ => rfl
      rw [shape] at delivered ⊢
      obtain ⟨_,rfl⟩ := Prod.mk.inj (Outcome.returned.inj delivered)
      exact ⟨acknowledged_serves serves registered ready serving ⟨rfl,rfl,rfl⟩ touched,
        .cons ⟨inside,fd,ackBuffer_unpacked Opcode.suback 0⟩ .nil⟩
    | @some m _ less stored =>
      change (retainedReply env { b with kernel := k } c (b.fd c) (ackBuffer env' Opcode.suback 0) m).outcome = _
        at delivered
      show _ ∧ List.Forall₂ _ _
        ((retainedReply env { b with kernel := k } c (b.fd c) (ackBuffer env' Opcode.suback 0) m).events.filterMap
          written)
      by_cases live : (b.message.cell m).live = true
      · obtain ⟨p,plain,cell,rfl⟩ := stored live
        obtain ⟨shown,rfl⟩ := retainedReply_returned delivered
        rw [shown]
        exact ⟨acknowledged_serves serves registered ready serving ⟨rfl,rfl,rfl⟩ touched,
          .cons ⟨inside,fd,ackBuffer_unpacked Opcode.suback 0⟩
            (.cons ⟨inside,fd,remembered_carried env plain cell⟩ .nil)⟩
      · rw [retainedReply_freed (b := { b with kernel := k }) fun alive => live alive.2] at delivered
        cases delivered
  | publish plain =>
    rw [deliverReply_publish] at delivered ⊢
    exact publish_answered serves registered ready memory serving owed plain touched delivered

theorem delivered_uncalled (done : (deliverReply env b c r).outcome = .returned (rc,b')) :
    (deliverReply env b c r).events.filterMap called = [] := by
  rw [List.filterMap_eq_nil_iff]
  intro event member
  cases event with
  | call command d pkt => exact absurd member (deliverReply_uncalled done command d pkt)
  | publish => rfl
  | reply => rfl

theorem progress_matched (serves : Serves b s) (registered : Registered b') (memory : env.calloc = fun _ => true)
    (wellFormed : ∀ command c pkt, .call command c (some pkt) ∈ events → WellFormed pkt)
    (progress : Progress env b who events b') :
    SameFds b b' ∧ ∃ moves, Serves b' (play PubSub.State.act s moves).1 ∧
      Matched PubSub.State.act PubSub.Move.request (Reads b') s (events.filterMap called) (events.filterMap written)
        moves := by
  have ready := progress_ready serves.ready progress
  cases progress with
  | idle idle =>
    exact ⟨⟨idle.next,fun p known => (idle.old p known).fd⟩,[],idle_serves serves registered ready idle,.nil⟩
  | @unknown c k pkt serving turn =>
    have touched := unknown_touched env b c k pkt
    have quiet : (b.client.cell c).reply = none := serves.ready c serving.known serving.handler
    refine ⟨⟨le_of_eq touched.next.symm,fun p _ => touched.fd p⟩,[],?_,.nil⟩
    refine touched_serves serves registered ready touched serving.known (serves.stores.congr ⟨rfl,rfl,rfl⟩)
      (Function.update_eq_self c s.duty).symm (fun _ _ member => .inr member) (Faded.refl _) ?_
    rw [awaitReply_reply,linked_reply,serves.silent serving.known quiet]
    rw [show _ = none from quiet]
    exact .nothing
  | @request c k command pkt rc b₁ serving turn decodable handled =>
    have touched := request_touched decodable handled
    refine ⟨⟨le_of_eq touched.next.symm,fun p _ => touched.fd p⟩,[.ask c (requestOf command pkt)],?_,rfl,.nil⟩
    exact request_serves serves registered ready memory (wellFormed command c pkt (List.mem_singleton.mpr rfl)) serving
      decodable handled
  | @reply c k r rc b₁ serving turn pending delivered =>
    have touched := (Touched.of_local (deliverReply_local delivered)).trans (finishReply_touched b₁ c)
    obtain ⟨after,read⟩ := reply_answered serves registered ready memory serving pending delivered
    refine ⟨⟨le_of_eq touched.next.symm,fun p _ => touched.fd p⟩,[.answer c],after,?_,?_⟩
    · rw [delivered_uncalled delivered]
      rfl
    · simpa [play,PubSub.State.act] using read

theorem performed_matched (serves : Serves b s) (orderly : Orderly label) (performed : Performed b label b') :
    SameFds b b' ∧ ∃ moves, Serves b' (play PubSub.State.act s moves).1 ∧
      Matched PubSub.State.act PubSub.Move.request (Reads b') s (label.events.filterMap called)
        (label.events.filterMap written) moves :=
  progress_matched serves (performed_registered serves.registered performed) orderly.memory orderly.wellFormed
    (performed_progress serves.registered performed)

/-- The states and the outputs of a run are matched with moves of the service. -/
theorem run_served
    (run : Run (fun _ b label b' => Orderly label ∧ Performed b label b') (startServer server) past b) :
    ∃ moves, Serves b (play PubSub.State.act .initial moves).1 ∧
      Matched PubSub.State.act PubSub.Move.request (Reads b) .initial
        (past.flatMap fun label => label.events.filterMap called)
        (past.flatMap fun label => label.events.filterMap written) moves := by
  refine run_matched (start_serves server) ?_ run
  rintro _ b label b' s ⟨orderly,performed⟩ serves
  obtain ⟨⟨next,fds⟩,matched⟩ := performed_matched serves orderly performed
  refine ⟨fun sent event read => ?_,matched⟩
  obtain ⟨known,fd,carries⟩ := read
  exact ⟨known.trans_le next,(fds _ known).trans fd,carries⟩

/-- Every run is one of the service: there are moves of the service that take the requests that the run dispatched,
in their order, and that send what the run wrote, packet by packet. At the end the lists of the topics
are those of the service, and a reply is pending where the service has something to do. -/
theorem refines_pubSub
    (run : Run (fun _ b label b' => Orderly label ∧ Performed b label b') (startServer server) past b) :
    ∃ moves : List (PubSub.Move Nat CString Publish Ack),
      moves.filterMap PubSub.Move.request = past.flatMap (fun label => label.events.filterMap called) ∧
      List.Forall₂ (Reads b) (play PubSub.State.act .initial moves).2
        (past.flatMap fun label => label.events.filterMap written) ∧
      (∀ name, (play PubSub.State.act .initial moves).1.subscribers name =
        (subscribersOf b name).map Subscription.client) ∧
      ∀ c, c < b.client.next →
        ((play PubSub.State.act .initial moves).1.duty c = none ↔ (b.client.cell c).reply = none) := by
  obtain ⟨moves,serves,matched⟩ := run_served run
  refine ⟨moves,matched.took,matched.said,serves.stores.subscribers,
    fun c known => ⟨fun silent => ?_,serves.silent known⟩⟩
  have owes := serves.owes c known
  rw [silent] at owes
  generalize (b.client.cell c).reply = reply at owes ⊢
  cases owes with
  | nothing => rfl

instance : DecidablePred Plain := fun p => decidable_of_iff
  (p.topic.length = p.topicLen.toNat ∧ p.message.length = p.messageLen.toNat ∧
    14 + p.topicLen.toNat + p.messageLen.toNat ≤ p.header.size.toNat ∧ p.header.size.toNat ≤ onemb * 2 + headlen ∧
    0 ∉ p.topic ∧ 0 ∉ p.message)
  ⟨fun ⟨topic,message,inside,small,topicFree,messageFree⟩ => ⟨topic,message,inside,small,topicFree,messageFree⟩,
    fun plain => ⟨plain.topicLength,plain.messageLength,plain.inside,plain.small,plain.topicFree,plain.messageFree⟩⟩

instance : DecidablePred WellFormed
  | .connect _ => isTrue trivial
  | .subscribe sub => inferInstanceAs (Decidable (sub.topicLen ≠ 0))
  | .unsubscribe _ => isTrue trivial
  | .publish p => inferInstanceAs (Decidable (Plain p))
  | .ack _ => isTrue trivial

def orderlyEvent : Event → Bool
  | .call _ _ (some pkt) => decide (WellFormed pkt)
  | _ => true

theorem orderly_of (memory : label.env.calloc = fun _ => true) (events : label.events.all orderlyEvent = true) :
    Orderly label where
  memory := memory
  wellFormed command c pkt member := by
    have fine := List.all_eq_true.mp events _ member
    exact of_decide_eq_true fine

theorem trace_env (member : label ∈ trace b script) : label.env ∈ script.map Prod.fst := by
  induction script generalizing b with
  | nil => cases member
  | cons step rest ih =>
    rcases List.mem_cons.mp member with rfl | later
    · exact List.mem_cons_self
    · exact List.mem_cons_of_mem _ (ih later)

/-- A client subscribes to a topic and publishes on it. -/
def echo : List (Env × Action) := Ordering.subscribeScript ++ Ordering.publishScript

/-- It is acknowledged, and told its own message. -/
theorem echo_refines : ∃ b moves,
    Run (fun _ b label b' => Orderly label ∧ Performed b label b') (startServer 3) (trace (startServer 3) echo) b ∧
      (play PubSub.State.act .initial moves).2.length = 2 ∧
      (play PubSub.State.act .initial moves).1.subscribers (cstr [97]) = [1] ∧
      moves.filterMap PubSub.Move.request =
        (trace (startServer 3) echo).flatMap (fun label => label.events.filterMap called) := by
  have run := follow_run (startServer 3) echo (by decide +kernel)
  have events : ∀ label ∈ trace (startServer 3) echo, label.events.all orderlyEvent = true := by decide +kernel
  have orderly (label : Label) (member : label ∈ trace (startServer 3) echo) : Orderly label := by
    refine orderly_of ?_ (events label member)
    have known := trace_env member
    simp only [echo,Ordering.subscribeScript,Ordering.publishScript,List.cons_append,List.nil_append,List.map_cons,
      List.map_nil,List.mem_cons,List.not_mem_nil,or_false,or_self] at known
    rw [known]
    rfl
  obtain ⟨moves,took,sent,lists,_⟩ := refines_pubSub (run.restrict orderly)
  refine ⟨_,moves,run.restrict orderly,?_,?_,took⟩
  · rw [sent.length_eq]
    decide +kernel
  · rw [lists]
    decide +kernel

end Sizigy.PubSubRefinement
