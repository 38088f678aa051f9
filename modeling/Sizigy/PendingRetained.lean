import Sizigy.Conversation
import Sizigy.Delivery
import Sizigy.RetainedStore

/-! Retained messages that a pending SUBACK points to. A SUBSCRIBE stores the message of its
topic in the reply, and a PUBLISH of another client may free it before the reply is sent. As
long as none is delivered in between, the message is there when the reply handler reads it. -/
namespace Sizigy.PendingRetained

open Machine Conversation

variable {env : Env} {b b' : Broker} {c d t m : Nat} {name : CString} {pkt : Subscribe}

/-- The message has not been passed to `destroy_message`. -/
def Alive (b : Broker) (m : Nat) : Prop := m < b.message.next ∧ (b.message.cell m).live = true

/-- A SUBACK for a SUBSCRIBE with a topic waits to be sent, with a retained message. -/
structure Awaiting (b : Broker) (c : Nat) (pkt : Subscribe) (m : Nat) : Prop where
  known : c < b.client.next
  request : (b.client.cell c).ptr = some (.subscribe pkt)
  topic : pkt.topicLen ≠ 0
  pending : ∃ r, (b.client.cell c).reply = some r ∧ r.opcode = Opcode.suback ∧ r.retained = some m

/-- The condition on the delivery of a PUBLISH with the retain flag set: no pending SUBACK
points to the message that its topic retains. -/
def Spares (b : Broker) (c : Nat) : Prop :=
  ∀ r p t d pkt m, (b.client.cell c).reply = some r → r.body = .publish p → p.retain ≠ 0 →
    b.topics.lookup (cstr p.topic) = some t → Awaiting b d pkt m → (b.topic.cell t).retained ≠ some m

def Sparing (b : Broker) (action : Action) : Prop :=
  ∀ c, addressee b action = some c → (b.client.cell c).ctxHandler = .reply → Spares b c

/-- No message was stored or freed, and no topic got the message of another. -/
structure Carried (b b' : Broker) : Prop where
  message : b'.message = b.message
  retained : ∀ t m, (b'.topic.cell t).retained = some m →
    (b.topic.cell t).retained = some m ∧ (b'.topic.cell t).name = (b.topic.cell t).name

theorem Carried.of_store (same : SameStore b b') : Carried b b' :=
  ⟨same.message,fun t m held => by rw [same.topic] at held ⊢; exact ⟨held,rfl⟩⟩

theorem Carried.trans (first : Carried b b') (second : Carried b' b'') : Carried b b'' where
  message := second.message.trans first.message
  retained t m held := by
    obtain ⟨held',name'⟩ := second.retained t m held
    obtain ⟨held'',name''⟩ := first.retained t m held'
    exact ⟨held'',name'.trans name''⟩

/-- A topic with a retained message was there before the call that found it. -/
theorem findTopic_carried (done : findTopic env b name = .returned (t,b')) :
    Carried b b' ∧ ∀ m, (b'.topic.cell t).retained = some m → b.topics.lookup name = some t := by
  rcases findTopic_cases done with got | ⟨b₁,got,rfl,put⟩
  · obtain ⟨found,lock,rfl⟩ := getTopic_spec got
    exact ⟨⟨rfl,fun p m held => ⟨held,rfl⟩⟩,fun _ _ => found.symm⟩
  · obtain ⟨_,lock,rfl⟩ := getTopic_spec got
    obtain ⟨⟨_,topics⟩,_,put⟩ := Outcome.bind_eq_returned.mp put
    obtain rfl := Outcome.returned.inj put
    have fresh (m : Nat) : ((b.topic.alloc ⟨name,listCreate,none⟩).cell b.topic.next).retained ≠ some m := by
      rw [Heap.alloc_new]
      exact nofun
    refine ⟨⟨rfl,fun p m held => ?_⟩,fun m held => absurd held (fresh m)⟩
    by_cases new : p = b.topic.next
    · rw [new] at held
      exact absurd held (fresh m)
    · have old : (b.topic.alloc ⟨name,listCreate,none⟩).cell p = b.topic.cell p := Heap.alloc_old _ _ p new
      change ((b.topic.alloc ⟨name,listCreate,none⟩).cell p).retained = some m at held
      rw [old] at held
      exact ⟨held,congrArg Topic.name old⟩

theorem addSubscriber_carried (done : addSubscriber env b s = .returned b') : Carried b b' := by
  obtain ⟨message,_,retained⟩ := addSubscriber_retained done
  obtain ⟨p,b₁,got,rfl⟩ := addSubscriber_cases done
  obtain ⟨_,lock,rfl⟩ := getTopic_spec got
  exact ⟨message,fun t m held => ⟨(retained t).symm.trans held,insertSubscriber_name _ _ _ t⟩⟩

theorem handler_carried (decodable : Decodable (Command.ctype command))
    (done : command.handler env b c = .returned (rc,b')) : Carried b b' := by
  rcases decodable_command decodable with rfl | rfl | rfl | rfl
  · exact .of_store (connectHandler_store done)
  · exact .of_store (publishHandler_store done)
  · exact .of_store (pingreqHandler_store done)
  · obtain ⟨_,_,⟨_,rfl⟩ | ⟨_,t,b₁,b₂,found,added,rfl⟩⟩ := subscribeHandler_cases done
    · exact .of_store ⟨rfl,rfl,rfl⟩
    · have acked : Carried b₁ (setAckReply env b₁ c Opcode.suback 0) := .of_store ⟨rfl,rfl,rfl⟩
      have first := ((findTopic_carried found).1.trans acked).trans (addSubscriber_carried added)
      exact first.trans (.of_store ⟨rfl,rfl,rfl⟩)

/-- A message that can be read and belongs to the named topic. -/
structure Readable (b : Broker) (m : Nat) (name : CString) : Prop where
  alive : Alive b m
  topic : (b.message.cell m).topic = name

theorem Readable.congr (readable : Readable b m name) (message : b'.message = b.message) :
    Readable b' m name := by
  obtain ⟨alive,topic⟩ := readable
  exact ⟨by unfold Alive; rwa [message],by rwa [message]⟩

/-- Each topic retains a message of its own. -/
structure Retaining (b : Broker) : Prop where
  held : ∀ t m, (b.topic.cell t).retained = some m → Readable b m (b.topic.cell t).name
  apart : ∀ t t' m, (b.topic.cell t).retained = some m → (b.topic.cell t').retained = some m → t' = t

theorem Retaining.carried (retaining : Retaining b) (carried : Carried b b') : Retaining b' where
  held t m held := by
    obtain ⟨held',name'⟩ := carried.retained t m held
    rw [name']
    exact (retaining.held t m held').congr carried.message
  apart t t' m left right :=
    retaining.apart t t' m (carried.retained t m left).1 (carried.retained t' m right).1

/-- The invariant: what the topics retain and what pending SUBACKs point to can be read. -/
structure Guarded (b : Broker) : Prop where
  registered : Registered b
  named : Named b
  ready : Ready b
  retaining : Retaining b
  awaiting : ∀ c pkt m, Awaiting b c pkt m → Readable b m (cstr pkt.topic)

theorem start_guarded (fd : Fd) : Guarded (startServer fd) where
  registered := start_registered fd
  named name t stored := by
    obtain ⟨i,stored⟩ := stored
    simp [startServer,hashmapCreate] at stored
  ready := start_ready fd
  retaining := ⟨nofun,nofun⟩
  awaiting _ _ _ awaiting := by
    obtain ⟨r,pending,_⟩ := awaiting.pending
    cases pending

theorem guarded_carried (guarded : Guarded b) (registered : Registered b') (named : Named b')
    (ready : Ready b') (carried : Carried b b')
    (awaiting : ∀ c pkt m, Awaiting b' c pkt m → Readable b m (cstr pkt.topic)) : Guarded b' where
  registered := registered
  named := named
  ready := ready
  retaining := guarded.retaining.carried carried
  awaiting c pkt m pending := (awaiting c pkt m pending).congr carried.message

/-- A client whose reply and request are as before awaits what it awaited. -/
theorem awaiting_kept (awaiting : Awaiting b' d pkt m) (known : d < b.client.next)
    (reply : (b'.client.cell d).reply = (b.client.cell d).reply)
    (ptr : (b'.client.cell d).ptr = (b.client.cell d).ptr) : Awaiting b d pkt m where
  known := known
  request := ptr ▸ awaiting.request
  topic := awaiting.topic
  pending := reply ▸ awaiting.pending

theorem awaiting_silent (silent : (b.client.cell d).reply = none) : ¬Awaiting b d pkt m := by
  intro awaiting
  obtain ⟨r,pending,_⟩ := awaiting.pending
  rw [silent] at pending
  cases pending

theorem awaiting_idle (idle : Idle b b') (awaiting : Awaiting b' d pkt m) : Awaiting b d pkt m := by
  by_cases old : d < b.client.next
  · have unmoved := idle.old d old
    exact awaiting_kept awaiting old unmoved.reply unmoved.ptr
  · exact absurd awaiting (awaiting_silent (idle.new d (Nat.not_lt.mp old) awaiting.known).1)

/-- The message that a SUBSCRIBE captures is the one its topic retains. -/
theorem subscribeHandler_held (named : Named b) (stored : (b.client.cell c).ptr = some (.subscribe pkt))
    (topic : pkt.topicLen ≠ 0) (done : subscribeHandler env b c = .returned (rc,b'))
    (pending : (b'.client.cell c).reply = some r) (captured : r.retained = some m) :
    ∃ t, (b.topic.cell t).retained = some m ∧ (b.topic.cell t).name = cstr pkt.topic := by
  obtain ⟨sub,stored',⟨empty,_⟩ | ⟨_,t,b₁,b₂,found,added,rfl⟩⟩ := subscribeHandler_cases done
  all_goals obtain rfl := Packet.subscribe.inj (Option.some.inj (stored.symm.trans stored'))
  · exact absurd empty topic
  · have answer := setAckReply_reply env b₁ c Opcode.suback 0
    rw [← addSubscriber_client added] at answer
    rw [b₂.setClient_same,answer] at pending
    obtain rfl := Option.some.inj pending
    obtain ⟨held,name₂⟩ := (addSubscriber_carried added).retained t m captured
    obtain ⟨held',name₁⟩ := (findTopic_carried found).1.retained t m held
    exact ⟨t,held',name₁.symm.trans (findTopic_extends named found).2⟩

theorem blind_ptr : Blind Client.ptr := ⟨fun _ _ => rfl,fun _ _ => rfl⟩

theorem handler_ptr (decodable : Decodable (Command.ctype command))
    (done : command.handler env b c = .returned (rc,b')) (p : Nat) :
    (b'.client.cell p).ptr = (b.client.cell p).ptr :=
  handler_field blind_ptr (fun _ _ _ _ => rfl) decodable done

/-- After a request its own client awaits a message that the topic retained before. -/
theorem asked_awaiting (guarded : Guarded b) (serving : Serving b c .request k)
    (decodable : Decodable (Command.ctype command))
    (handled : command.handler env (linked env { b with kernel := k } c sent) c = .returned (rc,b₁))
    (awaiting : Awaiting (awaitReply b₁ (b.fd c) c) c pkt m) : Readable b m (cstr pkt.topic) := by
  have stored := linked_ptr env { b with kernel := k } c sent
  have asked := handler_asked decodable stored handled
  have silent : (b.client.cell c).reply = none := guarded.ready c serving.known serving.handler
  have ptr : (b₁.client.cell c).ptr = some sent := (handler_ptr decodable handled c).trans stored
  have request : some sent = some (.subscribe pkt) := by
    rw [← awaiting.request,awaitReply,Broker.setKernel_client,Broker.setClient_same,ptr]
  obtain rfl := Option.some.inj request
  obtain ⟨r,pending,opcode,captured⟩ := awaiting.pending
  rw [awaitReply,Broker.setKernel_client,Broker.setClient_same] at pending
  dsimp only at pending
  generalize answered : (b₁.client.cell c).reply = answer at asked pending
  cases asked with
  | pingreq =>
    obtain rfl := Option.some.inj pending
    have other : Opcode.pingresp ≠ Opcode.suback := by decide
    exact absurd opcode other
  | subscribe =>
    have named : Named (linked env { b with kernel := k } c (.subscribe pkt)) :=
      guarded.named.of_same (SameTopics.of_eq rfl rfl)
    obtain ⟨t,held,name⟩ :=
      subscribeHandler_held named stored awaiting.topic handled (answered.trans pending) captured
    have readable := guarded.retaining.held t m held
    rwa [show (b.topic.cell t).name = _ from name] at readable

/-- A packet without a command leaves its client with nothing to send. -/
theorem unknown_awaiting (guarded : Guarded b) (serving : Serving b c .request k)
    (awaiting : Awaiting (awaitReply (linked env { b with kernel := k } c sent) (b.fd c) c) d pkt m) :
    Awaiting b d pkt m := by
  have touched := unknown_touched env b c k sent
  have other : d ≠ c := by
    rintro rfl
    refine awaiting_silent ?_ awaiting
    rw [awaitReply_reply,linked_reply]
    exact guarded.ready d serving.known serving.handler
  refine awaiting_kept awaiting ?_ (touched.reply d other) ?_
  · rw [← show _ = b.client.next from touched.next]
    exact awaiting.known
  · rw [awaitReply_other _ _ c d other,linked_other _ _ c d _ other]

theorem request_guarded (guarded : Guarded b) (registered : Registered b') (ready : Ready b')
    (serving : Serving b c .request k) (decodable : Decodable (Command.ctype command))
    (handled : command.handler env (linked env { b with kernel := k } c sent) c = .returned (rc,b₁))
    (after : b' = awaitReply b₁ (b.fd c) c) : Guarded b' := by
  subst after
  have linked : SameStore b (linked env { b with kernel := k } c sent) := ⟨rfl,rfl,rfl⟩
  have named := (Delivery.handler_extends (guarded.named.of_same linked.sameTopics) decodable handled).named
  have touched := request_touched decodable handled
  have carried := (Carried.of_store linked).trans (handler_carried decodable handled)
  refine guarded_carried guarded registered named ready (carried.trans (.of_store ⟨rfl,rfl,rfl⟩))
    fun d pkt m awaiting => ?_
  by_cases own : d = c
  · subst own
    exact asked_awaiting guarded serving decodable handled awaiting
  · have known : d < b.client.next := by
      rw [← show _ = b.client.next from touched.next]
      exact awaiting.known
    have ptr : ((awaitReply b₁ (b.fd c) c).client.cell d).ptr = (b.client.cell d).ptr := by
      rw [awaitReply_other _ _ c d own,handler_ptr decodable handled,linked_other _ _ c d _ own]
    exact guarded.awaiting d pkt m (awaiting_kept awaiting known (touched.reply d own) ptr)

/-- What the delivery of a PUBLISH does to the messages of the others. -/
theorem replaced_readable (replaced : Replaced b t p b') (readable : Readable b m name)
    (other : (b.topic.cell t).retained ≠ some m) : Readable b' m name := by
  obtain ⟨⟨less,live⟩,topic⟩ := readable
  have same := replaced.kept m (Nat.ne_of_lt less) other
  refine ⟨⟨?_,by rwa [same]⟩,by rwa [same]⟩
  rw [replaced.grown]
  exact Nat.lt_succ_of_lt less

theorem Retaining.replaced (retaining : Retaining b) (own : (b.topic.cell t).name = cstr p.topic)
    (replaced : Replaced b t p b') : Retaining b' where
  held t' m held := by
    rw [replaced.name]
    by_cases same : t' = t
    · subst same
      obtain rfl := Option.some.inj (replaced.retained.symm.trans held)
      have stored := replaced.stored fun m old => (retaining.held t' m old).alive.1
      refine ⟨⟨?_,by rw [stored]; rfl⟩,?_⟩
      · rw [replaced.grown]
        exact Nat.lt_succ_self _
      · rw [stored,own]
        rfl
    · rw [replaced.other t' same] at held
      exact replaced_readable replaced (retaining.held t' m held) fun shared =>
        same (retaining.apart t t' m shared held)
  apart t₁ t₂ m left right := by
    have fresh {t' : Nat} (apart : t' ≠ t) (held : (b'.topic.cell t').retained = some m) :
        (b'.topic.cell t).retained ≠ some m := by
      intro shared
      obtain rfl := Option.some.inj (replaced.retained.symm.trans shared)
      rw [replaced.other t' apart] at held
      exact Nat.lt_irrefl _ (retaining.held t' _ held).alive.1
    by_cases first : t₁ = t
    · by_cases second : t₂ = t
      · exact second.trans first.symm
      · exact absurd (first ▸ left) (fresh second right)
    · by_cases second : t₂ = t
      · exact absurd (second ▸ right) (fresh first left)
      · rw [replaced.other t₁ first] at left
        rw [replaced.other t₂ second] at right
        exact retaining.apart t₁ t₂ m left right

/-- After a reply the other clients await what they awaited, and its own client nothing. -/
theorem replied_awaiting (delivered : (deliverReply env { b with kernel := k } c r).outcome = .returned (rc,b₁))
    (awaiting : Awaiting (finishReply b₁ c) d pkt m) : d ≠ c ∧ Awaiting b d pkt m := by
  have touched := (Touched.of_local (deliverReply_local delivered)).trans (finishReply_touched b₁ c)
  have other : d ≠ c := by
    rintro rfl
    refine awaiting_silent ?_ awaiting
    simp [finishReply]
  refine ⟨other,awaiting_kept awaiting ?_ (touched.reply d other) ?_⟩
  · rw [← show _ = b.client.next from touched.next]
    exact awaiting.known
  · rw [finishReply,Broker.setKernel_client,Broker.setClient_other _ c d _ other]
    exact deliverReply_field blind_ptr delivered d

theorem reply_guarded (guarded : Guarded b) (spares : Spares b c) (registered : Registered (finishReply b₁ c))
    (ready : Ready (finishReply b₁ c)) (pending : (b.client.cell c).reply = some r)
    (delivered : (deliverReply env { b with kernel := k } c r).outcome = .returned (rc,b₁)) :
    Guarded (finishReply b₁ c) := by
  have finished : SameStore b₁ (finishReply b₁ c) := ⟨rfl,rfl,rfl⟩
  have kept (named : Named b₁) (carried : Carried b b₁) : Guarded (finishReply b₁ c) :=
    guarded_carried guarded registered (named.of_same finished.sameTopics) ready
      (carried.trans (.of_store finished)) fun d pkt m awaiting =>
        guarded.awaiting d pkt m (replied_awaiting delivered awaiting).2
  rcases deliverReply_shape delivered with ⟨p,t,b₂,_,body,found,_,after⟩ | ⟨_,_,_,_,_,_,rfl⟩ | ⟨_,_,_,_,rfl⟩
  · obtain ⟨carried,source⟩ := findTopic_carried found
    obtain ⟨ext,own⟩ := findTopic_extends
      (guarded.named.of_same (SameTopics.of_eq rfl rfl) : Named { b with kernel := k }) found
    have begun : Carried b { b with kernel := k } := .of_store ⟨rfl,rfl,rfl⟩
    by_cases retain : p.retain = 0
    · have same : SameStore b₂ b₁ := by
        rw [after,published,if_pos retain]
        exact (touchAll_same env b₂ _).trans ⟨rfl,rfl,rfl⟩
      exact kept (ext.named.of_same same.sameTopics) ((begun.trans carried).trans (.of_store same))
    · have replaced := retainMessage_replaced b₂ t p
      have same : SameStore (retainMessage b₂ t p) (finishReply b₁ c) := by
        rw [after,published,if_neg retain]
        exact (touchAll_same env _ _).trans ⟨rfl,rfl,rfl⟩
      have retaining := ((guarded.retaining.carried (begun.trans carried)).replaced own replaced).carried
        (.of_store same)
      have named := (ext.named.of_same (retainMessage_same b₂ t p).1).of_same same.sameTopics
      refine ⟨registered,named,ready,retaining,fun d pkt m awaiting => ?_⟩
      have before := (replied_awaiting delivered awaiting).2
      have readable := (guarded.awaiting d pkt m before).congr (begun.trans carried).message
      refine (replaced_readable replaced readable fun shared => ?_).congr same.message
      have held := ((begun.trans carried).retained t m shared).1
      exact spares r p t d pkt m pending body retain (source m shared) before held
  · exact kept (guarded.named.of_same (SameTopics.of_eq rfl rfl)) (.of_store ⟨rfl,rfl,rfl⟩)
  · exact kept (guarded.named.of_same (SameTopics.of_eq rfl rfl)) (.of_store ⟨rfl,rfl,rfl⟩)

theorem performed_guarded (guarded : Guarded b) (sparing : Sparing b label.action)
    (performed : Performed b label b') : Guarded b' := by
  have registered := performed_registered guarded.registered performed
  have progress := performed_progress guarded.registered performed
  have ready := progress_ready guarded.ready progress
  generalize label.events = events at progress
  cases progress with
  | idle idle =>
    exact guarded_carried guarded registered (guarded.named.of_same idle.store.sameTopics) ready
      (.of_store idle.store) fun d pkt m awaiting => guarded.awaiting d pkt m (awaiting_idle idle awaiting)
  | unknown serving turn =>
    exact guarded_carried guarded registered (guarded.named.of_same (SameTopics.of_eq rfl rfl)) ready
      (.of_store ⟨rfl,rfl,rfl⟩) fun d pkt m awaiting =>
        guarded.awaiting d pkt m (unknown_awaiting guarded serving awaiting)
  | request serving turn decodable handled =>
    exact request_guarded guarded registered ready serving decodable handled rfl
  | reply serving turn pending delivered =>
    exact reply_guarded guarded (sparing _ turn serving.handler) registered ready pending delivered

/-- Along every run in which no PUBLISH with the retain flag set is delivered while a pending
SUBACK points to the message of its topic, every pending SUBACK of a SUBSCRIBE with a topic
points to a message of that topic that has not been freed. -/
theorem awaited_message_alive
    (run : Run (fun _ b label b' => Sparing b label.action ∧ Performed b label b') (startServer fd) past b)
    (awaiting : Awaiting b c pkt m) : Alive b m ∧ (b.message.cell m).topic = cstr pkt.topic := by
  have guarded := run.invariant (fun _ b => Guarded b) (start_guarded fd)
    fun _ _ _ _ _ before taken => performed_guarded before taken.1 taken.2
  obtain ⟨alive,topic⟩ := guarded.awaiting c pkt m awaiting
  exact ⟨alive,topic⟩

/-- The SUBSCRIBE that a pending SUBACK answers and the message it points to. -/
def awaited (b : Broker) (c : Nat) : Option (Subscribe × Nat) :=
  match (b.client.cell c).ptr,(b.client.cell c).reply with
  | some (.subscribe pkt),some r => if r.opcode = Opcode.suback then r.retained.map (pkt,·) else none
  | _,_ => none

theorem awaited_iff (known : c < b.client.next) (topic : pkt.topicLen ≠ 0) :
    awaited b c = some (pkt,m) ↔ Awaiting b c pkt m := by
  constructor
  · intro found
    unfold awaited at found
    split at found
    next sub r request pending =>
      split at found
      next suback =>
        obtain ⟨m',retained,same⟩ := Option.map_eq_some_iff.mp found
        obtain ⟨rfl,rfl⟩ := Prod.mk.inj same
        exact ⟨known,request,topic,r,pending,suback,retained⟩
      next => cases found
    next => cases found
  · rintro ⟨_,request,_,r,pending,suback,retained⟩
    simp only [awaited,request,pending,suback,if_true,retained,Option.map_some]

def nobodyAwaits (b : Broker) : Bool := (List.range b.client.next).all fun c => (awaited b c).isNone

theorem nobodyAwaits_sparing (nobody : nobodyAwaits b = true) (action : Action) : Sparing b action := by
  intro c _ _ r p t d pkt m _ _ _ _ awaiting
  have none := List.all_eq_true.mp nobody d (List.mem_range.mpr awaiting.known)
  rw [(awaited_iff awaiting.known awaiting.topic).mpr awaiting] at none
  cases none

/-- A script whose steps all come while nobody awaits a message. -/
def calm (b : Broker) : List (Env × Action) → Bool
  | [] => true
  | (env,action) :: rest => nobodyAwaits b && possible env b action && calm (after env b action) rest

theorem calm_run (run : Run (fun _ b label b' => Sparing b label.action ∧ Performed b label b') start past b)
    (calm' : calm b script = true) :
    Run (fun _ b label b' => Sparing b label.action ∧ Performed b label b') start (past ++ trace b script)
      (follow b script) := by
  induction script generalizing past b with
  | nil => simpa [trace,follow] using run
  | cons step rest ih =>
    obtain ⟨first,later⟩ := Bool.and_eq_true_iff.mp calm'
    obtain ⟨nobody,possible'⟩ := Bool.and_eq_true_iff.mp first
    have longer := ih (run.snoc ⟨nobodyAwaits_sparing nobody _,possible_performed _ _ _ possible'⟩) later
    rwa [List.append_assoc] at longer

def worker (accepted : Accepted) : Worker := ⟨fun c => 64 + 16 * c,6,accepted⟩

/-- A PUBLISH of `b` to `a` with the retain flag set. -/
def retainedLetter : Socket := ⟨[.bytes 0x30 [0,0,0,16,0,1,0,0,0,1,0,1,0,97,98]],.quiet⟩

/-- The client at descriptor 5 leaves a message, and the one at descriptor 4 subscribes. -/
def subscribing : List (Env × Action) :=
  [(plainEnv,.event (worker (.taken 4 ⟨[],.quiet⟩)) 3 .ready),
    (plainEnv,.event (worker (.taken 5 retainedLetter)) 3 .ready),
    (plainEnv,.event (worker .refused) 5 .ready),
    (plainEnv,.event (worker .refused) 5 .ready),
    (plainEnv,.arrive 4 ⟨[.bytes 0x80 [0,0,0,9,0,1,0,97]],.quiet⟩),
    (plainEnv,.event (worker .refused) 4 .ready)]

/-- Before the SUBACK is sent, the message is replaced. -/
def replacing : List (Env × Action) :=
  [(plainEnv,.arrive 5 retainedLetter),
    (plainEnv,.event (worker .refused) 5 .ready),
    (plainEnv,.event (worker .refused) 5 .ready)]

theorem awaited_found (known : c < b.client.next)
    (found : (awaited b c).map (fun pending => (pending.1.topicLen,pending.2)) = some (len,m)) (some : len ≠ 0) :
    ∃ pkt, Awaiting b c pkt m := by
  obtain ⟨⟨pkt,m'⟩,there,same⟩ := Option.map_eq_some_iff.mp found
  obtain ⟨rfl,rfl⟩ := Prod.mk.inj same
  exact ⟨pkt,(awaited_iff known some).mp there⟩

theorem subscriber_reads : ∃ past pkt,
    Run (fun _ b label b' => Sparing b label.action ∧ Performed b label b') (startServer 3) past
      (follow (startServer 3) subscribing) ∧
    Awaiting (follow (startServer 3) subscribing) 1 pkt 0 ∧ Alive (follow (startServer 3) subscribing) 0 := by
  have run := calm_run (Run.nil : Run _ (startServer 3) [] (startServer 3))
    (by decide +kernel : calm (startServer 3) subscribing = true)
  have found : (awaited (follow (startServer 3) subscribing) 1).map
      (fun pending => (pending.1.topicLen,pending.2)) = some (1,0) := by decide +kernel
  obtain ⟨pkt,awaiting⟩ := awaited_found (by decide +kernel) found (by decide)
  exact ⟨_,pkt,run,awaiting,(awaited_message_alive run awaiting).1⟩

/-- A PUBLISH of another client frees the message while the SUBACK waits. -/
theorem awaited_message_freed : ∃ past b pkt,
    Run (fun _ b label b' => Performed b label b') (startServer 3) past b ∧
      Awaiting b 1 pkt 0 ∧ ¬Alive b 0 := by
  have run := follow_run (startServer 3) (subscribing ++ replacing) (by decide +kernel)
  have found : (awaited (follow (startServer 3) (subscribing ++ replacing)) 1).map
      (fun pending => (pending.1.topicLen,pending.2)) = some (1,0) := by decide +kernel
  obtain ⟨pkt,awaiting⟩ := awaited_found (by decide +kernel) found (by decide)
  have freed : ((follow (startServer 3) (subscribing ++ replacing)).message.cell 0).live = false := by
    decide +kernel
  refine ⟨_,_,pkt,run,awaiting,fun alive => ?_⟩
  exact Bool.false_ne_true (freed.symm.trans alive.2)

end Sizigy.PendingRetained
