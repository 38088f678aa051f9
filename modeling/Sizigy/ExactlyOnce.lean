import Sizigy.Machine
import Sizigy.TopicStore

/-! Exactly-once fan-out. Requests of connected clients run one after the other, each through
its handler and the reply handler. A PUBLISH is sent once to each client whose last request
on the topic was a SUBSCRIBE, as long as no client subscribes again while it is subscribed. -/
namespace Sizigy.ExactlyOnce

open Machine

inductive Request where
  | subscribe (c : Nat) (pkt : Subscribe)
  | unsubscribe (c : Nat) (pkt : Unsubscribe)
  | publish (c : Nat) (pkt : Publish)

namespace Request

def client : Request → Nat
  | .subscribe c _ => c
  | .unsubscribe c _ => c
  | .publish c _ => c

def command : Request → Command
  | .subscribe _ _ => .subscribe
  | .unsubscribe _ _ => .unsubscribe
  | .publish _ _ => .publish

def packet : Request → Packet
  | .subscribe _ pkt => .subscribe pkt
  | .unsubscribe _ pkt => .unsubscribe pkt
  | .publish _ pkt => .publish pkt

def topicLen : Request → UInt16
  | .subscribe _ pkt => pkt.topicLen
  | .unsubscribe _ pkt => pkt.topicLen
  | .publish _ pkt => pkt.topicLen

/-- What the request says about a client's subscription to a topic. -/
def decides (c : Nat) (name : CString) : Request → Option Bool
  | .subscribe d pkt => if d = c ∧ cstr pkt.topic = name then some true else none
  | .unsubscribe d pkt => if d = c ∧ cstr pkt.topic = name then some false else none
  | .publish _ _ => none

end Request

/-- A decoded request from its dispatch to the end of the reply handler. -/
def handle (env : Env) (b : Broker) (r : Request) : Exec Event Broker := do
  let (_,b) ← serveRequest env b r.client r.command.ctype r.packet
  let (_,b) ← replyHandler env b r.client
  return b

structure Turn where
  env : Env
  request : Request
  events : List Event

/-- One request of a connected client that runs to its end, with mutexes ignored and an
allocator that succeeds. -/
structure Served (clients : Nat → Prop) (b : Broker) (turn : Turn) (b' : Broker) : Prop where
  sender : clients turn.request.client
  topic : turn.request.topicLen ≠ 0
  mutex : turn.env.mutex = .ignored
  memory : turn.env.calloc = fun _ => true
  outcome : (handle turn.env b turn.request).outcome = .returned b'
  events : (handle turn.env b turn.request).events = turn.events

/-- The last SUBSCRIBE or UNSUBSCRIBE of the client on the topic was a SUBSCRIBE. -/
def standing (past : List Turn) (c : Nat) (name : CString) : Bool :=
  past.foldl (fun now turn => (turn.request.decides c name).getD now) false

/-- The condition on a request: no SUBSCRIBE of a client that is subscribed. -/
def NotAgain (past : List Turn) (turn : Turn) : Prop :=
  ∀ c pkt, turn.request = .subscribe c pkt → standing past c (cstr pkt.topic) = false

def Polite (clients : Nat → Prop) (past : List Turn) (b : Broker) (turn : Turn) (b' : Broker) : Prop :=
  NotAgain past turn ∧ Served clients b turn b'

def sentTo (fd : Fd) : Event → Bool
  | .publish _ fd' _ _ => fd' = fd
  | _ => false

/-- Packets that `publish_message` passes to the descriptor. -/
def deliveries (fd : Fd) (events : List Event) : Nat := events.countP (sentTo fd)

/-- Packets that a client is due for a request. -/
def due (past : List Turn) (d : Nat) : Request → Nat
  | .publish _ p => if standing past d (cstr p.topic) then 1 else 0
  | _ => 0

variable {env : Env} {b b' : Broker} {c d : Nat} {clients : Nat → Prop} {past : List Turn} {turn : Turn}

@[simp] theorem standing_snoc (past : List Turn) (turn : Turn) (c : Nat) (name : CString) :
    standing (past ++ [turn]) c name = (turn.request.decides c name).getD (standing past c name) := by
  simp [standing]

/-- The handler that ran, the reply handler after it, and what both showed. -/
theorem handle_cases (done : (handle env b r).outcome = .returned b') :
    ∃ rc b₁ rc', r.command.handler env (linked env b r.client r.packet) r.client = .returned (rc,b₁) ∧
      (replyHandler env (awaitReply b₁ (b.fd r.client) r.client) r.client).outcome = .returned (rc',b') ∧
      (handle env b r).events = .call r.command r.client (some r.packet) ::
        (replyHandler env (awaitReply b₁ (b.fd r.client) r.client) r.client).events := by
  simp only [handle,Exec.bind_outcome] at done
  obtain ⟨⟨rc,b₂⟩,served,done⟩ := Outcome.bind_eq_returned.mp done
  obtain ⟨⟨rc',b₃⟩,replied,done⟩ := Outcome.bind_eq_returned.mp done
  obtain rfl := Outcome.returned.inj done
  obtain ⟨b₁,rfl,⟨command,rc'',same,handled⟩ | ⟨unknown,_⟩⟩ := serveRequest_cases served
  · obtain rfl := Command.ctype_injective same
    refine ⟨rc'',b₁,rc',handled,replied,?_⟩
    rw [handle,Exec.bind_events _ _ _ served,serveRequest_events,Exec.bind_silent _ _ fun _ => rfl]
    rfl
  · exact absurd rfl (unknown r.command)

/-- The pending reply is an acknowledgement. -/
def AckPending (b : Broker) (c : Nat) : Prop :=
  ∃ reply payload, (b.client.cell c).reply = some reply ∧ reply.body = .payload payload

theorem subscribeHandler_lists (shelved : Shelved b) (memory : env.calloc = fun _ => true)
    (stored : (b.client.cell c).ptr = some (.subscribe pkt)) (topic : pkt.topicLen ≠ 0)
    (done : subscribeHandler env b c = .returned (rc,b')) :
    Shelved b' ∧ AckPending b' c ∧ ∀ name, subscribersOf b' name = if name = cstr pkt.topic
      then ⟨c,cstr pkt.topic,pkt.qos⟩ :: subscribersOf b name else subscribersOf b name := by
  obtain ⟨pkt',stored',⟨empty,_⟩ | ⟨_,t,b₁,b₂,found,added,rfl⟩⟩ := subscribeHandler_cases done
  all_goals obtain rfl := Packet.subscribe.inj (Option.some.inj (stored.symm.trans stored'))
  · exact absurd empty topic
  · obtain ⟨shelved₁,here,same⟩ := findTopic_shelved shelved memory found
    have acked : SameTopics b₁ (setAckReply env b₁ c Opcode.suback 0) := SameTopics.of_eq rfl rfl
    obtain ⟨shelved₂,subscribers⟩ := addSubscriber_shelved (shelved₁.of_same acked) added
    have finished : SameTopics b₂ (b₂.setClient c fun k =>
        { k with reply := k.reply.map fun r => { r with retained := (b₂.topic.cell t).retained } }) :=
      SameTopics.of_eq rfl rfl
    refine ⟨shelved₂.of_same finished,?_,fun name => ?_⟩
    · have pending := setAckReply_reply env b₁ c Opcode.suback 0
      rw [← addSubscriber_client added] at pending
      exact ⟨_,_,by rw [b₂.setClient_same,pending]; rfl,rfl⟩
    · rw [same_subscribersOf finished,subscribers,same_subscribersOf acked,same,(shelved₁.known here).2]

theorem unsubscribeHandler_lists (shelved : Shelved b)
    (stored : (b.client.cell c).ptr = some (.unsubscribe pkt)) (topic : pkt.topicLen ≠ 0)
    (done : unsubscribeHandler env b c = .returned (rc,b')) :
    Shelved b' ∧ AckPending b' c ∧ ∀ name, subscribersOf b' name = if name = cstr pkt.topic
      then (subscribersOf b name).eraseP (fun s => b.fd s.client = b.fd c) else subscribersOf b name := by
  obtain ⟨pkt',stored',⟨empty,_⟩ | ⟨_,deleted⟩⟩ := unsubscribeHandler_cases done
  all_goals obtain rfl := Packet.unsubscribe.inj (Option.some.inj (stored.symm.trans stored'))
  · exact absurd empty topic
  · have acked : SameTopics b (setAckReply env b c Opcode.unsuback 0) := SameTopics.of_eq rfl rfl
    have loc := setAckReply_local env b c Opcode.unsuback 0
    obtain ⟨shelved₁,subscribers⟩ := delSubscriber_shelved (shelved.of_same acked) deleted
    refine ⟨shelved₁,?_,fun name => ?_⟩
    · have pending := setAckReply_reply env b c Opcode.unsuback 0
      rw [← delSubscriber_client deleted] at pending
      exact ⟨_,_,pending,rfl⟩
    · rw [subscribers,same_subscribersOf acked]
      simp only [loc.fd]

/-- After an acknowledgement the subscribers are as they were, and nothing was published. -/
theorem replyHandler_ack (pending : AckPending b c)
    (done : (replyHandler env b c).outcome = .returned (rc,b')) :
    SameTopics b b' ∧ ∀ event ∈ (replyHandler env b c).events, IsReply event := by
  obtain ⟨reply,payload,set,body⟩ := pending
  rcases replyHandler_cases done with ⟨nothing,_⟩ | ⟨reply',b₁,set',delivered,shown,rfl⟩
  · rw [set] at nothing
    cases nothing
  · obtain rfl := Option.some.inj (set.symm.trans set')
    rcases deliverReply_cases delivered with ⟨p,body',_⟩ | ⟨same,_,replies⟩
    · rw [body] at body'
      cases body'
    · exact ⟨same.trans (SameTopics.of_eq rfl rfl),by rw [shown]; exact replies⟩

theorem deliverReply_publish (env : Env) (b : Broker) (c : Nat) (fd : Fd) (p : Publish) (retained : Option Nat) :
    deliverReply env b c ⟨Opcode.publish,fd,.publish p,retained⟩ = publishReply env b c fd p := by
  simp [deliverReply]

/-- Delivering a PUBLISH passes it to the subscribers of its topic, in the order of the list. -/
theorem replyHandler_publish (shelved : Shelved b) (memory : env.calloc = fun _ => true)
    (pending : (b.client.cell c).reply = some ⟨Opcode.publish,fd,.publish p,retained⟩)
    (done : (replyHandler env b c).outcome = .returned (rc,b')) :
    Shelved b' ∧ (∀ name, subscribersOf b' name = subscribersOf b name) ∧
      ∃ t acks, (replyHandler env b c).events =
          publications b t (publishBytes env p) (subscribersOf b (cstr p.topic)) ++ acks ∧
        ∀ event ∈ acks, IsReply event := by
  rcases replyHandler_cases done with ⟨nothing,_⟩ | ⟨reply,b₁,pending',delivered,shown,rfl⟩
  · rw [pending] at nothing
    cases nothing
  · obtain rfl := Option.some.inj (pending.symm.trans pending')
    rw [deliverReply_publish] at delivered shown
    obtain ⟨t,b₂,acks,found,events,replies,same,_⟩ := publishReply_cases delivered
    obtain ⟨shelved₂,here,subscribers⟩ := findTopic_shelved shelved memory found
    have finished : SameTopics b₂ (finishReply b₁ c) := same.trans (SameTopics.of_eq rfl rfl)
    have loc : Local c b b₂ := findTopic_local found
    refine ⟨shelved₂.of_same finished,fun name => ?_,t,acks,?_,replies⟩
    · rw [same_subscribersOf finished,subscribers]
    · rw [shown,events,publications_congr loc.fd loc.kernel,← subscribersOf_some here,subscribers]

theorem handler_fd {r : Request} (done : r.command.handler env b r.client = .returned (rc,b')) (p : Nat) :
    b'.fd p = b.fd p := by
  cases r with
  | subscribe c pkt => exact (subscribeHandler_local done).1.fd p
  | unsubscribe c pkt =>
    have acked (rc : UInt8) := setAckReply_local env b c Opcode.unsuback rc
    obtain ⟨_,_,⟨_,rfl⟩ | ⟨_,deleted⟩⟩ := unsubscribeHandler_cases done
    · exact (acked 1).fd p
    · exact ((acked 0).trans (delSubscriber_local deleted)).fd p
  | publish c pkt =>
    obtain ⟨_,_,loc,_⟩ := publishHandler_local done
    exact loc.fd p

theorem handle_fd (done : (handle env b r).outcome = .returned b') (p : Nat) : b'.fd p = b.fd p := by
  obtain ⟨rc,b₁,rc',handled,replied,_⟩ := handle_cases done
  have fd (q : Nat) : b₁.fd q = b.fd q := (handler_fd handled q).trans ((linked_local env b _ _).fd q)
  rw [(replyHandler_touched replied).fd,← fd r.client,(awaitReply_touched b₁ r.client).fd,fd]

/-- What a request makes of the subscribers of a topic. -/
def relist (fd : Nat → Fd) (name : CString) (subs : List Subscription) : Request → List Subscription
  | .subscribe c pkt => if name = cstr pkt.topic then ⟨c,cstr pkt.topic,pkt.qos⟩ :: subs else subs
  | .unsubscribe c pkt =>
    if name = cstr pkt.topic then subs.eraseP (fun s => fd s.client = fd c) else subs
  | .publish _ _ => subs

/-- The subscribers a request is sent on to. -/
def audience (b : Broker) : Request → List Subscription
  | .publish _ p => subscribersOf b (cstr p.topic)
  | _ => []

/-- Bytes of a published message. -/
def message (env : Env) : Request → List UInt8
  | .publish _ p => publishBytes env p
  | _ => []

/-- Sending an acknowledgement changes no subscriber list. -/
theorem acknowledged_spec (shelved : Shelved b) (pending : AckPending b c)
    (replied : (replyHandler env (awaitReply b fd c) c).outcome = .returned (rc,b')) :
    Shelved b' ∧ (∀ name, subscribersOf b' name = subscribersOf b name) ∧
      ∀ event ∈ (replyHandler env (awaitReply b fd c) c).events, IsReply event := by
  have pending' : AckPending (awaitReply b fd c) c := by
    unfold AckPending
    rwa [awaitReply_reply]
  have waiting : SameTopics b (awaitReply b fd c) := SameTopics.of_eq rfl rfl
  obtain ⟨same,replies⟩ := replyHandler_ack pending' replied
  have whole := waiting.trans same
  exact ⟨shelved.of_same whole,fun name => same_subscribersOf whole name,replies⟩

theorem handle_spec (shelved : Shelved b) (memory : env.calloc = fun _ => true) (topic : r.topicLen ≠ 0)
    (done : (handle env b r).outcome = .returned b') :
    Shelved b' ∧ (∀ name, subscribersOf b' name = relist b.fd name (subscribersOf b name) r) ∧
      ∃ t acks, (handle env b r).events = .call r.command r.client (some r.packet) ::
          (publications b t (message env r) (audience b r) ++ acks) ∧ ∀ event ∈ acks, IsReply event := by
  obtain ⟨rc,b₁,rc',handled,replied,events⟩ := handle_cases done
  rw [events]
  have begun : SameTopics b (linked env b r.client r.packet) := SameTopics.of_eq rfl rfl
  have waiting : SameTopics b₁ (awaitReply b₁ (b.fd r.client) r.client) := SameTopics.of_eq rfl rfl
  have fd (p : Nat) : b₁.fd p = b.fd p := (handler_fd handled p).trans ((linked_local env b _ _).fd p)
  cases r with
  | subscribe c pkt =>
    dsimp only [Request.client,Request.packet] at *
    obtain ⟨shelved₁,pending,subscribers⟩ :=
      subscribeHandler_lists (shelved.of_same begun) memory (linked_ptr env b c _) topic handled
    obtain ⟨shelved₂,kept,replies⟩ := acknowledged_spec shelved₁ pending replied
    refine ⟨shelved₂,fun name => ?_,0,_,rfl,replies⟩
    rw [kept,subscribers,same_subscribersOf begun,relist]
  | unsubscribe c pkt =>
    dsimp only [Request.client,Request.packet] at *
    have same (p : Nat) : (linked env b c (.unsubscribe pkt)).fd p = b.fd p :=
      (linked_local env b c (.unsubscribe pkt)).fd p
    obtain ⟨shelved₁,pending,subscribers⟩ :=
      unsubscribeHandler_lists (shelved.of_same begun) (linked_ptr env b c _) topic handled
    obtain ⟨shelved₂,kept,replies⟩ := acknowledged_spec shelved₁ pending replied
    refine ⟨shelved₂,fun name => ?_,0,_,rfl,replies⟩
    rw [kept,subscribers,same_subscribersOf begun,relist]
    simp only [same]
  | publish c pkt =>
    dsimp only [Request.client,Request.packet] at *
    have same := begun.trans ((publishHandler_store handled).sameTopics.trans waiting)
    obtain ⟨pkt',stored,loc,_,pending⟩ := publishHandler_local handled
    have kernel := ((linked_local env b c (.publish pkt)).trans loc).kernel
    obtain rfl := Packet.publish.inj (Option.some.inj ((linked_ptr env b c _).symm.trans stored))
    rw [← awaitReply_reply b₁ (b.fd c) c] at pending
    obtain ⟨shelved₁,subscribers,t,acks,shown,replies⟩ :=
      replyHandler_publish (shelved.of_same same) memory (pending topic) replied
    refine ⟨shelved₁,fun name => ?_,t,acks,?_,replies⟩
    · rw [subscribers,same_subscribersOf same]
      rfl
    · have armed := awaitReply_touched b₁ c
      rw [fd c] at armed
      rw [shown,same_subscribersOf same]
      simp only [publications,armed.fd,armed.connection,fd,kernel]
      rfl

/-- The subscribers of each topic are the clients that stand subscribed, each once. -/
structure Listed (clients : Nat → Prop) (past : List Turn) (b : Broker) : Prop where
  shelved : Shelved b
  distinct : ∀ c d, clients c → clients d → b.fd c = b.fd d → c = d
  once : ∀ name, ((subscribersOf b name).map Subscription.client).Nodup
  exact : ∀ name c, c ∈ (subscribersOf b name).map Subscription.client ↔
    clients c ∧ standing past c name = true

theorem start_listed (empty : b.topics = hashmapCreate)
    (distinct : ∀ c d, clients c → clients d → b.fd c = b.fd d → c = d) : Listed clients [] b := by
  obtain ⟨shelved,nothing⟩ := empty_shelved empty
  refine ⟨shelved,distinct,fun name => ?_,fun name c => ?_⟩
  · rw [nothing]
    exact List.nodup_nil
  · simp [nothing,standing]

/-- With distinct descriptors, erasing by descriptor is erasing by client. -/
theorem erase_client {subs : List Subscription} {fd : Nat → Fd}
    (distinct : ∀ c d, clients c → clients d → fd c = fd d → c = d)
    (known : ∀ s ∈ subs, clients s.client) (client : clients c) :
    (subs.eraseP fun s => fd s.client = fd c).map Subscription.client =
      (subs.map Subscription.client).erase c := by
  induction subs with
  | nil => rfl
  | cons s subs ih =>
    have rest := ih fun s' member => known s' (List.mem_cons_of_mem _ member)
    by_cases same : s.client = c
    · simp [same]
    · have apart : fd s.client ≠ fd c := fun equal =>
        same (distinct _ _ (known s (List.mem_cons_self ..)) client equal)
      simp [apart,same,rest]

theorem relist_listed (listed : Listed clients past b) (notAgain : NotAgain past turn)
    (sender : clients turn.request.client) (name : CString) :
    ((relist b.fd name (subscribersOf b name) turn.request).map Subscription.client).Nodup ∧
    ∀ c, c ∈ (relist b.fd name (subscribersOf b name) turn.request).map Subscription.client ↔
      clients c ∧ standing (past ++ [turn]) c name = true := by
  have once := listed.once name
  have known : ∀ s ∈ subscribersOf b name, clients s.client := fun s member =>
    ((listed.exact name s.client).mp (List.mem_map_of_mem member)).1
  simp only [standing_snoc]
  cases request : turn.request with
  | subscribe c pkt =>
    have client : clients c := by simpa [request,Request.client] using sender
    by_cases own : name = cstr pkt.topic
    · subst own
      have fresh := notAgain c pkt request
      simp only [relist,if_true,List.map_cons,List.nodup_cons,List.mem_cons,Request.decides,and_true]
      refine ⟨⟨fun member => ?_,once⟩,fun d => ?_⟩
      · rw [listed.exact,fresh] at member
        exact absurd member.2 (by decide)
      · rw [listed.exact]
        by_cases same : d = c
        · subst same
          simpa using client
        · simp [same,Ne.symm same]
    · have other : cstr pkt.topic ≠ name := Ne.symm own
      simp only [relist,own,if_false,Request.decides,other,and_false,Option.getD_none]
      exact ⟨once,listed.exact name⟩
  | unsubscribe c pkt =>
    have client : clients c := by simpa [request,Request.client] using sender
    by_cases own : name = cstr pkt.topic
    · subst own
      simp only [relist,if_true,Request.decides,and_true]
      rw [erase_client listed.distinct known client]
      refine ⟨once.erase c,fun d => ?_⟩
      rw [once.mem_erase_iff,listed.exact]
      by_cases same : d = c
      · simp [same]
      · simp [same,Ne.symm same]
    · have other : cstr pkt.topic ≠ name := Ne.symm own
      simp only [relist,own,if_false,Request.decides,other,and_false,Option.getD_none]
      exact ⟨once,listed.exact name⟩
  | publish c pkt => exact ⟨once,listed.exact name⟩

theorem served_listed (listed : Listed clients past b) (notAgain : NotAgain past turn)
    (served : Served clients b turn b') : Listed clients (past ++ [turn]) b' := by
  obtain ⟨shelved,subscribers,_⟩ := handle_spec listed.shelved served.memory served.topic served.outcome
  have fd := handle_fd served.outcome
  refine ⟨shelved,fun c d => ?_,fun name => ?_,fun name c => ?_⟩
  · rw [fd,fd]
    exact listed.distinct c d
  · rw [subscribers]
    exact (relist_listed listed notAgain served.sender name).1
  · rw [subscribers]
    exact (relist_listed listed notAgain served.sender name).2 c

theorem deliveries_shown (replies : ∀ event ∈ acks, IsReply event) (fd : Fd) :
    deliveries fd (.call command c ptr :: (publications b t bytes subs ++ acks)) =
      subs.countP fun s => b.fd s.client = fd := by
  have quiet : acks.countP (sentTo fd) = 0 := by
    rw [List.countP_eq_zero]
    intro event member
    obtain ⟨_,_,_,rfl⟩ := replies event member
    exact Bool.false_ne_true
  rw [deliveries,List.countP_cons_of_neg (by exact Bool.false_ne_true),List.countP_append,quiet,publications,
    List.countP_map]
  rfl

/-- With distinct descriptors, counting by descriptor is counting by client. -/
theorem count_client {subs : List Subscription} {fd : Nat → Fd}
    (distinct : ∀ c d, clients c → clients d → fd c = fd d → c = d)
    (known : ∀ s ∈ subs, clients s.client) (client : clients d) :
    (subs.countP fun s => fd s.client = fd d) = (subs.map Subscription.client).count d := by
  rw [List.count,List.countP_map]
  apply List.countP_congr
  intro s member
  simp only [decide_eq_true_eq,Function.comp_apply,beq_iff_eq]
  exact ⟨distinct _ _ (known s member) client,fun same => by rw [same]⟩

theorem audience_count (listed : Listed clients past b) (client : clients d) (r : Request) :
    ((audience b r).map Subscription.client).count d = due past d r := by
  cases r with
  | subscribe c pkt => rfl
  | unsubscribe c pkt => rfl
  | publish c pkt =>
    rw [audience,(listed.once _).count,due]
    simp only [listed.exact,client,true_and]

theorem audience_known (listed : Listed clients past b) (r : Request) :
    ∀ s ∈ audience b r, clients s.client := by
  intro s member
  cases r with
  | subscribe c pkt => exact absurd member List.not_mem_nil
  | unsubscribe c pkt => exact absurd member List.not_mem_nil
  | publish c pkt => exact ((listed.exact _ _).mp (List.mem_map_of_mem member)).1

/-- Along every run in which nobody subscribes twice in a row, a request that is a PUBLISH is
passed once to each client that stands subscribed to its topic and to nobody else, and no
other request publishes anything. -/
theorem published_exactly_once (empty : start.topics = hashmapCreate)
    (distinct : ∀ c d, clients c → clients d → start.fd c = start.fd d → c = d)
    (run : Run (Polite clients) start past b)
    (served : Served clients b turn b') :
    (∀ d, clients d → deliveries (b.fd d) turn.events = due past d turn.request) ∧
    (∀ fd, (∀ d, clients d → b.fd d ≠ fd) → deliveries fd turn.events = 0) ∧
    ∀ t fd peer bytes, .publish t fd peer bytes ∈ turn.events → ∃ c p,
      turn.request = .publish c p ∧ bytes = publishBytes turn.env p := by
  have listed := run.invariant (Listed clients) (start_listed empty distinct)
    fun _ _ _ _ _ before taken => served_listed before taken.1 taken.2
  obtain ⟨_,_,t,acks,events,replies⟩ :=
    handle_spec listed.shelved served.memory served.topic served.outcome
  have known := audience_known listed turn.request
  rw [served.events] at events
  rw [events]
  refine ⟨fun d client => ?_,fun fd nobody => ?_,fun t' fd peer bytes published => ?_⟩
  · rw [deliveries_shown replies,count_client listed.distinct known client,audience_count listed client]
  · rw [deliveries_shown replies,List.countP_eq_zero]
    intro s member
    simpa using nobody s.client (known s member)
  · rcases List.mem_cons.mp published with impossible | later
    · cases impossible
    rcases List.mem_append.mp later with sent | ack
    · obtain ⟨s,member,same⟩ := List.mem_map.mp sent
      obtain ⟨_,_,_,rfl⟩ := Event.publish.inj same
      cases request : turn.request with
      | subscribe c pkt => rw [request] at member; exact absurd member List.not_mem_nil
      | unsubscribe c pkt => rw [request] at member; exact absurd member List.not_mem_nil
      | publish c pkt => exact ⟨c,pkt,rfl,rfl⟩
    · obtain ⟨_,_,_,impossible⟩ := replies _ ack
      cases impossible

def lockless : Env := { plainEnv with mutex := .ignored }

/-- The broker after a request that returns, and the turn it leaves. -/
def afterRequest (b : Broker) (r : Request) : Broker :=
  match (handle lockless b r).outcome with
  | .returned b' => b'
  | _ => b

def turnOf (b : Broker) (r : Request) : Turn := ⟨lockless,r,(handle lockless b r).events⟩

theorem served_after (sender : clients r.client) (topic : r.topicLen ≠ 0)
    (ends : returns (handle lockless b r).outcome = true) :
    Served clients b (turnOf b r) (afterRequest b r) := by
  refine ⟨sender,topic,rfl,rfl,?_,rfl⟩
  rw [afterRequest]
  change (handle lockless b r).outcome = _
  cases outcome : (handle lockless b r).outcome with
  | returned b' => rfl
  | blocked => simp [returns,outcome] at ends
  | crashed => simp [returns,outcome] at ends
  | unfinished => simp [returns,outcome] at ends

/-- Two clients, at descriptors 4 and 5. -/
def pair : Broker :=
  (acceptHandler plainEnv (acceptHandler plainEnv (startServer 3) 0 (.taken 4 ⟨[],.quiet⟩)).2 0
    (.taken 5 ⟨[],.quiet⟩)).2

def Pair (c : Nat) : Prop := c = 1 ∨ c = 2

theorem pair_distinct (c d : Nat) (left : Pair c) (right : Pair d) (same : pair.fd c = pair.fd d) : c = d := by
  rcases left with rfl | rfl <;> rcases right with rfl | rfl
  · rfl
  · exact absurd same (by decide)
  · exact absurd same (by decide)
  · rfl

def subscribeA : Request := .subscribe 1 ⟨⟨Opcode.subscribe,9⟩,1,0,[97]⟩
def publishA : Request := .publish 2 ⟨⟨Opcode.publish,16⟩,1,1,0,0,0,[97],[98]⟩

theorem publishA_once : ∃ past b turn b',
    Run (Polite Pair) pair past b ∧
      Served Pair b turn b' ∧ turn.request = publishA ∧ b.fd 1 = 4 ∧
      deliveries (b.fd 1) turn.events = 1 ∧ deliveries (b.fd 2) turn.events = 0 := by
  have first : Polite Pair [] pair (turnOf pair subscribeA) (afterRequest pair subscribeA) :=
    ⟨fun _ _ _ => rfl,served_after (.inl rfl) (by decide) (by decide +kernel)⟩
  have run := Run.nil.snoc first
  have served : Served Pair (afterRequest pair subscribeA) (turnOf _ publishA) (afterRequest _ publishA) :=
    served_after (.inr rfl) (by decide) (by decide +kernel)
  obtain ⟨each,_⟩ := published_exactly_once rfl pair_distinct run served
  refine ⟨_,_,_,_,run,served,rfl,by decide +kernel,?_,?_⟩
  · rw [each 1 (.inl rfl)]
    decide +kernel
  · rw [each 2 (.inr rfl)]
    decide +kernel

/-- A client that subscribes twice is sent the message twice. -/
theorem subscribed_twice_sent_twice : ∃ past b turn b',
    Run (fun _ b turn b' => Served Pair b turn b') pair past b ∧ Served Pair b turn b' ∧
      due past 1 turn.request = 1 ∧ deliveries (b.fd 1) turn.events = 2 := by
  have first : Served Pair pair (turnOf pair subscribeA) (afterRequest pair subscribeA) :=
    served_after (.inl rfl) (by decide) (by decide +kernel)
  have again : Served Pair (afterRequest pair subscribeA) (turnOf _ subscribeA) (afterRequest _ subscribeA) :=
    served_after (.inl rfl) (by decide) (by decide +kernel)
  have served : Served Pair (afterRequest (afterRequest pair subscribeA) subscribeA) (turnOf _ publishA)
      (afterRequest _ publishA) := served_after (.inr rfl) (by decide) (by decide +kernel)
  exact ⟨_,_,_,_,(Run.nil.snoc first).snoc again,served,by decide +kernel,by decide +kernel⟩

end Sizigy.ExactlyOnce
