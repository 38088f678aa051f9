import Sizigy.Machine
import Sizigy.TopicSpec

/-! Delivery to the right connection. A subscription keeps its client after the connection is
closed, and publishing writes to whatever is then at the client's descriptor. Nothing goes to
a stranger as long as no new connection gets a descriptor that a subscription still holds. -/
namespace Sizigy.Delivery

open Machine

/-- The client sent a SUBSCRIBE for the topic and its handler was called. -/
def SubscribedTo (past : List Label) (d : Nat) (name : CString) : Prop :=
  ∃ label ∈ past, ∃ pkt, .call .subscribe d (some (.subscribe pkt)) ∈ label.events ∧
    pkt.topicLen ≠ 0 ∧ cstr pkt.topic = name

/-- No subscription of any topic holds this descriptor. -/
def Unheld (b : Broker) (fd : Fd) : Prop :=
  ∀ t s, s ∈ (b.topic.cell t).subscribers.nodes → b.fd s.client ≠ fd

def UnheldAccept (b : Broker) : Accepted → Prop
  | .refused => True
  | .lost fd => Unheld b fd
  | .taken fd _ => Unheld b fd

/-- The condition on an action in the state before it: an event for the listening socket
brings a descriptor that no subscription holds. -/
def NoReuse (b : Broker) : Action → Prop
  | .event w fd _ => ∀ c armed, b.kernel.epoll fd = some ⟨c,armed⟩ →
    (b.client.cell c).ctxHandler = .accept → UnheldAccept b w.accepted
  | _ => True

def Careful (_ : List Label) (b : Broker) (label : Label) (b' : Broker) : Prop :=
  NoReuse b label.action ∧ Performed b label b'

variable {env : Env} {b b' : Broker} {c : Nat} {past : List Label} {label : Label}

theorem SubscribedTo.mono (subscribed : SubscribedTo past d name) (label : Label) :
    SubscribedTo (past ++ [label]) d name := by
  obtain ⟨old,member,rest⟩ := subscribed
  exact ⟨old,List.mem_append_left _ member,rest⟩

theorem setSocket_same (b : Broker) (fd : Fd) (s : Socket) :
    SameTopics b (b.setKernel (·.setSocket fd s)) := SameTopics.of_eq rfl rfl

theorem linked_same (env : Env) (b : Broker) (c : Nat) (pkt : Packet) :
    SameTopics b (linked env b c pkt) := SameTopics.of_eq rfl rfl

theorem awaitReply_same (b : Broker) (fd : Fd) (c : Nat) : SameTopics b (awaitReply b fd c) :=
  SameTopics.of_eq rfl rfl

theorem awaitRequest_same (b : Broker) (fd : Fd) (c : Nat) : SameTopics b (awaitRequest b fd c) :=
  SameTopics.of_eq rfl rfl

/-- Of the handlers that are reached, only that of SUBSCRIBE adds a subscription. -/
theorem handler_extends (named : Named b) (decodable : Decodable (Command.ctype command))
    (done : command.handler env b c = .returned (rc,b')) :
    Extends (fun s name => s.client = c ∧ command = .subscribe ∧ ∃ pkt,
      (b.client.cell c).ptr = some (.subscribe pkt) ∧ pkt.topicLen ≠ 0 ∧ cstr pkt.topic = name) b b' := by
  rcases decodable_command decodable with rfl | rfl | rfl | rfl
  · exact Extends.of_same named (connectHandler_store done).sameTopics
  · exact Extends.of_same named (publishHandler_store done).sameTopics
  · exact Extends.of_same named (pingreqHandler_store done).sameTopics
  · obtain ⟨pkt,stored,ext⟩ := subscribeHandler_extends named done
    exact ext.weaken fun s name new => ⟨new.1,rfl,pkt,stored,new.2⟩

theorem serveRequest_extends (named : Named b) (decodable : Decodable opcode)
    (done : (serveRequest env b c opcode pkt).outcome = .returned (rc,b')) :
    Extends (fun s name => s.client = c ∧ ∃ sub,
      .call .subscribe c (some (.subscribe sub)) ∈ (serveRequest env b c opcode pkt).events ∧
      sub.topicLen ≠ 0 ∧ cstr sub.topic = name) b b' := by
  obtain ⟨b₁,rfl,⟨command,rc',rfl,returned⟩ | ⟨_,rfl⟩⟩ := serveRequest_cases done
  · have start : Extends (fun _ _ => False) b (linked env b c pkt) :=
      Extends.of_same named (linked_same env b c pkt)
    have handled := handler_extends start.named decodable returned
    rw [serveRequest_events]
    rw [linked_ptr] at handled
    have whole := (start.trans handled).trans_same (awaitReply_same b₁ (b.fd c) c)
    refine whole.weaken ?_
    rintro s name ⟨client,rfl,sub,stored,topic⟩
    exact ⟨client,sub,by rw [stored]; exact List.mem_singleton.mpr rfl,topic⟩
  · exact Extends.of_same named ((linked_same env b c pkt).trans (awaitReply_same _ _ _))

theorem request_extends (named : Named b) (done : (requestHandler env b c).outcome = .returned (rc,b')) :
    Extends (fun s name => s.client = c ∧ ∃ pkt,
      .call .subscribe c (some (.subscribe pkt)) ∈ (requestHandler env b c).events ∧
      pkt.topicLen ≠ 0 ∧ cstr pkt.topic = name) b b' := by
  obtain ⟨packet,s,received,cases⟩ := requestHandler_cases done
  have stored := setSocket_same b (b.fd c) s
  rcases cases with ⟨_,rfl⟩ | ⟨opcode,buffer,rfl,⟨_,rfl⟩ | ⟨pkt,decoded,served⟩⟩
  · exact Extends.of_same named (stored.trans (awaitRequest_same _ _ _))
  · exact Extends.of_same named stored
  · have events := requestHandler_events received
    simp only [decoded] at events
    rw [events]
    have start : Extends (fun _ _ => False) b (b.setKernel (·.setSocket (b.fd c) s)) :=
      Extends.of_same named stored
    exact start.trans (serveRequest_extends start.named (unpackPacket_decodable decoded) served)

/-- A request handler writes no packet. -/
theorem request_silent (done : (requestHandler env b c).outcome = .returned (rc,b')) :
    .publish t fd peer bytes ∉ (requestHandler env b c).events := by
  obtain ⟨packet,s,received,cases⟩ := requestHandler_cases done
  rcases cases with ⟨rfl,rfl⟩ | ⟨opcode,buffer,rfl,⟨undecoded,rfl⟩ | ⟨pkt,decoded,served⟩⟩
  · simp [requestHandler_quiet received]
  · have events := requestHandler_events received
    simp [events,undecoded]
  · have events := requestHandler_events received
    simp only [decoded] at events
    rw [events]
    by_cases known : ∃ command : Command, command.ctype = opcode
    · obtain ⟨command,rfl⟩ := known
      simp [serveRequest_events]
    · rw [serveRequest_unknown _ _ _ _ fun command equal => known ⟨command,equal⟩]
      simp

/-- What a reply handler writes: the pending PUBLISH, once for each subscription of the topic
it names, to the descriptor of the subscription's client. -/
theorem reply_extends (named : Named b) (done : (replyHandler env b c).outcome = .returned (rc,b')) :
    Extends (fun _ _ => False) b b' ∧ ∀ t fd peer bytes,
      .publish t fd peer bytes ∈ (replyHandler env b c).events →
      ∃ reply p s, (b.client.cell c).reply = some reply ∧ reply.body = .publish p ∧
        s ∈ (b.topic.cell t).subscribers.nodes ∧ (b.topic.cell t).name = cstr p.topic ∧
        fd = b.fd s.client ∧ peer = b.kernel.connection fd := by
  rcases replyHandler_cases done with ⟨_,rfl,silent⟩ | ⟨reply,b₁,pending,delivered,shown,rfl⟩
  · exact ⟨Extends.of_same named (SameTopics.refl _),by simp [silent]⟩
  · rw [shown]
    have finished : SameTopics b₁ (finishReply b₁ c) := SameTopics.of_eq rfl rfl
    rcases deliverReply_cases delivered with ⟨p,body,equal⟩ | ⟨same,_,replies⟩
    · rw [equal] at delivered ⊢
      obtain ⟨t,b₂,acks,found,events,replies,same,loc⟩ := publishReply_cases delivered
      obtain ⟨first,name⟩ := findTopic_extends named found
      have foundLocal : Local c b b₂ := findTopic_local found
      refine ⟨first.trans (Extends.of_same first.named (same.trans finished)),?_⟩
      intro t' fd peer bytes member
      rw [events,List.mem_append] at member
      rcases member with published | ack
      · obtain ⟨s,subscribed,equal⟩ := List.mem_map.mp published
        obtain ⟨rfl,rfl,rfl,_⟩ := Event.publish.inj equal
        rcases first.subs t s subscribed with ⟨old,same⟩ | impossible
        · exact ⟨reply,p,s,pending,body,old,same.symm.trans name,foundLocal.fd _,by rw [foundLocal.kernel]⟩
        · exact impossible.elim
      · obtain ⟨_,_,_,impossible⟩ := replies _ ack
        cases impossible
    · refine ⟨Extends.of_same named (same.trans finished),fun t fd peer bytes member => ?_⟩
      obtain ⟨_,_,_,impossible⟩ := replies _ member
      cases impossible

/-- Each subscription belongs to a client that subscribed, and its descriptor is closed or
still that client's. -/
structure Sound (past : List Label) (b : Broker) : Prop where
  registered : Registered b
  named : Named b
  known : ∀ t s, s ∈ (b.topic.cell t).subscribers.nodes → s.client < b.client.next
  own : ∀ t s, s ∈ (b.topic.cell t).subscribers.nodes →
    b.kernel.connection (b.fd s.client) = none ∨
      b.kernel.connection (b.fd s.client) = some (.client s.client)
  subscribed : ∀ t s, s ∈ (b.topic.cell t).subscribers.nodes →
    SubscribedTo past s.client (b.topic.cell t).name

theorem start_sound (fd : Fd) : Sound [] (startServer fd) where
  registered := start_registered fd
  named name t stored := by
    obtain ⟨i,stored⟩ := stored
    simp [startServer,hashmapCreate] at stored
  known t s member := absurd member List.not_mem_nil
  own t s member := absurd member List.not_mem_nil
  subscribed t s member := absurd member List.not_mem_nil

theorem Sound.mono (sound : Sound past b) (label : Label) : Sound (past ++ [label]) b :=
  ⟨sound.registered,sound.named,sound.known,sound.own,
    fun t s member => (sound.subscribed t s member).mono label⟩

/-- Steps that change no topic, no descriptor of a client, and no connection at a descriptor
that a subscription holds, other than by closing it. -/
theorem sound_kept (sound : Sound past b) (registered : Registered b') (topics : b'.topics = b.topics)
    (topic : b'.topic = b.topic) (next : b.client.next ≤ b'.client.next)
    (fd : ∀ p, p < b.client.next → b'.fd p = b.fd p)
    (connection : ∀ t s, s ∈ (b.topic.cell t).subscribers.nodes →
      b'.kernel.connection (b.fd s.client) = none ∨
      b'.kernel.connection (b.fd s.client) = b.kernel.connection (b.fd s.client)) : Sound past b' where
  registered := registered
  named name t stored := by
    rw [topics] at stored
    rw [topic]
    exact sound.named name t stored
  known t s member := by
    rw [topic] at member
    exact (sound.known t s member).trans_le next
  own t s member := by
    rw [topic] at member
    rw [fd s.client (sound.known t s member)]
    rcases connection t s member with closed | same
    · exact .inl closed
    · rw [same]
      exact sound.own t s member
  subscribed t s member := by
    rw [topic] at member ⊢
    exact sound.subscribed t s member

theorem sound_disarm (sound : Sound past b) (fd : Fd) : Sound past (b.setKernel (·.disarm fd)) :=
  sound_kept sound (sound.registered.disarm fd) rfl rfl (Nat.le_refl _) (fun _ _ => rfl)
    fun _ _ _ => .inr (by rw [Broker.setKernel_kernel,Kernel.disarm_connection])

theorem sound_close (sound : Sound past b) (fd : Fd) : Sound past (b.setKernel (·.close fd)) := by
  refine sound_kept sound (sound.registered.close fd) rfl rfl (Nat.le_refl _) (fun _ _ => rfl)
    fun t s member => ?_
  rw [Broker.setKernel_kernel,Kernel.close_connection]
  by_cases same : b.fd s.client = fd
  · exact .inl (by rw [same,Function.update_self])
  · exact .inr (Function.update_of_ne same _ _)

theorem sound_checkClientStatus (sound : Sound past b) (env : Env) (kv : CString × Nat) :
    Sound past (checkClientStatus env b kv).2 := by
  unfold checkClientStatus
  dsimp only
  split
  · have closed := sound_close sound (b.fd kv.2)
    have loc := Local.setClient (b.setKernel (·.close (b.fd kv.2))) kv.2
      (fun k => { k with status := .offline }) (fun _ => rfl) fun _ => rfl
    exact sound_kept closed (closed.registered.of_local loc) rfl rfl (Nat.le_refl _)
      (fun p _ => loc.fd p) fun _ _ _ => .inr rfl
  · exact sound

theorem sound_sweep (sound : Sound past b) (env : Env) : Sound past (keepaliveSweep env b) :=
  hashmapIterate2_invariant (Sound past) (fun _ kv before => sound_checkClientStatus before env kv)
    b.clients b sound

/-- Requests and replies: what they add to the topics was subscribed to. -/
theorem sound_touched (sound : Sound past b) (touched : Touched c b b') (registered : Registered b')
    (ext : Extends new b b') (known : c < b.client.next)
    (open' : b.kernel.connection (b.fd c) = some (.client c))
    (added : ∀ s name, new s name → s.client = c ∧ SubscribedTo (past ++ [label]) c name) :
    Sound (past ++ [label]) b' where
  registered := registered
  named := ext.named
  known t s member := by
    rw [touched.next]
    rcases ext.subs t s member with ⟨old,_⟩ | fresh
    · exact sound.known t s old
    · rw [(added s _ fresh).1]
      exact known
  own t s member := by
    rw [touched.connection,touched.fd]
    rcases ext.subs t s member with ⟨old,_⟩ | fresh
    · exact sound.own t s old
    · rw [(added s _ fresh).1]
      exact .inr open'
  subscribed t s member := by
    rcases ext.subs t s member with ⟨old,name⟩ | fresh
    · rw [name]
      exact (sound.subscribed t s old).mono label
    · rw [(added s _ fresh).1]
      exact (added s _ fresh).2

theorem accept_sound (env : Env) (sound : Sound past b) (fresh : FreshFd b accepted)
    (unheld : UnheldAccept b accepted) (known : server < b.client.next)
    (open' : b.kernel.connection (b.fd server) = some (.client server)) :
    Sound past (acceptHandler env b server accepted).2 := by
  have registered := accept_registered env sound.registered fresh known open'
  cases accepted with
  | refused =>
    exact sound_kept sound registered rfl rfl (Nat.le_refl _) (fun _ _ => rfl) fun _ _ _ => .inr rfl
  | lost fd =>
    refine sound_kept sound registered rfl rfl (Nat.le_refl _) (fun _ _ => rfl) fun t s member => ?_
    exact .inr (Function.update_of_ne (unheld t s member) _ _)
  | taken fd s =>
    have apart : b.fd server ≠ fd := fun same => by
      rw [same,show b.kernel.connection fd = none from fresh] at open'
      contradiction
    have joined := accept_joined env s known (sound.registered.closed fresh) apart
    refine sound_kept sound registered joined.topics joined.topic (by rw [joined.next]; omega)
      (fun p less => ?_) fun t s member => ?_
    · rw [Broker.fd,joined.old p (Nat.ne_of_lt less)]
      rfl
    · rw [joined.connection]
      exact .inr (Function.update_of_ne (unheld t s member) _ _)

theorem disarm_unheld (unheld : UnheldAccept b accepted) (fd : Fd) :
    UnheldAccept (b.setKernel (·.disarm fd)) accepted := by
  cases accepted with
  | refused => trivial
  | lost fd' => exact unheld
  | taken fd' s => exact unheld

theorem event_sound (sound : Sound past b) (source : Source b fd c) (fresh : FreshFd b w.accepted)
    (unheld : (b.client.cell c).ctxHandler = .accept → UnheldAccept b w.accepted)
    (processed : Processed env w b c readiness label.events b') : Sound (past ++ [label]) b' := by
  have registered := processed.registered sound.registered source fresh
  have open' : b.kernel.connection (b.fd c) = some (.client c) := source.same ▸ source.open'
  obtain ⟨labelEnv,action,events⟩ := label
  cases processed with
  | error => exact (sound_close sound _).mono _
  | quit => exact sound.mono _
  | accept _ ctx => exact (accept_sound env sound fresh (unheld ctx) source.known open').mono _
  | request _ _ done =>
    refine sound_touched sound (requestHandler_touched done) registered
      (request_extends sound.named done) source.known open' fun s name fresh => ⟨fresh.1,?_⟩
    exact ⟨_,List.mem_append_right _ (List.mem_singleton.mpr rfl),fresh.2⟩
  | reply _ _ done =>
    exact sound_touched sound (replyHandler_touched done) registered
      (reply_extends sound.named done).1 source.known open' fun _ _ impossible => impossible.elim

theorem performed_sound (sound : Sound past b) (noReuse : NoReuse b label.action)
    (performed : Performed b label b') : Sound (past ++ [label]) b' := by
  obtain ⟨env,action,events⟩ := label
  obtain ⟨enabled,outcome,shown⟩ := performed
  dsimp only at enabled outcome shown
  subst shown
  cases action with
  | arrive fd s =>
    obtain rfl := Outcome.returned.inj outcome
    have stored : Sound past (b.setKernel (·.setSocket fd s)) :=
      sound_kept sound ⟨sound.registered.own,sound.registered.server⟩ rfl rfl (Nat.le_refl _)
        (fun _ _ => rfl) fun _ _ _ => .inr rfl
    exact stored.mono _
  | event w fd readiness =>
    obtain ⟨⟨data,interest,armed⟩,fresh⟩ := enabled
    exact event_sound (sound_disarm sound fd) (event_source sound.registered armed) (disarm_fresh fresh)
      (fun ctx => disarm_unheld (noReuse data _ armed ctx) fd) (workerEvent_processed armed outcome)
  | sweep =>
    obtain rfl := Outcome.returned.inj outcome
    exact (sound_sweep sound env).mono _
  | disconnect c =>
    obtain rfl := Outcome.returned.inj outcome
    simp only [closeSockets_eq]
    exact (sound_close sound _).mono _

/-- A write goes to the connection of the subscription it is for. -/
theorem event_published (sound : Sound past b) (processed : Processed env w b c readiness events b')
    (published : .publish t fd (some peer) bytes ∈ events) :
    ∃ s ∈ (b.topic.cell t).subscribers.nodes, b.fd s.client = fd ∧ peer = .client s.client ∧
      b.kernel.connection fd = some (.client s.client) ∧
      SubscribedTo past s.client (b.topic.cell t).name := by
  cases processed with
  | error => exact absurd published List.not_mem_nil
  | quit => exact absurd published List.not_mem_nil
  | accept => exact absurd published List.not_mem_nil
  | request _ _ done => exact absurd published (request_silent done)
  | reply _ _ done =>
    obtain ⟨_,_,s,_,_,member,_,rfl,connection⟩ := (reply_extends sound.named done).2 _ _ _ _ published
    rcases sound.own t s member with closed | own
    · rw [closed] at connection
      contradiction
    · rw [own] at connection
      exact ⟨s,member,rfl,Option.some.inj connection,own,sound.subscribed t s member⟩

theorem performed_published (sound : Sound past b) (performed : Performed b label b')
    (published : .publish t fd (some peer) bytes ∈ label.events) :
    ∃ s ∈ (b.topic.cell t).subscribers.nodes, b.fd s.client = fd ∧ peer = .client s.client ∧
      b.kernel.connection fd = some (.client s.client) ∧
      SubscribedTo past s.client (b.topic.cell t).name := by
  obtain ⟨env,action,events⟩ := label
  obtain ⟨enabled,outcome,shown⟩ := performed
  dsimp only at enabled outcome shown
  subst shown
  cases action with
  | arrive fd' s => exact absurd published List.not_mem_nil
  | event w fd' readiness =>
    obtain ⟨⟨data,interest,armed⟩,fresh⟩ := enabled
    have here := event_published (sound_disarm sound fd') (workerEvent_processed armed outcome) published
    rwa [Broker.setKernel_kernel,Kernel.disarm_connection] at here
  | sweep => exact absurd published List.not_mem_nil
  | disconnect c => exact absurd published List.not_mem_nil

/-- Along every run in which no connection is accepted at a descriptor that a subscription
holds, each write goes to the open connection of a client that subscribed to the topic. -/
theorem published_to_subscriber
    (run : Run Careful (startServer server) past b) (performed : Performed b label b')
    (published : .publish t fd (some peer) bytes ∈ label.events) :
    ∃ s ∈ (b.topic.cell t).subscribers.nodes, b.fd s.client = fd ∧ peer = .client s.client ∧
      b.kernel.connection fd = some (.client s.client) ∧
      SubscribedTo past s.client (b.topic.cell t).name := by
  have sound := run.invariant (fun past b => Sound past b) (start_sound server)
    fun _ _ _ _ _ before taken => performed_sound before taken.1 taken.2
  exact performed_published sound performed published

/-- A worker whose clients lie away from the low addresses. -/
def worker (accepted : Accepted) : Worker := ⟨fun c => 64 + 16 * c,5,accepted⟩

/-- Whether a PUBLISH of the topic goes to the client's connection. -/
def publishedTo (t d : Nat) (fd : Fd) : Event → Bool
  | .publish t' fd' peer _ => t' = t ∧ fd' = fd ∧ peer = some (.client d)
  | _ => false

theorem publishedTo_mem {events : List Event} (published : events.any (publishedTo t d fd) = true) :
    ∃ bytes, .publish t fd (some (.client d)) bytes ∈ events := by
  obtain ⟨event,member,shown⟩ := List.any_eq_true.mp published
  cases event with
  | publish t' fd' peer bytes =>
    obtain ⟨rfl,rfl,rfl⟩ := of_decide_eq_true shown
    exact ⟨bytes,member⟩
  | reply => cases shown
  | call => cases shown

theorem served_noReuse (registered : b.kernel.epoll fd = some r)
    (served : (b.client.cell r.data).ctxHandler ≠ .accept) (w : Worker) (readiness : Readiness) :
    NoReuse b (.event w fd readiness) := by
  intro c armed registered' accepting
  obtain rfl := Option.some.inj (registered.symm.trans registered')
  exact absurd accepting served

/-- A client at descriptor 4 that sends a SUBSCRIBE for `a` first. -/
def subscribing : Action :=
  .event (worker (.taken 4 ⟨[.bytes 0x80 [0,0,0,9,0,1,0,97]],.quiet⟩)) 3 .ready

/-- The next event for that client. -/
def turn : Action := .event (worker .refused) 4 .ready

/-- A PUBLISH to `a` that arrives from that client. -/
def publishing : Action := .arrive 4 ⟨[.bytes 0x30 [0,0,0,16,0,1,0,0,0,1,0,0,0,97,98]],.quiet⟩

def joined : Broker := after plainEnv (startServer 3) subscribing
def asked : Broker := after plainEnv joined turn
def answered : Broker := after plainEnv asked turn
def told : Broker := after plainEnv answered publishing
def pending : Broker := after plainEnv told turn

theorem run_turn (run : Run Careful start past b)
    (registered : b.kernel.epoll 4 = some r) (served : (b.client.cell r.data).ctxHandler ≠ .accept)
    (possible' : possible plainEnv b turn = true) :
    Run Careful start
      (past ++ [labelled plainEnv b turn]) (after plainEnv b turn) :=
  run.snoc ⟨served_noReuse registered served _ _,possible_performed plainEnv b turn possible'⟩

theorem pending_run : Run Careful (startServer 3)
    [labelled plainEnv (startServer 3) subscribing,labelled plainEnv joined turn,labelled plainEnv asked turn,
      labelled plainEnv answered publishing,labelled plainEnv told turn] pending := by
  have free : NoReuse (startServer 3) subscribing := fun _ _ _ _ _ _ member => absurd member List.not_mem_nil
  have accepted : Run Careful (startServer 3) _ joined :=
    Run.nil.snoc ⟨free,possible_performed plainEnv (startServer 3) subscribing (by decide +kernel)⟩
  have waiting : joined.kernel.epoll 4 = some ⟨1,some .epollin⟩ := by decide +kernel
  have subscribed := run_turn accepted waiting (by decide +kernel) (by decide +kernel)
  have writing : asked.kernel.epoll 4 = some ⟨1,some .epollout⟩ := by decide +kernel
  have acknowledged := run_turn subscribed writing (by decide +kernel) (by decide +kernel)
  have careful : Careful [] answered (labelled plainEnv answered publishing) told :=
    ⟨trivial,possible_performed plainEnv answered publishing (by decide +kernel)⟩
  have arrived := acknowledged.snoc careful
  have waiting : told.kernel.epoll 4 = some ⟨1,some .epollin⟩ := by decide +kernel
  exact run_turn arrived waiting (by decide +kernel) (by decide +kernel)

/-- A subscriber that publishes to its own topic is sent the message. -/
theorem subscriber_published : ∃ past label b' bytes s,
    Run Careful (startServer 3) past pending ∧
      Performed pending label b' ∧ .publish 0 4 (some (.client 1)) bytes ∈ label.events ∧
      s ∈ (pending.topic.cell 0).subscribers.nodes ∧
      SubscribedTo past s.client (pending.topic.cell 0).name := by
  have performed := possible_performed plainEnv pending turn (by decide +kernel)
  have shown : (labelled plainEnv pending turn).events.any (publishedTo 0 1 4) = true := by decide +kernel
  obtain ⟨bytes,published⟩ := publishedTo_mem shown
  obtain ⟨s,member,_,_,_,subscribed⟩ := published_to_subscriber pending_run performed published
  exact ⟨_,_,_,bytes,s,pending_run,performed,published,member,subscribed⟩

/-- A client connects at descriptor 4 and subscribes to `a`, keeps silent for a minute and is
closed, and another connection gets descriptor 4 and publishes to `a`. -/
def reuseScript : List (Env × Action) :=
  [(plainEnv,.event (worker (.taken 4 ⟨[.bytes 0x10 [0,0,0,11,0,1,1,0,60,65]],.quiet⟩)) 3 .ready),
    (plainEnv,turn),
    (plainEnv,turn),
    (plainEnv,.arrive 4 ⟨[.bytes 0x80 [0,0,0,9,0,1,0,97]],.quiet⟩),
    (plainEnv,turn),
    ({ plainEnv with now := 60 },.sweep),
    (plainEnv,.event (worker (.taken 4 ⟨[.bytes 0x30 [0,0,0,16,0,1,0,0,0,1,0,0,0,97,98]],.quiet⟩)) 3 .ready),
    (plainEnv,turn)]

def subscribeCall (d : Nat) : Event → Bool
  | .call .subscribe c _ => c = d
  | _ => false

theorem SubscribedTo.called (subscribed : SubscribedTo past d name) :
    (past.any fun label => label.events.any (subscribeCall d)) = true := by
  obtain ⟨label,member,pkt,called,_⟩ := subscribed
  exact List.any_eq_true.mpr ⟨label,member,List.any_eq_true.mpr ⟨_,called,decide_eq_true rfl⟩⟩

/-- The new connection gets the message although it never subscribed to anything. -/
theorem reused_descriptor_misdelivered :
    ∃ past b label b' bytes, Run (fun _ b label b' => Performed b label b') (startServer 3) past b ∧
      Performed b label b' ∧ .publish 0 4 (some (.client 2)) bytes ∈ label.events ∧
      ∀ name, ¬SubscribedTo past 2 name := by
  have run := follow_run (startServer 3) reuseScript (by decide +kernel)
  have performed := possible_performed plainEnv (follow (startServer 3) reuseScript) turn
    (by decide +kernel)
  have shown : (labelled plainEnv (follow (startServer 3) reuseScript) turn).events.any (publishedTo 0 2 4) = true := by
    decide +kernel
  have silent : ((trace (startServer 3) reuseScript).any fun label => label.events.any (subscribeCall 2)) =
      false := by decide +kernel
  obtain ⟨bytes,published⟩ := publishedTo_mem shown
  refine ⟨_,_,_,_,bytes,run,performed,published,fun name subscribed => ?_⟩
  exact Bool.false_ne_true (silent.symm.trans subscribed.called)

end Sizigy.Delivery
