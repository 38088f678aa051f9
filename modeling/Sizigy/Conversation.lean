import Sizigy.Machine

/-! What one step of the running broker does for its clients: it serves a request of one of
them, sends the pending reply of one of them, or changes no client's conversation. -/
namespace Sizigy.Conversation

open Machine

/-- A client whose conversation is where it was. It may have gone offline. -/
structure Unmoved (k k' : Client) : Prop where
  fd : k'.fd = k.fd
  ctx : k'.ctxHandler = k.ctxHandler
  id : k'.id = k.id
  reply : k'.reply = k.reply
  ptr : k'.ptr = k.ptr
  status : k'.status = .online → k.status = .online

theorem Unmoved.refl (k : Client) : Unmoved k k := ⟨rfl,rfl,rfl,rfl,rfl,fun online => online⟩

theorem Unmoved.trans (first : Unmoved k k') (second : Unmoved k' k'') : Unmoved k k'' where
  fd := second.fd.trans first.fd
  ctx := second.ctx.trans first.ctx
  id := second.id.trans first.id
  reply := second.reply.trans first.reply
  ptr := second.ptr.trans first.ptr
  status online := first.status (second.status online)

/-- No conversation moved, no topic, message or registered client changed; new clients have
nothing to send. -/
structure Idle (b b' : Broker) : Prop where
  store : SameStore b b'
  clients : b'.clients = b.clients
  next : b.client.next ≤ b'.client.next
  old : ∀ p, p < b.client.next → Unmoved (b.client.cell p) (b'.client.cell p)
  new : ∀ p, b.client.next ≤ p → p < b'.client.next →
    (b'.client.cell p).reply = none ∧ (b'.client.cell p).ctxHandler = .request

/-- A client that epoll has an event for, and the kernel once the event is taken. -/
structure Serving (b : Broker) (c : Nat) (ctx : CtxHandler) (k : Kernel) : Prop where
  known : c < b.client.next
  client : c ≠ 0
  handler : (b.client.cell c).ctxHandler = ctx
  open' : b.kernel.connection (b.fd c) = some (.client c)
  connection : k.connection = b.kernel.connection

/-- The client that an event is for. -/
def addressee (b : Broker) : Action → Option Nat
  | .event _ fd _ => (b.kernel.epoll fd).map Registration.data
  | _ => none

/-- A step, with the client it is for if there is one. -/
inductive Progress (env : Env) (b : Broker) (who : Option Nat) : List Event → Broker → Prop where
  | idle (idle : Idle b b') : Progress env b who [] b'
  | unknown (serving : Serving b c .request k) (turn : who = some c) :
    Progress env b who [] (awaitReply (linked env { b with kernel := k } c pkt) (b.fd c) c)
  | request (serving : Serving b c .request k) (turn : who = some c)
    (decodable : Decodable (Command.ctype command))
    (handled : command.handler env (linked env { b with kernel := k } c pkt) c = .returned (rc,b₁)) :
    Progress env b who [.call command c (some pkt)] (awaitReply b₁ (b.fd c) c)
  | reply (serving : Serving b c .reply k) (turn : who = some c)
    (pending : (b.client.cell c).reply = some r)
    (delivered : (deliverReply env { b with kernel := k } c r).outcome = .returned (rc,b₁)) :
    Progress env b who (deliverReply env { b with kernel := k } c r).events (finishReply b₁ c)

variable {env : Env} {b b' : Broker} {c : Nat}

namespace Idle

theorem refl (b : Broker) : Idle b b where
  store := SameStore.refl b
  clients := rfl
  next := Nat.le_refl _
  old _ _ := Unmoved.refl _
  new _ known unknown := absurd unknown (Nat.not_lt.mpr known)

theorem trans (first : Idle b b') (second : Idle b' b'') : Idle b b'' where
  store := first.store.trans second.store
  clients := second.clients.trans first.clients
  next := first.next.trans second.next
  old p known := (first.old p known).trans (second.old p (known.trans_le first.next))
  new p unknown known := by
    by_cases before : p < b'.client.next
    · obtain ⟨reply,ctx⟩ := first.new p unknown before
      have unmoved := second.old p before
      exact ⟨unmoved.reply.trans reply,unmoved.ctx.trans ctx⟩
    · exact second.new p (Nat.not_lt.mp before) known

theorem setKernel (b : Broker) (f : Kernel → Kernel) : Idle b (b.setKernel f) :=
  ⟨⟨rfl,rfl,rfl⟩,rfl,Nat.le_refl _,fun _ _ => Unmoved.refl _,
    fun _ known unknown => absurd unknown (Nat.not_lt.mpr known)⟩

theorem setClient (b : Broker) (c : Nat) (f : Client → Client)
    (unmoved : Unmoved (b.client.cell c) (f (b.client.cell c))) : Idle b (b.setClient c f) where
  store := ⟨rfl,rfl,rfl⟩
  clients := rfl
  next := Nat.le_refl _
  old p _ := by
    by_cases same : p = c
    · subst same
      rwa [b.setClient_same]
    · rw [b.setClient_other c p f same]
      exact Unmoved.refl _
  new _ known unknown := absurd unknown (Nat.not_lt.mpr known)

theorem checkClientStatus (env : Env) (b : Broker) (kv : CString × Nat) :
    Idle b (checkClientStatus env b kv).2 := by
  unfold Sizigy.checkClientStatus
  dsimp only
  split
  · exact (setKernel b _).trans (setClient _ kv.2 _ ⟨rfl,rfl,rfl,rfl,rfl,nofun⟩)
  · exact refl b

theorem sweep (env : Env) (b : Broker) : Idle b (keepaliveSweep env b) :=
  hashmapIterate2_invariant (Idle b) (fun b₁ kv before => before.trans (checkClientStatus env b₁ kv))
    b.clients b (refl b)

theorem accept (env : Env) (b : Broker) (server : Nat) (accepted : Accepted) :
    Idle b (acceptHandler env b server accepted).2 := by
  cases accepted with
  | refused => exact refl b
  | lost fd => exact setKernel b (·.accept fd .stray ⟨[],.quiet⟩)
  | taken fd s =>
    refine ⟨⟨rfl,rfl,rfl⟩,rfl,Nat.le_succ _,fun p known => ?_,fun p unknown known => ?_⟩
    · have kept : (acceptHandler env b server (.taken fd s)).2.client.cell p = b.client.cell p :=
        Heap.alloc_old _ _ p (Nat.ne_of_lt known)
      rw [kept]
      exact Unmoved.refl _
    · obtain rfl : p = b.client.next := Nat.le_antisymm (Nat.le_of_lt_succ known) unknown
      have joined : (acceptHandler env b server (.taken fd s)).2.client.cell b.client.next =
        ⟨.online,configKeepalive,env.now,fd,.request,env.randomName,none,none⟩ := Heap.alloc_new _ _
      rw [joined]
      exact ⟨rfl,rfl⟩

end Idle

theorem serveRequest_progress (serving : Serving b c .request k) (decodable : Decodable opcode)
    (done : (serveRequest env { b with kernel := k } c opcode pkt).outcome = .returned (rc,b')) :
    Progress env b (some c) (serveRequest env { b with kernel := k } c opcode pkt).events b' := by
  obtain ⟨b₁,rfl,⟨command,rc',rfl,handled⟩ | ⟨unknown,rfl⟩⟩ := serveRequest_cases done
  · rw [serveRequest_events]
    exact .request serving rfl decodable handled
  · rw [serveRequest_unknown env _ c pkt unknown]
    exact .unknown serving rfl

theorem requestHandler_progress (serving : Serving b c .request k)
    (done : (requestHandler env { b with kernel := k } c).outcome = .returned (rc,b')) :
    Progress env b (some c) (requestHandler env { b with kernel := k } c).events b' := by
  obtain ⟨packet,s,received,cases⟩ := requestHandler_cases done
  rcases cases with ⟨rfl,rfl⟩ | ⟨opcode,buffer,rfl,⟨undecoded,rfl⟩ | ⟨pkt,decoded,served⟩⟩
  · rw [requestHandler_quiet received]
    have stored := (Idle.setKernel b fun _ => k).trans (Idle.setKernel _ (·.setSocket (b.fd c) s))
    have waiting := Idle.setClient ((b.setKernel fun _ => k).setKernel (·.setSocket (b.fd c) s)) c
      (fun k => { k with ctxHandler := .request })
      ⟨rfl,serving.handler.symm,rfl,rfl,rfl,fun online => online⟩
    exact .idle ((stored.trans waiting).trans (Idle.setKernel _ _))
  · rw [requestHandler_events received,undecoded]
    exact .idle ((Idle.setKernel b fun _ => k).trans (Idle.setKernel _ _))
  · rw [requestHandler_events received,decoded]
    have serving' : Serving b c .request (k.setSocket (b.fd c) s) :=
      ⟨serving.known,serving.client,serving.handler,serving.open',serving.connection⟩
    exact serveRequest_progress serving' (unpackPacket_decodable decoded) served

theorem replyHandler_progress (serving : Serving b c .reply k)
    (done : (replyHandler env { b with kernel := k } c).outcome = .returned (rc,b')) :
    Progress env b (some c) (replyHandler env { b with kernel := k } c).events b' := by
  rcases replyHandler_cases done with ⟨_,rfl,silent⟩ | ⟨r,b₁,pending,delivered,shown,rfl⟩
  · rw [silent]
    exact .idle (Idle.setKernel b fun _ => k)
  · rw [shown]
    exact .reply serving rfl pending delivered

theorem processed_progress (inv : Registered b) (registered : b.kernel.epoll fd = some r)
    (processed : Processed env w (b.setKernel (·.disarm fd)) r.data readiness events b') :
    Progress env b (some r.data) events b' := by
  obtain ⟨known,same,open'⟩ := inv.own fd r registered
  have disarmed : (b.kernel.disarm fd).connection = b.kernel.connection := Kernel.disarm_connection _ _
  have serving {ctx : CtxHandler} (handler : (b.client.cell r.data).ctxHandler = ctx) (apart : ctx ≠ .accept) :
      Serving b r.data ctx (b.kernel.disarm fd) := by
    refine ⟨known,?_,handler,same ▸ open',disarmed⟩
    intro server
    rw [server] at handler
    exact apart (handler.symm.trans inv.server.2)
  have idle := Idle.setKernel b (·.disarm fd)
  cases processed with
  | error => exact .idle (idle.trans (Idle.setKernel _ _))
  | quit => exact .idle idle
  | accept => exact .idle (idle.trans (Idle.accept env _ _ _))
  | request _ ctx done => exact requestHandler_progress (serving ctx (by decide)) done
  | reply _ ctx done => exact replyHandler_progress (serving ctx (by decide)) done

/-- Every step of a run is of one of the four kinds. -/
theorem performed_progress (inv : Registered b) (performed : Performed b label b') :
    Progress label.env b (addressee b label.action) label.events b' := by
  obtain ⟨env,action,events⟩ := label
  obtain ⟨enabled,outcome,shown⟩ := performed
  obtain rfl : (perform env b action).events = events := shown
  cases action with
  | arrive fd s =>
    obtain rfl := Outcome.returned.inj outcome
    exact .idle (Idle.setKernel b _)
  | event w fd readiness =>
    obtain ⟨⟨data,interest,registered⟩,_⟩ := enabled
    rw [addressee,registered,Option.map_some]
    exact processed_progress inv registered (workerEvent_processed registered outcome)
  | sweep =>
    obtain rfl := Outcome.returned.inj outcome
    exact .idle (Idle.sweep env b)
  | disconnect c =>
    obtain rfl := Outcome.returned.inj outcome
    rw [closeSockets_eq]
    exact .idle (Idle.setKernel b (·.close (b.fd c)))

/-- What is read of a client does not depend on its clock or its pending reply. -/
structure Blind (field : Client → β) : Prop where
  clock : ∀ k time, field { k with lastActionTime := time } = field k
  reply : ∀ k reply, field { k with reply := reply } = field k

section Fields

variable {field : Client → β} {p : Nat}

theorem clocked_field (blind : Blind field) (env : Env) (b : Broker) (c p : Nat) :
    field ((updateClientLastAction env b c).client.cell p) = field (b.client.cell p) :=
  b.setClient_field c p _ field fun k => blind.clock k env.now

theorem acked_field (blind : Blind field) (env : Env) (b : Broker) (c : Nat) (opcode rc : UInt8) (p : Nat) :
    field ((setAckReply env b c opcode rc).client.cell p) = field (b.client.cell p) :=
  b.setClient_field c p _ field fun k => blind.reply k _

theorem registerClient_field (renamed : p = c → ∀ k id, field { k with id := id } = field k)
    (done : registerClient env b c pkt = .returned b') : field (b'.client.cell p) = field (b.client.cell p) := by
  rcases registerClient_cases done with ⟨_,rfl⟩ | ⟨_,b₁,deleted,_,added⟩ | ⟨_,_,added⟩
  · rfl
  · rw [addClient_client added,← delClient_client deleted]
    by_cases own : p = c
    · exact b₁.setClient_field c p _ field fun k => renamed own k _
    · rw [b₁.setClient_other c p _ own]
  · rw [addClient_client added]

theorem publishHandler_field (blind : Blind field) (done : publishHandler env b c = .returned (rc,b')) (p : Nat) :
    field (b'.client.cell p) = field (b.client.cell p) := by
  unfold publishHandler at done
  split at done
  · obtain ⟨_,rfl⟩ := Prod.mk.inj (Outcome.returned.inj done)
    split
    · rfl
    · exact b.setClient_field c p _ field fun k => blind.reply k _
  · cases done

theorem subscribeHandler_field (blind : Blind field) (done : subscribeHandler env b c = .returned (rc,b')) (p : Nat) :
    field (b'.client.cell p) = field (b.client.cell p) := by
  obtain ⟨pkt,_,⟨_,rfl⟩ | ⟨_,t,b₁,b₂,found,added,rfl⟩⟩ := subscribeHandler_cases done
  · exact acked_field blind env b c _ _ p
  · have acked := acked_field blind env b₁ c Opcode.suback 0 p
    rw [← addSubscriber_client added,findTopic_client found] at acked
    exact (b₂.setClient_field c p _ field fun k => blind.reply k _).trans acked

/-- A request changes such a field of no client, but for the id that a CONNECT sets. -/
theorem handler_field (blind : Blind field)
    (renamed : command = .connect → p = c → ∀ k id, field { k with id := id } = field k)
    (decodable : Decodable (Command.ctype command)) (done : command.handler env b c = .returned (rc,b')) :
    field (b'.client.cell p) = field (b.client.cell p) := by
  rcases decodable_command decodable with rfl | rfl | rfl | rfl
  · obtain ⟨pkt,b₁,_,registered,rfl⟩ := connectHandler_cases done
    have acked := acked_field blind env b₁ c Opcode.connack (if pkt.idlen = 0 then 1 else 0) p
    exact ((clocked_field blind env _ c p).trans acked).trans (registerClient_field (renamed rfl) registered)
  · exact publishHandler_field blind done p
  · obtain ⟨_,rfl⟩ := Prod.mk.inj (Outcome.returned.inj done)
    exact (clocked_field blind env _ c p).trans (acked_field blind env b c _ _ p)
  · exact subscribeHandler_field blind done p

theorem touchAll_field (blind : Blind field) (env : Env) (subs : List Subscription) (b : Broker) (p : Nat) :
    field ((touchAll env b subs).client.cell p) = field (b.client.cell p) := by
  induction subs generalizing b with
  | nil => rfl
  | cons sub subs ih => exact (ih _).trans (clocked_field blind env b sub.client p)

theorem published_field (blind : Blind field) (env : Env) (b : Broker) (t : Nat) (msg : Publish) (p : Nat) :
    field ((published env b t msg).client.cell p) = field (b.client.cell p) := by
  unfold published
  split
  · exact touchAll_field blind env _ b p
  · have kept : (retainMessage b t msg).client = b.client := by
      unfold retainMessage
      cases (b.topic.cell t).retained with
      | none => rfl
      | some m => rfl
    rw [touchAll_field blind env _ _ p,kept]

theorem deliverReply_field (blind : Blind field) (done : (deliverReply env b c r).outcome = .returned (ret,b'))
    (p : Nat) : field (b'.client.cell p) = field (b.client.cell p) := by
  obtain ⟨pkt,t,b₁,_,_,found,_,rfl⟩ | ⟨_,_,_,_,_,_,rfl⟩ | ⟨_,_,_,_,rfl⟩ := deliverReply_shape done
  · have sent := published_field blind env b₁ t pkt p
    rw [findTopic_client found] at sent
    exact (clocked_field blind env _ c p).trans sent
  · exact clocked_field blind env b c p
  · rfl

end Fields

/-- The reply that a request leaves for its client, given the one that was there. -/
inductive Asked (env : Env) (fd : Fd) (before : Option Reply) : Command → Packet → Option Reply → Prop where
  | connect : Asked env fd before .connect (.connect conn)
    (some ⟨Opcode.connack,fd,.payload (ackBuffer env Opcode.connack (if conn.idlen = 0 then 1 else 0)),retained⟩)
  | pingreq : Asked env fd before .pingreq pkt
    (some ⟨Opcode.pingresp,fd,.payload (ackBuffer env Opcode.pingresp 0),retained⟩)
  | subscribe : Asked env fd before .subscribe (.subscribe sub)
    (some ⟨Opcode.suback,fd,.payload (ackBuffer env Opcode.suback (if sub.topicLen = 0 then 1 else 0)),retained⟩)
  | publish (topic : p.topicLen ≠ 0) : Asked env fd before .publish (.publish p)
    (some ⟨Opcode.publish,fd,.publish p,retained⟩)
  | nothing (empty : p.topicLen = 0) : Asked env fd before .publish (.publish p) before

theorem connectHandler_asked (stored : (b.client.cell c).ptr = some pkt)
    (done : connectHandler env b c = .returned (rc,b')) :
    Asked env (b.fd c) before .connect pkt (b'.client.cell c).reply := by
  obtain ⟨conn,b₁,stored',registered,rfl⟩ := connectHandler_cases done
  obtain rfl := Option.some.inj (stored.symm.trans stored')
  rw [updateClientLastAction_reply,setAckReply_reply,(registerClient_local registered).fd]
  exact .connect

theorem subscribeHandler_asked (stored : (b.client.cell c).ptr = some pkt)
    (done : subscribeHandler env b c = .returned (rc,b')) :
    Asked env (b.fd c) before .subscribe pkt (b'.client.cell c).reply := by
  obtain ⟨sub,stored',⟨empty,rfl⟩ | ⟨topic,t,b₁,b₂,found,added,rfl⟩⟩ := subscribeHandler_cases done
  all_goals obtain rfl := Option.some.inj (stored.symm.trans stored')
  · have answer : (1 : UInt8) = if sub.topicLen = 0 then 1 else 0 := (if_pos empty).symm
    rw [setAckReply_reply,answer]
    exact .subscribe
  · have answer : (0 : UInt8) = if sub.topicLen = 0 then 1 else 0 := (if_neg topic).symm
    have pending := setAckReply_reply env b₁ c Opcode.suback 0
    have fd : b₁.fd c = b.fd c := by rw [Broker.fd,findTopic_client found,Broker.fd]
    rw [← addSubscriber_client added,fd,answer] at pending
    rw [b₂.setClient_same,pending]
    exact .subscribe

theorem handler_asked (decodable : Decodable (Command.ctype command))
    (stored : (b.client.cell c).ptr = some pkt) (done : command.handler env b c = .returned (rc,b')) :
    Asked env (b.fd c) (b.client.cell c).reply command pkt (b'.client.cell c).reply := by
  rcases decodable_command decodable with rfl | rfl | rfl | rfl
  · exact connectHandler_asked stored done
  · obtain ⟨p,stored',_,empty,topic⟩ := publishHandler_local done
    obtain rfl := Option.some.inj (stored.symm.trans stored')
    by_cases nothing : p.topicLen = 0
    · rw [empty nothing]
      exact .nothing nothing
    · rw [topic nothing]
      exact .publish nothing
  · obtain ⟨_,rfl⟩ := Prod.mk.inj (Outcome.returned.inj done)
    rw [updateClientLastAction_reply,setAckReply_reply]
    exact .pingreq
  · exact subscribeHandler_asked stored done

/-- A client that waits for a request has nothing to send. -/
def Ready (b : Broker) : Prop :=
  ∀ c, c < b.client.next → (b.client.cell c).ctxHandler = .request → (b.client.cell c).reply = none

theorem start_ready (fd : Fd) : Ready (startServer fd) := by
  intro c _ _
  rfl

/-- Serving a client leaves the others where they are. -/
theorem touched_ready (ready : Ready b) (touched : Touched c { b with kernel := k } b')
    (own : (b'.client.cell c).ctxHandler = .request → (b'.client.cell c).reply = none) : Ready b' := by
  intro p known ctx
  by_cases same : p = c
  · subst same
    exact own ctx
  · rw [touched.next] at known
    rw [touched.ctx p same] at ctx
    rw [touched.reply p same]
    exact ready p known ctx

theorem request_touched (decodable : Decodable (Command.ctype command))
    (handled : command.handler env (linked env { b with kernel := k } c pkt) c = .returned (rc,b₁)) :
    Touched c { b with kernel := k } (awaitReply b₁ (b.fd c) c) := by
  have loc := (linked_local env { b with kernel := k } c pkt).trans (handler_local decodable handled)
  have armed := awaitReply_touched b₁ c
  rw [loc.fd] at armed
  exact (Touched.of_local loc).trans armed

theorem unknown_touched (env : Env) (b : Broker) (c : Nat) (k : Kernel) (pkt : Packet) :
    Touched c { b with kernel := k } (awaitReply (linked env { b with kernel := k } c pkt) (b.fd c) c) := by
  have loc := linked_local env { b with kernel := k } c pkt
  have armed := awaitReply_touched (linked env { b with kernel := k } c pkt) c
  rw [loc.fd] at armed
  exact (Touched.of_local loc).trans armed

theorem progress_ready (ready : Ready b) (progress : Progress env b who events b') : Ready b' := by
  cases progress with
  | idle idle =>
    intro p known ctx
    by_cases old : p < b.client.next
    · have unmoved := idle.old p old
      rw [unmoved.reply]
      exact ready p old (unmoved.ctx ▸ ctx)
    · exact (idle.new p (Nat.not_lt.mp old) known).1
  | @unknown c k pkt serving turn =>
    refine touched_ready ready (unknown_touched env b c k pkt) fun ctx => ?_
    rw [awaitReply_ctx] at ctx
    cases ctx
  | @request c k command pkt rc b₁ serving turn decodable handled =>
    refine touched_ready ready (request_touched decodable handled) fun ctx => ?_
    rw [awaitReply_ctx] at ctx
    cases ctx
  | @reply c k r rc b₁ serving turn pending delivered =>
    have touched := (Touched.of_local (deliverReply_local delivered)).trans (finishReply_touched b₁ c)
    refine touched_ready ready touched fun _ => ?_
    simp [finishReply]

end Sizigy.Conversation
