import Sizigy.Machine

/-! Connections that stay served. After an event a client is closed, or waits for input with
nothing to send, or waits for output with a reply to send, as long as no error event comes
and no packet that the request handler drops. -/
namespace Sizigy.EventLoop

open Machine

def Settled (b : Broker) (c : Nat) : Prop :=
  b.kernel.connection (b.fd c) ≠ some (.client c) ∨
  (b.kernel.epoll (b.fd c) = some ⟨c,some .epollin⟩ ∧ (b.client.cell c).ctxHandler = .request ∧
    (b.client.cell c).reply = none) ∨
  (b.kernel.epoll (b.fd c) = some ⟨c,some .epollout⟩ ∧ (b.client.cell c).ctxHandler = .reply ∧
    (b.client.cell c).reply.isSome)

/-- Packets that leave a reply: the opcode has a decoder and a handler, and a PUBLISH has a
topic. -/
def Answerable (opcode : UInt8) (buffer : Buffer) : Prop :=
  opcode = Opcode.connect ∨ opcode = Opcode.subscribe ∨ opcode = Opcode.pingreq ∨
    (opcode = Opcode.publish ∧ (unpackPublish buffer).1.topicLen ≠ 0)

/-- The condition on an event for a client, in the state before it. -/
def Benign (env : Env) (b : Broker) : Action → Prop
  | .event w fd readiness => ∀ c armed, b.kernel.epoll fd = some ⟨c,armed⟩ → c ≠ 0 →
    (readiness = .error → w.dataFd c = fd) ∧
    (readiness = .ready → w.dataFd c ≠ w.run.toNat ∧
      ((b.client.cell c).ctxHandler = .request → ∀ opcode buffer s,
        incoming env b c = .returned (some (opcode,buffer),s) → Answerable opcode buffer))
  | _ => True

variable {env : Env} {b b' : Broker} {c d : Nat}

theorem settled_kept (settled : Settled b d) (fd : b'.fd d = b.fd d)
    (ctx : (b'.client.cell d).ctxHandler = (b.client.cell d).ctxHandler)
    (reply : (b'.client.cell d).reply = (b.client.cell d).reply)
    (kernel : b'.kernel.connection (b.fd d) ≠ some (.client d) ∨
      (b'.kernel.connection (b.fd d) = b.kernel.connection (b.fd d) ∧
        b'.kernel.epoll (b.fd d) = b.kernel.epoll (b.fd d))) : Settled b' d := by
  unfold Settled at *
  rw [fd,ctx,reply]
  rcases kernel with closed | ⟨connection,epoll⟩
  · exact .inl closed
  · rw [connection,epoll]
    exact settled

/-- An event for one client leaves the others settled. -/
theorem settled_other (touched : Touched c b b')
    (open' : b.kernel.connection (b.fd c) = some (.client c)) (apart : d ≠ c)
    (settled : Settled b d) : Settled b' d := by
  refine settled_kept settled (touched.fd d) (touched.ctx d apart) (touched.reply d apart) ?_
  rw [touched.connection]
  by_cases same : b.fd d = b.fd c
  · rw [same,open']
    exact .inl fun equal => apart (Peer.client.inj (Option.some.inj equal)).symm
  · exact .inr ⟨rfl,touched.epoll _ same⟩

theorem settled_close (settled : Settled b d) (fd : Fd) : Settled (b.setKernel (·.close fd)) d := by
  refine settled_kept settled rfl rfl rfl ?_
  by_cases same : b.fd d = fd
  · exact .inl (by simp [same])
  · exact .inr (by simp [same])

theorem settled_local (settled : Settled b d) (loc : Local c b b')
    (reply : (b'.client.cell d).reply = (b.client.cell d).reply) : Settled b' d :=
  settled_kept settled (loc.fd d) (loc.ctx d) reply (.inr (by rw [loc.kernel]; exact ⟨rfl,rfl⟩))

theorem settled_checkClientStatus (env : Env) (kv : CString × Nat) (settled : Settled b d) :
    Settled (checkClientStatus env b kv).2 d := by
  unfold checkClientStatus
  dsimp only
  split
  · exact settled_local (c := kv.2) (settled_close settled _)
      (Local.setClient _ kv.2 _ (fun _ => rfl) fun _ => rfl)
      (Broker.setClient_field _ kv.2 d (fun k => { k with status := .offline }) Client.reply fun _ => rfl)
  · exact settled

theorem checkClientStatus_next (env : Env) (b : Broker) (kv : CString × Nat) :
    (checkClientStatus env b kv).2.client.next = b.client.next := by
  unfold checkClientStatus
  dsimp only
  split <;> rfl

theorem settled_sweep (env : Env) (settled : Settled b d) : Settled (keepaliveSweep env b) d :=
  hashmapIterate2_invariant (Settled · d) (fun _ kv before => settled_checkClientStatus env kv before)
    b.clients b settled

theorem awaitReply_settled (registered : b.kernel.epoll (b.fd c) = some r)
    (pending : (b.client.cell c).reply.isSome) : Settled (awaitReply b (b.fd c) c) c := by
  have same : (awaitReply b (b.fd c) c).fd c = b.fd c := (awaitReply_touched b c).fd c
  refine .inr (.inr ⟨?_,?_,?_⟩)
  · rw [same]
    simp [awaitReply,Kernel.modEpoll_epoll,registered]
  · simp [awaitReply]
  · simpa [awaitReply] using pending

theorem awaitRequest_settled (registered : b.kernel.epoll (b.fd c) = some r)
    (nothing : (b.client.cell c).reply = none) : Settled (awaitRequest b (b.fd c) c) c := by
  have same : (awaitRequest b (b.fd c) c).fd c = b.fd c := (awaitRequest_touched b c).fd c
  refine .inr (.inl ⟨?_,?_,?_⟩)
  · rw [same]
    simp [awaitRequest,Kernel.modEpoll_epoll,registered]
  · simp [awaitRequest]
  · simpa [awaitRequest] using nothing

theorem finishReply_settled (registered : b.kernel.epoll (b.fd c) = some r) :
    Settled (finishReply b c) c := by
  have same : (finishReply b c).fd c = b.fd c := (finishReply_touched b c).fd c
  refine .inr (.inl ⟨?_,?_,?_⟩)
  · rw [same]
    simp [finishReply,Kernel.modEpoll_epoll,registered]
  · simp [finishReply]
  · simp [finishReply]

theorem answerable_decoded (answerable : Answerable opcode buffer) :
    ∃ pkt, (unpackPacket opcode buffer).1 = some pkt := by
  rcases answerable with rfl | rfl | rfl | ⟨rfl,_⟩ <;> exact ⟨_,rfl⟩

theorem publish_decoded (buffer : Buffer) :
    (unpackPacket Opcode.publish buffer).1 = some (.publish (unpackPublish buffer).1) := rfl

/-- The handler of an answerable packet sets a reply. -/
theorem answerable_replies (answerable : Answerable (Command.ctype command) buffer)
    (decoded : (unpackPacket command.ctype buffer).1 = some pkt)
    (done : command.handler env (linked env b c pkt) c = .returned (rc,b')) :
    (b'.client.cell c).reply.isSome := by
  rcases decodable_command (unpackPacket_decodable decoded) with rfl | rfl | rfl | rfl
  · exact (connectHandler_local done).2
  · obtain ⟨pkt',stored,_,_,replies⟩ := publishHandler_local done
    rw [linked_ptr] at stored
    have same := Packet.publish.inj (Option.some.inj ((publish_decoded buffer).symm.trans
      (decoded.trans stored)))
    rw [← same] at replies
    rcases answerable with impossible | impossible | impossible | ⟨_,topic⟩
    · exact absurd impossible (by decide)
    · exact absurd impossible (by decide)
    · exact absurd impossible (by decide)
    · rw [replies topic]
      rfl
  · exact (pingreqHandler_local done).2
  · exact (subscribeHandler_local done).2

theorem answerable_command (answerable : Answerable opcode buffer) :
    ∃ command : Command, command.ctype = opcode := by
  rcases answerable with rfl | rfl | rfl | ⟨rfl,_⟩
  · exact ⟨.connect,rfl⟩
  · exact ⟨.subscribe,rfl⟩
  · exact ⟨.pingreq,rfl⟩
  · exact ⟨.publish,rfl⟩

theorem request_settled (registered : b.kernel.epoll (b.fd c) = some r)
    (nothing : (b.client.cell c).reply = none)
    (answerable : ∀ opcode buffer s, incoming env b c = .returned (some (opcode,buffer),s) →
      Answerable opcode buffer)
    (done : (requestHandler env b c).outcome = .returned (rc,b')) : Settled b' c := by
  obtain ⟨packet,s,received,cases⟩ := requestHandler_cases done
  rcases cases with ⟨_,rfl⟩ | ⟨opcode,buffer,rfl,rest⟩
  · exact awaitRequest_settled (b := b.setKernel (·.setSocket (b.fd c) s)) registered nothing
  · have good := answerable opcode buffer s received
    rcases rest with ⟨undecoded,_⟩ | ⟨pkt,decoded,served⟩
    · obtain ⟨pkt,decoded⟩ := answerable_decoded good
      rw [undecoded] at decoded
      contradiction
    · obtain ⟨b₁,rfl,handled⟩ := serveRequest_cases served
      rcases handled with ⟨command,rc',rfl,returned⟩ | ⟨unknown,_⟩
      · have loc := (linked_local env _ c pkt).trans
          (handler_local (unpackPacket_decodable decoded) returned)
        have registered₁ : b₁.kernel.epoll (b₁.fd c) = some r := by
          rw [loc.fd,loc.kernel]
          exact registered
        have settled := awaitReply_settled registered₁ (answerable_replies good decoded returned)
        rwa [loc.fd] at settled
      · obtain ⟨command,known⟩ := answerable_command good
        exact absurd known (unknown command)

theorem reply_settled (registered : b.kernel.epoll (b.fd c) = some r)
    (pending : (b.client.cell c).reply.isSome)
    (done : (replyHandler env b c).outcome = .returned (rc,b')) : Settled b' c := by
  rcases replyHandler_cases done with ⟨nothing,_⟩ | ⟨reply,b₁,_,delivered,_,rfl⟩
  · rw [nothing] at pending
    contradiction
  · have loc := deliverReply_local delivered
    exact finishReply_settled (r := r) (by rw [loc.fd,loc.kernel]; exact registered)

structure AllSettled (b : Broker) : Prop where
  registered : Registered b
  settled : ∀ c, c ≠ 0 → c < b.client.next → Settled b c

theorem start_settled (fd : Fd) : AllSettled (startServer fd) where
  registered := start_registered fd
  settled c client known := absurd known (by simp [startServer]; omega)

theorem joined_settled (joined : Joined b 0 fd b')
    (open' : b.kernel.connection (b.fd 0) = some (.client 0))
    (settled : ∀ c, c ≠ 0 → c < b.client.next → Settled b c) (client : d ≠ 0)
    (known : d < b'.client.next) : Settled b' d := by
  rw [joined.next] at known
  rcases Nat.lt_succ_iff_lt_or_eq.mp known with less | rfl
  · have old := joined.old d (Nat.ne_of_lt less)
    refine settled_kept (settled d client less) (by rw [Broker.fd,old]; rfl) (by rw [old]) (by rw [old]) ?_
    rw [joined.connection]
    by_cases new : b.fd d = fd
    · rw [new,Function.update_self]
      exact .inl fun equal => absurd (Peer.client.inj (Option.some.inj equal)).symm (Nat.ne_of_lt less)
    · rw [Function.update_of_ne new]
      by_cases atServer : b.fd d = b.fd 0
      · rw [atServer,open']
        exact .inl fun equal => absurd (Peer.client.inj (Option.some.inj equal)).symm client
      · exact .inr ⟨rfl,joined.epollOld _ new atServer⟩
  · exact .inr (.inl ⟨by rw [joined.newFd,joined.epollNew],joined.ctx,joined.reply⟩)

theorem accept_settled (env : Env) (registered : Registered b) (fresh : FreshFd b accepted)
    (open' : b.kernel.connection (b.fd 0) = some (.client 0))
    (settled : ∀ c, c ≠ 0 → c < b.client.next → Settled b c) (client : d ≠ 0)
    (known : d < (acceptHandler env b 0 accepted).2.client.next) :
    Settled (acceptHandler env b 0 accepted).2 d := by
  cases accepted with
  | refused => exact settled d client known
  | lost fd =>
    refine settled_kept (settled d client known) rfl rfl rfl ?_
    rw [acceptHandler,Broker.setKernel_kernel,Kernel.accept_connection,Kernel.accept_epoll]
    by_cases same : b.fd d = fd
    · rw [same,Function.update_self]
      refine .inl fun equal => ?_
      cases Option.some.inj equal
    · rw [Function.update_of_ne same]
      exact .inr ⟨rfl,rfl⟩
  | taken fd s =>
    have apart : b.fd 0 ≠ fd := fun same => by
      rw [same,show b.kernel.connection fd = none from fresh] at open'
      contradiction
    have joined := accept_joined env s registered.server.1 (registered.closed fresh) apart
    exact joined_settled joined open' settled client known

/-- A settled client whose event comes is open, and its context handler fits its reply. -/
theorem settled_ready (settled : Settled b c) (open' : b.kernel.connection (b.fd c) = some (.client c)) :
    ((b.client.cell c).ctxHandler = .request ∧ (b.client.cell c).reply = none) ∨
    ((b.client.cell c).ctxHandler = .reply ∧ (b.client.cell c).reply.isSome) := by
  rcases settled with closed | ⟨_,ctx,reply⟩ | ⟨_,ctx,reply⟩
  · exact absurd open' closed
  · exact .inl ⟨ctx,reply⟩
  · exact .inr ⟨ctx,reply⟩

theorem settled_request (settled : Settled b c) (open' : b.kernel.connection (b.fd c) = some (.client c))
    (ctx : (b.client.cell c).ctxHandler = .request) : (b.client.cell c).reply = none := by
  rcases settled_ready settled open' with ⟨_,nothing⟩ | ⟨reply,_⟩
  · exact nothing
  · exact absurd (reply.symm.trans ctx) (by decide)

theorem settled_reply (settled : Settled b c) (open' : b.kernel.connection (b.fd c) = some (.client c))
    (ctx : (b.client.cell c).ctxHandler = .reply) : (b.client.cell c).reply.isSome := by
  rcases settled_ready settled open' with ⟨request,_⟩ | ⟨_,pending⟩
  · exact absurd (request.symm.trans ctx) (by decide)
  · exact pending

/-- Only the server's own entry accepts connections. -/
theorem settled_accept (settled : Settled b c) (open' : b.kernel.connection (b.fd c) = some (.client c)) :
    (b.client.cell c).ctxHandler ≠ .accept := by
  intro ctx
  rcases settled_ready settled open' with ⟨request,_⟩ | ⟨reply,_⟩
  · exact absurd (request.symm.trans ctx) (by decide)
  · exact absurd (reply.symm.trans ctx) (by decide)

theorem event_settled (inv : AllSettled b)
    (armed : b.kernel.epoll fd = some ⟨c,some interest⟩) (fresh : FreshFd b w.accepted)
    (benign : Benign env b (.event w fd readiness))
    (processed : Processed env w (b.setKernel (·.disarm fd)) c readiness events b') (client : d ≠ 0)
    (known : d < b'.client.next) : Settled b' d := by
  obtain ⟨knownC,same,open'⟩ := inv.registered.own fd _ armed
  subst same
  have benign := benign c _ armed
  have disarmed := Touched.disarm b c
  have registered : (b.setKernel (·.disarm (b.fd c))).kernel.epoll (b.fd c) = some ⟨c,none⟩ := by
    rw [Broker.setKernel_kernel,Kernel.disarm_epoll,if_pos rfl,armed]
    rfl
  have others (touched : Touched c (b.setKernel (·.disarm (b.fd c))) b') (apart : d ≠ c) : Settled b' d := by
    have whole := disarmed.trans touched
    rw [whole.next] at known
    exact settled_other whole open' apart (inv.settled d client known)
  cases processed with
  | error =>
    by_cases self : d = c
    · subst self
      refine .inl ?_
      rw [(benign client).1 rfl]
      simp
    · exact settled_close (settled_other disarmed open' self (inv.settled d client known)) _
  | quit run =>
    by_cases self : d = c
    · subst self
      exact absurd run ((benign client).2 rfl).1
    · exact others (Touched.of_local (Local.refl c _)) self
  | accept _ ctx =>
    have server : c = 0 := by
      by_contra accepted
      exact settled_accept (inv.settled c accepted knownC) open' ctx
    subst server
    have fresh' : FreshFd (b.setKernel (·.disarm (b.fd 0))) w.accepted := disarm_fresh fresh
    refine accept_settled env (inv.registered.disarm _) fresh' ?_ ?_ client known
    · rw [Broker.setKernel_kernel,Kernel.disarm_connection]
      exact open'
    · exact fun p client' known' => settled_other disarmed open' client' (inv.settled p client' known')
  | request apart ctx done =>
    by_cases self : d = c
    · subst self
      have quiet := settled_request (inv.settled d client knownC) open' ctx
      refine request_settled registered quiet (fun opcode buffer s received => ?_) done
      refine ((benign client).2 rfl).2 ctx opcode buffer s ?_
      rw [incoming,Broker.setKernel_kernel,Kernel.disarm_socket] at received
      exact received
    · exact others (requestHandler_touched done) self
  | reply apart ctx done =>
    by_cases self : d = c
    · subst self
      have pending := settled_reply (inv.settled d client knownC) open' ctx
      exact reply_settled registered pending done
    · exact others (replyHandler_touched done) self

theorem performed_settled (inv : AllSettled b) (benign : Benign label.env b label.action)
    (performed : Performed b label b') : AllSettled b' := by
  refine ⟨performed_registered inv.registered performed,fun d client known => ?_⟩
  obtain ⟨env,action,events⟩ := label
  obtain ⟨enabled,outcome,shown⟩ := performed
  cases action with
  | arrive fd s =>
    obtain rfl := Outcome.returned.inj outcome
    exact inv.settled d client known
  | event w fd readiness =>
    obtain ⟨⟨data,interest,armed⟩,fresh⟩ := enabled
    exact event_settled inv armed fresh benign (workerEvent_processed armed outcome) client known
  | sweep =>
    obtain rfl := Outcome.returned.inj outcome
    have same := hashmapIterate2_invariant (fun s => s.client.next = b.client.next)
      (fun s kv before => (checkClientStatus_next env s kv).trans before) b.clients b rfl
    exact settled_sweep env (inv.settled d client (by rwa [← same]))
  | disconnect c =>
    obtain rfl := Outcome.returned.inj outcome
    simp only [closeSockets_eq] at known ⊢
    exact settled_close (inv.settled d client known) _

/-- Along every run of benign actions each accepted client is closed, or armed for input with
no reply pending, or armed for output with one. -/
theorem benign_run_settled
    (run : Run (fun _ b label b' => Benign label.env b label.action ∧ Performed b label b')
      (startServer fd) past b) (client : c ≠ 0) (known : c < b.client.next) : Settled b c := by
  have inv := run.invariant (fun _ b => AllSettled b) (start_settled fd)
    fun _ _ _ _ _ before taken => performed_settled before taken.1 taken.2
  exact inv.settled c client known

/-- A worker that accepts a connection at descriptor 4 with some bytes waiting on it. -/
def acceptingWorker (first : UInt8) (more : List UInt8) : Worker where
  address := fun c => 64 + 16 * c
  run := 5
  accepted := .taken 4 ⟨[.bytes first more],.quiet⟩

/-- The first event of that connection. -/
def firstEvent : Action := .event ⟨fun c => 64 + 16 * c,5,.refused⟩ 4 .ready

def joinedBy (first : UInt8) (more : List UInt8) : Broker :=
  after plainEnv (startServer 3) (.event (acceptingWorker first more) 3 .ready)

def servedOnce (first : UInt8) (more : List UInt8) : Broker :=
  after plainEnv (joinedBy first more) firstEvent

/-- The labels of the two steps. -/
def servedTrace (first : UInt8) (more : List UInt8) : List Label :=
  [labelled plainEnv (startServer 3) (.event (acceptingWorker first more) 3 .ready),
    labelled plainEnv (joinedBy first more) firstEvent]

theorem joinedBy_performed (first : UInt8) (more : List UInt8) :
    Performed (startServer 3) (labelled plainEnv (startServer 3) (.event (acceptingWorker first more) 3 .ready))
      (joinedBy first more) :=
  performed_after ⟨⟨0,.epollin,rfl⟩,rfl⟩ rfl

/-- A PINGREQ leaves the client waiting to send. -/
theorem pingreq_settled : Settled (servedOnce 0xC0 [0,0,0,8,0,0,0]) 1 := by
  have performed : Performed (joinedBy 0xC0 [0,0,0,8,0,0,0]) _ (servedOnce 0xC0 [0,0,0,8,0,0,0]) :=
    performed_after ⟨⟨1,.epollin,rfl⟩,trivial⟩ (by decide +kernel)
  have brought : brings Opcode.pingreq [0xC0,0,0,0,8,0,0,0]
      (incoming plainEnv (joinedBy 0xC0 [0,0,0,8,0,0,0]) 1) = true := by decide +kernel
  obtain ⟨buffer',s',received',_⟩ := brings_packet brought
  have run : Run (fun _ b label b' => Benign label.env b label.action ∧ Performed b label b')
      (startServer 3) (servedTrace 0xC0 [0,0,0,8,0,0,0]) (servedOnce 0xC0 [0,0,0,8,0,0,0]) := by
    refine (Run.nil.snoc ⟨?_,joinedBy_performed 0xC0 [0,0,0,8,0,0,0]⟩).snoc ⟨?_,performed⟩
    · intro c armed registered client
      obtain rfl : 1 = c := congrArg Registration.data (Option.some.inj registered)
      refine ⟨nofun,fun _ => ⟨by decide,fun _ opcode buffer s received => ?_⟩⟩
      have same := (Prod.mk.inj (Outcome.returned.inj (received'.symm.trans received))).1
      obtain rfl := (Prod.mk.inj (Option.some.inj same)).1
      exact .inr (.inr (.inl rfl))
    · intro c armed registered client
      obtain rfl : 0 = c := congrArg Registration.data (Option.some.inj registered)
      exact absurd rfl client
  exact benign_run_settled run (by decide) (by decide +kernel)

/-- A DISCONNECT packet has no decoder: the request handler returns without arming the
descriptor again or closing it. -/
theorem disconnect_dead :
    Run (fun _ b label b' => Performed b label b') (startServer 3) (servedTrace 0xF0 [0,0,0,5])
      (servedOnce 0xF0 [0,0,0,5]) ∧
    1 < (servedOnce 0xF0 [0,0,0,5]).client.next ∧ ¬Settled (servedOnce 0xF0 [0,0,0,5]) 1 := by
  refine ⟨?_,by decide +kernel,?_⟩
  · exact (Run.nil.snoc (joinedBy_performed 0xF0 [0,0,0,5])).snoc
      (performed_after ⟨⟨1,.epollin,rfl⟩,trivial⟩ (by decide +kernel))
  · have fd : (servedOnce 0xF0 [0,0,0,5]).fd 1 = 4 := by decide +kernel
    have open' : (servedOnce 0xF0 [0,0,0,5]).kernel.connection 4 = some (.client 1) := by decide +kernel
    have idle : (servedOnce 0xF0 [0,0,0,5]).kernel.epoll 4 = some ⟨1,none⟩ := by decide +kernel
    unfold Settled
    rw [fd,open',idle]
    rintro (closed | ⟨armed,_⟩ | ⟨armed,_⟩)
    · exact closed rfl
    · exact absurd armed (by decide)
    · exact absurd armed (by decide)

end Sizigy.EventLoop
