import Sizigy.ClientRegistry

/-! The listening socket. Its event is one-shot, and `accept_handler` arms it again only after a
connection was accepted. The first accept that fails leaves the broker with the clients it has. -/

namespace Sizigy.Listener
open Machine Conversation

variable {env : Env} {b b' : Broker} {c : Nat} {past later : List Label} {label : Label}
variable {key : CString} {d : Nat}

/-- The listening socket waits for connections. -/
def Listening (b : Broker) : Prop := ∃ interest, b.kernel.epoll (b.fd 0) = some ⟨0,some interest⟩

/-- The condition on an action in the state before it: an event for the listening socket brings a
connection that is accepted, and nothing closes its descriptor. -/
def Spares (b : Broker) : Action → Prop
  | .event w fd readiness => ∀ c interest, b.kernel.epoll fd = some ⟨c,some interest⟩ →
    (readiness = .error → w.dataFd c ≠ b.fd 0) ∧
    (c = 0 → readiness = .ready ∧ w.dataFd 0 ≠ w.run.toNat ∧ ∃ fd' s, w.accepted = .taken fd' s)
  | .disconnect c => c ≠ 0
  | _ => True

/-- The server is nobody else: no other client has its descriptor or its handler, and it is not in
the map that the keepalive thread sweeps. -/
structure Attended (b : Broker) : Prop where
  registered : Registered b
  apart : ∀ c, c ≠ 0 → c < b.client.next → b.fd c ≠ b.fd 0
  handler : ∀ c, c ≠ 0 → c < b.client.next → (b.client.cell c).ctxHandler ≠ .accept
  enrolled : ∀ key c, b.clients.Contains key c → c ≠ 0 ∧ c < b.client.next

theorem start_attended (fd : Fd) : Attended (startServer fd) where
  registered := start_registered fd
  apart c other known := absurd (Nat.lt_one_iff.mp known) other
  handler c other known := absurd (Nat.lt_one_iff.mp known) other
  enrolled key c stored := by simp [startServer,Hashmap.Contains,hashmapCreate] at stored

/-- A deletion stores nothing. -/
theorem remove_contains {m : Hashmap CString Nat} (stored : (m.remove key').2.Contains key d) :
    m.Contains key d := by
  unfold Hashmap.remove at stored
  split at stored
  next index found =>
    obtain ⟨inside,_,_⟩ := hashmapFind_some found
    obtain ⟨i,stored⟩ := stored
    rw [Probing.slot_set m.entries index _ none (by rwa [m.allocated])] at stored
    split at stored
    · contradiction
    · exact ⟨i,stored⟩
  · exact stored

theorem addClient_contains (done : addClient env b c = .returned b') (stored : b'.clients.Contains key d) :
    d = c ∨ b.clients.Contains key d := by
  obtain ⟨⟨status,clients⟩,put,done⟩ := Outcome.bind_eq_returned.mp done
  obtain rfl := Outcome.returned.inj done
  exact (put_subset put stored).imp_left And.right

theorem registerClient_contains (done : registerClient env b c pkt = .returned b')
    (stored : b'.clients.Contains key d) : d = c ∨ b.clients.Contains key d := by
  rcases registerClient_cases done with ⟨_,rfl⟩ | ⟨_,b₁,deleted,_,added⟩ | ⟨_,_,added⟩
  · exact .inr stored
  · obtain ⟨lock,rfl⟩ := ClientRegistry.delClient_removed deleted
    exact (addClient_contains added stored).imp_right remove_contains
  · exact addClient_contains added stored

theorem handler_contains (decodable : Decodable (Command.ctype command))
    (done : command.handler env b c = .returned (rc,b')) (stored : b'.clients.Contains key d) :
    d = c ∨ b.clients.Contains key d := by
  by_cases connect : command = .connect
  · subst connect
    obtain ⟨pkt,b₁,_,registered,rfl⟩ := connectHandler_cases done
    exact registerClient_contains registered stored
  · rw [ClientRegistry.handler_clients decodable connect done] at stored
    exact .inr stored

/-- Serving one client changes nothing about who the server is. -/
theorem touched_attended (attended : Attended b) (registered : Registered b') (client : c ≠ 0)
    (known : c < b.client.next) (touched : Touched c { b with kernel := k } b')
    (handler : (b'.client.cell c).ctxHandler ≠ .accept)
    (enrolled : ∀ key d, b'.clients.Contains key d → d = c ∨ b.clients.Contains key d) : Attended b' where
  registered := registered
  apart d other known' := by
    rw [touched.fd d,touched.fd 0]
    exact attended.apart d other (by rwa [touched.next] at known')
  handler d other known' := by
    by_cases same : d = c
    · subst same
      exact handler
    · rw [touched.ctx d same]
      exact attended.handler d other (by rwa [touched.next] at known')
  enrolled key d stored := by
    rw [touched.next]
    rcases enrolled key d stored with rfl | before
    · exact ⟨client,known⟩
    · exact attended.enrolled key d before

/-- What serving a client leaves of its handler and of the map. -/
theorem progress_served (progress : Progress env b (some c) events b') (known : c < b.client.next)
    (handler : (b.client.cell c).ctxHandler ≠ .accept) :
    (b'.client.cell c).ctxHandler ≠ .accept ∧
      ∀ key d, b'.clients.Contains key d → d = c ∨ b.clients.Contains key d := by
  cases progress with
  | idle idle =>
    rw [(idle.old c known).ctx,idle.clients]
    exact ⟨handler,fun _ _ stored => .inr stored⟩
  | @unknown c' k pkt serving turn =>
    obtain rfl := Option.some.inj turn
    rw [awaitReply_ctx]
    exact ⟨by decide,fun _ _ stored => .inr stored⟩
  | @request c' k command pkt rc b₁ serving turn decodable handled =>
    obtain rfl := Option.some.inj turn
    rw [awaitReply_ctx]
    refine ⟨by decide,fun key d stored => ?_⟩
    change b₁.clients.Contains key d at stored
    have kept := handler_contains decodable handled stored
    exact kept
  | @reply c' k r rc b₁ serving turn pending delivered =>
    obtain rfl := Option.some.inj turn
    have same := (ClientRegistry.SameRegistry.deliverReply delivered).clients
    refine ⟨by simp [finishReply],fun key d stored => .inr ?_⟩
    change b₁.clients.Contains key d at stored
    rwa [same] at stored

/-- Only the kernel and the presence of clients changed. -/
theorem idle_attended (attended : Attended b) (registered : Registered b') (next : b'.client.next = b.client.next)
    (idle : Idle b b') : Attended b' where
  registered := registered
  apart c other known := by
    rw [next] at known
    have own : b'.fd c = b.fd c := (idle.old c known).fd
    have server : b'.fd 0 = b.fd 0 := (idle.old 0 attended.registered.server.1).fd
    rw [own,server]
    exact attended.apart c other known
  handler c other known := by
    rw [next] at known
    rw [(idle.old c known).ctx]
    exact attended.handler c other known
  enrolled key c stored := by
    rw [idle.clients] at stored
    rw [next]
    exact attended.enrolled key c stored

theorem accept_attended (env : Env) (attended : Attended b) (registered : Registered (acceptHandler env b 0 accepted).2)
    (fresh : FreshFd b accepted) (open' : b.kernel.connection (b.fd 0) = some (.client 0)) :
    Attended (acceptHandler env b 0 accepted).2 := by
  have known := attended.registered.server.1
  cases accepted with
  | refused => exact attended
  | lost fd => exact idle_attended attended registered rfl (Idle.accept env b 0 (.lost fd))
  | taken fd s =>
    have free : b.kernel.connection fd = none := fresh
    have apart : b.fd 0 ≠ fd := fun same => by
      rw [same,free] at open'
      contradiction
    have joined := accept_joined env s known (attended.registered.closed free) apart
    have server : (acceptHandler env b 0 (.taken fd s)).2.fd 0 = b.fd 0 :=
      congrArg Client.fd (joined.old 0 (Nat.ne_of_lt known))
    refine ⟨registered,fun c other inside => ?_,fun c other inside => ?_,fun key c stored => ?_⟩
    · rw [server]
      by_cases new : c = b.client.next
      · subst new
        rw [joined.newFd]
        exact Ne.symm apart
      · have own : (acceptHandler env b 0 (.taken fd s)).2.fd c = b.fd c := congrArg Client.fd (joined.old c new)
        rw [own]
        rw [joined.next] at inside
        exact attended.apart c other (by omega)
    · by_cases new : c = b.client.next
      · subst new
        rw [joined.ctx]
        decide
      · rw [joined.old c new]
        rw [joined.next] at inside
        exact attended.handler c other (by omega)
    · obtain ⟨other,inside⟩ := attended.enrolled key c stored
      rw [joined.next]
      exact ⟨other,Nat.lt_succ_of_lt inside⟩

/-- The sweep closes descriptors of clients in the map, among which is not the server's. -/
theorem sweep_epoll (env : Env) (attended : Attended b) :
    (keepaliveSweep env b).kernel.epoll (b.fd 0) = b.kernel.epoll (b.fd 0) ∧
      (keepaliveSweep env b).client.next = b.client.next ∧ (keepaliveSweep env b).fd 0 = b.fd 0 := by
  let kept (s : Broker) : Prop := s.kernel.epoll (b.fd 0) = b.kernel.epoll (b.fd 0) ∧
    s.client.next = b.client.next ∧ ∀ p, s.fd p = b.fd p
  have swept : kept (keepaliveSweep env b) := by
    unfold keepaliveSweep hashmapIterate2
    split
    · exact ⟨rfl,rfl,fun _ => rfl⟩
    · refine iterateEntries_stored kept b.clients.entries (fun s kv member before => ?_) b ⟨rfl,rfl,fun _ => rfl⟩
      obtain ⟨other,known⟩ := attended.enrolled kv.1 kv.2 (Probing.mem_iff_slot.mp member)
      unfold checkClientStatus
      dsimp only
      split
      · refine ⟨?_,before.2.1,fun p => ?_⟩
        · have apart : b.fd 0 ≠ s.fd kv.2 := by
            rw [before.2.2 kv.2]
            exact Ne.symm (attended.apart kv.2 other known)
          exact (Function.update_of_ne apart _ _).trans before.1
        · rw [← before.2.2 p]
          exact Broker.setClient_field (s.setKernel (·.close (s.client.cell kv.2).fd)) kv.2 p _ Client.fd fun _ => rfl
      · exact before
  exact ⟨swept.1,swept.2.1,swept.2.2 0⟩

/-- What a step leaves of the listening socket: it is armed if it was, or armed again after a connection was
accepted, or no longer armed. -/
inductive Fate (b : Broker) (action : Action) (b' : Broker) : Prop where
  | kept (spares : Spares b action) (next : b'.client.next = b.client.next) (fd : b'.fd 0 = b.fd 0)
    (same : ∀ interest, b'.kernel.epoll (b.fd 0) = some ⟨0,some interest⟩ ↔
      b.kernel.epoll (b.fd 0) = some ⟨0,some interest⟩)
  | accepted (spares : Spares b action) (listening : Listening b) (fd : b'.fd 0 = b.fd 0)
    (armed : b'.kernel.epoll (b.fd 0) = some ⟨0,some .epollin⟩)
  | lost (harms : ¬Spares b action) (next : b'.client.next = b.client.next) (fd : b'.fd 0 = b.fd 0)
    (deaf : ∀ interest, b'.kernel.epoll (b.fd 0) ≠ some ⟨0,some interest⟩)

/-- The event of the listening socket, which is disarmed before it is handled. -/
theorem accept_fate (attended : Attended b) (registered : b.kernel.epoll (b.fd 0) = some ⟨0,some interest⟩)
    (fresh : FreshFd b w.accepted)
    (processed : Processed env w (b.setKernel (·.disarm (b.fd 0))) 0 readiness events b') :
    Fate b (.event w (b.fd 0) readiness) b' := by
  have known := attended.registered.server.1
  have harmless (spares : Spares b (.event w (b.fd 0) readiness)) :
      readiness = .ready ∧ w.dataFd 0 ≠ w.run.toNat ∧ ∃ fd' s, w.accepted = .taken fd' s :=
    (spares 0 interest registered).2 rfl
  have disarmed (i : Interest) : (b.kernel.disarm (b.fd 0)).epoll (b.fd 0) ≠ some ⟨0,some i⟩ := by
    rw [Kernel.disarm_epoll,if_pos rfl,registered]
    simp
  cases processed with
  | error =>
    refine .lost (fun spares => absurd (harmless spares).1 (by decide)) rfl rfl fun i => ?_
    rw [Broker.setKernel_kernel,Kernel.close_epoll]
    by_cases hit : b.fd 0 = w.dataFd 0
    · rw [hit,Function.update_self]
      simp
    · rw [Function.update_of_ne hit]
      exact disarmed i
  | quit run => exact .lost (fun spares => (harmless spares).2.1 run) rfl rfl disarmed
  | accept apart ctx =>
    cases taken : w.accepted with
    | refused =>
      refine .lost (fun spares => ?_) rfl rfl disarmed
      obtain ⟨fd',s,accepted⟩ := (harmless spares).2.2
      rw [taken] at accepted
      cases accepted
    | lost fd' =>
      refine .lost (fun spares => ?_) rfl rfl disarmed
      obtain ⟨fd',s,accepted⟩ := (harmless spares).2.2
      rw [taken] at accepted
      cases accepted
    | taken fd' s =>
      obtain ⟨_,_,open'⟩ := attended.registered.own _ _ registered
      have free : b.kernel.connection fd' = none := by
        rw [taken] at fresh
        exact fresh
      have elsewhere : b.fd 0 ≠ fd' := fun same => by
        rw [same,free] at open'
        contradiction
      have unregistered : (b.setKernel (·.disarm (b.fd 0))).kernel.epoll fd' = none := by
        rw [Broker.setKernel_kernel,Kernel.disarm_epoll,if_neg (Ne.symm elsewhere)]
        exact attended.registered.closed free
      have joined := accept_joined (b := b.setKernel (·.disarm (b.fd 0))) env s known unregistered elsewhere
      refine .accepted ?_ ⟨interest,registered⟩ (congrArg Client.fd (joined.old 0 (Nat.ne_of_lt known))) ?_
      · intro c i found
        have same : (0 : Nat) = c := congrArg Registration.data (Option.some.inj (registered.symm.trans found))
        subst same
        exact ⟨nofun,fun _ => ⟨rfl,apart,fd',s,taken⟩⟩
      · have armed := joined.epollServer
        rw [Broker.setKernel_kernel,Broker.setKernel_fd,Kernel.disarm_epoll,if_pos rfl,registered] at armed
        exact armed
  | request apart ctx done => exact absurd (attended.registered.server.2.symm.trans ctx) (by decide)
  | reply apart ctx done => exact absurd (attended.registered.server.2.symm.trans ctx) (by decide)

/-- The event of another client. -/
theorem served_fate (attended : Attended b) (registered : b.kernel.epoll fd = some ⟨c,some interest⟩) (client : c ≠ 0)
    (processed : Processed env w (b.setKernel (·.disarm fd)) c readiness events b') :
    Fate b (.event w fd readiness) b' := by
  obtain ⟨known,same,open'⟩ := attended.registered.own _ _ registered
  have apart : b.fd 0 ≠ fd := by
    rw [← same]
    exact Ne.symm (attended.apart c client known)
  have spares (harmless : readiness = .error → w.dataFd c ≠ b.fd 0) : Spares b (.event w fd readiness) := by
    intro c' i found
    have same : c = c' := congrArg Registration.data (Option.some.inj (registered.symm.trans found))
    subst same
    exact ⟨harmless,fun server => absurd server client⟩
  have disarmed : (b.kernel.disarm fd).epoll (b.fd 0) = b.kernel.epoll (b.fd 0) := by
    rw [Kernel.disarm_epoll,if_neg apart]
  have touched (ready : readiness = .ready) (touched : Touched c (b.setKernel (·.disarm fd)) b') :
      Fate b (.event w fd readiness) b' := by
    have unhurt := spares fun error => absurd (ready.symm.trans error) (by decide)
    refine .kept unhurt touched.next (touched.fd 0) fun i => ?_
    rw [touched.epoll (b.fd 0) (by rw [Broker.setKernel_fd,same]; exact apart),Broker.setKernel_kernel,disarmed]
  cases processed with
  | error =>
    by_cases hit : w.dataFd c = b.fd 0
    · refine .lost (fun spared => ?_) rfl rfl fun i => ?_
      · exact (spared c interest registered).1 rfl hit
      · rw [Broker.setKernel_kernel,Kernel.close_epoll,hit,Function.update_self]
        simp
    · refine .kept (spares fun _ => hit) rfl rfl fun i => ?_
      rw [Broker.setKernel_kernel,Kernel.close_epoll,Function.update_of_ne (Ne.symm hit),Broker.setKernel_kernel,
        disarmed]
  | quit run =>
    refine .kept (spares nofun) rfl rfl fun i => ?_
    rw [Broker.setKernel_kernel,disarmed]
  | accept _ ctx => exact absurd ctx (attended.handler c client known)
  | request _ ctx done => exact touched rfl (requestHandler_touched done)
  | reply _ ctx done => exact touched rfl (replyHandler_touched done)

theorem event_attended (attended : Attended b) (registered : Registered b')
    (source : b.kernel.epoll fd = some ⟨c,some interest⟩) (fresh : FreshFd b w.accepted)
    (processed : Processed env w (b.setKernel (·.disarm fd)) c readiness events b') : Attended b' := by
  have progress := processed_progress attended.registered source processed
  obtain ⟨known,same,open'⟩ := attended.registered.own _ _ source
  have idle := Idle.setKernel b (·.disarm fd)
  have served (ctx : (b.client.cell c).ctxHandler ≠ .accept) (touched : Touched c (b.setKernel (·.disarm fd)) b') :
      Attended b' := by
    obtain ⟨handler,enrolled⟩ := progress_served progress known ctx
    refine touched_attended attended registered ?_ known touched handler enrolled
    rintro rfl
    exact ctx attended.registered.server.2
  cases processed with
  | error => exact idle_attended attended registered rfl (idle.trans (Idle.setKernel _ _))
  | quit => exact idle_attended attended registered rfl idle
  | accept _ ctx =>
    obtain rfl : c = 0 := by
      by_contra client
      exact attended.handler c client known ctx
    have disarmed := idle_attended attended (attended.registered.disarm fd) rfl idle
    refine accept_attended env disarmed registered (disarm_fresh fresh) ?_
    rw [Broker.setKernel_kernel,Kernel.disarm_connection,Broker.setKernel_fd,same]
    exact open'
  | request _ ctx done =>
    exact served (fun accept => absurd (ctx.symm.trans accept) (by decide)) (requestHandler_touched done)
  | reply _ ctx done =>
    exact served (fun accept => absurd (ctx.symm.trans accept) (by decide)) (replyHandler_touched done)

theorem performed_fate (attended : Attended b) (performed : Performed b label b') :
    Fate b label.action b' ∧ Attended b' := by
  have registered := performed_registered attended.registered performed
  obtain ⟨env,action,events⟩ := label
  obtain ⟨enabled,outcome,shown⟩ := performed
  obtain rfl : (perform env b action).events = events := shown
  cases action with
  | arrive fd s =>
    obtain rfl := Outcome.returned.inj outcome
    exact ⟨.kept trivial rfl rfl fun _ => Iff.rfl,idle_attended attended registered rfl (Idle.setKernel b _)⟩
  | sweep =>
    obtain rfl := Outcome.returned.inj outcome
    obtain ⟨epoll,next,fd⟩ := sweep_epoll env attended
    exact ⟨.kept trivial next fd fun _ => by rw [epoll],idle_attended attended registered next (Idle.sweep env b)⟩
  | disconnect c =>
    obtain rfl := Outcome.returned.inj outcome
    simp only [closeSockets_eq] at registered ⊢
    refine ⟨?_,idle_attended attended registered rfl (Idle.setKernel b _)⟩
    by_cases server : c = 0
    · subst server
      refine .lost (fun spares => spares rfl) rfl rfl fun i => ?_
      rw [Broker.setKernel_kernel,Kernel.close_epoll,Function.update_self]
      simp
    · refine .kept server rfl rfl fun i => ?_
      rw [Broker.setKernel_kernel,Kernel.close_epoll]
      by_cases same : b.fd 0 = b.fd c
      · rw [← same,Function.update_self]
        refine ⟨nofun,fun registered' => ?_⟩
        have open' := (attended.registered.own _ _ registered').2.2
        rw [same,enabled] at open'
        exact absurd (Peer.client.inj (Option.some.inj open')) server
      · rw [Function.update_of_ne same]
  | event w fd readiness =>
    obtain ⟨⟨c,interest,source⟩,fresh⟩ := enabled
    have processed := workerEvent_processed source outcome
    obtain ⟨known,same,open'⟩ := attended.registered.own _ _ source
    refine ⟨?_,event_attended attended registered source fresh processed⟩
    by_cases server : c = 0
    · subst server
      obtain rfl : b.fd 0 = fd := same
      exact accept_fate attended source fresh processed
    · exact served_fate attended source server processed

theorem run_attended (run : Run (fun _ b label b' => Performed b label b') (startServer server) past b) : Attended b :=
  Run.invariant (fun _ b => Attended b) (start_attended server)
    (fun _ _ _ _ _ attended performed => (performed_fate attended performed).2) run

/-- A step that is taken while the socket is armed leaves it armed exactly when it spares it. -/
theorem step_listening_iff (attended : Attended b) (performed : Performed b label b') (listening : Listening b) :
    Listening b' ↔ Spares b label.action := by
  unfold Listening
  cases (performed_fate attended performed).1 with
  | kept spares _ fd same =>
    obtain ⟨interest,armed⟩ := listening
    rw [fd]
    exact ⟨fun _ => spares,fun _ => ⟨interest,(same interest).mpr armed⟩⟩
  | accepted spares _ fd armed =>
    rw [fd]
    exact ⟨fun _ => spares,fun _ => ⟨.epollin,armed⟩⟩
  | lost harms _ fd deaf =>
    rw [fd]
    exact ⟨fun ⟨interest,armed⟩ => absurd armed (deaf interest),fun spares => absurd spares harms⟩

/-- Without the socket no client joins, and nothing arms it again. -/
theorem step_deaf (attended : Attended b) (performed : Performed b label b') (deaf : ¬Listening b) :
    ¬Listening b' ∧ b'.client.next = b.client.next := by
  cases (performed_fate attended performed).1 with
  | kept _ next fd same =>
    refine ⟨fun ⟨interest,armed⟩ => deaf ⟨interest,?_⟩,next⟩
    rw [fd] at armed
    exact (same interest).mp armed
  | accepted _ listening _ _ => exact absurd listening deaf
  | lost _ next fd deaf' =>
    refine ⟨fun ⟨interest,armed⟩ => deaf' interest ?_,next⟩
    rwa [fd] at armed

theorem start_listening (server : Fd) : Listening (startServer server) := ⟨.epollin,by simp [startServer,Broker.fd]⟩

/-- Steps that all spare the socket keep it armed. -/
theorem spared_listening
    (run : Run (fun _ b label b' => Spares b label.action ∧ Performed b label b') (startServer server) past b) :
    Listening b := by
  have kept : Attended b ∧ Listening b := by
    refine Run.invariant (fun _ b => Attended b ∧ Listening b) ⟨start_attended server,start_listening server⟩ ?_ run
    rintro _ b label b' _ ⟨attended,listening⟩ ⟨spares,performed⟩
    exact ⟨(performed_fate attended performed).2,(step_listening_iff attended performed listening).mpr spares⟩
  exact kept.2

/-- A socket that is armed in the end was spared by all steps. -/
theorem listening_spared (run : Run (fun _ b label b' => Performed b label b') (startServer server) past b)
    (listening : Listening b) :
    Run (fun _ b label b' => Spares b label.action ∧ Performed b label b') (startServer server) past b := by
  induction run with
  | nil => exact .nil
  | @snoc past b label b' run performed ih =>
    have attended := run_attended run
    have before : Listening b := by
      by_contra deaf
      exact (step_deaf attended performed deaf).1 listening
    exact (ih before).snoc ⟨(step_listening_iff attended performed before).mp listening,performed⟩

/-- In every run the listening socket is armed at the end exactly when every action spared it: no accept
failed, and nothing closed the descriptor. Once it is not armed it stays so, and no client joins any more,
whatever happens. -/
theorem listens_iff_spared (run : Run (fun _ b label b' => Performed b label b') (startServer server) past b) :
    (Listening b ↔ Run (fun _ b label b' => Spares b label.action ∧ Performed b label b') (startServer server) past b) ∧
    (¬Listening b → ∀ later b', Run (fun _ b label b' => Performed b label b') b later b' →
      ¬Listening b' ∧ b'.client.next = b.client.next) := by
  refine ⟨⟨listening_spared run,spared_listening⟩,fun deaf later b' run' => ?_⟩
  have kept : Attended b' ∧ ¬Listening b' ∧ b'.client.next = b.client.next := by
    refine Run.invariant (fun _ b' => Attended b' ∧ ¬Listening b' ∧ b'.client.next = b.client.next)
      ⟨run_attended run,deaf,rfl⟩ ?_ run'
    rintro _ b₁ label b₂ _ ⟨attended,deaf,next⟩ performed
    obtain ⟨deaf',next'⟩ := step_deaf attended performed deaf
    exact ⟨(performed_fate attended performed).2,deaf',next'.trans next⟩
  exact kept.2

/-- A client joins, and the next connection is gone before it is accepted. -/
def refusedScript : List (Env × Action) :=
  [(plainEnv,.event ⟨fun c => 64 + 16 * c,5,.taken 4 ⟨[],.quiet⟩⟩ 3 .ready),
    (plainEnv,.event ⟨fun c => 64 + 16 * c,5,.refused⟩ 3 .ready)]

def refused : Broker := follow (startServer 3) refusedScript

/-- The broker keeps its two clients, the server among them, for ever. -/
theorem refused_deaf :
    Run (fun _ b label b' => Performed b label b') (startServer 3) (trace (startServer 3) refusedScript) refused ∧
      ¬Listening refused ∧ ∀ later b', Run (fun _ b label b' => Performed b label b') refused later b' →
        ¬Listening b' ∧ b'.client.next = 2 := by
  have run : Run _ (startServer 3) _ refused := follow_run (startServer 3) refusedScript (by decide +kernel)
  have deaf : ¬Listening refused := by
    have disarmed : refused.kernel.epoll (refused.fd 0) = some ⟨0,none⟩ := by decide +kernel
    rintro ⟨interest,armed⟩
    cases disarmed.symm.trans armed
  have clients : refused.client.next = 2 := by decide +kernel
  refine ⟨run,deaf,fun later b' run' => ?_⟩
  rw [← clients]
  exact (listens_iff_spared run).2 deaf later b' run'

end Sizigy.Listener
