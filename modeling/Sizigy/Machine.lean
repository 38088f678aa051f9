import Sizigy.Library.Run
import Sizigy.ReplySpec

/-! The running broker: data arrives, epoll delivers events, the keepalive thread sweeps, and
DISCONNECT handling closes a connection, in any order. Every registration belongs to the
client whose connection is at its descriptor. -/
namespace Sizigy.Machine

inductive Action where
  | arrive (fd : Fd) (s : Socket)
  | event (w : Worker) (fd : Fd) (readiness : Readiness)
  | sweep
  | disconnect (c : Nat)

/-- An action in its surroundings and what it showed. -/
structure Label where
  env : Env
  action : Action
  events : List Event

def perform (env : Env) (b : Broker) : Action → Exec Event Broker
  | .arrive fd s => pure (b.setKernel (·.setSocket fd s))
  | .event w fd readiness => workerEvent env w b fd readiness
  | .sweep => pure (keepaliveSweep env b)
  | .disconnect c => do return (← Exec.lift (disconnectHandler env b c)).2

/-- The kernel hands out descriptors that are not open. -/
def FreshFd (b : Broker) : Accepted → Prop
  | .refused => True
  | .lost fd => b.kernel.connection fd = none
  | .taken fd _ => b.kernel.connection fd = none

/-- Events come from armed registrations, and DISCONNECT handling is for an open connection. -/
def Enabled (b : Broker) : Action → Prop
  | .arrive _ _ => True
  | .event w fd _ => (∃ data interest, b.kernel.epoll fd = some ⟨data,some interest⟩) ∧ FreshFd b w.accepted
  | .sweep => True
  | .disconnect c => b.kernel.connection (b.fd c) = some (.client c)

structure Performed (b : Broker) (label : Label) (b' : Broker) : Prop where
  enabled : Enabled b label.action
  outcome : (perform label.env b label.action).outcome = .returned b'
  events : (perform label.env b label.action).events = label.events

variable {env : Env} {b b' : Broker} {c : Nat}

structure Registered (b : Broker) : Prop where
  own : ∀ fd r, b.kernel.epoll fd = some r →
    r.data < b.client.next ∧ b.fd r.data = fd ∧ b.kernel.connection fd = some (.client r.data)
  server : 0 < b.client.next ∧ (b.client.cell 0).ctxHandler = .accept

theorem start_registered (fd : Fd) : Registered (startServer fd) where
  own fd' r registered := by
    by_cases same : fd' = fd
    · subst same
      obtain rfl : (⟨0,some .epollin⟩ : Registration) = r := by simpa [startServer] using registered
      exact ⟨Nat.one_pos,rfl,by simp [startServer]⟩
    · simp [startServer,same] at registered
  server := ⟨Nat.one_pos,rfl⟩

/-- Effect of an event on everything but the client it is for. -/
structure Touched (c : Nat) (b b' : Broker) : Prop where
  connection : b'.kernel.connection = b.kernel.connection
  epoll : ∀ fd, fd ≠ b.fd c → b'.kernel.epoll fd = b.kernel.epoll fd
  own : (∀ r, b.kernel.epoll (b.fd c) = some r → r.data = c) →
    ∀ r, b'.kernel.epoll (b.fd c) = some r → r.data = c
  next : b'.client.next = b.client.next
  fd : ∀ p, b'.fd p = b.fd p
  ctx : ∀ p, p ≠ c → (b'.client.cell p).ctxHandler = (b.client.cell p).ctxHandler
  reply : ∀ p, p ≠ c → (b'.client.cell p).reply = (b.client.cell p).reply

namespace Touched

theorem of_local (loc : Local c b b') : Touched c b b' where
  connection := by rw [loc.kernel]
  epoll fd _ := by rw [loc.kernel]
  own before := by rwa [loc.kernel]
  next := loc.next
  fd := loc.fd
  ctx p _ := loc.ctx p
  reply := loc.reply

theorem trans (first : Touched c b b') (second : Touched c b' b'') : Touched c b b'' where
  connection := second.connection.trans first.connection
  epoll fd apart := (second.epoll fd (by rwa [first.fd])).trans (first.epoll fd apart)
  own before := by
    have := second.own (by rw [first.fd]; exact first.own before)
    rwa [first.fd] at this
  next := second.next.trans first.next
  fd p := (second.fd p).trans (first.fd p)
  ctx p apart := (second.ctx p apart).trans (first.ctx p apart)
  reply p apart := (second.reply p apart).trans (first.reply p apart)

theorem setClient (b : Broker) (c : Nat) (f : Client → Client) (fd : ∀ k, (f k).fd = k.fd) :
    Touched c b (b.setClient c f) where
  connection := rfl
  epoll _ _ := rfl
  own before := before
  next := rfl
  fd p := b.setClient_field c p f Client.fd fd
  ctx p apart := by rw [b.setClient_other c p f apart]
  reply p apart := by rw [b.setClient_other c p f apart]

theorem modEpoll (b : Broker) (c : Nat) (event : Interest) :
    Touched c b (b.setKernel (·.modEpoll (b.fd c) event c)) where
  connection := Kernel.modEpoll_connection _ _ _ _
  epoll fd apart := by
    rw [Broker.setKernel_kernel,Kernel.modEpoll_epoll,if_neg fun both => apart both.1]
  own before r registered := by
    rw [Broker.setKernel_kernel,Kernel.modEpoll_epoll] at registered
    split at registered
    · rw [← Option.some.inj registered]
    · exact before r registered
  next := rfl
  fd _ := rfl
  ctx _ _ := rfl
  reply _ _ := rfl

theorem disarm (b : Broker) (c : Nat) : Touched c b (b.setKernel (·.disarm (b.fd c))) where
  connection := Kernel.disarm_connection _ _
  epoll fd apart := by rw [Broker.setKernel_kernel,Kernel.disarm_epoll,if_neg apart]
  own before r registered := by
    rw [Broker.setKernel_kernel,Kernel.disarm_epoll,if_pos rfl] at registered
    obtain ⟨r',old,rfl⟩ := Option.map_eq_some_iff.mp registered
    exact before r' old
  next := rfl
  fd _ := rfl
  ctx _ _ := rfl
  reply _ _ := rfl

theorem setSocket (b : Broker) (c : Nat) (fd : Fd) (s : Socket) :
    Touched c b (b.setKernel (·.setSocket fd s)) :=
  ⟨rfl,fun _ _ => rfl,id,rfl,fun _ => rfl,fun _ _ => rfl,fun _ _ => rfl⟩

theorem registered (touched : Touched c b b') (inv : Registered b) (client : c ≠ 0)
    (open' : b.kernel.connection (b.fd c) = some (.client c)) (known : c < b.client.next) :
    Registered b' where
  own fd r present := by
    rw [touched.next,touched.fd,touched.connection]
    by_cases same : fd = b.fd c
    · subst same
      have before : ∀ r, b.kernel.epoll (b.fd c) = some r → r.data = c := fun r old => by
        have := (inv.own _ r old).2.2
        rw [open'] at this
        exact (Peer.client.inj (Option.some.inj this)).symm
      obtain rfl := touched.own before r present
      exact ⟨known,rfl,open'⟩
    · rw [touched.epoll fd same] at present
      exact inv.own fd r present
  server := by
    rw [touched.next,touched.ctx 0 client.symm]
    exact inv.server

end Touched

theorem awaitReply_touched (b : Broker) (c : Nat) : Touched c b (awaitReply b (b.fd c) c) := by
  have switched := Touched.setClient b c (fun k => { k with ctxHandler := .reply }) fun _ => rfl
  have armed := Touched.modEpoll (b.setClient c fun k => { k with ctxHandler := .reply }) c .epollout
  rw [switched.fd] at armed
  exact switched.trans armed

theorem awaitRequest_touched (b : Broker) (c : Nat) : Touched c b (awaitRequest b (b.fd c) c) := by
  have switched := Touched.setClient b c (fun k => { k with ctxHandler := .request }) fun _ => rfl
  have armed := Touched.modEpoll (b.setClient c fun k => { k with ctxHandler := .request }) c .epollin
  rw [switched.fd] at armed
  exact switched.trans armed

theorem finishReply_touched (b : Broker) (c : Nat) : Touched c b (finishReply b c) := by
  have switched := Touched.setClient b c (fun k => { k with reply := none, ctxHandler := .request })
    fun _ => rfl
  have armed := Touched.modEpoll
    (b.setClient c fun k => { k with reply := none, ctxHandler := .request }) c .epollin
  rw [switched.fd] at armed
  exact switched.trans armed

/-- Opcodes that some decoder is selected for. -/
def Decodable (opcode : UInt8) : Prop :=
  opcode = Opcode.connect ∨ opcode = Opcode.subscribe ∨ opcode = Opcode.publish ∨
    opcode = Opcode.suback ∨ opcode = Opcode.puback ∨ opcode = Opcode.pingreq

theorem unpackPacket_decodable (decoded : (unpackPacket opcode buffer).1 = some pkt) :
    Decodable opcode := by
  unfold unpackPacket at decoded
  unfold Decodable
  split at decoded
  next connect => exact .inl connect
  split at decoded
  next subscribe => exact .inr (.inl subscribe)
  split at decoded
  next publish => exact .inr (.inr (.inl publish))
  split at decoded
  next ack => exact .inr (.inr (.inr ack))
  · cases decoded

theorem decodable_command (decodable : Decodable (Command.ctype command)) :
    command = .connect ∨ command = .publish ∨ command = .pingreq ∨ command = .subscribe := by
  cases command with
  | connect => exact .inl rfl
  | publish => exact .inr (.inl rfl)
  | pingreq => exact .inr (.inr (.inl rfl))
  | subscribe => exact .inr (.inr (.inr rfl))
  | unsubscribe => exact absurd decodable (by unfold Decodable; decide)
  | disconnect => exact absurd decodable (by unfold Decodable; decide)

theorem handler_local (decodable : Decodable (Command.ctype command))
    (done : command.handler env b c = .returned (rc,b')) : Local c b b' := by
  rcases decodable_command decodable with rfl | rfl | rfl | rfl
  · exact (connectHandler_local done).1
  · obtain ⟨_,_,loc,_⟩ := publishHandler_local done
    exact loc
  · exact (pingreqHandler_local done).1
  · exact (subscribeHandler_local done).1

theorem serveRequest_touched (decodable : Decodable opcode)
    (done : (serveRequest env b c opcode pkt).outcome = .returned (rc,b')) : Touched c b b' := by
  obtain ⟨b₁,rfl,handled⟩ := serveRequest_cases done
  have loc : Local c b b₁ := by
    rcases handled with ⟨command,rc',rfl,returned⟩ | ⟨_,rfl⟩
    · exact (linked_local env b c pkt).trans (handler_local decodable returned)
    · exact linked_local env b c pkt
  rw [← loc.fd]
  exact (Touched.of_local loc).trans (awaitReply_touched b₁ c)

theorem requestHandler_touched (done : (requestHandler env b c).outcome = .returned (rc,b')) :
    Touched c b b' := by
  obtain ⟨packet,s,_,cases⟩ := requestHandler_cases done
  have stored := Touched.setSocket b c (b.fd c) s
  rcases cases with ⟨_,rfl⟩ | ⟨opcode,buffer,_,⟨_,rfl⟩ | ⟨pkt,decoded,served⟩⟩
  · have armed := awaitRequest_touched (b.setKernel (·.setSocket (b.fd c) s)) c
    exact stored.trans armed
  · exact stored
  · exact stored.trans (serveRequest_touched (unpackPacket_decodable decoded) served)

theorem deliverReply_local (done : (deliverReply env b c reply).outcome = .returned (rc,b')) :
    Local c b b' := by
  rcases deliverReply_cases done with ⟨p,_,same⟩ | ⟨_,loc,_⟩
  · rw [same] at done
    obtain ⟨t,b₁,acks,found,_,_,_,loc⟩ := publishReply_cases done
    exact (findTopic_local found).trans loc
  · exact loc

theorem replyHandler_touched (done : (replyHandler env b c).outcome = .returned (rc,b')) :
    Touched c b b' := by
  rcases replyHandler_cases done with ⟨_,rfl,_⟩ | ⟨reply,b₁,_,delivered,_,rfl⟩
  · exact Touched.of_local (Local.refl c _)
  · exact (Touched.of_local (deliverReply_local delivered)).trans (finishReply_touched b₁ c)

/-- What a worker did with an event for a client, from the state with the event disarmed. -/
inductive Processed (env : Env) (w : Worker) (b : Broker) (c : Nat) :
    Readiness → List Event → Broker → Prop where
  | error : Processed env w b c .error [] (b.setKernel (·.close (w.dataFd c)))
  | quit (run : w.dataFd c = w.run.toNat) : Processed env w b c .ready [] b
  | accept (apart : w.dataFd c ≠ w.run.toNat) (ctx : (b.client.cell c).ctxHandler = .accept) :
    Processed env w b c .ready [] (acceptHandler env b c w.accepted).2
  | request (apart : w.dataFd c ≠ w.run.toNat) (ctx : (b.client.cell c).ctxHandler = .request)
    (done : (requestHandler env b c).outcome = .returned (rc,after)) :
    Processed env w b c .ready (requestHandler env b c).events after
  | reply (apart : w.dataFd c ≠ w.run.toNat) (ctx : (b.client.cell c).ctxHandler = .reply)
    (done : (replyHandler env b c).outcome = .returned (rc,after)) :
    Processed env w b c .ready (replyHandler env b c).events after

theorem workerEvent_processed (registered : b.kernel.epoll fd = some r)
    (done : (workerEvent env w b fd readiness).outcome = .returned b') :
    Processed env w (b.setKernel (·.disarm fd)) r.data readiness
      (workerEvent env w b fd readiness).events b' := by
  simp only [workerEvent,registered,closeSockets_eq] at done ⊢
  cases readiness with
  | error =>
    rw [if_pos rfl] at done ⊢
    obtain rfl := Outcome.returned.inj done
    exact .error
  | ready =>
    rw [if_neg (by decide)] at done ⊢
    by_cases run : w.dataFd r.data = w.run.toNat
    · rw [if_pos run] at done ⊢
      obtain rfl := Outcome.returned.inj done
      exact .quit run
    · rw [if_neg run] at done ⊢
      cases ctx : ((b.setKernel (·.disarm fd)).client.cell r.data).ctxHandler with
      | accept =>
        simp only [ctx] at done ⊢
        obtain rfl := Outcome.returned.inj done
        exact .accept run ctx
      | request =>
        simp only [ctx,Exec.bind_outcome] at done ⊢
        obtain ⟨⟨rc,b₁⟩,handled,done⟩ := Outcome.bind_eq_returned.mp done
        obtain rfl := Outcome.returned.inj done
        rw [Exec.bind_silent _ _ fun _ => rfl]
        exact .request run ctx handled
      | reply =>
        simp only [ctx,Exec.bind_outcome] at done ⊢
        obtain ⟨⟨rc,b₁⟩,handled,done⟩ := Outcome.bind_eq_returned.mp done
        obtain rfl := Outcome.returned.inj done
        rw [Exec.bind_silent _ _ fun _ => rfl]
        exact .reply run ctx handled

namespace Registered

theorem of_local (inv : Registered b) (loc : Local c b b') : Registered b' where
  own fd r present := by
    rw [loc.kernel] at present ⊢
    rw [loc.next,loc.fd]
    exact inv.own fd r present
  server := by
    rw [loc.next,loc.ctx]
    exact inv.server

theorem close (inv : Registered b) (fd : Fd) : Registered (b.setKernel (·.close fd)) where
  own fd' r present := by
    rw [Broker.setKernel_kernel,Kernel.close_epoll] at present
    by_cases same : fd' = fd
    · simp [same] at present
    · rw [Function.update_of_ne same] at present
      rw [Broker.setKernel_kernel,Kernel.close_connection,Function.update_of_ne same]
      exact inv.own fd' r present
  server := inv.server

theorem disarm (inv : Registered b) (fd : Fd) : Registered (b.setKernel (·.disarm fd)) where
  own fd' r present := by
    rw [Broker.setKernel_kernel,Kernel.disarm_epoll] at present
    rw [Broker.setKernel_kernel,Kernel.disarm_connection]
    split at present
    next same =>
      obtain ⟨r',old,rfl⟩ := Option.map_eq_some_iff.mp present
      exact inv.own fd' r' (same ▸ old)
    next => exact inv.own fd' r present
  server := inv.server

/-- A descriptor that is not open has no registration. -/
theorem closed (inv : Registered b) (closed : b.kernel.connection fd = none) :
    b.kernel.epoll fd = none := by
  cases registered : b.kernel.epoll fd with
  | none => rfl
  | some r =>
    have := (inv.own fd r registered).2.2
    rw [closed] at this
    contradiction

theorem checkClientStatus (inv : Registered b) (env : Env) (kv : CString × Nat) :
    Registered (checkClientStatus env b kv).2 := by
  unfold Sizigy.checkClientStatus
  dsimp only
  split
  · exact (inv.close _).of_local (Local.setClient _ kv.2 _ (fun _ => rfl) fun _ => rfl)
  · exact inv

theorem sweep (inv : Registered b) (env : Env) : Registered (keepaliveSweep env b) :=
  hashmapIterate2_invariant Registered (fun _ kv before => before.checkClientStatus env kv) b.clients b inv

end Registered

/-- A connection at a free descriptor became the client after the last one. -/
structure Joined (b : Broker) (server : Nat) (fd : Fd) (b' : Broker) : Prop where
  next : b'.client.next = b.client.next + 1
  old : ∀ p, p ≠ b.client.next → b'.client.cell p = b.client.cell p
  newFd : b'.fd b.client.next = fd
  ctx : (b'.client.cell b.client.next).ctxHandler = .request
  reply : (b'.client.cell b.client.next).reply = none
  connection : b'.kernel.connection = Function.update b.kernel.connection fd (some (.client b.client.next))
  epollNew : b'.kernel.epoll fd = some ⟨b.client.next,some .epollin⟩
  epollServer : b'.kernel.epoll (b.fd server) =
    (b.kernel.epoll (b.fd server)).map fun _ => ⟨server,some .epollin⟩
  epollOld : ∀ fd', fd' ≠ fd → fd' ≠ b.fd server → b'.kernel.epoll fd' = b.kernel.epoll fd'
  topics : b'.topics = b.topics
  topic : b'.topic = b.topic

theorem accept_joined (env : Env) (s : Socket) (known : server < b.client.next)
    (free : b.kernel.epoll fd = none) (apart : b.fd server ≠ fd) :
    Joined b server fd (acceptHandler env b server (.taken fd s)).2 := by
  have kept : ((b.client.alloc ⟨.online,configKeepalive,env.now,fd,.request,env.randomName,none,none⟩).cell
      server) = b.client.cell server := Heap.alloc_old _ _ _ (Nat.ne_of_lt known)
  have epoll (fd' : Fd) : (acceptHandler env b server (.taken fd s)).2.kernel.epoll fd' =
      if fd' = b.fd server ∧ (b.kernel.epoll (b.fd server)).isSome then some ⟨server,some .epollin⟩
      else if fd' = fd then some ⟨b.client.next,some .epollin⟩ else b.kernel.epoll fd' := by
    simp only [acceptHandler,Broker.setKernel_kernel,Kernel.modEpoll_epoll,Kernel.addEpoll_epoll,
      Kernel.accept_epoll,Broker.fd,Broker.setKernel_client,kept,free,and_true]
    rw [if_neg (show ¬(b.client.cell server).fd = fd from apart)]
    rfl
  exact {
    next := rfl
    old := fun p apart => Heap.alloc_old _ _ p apart
    newFd := congrArg Client.fd (Heap.alloc_new _ _)
    ctx := congrArg Client.ctxHandler (Heap.alloc_new _ _)
    reply := congrArg Client.reply (Heap.alloc_new _ _)
    connection := by simp [acceptHandler]
    epollNew := by rw [epoll,if_neg fun both => apart both.1.symm,if_pos rfl]
    epollServer := by
      rw [epoll]
      cases registered : b.kernel.epoll (b.fd server) with
      | none => simp [apart]
      | some r => simp
    epollOld := fun fd' notNew notServer => by
      rw [epoll,if_neg fun both => notServer both.1,if_neg notNew]
    topics := rfl
    topic := rfl }

theorem Joined.registered (joined : Joined b server fd b') (inv : Registered b)
    (closed : b.kernel.connection fd = none) (known : server < b.client.next)
    (open' : b.kernel.connection (b.fd server) = some (.client server)) : Registered b' where
  own fd' r present := by
    have apart : b.fd server ≠ fd := fun same => by
      rw [same,closed] at open'
      contradiction
    rw [joined.connection,joined.next]
    by_cases new : fd' = fd
    · subst new
      rw [joined.epollNew] at present
      obtain rfl := Option.some.inj present
      exact ⟨Nat.lt_succ_self _,joined.newFd,Function.update_self ..⟩
    · rw [Function.update_of_ne new]
      by_cases atServer : fd' = b.fd server
      · subst atServer
        rw [joined.epollServer] at present
        obtain ⟨_,_,rfl⟩ := Option.map_eq_some_iff.mp present
        refine ⟨Nat.lt_succ_of_lt known,?_,open'⟩
        rw [Broker.fd,joined.old _ (Nat.ne_of_lt known)]
        rfl
      · rw [joined.epollOld fd' new atServer] at present
        obtain ⟨less,same,connection⟩ := inv.own fd' r present
        refine ⟨Nat.lt_succ_of_lt less,?_,connection⟩
        rw [Broker.fd,joined.old _ (Nat.ne_of_lt less)]
        exact same
  server := by
    rw [joined.next,joined.old 0 (Nat.ne_of_lt inv.server.1)]
    exact ⟨Nat.succ_pos _,inv.server.2⟩

theorem accept_registered (env : Env) (inv : Registered b) (fresh : FreshFd b accepted)
    (known : server < b.client.next)
    (open' : b.kernel.connection (b.fd server) = some (.client server)) :
    Registered (acceptHandler env b server accepted).2 := by
  cases accepted with
  | refused => exact inv
  | lost fd =>
    refine ⟨fun fd' r present => ?_,inv.server⟩
    have apart : fd' ≠ fd := fun same => by
      rw [same] at present
      exact absurd (inv.closed fresh) (by rw [show b.kernel.epoll fd = some r from present]; simp)
    have := inv.own fd' r present
    rw [acceptHandler,Broker.setKernel_kernel,Kernel.accept_connection,Function.update_of_ne apart]
    exact this
  | taken fd s =>
    have apart : b.fd server ≠ fd := fun same => by
      rw [same,show b.kernel.connection fd = none from fresh] at open'
      contradiction
    exact (accept_joined env s known (inv.closed fresh) apart).registered inv fresh known open'

theorem disarm_fresh (fresh : FreshFd b accepted) : FreshFd (b.setKernel (·.disarm fd)) accepted := by
  cases accepted with
  | refused => trivial
  | lost fd' =>
    rw [FreshFd,Broker.setKernel_kernel,Kernel.disarm_connection]
    exact fresh
  | taken fd' s =>
    rw [FreshFd,Broker.setKernel_kernel,Kernel.disarm_connection]
    exact fresh

/-- The registration an event came from, read in the state with the event disarmed. -/
structure Source (b : Broker) (fd : Fd) (c : Nat) : Prop where
  known : c < b.client.next
  same : b.fd c = fd
  open' : b.kernel.connection fd = some (.client c)

theorem event_source (inv : Registered b) (registered : b.kernel.epoll fd = some r) :
    Source (b.setKernel (·.disarm fd)) fd r.data := by
  obtain ⟨known,same,connection⟩ := inv.own fd r registered
  exact ⟨known,same,by rwa [Broker.setKernel_kernel,Kernel.disarm_connection]⟩

theorem Processed.registered (processed : Processed env w b c readiness events b')
    (inv : Registered b) (source : Source b fd c) (fresh : FreshFd b w.accepted) : Registered b' := by
  have open' : b.kernel.connection (b.fd c) = some (.client c) := source.same ▸ source.open'
  have client (ctx : (b.client.cell c).ctxHandler ≠ .accept) : c ≠ 0 := by
    rintro rfl
    exact ctx inv.server.2
  cases processed with
  | error => exact inv.close _
  | quit => exact inv
  | accept => exact accept_registered env inv fresh source.known open'
  | request _ ctx done =>
    exact (requestHandler_touched done).registered inv (client (by rw [ctx]; decide)) open' source.known
  | reply _ ctx done =>
    exact (replyHandler_touched done).registered inv (client (by rw [ctx]; decide)) open' source.known

theorem performed_registered (inv : Registered b) (performed : Performed b label b') : Registered b' := by
  obtain ⟨env,action,events⟩ := label
  obtain ⟨enabled,outcome,shown⟩ := performed
  cases action with
  | arrive fd s =>
    obtain rfl := Outcome.returned.inj outcome
    exact ⟨inv.own,inv.server⟩
  | event w fd readiness =>
    obtain ⟨⟨data,interest,registered⟩,fresh⟩ := enabled
    exact (workerEvent_processed registered outcome).registered (inv.disarm fd)
      (event_source inv registered) (disarm_fresh fresh)
  | sweep =>
    obtain rfl := Outcome.returned.inj outcome
    exact inv.sweep env
  | disconnect c =>
    obtain rfl := Outcome.returned.inj outcome
    simp only [closeSockets_eq]
    exact inv.close _

/-- The state after an action that returns, and the label it leaves. -/
def after (env : Env) (b : Broker) (action : Action) : Broker :=
  match (perform env b action).outcome with
  | .returned b' => b'
  | _ => b

def labelled (env : Env) (b : Broker) (action : Action) : Label :=
  ⟨env,action,(perform env b action).events⟩

def returns : Outcome α → Bool
  | .returned _ => true
  | _ => false

theorem performed_after (enabled : Enabled b action) (ends : returns (perform env b action).outcome = true) :
    Performed b (labelled env b action) (after env b action) := by
  refine ⟨enabled,?_,rfl⟩
  rw [after]
  change (perform env b action).outcome = _
  cases outcome : (perform env b action).outcome with
  | returned b' => rfl
  | blocked => simp [returns,outcome] at ends
  | crashed => simp [returns,outcome] at ends
  | unfinished => simp [returns,outcome] at ends

/-- The action can be taken and returns. -/
def possible (env : Env) (b : Broker) (action : Action) : Bool :=
  returns (perform env b action).outcome &&
    match action with
    | .event w fd _ =>
      (match b.kernel.epoll fd with
        | some ⟨_,some _⟩ => true
        | _ => false) &&
      match w.accepted with
      | .refused => true
      | .lost fd' => b.kernel.connection fd' = none
      | .taken fd' _ => b.kernel.connection fd' = none
    | .disconnect c => b.kernel.connection (b.fd c) = some (.client c)
    | _ => true

theorem possible_enabled (possible' : possible env b action = true) : Enabled b action := by
  obtain ⟨_,enabled⟩ := Bool.and_eq_true_iff.mp possible'
  cases action with
  | arrive => trivial
  | event w fd readiness =>
    obtain ⟨armed,fresh⟩ := Bool.and_eq_true_iff.mp enabled
    refine ⟨?_,?_⟩
    · split at armed
      next data interest registered => exact ⟨data,interest,registered⟩
      next => cases armed
    · unfold FreshFd
      cases accepted : w.accepted with
      | refused => trivial
      | lost fd' => simpa [accepted] using fresh
      | taken fd' s => simpa [accepted] using fresh
  | sweep => trivial
  | disconnect c =>
    exact of_decide_eq_true (p := b.kernel.connection (b.fd c) = some (.client c)) enabled

/-- A script of actions, the state it leads to and the labels it leaves. -/
def follow (b : Broker) : List (Env × Action) → Broker
  | [] => b
  | (env,action) :: rest => follow (after env b action) rest

def trace (b : Broker) : List (Env × Action) → List Label
  | [] => []
  | (env,action) :: rest => labelled env b action :: trace (after env b action) rest

def feasible (b : Broker) : List (Env × Action) → Bool
  | [] => true
  | (env,action) :: rest => possible env b action && feasible (after env b action) rest

theorem possible_performed (env : Env) (b : Broker) (action : Action)
    (possible' : possible env b action = true) :
    Performed b (labelled env b action) (after env b action) :=
  performed_after (possible_enabled possible') (Bool.and_eq_true_iff.mp possible').1

theorem follow_extends (run : Run (fun _ b label b' => Performed b label b') start past b)
    (feasible' : feasible b script = true) :
    Run (fun _ b label b' => Performed b label b') start (past ++ trace b script) (follow b script) := by
  induction script generalizing past b with
  | nil => simpa [trace,follow] using run
  | cons step rest ih =>
    obtain ⟨first,later⟩ := Bool.and_eq_true_iff.mp feasible'
    have longer := ih (run.snoc (possible_performed _ _ _ first)) later
    rwa [List.append_assoc] at longer

theorem follow_run (start : Broker) (script : List (Env × Action)) (feasible' : feasible start script = true) :
    Run (fun _ b label b' => Performed b label b') start (trace start script) (follow start script) :=
  follow_extends Run.nil feasible'

end Sizigy.Machine
