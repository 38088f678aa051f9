import Sizigy.ClientStream
import Sizigy.Listener
import Sizigy.Ordering

/-! From the sockets to the handlers. Whatever else goes on, the requests that are dispatched for
a client are the first of those that it sent, in order and with their contents, and the others
still wait on its socket as long as its connection is open. -/
namespace Sizigy.Intake

open Machine Conversation ClientStream
open Listener (Attended performed_fate start_attended)
open Sizigy.Ordering (SameFds)

variable {env : Env} {b b' : Broker} {c d : Nat} {label : Label} {past : List Label} {fd fd' : Fd}
variable {k k' k'' : Kernel} {events : List Event}

/-- A connection that is open is the one it was, with the same data waiting. -/
def Steady (fd : Fd) (c : Nat) (k k' : Kernel) : Prop :=
  k'.connection fd = some (.client c) → k.connection fd = some (.client c) ∧ k'.socket fd = k.socket fd

namespace Steady

theorem of_eq (connection : k'.connection = k.connection) (socket : k'.socket = k.socket) : Steady fd c k k' := by
  intro open'
  exact ⟨connection ▸ open',by rw [socket]⟩

theorem refl (fd : Fd) (c : Nat) (k : Kernel) : Steady fd c k k := of_eq rfl rfl

theorem trans (first : Steady fd c k k') (second : Steady fd c k' k'') : Steady fd c k k'' := by
  intro open'
  obtain ⟨open'',socket⟩ := second open'
  obtain ⟨before,socket'⟩ := first open''
  exact ⟨before,socket.trans socket'⟩

theorem close (k : Kernel) (fd' : Fd) : Steady fd c k (k.close fd') := by
  intro open'
  by_cases same : fd = fd'
  · simp [same] at open'
  · rw [Kernel.close_connection,Function.update_of_ne same] at open'
    exact ⟨open',rfl⟩

theorem setSocket (k : Kernel) (s : Socket) (other : k.connection fd' ≠ some (.client c)) :
    Steady fd c k (k.setSocket fd' s) := by
  intro open'
  refine ⟨open',Function.update_of_ne ?_ _ _⟩
  rintro rfl
  exact other open'

theorem accept (peer : Peer) (s : Socket) (closed : k.connection fd' = none) (other : peer ≠ .client c) :
    Steady fd c k (k.accept fd' peer s) := by
  intro open'
  by_cases same : fd = fd'
  · subst same
    rw [Kernel.accept_connection,Function.update_self] at open'
    exact absurd (Option.some.inj open') other
  · rw [Kernel.accept_connection,Function.update_of_ne same] at open'
    exact ⟨open',Function.update_of_ne same _ _⟩

end Steady

theorem modEpoll_socket (k : Kernel) (fd : Fd) (event : Interest) (data : Nat) :
    (k.modEpoll fd event data).socket = k.socket := by
  unfold Kernel.modEpoll
  split <;> rfl

theorem addEpoll_socket (k : Kernel) (fd : Fd) (data : Nat) : (k.addEpoll fd data).socket = k.socket := by
  unfold Kernel.addEpoll
  split <;> rfl

theorem checkClientStatus_steady (env : Env) (b : Broker) (kv : CString × Nat) :
    Steady fd c b.kernel (checkClientStatus env b kv).2.kernel := by
  unfold checkClientStatus
  dsimp only
  split
  · exact .close b.kernel _
  · exact .refl fd c _

theorem sweep_steady (env : Env) (b : Broker) : Steady fd c b.kernel (keepaliveSweep env b).kernel :=
  hashmapIterate2_invariant (fun b₁ => Steady fd c b.kernel b₁.kernel)
    (fun b₁ kv before => before.trans (checkClientStatus_steady env b₁ kv)) b.clients b (.refl fd c _)

/-- The socket is written back as the read left it. -/
theorem serveRequest_kernel (decodable : Decodable opcode)
    (done : (serveRequest env b c opcode pkt).outcome = .returned (rc,b')) :
    b'.kernel = b.kernel.modEpoll (b.fd c) .epollout c := by
  obtain ⟨b₁,rfl,handled⟩ := serveRequest_cases done
  have loc : Local c b b₁ := by
    rcases handled with ⟨command,rc',rfl,returned⟩ | ⟨_,rfl⟩
    · exact (linked_local env b c pkt).trans (handler_local decodable returned)
    · exact linked_local env b c pkt
  change b₁.kernel.modEpoll (b.fd c) .epollout c = _
  rw [loc.kernel]

theorem requestHandler_socket (done : (requestHandler env b c).outcome = .returned (rc,b')) :
    ∃ packet s, incoming env b c = .returned (packet,s) ∧
      b'.kernel.socket = Function.update b.kernel.socket (b.fd c) s := by
  obtain ⟨packet,s,received,cases⟩ := requestHandler_cases done
  refine ⟨packet,s,received,?_⟩
  rcases cases with ⟨_,rfl⟩ | ⟨opcode,buffer,_,⟨_,rfl⟩ | ⟨pkt,decoded,served⟩⟩
  · exact modEpoll_socket _ _ _ _
  · rfl
  · rw [serveRequest_kernel (unpackPacket_decodable decoded) served]
    exact modEpoll_socket _ _ _ _

theorem replyHandler_steady (done : (replyHandler env b d).outcome = .returned (rc,b')) :
    Steady fd c b.kernel b'.kernel := by
  rcases replyHandler_cases done with ⟨_,rfl,_⟩ | ⟨reply,b₁,_,delivered,_,rfl⟩
  · exact .refl fd c _
  · rw [← (deliverReply_local delivered).kernel]
    exact .of_eq (Kernel.modEpoll_connection _ _ _ _) (modEpoll_socket _ _ _ _)

theorem acceptHandler_steady (env : Env) (server : Nat) (fresh : FreshFd b accepted) (known : c < b.client.next) :
    Steady fd c b.kernel (acceptHandler env b server accepted).2.kernel := by
  cases accepted with
  | refused => exact .refl fd c _
  | lost fd' => exact .accept .stray ⟨[],.quiet⟩ fresh (by simp)
  | taken fd' s =>
    have other : Peer.client b.client.next ≠ .client c := by
      intro same
      exact absurd (Peer.client.inj same) (Nat.ne_of_gt known)
    refine (Steady.accept (.client b.client.next) s fresh other).trans (.of_eq ?_ ?_)
    · exact (Kernel.modEpoll_connection _ _ _ _).trans (Kernel.addEpoll_connection _ _ _)
    · exact (modEpoll_socket _ _ _ _).trans (addEpoll_socket _ _ _)

/-- The calls that an event shows for a client. -/
def served (c : Nat) : Event → Option (Command × Packet)
  | .call command d (some pkt) => if d = c then some (command,pkt) else none
  | _ => none

def servedIn (c : Nat) (past : List Label) : List (Command × Packet) := (past.flatMap Label.events).filterMap (served c)

theorem replies_unserved (uncalled : ∀ command d pkt, .call command d pkt ∉ events) (c : Nat) :
    events.filterMap (served c) = [] := by
  rw [List.filterMap_eq_nil_iff]
  intro event member
  cases event with
  | call command d pkt => exact absurd member (uncalled command d pkt)
  | publish => rfl
  | reply => rfl

theorem replyHandler_unserved (done : (replyHandler env b d).outcome = .returned (rc,b')) (c : Nat) :
    (replyHandler env b d).events.filterMap (served c) = [] := by
  rcases replyHandler_cases done with ⟨_,_,silent⟩ | ⟨reply,b₁,_,delivered,shown,_⟩
  · rw [silent]
    rfl
  · rw [shown]
    exact replies_unserved (deliverReply_uncalled delivered) c

theorem progress_served (progress : Progress env b who events b')
    (other : ∀ d, who = some d → d < b.client.next → d ≠ c) : events.filterMap (served c) = [] := by
  cases progress with
  | idle => rfl
  | unknown => rfl
  | request serving turn =>
    have apart := other _ turn serving.known
    simp [served,apart]
  | reply _ _ _ delivered =>
    exact replies_unserved (deliverReply_uncalled delivered) c

/-- What a step is for one client: something else, or a read from its socket and the call for what was read. -/
inductive Took (env : Env) (b : Broker) (c : Nat) (events : List Event) (b' : Broker) : Prop where
  | other (unserved : events.filterMap (served c) = []) (steady : Steady (b.fd c) c b.kernel b'.kernel)
  | pause (open' : b.kernel.connection (b.fd c) = some (.client c)) (unserved : events = [])
    (received : recvPacket env.junk env.fuel (requestRing env.stack) (b.kernel.socket (b.fd c)) =
      .returned (none,b'.kernel.socket (b.fd c)))
  | packet (open' : b.kernel.connection (b.fd c) = some (.client c))
    (received : recvPacket env.junk env.fuel (requestRing env.stack) (b.kernel.socket (b.fd c)) =
      .returned (some (opcode,buffer),b'.kernel.socket (b.fd c)))
    (shown : ∀ command pkt, opcode = Command.ctype command → (unpackPacket opcode buffer).1 = some pkt →
      events = [.call command c (some pkt)])

/-- A request that is handled with the kernel that the event left. -/
theorem requestHandler_took (open' : b.kernel.connection (b.fd c) = some (.client c))
    (socket : k.socket = b.kernel.socket)
    (done : (requestHandler env { b with kernel := k } c).outcome = .returned (rc,b')) :
    Took env b c (requestHandler env { b with kernel := k } c).events b' := by
  obtain ⟨packet,s,received,left⟩ := requestHandler_socket done
  change recvPacket env.junk env.fuel (requestRing env.stack) (k.socket (b.fd c)) = _ at received
  change b'.kernel.socket = Function.update k.socket (b.fd c) s at left
  have here : b'.kernel.socket (b.fd c) = s := by rw [left,Function.update_self]
  have received' := received
  rw [socket,← here] at received'
  rcases packet with _ | ⟨opcode,buffer⟩
  · exact .pause open' (requestHandler_quiet received) received'
  · refine .packet open' received' fun command pkt same decoded => ?_
    rw [requestHandler_events received,decoded,same]
    exact serveRequest_events command pkt

theorem processed_took (inv : Registered b) (registered : b.kernel.epoll fd = some r)
    (fresh : FreshFd b w.accepted) (known : c < b.client.next)
    (processed : Processed env w (b.setKernel (·.disarm fd)) r.data readiness events b') : Took env b c events b' := by
  obtain ⟨_,same,open'⟩ := inv.own fd r registered
  have disarmed : Steady (b.fd c) c b.kernel (b.kernel.disarm fd) :=
    .of_eq (Kernel.disarm_connection _ _) (Kernel.disarm_socket _ _)
  have progress := processed_progress inv registered processed
  cases processed with
  | error => exact .other rfl (disarmed.trans (.close _ _))
  | quit => exact .other rfl disarmed
  | accept => exact .other rfl (disarmed.trans (acceptHandler_steady env r.data (disarm_fresh fresh) known))
  | request _ _ done =>
    by_cases turn : r.data = c
    · subst turn
      exact requestHandler_took (same ▸ open') (Kernel.disarm_socket _ _) done
    · have apart : ∀ d, some r.data = some d → d < b.client.next → d ≠ c :=
        fun _ equal _ => Option.some.inj equal ▸ turn
      refine .other (progress_served progress apart) (disarmed.trans fun connected => ?_)
      obtain ⟨_,s,_,left⟩ := requestHandler_socket done
      rw [(requestHandler_touched done).connection] at connected
      have away : b.fd c ≠ b.fd r.data := by
        intro equal
        rw [equal,same,Broker.setKernel_kernel,Kernel.disarm_connection,open'] at connected
        exact turn (Peer.client.inj (Option.some.inj connected))
      exact ⟨connected,by rw [left]; exact Function.update_of_ne away _ _⟩
  | reply _ _ done => exact .other (replyHandler_unserved done c) (disarmed.trans (replyHandler_steady done))

/-- What arrives for a client: its connection brings the stream when it is accepted, and nothing else later. -/
def Supplied (c : Nat) (stream : List Sent) (b : Broker) : Action → Prop
  | .arrive fd _ => b.kernel.connection fd ≠ some (.client c)
  | .event w fd _ => fd = b.fd 0 → b.client.next = c → ∀ fd' s, w.accepted = .taken fd' s → Brings stream s
  | _ => True

variable {stream : List Sent} {calls : List (Command × Packet)}

theorem performed_took (inv : Registered b) (supplied : Supplied c stream b label.action)
    (performed : Performed b label b') (known : c < b.client.next) : Took label.env b c label.events b' := by
  obtain ⟨env,action,events⟩ := label
  obtain ⟨enabled,outcome,shown⟩ := performed
  obtain rfl : (perform env b action).events = events := shown
  cases action with
  | arrive fd s =>
    obtain rfl := Outcome.returned.inj outcome
    exact .other rfl (.setSocket b.kernel s supplied)
  | event w fd readiness =>
    obtain ⟨⟨data,interest,registered⟩,fresh⟩ := enabled
    exact processed_took inv registered fresh known (workerEvent_processed registered outcome)
  | sweep =>
    obtain rfl := Outcome.returned.inj outcome
    exact .other rfl (sweep_steady env b)
  | disconnect d =>
    obtain rfl := Outcome.returned.inj outcome
    rw [closeSockets_eq]
    exact .other rfl (.close b.kernel _)

/-- The new client of an accepted connection. -/
theorem accept_brings (env : Env) (server : Nat)
    (brought : b.client.next = c → ∀ fd s, accepted = .taken fd s → Brings stream s)
    (new : b.client.next ≤ c) (joined : c < (acceptHandler env b server accepted).2.client.next) :
    Brings stream ((acceptHandler env b server accepted).2.kernel.socket
      ((acceptHandler env b server accepted).2.fd c)) := by
  cases accepted with
  | refused => exact absurd joined (Nat.not_lt.mpr new)
  | lost fd => exact absurd joined (Nat.not_lt.mpr new)
  | taken fd s =>
    obtain rfl : c = b.client.next := Nat.le_antisymm (Nat.le_of_lt_succ joined) new
    have cell : (acceptHandler env b server (.taken fd s)).2.client.cell b.client.next =
      ⟨.online,configKeepalive,env.now,fd,.request,env.randomName,none,none⟩ := Heap.alloc_new _ _
    have own : (acceptHandler env b server (.taken fd s)).2.fd b.client.next = fd := by rw [Broker.fd,cell]
    have socket : (acceptHandler env b server (.taken fd s)).2.kernel.socket =
        Function.update b.kernel.socket fd s :=
      (modEpoll_socket _ _ _ _).trans (addEpoll_socket _ _ _)
    rw [own,socket,Function.update_self]
    exact brought rfl fd s rfl

/-- Only the listening socket brings clients. -/
theorem processed_brings (attended : Attended b) (registered : b.kernel.epoll fd = some r)
    (brought : fd = b.fd 0 → b.client.next = c → ∀ fd s, w.accepted = .taken fd s → Brings stream s)
    (processed : Processed env w (b.setKernel (·.disarm fd)) r.data readiness events b')
    (new : b.client.next ≤ c) (joined : c < b'.client.next) : Brings stream (b'.kernel.socket (b'.fd c)) := by
  obtain ⟨known,own,_⟩ := attended.registered.own _ _ registered
  have same (equal : b'.client.next = b.client.next) : Brings stream (b'.kernel.socket (b'.fd c)) :=
    absurd (equal ▸ joined) (Nat.not_lt.mpr new)
  cases processed with
  | error => exact same rfl
  | quit => exact same rfl
  | accept _ ctx =>
    have server : r.data = 0 := by
      by_contra client
      exact attended.handler r.data client known ctx
    exact accept_brings env r.data (brought (server ▸ own.symm)) new joined
  | request _ _ done => exact same (requestHandler_touched done).next
  | reply _ _ done => exact same (replyHandler_touched done).next

theorem performed_brings (attended : Attended b) (supplied : Supplied c stream b label.action)
    (performed : Performed b label b') (new : b.client.next ≤ c) (joined : c < b'.client.next) :
    Brings stream (b'.kernel.socket (b'.fd c)) := by
  obtain ⟨env,action,events⟩ := label
  obtain ⟨enabled,outcome,_⟩ := performed
  have same (equal : b'.client.next = b.client.next) : Brings stream (b'.kernel.socket (b'.fd c)) :=
    absurd (equal ▸ joined) (Nat.not_lt.mpr new)
  cases action with
  | arrive fd s =>
    obtain rfl := Outcome.returned.inj outcome
    exact same rfl
  | event w fd readiness =>
    obtain ⟨⟨data,interest,registered⟩,fresh⟩ := enabled
    exact processed_brings attended registered supplied (workerEvent_processed registered outcome) new joined
  | sweep =>
    obtain rfl := Outcome.returned.inj outcome
    exact same (Listener.sweep_epoll env attended).2.1
  | disconnect d =>
    obtain rfl := Outcome.returned.inj outcome
    exact same (by rw [closeSockets_eq]; rfl)

/-- The first requests of the stream were served, and the others wait. -/
def Fed (stream : List Sent) (calls : List (Command × Packet)) (b : Broker) (c : Nat) : Prop :=
  ∃ done rest, stream = done ++ rest ∧ calls = done.map (·.query.call) ∧
    (b.kernel.connection (b.fd c) = some (.client c) → Brings rest (b.kernel.socket (b.fd c)))

theorem took_fed (fed : Fed stream calls b c) (took : Took env b c events b') (same : b'.fd c = b.fd c) :
    Fed stream (calls ++ events.filterMap (served c)) b' c := by
  obtain ⟨done,rest,rfl,rfl,brings⟩ := fed
  cases took with
  | other unserved steady =>
    refine ⟨done,rest,rfl,by rw [unserved,List.append_nil],fun open' => ?_⟩
    rw [same] at open' ⊢
    obtain ⟨before,socket⟩ := steady open'
    rw [socket]
    exact brings before
  | pause open' unserved received =>
    refine ⟨done,rest,rfl,by rw [unserved]; exact List.append_nil _,fun _ => ?_⟩
    rw [same]
    exact read_nothing (brings open') received
  | packet open' received shown =>
    obtain ⟨sent,later,rfl,left,opcode,decoded⟩ := read_packet (brings open') received
    refine ⟨done ++ [sent],later,by simp,?_,fun _ => by rwa [same]⟩
    rw [shown _ _ opcode decoded]
    simp [served]

theorem progress_sameFds (progress : Progress env b who events b') : SameFds b b' := by
  have of_touched {c : Nat} {k : Kernel} (touched : Touched c { b with kernel := k } b') : SameFds b b' :=
    ⟨Nat.le_of_eq touched.next.symm,fun p _ => touched.fd p⟩
  cases progress with
  | idle idle => exact ⟨idle.next,fun p known => (idle.old p known).fd⟩
  | unknown serving _ => exact of_touched (unknown_touched env b _ _ _)
  | request _ _ decodable handled => exact of_touched (request_touched decodable handled)
  | @reply c _ _ _ b₁ _ _ _ delivered =>
    exact of_touched ((Touched.of_local (deliverReply_local delivered)).trans (finishReply_touched b₁ c))

/-- The client is served what it sent. -/
structure Supply (c : Nat) (stream : List Sent) (past : List Label) (b : Broker) : Prop where
  attended : Attended b
  fed : c < b.client.next → Fed stream (servedIn c past) b c
  fresh : b.client.next ≤ c → servedIn c past = []

theorem servedIn_snoc (c : Nat) (past : List Label) (label : Label) :
    servedIn c (past ++ [label]) = servedIn c past ++ label.events.filterMap (served c) := by simp [servedIn]

theorem performed_supply (supply : Supply c stream past b) (supplied : Supplied c stream b label.action)
    (performed : Performed b label b') : Supply c stream (past ++ [label]) b' := by
  have inv := supply.attended.registered
  have progress := performed_progress inv performed
  have fds := progress_sameFds progress
  have unserved (new : b.client.next ≤ c) : servedIn c (past ++ [label]) = [] := by
    rw [servedIn_snoc,supply.fresh new,progress_served progress fun d _ known => Nat.ne_of_lt (known.trans_le new)]
    rfl
  refine ⟨(performed_fate supply.attended performed).2,fun joined => ?_,fun new => unserved (fds.1.trans new)⟩
  by_cases known : c < b.client.next
  · rw [servedIn_snoc]
    exact took_fed (supply.fed known) (performed_took inv supplied performed known) (fds.2 c known)
  · have new := Nat.not_lt.mp known
    exact ⟨[],stream,rfl,unserved new,fun _ => performed_brings supply.attended supplied performed new joined⟩

theorem run_supply (client : c ≠ 0)
    (run : Run (fun _ b label b' => Supplied c stream b label.action ∧ Performed b label b')
      (startServer server) past b) :
    Supply c stream past b := by
  refine Run.invariant (Supply c stream) ?_ (fun _ _ _ _ _ supply taken => performed_supply supply taken.1 taken.2) run
  refine ⟨start_attended server,fun known => ?_,fun _ => rfl⟩
  exact absurd (Nat.lt_one_iff.mp known) client

/-- Whatever the other clients send, the calls made for a client are those for the first requests that it sent, in
the order in which it sent them and with the packets that it packed; while its connection is open, the other
requests wait on its socket. -/
theorem served_as_sent (client : c ≠ 0)
    (run : Run (fun _ b label b' => Supplied c stream b label.action ∧ Performed b label b')
      (startServer server) past b) :
    ∃ done rest, stream = done ++ rest ∧ servedIn c past = done.map (·.query.call) ∧
      (c < b.client.next → b.kernel.connection (b.fd c) = some (.client c) →
        Brings rest (b.kernel.socket (b.fd c))) := by
  have supply := run_supply client run
  by_cases known : c < b.client.next
  · obtain ⟨done,rest,split,calls,brings⟩ := supply.fed known
    exact ⟨done,rest,split,calls,fun _ => brings⟩
  · exact ⟨[],stream,rfl,supply.fresh (Nat.not_lt.mp known),fun joined => absurd joined known⟩

/-- A SUBSCRIBE to `a` and a PUBLISH of `b` on it. -/
def errand : List Sent :=
  [⟨.subscribe (cstr [97]) 0,fun _ => 7,by decide⟩,⟨.publish (cstr [97]) (cstr [98]) 0 0 0,fun _ => 7,by decide⟩]

/-- The PUBLISH comes after a pause. -/
def errandSocket : Socket :=
  ⟨[.bytes 0x80 [0,0,0,11,0,1,0,97,7,7],.again,.bytes 0x30 [0,0,0,18,0,1,0,0,0,1,0,0,0,97,98,7,7]],.quiet⟩

theorem errand_brings : Brings errand errandSocket where
  quiet := rfl
  carried := by decide +kernel
  seamless := by
    have pauses : Tape.Pause (tape errandSocket.arrivals) 11 ∧ Tape.Pause (tape errandSocket.arrivals) 29 := by
      decide +kernel
    exact ⟨.inl pauses.1,.inl pauses.2,trivial⟩

/-- A condition that the steps of a script meet in the states where they are taken. -/
def Along (condition : Broker → Label → Prop) (b : Broker) : List (Env × Action) → Prop
  | [] => True
  | (env,action) :: rest => condition b (labelled env b action) ∧ Along condition (after env b action) rest

theorem follow_along {condition : Broker → Label → Prop}
    (run : Run (fun _ b label b' => condition b label ∧ Performed b label b') start past b)
    (feasible' : feasible b script = true) (along : Along condition b script) :
    Run (fun _ b label b' => condition b label ∧ Performed b label b') start (past ++ trace b script)
      (follow b script) := by
  induction script generalizing past b with
  | nil => rwa [trace,List.append_nil]
  | cons head rest ih =>
    obtain ⟨env,action⟩ := head
    obtain ⟨possible',later⟩ := Bool.and_eq_true_iff.mp feasible'
    have taken := run.snoc ⟨along.1,possible_performed env b action possible'⟩
    have whole := ih taken later along.2
    rwa [List.append_assoc] at whole

/-- The client joins and is served once. -/
def errandScript : List (Env × Action) :=
  [(plainEnv,Ordering.served (.taken 4 errandSocket) 3),(plainEnv,Ordering.served .refused 4)]

theorem errand_served : ∃ past b,
    Run (fun _ b label b' => Supplied 1 errand b label.action ∧ Performed b label b') (startServer 3) past b ∧
      servedIn 1 past = (errand.take 1).map (·.query.call) ∧ Brings (errand.drop 1) (b.kernel.socket (b.fd 1)) := by
  have along : Along (fun b label => Supplied 1 errand b label.action) (startServer 3) errandScript := by
    refine ⟨fun _ _ fd s brought => ?_,fun _ _ fd s brought => ?_,trivial⟩
    · obtain ⟨_,rfl⟩ := Accepted.taken.inj brought
      exact errand_brings
    · cases brought
  have run := follow_along (Run.nil : Run _ (startServer 3) _ _) (by decide +kernel) along
  obtain ⟨done,rest,split,calls,brings⟩ := served_as_sent (by decide) run
  have one : (servedIn 1 ([] ++ trace (startServer 3) errandScript)).length = 1 := by decide +kernel
  rw [calls,List.length_map] at one
  have front : errand.take 1 = done := by rw [split,← one,List.take_left]
  have back : errand.drop 1 = rest := by rw [split,← one,List.drop_left]
  rw [front,back]
  exact ⟨_,_,run,calls,brings (by decide +kernel) (by decide +kernel)⟩

end Sizigy.Intake
