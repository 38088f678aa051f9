import Sizigy.EventLoop
import Sizigy.Ledger

/-! Packets and their acknowledgements. Every packet that `recv_packet` takes from a client is
answered before the next one is, as long as no packet comes that leaves its client without a
reply: after such a one the client is never served again. -/
namespace Sizigy.Acknowledgement

open Bytes PacketBounds PacketCodec Forwarding Machine Conversation EventLoop Ledger

/-- A step, and the packet that `recv_packet` returned in it with the client it is from. -/
structure Turn where
  label : Label
  packet : Option (Nat × Buffer)

/-- A packet among others that the broker sends a client, if it is an acknowledgement. -/
def sentTo (behind : Memory) (c : Nat) (fd : Fd) (peer : Option Peer) (bytes : List UInt8) :
    Option (Entry Buffer) :=
  if peer = some (.client c) ∧ bytes.head?.any acknowledges = true then
    some (.acked fd (unpackAck (arrived bytes behind)).1)
  else none

def written (behind : Memory) (c : Nat) : Event → Option (Entry Buffer)
  | .publish _ fd peer bytes => sentTo behind c fd peer bytes
  | .reply fd peer bytes => sentTo behind c fd peer bytes
  | .call _ _ _ => none

def read (c : Nat) (packet : Option (Nat × Buffer)) : List (Entry Buffer) :=
  (packet.filter fun taken => taken.1 = c).toList.map fun taken => .asked taken.2

/-- The packets taken from a client and the acknowledgements sent to it, in their order. -/
def log (behind : Memory) (c : Nat) (past : List Turn) : List (Entry Buffer) :=
  past.flatMap fun turn => read c turn.packet ++ turn.label.events.filterMap (written behind c)

/-- The packet that the request handler reads for the client of an event. -/
def taken (env : Env) (b : Broker) : Action → Option (Nat × Buffer)
  | .event w fd .ready =>
    match b.kernel.epoll fd with
    | none => none
    | some r =>
      if w.dataFd r.data ≠ w.run.toNat ∧ (b.client.cell r.data).ctxHandler = .request then
        match incoming env b r.data with
        | .returned (some (_,buffer),_) => some (r.data,buffer)
        | _ => none
      else none
  | _ => none

structure Observed (b : Broker) (turn : Turn) (b' : Broker) : Prop where
  performed : Performed b turn.label b'
  packet : turn.packet = taken turn.label.env b turn.label.action

/-- The acknowledgements that a packet is due, read off its bytes. The length of an id or a topic
stands in the bytes 5 and 6, the QoS of a PUBLISH in the byte 11. -/
def owed (packet : Buffer) : List Ack :=
  let unnamed := packet.data 5 = 0 ∧ packet.data 6 = 0
  if packet.data 0 = Opcode.connect then [ackLetter Opcode.connack 0 (if unnamed then 1 else 0)]
  else if packet.data 0 = Opcode.pingreq then [ackLetter Opcode.pingresp 0 0]
  else if packet.data 0 = Opcode.subscribe then [ackLetter Opcode.suback 0 (if unnamed then 1 else 0)]
  else if packet.data 0 = Opcode.publish then
    if ¬unnamed ∧ packet.data 11 = 1 then [ackLetter Opcode.puback 0 0] else []
  else []

variable {env : Env} {b b' : Broker} {c d : Nat} {behind : Memory} {past : List Turn} {turn : Turn}

/-- A packet as `recv_packet` returned it, and the request that it decodes to. -/
structure Reads (packet : Buffer) (asked : Command × Packet) : Prop where
  start : packet.pos = 0
  opcode : Command.ctype asked.1 = packet.data 0
  decoded : (unpackPacket (Command.ctype asked.1) packet).1 = some asked.2

/-- Where a step takes a packet from a client, it is that client's event. -/
theorem taken_source (packet : taken env b action = some (c,buffer)) :
    ∃ w fd armed opcode s, action = .event w fd .ready ∧ b.kernel.epoll fd = some ⟨c,armed⟩ ∧
      w.dataFd c ≠ w.run.toNat ∧ (b.client.cell c).ctxHandler = .request ∧
      incoming env b c = .returned (some (opcode,buffer),s) := by
  unfold taken at packet
  split at packet
  next w fd =>
    cases registered : b.kernel.epoll fd with
    | none => rw [registered] at packet; cases packet
    | some r =>
      simp only [registered] at packet
      split at packet
      next own =>
        split at packet
        next opcode buffer' s received =>
          obtain ⟨rfl,rfl⟩ := Prod.mk.inj (Option.some.inj packet)
          exact ⟨w,fd,r.armed,opcode,s,rfl,registered,own.1,own.2,received⟩
        next => cases packet
      next => cases packet
  next => cases packet

/-- The requests of a client are the packets taken from it. -/
def Recorded (behind : Memory) (past : List Turn) : Prop :=
  ∀ c, List.Forall₂ (Matching Reads) (log behind c past) (ledger behind c (past.map Turn.label))

/-- The invariant of a run of benign steps. -/
structure Attended (behind : Memory) (past : List Turn) (b : Broker) : Prop where
  kept : Kept behind (past.map Turn.label) b
  settled : AllSettled b
  recorded : Recorded behind past

theorem start_attended (behind : Memory) (fd : Fd) : Attended behind [] (startServer fd) where
  kept := start_kept behind fd
  settled := start_settled fd
  recorded _ := .nil

/-- The labels and packets of a script of actions. -/
def observed (b : Broker) : List (Env × Action) → List Turn
  | [] => []
  | (env,action) :: rest => ⟨labelled env b action,taken env b action⟩ :: observed (after env b action) rest

/-- The check of a step that takes no packet but a CONNECT or a PINGREQ. -/
def harmless (env : Env) (b : Broker) : Action → Bool
  | .event w fd readiness =>
    match b.kernel.epoll fd with
    | none => true
    | some r => r.data = 0 || (readiness = .ready && w.dataFd r.data ≠ w.run.toNat &&
        match incoming env b r.data with
        | .returned (some (opcode,_),_) => opcode = Opcode.connect || opcode = Opcode.pingreq
        | _ => true)
  | _ => true

/-- A client that waits to send and has nothing to send. -/
structure Stuck (b : Broker) (c : Nat) : Prop where
  known : c < b.client.next
  handler : (b.client.cell c).ctxHandler = .reply
  empty : (b.client.cell c).reply = none

theorem Stuck.touched (stuck : Stuck b c) (apart : c ≠ d) (touched : Touched d { b with kernel := k } b') :
    Stuck b' c where
  known := by
    rw [touched.next]
    exact stuck.known
  handler := (touched.ctx c apart).trans stuck.handler
  empty := (touched.reply c apart).trans stuck.empty

theorem Stuck.progress (stuck : Stuck b c) (progress : Progress env b who events b') : Stuck b' c := by
  have other {d : Nat} {k : Kernel} (serving : Serving b d .request k) : c ≠ d := by
    rintro rfl
    exact absurd (serving.handler.symm.trans stuck.handler) (by decide)
  cases progress with
  | idle idle =>
    have unmoved := idle.old c stuck.known
    exact ⟨stuck.known.trans_le idle.next,unmoved.ctx.trans stuck.handler,unmoved.reply.trans stuck.empty⟩
  | @unknown d k pkt serving turn =>
    exact stuck.touched (other serving) (unknown_touched env b d k pkt)
  | request serving turn decodable handled =>
    exact stuck.touched (other serving) (request_touched decodable handled)
  | @reply d k r rc b₁ serving turn pending delivered =>
    have apart : c ≠ d := by
      rintro rfl
      exact absurd (pending.symm.trans stuck.empty) (Option.some_ne_none _)
    exact stuck.touched apart ((Touched.of_local (deliverReply_local delivered)).trans (finishReply_touched b₁ d))

/-- Nothing is read from such a client, and nothing is sent to it. -/
theorem Stuck.silent (stuck : Stuck b c) (kept : Kept behind past' b) (observed : Observed b turn b') :
    (∀ packet, turn.packet ≠ some (c,packet)) ∧ ∀ fd bytes, .reply fd (some (.client c)) bytes ∉ turn.label.events := by
  refine ⟨fun packet found => ?_,fun fd bytes sent => ?_⟩
  · obtain ⟨_,_,_,_,_,_,_,_,request,_⟩ := taken_source (observed.packet.symm.trans found)
    exact absurd (stuck.handler.symm.trans request) (by decide)
  · obtain ⟨d,turn',_,peer⟩ := sent_own kept observed.performed sent
    obtain rfl := Peer.client.inj (Option.some.inj peer)
    have progress := performed_progress kept.registered observed.performed
    rw [turn'] at progress
    generalize turn.label.events = events at sent progress
    cases progress with
    | idle => cases sent
    | unknown => cases sent
    | request => cases List.mem_singleton.mp sent
    | reply _ own pending _ =>
      obtain rfl := Option.some.inj own
      exact absurd (pending.symm.trans stuck.empty) (Option.some_ne_none _)

end Sizigy.Acknowledgement
