import Sizigy.ServerSpec

/-! Service of the declared commands. The dispatch table and the decoder selection are two
lists of opcodes; a packet is served exactly when its opcode stands in both. -/
namespace Sizigy.Dispatch

open Bytes

/-- The result of the decoder written for a command; a DISCONNECT carries no data. -/
def Decodes (buffer : Buffer) (pkt : Packet) : Command → Prop
  | .connect => pkt = .connect (unpackConnect buffer).1
  | .publish => pkt = .publish (unpackPublish buffer).1
  | .pingreq => pkt = .ack (unpackAck buffer).1
  | .subscribe => pkt = .subscribe (unpackSubscribe buffer).1
  | .unsubscribe => pkt = .unsubscribe (unpackUnsubscribe buffer).1
  | .disconnect => True

/-- The request handler calls the handler of this command, no other, and once, with the
packet as its own decoder reads it. -/
def Served (env : Env) (b : Broker) (c : Nat) (command : Command) (buffer : Buffer) : Prop :=
  ∃ pkt, Decodes buffer pkt command ∧
    (requestHandler env b c).events = [.call command c (some pkt)]

variable {env : Env} {b : Broker} {c : Nat} {opcode : UInt8}

/-- A command is served exactly when the decoder selection knows it: UNSUBSCRIBE and
DISCONNECT stand in the table only. -/
theorem served_iff_decoded (env : Env) (b : Broker) (c : Nat) (command : Command) (buffer : Buffer)
    (s : Socket)
    (received : recvPacket env.junk env.fuel (requestRing env.stack) (b.kernel.socket (b.fd c)) =
      .returned (some (command.ctype,buffer),s)) :
    Served env b c command buffer ↔ command ≠ .unsubscribe ∧ command ≠ .disconnect := by
  unfold Served
  rw [requestHandler_events received]
  cases command with
  | connect => exact ⟨fun _ => by decide,fun _ => ⟨_,rfl,serveRequest_events .connect _⟩⟩
  | publish => exact ⟨fun _ => by decide,fun _ => ⟨_,rfl,serveRequest_events .publish _⟩⟩
  | pingreq => exact ⟨fun _ => by decide,fun _ => ⟨_,rfl,serveRequest_events .pingreq _⟩⟩
  | subscribe => exact ⟨fun _ => by decide,fun _ => ⟨_,rfl,serveRequest_events .subscribe _⟩⟩
  | unsubscribe =>
    constructor
    · rintro ⟨_,_,called⟩
      cases called
    · exact fun apart => absurd rfl apart.1
  | disconnect =>
    constructor
    · rintro ⟨_,_,called⟩
      cases called
    · exact fun apart => absurd rfl apart.2

/-- A server that has accepted one connection, with the given bytes waiting on it. -/
def oneClient (first : UInt8) (more : List UInt8) : Broker :=
  (acceptHandler plainEnv (startServer 3) 0 (.taken 4 ⟨[.bytes first more],.quiet⟩)).2

theorem pingreq_served : ∃ buffer s,
    recvPacket plainEnv.junk plainEnv.fuel (requestRing plainEnv.stack)
        ((oneClient 0xC0 [0,0,0,8,0,0,0]).kernel.socket ((oneClient 0xC0 [0,0,0,8,0,0,0]).fd 1)) =
      .returned (some (Command.pingreq.ctype,buffer),s) ∧
    (Served plainEnv (oneClient 0xC0 [0,0,0,8,0,0,0]) 1 .pingreq buffer ↔
      Command.pingreq ≠ .unsubscribe ∧ Command.pingreq ≠ .disconnect) := by
  have brought : brings Command.pingreq.ctype [0xC0,0,0,0,8,0,0,0]
      (incoming plainEnv (oneClient 0xC0 [0,0,0,8,0,0,0]) 1) = true := by decide +kernel
  obtain ⟨buffer,s,received,_⟩ := brings_packet brought
  exact ⟨buffer,s,received,served_iff_decoded _ _ _ _ _ _ received⟩

/-- An UNSUBSCRIBE for the topic `a`, as the packer writes it. -/
def unsubscribeA : List UInt8 :=
  (packUnsubscribe (bufferInit (unsubscribePkt [97]).header.size.toNat fun _ => 0) (unsubscribePkt [97])).bytes

theorem unsubscribe_ignored :
    unsubscribeA = [0xA0,0,0,0,9,0,1,97,0] ∧ ∃ buffer s,
    recvPacket plainEnv.junk plainEnv.fuel (requestRing plainEnv.stack)
        ((oneClient 0xA0 [0,0,0,9,0,1,97,0]).kernel.socket ((oneClient 0xA0 [0,0,0,9,0,1,97,0]).fd 1)) =
      .returned (some (Command.unsubscribe.ctype,buffer),s) ∧ buffer.bytes = unsubscribeA ∧
    ¬Served plainEnv (oneClient 0xA0 [0,0,0,9,0,1,97,0]) 1 .unsubscribe buffer := by
  have brought : brings Command.unsubscribe.ctype unsubscribeA
      (incoming plainEnv (oneClient 0xA0 [0,0,0,9,0,1,97,0]) 1) = true := by decide +kernel
  obtain ⟨buffer,s,received,bytes⟩ := brings_packet brought
  refine ⟨by decide +kernel,buffer,s,received,bytes,?_⟩
  rintro ⟨pkt,_,called⟩
  rw [requestHandler_events received] at called
  cases called

end Sizigy.Dispatch
