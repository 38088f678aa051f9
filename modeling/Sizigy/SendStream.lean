import Mathlib.Data.List.TakeDrop
import Sizigy.Machine
import Sizigy.SendContract

/-! The bytes on the wire. `sendall` passes a packet to a non-blocking socket piece by piece
and gives up where the kernel refuses; none of its callers sends the rest later or drops the
connection. -/
namespace Sizigy.SendStream

open Bytes Machine SendContract

/-- Bytes that the kernel has room for before it refuses. -/
def room : List Answer → Nat
  | .took more :: rest => more + 1 + room rest
  | _ => 0

/-- One call of `sendall` and how the kernel answered it. -/
structure Call where
  bytes : List UInt8
  answers : List Answer
  deriving DecidableEq

namespace Call

def run (call : Call) : Exec Send (Int32 × Int64) :=
  sendall (listed call.answers) (Int64.ofNat call.bytes.length) (call.bytes.length + 1)

/-- What the kernel takes of a packet that lies in memory. -/
def accepted (call : Call) : List UInt8 :=
  call.run.events.flatMap (Send.bytes (store (fun _ => 0) 0 call.bytes))

/-- The lengths that `sendall` can count. -/
def Short (call : Call) : Prop := call.bytes.length < 2 ^ 31

/-- The kernel refuses in the middle of the packet. -/
def Cut (call : Call) : Prop := 0 < room call.answers ∧ room call.answers < call.bytes.length

/-- The kernel takes the first byte of the packet. -/
def Started (call : Call) : Prop := 0 < room call.answers ∧ 0 < call.bytes.length

end Call

variable {len left : Int64} {log : List Send} {sent : Nat} {l : List Answer}

namespace Call

end Call

def wire (calls : List Call) : List UInt8 := calls.flatMap Call.accepted

/-- A byte of a packet goes out only after every packet that was begun before it. -/
def Intact (calls : List Call) : Prop :=
  calls.Pairwise fun earlier later =>
    later.accepted ≠ [] → earlier.accepted ≠ [] → earlier.accepted = earlier.bytes

variable {env : Env} {b : Broker}

/-- The same surroundings, with other results of the sends. -/
def sending (env : Env) (results : Fd → List UInt8 → Int × Nat) : Env := { env with sendall := results }

/-- A step of the broker, and what the kernel answers to each packet that it sends on a client's connection, by
their number in the step. -/
structure Turn where
  label : Label
  answers : Nat → Nat → List Answer

/-- The packet that an event passes to `sendall` for the connection of a client. -/
def packetTo (c : Nat) : Event → Option (List UInt8)
  | .publish _ _ peer bytes => if peer = some (.client c) then some bytes else none
  | .reply _ peer bytes => if peer = some (.client c) then some bytes else none
  | .call _ _ _ => none

def Turn.calls (turn : Turn) (c : Nat) : List Call :=
  (turn.label.events.filterMap (packetTo c)).mapIdx fun i bytes => ⟨bytes,turn.answers c i⟩

/-- Everything that was sent on the connection of a client. -/
def calls (past : List Turn) (c : Nat) : List Call := past.flatMap (Turn.calls · c)

/-- The condition on a step: where the kernel cut a packet before, it takes no byte of the packets that the
step sends. -/
def Spared (past : List Turn) (turn : Turn) : Prop :=
  ∀ c before call after, turn.calls c = before ++ call :: after →
    (∃ earlier ∈ calls past c ++ before, earlier.Cut) → ¬call.Started

/-- What an event passes to `sendall`. -/
def packet : Event → List UInt8
  | .publish _ _ _ bytes => bytes
  | .reply _ _ bytes => bytes
  | .call _ _ _ => []

/-- A step that sends no packet of 2^31 bytes or more, the lengths that `sendall` cannot count. -/
def Countable (b : Broker) (turn : Turn) (b' : Broker) : Prop :=
  Performed b turn.label b' ∧ ∀ event ∈ turn.label.events, (packet event).length < 2 ^ 31

theorem packetTo_packet (sent : packetTo c event = some bytes) : packet event = bytes := by
  cases event with
  | publish t fd peer bytes' =>
    simp only [packetTo,Option.ite_none_right_eq_some,Option.some.injEq] at sent
    exact sent.2
  | reply fd peer bytes' =>
    simp only [packetTo,Option.ite_none_right_eq_some,Option.some.injEq] at sent
    exact sent.2
  | call => cases sent

theorem Countable.short (countable : Countable b turn b') (c : Nat) : ∀ call ∈ turn.calls c, call.Short := by
  intro call member
  obtain ⟨i,inside,rfl⟩ := List.mem_mapIdx.mp member
  obtain ⟨event,shown,sent⟩ := List.mem_filterMap.mp (List.getElem_mem inside)
  have small := countable.2 event shown
  rwa [packetTo_packet sent] at small

/-- What a call returns, as an environment has it. -/
def Call.returned (call : Call) : Int × Nat :=
  match call.run.outcome with
  | .returned (rc,sent) => (rc.toInt,sent.toNatClampNeg)
  | _ => (0,0)

def answered (answers : List Answer) : Env := sending plainEnv fun _ bytes => Call.returned ⟨bytes,answers⟩

def turn : Action := .event ⟨fun c => 64 + 16 * c,5,.refused⟩ 4 .ready

/-- A client at descriptor 4 that sends two PINGREQs, with the answers of the kernel to the two packets it gets. -/
def pingTwice (first second : List Answer) : List (Env × Action) :=
  [(plainEnv,.event ⟨fun c => 64 + 16 * c,5,.taken 4 ⟨[.bytes 0xC0 [0,0,0,8,0,0,0]],.quiet⟩⟩ 3 .ready),
    (plainEnv,turn),
    (answered first,turn),
    (plainEnv,.arrive 4 ⟨[.bytes 0xC0 [0,0,0,8,0,0,0]],.quiet⟩),
    (plainEnv,turn),
    (answered second,turn)]

def turns (first second : List Answer) : List Turn :=
  (trace (startServer 3) (pingTwice first second)).mapIdx fun i label =>
    ⟨label,fun _ _ => if i < 3 then first else second⟩

end Sizigy.SendStream
