import Sizigy.Intake
import Sizigy.PubSubRefinement

/-! The whole way, from the packets that clients pack to the packets that clients unpack. When all
clients write with the functions of `protocol.c`, the broker is a publish/subscribe service for
what they asked, whatever the interleaving. -/
namespace Sizigy.EndToEnd

open Machine Conversation ClientStream Simulation
open Intake (Supplied Supply run_supply served servedIn)
open PacketCodec (ackLetter publishLetter subscribeLetter uint16_ofNat uint32_ofNat)
open PubSubRefinement (Request Orderly WellFormed Reads called written requestOf keptAs confirmed run_served)
open RetainedLaw (Plain)

variable {b b' : Broker} {c : Nat} {label : Label} {past : List Label} {streams : Nat → List Sent} {query : Query}

/-- A SUBSCRIBE has a topic. -/
def Named : Query → Prop
  | .subscribe topic _ => topic.bytes ≠ []
  | _ => True

/-- What the service is asked for. A PUBLISH without a topic is not answered. -/
def asked : Query → Request
  | .subscribe topic _ => .subscribe topic (ackLetter Opcode.suback 0 0)
  | .publish topic message qos retain dup =>
    if topic.bytes = [] then .void
    else
      .publish topic (publishLetter topic.bytes message.bytes qos retain dup)
        (if retain = 0 then none else some (publishLetter topic.bytes message.bytes qos 1 0))
        (if qos = 1 then some (ackLetter Opcode.puback 0 0) else none)
  | .pingreq => .other (ackLetter Opcode.pingresp 0 0)

theorem topicLen_zero {topic : CString} (short : strlen topic < 2 ^ 16) :
    UInt16.ofNat topic.bytes.length = 0 ↔ topic.bytes = [] := by
  have length : (UInt16.ofNat topic.bytes.length).toNat = topic.bytes.length := uint16_ofNat short
  rw [← UInt16.toNat_inj,length]
  exact List.length_eq_zero_iff

theorem call_asked (fits : query.Fits) : requestOf query.call.1 query.call.2 = asked query := by
  cases query with
  | subscribe topic qos => simp [Query.call,requestOf,asked,subscribeLetter]
  | publish topic message qos retain dup =>
    have empty := topicLen_zero fits.1
    simp [Query.call,requestOf,asked,publishLetter,keptAs,confirmed,PubSubRefinement.remembered,empty]
  | pingreq => rfl

theorem call_wellFormed (fits : query.Fits) (named : Named query) : WellFormed query.call.2 := by
  cases query with
  | subscribe topic qos => exact fun zero => named ((topicLen_zero fits).mp zero)
  | publish topic message qos retain dup =>
    obtain ⟨short,total⟩ := fits
    rw [strlen,strlen] at total
    have limit : onemb * 2 + headlen < 2 ^ 32 := by decide
    have size : (publishLetter topic.bytes message.bytes qos retain dup).header.size.toNat =
        16 + topic.bytes.length + message.bytes.length := uint32_ofNat (by omega)
    have topicLen : (publishLetter topic.bytes message.bytes qos retain dup).topicLen.toNat = topic.bytes.length :=
      uint16_ofNat short
    have messageLen : (publishLetter topic.bytes message.bytes qos retain dup).messageLen.toNat =
        message.bytes.length := uint32_ofNat (by omega)
    exact {
      topicLength := topicLen.symm
      messageLength := messageLen.symm
      inside := by rw [size,topicLen,messageLen]; omega
      small := by rwa [size]
      topicFree := topic.nulFree
      messageFree := message.nulFree }
  | pingreq => trivial

/-- What the clients and the memory do in a step: all connections bring what was packed, and allocations succeed. -/
structure Fair (streams : Nat → List Sent) (b : Broker) (label : Label) : Prop where
  memory : label.env.calloc = fun _ => true
  supplied : ∀ c, c ≠ 0 → Supplied c (streams c) b label.action

theorem fair_supply (client : c ≠ 0)
    (run : Run (fun _ b label b' => Fair streams b label ∧ Performed b label b') (startServer server) past b) :
    Supply c (streams c) past b :=
  run_supply client (run.mono fun _ _ _ _ taken => ⟨taken.1.supplied c client,taken.2⟩)

/-- What is served for a client are the first of its requests, and no other has left its socket. -/
theorem served_front (supply : Supply c stream past b) :
    ∃ n, servedIn c past = (stream.take n).map (·.query.call) ∧ (c < b.client.next →
      b.kernel.connection (b.fd c) = some (.client c) → Brings (stream.drop n) (b.kernel.socket (b.fd c))) := by
  by_cases known : c < b.client.next
  · obtain ⟨done,rest,rfl,calls,brings⟩ := supply.fed known
    refine ⟨done.length,?_,fun _ => ?_⟩
    · rw [List.take_left,calls]
    · rwa [List.drop_left]
  · exact ⟨0,supply.fresh (Nat.not_lt.mp known),fun joined => absurd joined known⟩

/-- Only clients are served. -/
theorem call_client (inv : Registered b) (performed : Performed b label b')
    (member : .call command c pkt ∈ label.events) : c ≠ 0 := by
  have progress := performed_progress inv performed
  generalize label.events = events at member progress
  cases progress with
  | idle => cases member
  | unknown => cases member
  | request serving =>
    cases List.mem_singleton.mp member
    exact serving.client
  | reply _ _ _ delivered => exact absurd member (deliverReply_uncalled delivered _ _ _)

theorem fair_orderly (named : ∀ c, ∀ sent ∈ streams c, Named sent.query)
    (run : Run (fun _ b label b' => Fair streams b label ∧ Performed b label b') (startServer server) past b) :
    Run (fun _ b label b' => Orderly label ∧ Performed b label b') (startServer server) past b := by
  induction run with
  | nil => exact .nil
  | @snoc past b label b' run taken ih =>
    refine ih.snoc ⟨⟨taken.1.memory,fun command c pkt member => ?_⟩,taken.2⟩
    have inv := (Listener.run_attended (run.mono fun _ _ _ _ taken => taken.2)).registered
    have client := call_client inv taken.2 member
    obtain ⟨n,calls,_⟩ := served_front (fair_supply client (run.snoc taken))
    have made : (command,pkt) ∈ servedIn c (past ++ [label]) := by
      refine List.mem_filterMap.mpr ⟨.call command c (some pkt),?_,by simp [served]⟩
      simp [member]
    rw [calls] at made
    obtain ⟨sent,among,same⟩ := List.mem_map.mp made
    have wellFormed := call_wellFormed sent.fits (named c sent (List.mem_of_mem_take among))
    rwa [same] at wellFormed

def ownRequest (c : Nat) (taken : Nat × Request) : Option Request := if taken.1 = c then some taken.2 else none

/-- The requests that the service takes from a client. -/
def requestsOf (c : Nat) (moves : List (PubSub.Move Nat CString Publish Ack)) : List Request :=
  (moves.filterMap PubSub.Move.request).filterMap (ownRequest c)

theorem called_served (c : Nat) (past : List Label) :
    (past.flatMap fun label => label.events.filterMap called).filterMap (ownRequest c) =
      (servedIn c past).map fun call => requestOf call.1 call.2 := by
  rw [← List.filterMap_flatMap,List.filterMap_filterMap,servedIn,List.map_filterMap]
  refine List.filterMap_congr fun event _ => ?_
  cases event with
  | call command d pkt =>
    cases pkt with
    | none => rfl
    | some pkt =>
      by_cases own : d = c
      · simp [called,served,ownRequest,own]
      · simp [called,served,ownRequest,own]
  | publish => rfl
  | reply => rfl

/-- For clients that write with the packers of the library the broker is the service: it takes from each client the
first of the requests that the client sent, in their order, while the others wait on the socket; and it writes exactly
what the service sends, each packet to the descriptor of the client it is for and such that the unpackers of the
library read it. -/
theorem serves_library_clients (named : ∀ c, ∀ sent ∈ streams c, Named sent.query)
    (run : Run (fun _ b label b' => Fair streams b label ∧ Performed b label b') (startServer server) past b) :
    ∃ moves : List (PubSub.Move Nat CString Publish Ack),
      (∀ c, c ≠ 0 → ∃ n, requestsOf c moves = ((streams c).take n).map (fun sent => asked sent.query) ∧
        (c < b.client.next → b.kernel.connection (b.fd c) = some (.client c) →
          Brings ((streams c).drop n) (b.kernel.socket (b.fd c)))) ∧
      List.Forall₂ (Reads b) (play PubSub.State.act .initial moves).2
        (past.flatMap fun label => label.events.filterMap written) := by
  obtain ⟨moves,_,matched⟩ := run_served (fair_orderly named run)
  refine ⟨moves,fun c client => ?_,matched.said⟩
  obtain ⟨n,calls,brings⟩ := served_front (fair_supply client run)
  refine ⟨n,?_,brings⟩
  rw [requestsOf,matched.took,called_served,calls,List.map_map]
  refine List.map_congr_left fun sent _ => ?_
  exact call_asked sent.fits

/-- One client runs its errand: it is served, the pause is noticed, and it is served again. -/
def errandScript : List (Env × Action) :=
  [(plainEnv,Ordering.served (.taken 4 Intake.errandSocket) 3),(plainEnv,Ordering.served .refused 4),
    (plainEnv,Ordering.served .refused 4),(plainEnv,Ordering.served .refused 4),(plainEnv,Ordering.served .refused 4),
    (plainEnv,Ordering.served .refused 4)]

def errandDone : Broker := follow (startServer 3) errandScript

def errands (c : Nat) : List Sent := if c = 1 then Intake.errand else []

theorem errands_named : ∀ c, ∀ sent ∈ errands c, Named sent.query := by
  intro c sent member
  unfold errands at member
  split at member
  · rcases List.mem_cons.mp member with rfl | later
    · exact (by decide : (cstr [97]).bytes ≠ [])
    · rw [List.mem_singleton.mp later]
      trivial
  · cases member

/-- The broker acknowledges its subscription and tells it its own message. -/
theorem errand_answered : ∃ past b moves,
    Run (fun _ b label b' => Fair errands b label ∧ Performed b label b') (startServer 3) past b ∧
      requestsOf 1 moves = Intake.errand.map (fun sent => asked sent.query) ∧
      List.Forall₂ (Reads b) (play PubSub.State.act .initial moves).2
        (past.flatMap fun label => label.events.filterMap written) ∧
      (play PubSub.State.act .initial moves).2.length = 2 := by
  have brought (accepted : Accepted) (fd : Fd) (b : Broker) (first : ∀ fd' s, accepted = .taken fd' s →
      b.client.next = 1 ∧ s = Intake.errandSocket) :
    Fair errands b (labelled plainEnv b (Ordering.served accepted fd)) := by
    refine ⟨rfl,fun c _ _ joined fd' s taken => ?_⟩
    obtain ⟨next,rfl⟩ := first fd' s taken
    obtain rfl := joined.symm.trans next
    exact Intake.errand_brings
  have along : Intake.Along (Fair errands) (startServer 3) errandScript :=
    ⟨brought _ _ _ fun _ _ taken => ⟨rfl,(Accepted.taken.inj taken).2.symm⟩,brought _ _ _ nofun,brought _ _ _ nofun,
      brought _ _ _ nofun,brought _ _ _ nofun,brought _ _ _ nofun,trivial⟩
  have run : Run _ (startServer 3) ([] ++ trace (startServer 3) errandScript) errandDone :=
    Intake.follow_along .nil (by decide +kernel) along
  obtain ⟨moves,taken,read⟩ := serves_library_clients errands_named run
  obtain ⟨n,requests,brings⟩ := taken 1 (by decide)
  have ended : Tape.payload (tape (errandDone.kernel.socket (errandDone.fd 1)).arrivals) = [] := by decide +kernel
  have nothing := (brings (by decide +kernel) (by decide +kernel)).carried
  rw [ended] at nothing
  have all : (errands 1).take n = Intake.errand := by
    rcases n with _ | _ | n
    · exact absurd nothing (by decide +kernel)
    · exact absurd nothing (by decide +kernel)
    · exact List.take_of_length_le (by simp [errands,Intake.errand])
  rw [all] at requests
  refine ⟨_,_,moves,run,requests,read,?_⟩
  rw [read.length_eq]
  decide +kernel

end Sizigy.EndToEnd
