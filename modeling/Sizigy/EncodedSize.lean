import Sizigy.ConnectCodec

/-! The size that each constructor declares against the bytes its packer writes. The size is a
formula in one function, the bytes a sequence of writes in another; only for acknowledgements do
the two agree. The bytes between the position and the size go on the wire as the allocator left
them. -/
namespace Sizigy.EncodedSize

open Bytes PacketBounds PacketCodec ConnectCodec

/-- A packet as one of the five constructors builds it. -/
inductive Built where
  | connect (id : CString) (keepalive cleanSession : UInt8)
  | subscribe (topic : CString) (qos : UInt8)
  | unsubscribe (topic : CString)
  | publish (topic message : CString) (qos retain dup : UInt8)
  | ack (opcode : UInt8) (id : UInt16) (rc : UInt8)

namespace Built

/-- The lengths fit into their fields, and the total into the header's. -/
def Representable : Built → Prop
  | connect id _ _ => strlen id < 2 ^ 16
  | subscribe topic _ => strlen topic < 2 ^ 16
  | unsubscribe topic => strlen topic < 2 ^ 16
  | publish topic message _ _ _ =>
    strlen topic < 2 ^ 16 ∧ headerlen + strlen topic + strlen message + 2 + 4 + 5 < 2 ^ 32
  | ack _ _ _ => True

/-- The packet, packed into a buffer of the size its header declares. -/
def packed (junk : Memory) : Built → Buffer
  | connect id keepalive cleanSession =>
    let pkt := connectPkt id.bytes keepalive cleanSession
    packConnect (bufferInit pkt.header.size.toNat junk) pkt
  | subscribe topic qos =>
    let pkt := subscribePkt topic.bytes qos
    packSubscribe (bufferInit pkt.header.size.toNat junk) pkt
  | unsubscribe topic =>
    let pkt := unsubscribePkt topic.bytes
    packUnsubscribe (bufferInit pkt.header.size.toNat junk) pkt
  | publish topic message qos retain dup =>
    let pkt := publishPkt topic.bytes message.bytes qos retain dup
    packPublish (bufferInit pkt.header.size.toNat junk) pkt
  | ack opcode id rc =>
    let pkt := ackPkt opcode id rc
    packAck (bufferInit pkt.header.size.toNat junk) pkt

def isAck : Built → Bool
  | ack _ _ _ => true
  | _ => false

/-- Bytes that are declared and never written. -/
def slack : Built → Nat
  | connect _ _ _ => 1
  | subscribe _ _ => 2
  | unsubscribe _ => 1
  | publish _ _ _ _ _ => 2
  | ack _ _ _ => 0

theorem slack_eq_zero_iff (p : Built) : p.slack = 0 ↔ p.isAck = true := by
  cases p <;> simp [slack,isAck]

end Built

variable {p : Built}

/-- What a packer writes is short of the declared size by the slack, and does not depend on
the memory it was given. -/
theorem packed_wrote (p : Built) (fits : p.Representable) :
    ∃ size bytes, bytes.length + p.slack = size ∧ ∀ junk, Wrote (p.packed junk) size bytes := by
  cases p with
  | connect id keepalive cleanSession =>
    have small : strlen id < 2 ^ 16 := fits
    have size := uint32_ofNat (n := headerlen + strlen id + 2 * 2 + 2 * 1) (by simp only [headerlen]; omega)
    refine ⟨_,_,?_,fun junk => packConnect_wrote _ junk _⟩
    simp only [packedFields,connectPkt,cstr_bytes,size]
    simp only [Built.slack,headerBytes,List.length_append,encode_length,strlen,headerlen]
    omega
  | subscribe topic qos =>
    have small : strlen topic < 2 ^ 16 := fits
    have size := uint32_ofNat (n := headerlen + strlen topic + 2 + 3 * 1) (by simp only [headerlen]; omega)
    refine ⟨_,_,?_,fun junk => packSubscribe_wrote _ junk _⟩
    simp only [subscribePkt,cstr_bytes,size]
    simp only [Built.slack,subscribeBytes,headerBytes,List.length_append,encode_length,strlen,headerlen]
    omega
  | unsubscribe topic =>
    have small : strlen topic < 2 ^ 16 := fits
    have size := uint32_ofNat (n := headerlen + strlen topic + 2 + 1) (by simp only [headerlen]; omega)
    refine ⟨_,_,?_,fun junk => packUnsubscribe_wrote _ junk _⟩
    simp only [unsubscribePkt,cstr_bytes,size]
    simp only [Built.slack,unsubscribeBytes,headerBytes,List.length_append,encode_length,strlen,headerlen]
    omega
  | publish topic message qos retain dup =>
    have size := uint32_ofNat (n := headerlen + strlen topic + strlen message + 2 + 4 + 5 * 1) fits.2
    refine ⟨_,_,?_,fun junk => packPublish_wrote _ junk _⟩
    simp only [publishPkt,cstr_bytes,size]
    simp only [Built.slack,publishFields,headerBytes,List.length_append,encode_length,strlen,headerlen]
    omega
  | ack opcode id rc =>
    refine ⟨_,_,?_,fun junk => packAck_wrote _ junk _⟩
    simp [ackPkt,Built.slack,ackBytes,headerBytes,headerlen]

/-- The packer stops exactly at the declared size, has written every byte that is sent, and
nothing of what the memory held before is among them. -/
structure Exact (p : Built) (junk : Memory) : Prop where
  position : (p.packed junk).pos = (p.packed junk).size
  written : ∀ i < (p.packed junk).size, i ∈ (p.packed junk).touched
  clean : ∀ junk', (p.packed junk').bytes = (p.packed junk).bytes

/-- Of the packets that can be represented, exactly the acknowledgements are encoded to their
declared size. -/
theorem exact_iff_ack (p : Built) (fits : p.Representable) (junk : Memory) :
    Exact p junk ↔ p.isAck = true := by
  obtain ⟨size,bytes,length,wrote⟩ := packed_wrote p fits
  have position (junk : Memory) : (p.packed junk).pos = bytes.length := (wrote junk).filled.1
  constructor
  · intro exact
    have same := exact.position
    rw [position,(wrote junk).size] at same
    exact p.slack_eq_zero_iff.mp (by omega)
  · intro ack
    have none := p.slack_eq_zero_iff.mpr ack
    have whole : bytes.length = size := by omega
    have sent (junk : Memory) : (p.packed junk).bytes = bytes := by
      have filled := (wrote junk).filled.2
      rwa [whole,← (wrote junk).size] at filled
    refine ⟨by simp [position,(wrote junk).size,whole],fun i inside => ?_,fun junk' => by simp [sent]⟩
    have sequential : (p.packed junk).touched = List.range' 0 (p.packed junk).pos := (wrote junk).sequential
    rw [(wrote junk).size] at inside
    simp [sequential,position,List.mem_range',whole,inside]

theorem puback_exact : (Built.ack Opcode.puback 0 0).Representable ∧
    Exact (.ack Opcode.puback 0 0) (fun _ => 7) :=
  ⟨trivial,(exact_iff_ack (.ack Opcode.puback 0 0) trivial fun _ => 7).mpr rfl⟩

/-- A SUBSCRIBE to `hi` ends two bytes short of its size, and these two go out as they were. -/
theorem greeting_leaks : (Built.subscribe greeting 0).Representable ∧ ¬Exact (.subscribe greeting 0) (fun _ => 7) ∧
    (Built.packed (fun _ => 7) (.subscribe greeting 0)).pos = 10 ∧
    (Built.packed (fun _ => 7) (.subscribe greeting 0)).bytes =
      [0x80,0,0,0,12,0,2,0,0x68,0x69,7,7] := by
  have short : strlen greeting < 2 ^ 16 := by decide
  refine ⟨short,fun exact => ?_,by decide,by decide⟩
  exact absurd exact.position (by decide)

end Sizigy.EncodedSize
