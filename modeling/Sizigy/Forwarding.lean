import Sizigy.PacketCodec
import Sizigy.ReplySpec

/-! A PUBLISH on its way through the broker. It is decoded by the lengths it declares, and
what `publish_message` sends is encoded again from C strings. -/
namespace Sizigy.Forwarding

open Bytes PacketBounds PacketCodec

variable {env : Env} {b : Broker}

/-- A packet at its receiver, whose memory may hold anything behind it. -/
def arrived (bytes : List UInt8) (behind : Memory) : Buffer := ⟨bytes.length,0,store behind 0 bytes,[]⟩

/-- The fields that a subscriber sees of a message. -/
structure SameContent (sent received : Publish) : Prop where
  topic : sent.topic = received.topic
  message : sent.message = received.message
  messageLen : sent.messageLen = received.messageLen
  qos : sent.qos = received.qos
  retain : sent.retain = received.retain
  dup : sent.dup = received.dup

theorem arrived_ahead (bytes : List UInt8) (behind : Memory) : (arrived bytes behind).Ahead bytes :=
  load_store behind 0 bytes

/-- A packed buffer is sent whole, including what no field has filled. -/
theorem wrote_bytes {packed : Buffer} (wrote : Wrote packed size bytes) (fits : bytes.length ≤ size) :
    ∃ rest, packed.bytes = bytes ++ rest := by
  have room : packed.size = bytes.length + (size - bytes.length) := by
    rw [wrote.size]
    omega
  refine ⟨load packed.data (0 + bytes.length) (size - bytes.length),?_⟩
  rw [Buffer.bytes,room,load_add,wrote.filled.2]

theorem publishBytes_unpacked (env : Env) (pkt : Publish) (behind : Memory) (short : strlen (cstr pkt.topic) < 2 ^ 16)
    (small : strlen (cstr pkt.message) < 2 ^ 32)
    (fits : 14 + strlen (cstr pkt.topic) + strlen (cstr pkt.message) ≤ pkt.header.size.toNat) :
    (unpackPublish (arrived (publishBytes env pkt) behind)).1 =
      { pkt with
        topicLen := UInt16.ofNat (strlen (cstr pkt.topic))
        messageLen := UInt32.ofNat (strlen (cstr pkt.message))
        topic := (cstr pkt.topic).bytes
        message := (cstr pkt.message).bytes } := by
  have wrote := packPublish_wrote pkt.header.size.toNat env.junk pkt
  have length := (packPublish_written pkt.header.size.toNat env.junk pkt).2
  rw [wrote.filled.1] at length
  obtain ⟨rest,sent⟩ := wrote_bytes wrote (by omega)
  have ahead := arrived_ahead (publishBytes env pkt) behind
  rw [publishBytes,sent] at ahead
  have same := unpackPublish_ahead ahead (uint16_ofNat short).symm (uint32_ofNat small).symm
  rw [UInt32.ofNat_toNat] at same
  rw [publishBytes,sent]
  exact same

theorem ackBuffer_unpacked (opcode rc : UInt8) (behind : Memory) :
    (unpackAck (arrived (ackBuffer env opcode rc).bytes behind)).1 = ackLetter opcode 0 rc := by
  have wrote := packAck_wrote (ackPkt opcode 0 rc).header.size.toNat env.junk (ackPkt opcode 0 rc)
  obtain ⟨rest,sent⟩ := wrote_bytes wrote (by simp [ackBytes,headerBytes,ackPkt,headerlen])
  have ahead := arrived_ahead (ackBuffer env opcode rc).bytes behind
  rw [ackBuffer,sent] at ahead
  have same := unpackAck_ahead ahead
  rw [UInt32.ofNat_toNat] at same
  rw [ackBuffer,sent,same,← ackPkt_letter]

/-- The PUBLISH after a SUBACK decodes to the stored message. -/
theorem retainedBytes_unpacked (r : Message) (behind : Memory) (short : strlen r.topic < 2 ^ 16)
    (small : 16 + strlen r.topic + strlen r.payload < 2 ^ 32) :
    (unpackPublish (arrived (retainedBytes env r) behind)).1 =
      publishLetter r.topic.bytes r.payload.bytes r.qos 1 0 := by
  have size : (publishLetter r.topic.bytes r.payload.bytes r.qos 1 0).header.size.toNat =
      16 + strlen r.topic + strlen r.payload := uint32_ofNat small
  rw [retainedBytes,publishPkt_letter,publishBytes_unpacked env _ behind]
  · simp only [publishLetter,cstr_bytes,strlen]
  · simpa only [publishLetter,cstr_bytes] using short
  · simp only [publishLetter,cstr_bytes]
    omega
  · rw [size]
    simp only [publishLetter,cstr_bytes]
    omega

theorem cstr_of_nulFree (nulFree : 0 ∉ raw) : (cstr raw).bytes = raw :=
  congrArg CString.bytes (cstr_bytes ⟨raw,nulFree⟩)

theorem published_bytes
    (event : Event.publish t' fd peer bytes ∈ (publishMessage env b t msg).events) :
    bytes = publishBytes env msg := by
  obtain ⟨total,shape⟩ := publishMessage_shape env b t msg
  rw [shape] at event
  obtain ⟨s,_,same⟩ := List.mem_map.mp event
  cases same
  rfl

/-- A subscriber gets what the publisher sent exactly when neither the topic nor the payload
has a NUL among its declared bytes. -/
theorem forwarded_same_iff (r : Received) (env : Env) (b : Broker) (t : Nat) (behind : Memory)
    (within : 14 + (unpackPublish r.buffer).1.topicLen.toNat +
      (unpackPublish r.buffer).1.messageLen.toNat ≤ r.buffer.size)
    (event : Event.publish t' fd peer bytes ∈ (publishMessage env b t (unpackPublish r.buffer).1).events) :
    SameContent (unpackPublish (arrived bytes behind)).1 (unpackPublish r.buffer).1 ↔
      0 ∉ (unpackPublish r.buffer).1.topic ∧ 0 ∉ (unpackPublish r.buffer).1.message := by
  have size : (unpackPublish r.buffer).1.header.size.toNat = r.buffer.size := uint32_length r.data 1
  have topicLength : (unpackPublish r.buffer).1.topic.length = (unpackPublish r.buffer).1.topicLen.toNat :=
    load_length _ _ _
  have messageLength :
      (unpackPublish r.buffer).1.message.length = (unpackPublish r.buffer).1.messageLen.toNat :=
    load_length _ _ _
  rw [published_bytes event]
  generalize (unpackPublish r.buffer).1 = pkt at *
  have topic := strlen_cstr_le pkt.topic
  have message := strlen_cstr_le pkt.message
  have short := pkt.topicLen.toNat_lt
  have small := pkt.messageLen.toNat_lt
  rw [publishBytes_unpacked env pkt behind (by omega) (by omega) (by omega)]
  constructor
  · intro same
    have topicSame : (cstr pkt.topic).bytes = pkt.topic := same.topic
    have messageSame : (cstr pkt.message).bytes = pkt.message := same.message
    rw [← topicSame,← messageSame]
    exact ⟨(cstr pkt.topic).nulFree,(cstr pkt.message).nulFree⟩
  · rintro ⟨topicFree,messageFree⟩
    have kept := cstr_of_nulFree messageFree
    refine ⟨cstr_of_nulFree topicFree,kept,?_,rfl,rfl,rfl⟩
    change UInt32.ofNat (cstr pkt.message).bytes.length = _
    rw [kept,messageLength,UInt32.ofNat_toNat]

/-- A topic `a` with one subscriber. -/
def listener : Broker :=
  { startServer 3 with topic := ⟨1,fun _ => ⟨cstr [97],⟨[⟨0,cstr [97],0⟩],1⟩,none⟩⟩ }

/-- A PUBLISH of one byte to the topic `a`. -/
def letter : Received where
  data := fun i => [0x30,0,0,0,16,0,1,0,0,0,1,0,0,0,97,98].getD i 0
  atLeast := by decide

theorem letter_forwarded :
    SameContent (unpackPublish (arrived (publishBytes plainEnv (unpackPublish letter.buffer).1) fun _ => 0)).1
      (unpackPublish letter.buffer).1 := by
  have event : Event.publish 0 3 (some (.client 0)) (publishBytes plainEnv (unpackPublish letter.buffer).1) ∈
      (publishMessage plainEnv listener 0 (unpackPublish letter.buffer).1).events :=
    List.mem_singleton.mpr rfl
  exact (forwarded_same_iff letter plainEnv listener 0 (fun _ => 0) (by decide) event).mpr (by decide)

/-- A PUBLISH to the topic `a` whose payload of two bytes starts with a zero. -/
def binary : Received where
  data := fun i => [0x30,0,0,0,17,0,1,0,0,0,2,0,0,0,97,0,98].getD i 0
  atLeast := by decide

theorem binary_truncated :
    14 + (unpackPublish binary.buffer).1.topicLen.toNat +
      (unpackPublish binary.buffer).1.messageLen.toNat ≤ binary.buffer.size ∧
    ∃ t fd peer bytes,
      Event.publish t fd peer bytes ∈
        (publishMessage plainEnv listener 0 (unpackPublish binary.buffer).1).events ∧
      ¬SameContent (unpackPublish (arrived bytes fun _ => 0)).1 (unpackPublish binary.buffer).1 := by
  refine ⟨by decide,0,3,some (.client 0),publishBytes plainEnv (unpackPublish binary.buffer).1,
    List.mem_singleton.mpr rfl,fun same => ?_⟩
  exact absurd same.message (by decide)

end Sizigy.Forwarding
