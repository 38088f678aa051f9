import Sizigy.ProtocolStream

/-! Bounds of the decoders on packets as the peer sends them. Every access is sequential, so
a decoder stays inside its buffer exactly when its final position does; that position is a
fixed part plus the lengths the packet declares about itself. -/
namespace Sizigy.PacketBounds

open Bytes

/-- A packet as `recv_packet` hands it over: any bytes, sized by their own length field. -/
structure Received where
  data : Memory
  atLeast : headerlen ≤ decode (load data 1 4)

def Received.buffer (r : Received) : Buffer := ⟨decode (load r.data 1 4),0,r.data,[]⟩

def Received.opcode (r : Received) : UInt8 := r.data 0

/-- The accesses so far are the bytes before the position, each once and in order. -/
def Sequential (b : Buffer) : Prop := b.touched = List.range' 0 b.pos

theorem sequential_bound {b : Buffer} (sequential : Sequential b) (limit : Nat) :
    (∀ i ∈ b.touched, i < limit) ↔ b.pos ≤ limit := by
  rw [sequential]
  constructor
  · intro all
    by_contra beyond
    have last := all (b.pos - 1) (by simp [List.mem_range']; omega)
    omega
  · intro inside i member
    have := List.mem_range'_1.mp member
    omega

theorem take_sequential {b : Buffer} (sequential : Sequential b) (n : Nat) :
    Sequential (b.take n).2 := by
  have join := List.range'_append_1 (s := 0) (m := b.pos) (n := n)
  rw [Nat.zero_add] at join
  rw [Sequential,Buffer.take,sequential,join]

theorem put_sequential {b : Buffer} (sequential : Sequential b) (bytes : List UInt8) :
    Sequential (b.put bytes) := by
  have join := List.range'_append_1 (s := 0) (m := b.pos) (n := bytes.length)
  rw [Nat.zero_add] at join
  rw [Sequential,Buffer.put,sequential,join]

theorem fresh_sequential (len : Nat) (data : Memory) : Sequential ⟨len,0,data,[]⟩ := rfl

/-- A decoder's reads: it took so many bytes, one after the other, from the same memory. -/
structure Advanced (b b' : Buffer) (n : Nat) : Prop where
  pos : b'.pos = b.pos + n
  data : b'.data = b.data
  sequential : Sequential b → Sequential b'

theorem take_advanced (b : Buffer) (n : Nat) : Advanced b (b.take n).2 n :=
  ⟨rfl,rfl,fun sequential => take_sequential sequential n⟩

theorem Advanced.trans {b b' b'' : Buffer} (first : Advanced b b' m) (second : Advanced b' b'' n) :
    Advanced b b'' (m + n) where
  pos := by rw [second.pos,first.pos,Nat.add_assoc]
  data := second.data.trans first.data
  sequential := fun h => second.sequential (first.sequential h)

theorem Advanced.resize {b b' : Buffer} (advanced : Advanced b b' n) (equal : n = n') :
    Advanced b b' n' := equal ▸ advanced

theorem unpackHeader_advanced (b : Buffer) : Advanced b (unpackHeader b).2 headerlen :=
  (take_advanced b 1).trans (take_advanced _ 4)

theorem uint16_length (data : Memory) (pos : Nat) :
    (UInt16.ofNat (decode (load data pos 2))).toNat = decode (load data pos 2) :=
  UInt16.toNat_ofNat_of_lt' (by simpa using decode_lt (load data pos 2))

theorem uint32_length (data : Memory) (pos : Nat) :
    (UInt32.ofNat (decode (load data pos 4))).toNat = decode (load data pos 4) :=
  UInt32.toNat_ofNat_of_lt' (by simpa using decode_lt (load data pos 4))

theorem unpackConnect_advanced (b : Buffer) :
    Advanced b (unpackConnect b).2 (10 + decode (load b.data (b.pos + 5) 2)) := by
  have fixed := (((unpackHeader_advanced b).trans (take_advanced _ 2)).trans (take_advanced _ 1)).trans
    (take_advanced _ 2)
  have string := fixed.trans (take_advanced _ (UInt16.ofNat (decode (load b.data (b.pos + 5) 2))).toNat)
  exact string.resize (by simp only [uint16_length,headerlen])

theorem unpackSubscribe_advanced (b : Buffer) :
    Advanced b (unpackSubscribe b).2 (8 + decode (load b.data (b.pos + 5) 2)) := by
  have fixed := ((unpackHeader_advanced b).trans (take_advanced _ 2)).trans (take_advanced _ 1)
  have string := fixed.trans (take_advanced _ (UInt16.ofNat (decode (load b.data (b.pos + 5) 2))).toNat)
  exact string.resize (by simp only [uint16_length,headerlen])

theorem unpackPublish_advanced (b : Buffer) :
    Advanced b (unpackPublish b).2
      (14 + decode (load b.data (b.pos + 5) 2) + decode (load b.data (b.pos + 7) 4)) := by
  have fixed := (((((unpackHeader_advanced b).trans (take_advanced _ 2)).trans (take_advanced _ 4)).trans
    (take_advanced _ 1)).trans (take_advanced _ 1)).trans (take_advanced _ 1)
  have topic := fixed.trans (take_advanced _ (UInt16.ofNat (decode (load b.data (b.pos + 5) 2))).toNat)
  have message := topic.trans (take_advanced _ (UInt32.ofNat (decode (load b.data (b.pos + 7) 4))).toNat)
  exact message.resize (by simp only [uint16_length,uint32_length,headerlen])

theorem unpackAck_advanced (b : Buffer) : Advanced b (unpackAck b).2 8 :=
  ((unpackHeader_advanced b).trans (take_advanced _ 2)).trans (take_advanced _ 1)

/-- Bytes that the decoder of the packet's opcode consumes. -/
def Received.needed (r : Received) : Nat :=
  if r.opcode = Opcode.connect then 10 + decode (load r.data 5 2)
  else if r.opcode = Opcode.subscribe then 8 + decode (load r.data 5 2)
  else if r.opcode = Opcode.publish then 14 + decode (load r.data 5 2) + decode (load r.data 7 4)
  else if r.opcode = Opcode.suback ∨ r.opcode = Opcode.puback ∨ r.opcode = Opcode.pingreq then 8
  else 0

theorem unpackPacket_advanced (r : Received) :
    Advanced r.buffer (unpackPacket r.opcode r.buffer).2 r.needed := by
  unfold unpackPacket Received.needed
  split
  · exact unpackConnect_advanced r.buffer
  split
  · exact unpackSubscribe_advanced r.buffer
  split
  · exact unpackPublish_advanced r.buffer
  split
  · exact unpackAck_advanced r.buffer
  · exact ⟨rfl,rfl,id⟩

theorem publish_decoded (r : Received) (pkt : Publish)
    (decoded : (unpackPacket r.opcode r.buffer).1 = some (.publish pkt)) :
    r.opcode = Opcode.publish ∧ pkt = (unpackPublish r.buffer).1 := by
  unfold unpackPacket at decoded
  split at decoded
  · cases decoded
  split at decoded
  · cases decoded
  split at decoded
  next publish =>
    cases decoded
    exact ⟨publish,rfl⟩
  split at decoded <;> cases decoded

theorem packPublish_written (len : Nat) (junk : Memory) (pkt : Publish) :
    Sequential (packPublish (bufferInit len junk) pkt) ∧
    (packPublish (bufferInit len junk) pkt).pos =
      14 + strlen (cstr pkt.topic) + strlen (cstr pkt.message) := by
  constructor
  · simp only [packPublish,packHeader,writeUint8,writeUint16,writeUint32,writeString]
    repeat apply put_sequential
    exact fresh_sequential len junk
  · simp only [packPublish,packHeader,writeUint8,writeUint16,writeUint32,writeString,Buffer.put,
      encode_length,bufferInit,strlen]

/-- Every index the decoder reads lies in the packet, and so does every index that
`publish_message` writes when it encodes a decoded PUBLISH again. -/
def InBounds (r : Received) : Prop :=
  (∀ i ∈ (unpackPacket r.opcode r.buffer).2.touched, i < r.buffer.size) ∧
  ∀ pkt junk, (unpackPacket r.opcode r.buffer).1 = some (.publish pkt) →
    ∀ i ∈ (packPublish (bufferInit pkt.header.size.toNat junk) pkt).touched, i < pkt.header.size.toNat

/-- Encoding again with `strlen` never needs more than the declared lengths. -/
theorem repack_inside (r : Received) (pkt : Publish) (junk : Memory)
    (decoded : (unpackPacket r.opcode r.buffer).1 = some (.publish pkt))
    (fits : r.needed ≤ r.buffer.size) :
    ∀ i ∈ (packPublish (bufferInit pkt.header.size.toNat junk) pkt).touched, i < pkt.header.size.toNat := by
  obtain ⟨opcode,rfl⟩ := publish_decoded r pkt decoded
  obtain ⟨sequential,position⟩ :=
    packPublish_written (unpackPublish r.buffer).1.header.size.toNat junk (unpackPublish r.buffer).1
  rw [sequential_bound sequential,position]
  have size : (unpackPublish r.buffer).1.header.size.toNat = r.buffer.size := uint32_length r.data 1
  have topic := strlen_cstr_le (unpackPublish r.buffer).1.topic
  have message := strlen_cstr_le (unpackPublish r.buffer).1.message
  have topicLen : (unpackPublish r.buffer).1.topic.length = decode (load r.data 5 2) :=
    (load_length _ _ _).trans (uint16_length r.data 5)
  have messageLen : (unpackPublish r.buffer).1.message.length = decode (load r.data 7 4) :=
    (load_length _ _ _).trans (uint32_length r.data 7)
  have needed : r.needed = 14 + decode (load r.data 5 2) + decode (load r.data 7 4) := by
    simp [Received.needed,opcode,Opcode.connect,Opcode.subscribe,Opcode.publish]
  omega

/-- The accesses stay inside exactly when the fixed part of the packet and the lengths it
declares fit into the length field. -/
theorem inBounds_iff_fits (r : Received) : InBounds r ↔ r.needed ≤ r.buffer.size := by
  have advanced := unpackPacket_advanced r
  have sequential := advanced.sequential (fresh_sequential _ _)
  have position : (unpackPacket r.opcode r.buffer).2.pos = r.needed := by
    rw [advanced.pos]
    exact Nat.zero_add _
  have reads := sequential_bound sequential r.buffer.size
  rw [position] at reads
  rw [InBounds,reads,and_iff_left_iff_imp]
  intro fits pkt junk decoded
  exact repack_inside r pkt junk decoded fits

/-- A SUBSCRIBE packet of eight bytes that declares a topic of one byte. -/
def shortSubscribe : Received where
  data := fun i => [0x80,0,0,0,8,0,1,0].getD i 0
  atLeast := by decide

theorem shortSubscribe_overruns : ¬InBounds shortSubscribe := by
  rintro ⟨reads,_⟩
  exact absurd (reads 8 (by decide)) (by decide)

end Sizigy.PacketBounds
