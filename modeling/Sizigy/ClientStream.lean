import Sizigy.Forwarding
import Sizigy.Framing

/-! The stream that a client writes with the constructors and packers of `protocol.c`, and what
one call of `recv_packet` and `unpack_packet` makes of its front. -/
namespace Sizigy.ClientStream

open Bytes Tape Framing PacketCodec
open Forwarding (wrote_bytes)

/-- What a client may ask for. CONNECT is left out: its packer and its unpacker disagree. -/
inductive Query where
  | subscribe (topic : CString) (qos : UInt8)
  | publish (topic message : CString) (qos retain dup : UInt8)
  | pingreq

/-- The length fields can hold the lengths, and the packet fits the ring of the receiver. -/
def Query.Fits : Query → Prop
  | .subscribe topic _ => strlen topic < 2 ^ 16
  | .publish topic message _ _ _ => strlen topic < 2 ^ 16 ∧ 16 + strlen topic + strlen message ≤ onemb * 2 + headlen
  | .pingreq => True

instance : DecidablePred Query.Fits
  | .subscribe topic _ => inferInstanceAs (Decidable (strlen topic < 2 ^ 16))
  | .publish topic message _ _ _ =>
    inferInstanceAs (Decidable (strlen topic < 2 ^ 16 ∧ 16 + strlen topic + strlen message ≤ onemb * 2 + headlen))
  | .pingreq => isTrue trivial

/-- The buffer that is sent; `junk` is what its memory held before. -/
def Query.packed (junk : Memory) : Query → Buffer
  | .subscribe topic qos =>
    let pkt := subscribePkt topic.bytes qos
    packSubscribe (bufferInit pkt.header.size.toNat junk) pkt
  | .publish topic message qos retain dup =>
    let pkt := publishPkt topic.bytes message.bytes qos retain dup
    packPublish (bufferInit pkt.header.size.toNat junk) pkt
  | .pingreq =>
    let pkt := ackPkt Opcode.pingreq 0 0
    packAck (bufferInit pkt.header.size.toNat junk) pkt

/-- The call that the broker is to make for it. -/
def Query.call : Query → Command × Packet
  | .subscribe topic qos => (.subscribe,.subscribe (subscribeLetter topic.bytes qos))
  | .publish topic message qos retain dup =>
    (.publish,.publish (publishLetter topic.bytes message.bytes qos retain dup))
  | .pingreq => (.pingreq,.ack (ackLetter Opcode.pingreq 0 0))

structure Sent where
  query : Query
  junk : Memory
  fits : query.Fits

def Sent.bytes (sent : Sent) : List UInt8 := (sent.query.packed sent.junk).bytes

variable {opcode : UInt8} {size : Nat} {body : List UInt8} {packed b : Buffer}

/-- The bytes of a packed buffer start with a header of its size. -/
structure Headed (packed : Buffer) (opcode : UInt8) (size : Nat) (body : List UInt8) : Prop where
  wrote : Wrote packed size (headerBytes opcode size ++ body)
  fits : headlen + body.length ≤ size
  small : size ≤ onemb * 2 + headlen

theorem header_length (opcode : UInt8) (size : Nat) : (headerBytes opcode size).length = headlen := by
  simp [headerBytes,headlen]

theorem Headed.bytes (headed : Headed packed opcode size body) :
    ∃ rest, packed.bytes = headerBytes opcode size ++ (body ++ rest) := by
  have room : (headerBytes opcode size ++ body).length ≤ size := by
    rw [List.length_append,header_length]
    exact headed.fits
  obtain ⟨rest,sent⟩ := wrote_bytes headed.wrote room
  exact ⟨rest,by rw [sent,List.append_assoc]⟩

theorem Headed.framed (headed : Headed packed opcode size body) : WellFramed packed.bytes := by
  have length : packed.bytes.length = size := by rw [Buffer.bytes,load_length,headed.wrote.size]
  have small : size < 2 ^ 32 := by
    have := headed.small
    unfold onemb headlen at this
    omega
  obtain ⟨rest,sent⟩ := headed.bytes
  refine ⟨?_,length ▸ headed.small,?_⟩
  · have := headed.fits
    omega
  · have front : packed.bytes.take headlen = headerBytes opcode size := by
      rw [sent,← header_length opcode size,List.take_left]
    rw [front,headerBytes,List.drop_left' (by simp),uint32_ofNat small,decode_encode_of_lt small,length]

theorem Headed.first (headed : Headed packed opcode size body) (same : b.bytes = packed.bytes) : b.data 0 = opcode := by
  obtain ⟨rest,sent⟩ := headed.bytes
  have positive : 0 < b.size := by
    have length := congrArg List.length (same.trans sent)
    rw [Buffer.bytes,load_length,List.length_append,header_length] at length
    unfold headlen at length
    omega
  have first := congrArg (·[0]?) (same.trans sent)
  simp only [Buffer.bytes,load_getElem? b.data 0 b.size 0 positive] at first
  rw [headerBytes,List.append_assoc,List.getElem?_append_left (by simp)] at first
  simpa [encode] using first

variable {topic message : CString} {qos retain dup : UInt8} {query : Query} {junk : Memory}

theorem subscribe_headed (qos : UInt8) (junk : Memory) (short : strlen topic < 2 ^ 16) :
    Headed ((Query.subscribe topic qos).packed junk) Opcode.subscribe (headerlen + strlen topic + 2 + 3 * 1)
      (encode 2 (UInt16.ofNat (strlen topic)).toNat ++ encode 1 qos.toNat ++ topic.bytes) := by
  have size : (subscribePkt topic.bytes qos).header.size.toNat = headerlen + strlen topic + 2 + 3 * 1 := by
    simp only [subscribePkt,cstr_bytes]
    exact uint32_ofNat (by unfold headerlen; omega)
  have wrote := packSubscribe_wrote (headerlen + strlen topic + 2 + 3 * 1) junk (subscribePkt topic.bytes qos)
  simp only [Query.packed,size]
  refine ⟨?_,?_,by unfold headerlen onemb; omega⟩
  · simpa only [subscribeBytes,subscribePkt,cstr_bytes,List.append_assoc] using wrote
  · simp only [List.length_append,encode_length,strlen,headlen,headerlen]
    omega

theorem publish_headed (qos retain dup : UInt8) (junk : Memory)
    (small : 16 + strlen topic + strlen message ≤ onemb * 2 + headlen) :
    Headed ((Query.publish topic message qos retain dup).packed junk) Opcode.publish
      (headerlen + strlen topic + strlen message + 2 + 4 + 5 * 1)
      (encode 2 (UInt16.ofNat (strlen topic)).toNat ++ encode 4 (UInt32.ofNat (strlen message)).toNat ++
        encode 1 qos.toNat ++ encode 1 retain.toNat ++ encode 1 dup.toNat ++ topic.bytes ++ message.bytes) := by
  have size : (publishPkt topic.bytes message.bytes qos retain dup).header.size.toNat =
      headerlen + strlen topic + strlen message + 2 + 4 + 5 * 1 := by
    simp only [publishPkt,cstr_bytes]
    unfold onemb headlen at small
    exact uint32_ofNat (by unfold headerlen; omega)
  have wrote := packPublish_wrote (headerlen + strlen topic + strlen message + 2 + 4 + 5 * 1) junk
    (publishPkt topic.bytes message.bytes qos retain dup)
  simp only [Query.packed,size]
  refine ⟨?_,?_,by unfold headerlen; omega⟩
  · simpa only [publishFields,publishPkt,cstr_bytes,List.append_assoc] using wrote
  · simp only [List.length_append,encode_length,strlen,headlen,headerlen]
    omega

theorem pingreq_headed (junk : Memory) :
    Headed (Query.pingreq.packed junk) Opcode.pingreq 8
      (encode 2 (0 : UInt16).toNat ++ encode 1 (0 : UInt8).toNat) :=
  ⟨packAck_wrote 8 junk (ackPkt Opcode.pingreq 0 0),by decide,by decide⟩

theorem query_headed (fits : query.Fits) (junk : Memory) :
    ∃ size body, Headed (query.packed junk) query.call.1.ctype size body := by
  cases query with
  | subscribe topic qos => exact ⟨_,_,subscribe_headed qos junk fits⟩
  | publish topic message qos retain dup => exact ⟨_,_,publish_headed qos retain dup junk fits.2⟩
  | pingreq => exact ⟨_,_,pingreq_headed junk⟩

theorem sent_framed (sent : Sent) : WellFramed sent.bytes := by
  obtain ⟨_,_,headed⟩ := query_headed sent.fits sent.junk
  exact headed.framed

/-- A buffer that holds a packet has its fields ahead. -/
theorem Headed.ahead (headed : Headed packed opcode size body) (start : b.pos = 0) (same : b.bytes = packed.bytes) :
    ∃ rest, b.Ahead (headerBytes opcode size ++ body ++ rest) := by
  obtain ⟨rest,sent⟩ := headed.bytes
  refine ⟨rest,?_⟩
  have length := congrArg List.length (same.trans sent)
  rw [Buffer.bytes,load_length] at length
  rw [Buffer.Ahead,start,List.append_assoc,← length,← sent,← same,Buffer.bytes]

/-- The decoder of the opcode gives back the packet that the client made. -/
theorem query_decoded (fits : query.Fits) (start : b.pos = 0) (same : b.bytes = (query.packed junk).bytes) :
    (unpackPacket query.call.1.ctype b).1 = some query.call.2 := by
  cases query with
  | subscribe topic qos =>
    obtain ⟨rest,ahead⟩ := (subscribe_headed qos junk fits).ahead start same
    have decoded := unpackSubscribe_ahead (b := b)
      (by simpa only [subscribeBytes,List.append_assoc] using ahead) (uint16_ofNat fits).symm
    change some (Packet.subscribe (unpackSubscribe b).1) = _
    rw [decoded]
    simp only [Query.call,← subscribePkt_letter,subscribePkt,cstr_bytes]
  | publish topic message qos retain dup =>
    obtain ⟨rest,ahead⟩ := (publish_headed qos retain dup junk fits.2).ahead start same
    have small : strlen message < 2 ^ 32 := by
      have := fits.2
      unfold onemb headlen at this
      omega
    have decoded := unpackPublish_ahead (b := b)
      (by simpa only [publishFields,List.append_assoc] using ahead) (uint16_ofNat fits.1).symm (uint32_ofNat small).symm
    change some (Packet.publish (unpackPublish b).1) = _
    rw [decoded]
    simp only [Query.call,← publishPkt_letter,publishPkt,cstr_bytes]
  | pingreq =>
    obtain ⟨rest,ahead⟩ := (pingreq_headed junk).ahead start same
    have fields : b.Ahead (ackBytes Opcode.pingreq 8 0 0 ++ rest) := by
      simpa only [ackBytes,List.append_assoc] using ahead
    have decoded := unpackAck_ahead fields
    change some (Packet.ack (unpackAck b).1) = _
    rw [decoded]
    rfl

/-- What waits on a socket: these packets, handed out such that each is read without a byte of the next. -/
structure Brings (stream : List Sent) (s : Socket) : Prop where
  quiet : s.ending = .quiet
  carried : payload (tape s.arrivals) = (stream.map Sent.bytes).flatten
  seamless : AllSeamless (Pause (tape s.arrivals)) 0 (stream.map Sent.bytes)

variable {s s' : Socket} {stream : List Sent} {stack : Memory} {fuel : Nat}

theorem stream_framed (stream : List Sent) : ∀ p ∈ stream.map Sent.bytes, WellFramed p := by
  intro p member
  obtain ⟨sent,_,rfl⟩ := List.mem_map.mp member
  exact sent_framed sent

theorem recvPacket_opcode (done : recvPacket junk fuel (requestRing stack) s = .returned (some (opcode,b),s')) :
    b.data 0 = opcode := by
  unfold recvPacket at done
  obtain ⟨⟨header,s₁⟩,first,done⟩ := Outcome.bind_eq_returned.mp done
  cases header with
  | none => exact absurd (Prod.mk.inj (Outcome.returned.inj done)).1.symm (Option.some_ne_none _)
  | some r =>
    have length := (popBytes_shape junk 0 headlen r).1
    dsimp only at done
    generalize popBytes junk 0 headlen r = tmp at *
    obtain ⟨⟨r₁,s₁⟩,second,done⟩ := Outcome.bind_eq_returned.mp done
    obtain ⟨packet,rfl⟩ := Prod.mk.inj (Outcome.returned.inj done)
    obtain ⟨rfl,rfl⟩ := Prod.mk.inj (Option.some.inj packet)
    have positive : 0 < headlen := by decide
    obtain ⟨byte,rest,same⟩ := List.exists_cons_of_length_pos (length ▸ positive)
    dsimp only
    rw [store_below _ _ _ positive]
    simp [store,same,bufferInit]

/-- A call that returns nothing takes a pause at most. -/
theorem read_nothing (brings : Brings stream s)
    (done : recvPacket junk fuel (requestRing stack) s = .returned (none,s')) : Brings stream s' := by
  obtain ⟨empty,quiet,rest⟩ := recvPacket_none brings.quiet done
  have same := scan_payload headlen (tape s.arrivals)
  have moved := scan_rest headlen (tape s.arrivals)
  rw [empty,← rest] at same moved
  refine ⟨quiet,same.symm.trans brings.carried,?_⟩
  exact (allSeamless_shift moved.1 (stream_framed stream)).mpr brings.seamless

/-- A call that returns a packet takes the first one, which decodes to what the client asked for. -/
theorem read_packet (brings : Brings stream s)
    (done : recvPacket junk fuel (requestRing stack) s = .returned (some (opcode,b),s')) :
    ∃ sent rest, stream = sent :: rest ∧ Brings rest s' ∧ opcode = sent.query.call.1.ctype ∧
      (unpackPacket opcode b).1 = some sent.query.call.2 := by
  obtain ⟨bytes,cut⟩ := recvPacket_cut brings.quiet done
  have carried := brings.carried
  cases stream with
  | nil =>
    have long := cut.header.trans cut.inside
    obtain ⟨rfl,_⟩ := List.append_eq_nil_iff.mp (cut.payload.symm.trans carried)
    exact absurd long (by decide)
  | cons sent rest =>
    have framed := stream_framed rest
    obtain ⟨bufferSize,same⟩ := cut_front cut (sent_framed sent) carried
    obtain ⟨front,back⟩ := brings.seamless
    rw [Nat.zero_add] at front back
    have exact : bytes.length = sent.bytes.length := by
      rw [← bufferSize] at front ⊢
      exact cut.seamless.mpr front
    obtain ⟨_,carried'⟩ := List.append_inj (cut.payload.symm.trans carried) exact
    have seamless := (allSeamless_shift (a := 0) cut.rest.1 framed).mpr (by rwa [exact])
    obtain ⟨_,_,headed⟩ := query_headed sent.fits sent.junk
    obtain rfl := (recvPacket_opcode done).symm.trans (headed.first same)
    exact ⟨sent,rest,rfl,⟨cut.quiet,carried',seamless⟩,rfl,query_decoded sent.fits (recvPacket_fits done).2.2 same⟩

end Sizigy.ClientStream
