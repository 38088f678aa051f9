import Sizigy.PacketBounds

/-! The packers and unpackers of SUBSCRIBE, UNSUBSCRIBE, PUBLISH and the acknowledgements.
Each packer writes one fixed sequence of fields, each unpacker reads the same sequence, and
the sizes that the constructors compute leave room for it. -/
namespace Sizigy.PacketCodec

open Bytes PacketBounds

variable {b : Buffer} {opcode qos retain dup rc : UInt8} {topicLen id : UInt16} {messageLen : UInt32}
  {size : Nat} {topic message rest : List UInt8}

def subscribeBytes (opcode : UInt8) (size : Nat) (topicLen : UInt16) (qos : UInt8) (topic : List UInt8) :
    List UInt8 :=
  headerBytes opcode size ++ encode 2 topicLen.toNat ++ encode 1 qos.toNat ++ topic

def unsubscribeBytes (opcode : UInt8) (size : Nat) (topicLen : UInt16) (topic : List UInt8) : List UInt8 :=
  headerBytes opcode size ++ encode 2 topicLen.toNat ++ topic

def publishFields (opcode : UInt8) (size : Nat) (topicLen : UInt16) (messageLen : UInt32)
    (qos retain dup : UInt8) (topic message : List UInt8) : List UInt8 :=
  headerBytes opcode size ++ encode 2 topicLen.toNat ++ encode 4 messageLen.toNat ++ encode 1 qos.toNat ++
    encode 1 retain.toNat ++ encode 1 dup.toNat ++ topic ++ message

def ackBytes (opcode : UInt8) (size : Nat) (id : UInt16) (rc : UInt8) : List UInt8 :=
  headerBytes opcode size ++ encode 2 id.toNat ++ encode 1 rc.toNat

theorem unpackSubscribe_ahead (ahead : b.Ahead (subscribeBytes opcode size topicLen qos topic ++ rest))
    (length : topic.length = topicLen.toNat) :
    (unpackSubscribe b).1 = ⟨⟨opcode,UInt32.ofNat size⟩,topicLen,qos,topic⟩ := by
  simp only [subscribeBytes,List.append_assoc] at ahead
  obtain ⟨header,ahead₁⟩ := unpackHeader_ahead ahead
  obtain ⟨len,ahead₂⟩ := readUint16_ahead ahead₁ (by simp)
  obtain ⟨level,ahead₃⟩ := readUint8_ahead ahead₂ (by simp)
  obtain ⟨name,_⟩ := take_ahead ahead₃ length
  rw [uint16_wire] at len
  rw [uint8_wire] at level
  simp only [unpackSubscribe,header,len,level,readString,name]

theorem unpackUnsubscribe_ahead (ahead : b.Ahead (unsubscribeBytes opcode size topicLen topic ++ rest))
    (length : topic.length = topicLen.toNat) :
    (unpackUnsubscribe b).1 = ⟨⟨opcode,UInt32.ofNat size⟩,topicLen,topic⟩ := by
  simp only [unsubscribeBytes,List.append_assoc] at ahead
  obtain ⟨header,ahead₁⟩ := unpackHeader_ahead ahead
  obtain ⟨len,ahead₂⟩ := readUint16_ahead ahead₁ (by simp)
  obtain ⟨name,_⟩ := take_ahead ahead₂ length
  rw [uint16_wire] at len
  simp only [unpackUnsubscribe,header,len,readString,name]

theorem unpackPublish_ahead
    (ahead : b.Ahead (publishFields opcode size topicLen messageLen qos retain dup topic message ++ rest))
    (topicLength : topic.length = topicLen.toNat) (messageLength : message.length = messageLen.toNat) :
    (unpackPublish b).1 =
      ⟨⟨opcode,UInt32.ofNat size⟩,topicLen,messageLen,qos,retain,dup,topic,message⟩ := by
  simp only [publishFields,List.append_assoc] at ahead
  obtain ⟨header,ahead₁⟩ := unpackHeader_ahead ahead
  obtain ⟨len,ahead₂⟩ := readUint16_ahead ahead₁ (by simp)
  obtain ⟨bytes,ahead₃⟩ := readUint32_ahead ahead₂ (by simp)
  obtain ⟨level,ahead₄⟩ := readUint8_ahead ahead₃ (by simp)
  obtain ⟨keep,ahead₅⟩ := readUint8_ahead ahead₄ (by simp)
  obtain ⟨again,ahead₆⟩ := readUint8_ahead ahead₅ (by simp)
  obtain ⟨name,ahead₇⟩ := take_ahead ahead₆ topicLength
  obtain ⟨body,_⟩ := take_ahead ahead₇ messageLength
  rw [uint16_wire] at len
  rw [uint32_wire] at bytes
  rw [uint8_wire] at level keep again
  simp only [unpackPublish,header,len,bytes,level,keep,again,readString,name,body]

theorem unpackAck_ahead (ahead : b.Ahead (ackBytes opcode size id rc ++ rest)) :
    (unpackAck b).1 = ⟨⟨opcode,UInt32.ofNat size⟩,id,rc⟩ := by
  simp only [ackBytes,List.append_assoc] at ahead
  obtain ⟨header,ahead₁⟩ := unpackHeader_ahead ahead
  obtain ⟨number,ahead₂⟩ := readUint16_ahead ahead₁ (by simp)
  obtain ⟨code,_⟩ := readUint8_ahead ahead₂ (by simp)
  rw [uint16_wire] at number
  rw [uint8_wire] at code
  simp only [unpackAck,header,number,code]

/-- A packer's buffer: these bytes from the start, written one after the other. -/
structure Wrote (b : Buffer) (size : Nat) (bytes : List UInt8) : Prop where
  size : b.size = size
  filled : b.Filled bytes
  sequential : Sequential b

theorem Wrote.put (wrote : Wrote b size bytes) (more : List UInt8) : Wrote (b.put more) size (bytes ++ more) :=
  ⟨wrote.size,put_filled wrote.filled more,put_sequential wrote.sequential more⟩

theorem packHeader_wrote (h : Header) (size : Nat) (junk : Memory) :
    Wrote (packHeader h (bufferInit size junk)) size (headerBytes h.opcode size) := by
  have start : Wrote (bufferInit size junk) size [] := ⟨rfl,bufferInit_filled size junk,rfl⟩
  exact (start.put _).put _

theorem packSubscribe_wrote (size : Nat) (junk : Memory) (pkt : Subscribe) :
    Wrote (packSubscribe (bufferInit size junk) pkt) size
      (subscribeBytes pkt.header.opcode size (UInt16.ofNat (strlen (cstr pkt.topic))) pkt.qos
        (cstr pkt.topic).bytes) :=
  (((packHeader_wrote pkt.header size junk).put _).put _).put _

theorem packUnsubscribe_wrote (size : Nat) (junk : Memory) (u : Unsubscribe) :
    Wrote (packUnsubscribe (bufferInit size junk) u) size
      (unsubscribeBytes u.header.opcode size u.topicLen (cstr u.topic).bytes) :=
  ((packHeader_wrote u.header size junk).put _).put _

theorem packPublish_wrote (size : Nat) (junk : Memory) (pkt : Publish) :
    Wrote (packPublish (bufferInit size junk) pkt) size
      (publishFields pkt.header.opcode size (UInt16.ofNat (strlen (cstr pkt.topic)))
        (UInt32.ofNat (strlen (cstr pkt.message))) pkt.qos pkt.retain pkt.dup (cstr pkt.topic).bytes
        (cstr pkt.message).bytes) :=
  (((((((packHeader_wrote pkt.header size junk).put _).put _).put _).put _).put _).put _).put _

theorem packAck_wrote (size : Nat) (junk : Memory) (pkt : Ack) :
    Wrote (packAck (bufferInit size junk) pkt) size (ackBytes pkt.header.opcode size pkt.id pkt.rc) :=
  ((packHeader_wrote pkt.header size junk).put _).put _

theorem Wrote.ahead (wrote : Wrote b size bytes) : b.rewind.Ahead (bytes ++ []) := by
  rw [List.append_nil]
  exact rewind_ahead wrote.filled

theorem unpackSubscribe_consumed (b : Buffer) :
    Advanced b (unpackSubscribe b).2 (8 + (unpackSubscribe b).1.topicLen.toNat) := by
  have length : (unpackSubscribe b).1.topicLen.toNat = decode (load b.data (b.pos + 5) 2) :=
    uint16_length b.data _
  rw [length]
  exact unpackSubscribe_advanced b

theorem unpackUnsubscribe_consumed (b : Buffer) :
    Advanced b (unpackUnsubscribe b).2 (7 + (unpackUnsubscribe b).1.topicLen.toNat) :=
  ((unpackHeader_advanced b).trans (take_advanced _ 2)).trans (take_advanced _ _)

theorem unpackPublish_consumed (b : Buffer) :
    Advanced b (unpackPublish b).2
      (14 + (unpackPublish b).1.topicLen.toNat + (unpackPublish b).1.messageLen.toNat) := by
  have topicLength : (unpackPublish b).1.topicLen.toNat = decode (load b.data (b.pos + 5) 2) :=
    uint16_length b.data _
  have messageLength : (unpackPublish b).1.messageLen.toNat = decode (load b.data (b.pos + 7) 4) :=
    uint32_length b.data _
  rw [topicLength,messageLength]
  exact unpackPublish_advanced b

/-- A packed buffer decodes to the packet that was packed, and neither the packer nor the
decoder touches a byte outside of it. -/
structure RoundTrip {α : Type} (packed : Buffer) (unpack : Buffer → α × Buffer) (pkt : α) : Prop where
  same : (unpack packed.rewind).1 = pkt
  written : ∀ i ∈ packed.touched, i < packed.size
  read : ∀ i ∈ (unpack packed.rewind).2.touched, i < packed.size

theorem Wrote.roundTrip {α : Type} {unpack : Buffer → α × Buffer} {pkt : α} (wrote : Wrote b size bytes)
    (fits : bytes.length ≤ size) (same : (unpack b.rewind).1 = pkt) (short : n ≤ size)
    (consumed : Advanced b.rewind (unpack b.rewind).2 n) : RoundTrip b unpack pkt where
  same := same
  written := by
    rw [sequential_bound wrote.sequential,wrote.size,wrote.filled.1]
    exact fits
  read := by
    have start : Sequential b.rewind := rfl
    have position : (unpack b.rewind).2.pos = 0 + n := consumed.pos
    rw [sequential_bound (consumed.sequential start),wrote.size,position]
    omega

theorem uint16_ofNat (small : n < 2 ^ 16) : (UInt16.ofNat n).toNat = n := UInt16.toNat_ofNat_of_lt' small

theorem uint32_ofNat (small : n < 2 ^ 32) : (UInt32.ofNat n).toNat = n := UInt32.toNat_ofNat_of_lt' small

/-- What is left of a packet after packing and unpacking: its strings up to their first NUL,
under the lengths these have. -/
theorem unpackSubscribe_packed (pkt : Subscribe) (junk : Memory) (short : strlen (cstr pkt.topic) < 2 ^ 16) :
    (unpackSubscribe (packSubscribe (bufferInit pkt.header.size.toNat junk) pkt).rewind).1 =
      { pkt with
        topicLen := UInt16.ofNat (strlen (cstr pkt.topic))
        topic := (cstr pkt.topic).bytes } := by
  have wrote := packSubscribe_wrote pkt.header.size.toNat junk pkt
  have same := unpackSubscribe_ahead wrote.ahead (uint16_ofNat short).symm
  rwa [UInt32.ofNat_toNat] at same

theorem unpackUnsubscribe_packed (u : Unsubscribe) (junk : Memory)
    (length : strlen (cstr u.topic) = u.topicLen.toNat) :
    (unpackUnsubscribe (packUnsubscribe (bufferInit u.header.size.toNat junk) u).rewind).1 =
      { u with topic := (cstr u.topic).bytes } := by
  have wrote := packUnsubscribe_wrote u.header.size.toNat junk u
  have same := unpackUnsubscribe_ahead wrote.ahead length
  rwa [UInt32.ofNat_toNat] at same

theorem unpackPublish_packed (pkt : Publish) (junk : Memory) (short : strlen (cstr pkt.topic) < 2 ^ 16)
    (small : strlen (cstr pkt.message) < 2 ^ 32) :
    (unpackPublish (packPublish (bufferInit pkt.header.size.toNat junk) pkt).rewind).1 =
      { pkt with
        topicLen := UInt16.ofNat (strlen (cstr pkt.topic))
        messageLen := UInt32.ofNat (strlen (cstr pkt.message))
        topic := (cstr pkt.topic).bytes
        message := (cstr pkt.message).bytes } := by
  have wrote := packPublish_wrote pkt.header.size.toNat junk pkt
  have same := unpackPublish_ahead wrote.ahead (uint16_ofNat short).symm (uint32_ofNat small).symm
  rwa [UInt32.ofNat_toNat] at same

theorem unpackAck_packed (pkt : Ack) (junk : Memory) :
    (unpackAck (packAck (bufferInit pkt.header.size.toNat junk) pkt).rewind).1 = pkt := by
  have wrote := packAck_wrote pkt.header.size.toNat junk pkt
  have same := unpackAck_ahead wrote.ahead
  rwa [UInt32.ofNat_toNat] at same

/-- The packets that the four constructors have to build, every field written out. -/
def subscribeLetter (topic : List UInt8) (qos : UInt8) : Subscribe where
  header := { opcode := Opcode.subscribe, size := UInt32.ofNat (10 + topic.length) }
  topicLen := UInt16.ofNat topic.length
  qos := qos
  topic := topic

def unsubscribeLetter (topic : List UInt8) : Unsubscribe where
  header := { opcode := Opcode.unsubscribe, size := UInt32.ofNat (8 + topic.length) }
  topicLen := UInt16.ofNat topic.length
  topic := topic

def publishLetter (topic message : List UInt8) (qos retain dup : UInt8) : Publish where
  header := { opcode := Opcode.publish, size := UInt32.ofNat (16 + topic.length + message.length) }
  topicLen := UInt16.ofNat topic.length
  messageLen := UInt32.ofNat message.length
  qos := qos
  retain := retain
  dup := dup
  topic := topic
  message := message

def ackLetter (opcode : UInt8) (id : UInt16) (rc : UInt8) : Ack where
  header := { opcode := opcode, size := 8 }
  id := id
  rc := rc

theorem subscribePkt_letter (topic : CString) (qos : UInt8) :
    subscribePkt topic.bytes qos = subscribeLetter topic.bytes qos := by
  have size : headerlen + topic.bytes.length + 2 + 3 * 1 = 10 + topic.bytes.length := by
    rw [headerlen]
    omega
  simp only [subscribePkt,subscribeLetter,cstr_bytes,size,strlen]

theorem unsubscribePkt_letter (topic : CString) : unsubscribePkt topic.bytes = unsubscribeLetter topic.bytes := by
  have size : headerlen + topic.bytes.length + 2 + 1 = 8 + topic.bytes.length := by
    rw [headerlen]
    omega
  simp only [unsubscribePkt,unsubscribeLetter,cstr_bytes,size,strlen]

theorem publishPkt_letter (topic message : CString) (qos retain dup : UInt8) :
    publishPkt topic.bytes message.bytes qos retain dup =
      publishLetter topic.bytes message.bytes qos retain dup := by
  have size : headerlen + topic.bytes.length + message.bytes.length + 2 + 4 + 5 * 1 =
      16 + topic.bytes.length + message.bytes.length := by
    rw [headerlen]
    omega
  simp only [publishPkt,publishLetter,cstr_bytes,size,strlen]

theorem ackPkt_letter (opcode : UInt8) (id : UInt16) (rc : UInt8) : ackPkt opcode id rc = ackLetter opcode id rc := rfl

theorem subscribe_roundTrip (topic : CString) (qos : UInt8) (junk : Memory)
    (short : strlen topic < 2 ^ 16) :
    RoundTrip
      (packSubscribe (bufferInit (subscribePkt topic.bytes qos).header.size.toNat junk)
        (subscribePkt topic.bytes qos))
      unpackSubscribe (subscribeLetter topic.bytes qos) := by
  rw [subscribePkt_letter]
  rw [strlen] at short
  have size : (subscribeLetter topic.bytes qos).header.size.toNat = 10 + topic.bytes.length :=
    uint32_ofNat (by omega)
  have wrote := packSubscribe_wrote (subscribeLetter topic.bytes qos).header.size.toNat junk
    (subscribeLetter topic.bytes qos)
  have same := unpackSubscribe_packed (subscribeLetter topic.bytes qos) junk
    (by simpa only [subscribeLetter,cstr_bytes,strlen] using short)
  simp only [subscribeLetter,cstr_bytes,strlen] at wrote same size ⊢
  refine wrote.roundTrip ?_ same ?_ (unpackSubscribe_consumed _)
  · rw [size]
    simp only [subscribeBytes,headerBytes,List.length_append,encode_length]
    omega
  · rw [same,size]
    simp only [uint16_ofNat short]
    omega

theorem unsubscribe_roundTrip (topic : CString) (junk : Memory) (short : strlen topic < 2 ^ 16) :
    RoundTrip
      (packUnsubscribe (bufferInit (unsubscribePkt topic.bytes).header.size.toNat junk)
        (unsubscribePkt topic.bytes))
      unpackUnsubscribe (unsubscribeLetter topic.bytes) := by
  rw [unsubscribePkt_letter]
  rw [strlen] at short
  have size : (unsubscribeLetter topic.bytes).header.size.toNat = 8 + topic.bytes.length :=
    uint32_ofNat (by omega)
  have wrote := packUnsubscribe_wrote (unsubscribeLetter topic.bytes).header.size.toNat junk
    (unsubscribeLetter topic.bytes)
  have same := unpackUnsubscribe_packed (unsubscribeLetter topic.bytes) junk
    (by simp only [unsubscribeLetter,cstr_bytes,strlen,uint16_ofNat short])
  simp only [unsubscribeLetter,cstr_bytes] at wrote same size ⊢
  refine wrote.roundTrip ?_ same ?_ (unpackUnsubscribe_consumed _)
  · rw [size]
    simp only [unsubscribeBytes,headerBytes,List.length_append,encode_length]
    omega
  · rw [same,size]
    simp only [uint16_ofNat short]
    omega

theorem publish_roundTrip (topic message : CString) (qos retain dup : UInt8) (junk : Memory)
    (short : strlen topic < 2 ^ 16) (small : 16 + strlen topic + strlen message < 2 ^ 32) :
    RoundTrip
      (packPublish (bufferInit (publishPkt topic.bytes message.bytes qos retain dup).header.size.toNat junk)
        (publishPkt topic.bytes message.bytes qos retain dup))
      unpackPublish (publishLetter topic.bytes message.bytes qos retain dup) := by
  rw [publishPkt_letter]
  rw [strlen] at short
  rw [strlen,strlen] at small
  have size : (publishLetter topic.bytes message.bytes qos retain dup).header.size.toNat =
      16 + topic.bytes.length + message.bytes.length := uint32_ofNat small
  have length := uint32_ofNat (n := message.bytes.length) (by omega)
  have wrote := packPublish_wrote (publishLetter topic.bytes message.bytes qos retain dup).header.size.toNat junk
    (publishLetter topic.bytes message.bytes qos retain dup)
  have same := unpackPublish_packed (publishLetter topic.bytes message.bytes qos retain dup) junk
    (by simpa only [publishLetter,cstr_bytes,strlen] using short)
    (by simp only [publishLetter,cstr_bytes,strlen]; omega)
  simp only [publishLetter,cstr_bytes,strlen] at wrote same size ⊢
  refine wrote.roundTrip ?_ same ?_ (unpackPublish_consumed _)
  · rw [size]
    simp only [publishFields,headerBytes,List.length_append,encode_length]
    omega
  · rw [same,size]
    simp only [uint16_ofNat short,length]
    omega

theorem ack_roundTrip (opcode : UInt8) (id : UInt16) (rc : UInt8) (junk : Memory) :
    RoundTrip (packAck (bufferInit (ackPkt opcode id rc).header.size.toNat junk) (ackPkt opcode id rc))
      unpackAck (ackLetter opcode id rc) := by
  have wrote := packAck_wrote (ackLetter opcode id rc).header.size.toNat junk (ackLetter opcode id rc)
  have size : (ackLetter opcode id rc).header.size.toNat = 8 := rfl
  refine wrote.roundTrip ?_ (unpackAck_packed _ junk) ?_ (unpackAck_advanced _)
  · rw [size]
    simp [ackBytes,headerBytes]
  · rw [size]

/-- All four kinds of packet survive packing and unpacking, for every topic and message that
their length fields can hold. -/
theorem packets_roundTrip (topic message : CString) (qos retain dup opcode : UInt8) (id : UInt16)
    (rc : UInt8) (junk : Memory) (short : strlen topic < 2 ^ 16) :
    RoundTrip
      (packSubscribe (bufferInit (subscribePkt topic.bytes qos).header.size.toNat junk)
        (subscribePkt topic.bytes qos))
      unpackSubscribe (subscribeLetter topic.bytes qos) ∧
    RoundTrip
      (packUnsubscribe (bufferInit (unsubscribePkt topic.bytes).header.size.toNat junk)
        (unsubscribePkt topic.bytes))
      unpackUnsubscribe (unsubscribeLetter topic.bytes) ∧
    (headerlen + strlen topic + strlen message + 2 + 4 + 5 < 2 ^ 32 →
      RoundTrip
        (packPublish (bufferInit (publishPkt topic.bytes message.bytes qos retain dup).header.size.toNat junk)
          (publishPkt topic.bytes message.bytes qos retain dup))
        unpackPublish (publishLetter topic.bytes message.bytes qos retain dup)) ∧
    RoundTrip (packAck (bufferInit (ackPkt opcode id rc).header.size.toNat junk) (ackPkt opcode id rc))
      unpackAck (ackLetter opcode id rc) := by
  refine ⟨subscribe_roundTrip topic qos junk short,unsubscribe_roundTrip topic junk short,?_,
    ack_roundTrip opcode id rc junk⟩
  intro small
  simp only [headerlen] at small
  exact publish_roundTrip topic message qos retain dup junk short (by omega)

def greeting : CString := ⟨[0x68,0x69],by decide⟩

theorem greeting_roundTrip :
    RoundTrip
      (packPublish (bufferInit (publishPkt greeting.bytes greeting.bytes 1 0 0).header.size.toNat fun _ => 7)
        (publishPkt greeting.bytes greeting.bytes 1 0 0))
      unpackPublish
      { header := { opcode := Opcode.publish, size := 20 }, topicLen := 2, messageLen := 2, qos := 1,
        retain := 0, dup := 0, topic := [0x68,0x69], message := [0x68,0x69] } :=
  (packets_roundTrip greeting greeting 1 0 0 Opcode.puback 0 0 (fun _ => 7) (by decide)).2.2.1 (by decide)

end Sizigy.PacketCodec
