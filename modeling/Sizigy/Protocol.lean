import Sizigy.CString
import Sizigy.Library.Bytes

/-! `protocol.c`: buffers, packets and the hand-written packers and unpackers. A buffer sees
all of memory from its data pointer on; `touched` lists the byte indices it has read or
written, in order, so that leaving the allocation is visible and not an error by itself.
Allocation of the structures themselves always succeeds. String fields hold the bytes that
stand before the terminator `read_string` appends. -/
namespace Sizigy

open Bytes

namespace Opcode

def connect : UInt8 := 0x10
def connack : UInt8 := 0x20
def publish : UInt8 := 0x30
def puback : UInt8 := 0x40
def pubrec : UInt8 := 0x50
def subscribe : UInt8 := 0x80
def suback : UInt8 := 0x90
def unsubscribe : UInt8 := 0xA0
def unsuback : UInt8 := 0xB0
def pingreq : UInt8 := 0xC0
def pingresp : UInt8 := 0xD0
def disconnect : UInt8 := 0xF0

end Opcode

structure Buffer where
  size : Nat
  pos : Nat
  data : Memory
  touched : List Nat

/-- `malloc` leaves whatever the memory held before. -/
def bufferInit (len : Nat) (junk : Memory) : Buffer := ⟨len,0,junk,[]⟩

/-- The bytes that a send of the whole buffer puts on the wire. -/
def Buffer.bytes (b : Buffer) : List UInt8 := load b.data 0 b.size

def Buffer.take (b : Buffer) (n : Nat) : List UInt8 × Buffer :=
  (load b.data b.pos n,{ b with pos := b.pos + n, touched := b.touched ++ List.range' b.pos n })

def Buffer.put (b : Buffer) (bytes : List UInt8) : Buffer :=
  { b with
    pos := b.pos + bytes.length
    data := store b.data b.pos bytes
    touched := b.touched ++ List.range' b.pos bytes.length }

def readUint8 (b : Buffer) : UInt8 × Buffer :=
  let (bytes,b) := b.take 1
  (UInt8.ofNat (decode bytes),b)

def readUint16 (b : Buffer) : UInt16 × Buffer :=
  let (bytes,b) := b.take 2
  (UInt16.ofNat (decode bytes),b)

def readUint32 (b : Buffer) : UInt32 × Buffer :=
  let (bytes,b) := b.take 4
  (UInt32.ofNat (decode bytes),b)

def readString (b : Buffer) (len : Nat) : List UInt8 × Buffer := b.take len

def writeUint8 (b : Buffer) (val : UInt8) : Buffer := b.put (encode 1 val.toNat)

def writeUint16 (b : Buffer) (val : UInt16) : Buffer := b.put (encode 2 val.toNat)

def writeUint32 (b : Buffer) (val : UInt32) : Buffer := b.put (encode 4 val.toNat)

def writeString (b : Buffer) (str : List UInt8) : Buffer := b.put (cstr str).bytes

structure Header where
  opcode : UInt8
  size : UInt32

structure Connect where
  header : Header
  idlen : UInt16
  id : List UInt8
  keepalive : UInt16
  cleanSession : UInt8

structure Subscribe where
  header : Header
  topicLen : UInt16
  qos : UInt8
  topic : List UInt8

structure Unsubscribe where
  header : Header
  topicLen : UInt16
  topic : List UInt8

structure Publish where
  header : Header
  topicLen : UInt16
  messageLen : UInt32
  qos : UInt8
  retain : UInt8
  dup : UInt8
  topic : List UInt8
  message : List UInt8

structure Ack where
  header : Header
  id : UInt16
  rc : UInt8

/-- The length field is the size of the buffer, not the size kept in the header. -/
def packHeader (h : Header) (b : Buffer) : Buffer :=
  writeUint32 (writeUint8 b h.opcode) (UInt32.ofNat b.size)

def unpackHeader (b : Buffer) : Header × Buffer :=
  let (opcode,b) := readUint8 b
  let (size,b) := readUint32 b
  (⟨opcode,size⟩,b)

def unpackConnect (b : Buffer) : Connect × Buffer :=
  let (header,b) := unpackHeader b
  let (idlen,b) := readUint16 b
  let (cleanSession,b) := readUint8 b
  let (keepalive,b) := readUint16 b
  let (id,b) := readString b idlen.toNat
  (⟨header,idlen,id,keepalive,cleanSession⟩,b)

def unpackSubscribe (b : Buffer) : Subscribe × Buffer :=
  let (header,b) := unpackHeader b
  let (topicLen,b) := readUint16 b
  let (qos,b) := readUint8 b
  let (topic,b) := readString b topicLen.toNat
  (⟨header,topicLen,qos,topic⟩,b)

def unpackUnsubscribe (b : Buffer) : Unsubscribe × Buffer :=
  let (header,b) := unpackHeader b
  let (topicLen,b) := readUint16 b
  let (topic,b) := readString b topicLen.toNat
  (⟨header,topicLen,topic⟩,b)

def unpackPublish (b : Buffer) : Publish × Buffer :=
  let (header,b) := unpackHeader b
  let (topicLen,b) := readUint16 b
  let (messageLen,b) := readUint32 b
  let (qos,b) := readUint8 b
  let (retain,b) := readUint8 b
  let (dup,b) := readUint8 b
  let (topic,b) := readString b topicLen.toNat
  let (message,b) := readString b messageLen.toNat
  (⟨header,topicLen,messageLen,qos,retain,dup,topic,message⟩,b)

def unpackAck (b : Buffer) : Ack × Buffer :=
  let (header,b) := unpackHeader b
  let (id,b) := readUint16 b
  let (rc,b) := readUint8 b
  (⟨header,id,rc⟩,b)

def headerlen : Nat := 5

def connectPkt (id : List UInt8) (keepalive cleanSession : UInt8) : Connect where
  header := ⟨Opcode.connect,UInt32.ofNat (headerlen + strlen (cstr id) + 2 * 2 + 2 * 1)⟩
  idlen := UInt16.ofNat (strlen (cstr id))
  id := id
  keepalive := keepalive.toUInt16
  cleanSession := cleanSession

def subscribePkt (topic : List UInt8) (qos : UInt8) : Subscribe where
  header := ⟨Opcode.subscribe,UInt32.ofNat (headerlen + strlen (cstr topic) + 2 + 3 * 1)⟩
  topicLen := UInt16.ofNat (strlen (cstr topic))
  qos := qos
  topic := topic

def unsubscribePkt (topic : List UInt8) : Unsubscribe where
  header := ⟨Opcode.unsubscribe,UInt32.ofNat (headerlen + strlen (cstr topic) + 2 + 1)⟩
  topicLen := UInt16.ofNat (strlen (cstr topic))
  topic := topic

def publishPkt (topic message : List UInt8) (qos retain dup : UInt8) : Publish where
  header := ⟨Opcode.publish,
    UInt32.ofNat (headerlen + strlen (cstr topic) + strlen (cstr message) + 2 + 4 + 5 * 1)⟩
  topicLen := UInt16.ofNat (strlen (cstr topic))
  messageLen := UInt32.ofNat (strlen (cstr message))
  qos := qos
  retain := retain
  dup := dup
  topic := topic
  message := message

def ackPkt (opcode : UInt8) (id : UInt16) (rc : UInt8) : Ack where
  header := ⟨opcode,UInt32.ofNat (headerlen + 2 + 1)⟩
  id := id
  rc := rc

def packConnect (b : Buffer) (pkt : Connect) : Buffer :=
  let b := packHeader pkt.header b
  let b := writeUint16 b (UInt16.ofNat (strlen (cstr pkt.id)))
  let b := writeString b pkt.id
  let b := writeUint16 b pkt.keepalive
  writeUint8 b pkt.cleanSession

def packSubscribe (b : Buffer) (pkt : Subscribe) : Buffer :=
  let b := packHeader pkt.header b
  let b := writeUint16 b (UInt16.ofNat (strlen (cstr pkt.topic)))
  let b := writeUint8 b pkt.qos
  writeString b pkt.topic

def packUnsubscribe (b : Buffer) (u : Unsubscribe) : Buffer :=
  let b := packHeader u.header b
  let b := writeUint16 b u.topicLen
  writeString b u.topic

def packPublish (b : Buffer) (pkt : Publish) : Buffer :=
  let b := packHeader pkt.header b
  let b := writeUint16 b (UInt16.ofNat (strlen (cstr pkt.topic)))
  let b := writeUint32 b (UInt32.ofNat (strlen (cstr pkt.message)))
  let b := writeUint8 b pkt.qos
  let b := writeUint8 b pkt.retain
  let b := writeUint8 b pkt.dup
  let b := writeString b pkt.topic
  writeString b pkt.message

def packAck (b : Buffer) (pkt : Ack) : Buffer :=
  let b := packHeader pkt.header b
  let b := writeUint16 b pkt.id
  writeUint8 b pkt.rc

/-- What `client->ptr` may point to. -/
inductive Packet where
  | connect (pkt : Connect)
  | subscribe (pkt : Subscribe)
  | unsubscribe (pkt : Unsubscribe)
  | publish (pkt : Publish)
  | ack (pkt : Ack)

/-- The decoder selection of `server.c`; `none` is its null result. -/
def unpackPacket (opcode : UInt8) (b : Buffer) : Option Packet × Buffer :=
  if opcode = Opcode.connect then
    let (conn,b) := unpackConnect b
    (some (.connect conn),b)
  else if opcode = Opcode.subscribe then
    let (sub,b) := unpackSubscribe b
    (some (.subscribe sub),b)
  else if opcode = Opcode.publish then
    let (pub,b) := unpackPublish b
    (some (.publish pub),b)
  else if opcode = Opcode.suback ∨ opcode = Opcode.puback ∨ opcode = Opcode.pingreq then
    let (ack,b) := unpackAck b
    (some (.ack ack),b)
  else (none,b)

end Sizigy
