import Sizigy.Hashmap
import Sizigy.Kernel
import Sizigy.Library.Heap
import Sizigy.LinkedList
import Sizigy.RecvPacket

/-! `sizigy.c` and the data of the broker. Pointers are indices into heaps that never reuse
a cell; freeing is recorded where something may still point to the freed object. The locks
of `SizigyDB` guard single list operations and are not modelled. -/
namespace Sizigy

open Bytes

inductive Presence where
  | online
  | offline
  deriving DecidableEq

inductive CtxHandler where
  | accept
  | request
  | reply
  deriving DecidableEq

/-- The union of `struct reply`. -/
inductive ReplyBody where
  | payload (b : Buffer)
  | publish (pkt : Publish)

structure Reply where
  opcode : UInt8
  fd : Fd
  body : ReplyBody
  retained : Option Nat

structure Client where
  status : Presence
  keepalive : UInt16
  lastActionTime : UInt64
  fd : Fd
  ctxHandler : CtxHandler
  id : CString
  reply : Option Reply
  ptr : Option Packet

structure Message where
  qos : UInt8
  dup : UInt8
  retained : UInt8
  topic : CString
  payload : CString
  live : Bool

structure Subscription where
  client : Nat
  topic : CString
  qos : UInt8
  deriving DecidableEq

structure Topic where
  name : CString
  subscribers : LinkedList Subscription
  retained : Option Nat

structure Broker where
  topics : Hashmap CString Nat
  clients : Hashmap CString Nat
  topic : Heap Topic
  client : Heap Client
  message : Heap Message
  kernel : Kernel

/-- What one step meets in its surroundings: the clock, the answers of the kernel and of the
allocator, and the contents of memory that nothing has initialised. -/
structure Env where
  mutex : Mutex
  calloc : Nat → Bool
  fuel : Nat
  now : UInt64
  junk : Memory
  stack : Memory
  junkRetained : Option Nat
  sendall : Fd → List UInt8 → Int × Nat
  randomName : CString

namespace Broker

def setClient (b : Broker) (c : Nat) (f : Client → Client) : Broker :=
  { b with client := b.client.modify c f }

def setTopic (b : Broker) (t : Nat) (f : Topic → Topic) : Broker :=
  { b with topic := b.topic.modify t f }

def setKernel (b : Broker) (f : Kernel → Kernel) : Broker := { b with kernel := f b.kernel }

def fd (b : Broker) (c : Nat) : Fd := (b.client.cell c).fd

end Broker

/-- The map keeps the pointer `c->id`, and `connect_handler` frees that string after it has deleted the entry with
its text. A key is kept here as its text, which is what a lookup compares as long as no entry is left behind with
a freed key; `ClientRegistry.Filed` says when that is so. -/
def addClient (env : Env) (b : Broker) (c : Nat) : Outcome Broker := do
  let (_,clients) ← hashmapPut env.mutex env.calloc env.fuel b.clients (b.client.cell c).id c
  return { b with clients := clients }

def delClient (env : Env) (b : Broker) (c : Nat) : Outcome Broker := do
  let (_,clients) ← hashmapDel env.mutex b.clients (b.client.cell c).id
  return { b with clients := clients }

def updateClientLastAction (env : Env) (b : Broker) (c : Nat) : Broker :=
  b.setClient c fun k => { k with lastActionTime := env.now }

def createTopic (b : Broker) (name : CString) : Nat × Broker :=
  (b.topic.next,{ b with topic := b.topic.alloc ⟨name,listCreate,none⟩ })

/-- `hashmap_get(db->topics, name)`. -/
def getTopic (env : Env) (b : Broker) (name : CString) : Outcome (Option Nat × Broker) := do
  let (raw,topics) ← hashmapGet env.mutex b.topics name
  return (raw,{ b with topics := topics })

/-- `hashmap_put(db->topics, name, t)`, whose status no caller looks at. -/
def putTopic (env : Env) (b : Broker) (name : CString) (t : Nat) : Outcome Broker := do
  let (_,topics) ← hashmapPut env.mutex env.calloc env.fuel b.topics name t
  return { b with topics := topics }

/-- Zero when the two subscriptions have the same descriptor. -/
def subCompare (b : Broker) (sub1 sub2 : Subscription) : Int :=
  if b.fd sub1.client = b.fd sub2.client then 0 else 1

/-- The insertion that `add_subscriber` makes under the lock. -/
def insertSubscriber (b : Broker) (t : Nat) (s : Subscription) : Broker :=
  b.setTopic t fun k => { k with subscribers := listHeadInsert k.subscribers s }

/-- A missing topic is dereferenced. -/
def addSubscriber (env : Env) (b : Broker) (s : Subscription) : Outcome Broker := do
  let (raw,b) ← getTopic env b s.topic
  match raw with
  | none => .crashed
  | some t => return insertSubscriber b t s

def delSubscriber (env : Env) (b : Broker) (s : Subscription) : Outcome Broker := do
  let (raw,b) ← getTopic env b s.topic
  match raw with
  | none => .crashed
  | some t => return b.setTopic t fun k =>
    { k with subscribers :=
        { k.subscribers with nodes := listRemoveNode (subCompare b · s) k.subscribers.nodes } }

def createMessage (msg : Publish) : Message :=
  ⟨msg.qos,msg.dup,msg.retain,cstr msg.topic,cstr msg.message,true⟩

def destroyMessage (b : Broker) (m : Nat) : Broker :=
  { b with message := b.message.modify m fun k => { k with live := false } }

end Sizigy
