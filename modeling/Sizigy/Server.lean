import Sizigy.Broker

/-! `server.c`: the handlers of the commands, the request and reply handlers that epoll
events run, the acceptance of connections, the keepalive sweep and the dispatch of one
event by a worker. Each call runs to its end before the next. -/
namespace Sizigy

/-- Entries of `commands_hashmap`. -/
inductive Command where
  | connect
  | publish
  | pingreq
  | subscribe
  | unsubscribe
  | disconnect
  deriving DecidableEq

/-- What can be seen of a step: packets that `publish_message` or `reply_handler` pass to
`sendall`, with the peer at that descriptor, and the calls of command handlers. -/
inductive Event where
  | publish (t : Nat) (fd : Fd) (peer : Option Peer) (bytes : List UInt8)
  | reply (fd : Fd) (peer : Option Peer) (bytes : List UInt8)
  | call (command : Command) (c : Nat) (ptr : Option Packet)

/-- `retained` keeps what the memory of the new reply held. -/
def setReply (env : Env) (b : Broker) (c : Nat) (opcode : UInt8) (payload : Buffer) : Broker :=
  b.setClient c fun k => { k with reply := some ⟨opcode,k.fd,.payload payload,env.junkRetained⟩ }

def ackBuffer (env : Env) (opcode rc : UInt8) : Buffer :=
  let ack := ackPkt opcode 0 rc
  packAck (bufferInit ack.header.size.toNat env.junk) ack

def setAckReply (env : Env) (b : Broker) (c : Nat) (opcode rc : UInt8) : Broker :=
  setReply env b c opcode (ackBuffer env opcode rc)

/-- Callback of `hashmap_iterate2`; without a descriptor it does nothing. -/
def closeSocket (arg1 : Option Fd) (b : Broker) (kv : CString × Nat) : Status × Broker :=
  match arg1 with
  | none => (.ok,b)
  | some fd => (.ok,if b.fd kv.2 = fd then b.setKernel (·.close fd) else b)

/-- Both callers pass a null descriptor. -/
def closeSockets (b : Broker) : Broker := (hashmapIterate2 b.topics (closeSocket none) b).2

def disconnectHandler (_ : Env) (b : Broker) (c : Nat) : Outcome (Int × Broker) :=
  .returned (-1,closeSockets (b.setKernel (·.close (b.fd c))))

/-- Look the topic up by name, or create and store it. -/
def findTopic (env : Env) (b : Broker) (name : CString) : Outcome (Nat × Broker) := do
  let (raw,b) ← getTopic env b name
  match raw with
  | some t => return (t,b)
  | none =>
    let (t,b) := createTopic b name
    let b ← putTopic env b name t
    return (t,b)

/-- The registration that a CONNECT makes; an empty id makes none. -/
def registerClient (env : Env) (b : Broker) (c : Nat) (pkt : Connect) : Outcome Broker :=
  if pkt.idlen = 0 then .returned b
  else if pkt.cleanSession = 1 then do
    let b ← delClient env b c
    addClient env (b.setClient c fun k => { k with id := cstr pkt.id }) c
  else addClient env b c

def connectHandler (env : Env) (b : Broker) (c : Nat) : Outcome (Int × Broker) :=
  match (b.client.cell c).ptr with
  | some (.connect pkt) => do
    let rc : UInt8 := if pkt.idlen = 0 then 1 else 0
    let b ← registerClient env b c pkt
    return (0,updateClientLastAction env (setAckReply env b c Opcode.connack rc) c)
  | _ => .crashed

def publishHandler (env : Env) (b : Broker) (c : Nat) : Outcome (Int × Broker) :=
  match (b.client.cell c).ptr with
  | some (.publish pkt) =>
    .returned (1,
      if pkt.topicLen = 0 then b
      else b.setClient c fun k =>
        { k with reply := some ⟨Opcode.publish,k.fd,.publish pkt,env.junkRetained⟩ })
  | _ => .crashed

def pingreqHandler (env : Env) (b : Broker) (c : Nat) : Outcome (Int × Broker) :=
  .returned (1,updateClientLastAction env (setAckReply env b c Opcode.pingresp 0) c)

/-- The reply gets the retained message of the topic that was found or created, although
the subscription goes to the one that a second lookup returns. -/
def subscribeHandler (env : Env) (b : Broker) (c : Nat) : Outcome (Int × Broker) :=
  match (b.client.cell c).ptr with
  | some (.subscribe pkt) =>
    if pkt.topicLen = 0 then .returned (0,setAckReply env b c Opcode.suback 1)
    else do
      let (t,b) ← findTopic env b (cstr pkt.topic)
      let b := setAckReply env b c Opcode.suback 0
      let b ← addSubscriber env b ⟨c,(b.topic.cell t).name,pkt.qos⟩
      return (0,b.setClient c fun k =>
        { k with reply := k.reply.map fun r => { r with retained := (b.topic.cell t).retained } })
  | _ => .crashed

def unsubscribeHandler (env : Env) (b : Broker) (c : Nat) : Outcome (Int × Broker) :=
  match (b.client.cell c).ptr with
  | some (.unsubscribe pkt) =>
    if pkt.topicLen = 0 then .returned (0,setAckReply env b c Opcode.unsuback 1)
    else do
      let b ← delSubscriber env (setAckReply env b c Opcode.unsuback 0) ⟨c,cstr pkt.topic,0⟩
      return (0,b)
  | _ => .crashed

def Command.ctype : Command → UInt8
  | .connect => Opcode.connect
  | .publish => Opcode.publish
  | .pingreq => Opcode.pingreq
  | .subscribe => Opcode.subscribe
  | .unsubscribe => Opcode.unsubscribe
  | .disconnect => Opcode.disconnect

def Command.handler : Command → Env → Broker → Nat → Outcome (Int × Broker)
  | .connect => connectHandler
  | .publish => publishHandler
  | .pingreq => pingreqHandler
  | .subscribe => subscribeHandler
  | .unsubscribe => unsubscribeHandler
  | .disconnect => disconnectHandler

def commandsHashmap : List Command :=
  [.connect,.publish,.pingreq,.subscribe,.unsubscribe,.disconnect]

/-- The loop over the table; it does not stop at a match. -/
def runCommands (env : Env) (opcode : UInt8) (c : Nat) :
    List Command → Bool → Int → Broker → Exec Event (Bool × Int × Broker)
  | [], executed, freeReply, b => pure (executed,freeReply,b)
  | command :: rest, executed, freeReply, b =>
    if command.ctype = opcode then do
      Exec.emit (.call command c (b.client.cell c).ptr)
      let (freeReply,b) ← Exec.lift (command.handler env b c)
      runCommands env opcode c rest true freeReply b
    else runCommands env opcode c rest executed freeReply b

/-- `request_handler` from the decoded packet on. -/
def serveRequest (env : Env) (b : Broker) (c : Nat) (opcode : UInt8) (pkt : Packet) :
    Exec Event (Int × Broker) := do
  let clientfd := b.fd c
  let b := updateClientLastAction env b c
  let b := b.setClient c fun k => { k with ptr := some pkt }
  let (executed,freeReply,b) ← runCommands env opcode c commandsHashmap false (-1) b
  let b := b.setClient c fun k => { k with ctxHandler := .reply }
  if opcode ≠ Opcode.pubrec ∨ executed = false then
    return (0,b.setKernel (·.modEpoll clientfd .epollout c))
  else
    let b := b.setClient c fun k => { k with ctxHandler := .request }
    let b := b.setKernel (·.modEpoll clientfd .epollin c)
    if executed = true ∧ freeReply > -1 then
      return (0,b.setClient c fun k => { k with reply := none })
    else return (0,b)

def requestHandler (env : Env) (b : Broker) (c : Nat) : Exec Event (Int × Broker) := do
  let clientfd := b.fd c
  let (packet,s) ← Exec.lift
    (recvPacket env.junk env.fuel (requestRing env.stack) (b.kernel.socket clientfd))
  let b := b.setKernel (·.setSocket clientfd s)
  match packet with
  | none =>
    let b := b.setClient c fun k => { k with ctxHandler := .request }
    return (0,b.setKernel (·.modEpoll clientfd .epollin c))
  | some (opcode,buffer) =>
    match (unpackPacket opcode buffer).1 with
    | none => return (-1,b)
    | some pkt => serveRequest env b c opcode pkt

/-- The message that was retained before is freed. -/
def retainMessage (b : Broker) (t : Nat) (msg : Publish) : Broker :=
  let old := (b.topic.cell t).retained
  let m := b.message.next
  let b := { b with message := b.message.alloc { createMessage msg with retained := 1 } }
  let b := match old with
    | none => b
    | some p => destroyMessage b p
  b.setTopic t fun k => { k with retained := some m }

/-- The loop of `publish_message` over the subscribers. -/
def fanOut (env : Env) (t : Nat) (bytes : List UInt8) :
    List Subscription → Broker → Exec Event (Nat × Broker)
  | [], b => pure (0,b)
  | sub :: rest, b => do
    let fd := b.fd sub.client
    Exec.emit (.publish t fd (b.kernel.connection fd) bytes)
    let b := updateClientLastAction env b sub.client
    let (total,b) ← fanOut env t bytes rest b
    return ((env.sendall fd bytes).2 + total,b)

def publishMessage (env : Env) (b : Broker) (t : Nat) (msg : Publish) : Exec Event (Nat × Broker) :=
  let buffer := packPublish (bufferInit msg.header.size.toNat env.junk) msg
  let b := if msg.retain = 0 then b else retainMessage b t msg
  fanOut env t buffer.bytes (b.topic.cell t).subscribers.nodes b

/-- One packet to the descriptor of a reply; the result is -1 on a failed send. -/
def sendReply (env : Env) (b : Broker) (fd : Fd) (buffer : Buffer) : Exec Event Int := do
  Exec.emit (.reply fd (b.kernel.connection fd) buffer.bytes)
  return if (env.sendall fd buffer.bytes).1 < 0 then -1 else 0

def publishReply (env : Env) (b : Broker) (c : Nat) (fd : Fd) (p : Publish) :
    Exec Event (Int × Broker) := do
  let (t,b) ← Exec.lift (findTopic env b (cstr p.topic))
  let (sent,b) ← publishMessage env b t p
  let b := if (sent : Int) > -1 then updateClientLastAction env b c else b
  if p.qos = 1 then
    let ret ← sendReply env b fd (ackBuffer env Opcode.puback 0)
    return (ret,b)
  else return (0,b)

/-- A freed message is not there to be read. -/
def retainedReply (env : Env) (b : Broker) (c : Nat) (fd : Fd) (payload : Buffer) (m : Nat) :
    Exec Event (Int × Broker) := do
  let first ← sendReply env b fd payload
  let r := b.message.cell m
  if m < b.message.next ∧ r.live = true then
    let msg := publishPkt r.topic.bytes r.payload.bytes r.qos 1 0
    let second ← sendReply env b fd (packPublish (bufferInit msg.header.size.toNat env.junk) msg)
    return (if second < 0 then second else first,updateClientLastAction env b c)
  else Exec.lift .crashed

/-- What `reply_handler` sends for a pending reply. -/
def deliverReply (env : Env) (b : Broker) (c : Nat) (reply : Reply) : Exec Event (Int × Broker) :=
  match reply.body with
  | .publish p =>
    if reply.opcode = Opcode.publish then publishReply env b c reply.fd p else Exec.lift .crashed
  | .payload payload =>
    if reply.opcode = Opcode.publish then Exec.lift .crashed
    else match reply.retained with
      | some m =>
        if reply.opcode = Opcode.suback then retainedReply env b c reply.fd payload m
        else do return (← sendReply env b reply.fd payload,b)
      | none => do return (← sendReply env b reply.fd payload,b)

def replyHandler (env : Env) (b : Broker) (c : Nat) : Exec Event (Int × Broker) :=
  match (b.client.cell c).reply with
  | none => pure (0,b)
  | some reply => do
    let (ret,b) ← deliverReply env b c reply
    let b := b.setClient c fun k => { k with reply := none, ctxHandler := .request }
    return (ret,b.setKernel (·.modEpoll (b.fd c) .epollin c))

def configKeepalive : UInt16 := 60

/-- The state in which the workers start: the listening socket alone is registered. -/
def startServer (fd : Fd) : Broker where
  topics := hashmapCreate
  clients := hashmapCreate
  topic := ⟨0,fun _ => ⟨cstr [],listCreate,none⟩⟩
  client := ⟨1,fun _ => ⟨.online,configKeepalive,0,fd,.accept,cstr "server".toUTF8.toList,none,none⟩⟩
  message := ⟨0,fun _ => ⟨0,0,0,cstr [],cstr [],false⟩⟩
  kernel := {
    connection := Function.update (fun _ => none) fd (some (.client 0))
    epoll := Function.update (fun _ => none) fd (some ⟨0,some .epollin⟩)
    socket := fun _ => ⟨[],.quiet⟩ }

/-- How a call of `accept_handler` fares: no connection, one that is given up because its
addresses cannot be read, or one that becomes a client with the given socket. -/
inductive Accepted where
  | refused
  | lost (fd : Fd)
  | taken (fd : Fd) (s : Socket)

def acceptHandler (env : Env) (b : Broker) (server : Nat) : Accepted → Int × Broker
  | .refused => (-1,b)
  | .lost fd => (-1,b.setKernel (·.accept fd .stray ⟨[],.quiet⟩))
  | .taken clientsock s =>
    let c := b.client.next
    let b := b.setKernel (·.accept clientsock (.client c) s)
    let client : Client :=
      ⟨.online,configKeepalive,env.now,clientsock,.request,env.randomName,none,none⟩
    let b := { b with client := b.client.alloc client }
    let b := b.setKernel (·.addEpoll clientsock c)
    (0,b.setKernel (·.modEpoll (b.fd server) .epollin server))

/-- An error answer ends the sweep that calls it. -/
def checkClientStatus (env : Env) (b : Broker) (kv : CString × Nat) : Status × Broker :=
  let c := b.client.cell kv.2
  if c.status = .online ∧ env.now - c.lastActionTime ≥ c.keepalive.toUInt64 then
    (.ok,(b.setKernel (·.close c.fd)).setClient kv.2 fun k => { k with status := .offline })
  else (.err,b)

/-- One turn of the keepalive thread. -/
def keepaliveSweep (env : Env) (b : Broker) : Broker :=
  (hashmapIterate2 b.clients (checkClientStatus env) b).2

/-- Events with `EPOLLERR`, `EPOLLHUP` or neither direction, and all others. -/
inductive Readiness where
  | error
  | ready
  deriving DecidableEq

/-- What a worker knows beyond the broker: where each `Client` lies in memory, the
descriptor in `config.run`, and what accepting a connection would give. -/
structure Worker where
  address : Nat → Nat
  run : UInt8
  accepted : Accepted

/-- The pointer in the event data, read as a descriptor. -/
def Worker.dataFd (w : Worker) (c : Nat) : Fd := w.address c % 2 ^ 32

/-- Processing of one event that epoll delivers for a descriptor. -/
def workerEvent (env : Env) (w : Worker) (b : Broker) (fd : Fd) (readiness : Readiness) :
    Exec Event Broker :=
  match b.kernel.epoll fd with
  | none => pure b
  | some registration =>
    let c := registration.data
    let b := b.setKernel (·.disarm fd)
    if readiness = .error then pure ((closeSockets b).setKernel (·.close (w.dataFd c)))
    else if w.dataFd c = w.run.toNat then pure b
    else
      match (b.client.cell c).ctxHandler with
      | .accept => pure (acceptHandler env b c w.accepted).2
      | .request => do return (← requestHandler env b c).2
      | .reply => do return (← replyHandler env b c).2

end Sizigy
