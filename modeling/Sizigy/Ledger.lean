import Sizigy.Conversation
import Sizigy.Forwarding

/-! Handled requests and the acknowledgements for them. Between two requests of a client the broker
sends it exactly the acknowledgements that the first one is due, whatever the other clients do. -/
namespace Sizigy.Ledger

open Bytes PacketBounds PacketCodec Forwarding Machine Conversation

variable {env : Env} {b b' : Broker} {c d : Nat} {behind : Memory}

/-- A request of a client, or an acknowledgement as `unpack_ack` decodes it. -/
inductive Entry (α : Type) where
  | asked (request : α)
  | acked (fd : Fd) (ack : Ack)

def acknowledges (opcode : UInt8) : Bool :=
  opcode = Opcode.connack || opcode = Opcode.puback || opcode = Opcode.suback || opcode = Opcode.pingresp

/-- What an event adds to the conversation with a client. -/
def entry (behind : Memory) (c : Nat) : Event → Option (Entry (Command × Packet))
  | .call command d (some pkt) => if d = c then some (.asked (command,pkt)) else none
  | .reply fd (some (.client d)) bytes =>
    if d = c ∧ bytes.head?.any acknowledges = true then some (.acked fd (unpackAck (arrived bytes behind)).1)
    else none
  | _ => none

def ledger (behind : Memory) (c : Nat) (past : List Label) : List (Entry (Command × Packet)) :=
  (past.flatMap Label.events).filterMap (entry behind c)

/-- The acknowledgements that a handled request is due. -/
def due : Command × Packet → List Ack
  | (.connect,.connect pkt) => [ackLetter Opcode.connack 0 (if pkt.idlen = 0 then 1 else 0)]
  | (.pingreq,_) => [ackLetter Opcode.pingresp 0 0]
  | (.subscribe,.subscribe pkt) => [ackLetter Opcode.suback 0 (if pkt.topicLen = 0 then 1 else 0)]
  | (.publish,.publish pkt) => if pkt.topicLen ≠ 0 ∧ pkt.qos = 1 then [ackLetter Opcode.puback 0 0] else []
  | _ => []

section Exchanges

variable {α β : Type} {owed : α → List Ack} {owed' : β → List Ack}

def request : Entry α → Option α
  | .asked request => some request
  | .acked _ _ => none

def requests (entries : List (Entry α)) : List α := entries.filterMap request

/-- A request and its acknowledgements, sent to the given descriptor. -/
def exchange (owed : α → List Ack) (fd : Fd) (asked : α) : List (Entry α) :=
  .asked asked :: (owed asked).map (.acked fd)

/-- Every request is followed by what it is due, and then by the next request. -/
def Settled (owed : α → List Ack) (fd : Fd) (entries : List (Entry α)) : Prop :=
  entries = (requests entries).flatMap (exchange owed fd)

theorem requests_exchange (owed : α → List Ack) (fd : Fd) (asked : α) :
    requests (exchange owed fd asked) = [asked] := by
  simp [requests,exchange,request,List.filterMap_map,Function.comp_def]

theorem Settled.snoc {before : List (Entry α)} (settled : Settled owed fd before) (asked : α) :
    Settled owed fd (before ++ exchange owed fd asked) := by
  have split : requests (before ++ exchange owed fd asked) = requests before ++ [asked] := by
    rw [requests,List.filterMap_append]
    exact congrArg _ (requests_exchange owed fd asked)
  rw [Settled,split,List.flatMap_append,← show before = _ from settled,List.flatMap_singleton]

theorem Settled.cons {rest : List (Entry α)} (settled : Settled owed fd rest) (asked : α) :
    Settled owed fd (exchange owed fd asked ++ rest) := by
  have split : requests (exchange owed fd asked ++ rest) = asked :: requests rest := by
    rw [requests,List.filterMap_append]
    exact congrArg (· ++ requests rest) (requests_exchange owed fd asked)
  rw [Settled,split,List.flatMap_cons,← show rest = _ from settled]

/-- Two entries of which one reads the request of the other. -/
inductive Matching (reads : β → α → Prop) : Entry β → Entry α → Prop where
  | asked (same : reads raw asked) : Matching reads (.asked raw) (.asked asked)
  | acked {fd : Fd} {ack : Ack} : Matching reads (.acked fd ack) (.acked fd ack)

end Exchanges

theorem ledger_snoc (behind : Memory) (c : Nat) (past : List Label) (label : Label) :
    ledger behind c (past ++ [label]) = ledger behind c past ++ label.events.filterMap (entry behind c) := by
  simp [ledger]

/-- The first byte of a packed packet is its opcode, if anything is sent. -/
theorem wrote_head {packed : Buffer} (wrote : Wrote packed size (opcode :: bytes)) :
    packed.bytes.head? = if size = 0 then none else some opcode := by
  have first := congrArg List.head? wrote.filled.2
  rw [Buffer.bytes,wrote.size]
  cases size with
  | zero => rfl
  | succ n =>
    simp [load,List.range_succ_eq_map] at first ⊢
    exact first

theorem headerBytes_cons (opcode : UInt8) (size : Nat) : ∃ rest, headerBytes opcode size = opcode :: rest := by
  simp [headerBytes,encode]

theorem ackBuffer_head (env : Env) (opcode rc : UInt8) : (ackBuffer env opcode rc).bytes.head? = some opcode := by
  have wrote := packAck_wrote (ackPkt opcode 0 rc).header.size.toNat env.junk (ackPkt opcode 0 rc)
  obtain ⟨rest,header⟩ := headerBytes_cons (ackPkt opcode 0 rc).header.opcode (ackPkt opcode 0 rc).header.size.toNat
  rw [ackBytes,header] at wrote
  exact wrote_head wrote

/-- A packed PUBLISH is no acknowledgement. -/
theorem publishBytes_head (env : Env) (pkt : Publish) (opcode : pkt.header.opcode = Opcode.publish) :
    (publishBytes env pkt).head?.any acknowledges = false := by
  have wrote := packPublish_wrote pkt.header.size.toNat env.junk pkt
  obtain ⟨rest,header⟩ := headerBytes_cons Opcode.publish pkt.header.size.toNat
  rw [publishFields,opcode,header] at wrote
  rw [publishBytes,wrote_head wrote]
  split
  · rfl
  · decide

theorem acked_entry (behind : Memory) (env : Env) (c d : Nat) (fd : Fd) (ack : acknowledges opcode = true) :
    entry behind d (.reply fd (some (.client c)) (ackBuffer env opcode rc).bytes) =
      if c = d then some (.acked fd (ackLetter opcode 0 rc)) else none := by
  rw [entry,ackBuffer_head,Option.any_some,ack,ackBuffer_unpacked]
  simp

theorem publications_silent (b : Broker) (t : Nat) (bytes : List UInt8) (subs : List Subscription) :
    (publications b t bytes subs).filterMap (entry behind d) = [] := by
  simp [publications,List.filterMap_map,Function.comp_def,entry]

/-- Everything that is sent to the client of a pending reply goes to its own descriptor. -/
theorem replied_own (open' : b.kernel.connection r.fd = some (.client c))
    (delivered : (deliverReply env b c r).outcome = .returned (rc,b'))
    (sent : .reply fd peer bytes ∈ (deliverReply env b c r).events) : fd = r.fd ∧ peer = some (.client c) := by
  rcases deliverReply_shape delivered with ⟨p,t,b₁,_,_,found,shown,_⟩ | ⟨_,_,_,_,_,shown,_⟩ | ⟨_,_,_,shown,_⟩
  · rw [shown,pubackTo,(findTopic_local found : Local c b b₁).kernel,open'] at sent
    rcases List.mem_append.mp sent with fanned | acked
    · obtain ⟨_,_,same⟩ := List.mem_map.mp fanned
      cases same
    · split at acked
      · cases List.mem_singleton.mp acked
        exact ⟨rfl,rfl⟩
      · cases acked
  · rw [shown,open'] at sent
    simp only [List.mem_cons,List.not_mem_nil,or_false,Event.reply.injEq] at sent
    rcases sent with ⟨fd,peer,_⟩ | ⟨fd,peer,_⟩
    · exact ⟨fd,peer⟩
    · exact ⟨fd,peer⟩
  · rw [shown,open'] at sent
    cases List.mem_singleton.mp sent
    exact ⟨rfl,rfl⟩

theorem asked_fd (asked : Asked env fd none command pkt (some r)) : r.fd = fd := by
  cases asked <;> rfl

theorem acked_singleton (open' : b.kernel.connection fd = some (.client c)) (ack : acknowledges opcode = true) :
    [Event.reply fd (b.kernel.connection fd) (ackBuffer env opcode code).bytes].filterMap (entry behind d) =
      if c = d then [.acked fd (ackLetter opcode 0 code)] else [] := by
  rw [open',List.filterMap_cons,acked_entry behind env c d fd ack]
  by_cases same : c = d <;> simp [same]

/-- A retained message may follow an acknowledgement, and is none. -/
theorem payload_entries (body : r.body = .payload (ackBuffer env' opcode code)) (ack : acknowledges opcode = true)
    (open' : b.kernel.connection r.fd = some (.client c))
    (delivered : (deliverReply env b c r).outcome = .returned (rc,b')) :
    (deliverReply env b c r).events.filterMap (entry behind d) =
      if c = d then [.acked r.fd (ackLetter opcode 0 code)] else [] := by
  rcases deliverReply_shape delivered with ⟨_,_,_,_,body',_⟩ | ⟨_,m,body',_,_,shown,_⟩ | ⟨_,body',_,shown,_⟩
  all_goals rw [body] at body'
  · cases body'
  · obtain rfl := ReplyBody.payload.inj body'
    have retained : entry behind d (.reply r.fd (b.kernel.connection r.fd) (retainedBytes env (b.message.cell m))) =
        none := by
      rw [open',entry,retainedBytes,publishBytes_head env _ rfl]
      simp
    rw [shown,← List.singleton_append,List.filterMap_append,acked_singleton open' ack,
      List.filterMap_cons_none retained,List.filterMap_nil,List.append_nil]
  · obtain rfl := ReplyBody.payload.inj body'
    rw [shown,acked_singleton open' ack]

theorem publish_entries (body : r.body = .publish p) (open' : b.kernel.connection r.fd = some (.client c))
    (delivered : (deliverReply env b c r).outcome = .returned (rc,b')) :
    (deliverReply env b c r).events.filterMap (entry behind d) =
      if c = d ∧ p.qos = 1 then [.acked r.fd (ackLetter Opcode.puback 0 0)] else [] := by
  rcases deliverReply_shape delivered with ⟨_,_,b₁,_,body',found,shown,_⟩ | ⟨_,_,body',_⟩ | ⟨_,body',_⟩
  all_goals rw [body] at body'
  · obtain rfl := ReplyBody.publish.inj body'
    rw [← (findTopic_local found : Local c b b₁).kernel] at open'
    rw [shown,List.filterMap_append,publications_silent,List.nil_append,pubackTo]
    by_cases qos : p.qos = 1
    · rw [if_pos qos,acked_singleton open' rfl]
      simp only [qos,and_true]
    · rw [if_neg qos,if_neg fun both => qos both.2,List.filterMap_nil]
  · cases body'
  · cases body'

/-- A reply adds the acknowledgements that its request is due to the conversation with its
client, and nothing to any other. -/
theorem replied_entries (asked : Asked env' fd none command pkt (some r))
    (open' : b.kernel.connection fd = some (.client c))
    (delivered : (deliverReply env b c r).outcome = .returned (rc,b')) :
    (deliverReply env b c r).events.filterMap (entry behind d) =
      if c = d then (due (command,pkt)).map (.acked fd) else [] := by
  cases asked with
  | connect => exact payload_entries rfl rfl open' delivered
  | pingreq => exact payload_entries rfl rfl open' delivered
  | subscribe => exact payload_entries rfl rfl open' delivered
  | @publish p _ topic =>
    rw [publish_entries rfl open' delivered,due]
    by_cases own : c = d
    · simp only [own,true_and,if_true,topic,ne_eq,not_false_eq_true]
      split
      · rfl
      · rfl
    · rw [if_neg own,if_neg fun both => own both.1]

/-- The last request of a client waits for its reply, and all earlier ones have theirs. -/
def Outstanding (fd : Fd) (entries : List (Entry (Command × Packet))) (r : Reply) : Prop :=
  ∃ env before command pkt, entries = before ++ [.asked (command,pkt)] ∧ Settled due fd before ∧
    Asked env fd none command pkt (some r)

/-- The invariant: what each client was sent is what its requests are due. -/
structure Kept (behind : Memory) (past : List Label) (b : Broker) : Prop where
  registered : Registered b
  ready : Ready b
  fresh : ∀ c, b.client.next ≤ c → ledger behind c past = []
  settled : ∀ c, c < b.client.next → (b.client.cell c).ctxHandler = .request →
    Settled due (b.fd c) (ledger behind c past)
  outstanding : ∀ c r, c < b.client.next → (b.client.cell c).reply = some r →
    Outstanding (b.fd c) (ledger behind c past) r

theorem start_kept (behind : Memory) (fd : Fd) : Kept behind [] (startServer fd) where
  registered := start_registered fd
  ready := start_ready fd
  fresh _ _ := rfl
  settled _ _ _ := rfl
  outstanding _ _ _ pending := by cases pending

theorem idle_kept (kept : Kept behind past b) (registered : Registered b') (ready : Ready b')
    (silent : label.events = []) (idle : Idle b b') : Kept behind (past ++ [label]) b' := by
  have same (c : Nat) : ledger behind c (past ++ [label]) = ledger behind c past := by
    rw [ledger_snoc,silent,List.filterMap_nil,List.append_nil]
  refine ⟨registered,ready,fun c unknown => ?_,fun c known ctx => ?_,fun c r known pending => ?_⟩
  all_goals rw [same]
  · exact kept.fresh c (idle.next.trans unknown)
  · by_cases old : c < b.client.next
    · have unmoved := idle.old c old
      rw [Broker.fd,unmoved.fd]
      exact kept.settled c old (unmoved.ctx ▸ ctx)
    · rw [kept.fresh c (Nat.not_lt.mp old)]
      rfl
  · by_cases old : c < b.client.next
    · have unmoved := idle.old c old
      rw [Broker.fd,unmoved.fd]
      exact kept.outstanding c r old (unmoved.reply ▸ pending)
    · rw [(idle.new c (Nat.not_lt.mp old) known).1] at pending
      cases pending

/-- A step for one client leaves the conversations of the others where they are. -/
theorem touched_kept (kept : Kept behind past b) (registered : Registered b') (ready : Ready b')
    (known : c < b.client.next) (touched : Touched c { b with kernel := k } b')
    (silent : ∀ d, d ≠ c → label.events.filterMap (entry behind d) = [])
    (settled : (b'.client.cell c).ctxHandler = .request → Settled due (b.fd c) (ledger behind c (past ++ [label])))
    (outstanding : ∀ r, (b'.client.cell c).reply = some r →
      Outstanding (b.fd c) (ledger behind c (past ++ [label])) r) :
    Kept behind (past ++ [label]) b' := by
  have next : b'.client.next = b.client.next := touched.next
  have fd (p : Nat) : b'.fd p = b.fd p := touched.fd p
  have same (d : Nat) (other : d ≠ c) : ledger behind d (past ++ [label]) = ledger behind d past := by
    rw [ledger_snoc,silent d other,List.append_nil]
  refine ⟨registered,ready,fun d unknown => ?_,fun d known' ctx => ?_,fun d r known' pending => ?_⟩
  all_goals rw [next] at *
  · rw [same d (Nat.ne_of_gt (known.trans_le unknown))]
    exact kept.fresh d unknown
  · rw [fd]
    by_cases own : d = c
    · subst own
      exact settled ctx
    · rw [same d own]
      rw [touched.ctx d own] at ctx
      exact kept.settled d known' ctx
  · rw [fd]
    by_cases own : d = c
    · subst own
      exact outstanding r pending
    · rw [same d own]
      rw [touched.reply d own] at pending
      exact kept.outstanding d r known' pending

theorem request_kept (kept : Kept behind past b) (registered : Registered b') (ready : Ready b')
    (serving : Serving b c .request k) (decodable : Decodable (Command.ctype command))
    (handled : command.handler env (linked env { b with kernel := k } c pkt) c = .returned (rc,b₁))
    (after : b' = awaitReply b₁ (b.fd c) c) (shown : label.events = [.call command c (some pkt)]) :
    Kept behind (past ++ [label]) b' := by
  subst after
  have asked := handler_asked decodable (linked_ptr env { b with kernel := k } c pkt) handled
  have fd : (linked env { b with kernel := k } c pkt).fd c = b.fd c := (linked_local env _ c pkt).fd c
  have idle : ((linked env { b with kernel := k } c pkt).client.cell c).reply = none := by
    rw [linked_reply]
    exact kept.ready c serving.known serving.handler
  rw [fd,idle] at asked
  refine touched_kept kept registered ready serving.known (request_touched decodable handled) ?_ ?_ ?_
  · intro d other
    rw [shown,List.filterMap_cons_none (by rw [entry,if_neg other.symm]),List.filterMap_nil]
  · intro ctx
    rw [awaitReply_ctx] at ctx
    cases ctx
  · intro r pending
    rw [awaitReply_reply] at pending
    rw [pending] at asked
    refine ⟨env,ledger behind c past,command,pkt,?_,kept.settled c serving.known serving.handler,asked⟩
    rw [ledger_snoc,shown,List.filterMap_cons_some (by rw [entry,if_pos rfl]),List.filterMap_nil]

theorem reply_kept (kept : Kept behind past b) (registered : Registered b') (ready : Ready b')
    (serving : Serving b c .reply k) (pending : (b.client.cell c).reply = some r)
    (delivered : (deliverReply env { b with kernel := k } c r).outcome = .returned (rc,b₁))
    (after : b' = finishReply b₁ c) (shown : label.events = (deliverReply env { b with kernel := k } c r).events) :
    Kept behind (past ++ [label]) b' := by
  subst after
  obtain ⟨env',before,command,pkt,entries,settled,asked⟩ := kept.outstanding c r serving.known pending
  have open' : ({ b with kernel := k } : Broker).kernel.connection (b.fd c) = some (.client c) := by
    rw [← serving.open',← serving.connection]
  have touched := (Touched.of_local (deliverReply_local delivered)).trans (finishReply_touched b₁ c)
  refine touched_kept kept registered ready serving.known touched ?_ ?_ ?_
  · intro d other
    rw [shown,replied_entries asked open' delivered,if_neg other.symm]
  · intro _
    rw [ledger_snoc,entries,shown,replied_entries asked open' delivered,if_pos rfl,List.append_assoc]
    exact settled.snoc (command,pkt)
  · intro r' left
    simp [finishReply] at left

theorem performed_kept (kept : Kept behind past b) (performed : Performed b label b') :
    Kept behind (past ++ [label]) b' := by
  have registered := performed_registered kept.registered performed
  have progress := performed_progress kept.registered performed
  have ready := progress_ready kept.ready progress
  generalize shown : label.events = events at progress
  cases progress with
  | idle idle => exact idle_kept kept registered ready shown idle
  | @unknown c k pkt serving turn =>
    refine touched_kept kept registered ready serving.known (unknown_touched label.env b c k pkt) ?_ ?_ ?_
    · intro d _
      rw [shown,List.filterMap_nil]
    · intro ctx
      rw [awaitReply_ctx] at ctx
      cases ctx
    · intro r pending
      have idle := kept.ready c serving.known serving.handler
      rw [awaitReply_reply,linked_reply,show _ = none from idle] at pending
      cases pending
  | request serving turn decodable handled =>
    exact request_kept kept registered ready serving decodable handled rfl shown
  | reply serving turn pending delivered =>
    exact reply_kept kept registered ready serving pending delivered rfl shown

/-- A reply goes to the client whose event it is. -/
theorem sent_own (kept : Kept behind past b) (performed : Performed b label b')
    (sent : .reply fd peer bytes ∈ label.events) :
    ∃ c, addressee b label.action = some c ∧ fd = b.fd c ∧ peer = some (.client c) := by
  have progress := performed_progress kept.registered performed
  generalize label.events = events at sent progress
  cases progress with
  | idle idle => cases sent
  | unknown serving turn => cases sent
  | request serving turn decodable handled => cases List.mem_singleton.mp sent
  | @reply c k r rc b₁ serving turn pending delivered =>
    obtain ⟨_,_,_,_,_,_,asked⟩ := kept.outstanding c r serving.known pending
    have open' : k.connection r.fd = some (.client c) := by
      rw [asked_fd asked,serving.connection,serving.open']
    obtain ⟨own,peer'⟩ := replied_own open' delivered sent
    exact ⟨c,turn,own.trans (asked_fd asked),peer'⟩

def turn (accepted : Accepted) (fd : Fd) : Action := .event ⟨fun c => 64 + 16 * c,5,accepted⟩ fd .ready

end Sizigy.Ledger
