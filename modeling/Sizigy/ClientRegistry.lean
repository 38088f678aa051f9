import Sizigy.HashmapContents
import Sizigy.Ledger

/-! The map of clients. A CONNECT deletes what is stored under the client's old id and stores
the client under its new one without looking whose they are. As long as no other client that is
online has one of them, and no entry with the new id stands behind a hole, every client that was
answered is found under its id, and the keys of the map are ids that clients have. -/
namespace Sizigy.ClientRegistry

open Bytes Machine Conversation PacketCodec Ledger

variable {env : Env} {b b' : Broker} {c d : Nat} {behind : Memory} {past : List Label}

/-- A CONNECT with an id was handled for the client. -/
def Connected (behind : Memory) (past : List Label) (c : Nat) : Prop :=
  ∃ pkt : Connect, pkt.idlen ≠ 0 ∧ .asked (.connect,.connect pkt) ∈ ledger behind c past

/-- The client was sent a CONNACK with return code 0. -/
def Answered (behind : Memory) (past : List Label) (c : Nat) : Prop :=
  ∃ fd, .acked fd (ackLetter Opcode.connack 0 0) ∈ ledger behind c past

/-- The id under which a CONNECT stores its client. -/
def newId (b : Broker) (c : Nat) (pkt : Connect) : CString :=
  if pkt.cleanSession = 1 then cstr pkt.id else (b.client.cell c).id

/-- The map into which it does. -/
def cleared (b : Broker) (c : Nat) (pkt : Connect) : Hashmap CString Nat :=
  if pkt.cleanSession = 1 then (b.clients.remove (b.client.cell c).id).2 else b.clients

/-- The condition on a CONNECT with an id: no other client online is registered under the id
it stores or the id it deletes, the slot for the client is not a hole in front of an entry that
has the id, and the map has room. -/
structure Unclaimed (behind : Memory) (past : List Label) (env : Env) (b : Broker) (c : Nat) (pkt : Connect) :
    Prop where
  stored : ∀ d, d ≠ c → Connected behind past d → (b.client.cell d).status = .online →
    (b.client.cell d).id ≠ newId b c pkt
  deleted : pkt.cleanSession = 1 → ∀ d, d ≠ c → Connected behind past d → (b.client.cell d).status = .online →
    (b.client.cell d).id ≠ (b.client.cell c).id
  clear : (cleared b c pkt).Clear (newId b c pkt)
  room : (cleared b c pkt).Room env.calloc (newId b c pkt)

def Respectful (behind : Memory) (past : List Label) (b : Broker) (label : Label) : Prop :=
  ∀ c pkt, .call .connect c (some (.connect pkt)) ∈ label.events → pkt.idlen ≠ 0 →
    Unclaimed behind past label.env b c pkt

theorem blind_id : Blind Client.id := ⟨fun _ _ => rfl,fun _ _ => rfl⟩

theorem blind_status : Blind Client.status := ⟨fun _ _ => rfl,fun _ _ => rfl⟩

theorem getTopic_clients (done : getTopic env b name = .returned (raw,b')) : b'.clients = b.clients := by
  obtain ⟨⟨_,topics⟩,_,done⟩ := Outcome.bind_eq_returned.mp done
  obtain ⟨_,rfl⟩ := Prod.mk.inj (Outcome.returned.inj done)
  rfl

theorem findTopic_clients (done : findTopic env b name = .returned (t,b')) : b'.clients = b.clients := by
  rcases findTopic_cases done with got | ⟨b₁,got,_,put⟩
  · exact getTopic_clients got
  · obtain ⟨⟨_,topics⟩,_,put⟩ := Outcome.bind_eq_returned.mp put
    obtain rfl := Outcome.returned.inj put
    have clients := getTopic_clients got
    exact clients

theorem addSubscriber_clients (done : addSubscriber env b s = .returned b') : b'.clients = b.clients := by
  obtain ⟨t,b₁,got,rfl⟩ := addSubscriber_cases done
  have clients := getTopic_clients got
  exact clients

theorem published_clients (env : Env) (b : Broker) (t : Nat) (p : Publish) :
    (published env b t p).clients = b.clients := by
  have touched (subs : List Subscription) (b : Broker) : (touchAll env b subs).clients = b.clients := by
    induction subs generalizing b with
    | nil => rfl
    | cons sub subs ih => exact ih _
  unfold published
  rw [touched]
  split
  · rfl
  · unfold retainMessage
    cases (b.topic.cell t).retained with
    | none => rfl
    | some m => rfl

theorem handler_clients (decodable : Decodable (Command.ctype command)) (other : command ≠ .connect)
    (done : command.handler env b c = .returned (rc,b')) : b'.clients = b.clients := by
  rcases decodable_command decodable with rfl | rfl | rfl | rfl
  · exact absurd rfl other
  · change publishHandler env b c = _ at done
    unfold publishHandler at done
    split at done
    · obtain ⟨_,rfl⟩ := Prod.mk.inj (Outcome.returned.inj done)
      split
      · rfl
      · rfl
    · cases done
  · obtain ⟨_,rfl⟩ := Prod.mk.inj (Outcome.returned.inj done)
    rfl
  · obtain ⟨_,_,⟨_,rfl⟩ | ⟨_,t,b₁,b₂,found,added,rfl⟩⟩ := subscribeHandler_cases done
    · rfl
    · have after := addSubscriber_clients added
      have before := findTopic_clients found
      exact Eq.trans after before

/-- The map of clients, their ids and their presence are as before. -/
structure SameRegistry (b b' : Broker) : Prop where
  clients : b'.clients = b.clients
  next : b'.client.next = b.client.next
  id : ∀ p, (b'.client.cell p).id = (b.client.cell p).id
  status : ∀ p, (b'.client.cell p).status = (b.client.cell p).status

namespace SameRegistry

theorem of_eq (clients : b'.clients = b.clients) (client : b'.client = b.client) : SameRegistry b b' :=
  ⟨clients,by rw [client],fun p => by rw [client],fun p => by rw [client]⟩

theorem trans (first : SameRegistry b b') (second : SameRegistry b' b'') : SameRegistry b b'' :=
  ⟨second.clients.trans first.clients,second.next.trans first.next,fun p => (second.id p).trans (first.id p),
    fun p => (second.status p).trans (first.status p)⟩

theorem setClient (b : Broker) (c : Nat) (f : Client → Client) (id : ∀ k, (f k).id = k.id)
    (status : ∀ k, (f k).status = k.status) : SameRegistry b (b.setClient c f) :=
  ⟨rfl,rfl,fun p => b.setClient_field c p f Client.id id,fun p => b.setClient_field c p f Client.status status⟩

theorem clocked (env : Env) (b : Broker) (c : Nat) : SameRegistry b (updateClientLastAction env b c) :=
  setClient b c _ (fun _ => rfl) fun _ => rfl

theorem acked (env : Env) (b : Broker) (c : Nat) (opcode rc : UInt8) :
    SameRegistry b (setAckReply env b c opcode rc) := setClient b c _ (fun _ => rfl) fun _ => rfl

theorem linked (env : Env) (b : Broker) (c : Nat) (pkt : Packet) : SameRegistry b (linked env b c pkt) :=
  (clocked env b c).trans (setClient _ c _ (fun _ => rfl) fun _ => rfl)

theorem awaitReply (b : Broker) (fd : Fd) (c : Nat) : SameRegistry b (awaitReply b fd c) :=
  (setClient b c (fun k => { k with ctxHandler := .reply }) (fun _ => rfl) fun _ => rfl).trans (of_eq rfl rfl)

theorem finishReply (b : Broker) (c : Nat) : SameRegistry b (finishReply b c) :=
  (setClient b c (fun k => { k with reply := none, ctxHandler := .request }) (fun _ => rfl) fun _ => rfl).trans
    (of_eq rfl rfl)

theorem deliverReply (done : (deliverReply env b c r).outcome = .returned (ret,b')) : SameRegistry b b' where
  clients := by
    obtain ⟨p,t,b₁,_,_,found,_,rfl⟩ | ⟨_,_,_,_,_,_,rfl⟩ | ⟨_,_,_,_,rfl⟩ := deliverReply_shape done
    · exact (published_clients env b₁ t p).trans (findTopic_clients found)
    · rfl
    · rfl
  next := (deliverReply_local done).next
  id := deliverReply_field blind_id done
  status := deliverReply_field blind_status done

/-- Only a CONNECT touches the registry. -/
theorem handler (decodable : Decodable (Command.ctype command)) (other : command ≠ .connect)
    (done : command.handler env b c = .returned (rc,b')) : SameRegistry b b' where
  clients := handler_clients decodable other done
  next := (handler_local decodable done).next
  id _ := handler_field blind_id (fun connect => absurd connect other) decodable done
  status _ := handler_field blind_status (fun _ _ _ _ => rfl) decodable done

end SameRegistry

/-- What a CONNECT with an id leaves in the map. -/
structure Recorded (b : Broker) (c : Nat) (pkt : Connect) (b' : Broker) : Prop where
  own : (b'.client.cell c).id = newId b c pkt
  found : b'.clients.lookup (newId b c pkt) = some c
  other : ∀ key, key ≠ newId b c pkt → (pkt.cleanSession = 1 → key ≠ (b.client.cell c).id) →
    b'.clients.lookup key = b.clients.lookup key
  ids : ∀ p, p ≠ c → (b'.client.cell p).id = (b.client.cell p).id
  status : ∀ p, (b'.client.cell p).status = (b.client.cell p).status

theorem Recorded.same (recorded : Recorded b c pkt b') (same : SameRegistry b' b'') : Recorded b c pkt b'' where
  own := (same.id c).trans recorded.own
  found := same.clients ▸ recorded.found
  other key stored deleted := same.clients ▸ recorded.other key stored deleted
  ids p apart := (same.id p).trans (recorded.ids p apart)
  status p := (same.status p).trans (recorded.status p)

theorem addClient_lookup (own : (b.client.cell c).id = key) (valid : b.clients.Valid)
    (room : b.clients.Room env.calloc key) (done : addClient env b c = .returned b') :
    b'.client = b.client ∧ ∀ key', b'.clients.lookup key' = if key' = key then some c else b.clients.lookup key' := by
  subst own
  obtain ⟨⟨status,clients⟩,put,done⟩ := Outcome.bind_eq_returned.mp done
  obtain rfl := Outcome.returned.inj done
  exact ⟨rfl,put_lookup valid room put⟩

theorem delClient_removed (done : delClient env b c = .returned b') :
    ∃ lock, b' = { b with clients := { (b.clients.remove (b.client.cell c).id).2 with lock := lock } } := by
  obtain ⟨⟨status,clients⟩,removed,done⟩ := Outcome.bind_eq_returned.mp done
  obtain rfl := Outcome.returned.inj done
  obtain ⟨lock,rfl⟩ := del_removed removed
  exact ⟨lock,rfl⟩

/-- A clean session: the entry under the old id is gone and the client is stored under the new one. -/
theorem clean_recorded (valid : b.clients.Valid) (clean : pkt.cleanSession = 1)
    (room : (cleared b c pkt).Room env.calloc (newId b c pkt)) (deleted : delClient env b c = .returned b₁)
    (added : addClient env (b₁.setClient c fun k => { k with id := cstr pkt.id }) c = .returned b') :
    Recorded b c pkt b' := by
  have new : newId b c pkt = cstr pkt.id := if_pos clean
  have table : cleared b c pkt = (b.clients.remove (b.client.cell c).id).2 := if_pos clean
  obtain ⟨lock,removed⟩ := delClient_removed deleted
  have clients : b₁.clients = { (b.clients.remove (b.client.cell c).id).2 with lock := lock } := by rw [removed]
  have client : b₁.client = b.client := by rw [removed]
  have own : ((b₁.setClient c fun k => { k with id := cstr pkt.id }).client.cell c).id = cstr pkt.id :=
    congrArg Client.id (b₁.setClient_same c _)
  have valid₁ : b₁.clients.Valid := by
    rw [clients]
    exact relock_valid (remove_valid valid _) lock
  have room₁ : b₁.clients.Room env.calloc (cstr pkt.id) := by
    rw [new,table] at room
    rw [clients]
    exact room
  obtain ⟨client',lookup⟩ := addClient_lookup own valid₁ room₁ added
  refine ⟨?_,?_,?_,?_,?_⟩
  · rw [client',own,new]
  · rw [lookup,new,if_pos rfl]
  · intro key stored deleted'
    rw [new] at stored
    rw [lookup,if_neg stored]
    change b₁.clients.lookup key = _
    rw [clients]
    exact remove_lookup b.clients (deleted' clean)
  · intro p apart
    rw [client',b₁.setClient_other c p _ apart,client]
  · intro p
    rw [client',← client]
    exact b₁.setClient_field c p _ Client.status fun _ => rfl

theorem kept_recorded (valid : b.clients.Valid) (kept : pkt.cleanSession ≠ 1)
    (room : (cleared b c pkt).Room env.calloc (newId b c pkt)) (added : addClient env b c = .returned b') :
    Recorded b c pkt b' := by
  have new : newId b c pkt = (b.client.cell c).id := if_neg kept
  have table : cleared b c pkt = b.clients := if_neg kept
  rw [new,table] at room
  obtain ⟨client,lookup⟩ := addClient_lookup rfl valid room added
  refine ⟨?_,?_,?_,?_,?_⟩
  · rw [client,new]
  · rw [lookup,new,if_pos rfl]
  · intro key stored _
    rw [new] at stored
    rw [lookup,if_neg stored]
  · intro p _
    rw [client]
  · intro p
    rw [client]

theorem registerClient_recorded (valid : b.clients.Valid) (named : pkt.idlen ≠ 0)
    (room : (cleared b c pkt).Room env.calloc (newId b c pkt))
    (done : registerClient env b c pkt = .returned b') : Recorded b c pkt b' := by
  rcases registerClient_cases done with ⟨empty,_⟩ | ⟨_,b₁,deleted,clean,added⟩ | ⟨_,kept,added⟩
  · exact absurd empty named
  · exact clean_recorded valid clean room deleted added
  · exact kept_recorded valid kept room added

theorem newId_same (same : SameRegistry b b') (c : Nat) (pkt : Connect) : newId b' c pkt = newId b c pkt := by
  rw [newId,same.id,newId]

theorem cleared_same (same : SameRegistry b b') (c : Nat) (pkt : Connect) : cleared b' c pkt = cleared b c pkt := by
  rw [cleared,same.id,same.clients,cleared]

theorem Recorded.of_same (same : SameRegistry b b') (recorded : Recorded b' c pkt b'') : Recorded b c pkt b'' where
  own := recorded.own.trans (newId_same same c pkt)
  found := newId_same same c pkt ▸ recorded.found
  other key stored deleted := by
    rw [← same.clients]
    exact recorded.other key (newId_same same c pkt ▸ stored) (same.id c ▸ deleted)
  ids p apart := (recorded.ids p apart).trans (same.id p)
  status p := (recorded.status p).trans (same.status p)

theorem connectHandler_recorded (stored : (b.client.cell c).ptr = some (.connect pkt)) (valid : b.clients.Valid)
    (named : pkt.idlen ≠ 0) (room : (cleared b c pkt).Room env.calloc (newId b c pkt))
    (done : connectHandler env b c = .returned (rc,b')) : Recorded b c pkt b' := by
  obtain ⟨conn,b₁,stored',registered,rfl⟩ := connectHandler_cases done
  obtain rfl := Packet.connect.inj (Option.some.inj (stored.symm.trans stored'))
  have recorded := registerClient_recorded valid named room registered
  exact recorded.same ((SameRegistry.acked env b₁ c _ _).trans (SameRegistry.clocked env _ c))

theorem connectHandler_unnamed (stored : (b.client.cell c).ptr = some (.connect pkt)) (unnamed : pkt.idlen = 0)
    (done : connectHandler env b c = .returned (rc,b')) : SameRegistry b b' := by
  obtain ⟨conn,b₁,stored',registered,rfl⟩ := connectHandler_cases done
  obtain rfl := Packet.connect.inj (Option.some.inj (stored.symm.trans stored'))
  rw [registerClient,if_pos unnamed] at registered
  obtain rfl := Outcome.returned.inj registered
  exact (SameRegistry.acked env b c _ _).trans (SameRegistry.clocked env _ c)

/-- Clients are stored once, under the ids they have: each key is a string that a client still owns, and not
one that a CONNECT has freed. -/
structure Filed (b : Broker) : Prop where
  valid : b.clients.Valid
  unique : b.clients.Unique
  own : ∀ key c, b.clients.Contains key c → c < b.client.next ∧ (b.client.cell c).id = key

theorem start_filed (server : Fd) : Filed (startServer server) :=
  ⟨create_valid,create_unique,fun key c stored => by simp [startServer,Hashmap.Contains,hashmapCreate] at stored⟩

theorem Filed.of_same (filed : Filed b) (same : SameRegistry b b') : Filed b' := by
  obtain ⟨valid,unique,own⟩ := filed
  refine ⟨same.clients ▸ valid,same.clients ▸ unique,fun key c stored => ?_⟩
  rw [same.clients] at stored
  rw [same.id,same.next]
  exact own key c stored

theorem Filed.of_idle (filed : Filed b) (idle : Idle b b') : Filed b' := by
  obtain ⟨valid,unique,own⟩ := filed
  refine ⟨idle.clients ▸ valid,idle.clients ▸ unique,fun key c stored => ?_⟩
  rw [idle.clients] at stored
  obtain ⟨known,id⟩ := own key c stored
  exact ⟨known.trans_le idle.next,(idle.old c known).id.trans id⟩

/-- A client that is stored in a map of clients that are filed, under an id that only it has had. -/
theorem addClient_filed (valid : b.clients.Valid) (unique : b.clients.Unique) (known : c < b.client.next)
    (clear : b.clients.Clear (b.client.cell c).id)
    (own : ∀ key d, b.clients.Contains key d → d < b.client.next ∧ (b.client.cell d).id = key)
    (done : addClient env b c = .returned b') : Filed b' := by
  obtain ⟨⟨status,clients⟩,put,done⟩ := Outcome.bind_eq_returned.mp done
  obtain rfl := Outcome.returned.inj done
  refine ⟨put_valid valid put,hashmapPut_unique valid unique clear put,fun key d stored => ?_⟩
  rcases put_subset put stored with ⟨rfl,rfl⟩ | before
  · exact ⟨known,rfl⟩
  · exact own key d before

/-- The entry that a clean session deletes is the only one of its client: no key of the map is the id it frees. -/
theorem registerClient_filed (filed : Filed b) (known : c < b.client.next)
    (clear : pkt.idlen ≠ 0 → (cleared b c pkt).Clear (newId b c pkt))
    (done : registerClient env b c pkt = .returned b') : Filed b' := by
  rcases registerClient_cases done with ⟨_,rfl⟩ | ⟨named,b₁,deleted,clean,added⟩ | ⟨named,kept,added⟩
  · exact filed
  · obtain ⟨lock,rfl⟩ := delClient_removed deleted
    obtain ⟨unique,_,removed⟩ := remove_spec filed.valid filed.unique (b.client.cell c).id
    have clear := clear named
    rw [cleared,newId,if_pos clean,if_pos clean] at clear
    refine addClient_filed (relock_valid (remove_valid filed.valid _) lock) unique ?_ ?_ (fun key d stored => ?_) added
    · exact known
    · rw [Broker.setClient_same]
      exact clear
    · obtain ⟨other,before⟩ := (removed key d).mp stored
      obtain ⟨known',own⟩ := filed.own key d before
      have apart : d ≠ c := by
        rintro rfl
        exact other own.symm
      rw [Broker.setClient_other _ c d _ apart]
      exact ⟨known',own⟩
  · have clear := clear named
    rw [cleared,newId,if_neg kept,if_neg kept] at clear
    exact addClient_filed filed.valid filed.unique known clear filed.own added

theorem handler_filed (filed : Filed b) (known : c < b.client.next) (decodable : Decodable (Command.ctype command))
    (stored : (b.client.cell c).ptr = some pkt)
    (clear : ∀ conn, command = .connect → pkt = .connect conn → conn.idlen ≠ 0 →
      (cleared b c conn).Clear (newId b c conn))
    (done : command.handler env b c = .returned (rc,b')) : Filed b' := by
  by_cases connect : command = .connect
  · subst connect
    obtain ⟨conn,b₁,stored',registered,rfl⟩ := connectHandler_cases done
    obtain rfl := Option.some.inj (stored.symm.trans stored')
    exact (registerClient_filed filed known (clear conn rfl rfl) registered).of_same
      ((SameRegistry.acked env b₁ c _ _).trans (SameRegistry.clocked env _ c))
  · exact filed.of_same (SameRegistry.handler decodable connect done)

theorem asked_iff (events : List Event) :
    .asked (command,pkt) ∈ events.filterMap (entry behind c) ↔ .call command c (some pkt) ∈ events := by
  rw [List.mem_filterMap]
  constructor
  · rintro ⟨event,member,shown⟩
    unfold entry at shown
    split at shown
    · split at shown
      next same =>
        cases shown
        exact same ▸ member
      next => cases shown
    · split at shown <;> cases shown
    · cases shown
  · intro called
    exact ⟨_,called,if_pos rfl⟩

theorem connected_snoc :
    Connected behind (past ++ [label]) c ↔ Connected behind past c ∨
      ∃ pkt : Connect, pkt.idlen ≠ 0 ∧ .call .connect c (some (.connect pkt)) ∈ label.events := by
  simp only [Connected,ledger_snoc,List.mem_append,asked_iff,and_or_left,exists_or]

/-- An acknowledgement is what some request of its client was due. -/
theorem acked_due {ack : Ack} (kept : Kept behind past b) (performed : Performed b label b')
    (acked : .acked fd ack ∈ label.events.filterMap (entry behind c)) :
    ∃ command pkt, .asked (command,pkt) ∈ ledger behind c past ∧ ack ∈ due (command,pkt) := by
  have progress := performed_progress kept.registered performed
  generalize label.events = events at acked progress
  cases progress with
  | idle idle => cases acked
  | unknown serving turn => cases acked
  | @request d k command pkt rc b₁ serving turn decodable handled =>
    obtain ⟨event,member,shown⟩ := List.mem_filterMap.mp acked
    obtain rfl := List.mem_singleton.mp member
    rw [entry] at shown
    split at shown <;> cases shown
  | @reply d k r rc b₁ serving turn pending delivered =>
    obtain ⟨env',before,command,pkt,entries,_,asked⟩ := kept.outstanding d r serving.known pending
    have open' : ({ b with kernel := k } : Broker).kernel.connection (b.fd d) = some (.client d) := by
      rw [← serving.open',← serving.connection]
    rw [replied_entries asked open' delivered] at acked
    split at acked
    next same =>
      obtain ⟨ack',member,shown⟩ := List.mem_map.mp acked
      cases shown
      subst same
      exact ⟨command,pkt,by rw [entries]; simp,member⟩
    next => cases acked

theorem due_connack (owed : ackLetter Opcode.connack 0 0 ∈ due (command,pkt)) :
    ∃ conn, command = .connect ∧ pkt = .connect conn ∧ conn.idlen ≠ 0 := by
  have other {opcode rc : UInt8} (same : ackLetter Opcode.connack 0 0 = ackLetter opcode 0 rc)
      (apart : Opcode.connack ≠ opcode) : False := apart (congrArg (fun ack => ack.header.opcode) same)
  unfold due at owed
  split at owed
  next conn same =>
    obtain ⟨rfl,rfl⟩ := Prod.mk.inj same
    refine ⟨conn,rfl,rfl,fun empty => ?_⟩
    rw [if_pos empty] at owed
    have code : (0 : UInt8) = 1 := congrArg Ack.rc (List.mem_singleton.mp owed)
    exact absurd code (by decide)
  · exact (other (List.mem_singleton.mp owed) (by decide)).elim
  · exact (other (List.mem_singleton.mp owed) (by decide)).elim
  · split at owed
    · exact (other (List.mem_singleton.mp owed) (by decide)).elim
    · cases owed
  · cases owed

/-- The invariant: every client online for which a CONNECT was handled is found under its id. -/
structure Tracked (behind : Memory) (past : List Label) (b : Broker) : Prop where
  kept : Kept behind past b
  filed : Filed b
  found : ∀ c, Connected behind past c → (b.client.cell c).status = .online →
    b.clients.lookup (b.client.cell c).id = some c
  answered : ∀ c, Answered behind past c → Connected behind past c

theorem start_tracked (behind : Memory) (fd : Fd) : Tracked behind [] (startServer fd) where
  kept := start_kept behind fd
  filed := start_filed fd
  found _ connected := by
    obtain ⟨_,_,asked⟩ := connected
    cases asked
  answered _ answered := by
    obtain ⟨_,acked⟩ := answered
    cases acked

theorem Tracked.known (tracked : Tracked behind past b) (connected : Connected behind past c) : c < b.client.next := by
  obtain ⟨_,_,asked⟩ := connected
  by_contra unknown
  rw [tracked.kept.fresh c (Nat.not_lt.mp unknown)] at asked
  cases asked

theorem Tracked.answeredStep (tracked : Tracked behind past b) (performed : Performed b label b')
    (answered : Answered behind (past ++ [label]) c) : Connected behind (past ++ [label]) c := by
  obtain ⟨fd,acked⟩ := answered
  rw [ledger_snoc,List.mem_append] at acked
  rw [connected_snoc]
  refine .inl ?_
  rcases acked with before | now
  · exact tracked.answered c ⟨fd,before⟩
  · obtain ⟨command,pkt,asked,owed⟩ := acked_due tracked.kept performed now
    obtain ⟨conn,rfl,rfl,named⟩ := due_connack owed
    exact ⟨conn,named,asked⟩

/-- A step that handles no CONNECT with an id connects nobody. -/
theorem connected_same (unnamed : ∀ c pkt, .call .connect c (some (.connect pkt)) ∈ label.events → pkt.idlen = 0)
    (connected : Connected behind (past ++ [label]) c) : Connected behind past c := by
  rcases connected_snoc.mp connected with before | ⟨pkt,named,called⟩
  · exact before
  · exact absurd (unnamed c pkt called) named

theorem tracked_same (tracked : Tracked behind past b) (performed : Performed b label b')
    (unnamed : ∀ c pkt, .call .connect c (some (.connect pkt)) ∈ label.events → pkt.idlen = 0)
    (same : SameRegistry b b') : Tracked behind (past ++ [label]) b' where
  kept := performed_kept tracked.kept performed
  filed := tracked.filed.of_same same
  found c connected online := by
    rw [same.clients,same.id]
    rw [same.status] at online
    exact tracked.found c (connected_same unnamed connected) online
  answered _ := tracked.answeredStep performed

theorem tracked_idle (tracked : Tracked behind past b) (performed : Performed b label b') (silent : label.events = [])
    (idle : Idle b b') : Tracked behind (past ++ [label]) b' where
  kept := performed_kept tracked.kept performed
  filed := tracked.filed.of_idle idle
  found c connected online := by
    have before : Connected behind past c := connected_same (by simp [silent]) connected
    have unmoved := idle.old c (tracked.known before)
    rw [idle.clients,unmoved.id]
    exact tracked.found c before (unmoved.status online)
  answered _ := tracked.answeredStep performed

/-- A CONNECT that takes nobody's id leaves everybody where they are found. -/
theorem tracked_recorded (tracked : Tracked behind past b) (performed : Performed b label b')
    (shown : label.events = [.call .connect c (some (.connect pkt))]) (unclaimed : Unclaimed behind past env b c pkt)
    (filed : Filed b') (recorded : Recorded b c pkt b') : Tracked behind (past ++ [label]) b' where
  kept := performed_kept tracked.kept performed
  filed := filed
  found d connected online := by
    by_cases own : d = c
    · subst own
      rw [recorded.own]
      exact recorded.found
    · have before : Connected behind past d := by
        rcases connected_snoc.mp connected with before | ⟨_,_,called⟩
        · exact before
        · rw [shown] at called
          cases List.mem_singleton.mp called
          exact absurd rfl own
      rw [recorded.status] at online
      rw [recorded.ids d own,recorded.other _ (unclaimed.stored d own before online) fun clean =>
        unclaimed.deleted clean d own before online]
      exact tracked.found d before online
  answered _ := tracked.answeredStep performed

theorem performed_tracked (tracked : Tracked behind past b) (respectful : Respectful behind past b label)
    (performed : Performed b label b') : Tracked behind (past ++ [label]) b' := by
  have progress := performed_progress tracked.kept.registered performed
  generalize shown : label.events = events at progress
  cases progress with
  | idle idle => exact tracked_idle tracked performed shown idle
  | @unknown c k pkt serving turn =>
    have moved : SameRegistry b { b with kernel := k } := .of_eq rfl rfl
    exact tracked_same tracked performed (by simp [shown])
      ((moved.trans (.linked label.env _ c pkt)).trans (.awaitReply _ _ c))
  | @request c k command pkt rc b₁ serving turn decodable handled =>
    have moved : SameRegistry b { b with kernel := k } := .of_eq rfl rfl
    have before := moved.trans (.linked label.env { b with kernel := k } c pkt)
    by_cases connect : command = .connect
    · subst connect
      obtain ⟨conn,_,stored,_⟩ := connectHandler_cases handled
      obtain rfl := Option.some.inj ((linked_ptr label.env { b with kernel := k } c pkt).symm.trans stored)
      by_cases unnamed : conn.idlen = 0
      · have after := (before.trans (connectHandler_unnamed stored unnamed handled)).trans (.awaitReply b₁ (b.fd c) c)
        refine tracked_same tracked performed (fun d pkt called => ?_) after
        rw [shown] at called
        cases List.mem_singleton.mp called
        exact unnamed
      · have unclaimed := respectful c conn (by rw [shown]; exact List.mem_singleton.mpr rfl) unnamed
        have room := unclaimed.room
        rw [← cleared_same before,← newId_same before] at room
        have recorded := connectHandler_recorded stored (before.clients ▸ tracked.filed.valid) unnamed room handled
        have filed := handler_filed (tracked.filed.of_same before) (before.next ▸ serving.known) decodable stored
          (fun conn' _ same _ => by
            obtain rfl := Packet.connect.inj same
            rw [cleared_same before,newId_same before]
            exact unclaimed.clear) handled
        exact tracked_recorded tracked performed shown unclaimed (filed.of_same (.awaitReply b₁ (b.fd c) c))
          ((recorded.of_same before).same (.awaitReply b₁ (b.fd c) c))
    · have after := (before.trans (.handler decodable connect handled)).trans (.awaitReply b₁ (b.fd c) c)
      refine tracked_same tracked performed (fun d pkt called => ?_) after
      rw [shown] at called
      cases List.mem_singleton.mp called
      exact absurd rfl connect
  | @reply c k r rc b₁ serving turn pending delivered =>
    have moved : SameRegistry b { b with kernel := k } := .of_eq rfl rfl
    refine tracked_same tracked performed (fun d pkt called => ?_)
      ((moved.trans (.deliverReply delivered)).trans (.finishReply _ c))
    rw [shown] at called
    exact absurd called (deliverReply_uncalled delivered _ _ _)

/-- Along every run in which no CONNECT stores or deletes the id of another client that is online, or
stores its client in a hole in front of an entry with the same id, every client online that was answered
with return code 0 is what `hashmap_get` returns for its id, and the keys of the map are ids that clients have. -/
theorem answered_client_found
    (run : Run (fun past b label b' => Respectful behind past b label ∧ Performed b label b') (startServer fd) past b)
    (answered : Answered behind past c) (online : (b.client.cell c).status = .online) :
    hashmapGet .ignored b.clients (b.client.cell c).id = .returned (some c,b.clients) ∧ Filed b := by
  have tracked := run.invariant (Tracked behind) (start_tracked behind fd)
    fun _ _ _ _ _ before taken => performed_tracked before taken.1 taken.2
  refine ⟨?_,tracked.filed⟩
  rw [← tracked.found c (tracked.answered c answered) online]
  rfl

/-- The check of a step whose CONNECTs store ids that are not in the map. -/
def newIds (b : Broker) (label : Label) : Bool :=
  label.events.all fun
    | .call .connect c (some (.connect pkt)) =>
      (cleared b c pkt).entries.all fun
        | some (key,_) => key ≠ newId b c pkt
        | none => true
    | _ => true

theorem newIds_clear (checked : newIds b label = true) (c : Nat) (pkt : Connect)
    (called : .call .connect c (some (.connect pkt)) ∈ label.events) : (cleared b c pkt).Clear (newId b c pkt) := by
  intro index _ _ val stored
  have absent := List.all_eq_true.mp checked _ called
  have other := List.all_eq_true.mp absent _ (Probing.mem_iff_slot.mpr stored)
  exact of_decide_eq_true other rfl

/-- The check of a step that takes no id of any other client, connected or not. -/
def takesNone (b : Broker) (label : Label) : Bool :=
  newIds b label && label.events.all fun
    | .call .connect c (some (.connect pkt)) =>
      (hashmapHash (cleared b c pkt) (newId b c pkt)).isSome &&
        (List.range b.client.next).all fun d => d = c ||
          ((b.client.cell d).id ≠ newId b c pkt && (b.client.cell d).id ≠ (b.client.cell c).id)
    | _ => true

theorem takesNone_respectful (tracked : Tracked behind past b) (checked : takesNone b label = true) :
    Respectful behind past b label := by
  intro c pkt called _
  obtain ⟨new,free⟩ := Bool.and_eq_true_iff.mp checked
  obtain ⟨room,ids⟩ := Bool.and_eq_true_iff.mp (List.all_eq_true.mp free _ called)
  have apart (d : Nat) (other : d ≠ c) (connected : Connected behind past d) :
      (b.client.cell d).id ≠ newId b c pkt ∧ (b.client.cell d).id ≠ (b.client.cell c).id := by
    have known := List.mem_range.mpr (tracked.known connected)
    simpa [other] using List.all_eq_true.mp ids d known
  exact {
    stored := fun d other connected _ => (apart d other connected).1
    deleted := fun _ d other connected _ => (apart d other connected).2
    clear := newIds_clear new c pkt called
    room := .inl (Option.isSome_iff_ne_none.mp room) }

def courteous (b : Broker) : List (Env × Action) → Bool
  | [] => true
  | (env,action) :: rest =>
    possible env b action && takesNone b (labelled env b action) && courteous (after env b action) rest

theorem courteous_run
    (run : Run (fun past b label b' => Respectful behind past b label ∧ Performed b label b') (startServer fd) past b)
    (courteous' : courteous b script = true) :
    Run (fun past b label b' => Respectful behind past b label ∧ Performed b label b') (startServer fd)
      (past ++ trace b script) (follow b script) := by
  induction script generalizing past b with
  | nil => simpa [trace,follow] using run
  | cons step rest ih =>
    obtain ⟨first,later⟩ := Bool.and_eq_true_iff.mp courteous'
    obtain ⟨possible',checked⟩ := Bool.and_eq_true_iff.mp first
    have tracked := run.invariant (Tracked behind) (start_tracked behind fd)
      fun _ _ _ _ _ before taken => performed_tracked before taken.1 taken.2
    have longer := ih (run.snoc ⟨takesNone_respectful tracked checked,possible_performed _ _ _ possible'⟩) later
    rwa [List.append_assoc] at longer

deriving instance DecidableEq for Header, Ack

def isConnack : Entry (Command × Packet) → Bool
  | .acked _ ack => ack = ackLetter Opcode.connack 0 0
  | .asked _ => false

theorem answered_of_any (found : (ledger behind c past).any isConnack = true) : Answered behind past c := by
  obtain ⟨entry,member,connack⟩ := List.any_eq_true.mp found
  cases entry with
  | acked fd ack =>
    obtain rfl : ack = ackLetter Opcode.connack 0 0 := of_decide_eq_true connack
    exact ⟨fd,member⟩
  | asked => cases connack

/-- Two clients connect with the given ids of one byte, one after the other. -/
def connecting (first second : UInt8) : List (Env × Action) :=
  [(plainEnv,turn (.taken 4 ⟨[.bytes 0x10 [0,0,0,11,0,1,1,0,60,first]],.quiet⟩) 3),
    (plainEnv,turn .refused 4),
    (plainEnv,turn .refused 4),
    (plainEnv,turn (.taken 6 ⟨[.bytes 0x10 [0,0,0,11,0,1,1,0,60,second]],.quiet⟩) 3),
    (plainEnv,turn .refused 6),
    (plainEnv,turn .refused 6)]

theorem both_found : ∃ past b,
    Run (fun past b label b' => Respectful (fun _ => 0) past b label ∧ Performed b label b') (startServer 3) past b ∧
      Answered (fun _ => 0) past 1 ∧
      hashmapGet .ignored b.clients (b.client.cell 1).id = .returned (some 1,b.clients) ∧
      hashmapGet .ignored b.clients (b.client.cell 2).id = .returned (some 2,b.clients) := by
  have checked : courteous (startServer 3) (connecting 97 98) = true := by decide +kernel
  have run : Run (fun past b label b' => Respectful (fun _ => 0) past b label ∧ Performed b label b') (startServer 3)
      (trace (startServer 3) (connecting 97 98)) (follow (startServer 3) (connecting 97 98)) :=
    courteous_run Run.nil checked
  have first : Answered (fun _ => 0) (trace (startServer 3) (connecting 97 98)) 1 :=
    answered_of_any (by decide +kernel)
  have second : Answered (fun _ => 0) (trace (startServer 3) (connecting 97 98)) 2 :=
    answered_of_any (by decide +kernel)
  exact ⟨_,_,run,first,(answered_client_found run first (by decide +kernel)).1,
    (answered_client_found run second (by decide +kernel)).1⟩

/-- The second client takes the id of the first, which stays online and is found no more. -/
theorem taken_id_lost : ∃ past b, Run (fun _ b label b' => Performed b label b') (startServer 3) past b ∧
    Answered (fun _ => 0) past 1 ∧ (b.client.cell 1).status = .online ∧
    hashmapGet .ignored b.clients (b.client.cell 1).id ≠ .returned (some 1,b.clients) := by
  have run := follow_run (startServer 3) (connecting 97 97) (by decide +kernel)
  refine ⟨_,_,run,answered_of_any (by decide +kernel),by decide +kernel,fun same => ?_⟩
  have other : (follow (startServer 3) (connecting 97 97)).clients.lookup
      ((follow (startServer 3) (connecting 97 97)).client.cell 1).id = some 2 := by decide +kernel
  have found := (Prod.mk.inj (Outcome.returned.inj same)).1
  exact absurd (other.symm.trans found) (by decide)

end Sizigy.ClientRegistry
