import Sizigy.Conversation
import Sizigy.TopicSpec

/-! The order of published messages. Along every run there is one sequence of the messages that
were passed on. Each publisher finds its PUBLISH requests in it in the order in which it sent
them, and each subscriber of a topic is written the messages of the topic in that order, once
for each of its subscriptions. -/

namespace Sizigy.Ordering
open Machine Conversation

variable {env : Env} {b b' : Broker} {c t : Nat} {past later : List Label} {label : Label}
variable {events : List Event}

/-- The topics of before are still there under their names, and their lists grew at the head. -/
structure Grown (b b' : Broker) : Prop where
  next : b.topic.next ≤ b'.topic.next
  name : ∀ t, t < b.topic.next → (b'.topic.cell t).name = (b.topic.cell t).name
  nodes : ∀ t, t < b.topic.next →
    (b.topic.cell t).subscribers.nodes <:+ (b'.topic.cell t).subscribers.nodes

namespace Grown

theorem of_same (same : SameTopics b b') : Grown b b' where
  next := le_of_eq same.next.symm
  name t _ := same.name t
  nodes t _ := by simp [same.subscribers t]

theorem trans (first : Grown b b') (second : Grown b' b'') : Grown b b'' where
  next := first.next.trans second.next
  name t known := (second.name t (known.trans_le first.next)).trans (first.name t known)
  nodes t known := (first.nodes t known).trans (second.nodes t (known.trans_le first.next))

end Grown

/-- Topics are stored under their names, counters cover their lists, and subscriptions are of
clients that exist. -/
structure Stocked (b : Broker) : Prop where
  named : Named b
  covered : ∀ t, (b.topic.cell t).subscribers.Covered
  known : ∀ t s, s ∈ (b.topic.cell t).subscribers.nodes → s.client < b.client.next

theorem start_stocked (fd : Fd) : Stocked (startServer fd) where
  named name t stored := by simp [startServer,Hashmap.Contains,hashmapCreate] at stored
  covered _ := listCreate_covered
  known t s member := by simp [startServer,listCreate] at member

theorem Stocked.of_same (stocked : Stocked b) (same : SameTopics b b') (next : b.client.next ≤ b'.client.next) :
    Stocked b' where
  named := stocked.named.of_same same
  covered t := by
    rw [same.subscribers t]
    exact stocked.covered t
  known t s member := by
    rw [same.subscribers t] at member
    exact (stocked.known t s member).trans_le next

theorem putTopic_topic (done : putTopic env b name t = .returned b') : b'.topic = b.topic := by
  obtain ⟨⟨status,topics⟩,_,done⟩ := Outcome.bind_eq_returned.mp done
  obtain rfl := Outcome.returned.inj done
  rfl

/-- The topics are as before, or there is a new one without subscribers. -/
theorem findTopic_topic (named : Named b) (done : findTopic env b name = .returned (t,b')) :
    t < b'.topic.next ∧ (b'.topic = b.topic ∨ b'.topic = b.topic.alloc ⟨name,listCreate,none⟩) := by
  rcases findTopic_cases done with got | ⟨b₁,got,rfl,put⟩
  · obtain ⟨found,lock,rfl⟩ := getTopic_spec got
    exact ⟨(named name t (lookup_contains found.symm)).1,.inl rfl⟩
  · obtain ⟨_,lock,rfl⟩ := getTopic_spec got
    rw [putTopic_topic put]
    exact ⟨Nat.lt_succ_self _,.inr rfl⟩

theorem alloc_grown (added : b'.topic = b.topic.alloc topic) : Grown b b' where
  next := by simp [added]
  name t known := by rw [added,Heap.alloc_old _ _ _ (Nat.ne_of_lt known)]
  nodes t known := by simp [added,Heap.alloc_old _ _ _ (Nat.ne_of_lt known)]

theorem findTopic_grown (stocked : Stocked b) (done : findTopic env b name = .returned (t,b')) :
    Grown b b' ∧ Stocked b' := by
  have client := findTopic_client done
  have named := (findTopic_extends stocked.named done).1.named
  obtain ⟨_,same | added⟩ := findTopic_topic stocked.named done
  · refine ⟨⟨by rw [same],fun t _ => by rw [same],fun t _ => same ▸ List.suffix_rfl⟩,named,?_,?_⟩
    · rw [same]
      exact stocked.covered
    · rw [same,client]
      exact stocked.known
  · refine ⟨alloc_grown added,named,fun t => ?_,fun t s member => ?_⟩
    · by_cases new : t = b.topic.next
      · subst new
        rw [added,Heap.alloc_new]
        exact listCreate_covered
      · rw [added,Heap.alloc_old _ _ _ new]
        exact stocked.covered t
    · rw [client]
      by_cases new : t = b.topic.next
      · subst new
        rw [added,Heap.alloc_new] at member
        simp [listCreate] at member
      · rw [added,Heap.alloc_old _ _ _ new] at member
        exact stocked.known t s member

theorem addSubscriber_grown (stocked : Stocked b) (known : s.client < b.client.next)
    (done : addSubscriber env b s = .returned b') : Grown b b' ∧ Stocked b' := by
  have client := addSubscriber_client done
  have named := (addSubscriber_extends stocked.named done).named
  obtain ⟨t,b₁,got,rfl⟩ := addSubscriber_cases done
  obtain ⟨_,lock,rfl⟩ := getTopic_spec got
  have inserted (p : Nat) := insertSubscriber_subscribers { b with topics := { b.topics with lock := lock } } t s p
  refine ⟨⟨Nat.le_refl _,fun p _ => insertSubscriber_name _ t s p,fun p _ => ?_⟩,named,fun p => ?_,
    fun p s' member => ?_⟩
  · rw [inserted p]
    split
    · rw [(listHeadInsert_nodes (stocked.covered p) s).1]
      exact List.suffix_cons _ _
    · exact List.suffix_rfl
  · rw [inserted p]
    split
    · exact (listHeadInsert_nodes (stocked.covered p) s).2
    · exact stocked.covered p
  · rw [client]
    rw [inserted p] at member
    split at member
    · rcases insert_members _ s s' member with rfl | old
      · exact known
      · exact stocked.known p s' old
    · exact stocked.known p s' member

theorem subscribeHandler_grown (stocked : Stocked b) (known : c < b.client.next)
    (done : subscribeHandler env b c = .returned (rc,b')) : Grown b b' ∧ Stocked b' := by
  have acked (b : Broker) (rc : UInt8) : SameTopics b (setAckReply env b c Opcode.suback rc) := SameTopics.of_eq rfl rfl
  obtain ⟨pkt,_,⟨_,rfl⟩ | ⟨_,t,b₁,b₂,found,added,rfl⟩⟩ := subscribeHandler_cases done
  · exact ⟨Grown.of_same (acked b 1),stocked.of_same (acked b 1) (Nat.le_refl _)⟩
  · obtain ⟨grown,stocked⟩ := findTopic_grown stocked found
    have stocked := stocked.of_same (acked b₁ 0) (Nat.le_refl _)
    have known : c < (setAckReply env b₁ c Opcode.suback 0).client.next := by
      change c < b₁.client.next
      rwa [findTopic_client found]
    obtain ⟨grown',stocked'⟩ := addSubscriber_grown stocked known added
    exact ⟨(grown.trans (Grown.of_same (acked b₁ 0))).trans (grown'.trans (Grown.of_same (SameTopics.of_eq rfl rfl))),
      stocked'.of_same (SameTopics.of_eq rfl rfl) (Nat.le_refl _)⟩

theorem handler_grown (stocked : Stocked b) (known : c < b.client.next)
    (decodable : Decodable (Command.ctype command)) (done : command.handler env b c = .returned (rc,b')) :
    Grown b b' ∧ Stocked b' := by
  have next : b.client.next ≤ b'.client.next := le_of_eq (handler_local decodable done).next.symm
  have kept (same : SameTopics b b') : Grown b b' ∧ Stocked b' := ⟨Grown.of_same same,stocked.of_same same next⟩
  rcases decodable_command decodable with rfl | rfl | rfl | rfl
  · exact kept (connectHandler_store done).sameTopics
  · exact kept (publishHandler_store done).sameTopics
  · exact kept (pingreqHandler_store done).sameTopics
  · exact subscribeHandler_grown stocked known done

/-- A PUBLISH that was passed on: its sender, the packet, the topic it went to and its bytes. -/
structure Passed where
  client : Nat
  pkt : Publish
  topic : Nat
  bytes : List UInt8

/-- The packets among them that one client sent. -/
def sentBy (c : Nat) (passed : List Passed) : List Publish :=
  (passed.filter fun p => p.client = c).map Passed.pkt

/-- The bytes that went to one topic. -/
def bytesOn (t : Nat) (passed : List Passed) : List (List UInt8) :=
  (passed.filter fun p => p.topic = t).map Passed.bytes

/-- A PUBLISH request with a topic. -/
def publishOf (c : Nat) : Event → Option Publish
  | .call .publish d (some (.publish p)) => if d = c ∧ p.topicLen ≠ 0 then some p else none
  | _ => none

def asked (c : Nat) (past : List Label) : List Publish := (past.flatMap Label.events).filterMap (publishOf c)

/-- The PUBLISH that the client's reply handler has still to pass on. -/
def pending (b : Broker) (c : Nat) : List Publish :=
  match (b.client.cell c).reply with
  | some ⟨_,_,.publish p,_⟩ => [p]
  | _ => []

def writtenTo (t : Nat) (fd : Fd) : Event → Option (List UInt8)
  | .publish t' fd' _ bytes => if t' = t ∧ fd' = fd then some bytes else none
  | _ => none

/-- What `publish_message` writes to a descriptor for a topic, in order. -/
def stream (t : Nat) (fd : Fd) (past : List Label) : List (List UInt8) :=
  (past.flatMap Label.events).filterMap (writtenTo t fd)

/-- How many subscriptions of a topic lead to a descriptor. -/
def leads (b : Broker) (t : Nat) (fd : Fd) : Nat :=
  (b.topic.cell t).subscribers.nodes.countP fun s => b.fd s.client = fd

/-- Clients keep their descriptors. -/
def SameFds (b b' : Broker) : Prop := b.client.next ≤ b'.client.next ∧ ∀ p, p < b.client.next → b'.fd p = b.fd p

/-- Publications of a topic are written to a descriptor as often as subscriptions lead to it. -/
theorem publications_written (b : Broker) (t t' : Nat) (fd : Fd) (bytes : List UInt8) (subs : List Subscription) :
    (publications b t' bytes subs).filterMap (writtenTo t fd) =
      if t' = t then List.replicate (subs.countP fun s => b.fd s.client = fd) bytes else [] := by
  induction subs with
  | nil => simp [publications]
  | cons s subs ih =>
    have rest : publications b t' bytes (s :: subs) = .publish t' (b.fd s.client)
        (b.kernel.connection (b.fd s.client)) bytes :: publications b t' bytes subs := rfl
    rw [rest,List.filterMap_cons,ih]
    by_cases topic : t' = t
    · by_cases here : b.fd s.client = fd
      · simp [writtenTo,topic,here,List.replicate_succ]
      · simp [writtenTo,topic,here]
    · simp [writtenTo,topic]

theorem replies_unwritten (replies : ∀ event ∈ events, IsReply event) (t : Nat) (fd : Fd) :
    events.filterMap (writtenTo t fd) = [] := by
  rw [List.filterMap_eq_nil_iff]
  intro event member
  obtain ⟨fd',peer,bytes,rfl⟩ := replies event member
  rfl

theorem replies_unasked (replies : ∀ event ∈ events, IsReply event) (c : Nat) :
    events.filterMap (publishOf c) = [] := by
  rw [List.filterMap_eq_nil_iff]
  intro event member
  obtain ⟨fd',peer,bytes,rfl⟩ := replies event member
  rfl

theorem publications_unasked (b : Broker) (t : Nat) (bytes : List UInt8) (subs : List Subscription) (c : Nat) :
    (publications b t bytes subs).filterMap (publishOf c) = [] := by
  rw [List.filterMap_eq_nil_iff]
  intro event member
  obtain ⟨s,_,rfl⟩ := List.mem_map.mp member
  rfl

/-- The message went to a topic of the name in its packet, with the bytes that packing gives. -/
def Proper (b : Broker) (p : Passed) : Prop :=
  p.topic < b.topic.next ∧ (b.topic.cell p.topic).name = cstr p.pkt.topic ∧ ∃ env, p.bytes = publishBytes env p.pkt

theorem Proper.grown (proper : Proper b p) (grown : Grown b b') : Proper b' p :=
  ⟨proper.1.trans_le grown.next,(grown.name _ proper.1).trans proper.2.1,proper.2.2⟩

/-- What one step does: it passes on some messages, writes them to the subscribers, and moves PUBLISH requests on
from their arrival over the pending reply to the messages passed on. -/
structure Moved (b : Broker) (events : List Event) (b' : Broker) (new : List Passed) : Prop where
  grown : Grown b b'
  stocked : Stocked b'
  fds : SameFds b b'
  proper : ∀ p ∈ new, Proper b' p
  old : ∀ c, c < b.client.next → pending b c ++ events.filterMap (publishOf c) = sentBy c new ++ pending b' c
  fresh : ∀ c, b.client.next ≤ c → events.filterMap (publishOf c) = [] ∧ sentBy c new = [] ∧
    (c < b'.client.next → pending b' c = [])
  written : ∀ t fd, t < b.topic.next →
    events.filterMap (writtenTo t fd) = (bytesOn t new).flatMap (List.replicate (leads b t fd))

theorem idle_moved (stocked : Stocked b) (idle : Idle b b') : Moved b [] b' [] where
  grown := Grown.of_same idle.store.sameTopics
  stocked := stocked.of_same idle.store.sameTopics idle.next
  fds := ⟨idle.next,fun p known => (idle.old p known).fd⟩
  proper p member := absurd member List.not_mem_nil
  old c known := by
    have same : pending b' c = pending b c := by rw [pending,(idle.old c known).reply,pending]
    simp [same,sentBy]
  fresh c unknown := by
    refine ⟨rfl,rfl,fun known => ?_⟩
    rw [pending,(idle.new c unknown known).1]
  written t fd _ := rfl

/-- A step for one client that passes nothing on. -/
theorem touched_moved (known : c < b.client.next) (touched : Touched c { b with kernel := k } b')
    (grown : Grown b b') (stocked : Stocked b')
    (proper : ∀ p ∈ new, Proper b' p)
    (own : pending b c ++ events.filterMap (publishOf c) = sentBy c new ++ pending b' c)
    (others : ∀ d, d ≠ c → events.filterMap (publishOf d) = [] ∧ sentBy d new = [])
    (written : ∀ t fd, t < b.topic.next →
      events.filterMap (writtenTo t fd) = (bytesOn t new).flatMap (List.replicate (leads b t fd))) :
    Moved b events b' new where
  grown := grown
  stocked := stocked
  fds := ⟨le_of_eq touched.next.symm,fun p _ => touched.fd p⟩
  proper := proper
  old d _ := by
    by_cases same : d = c
    · subst same
      exact own
    · have kept : pending b' d = pending b d := by
        rw [pending,touched.reply d same,pending]
      simp [others d same,kept]
  fresh d unknown := by
    have apart : d ≠ c := Nat.ne_of_gt (known.trans_le unknown)
    refine ⟨(others d apart).1,(others d apart).2,fun inside => ?_⟩
    rw [touched.next] at inside
    exact absurd inside (Nat.not_lt.mpr unknown)
  written := written

/-- A request that names a topic to publish to is pending after its step. -/
theorem asked_pending (asked : Asked env fd none command pkt reply) (stored : (b'.client.cell c).reply = reply) :
    [Event.call command c (some pkt)].filterMap (publishOf c) = pending b' c := by
  unfold pending
  rw [stored]
  cases asked with
  | publish topic => simp [publishOf,topic]
  | nothing empty => simp [publishOf,empty]
  | connect | pingreq | subscribe => rfl

theorem request_moved (stocked : Stocked b) (ready : Ready b) (serving : Serving b c .request k)
    (decodable : Decodable (Command.ctype command))
    (handled : command.handler env (linked env { b with kernel := k } c pkt) c = .returned (rc,b₁)) :
    Moved b [.call command c (some pkt)] (awaitReply b₁ (b.fd c) c) [] := by
  have quiet : (b.client.cell c).reply = none := ready c serving.known serving.handler
  have before : SameTopics b (linked env { b with kernel := k } c pkt) := SameTopics.of_eq rfl rfl
  have after : SameTopics b₁ (awaitReply b₁ (b.fd c) c) := SameTopics.of_eq rfl rfl
  obtain ⟨grown,stocked⟩ := handler_grown (stocked.of_same before (Nat.le_refl _)) serving.known decodable handled
  have asked := handler_asked decodable (linked_ptr env _ c pkt) handled
  rw [linked_reply,quiet] at asked
  refine touched_moved serving.known (request_touched decodable handled)
    (((Grown.of_same before).trans grown).trans (Grown.of_same after)) (stocked.of_same after (Nat.le_refl _))
    (fun p member => absurd member List.not_mem_nil) ?_ ?_ ?_
  · rw [asked_pending asked (awaitReply_reply b₁ (b.fd c) c),pending,quiet]
    rfl
  · intro d apart
    refine ⟨?_,rfl⟩
    cases command with
    | publish => cases pkt <;> simp [publishOf,Ne.symm apart]
    | _ => rfl
  · intro t fd _
    rfl

theorem findTopic_leads (stocked : Stocked b) (found : findTopic env b name = .returned (t,b'))
    (known : t' < b.topic.next) (fd : Fd) : leads b' t' fd = leads b t' fd := by
  have client := findTopic_client found
  unfold leads Broker.fd
  obtain ⟨_,same | added⟩ := findTopic_topic stocked.named found
  · rw [same,client]
  · rw [added,Heap.alloc_old _ _ _ (Nat.ne_of_lt known),client]

/-- An acknowledgement passes nothing on. -/
theorem reply_acked (stocked : Stocked b) (serving : Serving b c .reply k) (held : (b.client.cell c).reply = some r)
    (body : r.body = .payload payload) (touched : Touched c { b with kernel := k } (finishReply b₁ c))
    (same : SameTopics b b₁) (replies : ∀ event ∈ events, IsReply event) : Moved b events (finishReply b₁ c) [] := by
  have same : SameTopics b (finishReply b₁ c) := same.trans (SameTopics.of_eq rfl rfl)
  refine touched_moved serving.known touched (Grown.of_same same) (stocked.of_same same (le_of_eq touched.next.symm))
    (fun p member => absurd member List.not_mem_nil) ?_ (fun d _ => ⟨replies_unasked replies d,rfl⟩)
    fun t fd _ => replies_unwritten replies t fd
  have before : pending b c = [] := by
    obtain ⟨opcode,fd,_,retained⟩ := r
    obtain rfl := body
    rw [pending,held]
  rw [before,replies_unasked replies c]
  simp [pending,finishReply,sentBy]

/-- A PUBLISH is passed on to the topic that was found for it. -/
theorem reply_published (stocked : Stocked b) (serving : Serving b c .reply k) (held : (b.client.cell c).reply = some r)
    (body : r.body = .publish p) (found : findTopic env { b with kernel := k } (cstr p.topic) = .returned (t,b₁))
    (touched : Touched c { b with kernel := k } (finishReply (updateClientLastAction env (published env b₁ t p) c) c)) :
    Moved b (publications b₁ t (publishBytes env p) (b₁.topic.cell t).subscribers.nodes ++ pubackTo env b₁ r.fd p)
      (finishReply (updateClientLastAction env (published env b₁ t p) c) c) [⟨c,p,t,publishBytes env p⟩] := by
  have disarmed : SameTopics b { b with kernel := k } := SameTopics.of_eq rfl rfl
  have stocked := stocked.of_same disarmed (Nat.le_refl _)
  obtain ⟨grown,stocked₁⟩ := findTopic_grown stocked found
  have same : SameTopics b₁ (finishReply (updateClientLastAction env (published env b₁ t p) c) c) :=
    (published_same env b₁ t p).1.trans (SameTopics.of_eq rfl rfl)
  have next : b₁.client.next ≤ (finishReply (updateClientLastAction env (published env b₁ t p) c) c).client.next := by
    rw [findTopic_client found]
    exact le_of_eq touched.next.symm
  have acks := pubackTo_replies env b₁ r.fd p
  refine touched_moved serving.known touched (((Grown.of_same disarmed).trans grown).trans (Grown.of_same same))
    (stocked₁.of_same same next) ?_ ?_ ?_ ?_
  · intro q member
    obtain rfl := List.mem_singleton.mp member
    refine Proper.grown ⟨?_,?_,env,rfl⟩ (Grown.of_same same)
    · exact (findTopic_topic stocked.named found).1
    · exact (findTopic_extends stocked.named found).2
  · have before : pending b c = [p] := by
      obtain ⟨opcode,fd,_,retained⟩ := r
      obtain rfl := body
      rw [pending,held]
    rw [before,List.filterMap_append,publications_unasked,replies_unasked acks]
    simp [pending,finishReply,sentBy]
  · intro d apart
    rw [List.filterMap_append,publications_unasked,replies_unasked acks]
    exact ⟨rfl,by simp [sentBy,Ne.symm apart]⟩
  · intro t' fd known
    rw [List.filterMap_append,publications_written,replies_unwritten acks]
    by_cases topic : t = t'
    · subst topic
      have count : leads b₁ t fd = leads b t fd := findTopic_leads stocked found known fd
      rw [if_pos rfl,← count]
      simp [bytesOn,leads]
    · simp [bytesOn,topic]

theorem reply_moved (stocked : Stocked b) (serving : Serving b c .reply k) (held : (b.client.cell c).reply = some r)
    (delivered : (deliverReply env { b with kernel := k } c r).outcome = .returned (rc,b₁)) :
    ∃ new, Moved b (deliverReply env { b with kernel := k } c r).events (finishReply b₁ c) new := by
  have touched := (Touched.of_local (deliverReply_local delivered)).trans (finishReply_touched b₁ c)
  rcases deliverReply_shape delivered with ⟨p,t,b₂,_,body,found,shown,rfl⟩ | ⟨payload,m,body,_,_,shown,rfl⟩ |
    ⟨payload,body,_,shown,rfl⟩
  · rw [shown]
    exact ⟨_,reply_published stocked serving held body found touched⟩
  · rw [shown]
    exact ⟨_,reply_acked stocked serving held body touched (SameTopics.of_eq rfl rfl) (by simp [IsReply])⟩
  · rw [shown]
    exact ⟨_,reply_acked stocked serving held body touched (SameTopics.of_eq rfl rfl) (by simp [IsReply])⟩

theorem progress_moved (stocked : Stocked b) (ready : Ready b) (progress : Progress env b who events b') :
    ∃ new, Moved b events b' new := by
  cases progress with
  | idle idle => exact ⟨[],idle_moved stocked idle⟩
  | @unknown c k pkt serving turn =>
    have same : SameTopics b (awaitReply (linked env { b with kernel := k } c pkt) (b.fd c) c) :=
      SameTopics.of_eq rfl rfl
    refine ⟨[],touched_moved serving.known (unknown_touched env b c k pkt) (Grown.of_same same)
      (stocked.of_same same (Nat.le_refl _)) (fun p member => absurd member List.not_mem_nil) ?_ (fun _ _ => ⟨rfl,rfl⟩)
      fun _ _ _ => rfl⟩
    have kept : pending (awaitReply (linked env { b with kernel := k } c pkt) (b.fd c) c) c = pending b c := by
      rw [pending,awaitReply_reply,linked_reply,pending]
    simp [kept,sentBy]
  | request serving _ decodable handled => exact ⟨[],request_moved stocked ready serving decodable handled⟩
  | reply serving _ held delivered => exact reply_moved stocked serving held delivered

/-- A worker whose clients lie away from the low addresses. -/
def served (accepted : Accepted) (fd : Fd) : Action := .event ⟨fun c => 64 + 16 * c,5,accepted⟩ fd .ready

/-- A client at descriptor 4 subscribes to `a`. -/
def subscribeScript : List (Env × Action) :=
  [(plainEnv,served (.taken 4 ⟨[.bytes 0x80 [0,0,0,9,0,1,0,97]],.quiet⟩) 3),(plainEnv,served .refused 4),
    (plainEnv,served .refused 4)]

/-- The same client publishes to `a`. -/
def publishScript : List (Env × Action) :=
  [(plainEnv,.arrive 4 ⟨[.bytes 0x30 [0,0,0,16,0,1,0,0,0,1,0,0,0,97,98]],.quiet⟩),(plainEnv,served .refused 4),
    (plainEnv,served .refused 4)]

def subscribed : Broker := follow (startServer 3) subscribeScript

end Sizigy.Ordering
