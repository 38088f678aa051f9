import Sizigy.RetainedLaw

/-! Topics keep their identity and do not disturb each other. A SUBSCRIBE or a PUBLISH adds at
most its own topic to the map, and neither probing nor growth moves another name to another
topic; what it writes, it writes to the topic of its own name. -/
namespace Sizigy.TopicIdentity

open ExactlyOnce Machine RetainedLaw

variable {env : Env} {b b' b₁ : Broker} {c t : Nat} {name : CString} {past : List Turn} {turn : Turn}

def topicName : Request → CString
  | .subscribe _ pkt => cstr pkt.topic
  | .unsubscribe _ pkt => cstr pkt.topic
  | .publish _ p => cstr p.topic

/-- One SUBSCRIBE or PUBLISH on a topic, run to its end. -/
def Ran (b : Broker) (turn : Turn) (b' : Broker) : Prop :=
  (∀ c pkt, turn.request ≠ .unsubscribe c pkt) ∧ Served (fun _ => True) b turn b'

/-- The retained messages of the stored topics are there, each for one topic. -/
structure Separate (b : Broker) : Prop where
  shelved : Shelved b
  earlier : ∀ name m, retainedOf b name = some m → m < b.message.next
  distinct : ∀ name name' m, retainedOf b name = some m → retainedOf b name' = some m → name = name'

theorem start_separate (empty : b.topics = hashmapCreate) : Separate b := by
  have nothing (name : CString) : retainedOf b name = none := (start_keeps empty).kept name
  refine ⟨(empty_shelved empty).1,?_,?_⟩
  · intro name m found
    simp [nothing] at found
  · intro name name' m found
    simp [nothing] at found

theorem Separate.congr (separate : Separate b) (shelved : Shelved b')
    (retained : ∀ name, retainedOf b' name = retainedOf b name) (message : b'.message = b.message) : Separate b' where
  shelved := shelved
  earlier := by simpa only [retained,message] using separate.earlier
  distinct := by simpa only [retained] using separate.distinct

/-- What a request on a name may do to the map, the topics and the retained messages. -/
structure Confined (name : CString) (b b' : Broker) : Prop where
  kept : ∀ name' t, b.topics.lookup name' = some t → b'.topics.lookup name' = some t
  others : ∀ name', name' ≠ name → b'.topics.lookup name' = b.topics.lookup name'
  topic : ∀ name' t, name' ≠ name → b.topics.lookup name' = some t → b'.topic.cell t = b.topic.cell t
  message : ∀ name' m, name' ≠ name → retainedOf b name' = some m → b'.message.cell m = b.message.cell m

namespace Confined

theorem of_same (same : SameStore b b') : Confined name b b' where
  kept _ _ found := by rw [same.topics,found]
  others _ _ := by rw [same.topics]
  topic _ _ _ _ := by rw [same.topic]
  message _ _ _ _ := by rw [same.message]

theorem retained (confined : Confined name b b') (other : name' ≠ name) :
    retainedOf b' name' = retainedOf b name' := by
  rw [retainedOf,confined.others name' other,retainedOf]
  cases found : b.topics.lookup name' with
  | none => rfl
  | some t => simp [confined.topic name' t other found]

theorem trans (first : Confined name b b₁) (second : Confined name b₁ b') : Confined name b b' where
  kept name' t found := second.kept name' t (first.kept name' t found)
  others name' other := (second.others name' other).trans (first.others name' other)
  topic name' t other found :=
    (second.topic name' t other (first.kept name' t found)).trans (first.topic name' t other found)
  message name' m other found :=
    (second.message name' m other ((first.retained other).trans found)).trans (first.message name' m other found)

end Confined

/-- A part of a request that keeps the topics separate and writes to its own only. -/
def Keeps (name : CString) (b b' : Broker) : Prop := Separate b → Confined name b b' ∧ Separate b'

theorem Keeps.trans (first : Keeps name b b₁) (second : Keeps name b₁ b') : Keeps name b b' := by
  intro separate
  obtain ⟨confined,separate₁⟩ := first separate
  obtain ⟨confined',separate'⟩ := second separate₁
  exact ⟨confined.trans confined',separate'⟩

theorem same_keeps (same : SameStore b b') : Keeps name b b' := by
  intro separate
  exact ⟨.of_same same,separate.congr (separate.shelved.of_same same.sameTopics) (same_retainedOf same) same.message⟩

theorem findTopic_keeps (memory : env.calloc = fun _ => true)
    (found : findTopic env b name = .returned (t,b')) : Keeps name b b' := by
  intro separate
  have message := findTopic_message found
  have retained := findTopic_retainedOf separate.shelved memory found
  obtain ⟨shelved,here,others,source⟩ := findTopic_stored separate.shelved memory found
  refine ⟨⟨fun name' t' stored => ?_,others,fun name' t' other stored => ?_,fun _ _ _ _ => by rw [message]⟩,
    separate.congr shelved retained message⟩
  · by_cases own : name' = name
    · subst own
      rcases source with ⟨before,_⟩ | ⟨absent,_⟩
      · rw [here,← before,stored]
      · simp [absent] at stored
    · rw [others name' own,stored]
  · rcases source with ⟨_,topic⟩ | ⟨_,_,topic⟩
    · rw [topic]
    · rw [topic,Heap.alloc_old _ _ t' (Nat.ne_of_lt (separate.shelved.known stored).1)]

theorem addSubscriber_keeps (done : addSubscriber env b s = .returned b') : Keeps s.topic b b' := by
  intro separate
  obtain ⟨message,lookup,_⟩ := addSubscriber_retained done
  have retained := addSubscriber_retainedOf done
  have shelved' := (addSubscriber_shelved separate.shelved done).1
  obtain ⟨t,b₁,got,rfl⟩ := addSubscriber_cases done
  obtain ⟨_,found,_,topic⟩ := getTopic_shelved separate.shelved got
  refine ⟨⟨fun name' t' stored => by rw [lookup,stored],fun name' _ => by rw [lookup],fun name' t' other stored => ?_,
    fun _ _ _ _ => by rw [message]⟩,separate.congr shelved' retained message⟩
  have apart := separate.shelved.apart found.symm stored other
  rw [insertSubscriber,b₁.setTopic_other t t' _ apart,topic]

/-- Replacing a retained message frees that of its own topic at most. -/
theorem replaced_keeps (found : b.topics.lookup name = some t) (shelved' : Separate b → Shelved b')
    (replaced : Replaced b t p b') : Keeps name b b' := by
  intro separate
  have current : retainedOf b name = (b.topic.cell t).retained := retainedOf_some found
  have new : retainedOf b' name = some b.message.next := by
    rw [retainedOf_some (by rw [replaced.topics]; exact found),replaced.retained]
  have confined : Confined name b b' := by
    refine ⟨fun name' t' stored => by rw [replaced.topics,stored],fun name' _ => by rw [replaced.topics],
      fun name' t' other stored => replaced.other t' (separate.shelved.apart found stored other),
      fun name' m other retained => replaced.kept m ?_ fun shared => ?_⟩
    · exact Nat.ne_of_lt (separate.earlier name' m retained)
    · exact other (separate.distinct name' name m retained (current.trans shared))
  have earlier (name' : CString) (m : Nat) (other : name' ≠ name) (retained : retainedOf b' name' = some m) :
      m < b.message.next := separate.earlier name' m ((confined.retained other).symm.trans retained)
  refine ⟨confined,shelved' separate,fun name' m retained => ?_,fun first second m one two => ?_⟩
  · rw [replaced.grown]
    by_cases own : name' = name
    · subst own
      obtain rfl := Option.some.inj (new.symm.trans retained)
      exact Nat.lt_succ_self _
    · exact Nat.lt_succ_of_lt (earlier name' m own retained)
  · by_cases own : first = name <;> by_cases own' : second = name
    · rw [own,own']
    · subst own
      obtain rfl := Option.some.inj (new.symm.trans one)
      exact absurd (earlier second _ own' two) (Nat.lt_irrefl _)
    · subst own'
      obtain rfl := Option.some.inj (new.symm.trans two)
      exact absurd (earlier first _ own one) (Nat.lt_irrefl _)
    · exact separate.distinct first second m ((confined.retained own).symm.trans one)
        ((confined.retained own').symm.trans two)

theorem published_keeps (env : Env) (p : Publish) (found : b.topics.lookup name = some t) :
    Keeps name b (published env b t p) := by
  unfold published
  generalize (b.topic.cell t).subscribers.nodes = subs
  by_cases retain : p.retain = 0
  · rw [if_pos retain]
    exact same_keeps (touchAll_same env b subs)
  · rw [if_neg retain]
    have replaced : Keeps name b (retainMessage b t p) := replaced_keeps found
      (fun separate => separate.shelved.of_same (retainMessage_same b t p).1) (retainMessage_replaced b t p)
    exact replaced.trans (same_keeps (touchAll_same env _ subs))

theorem subscribeHandler_keeps (separate : Separate b) (memory : env.calloc = fun _ => true)
    (stored : (b.client.cell c).ptr = some (.subscribe pkt)) (topic : pkt.topicLen ≠ 0)
    (done : subscribeHandler env b c = .returned (rc,b')) :
    Confined (cstr pkt.topic) b b' ∧ Separate b' ∧ ∃ t, b'.topics.lookup (cstr pkt.topic) = some t := by
  obtain ⟨pkt',stored',⟨empty,_⟩ | ⟨_,t,b₁,b₂,found,added,rfl⟩⟩ := subscribeHandler_cases done
  all_goals obtain rfl := Packet.subscribe.inj (Option.some.inj (stored.symm.trans stored'))
  · exact absurd empty topic
  · obtain ⟨confined₁,separate₁⟩ := findTopic_keeps memory found separate
    have here := (findTopic_stored separate.shelved memory found).2.1
    have named := (separate₁.shelved.known here).2
    have acked : Keeps (cstr pkt.topic) b₁ (setAckReply env b₁ c Opcode.suback 0) := same_keeps ⟨rfl,rfl,rfl⟩
    have joined := addSubscriber_keeps added
    simp only [named] at joined
    have rest : Keeps (cstr pkt.topic) b₁ (b₂.setClient c fun k =>
        { k with reply := k.reply.map fun r => { r with retained := (b₂.topic.cell t).retained } }) :=
      acked.trans (joined.trans (same_keeps ⟨rfl,rfl,rfl⟩))
    obtain ⟨confined₂,separate₂⟩ := rest separate₁
    exact ⟨confined₁.trans confined₂,separate₂,t,confined₂.kept _ t here⟩

/-- Sending an acknowledgement, with or without a retained message, stores nothing. -/
theorem replyHandler_ack_store (pending : AckPending b c)
    (done : (replyHandler env b c).outcome = .returned (rc,b')) : SameStore b b' := by
  obtain ⟨reply,payload,set,body⟩ := pending
  rcases replyHandler_cases done with ⟨nothing,_⟩ | ⟨reply',b₁,set',delivered,_,rfl⟩
  · simp [set] at nothing
  · obtain rfl := Option.some.inj (set.symm.trans set')
    rcases deliverReply_shape delivered with ⟨p,_,_,_,body',_⟩ | ⟨_,_,_,_,_,_,rfl⟩ | ⟨_,_,_,_,rfl⟩
    · simp [body] at body'
    · exact ⟨rfl,rfl,rfl⟩
    · exact ⟨rfl,rfl,rfl⟩

theorem replyHandler_publish_keeps (separate : Separate b) (memory : env.calloc = fun _ => true)
    (pending : (b.client.cell c).reply = some ⟨Opcode.publish,fd,.publish p,retained⟩)
    (done : (replyHandler env b c).outcome = .returned (rc,b')) :
    Confined (cstr p.topic) b b' ∧ Separate b' ∧ ∃ t, b'.topics.lookup (cstr p.topic) = some t := by
  rcases replyHandler_cases done with ⟨nothing,_⟩ | ⟨reply,b₁,pending',delivered,_,rfl⟩
  · simp [pending] at nothing
  · obtain rfl := Option.some.inj (pending.symm.trans pending')
    rcases deliverReply_shape delivered with ⟨p',t,b₂,_,body,found,_,rfl⟩ | ⟨_,_,body,_⟩ | ⟨_,body,_⟩
    · obtain rfl := ReplyBody.publish.inj body
      obtain ⟨confined₁,separate₁⟩ := findTopic_keeps memory found separate
      have here := (findTopic_stored separate.shelved memory found).2.1
      have rest : Keeps (cstr p.topic) b₂ (finishReply (updateClientLastAction env (published env b₂ t p) c) c) :=
        (published_keeps env p here).trans (same_keeps ⟨rfl,rfl,rfl⟩)
      obtain ⟨confined₂,separate₂⟩ := rest separate₁
      exact ⟨confined₁.trans confined₂,separate₂,t,confined₂.kept _ t here⟩
    · simp at body
    · simp at body

/-- One request, from its handler to the end of the reply handler. -/
theorem ran_keeps (separate : Separate b) (ran : Ran b turn b') :
    Confined (topicName turn.request) b b' ∧ Separate b' ∧
      ∃ t, b'.topics.lookup (topicName turn.request) = some t := by
  obtain ⟨pubsub,served⟩ := ran
  have topic := served.topic
  have memory := served.memory
  obtain ⟨rc,b₁,rc',handled,replied,_⟩ := handle_cases served.outcome
  have begun (name : CString) : Keeps name b (linked turn.env b turn.request.client turn.request.packet) :=
    same_keeps ⟨rfl,rfl,rfl⟩
  have waiting : SameStore b₁ (awaitReply b₁ (b.fd turn.request.client) turn.request.client) := ⟨rfl,rfl,rfl⟩
  cases request : turn.request with
  | subscribe c pkt =>
    simp only [request,Request.client,Request.packet,Request.command,Request.topicLen,topicName] at *
    obtain ⟨confined,separate₀⟩ := begun (cstr pkt.topic) separate
    obtain ⟨confined₁,separate₁,t,here⟩ :=
      subscribeHandler_keeps separate₀ memory (linked_ptr turn.env b c _) topic handled
    have acking := (subscribeHandler_lists separate₀.shelved memory (linked_ptr turn.env b c _) topic handled).2.1
    have pending : AckPending (awaitReply b₁ (b.fd c) c) c := by simpa [AckPending,awaitReply_reply] using acking
    obtain ⟨confined₂,separate₂⟩ := same_keeps (waiting.trans (replyHandler_ack_store pending replied)) separate₁
    exact ⟨(confined.trans confined₁).trans confined₂,separate₂,t,confined₂.kept _ t here⟩
  | unsubscribe c pkt => exact absurd request (pubsub c pkt)
  | publish c p =>
    simp only [request,Request.client,Request.packet,Request.command,Request.topicLen,topicName] at *
    obtain ⟨confined,separate₀⟩ := begun (cstr p.topic) separate
    obtain ⟨p',stored,_,_,pending⟩ := publishHandler_local handled
    obtain rfl := Packet.publish.inj (Option.some.inj ((linked_ptr turn.env b c _).symm.trans stored))
    have pending := pending topic
    rw [← awaitReply_reply b₁ (b.fd c) c] at pending
    have queued : Keeps (cstr p.topic) _ (awaitReply b₁ (b.fd c) c) :=
      same_keeps ((publishHandler_store handled).trans waiting)
    obtain ⟨confined₁,separate₁⟩ := queued separate₀
    obtain ⟨confined₂,separate₂,created⟩ := replyHandler_publish_keeps separate₁ memory pending replied
    exact ⟨(confined.trans confined₁).trans confined₂,separate₂,created⟩

theorem run_separate (separate : Separate b) (run : Run (fun _ => Ran) b past b') :
    Separate b' ∧ ∀ name t, b.topics.lookup name = some t → b'.topics.lookup name = some t := by
  refine run.invariant (fun _ b' => Separate b' ∧ ∀ name t, b.topics.lookup name = some t →
    b'.topics.lookup name = some t) ⟨separate,fun _ _ found => found⟩ ?_
  intro past b₁ turn b₂ _ before ran
  obtain ⟨confined,separate₂,_⟩ := ran_keeps before.1 ran
  exact ⟨separate₂,fun name t found => confined.kept name t (before.2 name t found)⟩

/-- `hashmap_get(db->topics, name)` returns the topic. -/
def Gets (b : Broker) (name : CString) (t : Nat) : Prop :=
  hashmapGet .ignored b.topics name = .returned (some t,b.topics)

theorem gets_iff : Gets b name t ↔ b.topics.lookup name = some t := by
  simp [Gets,hashmapGet,pthreadMutexLock,pthreadMutexUnlock]

/-- Along every run of SUBSCRIBEs and PUBLISHes: a request creates the topic of its name if
there is none, a topic that was created is found under its name ever after, and a request
leaves the subscribers and the retained message of every other topic as they are. -/
theorem topics_identified_and_isolated (empty : start.topics = hashmapCreate)
    (run : Run (fun _ => Ran) start past b) :
    (∀ name t, Gets b name t → ∀ later b', Run (fun _ => Ran) b later b' →
      Gets b' name t ∧ (b'.topic.cell t).name = name) ∧
    ∀ turn b', Ran b turn b' → (∃ t, Gets b' (topicName turn.request) t) ∧
      ∀ name t, name ≠ topicName turn.request → Gets b name t →
        (b'.topic.cell t).subscribers = (b.topic.cell t).subscribers ∧
        (b'.topic.cell t).retained = (b.topic.cell t).retained ∧
        ∀ m, (b.topic.cell t).retained = some m → b'.message.cell m = b.message.cell m := by
  have separate := (run_separate (start_separate empty) run).1
  simp only [gets_iff]
  constructor
  · intro name t found later b' continued
    obtain ⟨separate',kept⟩ := run_separate separate continued
    exact ⟨kept name t found,(separate'.shelved.known (kept name t found)).2⟩
  · intro turn b' ran
    obtain ⟨confined,_,created⟩ := ran_keeps separate ran
    refine ⟨created,fun name t other found => ?_⟩
    have same := confined.topic name t other found
    refine ⟨congrArg Topic.subscribers same,congrArg Topic.retained same,fun m retained => ?_⟩
    exact confined.message name m other ((retainedOf_some found).trans retained)

def subscribeB : Request := .subscribe 1 ⟨⟨Opcode.subscribe,9⟩,1,0,[98]⟩

/-- A SUBSCRIBE to `b` after a PUBLISH to `a` that is retained. -/
theorem subscribeB_apart : ∃ t t', t ≠ t' ∧ Gets (afterRequest kept subscribeB) (cstr [97]) t ∧
    Gets (afterRequest kept subscribeB) (cstr [98]) t' ∧
    ((afterRequest kept subscribeB).topic.cell t).retained = some 0 ∧
    ((afterRequest kept subscribeB).topic.cell t').subscribers.len = 1 := by
  have first : Ran pair (turnOf pair (.publish 2 retainA)) kept :=
    ⟨by simp [turnOf],served_after trivial (by decide) (by decide +kernel)⟩
  have second : Ran kept (turnOf kept subscribeB) (afterRequest kept subscribeB) :=
    ⟨by simp [turnOf,subscribeB],served_after trivial (by decide) (by decide +kernel)⟩
  obtain ⟨identified,isolated⟩ := topics_identified_and_isolated rfl (Run.nil.snoc first)
  have stored : Gets kept (cstr [97]) 0 := gets_iff.mpr (by decide +kernel)
  obtain ⟨found,_⟩ := identified _ 0 stored _ _ (Run.nil.snoc second)
  obtain ⟨_,others⟩ := isolated _ _ second
  obtain ⟨_,retained,_⟩ := others (cstr [97]) 0 (by decide) stored
  refine ⟨0,1,by decide,found,gets_iff.mpr (by decide +kernel),retained.trans (by decide +kernel),by decide +kernel⟩

end Sizigy.TopicIdentity
