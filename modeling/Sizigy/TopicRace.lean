import Sizigy.Machine
import Sizigy.TopicStore

/-! Workers that use topics at the same time. `subscribe_handler` and the PUBLISH branch of
`reply_handler` are cut at each `hashmap_get`, each `hashmap_put` and the insertion under the
lock, and the pieces of different workers run in any order. A subscription that was answered
stays in the topic the map holds, as long as no put replaces a topic that is in use. -/
namespace Sizigy.TopicRace

inductive Job where
  | subscribe (c : Nat) (pkt : Subscribe)
  | publish (c : Nat) (fd : Fd) (p : Publish)

namespace Job

def name : Job → CString
  | .subscribe _ pkt => cstr pkt.topic
  | .publish _ _ p => cstr p.topic

end Job

/-- Where a worker stands: before its first `hashmap_get`, before the `hashmap_put` of the
topic it created, before `add_subscriber`, before the insertion into the topic that
`add_subscriber` looked up, before `publish_message`, or at the end with the code of the
answer. -/
inductive Phase where
  | begin
  | store (t : Nat)
  | answer (t : Nat)
  | insert (t u : Nat) (s : Subscription)
  | fanOut (t : Nat)
  | done (rc : UInt8)
  deriving DecidableEq

/-- The way on from the topic that was found or stored. -/
def Job.found (t : Nat) : Job → Phase
  | .subscribe _ _ => .answer t
  | .publish _ _ _ => .fanOut t

def firstGet (env : Env) (b : Broker) (job : Job) : Outcome (Broker × Phase) := do
  let (raw,b) ← getTopic env b job.name
  match raw with
  | some t => return (b,job.found t)
  | none =>
    let (t,b) := createTopic b job.name
    return (b,.store t)

/-- The rest of the PUBLISH branch once the topic is there. -/
def publishFound (env : Env) (b : Broker) (c : Nat) (fd : Fd) (p : Publish) (t : Nat) :
    Exec Event (Int × Broker) := do
  let (sent,b) ← publishMessage env b t p
  let b := if (sent : Int) > -1 then updateClientLastAction env b c else b
  if p.qos = 1 then
    let ret ← sendReply env b fd (ackBuffer env Opcode.puback 0)
    return (ret,b)
  else return (0,b)

/-- One piece of a worker's job. -/
def advance (env : Env) (b : Broker) : Job → Phase → Exec Event (Broker × Phase)
  | .subscribe c pkt, .begin =>
    if pkt.topicLen = 0 then pure (setAckReply env b c Opcode.suback 1,.done 1)
    else Exec.lift (firstGet env b (.subscribe c pkt))
  | .publish c fd p, .begin => Exec.lift (firstGet env b (.publish c fd p))
  | job, .store t => do return (← Exec.lift (putTopic env b job.name t),job.found t)
  | .subscribe c pkt, .answer t => do
    let b := setAckReply env b c Opcode.suback 0
    let s : Subscription := ⟨c,(b.topic.cell t).name,pkt.qos⟩
    let (raw,b) ← Exec.lift (getTopic env b s.topic)
    match raw with
    | none => Exec.lift .crashed
    | some u => return (b,.insert t u s)
  | .subscribe c _, .insert t u s =>
    let b := insertSubscriber b u s
    pure (b.setClient c fun k =>
      { k with reply := k.reply.map fun r => { r with retained := (b.topic.cell t).retained } },.done 0)
  | .publish c fd p, .fanOut t => do return ((← publishFound env b c fd p t).2,.done 0)
  | _, phase => pure (b,phase)

/-- A worker that runs its pieces without interruption. -/
def alone (env : Env) (job : Job) : Nat → Broker × Phase → Exec Event (Broker × Phase)
  | 0, s => pure s
  | n + 1, (b,phase) => do alone env job n (← advance env b job phase)

variable {env : Env} {b b' : Broker} {c : Nat}

theorem alone_done (env : Env) (job : Job) (n : Nat) (b : Broker) (rc : UInt8) :
    alone env job n (b,.done rc) = pure (b,.done rc) := by
  induction n with
  | zero => rfl
  | succ n ih =>
    have still : advance env b job (.done rc) = pure (b,.done rc) := by cases job <;> rfl
    rw [alone,still,Exec.pure_bind,ih]

/-- The rest of `subscribe_handler` once the topic is there. -/
def subscribeFound (env : Env) (c : Nat) (pkt : Subscribe) (found : Nat × Broker) : Outcome Broker := do
  let b := setAckReply env found.2 c Opcode.suback 0
  let b ← addSubscriber env b ⟨c,(b.topic.cell found.1).name,pkt.qos⟩
  return b.setClient c fun k =>
    { k with reply := k.reply.map fun r => { r with retained := (b.topic.cell found.1).retained } }

theorem alone_answer (env : Env) (c : Nat) (pkt : Subscribe) (n t : Nat) (b : Broker) :
    (alone env (.subscribe c pkt) (n + 2) (b,.answer t)).outcome =
      subscribeFound env c pkt (t,b) >>= fun b => .returned (b,.done 0) := by
  simp only [alone,advance,subscribeFound,addSubscriber,Exec.bind_outcome,Exec.lift_outcome,Outcome.bind_assoc]
  apply Outcome.bind_congr
  rintro ⟨raw,b₁⟩
  cases raw with
  | none => rfl
  | some u =>
    simp only [Outcome.returned_bind,Exec.pure_outcome,alone_done]
    rfl

/-- The first get and, where the topic is missing, its put are `findTopic`; what follows
does not depend on how many pieces are left over. -/
theorem alone_found (env : Env) (b : Broker) (job : Job) (n : Nat) (rest : Nat × Broker → Outcome (Broker × Phase))
    (follows : ∀ k t b, (alone env job (n + k) (b,job.found t)).outcome = rest (t,b)) :
    ((Exec.lift (firstGet env b job) : Exec Event _) >>= alone env job (n + 1)).outcome =
      findTopic env b job.name >>= rest := by
  simp only [firstGet,findTopic,Exec.bind_outcome,Exec.lift_outcome,Outcome.bind_assoc]
  apply Outcome.bind_congr
  rintro ⟨raw,b₁⟩
  cases raw with
  | some t => exact follows 1 t b₁
  | none =>
    have stores : advance env (createTopic b₁ job.name).2 job (.store b₁.topic.next) = (do
        return (← Exec.lift (putTopic env (createTopic b₁ job.name).2 job.name b₁.topic.next),
          job.found b₁.topic.next)) := by
      cases job <;> rfl
    change (alone env job (n + 1) ((createTopic b₁ job.name).2,.store b₁.topic.next)).outcome =
      (putTopic env (createTopic b₁ job.name).2 job.name b₁.topic.next >>= fun b =>
        .returned (b₁.topic.next,b)) >>= rest
    rw [alone,stores,Outcome.bind_assoc]
    simp only [Exec.bind_outcome,Exec.lift_outcome,Outcome.bind_assoc]
    apply Outcome.bind_congr
    exact follows 0 b₁.topic.next

/-- Uninterrupted, the pieces are `subscribe_handler`. -/
theorem alone_subscribe (stored : (b.client.cell c).ptr = some (.subscribe pkt)) :
    ((alone env (.subscribe c pkt) 4 (b,.begin)).outcome >>= fun s => .returned (0,s.1)) =
      subscribeHandler env b c := by
  simp only [subscribeHandler,stored]
  rw [alone]
  by_cases empty : pkt.topicLen = 0
  · simp only [advance,empty,if_true]
    rfl
  · simp only [advance,empty,if_false]
    rw [alone_found env b (.subscribe c pkt) 2 (fun found =>
      subscribeFound env c pkt found >>= fun b => .returned (b,.done 0)) fun k t b => ?_]
    · simp only [Job.name,subscribeFound,Outcome.bind_assoc]
      rfl
    · rw [Nat.add_comm]
      exact alone_answer env c pkt k t b

theorem alone_fanOut (env : Env) (c : Nat) (fd : Fd) (p : Publish) (k t : Nat) (b : Broker) :
    (alone env (.publish c fd p) (1 + k) (b,.fanOut t)).outcome =
      (publishFound env b c fd p t).outcome >>= fun s => .returned (s.2,.done 0) := by
  rw [Nat.add_comm,alone]
  simp only [advance,Exec.bind_outcome,Exec.pure_outcome,Outcome.bind_assoc]
  apply Outcome.bind_congr
  intro s
  rw [Outcome.returned_bind,alone_done]
  rfl

/-- Uninterrupted, the pieces are the PUBLISH branch of `reply_handler`. -/
theorem alone_publish (env : Env) (b : Broker) (c : Nat) (fd : Fd) (p : Publish) :
    (alone env (.publish c fd p) 3 (b,.begin)).outcome =
      (publishReply env b c fd p).outcome >>= fun s => .returned (s.2,.done 0) := by
  have split : publishReply env b c fd p = (do
      let (t,b) ← Exec.lift (findTopic env b (cstr p.topic))
      publishFound env b c fd p t) := rfl
  rw [alone,split]
  simp only [advance]
  rw [alone_found env b (.publish c fd p) 1 (fun found =>
    (publishFound env found.2 c fd p found.1).outcome >>= fun s => .returned (s.2,.done 0))
    (alone_fanOut env c fd p)]
  simp only [Exec.bind_outcome,Exec.lift_outcome,Job.name,Outcome.bind_assoc]

structure State (W : Type) where
  broker : Broker
  phase : W → Phase

structure Move (W : Type) where
  worker : W
  env : Env

/-- One worker runs its next piece to the end. -/
structure Advanced (jobs : W → Job) (s : State W) (move : Move W) (s' : State W) : Prop where
  outcome : (advance move.env s.broker (jobs move.worker) (s.phase move.worker)).outcome =
    .returned (s'.broker,s'.phase move.worker)
  others : ∀ w, w ≠ move.worker → s'.phase w = s.phase w

/-- The condition on a `hashmap_put`: it gets its memory, and a topic that is stored under
the name has no subscriber and no worker about to insert one. -/
def Harmless (jobs : W → Job) (s : State W) (move : Move W) : Prop :=
  ∀ t, s.phase move.worker = .store t → move.env.calloc = (fun _ => true) ∧
    ∀ u, s.broker.topics.lookup (jobs move.worker).name = some u →
      (s.broker.topic.cell u).subscribers.nodes = [] ∧ ∀ w t' sub, s.phase w ≠ .insert t' u sub

def Careful (jobs : W → Job) (_ : List (Move W)) (s : State W) (move : Move W) (s' : State W) : Prop :=
  Harmless jobs s move ∧ Advanced jobs s move s'

/-- What holds of a worker in each phase. -/
def Placed (b : Broker) : Job → Phase → Prop
  | job, .store t => t < b.topic.next ∧ (b.topic.cell t).name = job.name ∧
    (b.topic.cell t).subscribers.Covered
  | .subscribe _ pkt, .answer t => t < b.topic.next ∧ (b.topic.cell t).name = cstr pkt.topic
  | .subscribe c pkt, .insert _ u s => b.topics.lookup (cstr pkt.topic) = some u ∧ s.client = c
  | .subscribe c pkt, .done rc => rc = 0 → ∃ s ∈ subscribersOf b (cstr pkt.topic), s.client = c
  | _, _ => True

/-- No name lost its topic or one of its subscribers. -/
structure Forward (b b' : Broker) : Prop where
  next : b.topic.next ≤ b'.topic.next
  name : ∀ t, t < b.topic.next → (b'.topic.cell t).name = (b.topic.cell t).name
  covered : ∀ t, t < b.topic.next → (b.topic.cell t).subscribers.Covered →
    (b'.topic.cell t).subscribers.Covered
  lookup : b'.topics.lookup = b.topics.lookup
  subs : ∀ name, ∀ s ∈ subscribersOf b name, s ∈ subscribersOf b' name

namespace Forward

theorem of_same (same : SameTopics b b') : Forward b b' where
  next := by rw [same.next]
  name t _ := same.name t
  covered t _ covered := by rwa [same.subscribers]
  lookup := by rw [same.topics]
  subs name s member := by rwa [same_subscribersOf same]

theorem trans (first : Forward b b') (second : Forward b' b'') : Forward b b'' where
  next := first.next.trans second.next
  name t less := (second.name t (less.trans_le first.next)).trans (first.name t less)
  covered t less covered := second.covered t (less.trans_le first.next) (first.covered t less covered)
  lookup := second.lookup.trans first.lookup
  subs name s member := second.subs name s (first.subs name s member)

theorem getTopic {name : CString} (done : getTopic env b name = .returned (raw,b')) : Forward b b' := by
  obtain ⟨_,lock,rfl⟩ := getTopic_spec done
  exact ⟨Nat.le_refl _,fun _ _ => rfl,fun _ _ => id,rfl,fun _ _ => id⟩

theorem createTopic (shelved : Shelved b) (name : CString) : Forward b (createTopic b name).2 := by
  obtain ⟨_,topics,old⟩ := createTopic_shelved shelved name
  refine ⟨Nat.le_succ _,fun t less => by rw [old t less],fun t less covered => by rwa [old t less],
    by rw [topics],fun name' s member => ?_⟩
  have same : subscribersOf (Sizigy.createTopic b name).2 name' = subscribersOf b name' :=
    subscribersOf_congr (by rw [topics]) fun t found => by rw [old t (shelved.known found).1]
  rwa [same]

theorem insertSubscriber {name : CString} (shelved : Shelved b) (found : b.topics.lookup name = some t)
    (s : Subscription) : Forward b (insertSubscriber b t s) := by
  obtain ⟨_,subscribers⟩ := insertSubscriber_shelved shelved found s
  refine ⟨Nat.le_refl _,fun t' _ => insertSubscriber_name b t s t',fun t' _ covered => ?_,rfl,
    fun name' s' member => ?_⟩
  · rw [insertSubscriber_subscribers]
    split
    · exact (listHeadInsert_nodes covered s).2
    · exact covered
  · rw [subscribers]
    split
    · exact List.mem_cons_of_mem _ member
    · exact member

end Forward

theorem placed_forward (forward : Forward b b') (placed : Placed b job phase) : Placed b' job phase := by
  cases phase with
  | begin => cases job <;> trivial
  | store t =>
    have placed : t < b.topic.next ∧ (b.topic.cell t).name = job.name ∧
        (b.topic.cell t).subscribers.Covered := by cases job <;> exact placed
    have moved : t < b'.topic.next ∧ (b'.topic.cell t).name = job.name ∧
        (b'.topic.cell t).subscribers.Covered := by
      obtain ⟨less,name,covered⟩ := placed
      exact ⟨less.trans_le forward.next,(forward.name t less).trans name,forward.covered t less covered⟩
    cases job <;> exact moved
  | answer t =>
    cases job with
    | subscribe c pkt =>
      obtain ⟨less,name⟩ := placed
      exact ⟨less.trans_le forward.next,(forward.name t less).trans name⟩
    | publish c fd p => trivial
  | insert t u s =>
    cases job with
    | subscribe c pkt => exact ⟨by rw [forward.lookup]; exact placed.1,placed.2⟩
    | publish c fd p => trivial
  | fanOut t => cases job <;> trivial
  | done rc =>
    cases job with
    | subscribe c pkt =>
      intro answered
      obtain ⟨s,member,client⟩ := placed answered
      exact ⟨s,forward.subs _ s member,client⟩
    | publish c fd p => trivial

theorem firstGet_placed (shelved : Shelved b) (done : firstGet env b job = .returned (b',phase)) :
    Shelved b' ∧ Forward b b' ∧ Placed b' job phase := by
  obtain ⟨⟨raw,b₁⟩,got,done⟩ := Outcome.bind_eq_returned.mp done
  obtain ⟨shelved₁,found,lookup,_⟩ := getTopic_shelved shelved got
  have forward := Forward.getTopic got
  cases raw with
  | some t =>
    obtain ⟨rfl,rfl⟩ := Prod.mk.inj (Outcome.returned.inj done)
    refine ⟨shelved₁,forward,?_⟩
    cases job with
    | subscribe c pkt => exact shelved₁.known (by rw [lookup]; exact found.symm)
    | publish c fd p => trivial
  | none =>
    obtain ⟨rfl,rfl⟩ := Prod.mk.inj (Outcome.returned.inj done)
    obtain ⟨shelved₂,_⟩ := createTopic_shelved shelved₁ job.name
    refine ⟨shelved₂,forward.trans (Forward.createTopic shelved₁ job.name),?_⟩
    have new : (createTopic b₁ job.name).2.topic.cell b₁.topic.next = ⟨job.name,listCreate,none⟩ :=
      Heap.alloc_new b₁.topic _
    have placed : b₁.topic.next < (createTopic b₁ job.name).2.topic.next ∧
        ((createTopic b₁ job.name).2.topic.cell b₁.topic.next).name = job.name ∧
        ((createTopic b₁ job.name).2.topic.cell b₁.topic.next).subscribers.Covered := by
      rw [new]
      exact ⟨Nat.lt_succ_self _,rfl,listCreate_covered⟩
    cases job <;> exact placed

theorem publishFound_same (done : (publishFound env b c fd p t).outcome = .returned (ret,b')) :
    SameTopics b b' := by
  obtain ⟨total,shape⟩ := publishMessage_shape env b t p
  have same := (published_same env b t p).1
  have clocked : SameTopics b
      (if (total : Int) > -1 then updateClientLastAction env (published env b t p) c else published env b t p) := by
    split
    · exact same.trans (SameTopics.of_eq rfl rfl)
    · exact same
  simp only [publishFound,shape,Exec.bind_outcome,Outcome.returned_bind] at done
  split at done
  · obtain ⟨sent,_,done⟩ := Outcome.bind_eq_returned.mp (by rwa [Exec.bind_outcome] at done)
    obtain ⟨_,rfl⟩ := Prod.mk.inj (Outcome.returned.inj done)
    exact clocked
  · obtain ⟨_,rfl⟩ := Prod.mk.inj (Outcome.returned.inj done)
    exact clocked

/-- The lookup before the insertion finds the topic of the name that the worker's topic bears. -/
theorem answer_placed (shelved : Shelved b) (placed : Placed b (.subscribe c pkt) (.answer t))
    (done : (advance env b (.subscribe c pkt) (.answer t)).outcome = .returned (b',phase')) :
    Shelved b' ∧ Forward b b' ∧ Placed b' (.subscribe c pkt) phase' := by
  obtain ⟨_,name⟩ := placed
  have same : SameTopics b (setAckReply env b c Opcode.suback 0) := SameTopics.of_eq rfl rfl
  simp only [advance,Exec.bind_outcome,Exec.lift_outcome] at done
  obtain ⟨⟨raw,b₁⟩,got,done⟩ := Outcome.bind_eq_returned.mp done
  obtain ⟨shelved₁,found,lookup,_⟩ := getTopic_shelved (shelved.of_same same) got
  cases raw with
  | none => cases done
  | some u =>
    obtain ⟨rfl,rfl⟩ := Prod.mk.inj (Outcome.returned.inj done)
    refine ⟨shelved₁,(Forward.of_same same).trans (Forward.getTopic got),?_,rfl⟩
    rw [same.name,name] at found
    rw [lookup]
    exact found.symm

theorem insert_placed (shelved : Shelved b) (placed : Placed b (.subscribe c pkt) (.insert t u s))
    (done : (advance env b (.subscribe c pkt) (.insert t u s)).outcome = .returned (b',phase')) :
    Shelved b' ∧ Forward b b' ∧ Placed b' (.subscribe c pkt) phase' := by
  obtain ⟨found,client⟩ := placed
  obtain ⟨rfl,rfl⟩ := Prod.mk.inj (Outcome.returned.inj done)
  obtain ⟨shelved₁,subscribers⟩ := insertSubscriber_shelved shelved found s
  have same : SameTopics (insertSubscriber b u s) ((insertSubscriber b u s).setClient c fun k =>
      { k with reply := k.reply.map fun r =>
        { r with retained := ((insertSubscriber b u s).topic.cell t).retained } }) :=
    SameTopics.of_eq rfl rfl
  refine ⟨shelved₁.of_same same,(Forward.insertSubscriber shelved found s).trans (Forward.of_same same),
    fun _ => ⟨s,?_,client⟩⟩
  rw [same_subscribersOf same,subscribers,if_pos rfl]
  exact List.mem_cons_self ..

/-- Every piece but a put keeps what the map holds, and leaves its worker in its place. -/
theorem advance_placed (shelved : Shelved b) (placed : Placed b job phase) (notPut : ∀ t, phase ≠ .store t)
    (done : (advance env b job phase).outcome = .returned (b',phase')) :
    Shelved b' ∧ Forward b b' ∧ Placed b' job phase' := by
  have still (same : (pure (b,phase) : Exec Event (Broker × Phase)).outcome = .returned (b',phase')) :
      Shelved b' ∧ Forward b b' ∧ Placed b' job phase' := by
    obtain ⟨rfl,rfl⟩ := Prod.mk.inj (Outcome.returned.inj same)
    exact ⟨shelved,Forward.of_same (SameTopics.refl b),placed⟩
  cases job with
  | subscribe c pkt =>
    cases phase with
    | begin =>
      simp only [advance] at done
      split at done
      · obtain ⟨rfl,rfl⟩ := Prod.mk.inj (Outcome.returned.inj done)
        have same : SameTopics b (setAckReply env b c Opcode.suback 1) := SameTopics.of_eq rfl rfl
        exact ⟨shelved.of_same same,Forward.of_same same,fun failed => absurd failed (by decide)⟩
      · exact firstGet_placed shelved done
    | store t => exact absurd rfl (notPut t)
    | answer t => exact answer_placed shelved placed done
    | insert t u s => exact insert_placed shelved placed done
    | fanOut t => exact still done
    | done rc => exact still done
  | publish c fd p =>
    cases phase with
    | begin => exact firstGet_placed shelved done
    | store t => exact absurd rfl (notPut t)
    | answer t => exact still done
    | insert t u s => exact still done
    | fanOut t =>
      simp only [advance,Exec.bind_outcome] at done
      obtain ⟨⟨ret,b₁⟩,published,done⟩ := Outcome.bind_eq_returned.mp done
      obtain ⟨rfl,rfl⟩ := Prod.mk.inj (Outcome.returned.inj done)
      have same := publishFound_same published
      exact ⟨shelved.of_same same,Forward.of_same same,trivial⟩
    | done rc => exact still done

/-- A put that replaces no topic in use leaves the other workers in their places. -/
theorem placed_put (topic : b'.topic = b.topic)
    (others : ∀ name', name' ≠ name → b'.topics.lookup name' = b.topics.lookup name')
    (unused : ∀ u, b.topics.lookup name = some u →
      (b.topic.cell u).subscribers.nodes = [] ∧ ∀ t s, phase ≠ .insert t u s)
    (placed : Placed b job phase) : Placed b' job phase := by
  cases phase with
  | begin => cases job <;> trivial
  | store t => cases job <;> simpa only [Placed,topic] using placed
  | answer t =>
    cases job with
    | subscribe c pkt => simpa only [Placed,topic] using placed
    | publish c fd p => trivial
  | insert t u s =>
    cases job with
    | subscribe c pkt =>
      obtain ⟨found,client⟩ := placed
      have other : cstr pkt.topic ≠ name := by
        rintro rfl
        exact (unused u found).2 t s rfl
      exact ⟨by rw [others _ other]; exact found,client⟩
    | publish c fd p => trivial
  | fanOut t => cases job <;> trivial
  | done rc =>
    cases job with
    | subscribe c pkt =>
      intro answered
      obtain ⟨s,member,client⟩ := placed answered
      have other : cstr pkt.topic ≠ name := by
        rintro rfl
        cases found : b.topics.lookup (cstr pkt.topic) with
        | none =>
          rw [subscribersOf_none found] at member
          exact absurd member List.not_mem_nil
        | some u =>
          rw [subscribersOf_some found,(unused u found).1] at member
          exact absurd member List.not_mem_nil
      refine ⟨s,?_,client⟩
      rwa [subscribersOf_congr (others _ other) fun t _ => by rw [topic]]
    | publish c fd p => trivial

theorem advance_store (shelved : Shelved b) (placed : Placed b job (.store t))
    (memory : env.calloc = fun _ => true)
    (done : (advance env b job (.store t)).outcome = .returned (b',phase)) :
    Shelved b' ∧ Placed b' job phase ∧ b'.topic = b.topic ∧
      ∀ name', name' ≠ job.name → b'.topics.lookup name' = b.topics.lookup name' := by
  obtain ⟨less,name,covered⟩ : t < b.topic.next ∧ (b.topic.cell t).name = job.name ∧
      (b.topic.cell t).subscribers.Covered := by cases job <;> exact placed
  have stores : (advance env b job (.store t)).outcome = putTopic env b job.name t >>= fun b =>
      .returned (b,job.found t) := by cases job <;> exact Exec.bind_outcome _ _
  rw [stores] at done
  obtain ⟨b₁,put,done⟩ := Outcome.bind_eq_returned.mp done
  obtain ⟨rfl,rfl⟩ := Prod.mk.inj (Outcome.returned.inj done)
  obtain ⟨_,topic,_,others⟩ := putTopic_lookup shelved memory put
  refine ⟨putTopic_shelved shelved memory less name covered put,?_,topic,others⟩
  cases job with
  | subscribe c pkt => exact ⟨by rw [topic]; exact less,by rw [topic]; exact name⟩
  | publish c fd p => trivial

structure Tidy (jobs : W → Job) (s : State W) : Prop where
  shelved : Shelved s.broker
  placed : ∀ w, Placed s.broker (jobs w) (s.phase w)

theorem advanced_tidy {jobs : W → Job} {s s' : State W} (tidy : Tidy jobs s) (harmless : Harmless jobs s move)
    (advanced : Advanced jobs s move s') : Tidy jobs s' := by
  have own := tidy.placed move.worker
  have done := advanced.outcome
  by_cases put : ∃ t, s.phase move.worker = .store t
  · obtain ⟨t,put⟩ := put
    obtain ⟨memory,unused⟩ := harmless t put
    rw [put] at own done
    obtain ⟨shelved,placed,topic,others⟩ := advance_store tidy.shelved own memory done
    refine ⟨shelved,fun w => ?_⟩
    by_cases self : w = move.worker
    · rw [self]
      exact placed
    · rw [advanced.others w self]
      exact placed_put topic others (fun u found => ⟨(unused u found).1,(unused u found).2 w⟩) (tidy.placed w)
  · have notPut : ∀ t, s.phase move.worker ≠ .store t := fun t same => put ⟨t,same⟩
    obtain ⟨shelved,forward,placed⟩ := advance_placed tidy.shelved own notPut done
    refine ⟨shelved,fun w => ?_⟩
    by_cases self : w = move.worker
    · rw [self]
      exact placed
    · rw [advanced.others w self]
      exact placed_forward forward (tidy.placed w)

theorem start_tidy {jobs : W → Job} {s : State W} (empty : s.broker.topics = hashmapCreate)
    (begun : ∀ w, s.phase w = .begin) : Tidy jobs s := by
  refine ⟨(empty_shelved empty).1,fun w => ?_⟩
  rw [begun]
  cases jobs w <;> trivial

/-- Along every run in which no put replaces a topic in use, a client whose SUBSCRIBE was
answered with code 0 is among the subscribers of the topic that the map returns. -/
theorem answered_subscribed {jobs : W → Job} {start s : State W}
    (empty : start.broker.topics = hashmapCreate) (begun : ∀ w, start.phase w = .begin)
    (run : Run (Careful jobs) start past s) (job : jobs w = .subscribe c pkt)
    (answered : s.phase w = .done 0) :
    ∃ t sub, hashmapGet .ignored s.broker.topics (cstr pkt.topic) = .returned (some t,s.broker.topics) ∧
      sub ∈ (s.broker.topic.cell t).subscribers.nodes ∧ sub.client = c := by
  have tidy := run.invariant (fun _ s => Tidy jobs s) (start_tidy empty begun)
    fun _ _ _ _ _ before taken => advanced_tidy before taken.1 taken.2
  have placed := tidy.placed w
  rw [job,answered] at placed
  obtain ⟨sub,member,client⟩ := placed rfl
  cases found : s.broker.topics.lookup (cstr pkt.topic) with
  | none =>
    rw [subscribersOf_none found] at member
    exact absurd member List.not_mem_nil
  | some t =>
    rw [subscribersOf_some found] at member
    exact ⟨t,sub,by rw [← found]; rfl,member,client⟩

/-- The state after a piece that returns. -/
def moved [DecidableEq W] (jobs : W → Job) (s : State W) (move : Move W) : State W :=
  match (advance move.env s.broker (jobs move.worker) (s.phase move.worker)).outcome with
  | .returned (b,phase) => ⟨b,Function.update s.phase move.worker phase⟩
  | _ => s

theorem moved_advanced [DecidableEq W] (jobs : W → Job) (s : State W) (move : Move W)
    (ends : Machine.returns
      (advance move.env s.broker (jobs move.worker) (s.phase move.worker)).outcome = true) :
    Advanced jobs s move (moved jobs s move) := by
  unfold moved
  cases outcome : (advance move.env s.broker (jobs move.worker) (s.phase move.worker)).outcome with
  | returned result =>
    obtain ⟨b,phase⟩ := result
    refine ⟨outcome.trans ?_,fun w apart => Function.update_of_ne apart _ _⟩
    dsimp only
    rw [Function.update_self]
  | blocked => simp [Machine.returns,outcome] at ends
  | crashed => simp [Machine.returns,outcome] at ends
  | unfinished => simp [Machine.returns,outcome] at ends

def subscribeA : Subscribe := ⟨⟨Opcode.subscribe,9⟩,1,0,[97]⟩

/-- Two workers with a SUBSCRIBE for `a` each, of the clients 1 and 2. -/
def twoSubscribers (w : Bool) : Job := .subscribe (if w then 2 else 1) subscribeA

def raceStart : State Bool := ⟨startServer 3,fun _ => .begin⟩

/-- The workers move in the given order. -/
def order (s : State Bool) : List Bool → State Bool
  | [] => s
  | w :: rest => order (moved twoSubscribers s ⟨w,plainEnv⟩) rest

def Phase.stores : Phase → Bool
  | .store _ => true
  | _ => false

theorem run_moved (run : Run (Careful twoSubscribers) start past s) (w : Bool)
    (absent : (s.phase w).stores = true → s.broker.topics.lookup (cstr [97]) = none)
    (ends : Machine.returns (advance plainEnv s.broker (twoSubscribers w) (s.phase w)).outcome = true) :
    Run (Careful twoSubscribers) start (past ++ [⟨w,plainEnv⟩]) (moved twoSubscribers s ⟨w,plainEnv⟩) := by
  refine run.snoc ⟨fun t put => ⟨rfl,fun u found => ?_⟩,moved_advanced twoSubscribers s ⟨w,plainEnv⟩ ends⟩
  have stored : s.broker.topics.lookup (cstr [97]) = some u := found
  have put : s.phase w = .store t := put
  rw [absent (by rw [put]; rfl)] at stored
  cases stored

/-- A worker that is not interrupted leaves its client subscribed. -/
theorem uninterrupted_subscribed : ∃ past,
    Run (Careful twoSubscribers) raceStart past (order raceStart [false,false,false,false]) ∧
    (order raceStart [false,false,false,false]).phase false = .done 0 ∧
    ∃ t sub, hashmapGet .ignored (order raceStart [false,false,false,false]).broker.topics (cstr [97]) =
        .returned (some t,(order raceStart [false,false,false,false]).broker.topics) ∧
      sub ∈ ((order raceStart [false,false,false,false]).broker.topic.cell t).subscribers.nodes ∧
      sub.client = 1 := by
  have got : Run (Careful twoSubscribers) raceStart _ (order raceStart [false]) :=
    run_moved Run.nil false (by decide +kernel) (by decide +kernel)
  have put : Run (Careful twoSubscribers) raceStart _ (order raceStart [false,false]) :=
    run_moved got false (by decide +kernel) (by decide +kernel)
  have looked : Run (Careful twoSubscribers) raceStart _ (order raceStart [false,false,false]) :=
    run_moved put false (by decide +kernel) (by decide +kernel)
  have inserted : Run (Careful twoSubscribers) raceStart _ (order raceStart [false,false,false,false]) :=
    run_moved looked false (by decide +kernel) (by decide +kernel)
  have answered : (order raceStart [false,false,false,false]).phase false = .done 0 := by decide +kernel
  have job : twoSubscribers false = .subscribe 1 subscribeA := rfl
  have empty : raceStart.broker.topics = hashmapCreate := rfl
  have begun : ∀ w, raceStart.phase w = .begin := fun _ => rfl
  have subscribed := answered_subscribed empty begun inserted job answered
  exact ⟨_,inserted,answered,subscribed⟩

/-- Both workers find the topic missing; the second one's put replaces the topic that the
first one's client was inserted into. -/
def raceOrder : List Bool := [false,true,false,false,false,true,true,true]

def possibleOrder (s : State Bool) : List Bool → Bool
  | [] => true
  | w :: rest => Machine.returns (advance plainEnv s.broker (twoSubscribers w) (s.phase w)).outcome &&
    possibleOrder (moved twoSubscribers s ⟨w,plainEnv⟩) rest

theorem order_run (run : Run (fun _ s move s' => Advanced twoSubscribers s move s') start past s)
    (workers : List Bool) (possible : possibleOrder s workers = true) :
    Run (fun _ s move s' => Advanced twoSubscribers s move s') start
      (past ++ workers.map fun w => ⟨w,plainEnv⟩) (order s workers) := by
  induction workers generalizing past s with
  | nil => simpa [order] using run
  | cons w rest ih =>
    obtain ⟨ends,later⟩ := Bool.and_eq_true_iff.mp possible
    have longer := ih (run.snoc (moved_advanced twoSubscribers s ⟨w,plainEnv⟩ ends)) later
    rwa [List.append_assoc] at longer

theorem first_subscriber_lost :
    Run (fun _ s move s' => Advanced twoSubscribers s move s') raceStart
      (raceOrder.map fun w => ⟨w,plainEnv⟩) (order raceStart raceOrder) ∧
    (∀ w, (order raceStart raceOrder).phase w = .done 0) ∧
    hashmapGet .ignored (order raceStart raceOrder).broker.topics (cstr [97]) =
      .returned (some 1,(order raceStart raceOrder).broker.topics) ∧
    ∀ sub ∈ ((order raceStart raceOrder).broker.topic.cell 1).subscribers.nodes, sub.client ≠ 1 := by
  refine ⟨order_run Run.nil raceOrder (by decide +kernel),?_,?_,by decide +kernel⟩
  · intro w
    cases w
    · decide +kernel
    · decide +kernel
  · have found : (order raceStart raceOrder).broker.topics.lookup (cstr [97]) = some 1 := by decide +kernel
    rw [← found]
    rfl

end Sizigy.TopicRace
