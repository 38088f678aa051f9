import Sizigy.HashmapContents
import Sizigy.TopicSpec

/-! The topics by name. A map that only ever gains topics under new names gives each name
the subscribers of one topic, and the operations on topics change the subscribers of no name
but their own. -/
namespace Sizigy

variable {env : Env} {b b' : Broker} {t : Nat} {name : CString}

structure Shelved (b : Broker) : Prop where
  fresh : b.topics.Fresh
  named : Named b
  covered : ∀ name t, b.topics.lookup name = some t → (b.topic.cell t).subscribers.Covered

/-- Subscribers of the topic that a lookup returns. -/
def subscribersOf (b : Broker) (name : CString) : List Subscription :=
  match b.topics.lookup name with
  | none => []
  | some t => (b.topic.cell t).subscribers.nodes

theorem subscribersOf_some (found : b.topics.lookup name = some t) :
    subscribersOf b name = (b.topic.cell t).subscribers.nodes := by
  rw [subscribersOf,found]

theorem subscribersOf_none (absent : b.topics.lookup name = none) : subscribersOf b name = [] := by
  rw [subscribersOf,absent]

theorem subscribersOf_congr (lookup : b'.topics.lookup name = b.topics.lookup name)
    (nodes : ∀ t, b.topics.lookup name = some t →
      (b'.topic.cell t).subscribers.nodes = (b.topic.cell t).subscribers.nodes) :
    subscribersOf b' name = subscribersOf b name := by
  cases found : b.topics.lookup name with
  | none => rw [subscribersOf_none found,subscribersOf_none (lookup.trans found)]
  | some t => rw [subscribersOf_some found,subscribersOf_some (lookup.trans found),nodes t found]

theorem empty_shelved (empty : b.topics = hashmapCreate) :
    Shelved b ∧ ∀ name, subscribersOf b name = [] := by
  have nothing (name : CString) : b.topics.lookup name = none := by
    rw [empty,lookup_none_iff create_valid]
    simp [Hashmap.Contains,hashmapCreate]
  refine ⟨⟨by rw [empty]; exact create_fresh,?_,fun name t found => ?_⟩,
    fun name => subscribersOf_none (nothing name)⟩
  · rintro name t ⟨i,stored⟩
    simp [empty,hashmapCreate] at stored
  · rw [nothing] at found
    cases found

namespace Shelved

theorem contains (shelved : Shelved b) : b.topics.lookup name = some t ↔ b.topics.Contains name t :=
  lookup_some_iff shelved.fresh.valid shelved.fresh.unique

theorem known (shelved : Shelved b) (found : b.topics.lookup name = some t) :
    t < b.topic.next ∧ (b.topic.cell t).name = name :=
  shelved.named name t (lookup_contains found)

/-- Different names lead to different topics. -/
theorem apart (shelved : Shelved b) (found : b.topics.lookup name = some t)
    (found' : b.topics.lookup name' = some t') (other : name' ≠ name) : t' ≠ t := by
  rintro rfl
  exact other ((shelved.known found').2.symm.trans (shelved.known found).2)

theorem of_same (shelved : Shelved b) (same : SameTopics b b') : Shelved b' where
  fresh := same.topics ▸ shelved.fresh
  named := shelved.named.of_same same
  covered name t found := by
    rw [same.topics] at found
    rw [same.subscribers]
    exact shelved.covered name t found

end Shelved

theorem same_subscribersOf (same : SameTopics b b') (name : CString) :
    subscribersOf b' name = subscribersOf b name :=
  subscribersOf_congr (by rw [same.topics]) fun t _ => by rw [same.subscribers]

/-- Setting the lock of the map changes nothing that is looked up. -/
theorem relock_shelved (shelved : Shelved b) (lock : Bool) :
    Shelved { b with topics := { b.topics with lock := lock } } where
  fresh := ⟨relock_valid shelved.fresh.valid lock,shelved.fresh.unique,shelved.fresh.packed⟩
  named := shelved.named
  covered := shelved.covered

theorem getTopic_shelved (shelved : Shelved b) (done : getTopic env b name = .returned (raw,b')) :
    Shelved b' ∧ raw = b.topics.lookup name ∧ b'.topics.lookup = b.topics.lookup ∧ b'.topic = b.topic := by
  obtain ⟨found,lock,rfl⟩ := getTopic_spec done
  exact ⟨relock_shelved shelved lock,found,rfl,rfl⟩

theorem createTopic_shelved (shelved : Shelved b) (name : CString) :
    Shelved (createTopic b name).2 ∧ (createTopic b name).2.topics = b.topics ∧
      ∀ t, t < b.topic.next → (createTopic b name).2.topic.cell t = b.topic.cell t := by
  have old (t : Nat) (less : t < b.topic.next) : (createTopic b name).2.topic.cell t = b.topic.cell t :=
    Heap.alloc_old _ _ t (Nat.ne_of_lt less)
  refine ⟨⟨shelved.fresh,(createTopic_extends shelved.named name).named,fun name' t found => ?_⟩,rfl,old⟩
  rw [old t (shelved.known found).1]
  exact shelved.covered name' t found

/-- A put that gets its memory stores the topic under its name and keeps the other names. -/
theorem putTopic_lookup (shelved : Shelved b) (memory : env.calloc = fun _ => true)
    (done : putTopic env b name t = .returned b') :
    b'.topics.Fresh ∧ b'.topic = b.topic ∧ b'.topics.lookup name = some t ∧
      ∀ name', name' ≠ name → b'.topics.lookup name' = b.topics.lookup name' := by
  obtain ⟨⟨status,topics⟩,put,done⟩ := Outcome.bind_eq_returned.mp done
  obtain rfl := Outcome.returned.inj done
  rw [memory] at put
  obtain rfl := put_ok put
  obtain ⟨fresh,written⟩ := put_fresh shelved.fresh put
  have contains (name' : CString) (t' : Nat) :
      topics.lookup name' = some t' ↔ topics.Contains name' t' := lookup_some_iff fresh.valid fresh.unique
  refine ⟨fresh,rfl,(contains name t).mpr ((written name t).mpr (.inl ⟨rfl,rfl⟩)),fun name' other => ?_⟩
  apply Option.ext
  intro t'
  rw [shelved.contains,contains,written]
  simp [other]

theorem putTopic_shelved (shelved : Shelved b) (memory : env.calloc = fun _ => true)
    (less : t < b.topic.next) (same : (b.topic.cell t).name = name)
    (covered : (b.topic.cell t).subscribers.Covered) (done : putTopic env b name t = .returned b') :
    Shelved b' := by
  obtain ⟨fresh,topic,here,others⟩ := putTopic_lookup shelved memory done
  refine ⟨fresh,(putTopic_extends shelved.named less same done).named,fun name' t' found => ?_⟩
  rw [topic]
  by_cases own : name' = name
  · subst own
    obtain rfl := Option.some.inj (here.symm.trans found)
    exact covered
  · rw [others name' own] at found
    exact shelved.covered name' t' found

/-- The topic that was found under the name, or a new one that is now there. -/
theorem findTopic_stored (shelved : Shelved b) (memory : env.calloc = fun _ => true)
    (done : findTopic env b name = .returned (t,b')) :
    Shelved b' ∧ b'.topics.lookup name = some t ∧
      (∀ name', name' ≠ name → b'.topics.lookup name' = b.topics.lookup name') ∧
      ((b.topics.lookup name = some t ∧ b'.topic = b.topic) ∨
        (b.topics.lookup name = none ∧ t = b.topic.next ∧ b'.topic = b.topic.alloc ⟨name,listCreate,none⟩)) := by
  rcases findTopic_cases done with got | ⟨b₁,got,rfl,put⟩
  · obtain ⟨shelved',found,lookup,topic⟩ := getTopic_shelved shelved got
    exact ⟨shelved',by rw [lookup]; exact found.symm,fun name' _ => by rw [lookup],.inl ⟨found.symm,topic⟩⟩
  · obtain ⟨shelved₁,absent,lookup,topic⟩ := getTopic_shelved shelved got
    obtain ⟨shelved₂,topics₂,_⟩ := createTopic_shelved shelved₁ name
    have new : (createTopic b₁ name).2.topic.cell b₁.topic.next = ⟨name,listCreate,none⟩ :=
      Heap.alloc_new b₁.topic _
    have stored := putTopic_shelved shelved₂ memory (Nat.lt_succ_self _) (by rw [new])
      (by rw [new]; exact listCreate_covered) put
    obtain ⟨_,topic₃,here,others⟩ := putTopic_lookup shelved₂ memory put
    refine ⟨stored,here,fun name' other => by rw [others name' other,topics₂,lookup],.inr ⟨absent.symm,?_,?_⟩⟩
    · rw [topic]
    · rw [topic₃,← topic]
      rfl

/-- Looking a topic up or creating it changes no name's subscribers. -/
theorem findTopic_shelved (shelved : Shelved b) (memory : env.calloc = fun _ => true)
    (done : findTopic env b name = .returned (t,b')) :
    Shelved b' ∧ b'.topics.lookup name = some t ∧ ∀ name', subscribersOf b' name' = subscribersOf b name' := by
  obtain ⟨stored,here,others,source⟩ := findTopic_stored shelved memory done
  refine ⟨stored,here,fun name' => ?_⟩
  rcases source with ⟨found,topic⟩ | ⟨absent,rfl,topic⟩
  · have lookup : b'.topics.lookup name' = b.topics.lookup name' := by
      by_cases own : name' = name
      · rw [own,here,found]
      · exact others name' own
    exact subscribersOf_congr lookup fun t _ => by rw [topic]
  · by_cases own : name' = name
    · subst own
      rw [subscribersOf_some here,topic,Heap.alloc_new,subscribersOf_none absent]
      rfl
    · refine subscribersOf_congr (others name' own) fun t found => ?_
      rw [topic,Heap.alloc_old _ _ t (Nat.ne_of_lt (shelved.known found).1)]

/-- Changing the subscribers of a stored topic changes those of its name alone. -/
theorem setTopic_shelved (shelved : Shelved b) (found : b.topics.lookup name = some t) (f : Topic → Topic)
    (keeps : ∀ k, (f k).name = k.name) (covered : (f (b.topic.cell t)).subscribers.Covered) :
    Shelved (b.setTopic t f) ∧ ∀ name', subscribersOf (b.setTopic t f) name' =
      if name' = name then (f (b.topic.cell t)).subscribers.nodes else subscribersOf b name' := by
  have here := b.setTopic_same t f
  have elsewhere (t' : Nat) (apart : t' ≠ t) := b.setTopic_other t t' f apart
  refine ⟨⟨shelved.fresh,fun name' t' stored => ?_,fun name' t' found' => ?_⟩,fun name' => ?_⟩
  · rw [b.setTopic_field t t' f Topic.name keeps]
    exact shelved.named name' t' stored
  · by_cases same : t' = t
    · subst same
      rw [here]
      exact covered
    · rw [elsewhere t' same]
      exact shelved.covered name' t' found'
  · by_cases own : name' = name
    · subst own
      have found' : (b.setTopic t f).topics.lookup name' = some t := found
      rw [subscribersOf_some found',here,if_pos rfl]
    · rw [if_neg own]
      refine subscribersOf_congr rfl fun t' found' => ?_
      rw [elsewhere t' (shelved.apart found found' own)]

theorem insertSubscriber_shelved (shelved : Shelved b) (found : b.topics.lookup name = some t)
    (s : Subscription) : Shelved (insertSubscriber b t s) ∧ ∀ name',
      subscribersOf (insertSubscriber b t s) name' =
        if name' = name then s :: subscribersOf b name' else subscribersOf b name' := by
  obtain ⟨nodes,covered⟩ := listHeadInsert_nodes (shelved.covered name t found) s
  obtain ⟨shelved',subscribers⟩ := setTopic_shelved shelved found
    (fun k => { k with subscribers := listHeadInsert k.subscribers s }) (fun _ => rfl) covered
  refine ⟨shelved',fun name' => (subscribers name').trans ?_⟩
  split
  next own => rw [nodes,own,subscribersOf_some found]
  next => rfl

theorem addSubscriber_shelved (shelved : Shelved b) (done : addSubscriber env b s = .returned b') :
    Shelved b' ∧ ∀ name, subscribersOf b' name =
      if name = s.topic then s :: subscribersOf b name else subscribersOf b name := by
  obtain ⟨t,b₁,got,rfl⟩ := addSubscriber_cases done
  obtain ⟨shelved₁,found,lookup,topic⟩ := getTopic_shelved shelved got
  have here : b₁.topics.lookup s.topic = some t := by rw [lookup]; exact found.symm
  have same (name : CString) : subscribersOf b₁ name = subscribersOf b name :=
    subscribersOf_congr (by rw [lookup]) fun t _ => by rw [topic]
  obtain ⟨shelved₂,subscribers⟩ := insertSubscriber_shelved shelved₁ here s
  exact ⟨shelved₂,fun name => by rw [subscribers,same]⟩

/-- An UNSUBSCRIBE drops the first subscription with the client's descriptor. -/
theorem delSubscriber_shelved (shelved : Shelved b) (done : delSubscriber env b s = .returned b') :
    Shelved b' ∧ ∀ name, subscribersOf b' name = if name = s.topic
      then (subscribersOf b name).eraseP fun s' => b.fd s'.client = b.fd s.client
      else subscribersOf b name := by
  obtain ⟨t,b₁,got,rfl⟩ := delSubscriber_cases done
  have loc : Local 0 b b₁ := getTopic_local got
  obtain ⟨shelved₁,found,lookup,topic⟩ := getTopic_shelved shelved got
  have here : b₁.topics.lookup s.topic = some t := by rw [lookup]; exact found.symm
  have same (name : CString) : subscribersOf b₁ name = subscribersOf b name :=
    subscribersOf_congr (by rw [lookup]) fun t _ => by rw [topic]
  have compare (s' : Subscription) : subCompare b₁ s' s = 0 ↔ b.fd s'.client = b.fd s.client := by
    rw [subCompare,loc.fd,loc.fd]
    split <;> simp [*]
  obtain ⟨shelved₂,subscribers⟩ := setTopic_shelved shelved₁ here
    (fun k => { k with subscribers :=
      { k.subscribers with nodes := listRemoveNode (subCompare b₁ · s) k.subscribers.nodes } })
    (fun _ => rfl) ((listRemoveNode_length _ _).trans (shelved₁.covered _ t here))
  refine ⟨shelved₂,fun name => (subscribers name).trans ?_⟩
  split
  next own =>
    rw [← same,own,subscribersOf_some here,listRemoveNode_eq]
    simp only [compare]
  next => exact same name

end Sizigy
