import Sizigy.TopicSpec

/-! What requests do to the retained messages. Only the delivery of a PUBLISH with its retain
flag set touches one: the message of the topic is replaced and the one before it freed. -/
namespace Sizigy

variable {env : Env} {b b' : Broker} {c t : Nat} {name : CString}

/-- Apart from the lock, a lookup changes nothing. -/
theorem getTopic_message (done : getTopic env b name = .returned (raw,b')) : b'.message = b.message := by
  obtain ⟨_,lock,rfl⟩ := getTopic_spec done
  rfl

theorem putTopic_message (done : putTopic env b name t = .returned b') : b'.message = b.message := by
  obtain ⟨⟨_,topics⟩,_,done⟩ := Outcome.bind_eq_returned.mp done
  obtain rfl := Outcome.returned.inj done
  rfl

theorem findTopic_message (done : findTopic env b name = .returned (t,b')) : b'.message = b.message := by
  rcases findTopic_cases done with got | ⟨b₁,got,_,put⟩
  · exact getTopic_message got
  · have created : (createTopic b₁ name).2.message = b₁.message := rfl
    exact (putTopic_message put).trans (created.trans (getTopic_message got))

/-- The subscription joins its topic, which keeps its retained message. -/
theorem addSubscriber_retained (done : addSubscriber env b s = .returned b') :
    b'.message = b.message ∧ b'.topics.lookup = b.topics.lookup ∧
      ∀ p, (b'.topic.cell p).retained = (b.topic.cell p).retained := by
  obtain ⟨t,b₁,got,rfl⟩ := addSubscriber_cases done
  obtain ⟨_,lock,rfl⟩ := getTopic_spec got
  refine ⟨rfl,rfl,fun p => ?_⟩
  exact Broker.setTopic_field _ t p (fun k => { k with subscribers := listHeadInsert k.subscribers s })
    Topic.retained fun _ => rfl

/-- Storing a retained message: it is there, and at most the one before it is freed. -/
structure Replaced (b : Broker) (t : Nat) (msg : Publish) (b' : Broker) : Prop where
  topics : b'.topics = b.topics
  next : b'.topic.next = b.topic.next
  retained : (b'.topic.cell t).retained = some b.message.next
  other : ∀ p, p ≠ t → b'.topic.cell p = b.topic.cell p
  name : ∀ p, (b'.topic.cell p).name = (b.topic.cell p).name
  grown : b'.message.next = b.message.next + 1
  stored : (∀ m, (b.topic.cell t).retained = some m → m < b.message.next) →
    b'.message.cell b.message.next = { createMessage msg with retained := 1 }
  kept : ∀ m, m ≠ b.message.next → (b.topic.cell t).retained ≠ some m →
    b'.message.cell m = b.message.cell m

theorem retainMessage_replaced (b : Broker) (t : Nat) (msg : Publish) :
    Replaced b t msg (retainMessage b t msg) := by
  have shape : ∃ message, retainMessage b t msg =
        ({ b with message := message } : Broker).setTopic t
          (fun k => { k with retained := some b.message.next }) ∧
      message.next = b.message.next + 1 ∧
      ((∀ m, (b.topic.cell t).retained = some m → m < b.message.next) →
        message.cell b.message.next = { createMessage msg with retained := 1 }) ∧
      ∀ m, m ≠ b.message.next → (b.topic.cell t).retained ≠ some m →
        message.cell m = b.message.cell m := by
    unfold retainMessage
    cases old : (b.topic.cell t).retained with
    | none =>
      exact ⟨_,rfl,rfl,fun _ => Heap.alloc_new _ _,fun m fresh _ => Heap.alloc_old _ _ m fresh⟩
    | some p =>
      refine ⟨_,rfl,rfl,fun earlier => ?_,fun m fresh apart => ?_⟩
      · have apart : b.message.next ≠ p := Nat.ne_of_gt (earlier p rfl)
        exact (Heap.modify_other _ _ _ _ apart).trans (Heap.alloc_new _ _)
      · have apart' : m ≠ p := fun same => apart (by rw [same])
        exact (Heap.modify_other _ _ _ _ apart').trans (Heap.alloc_old _ _ m fresh)
  obtain ⟨message,shape,grown,stored,kept⟩ := shape
  rw [shape]
  refine ⟨rfl,rfl,by rw [Broker.setTopic_same],fun p apart => ?_,fun p => ?_,grown,stored,kept⟩
  · rw [Broker.setTopic_other _ t p _ apart]
  · exact Broker.setTopic_field _ t p (fun k => { k with retained := some b.message.next }) Topic.name
      fun _ => rfl

end Sizigy
