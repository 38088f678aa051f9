import Sizigy.HashmapInvariant
import Sizigy.ReplySpec

/-! What requests do to the topics. Every topic in the map bears the name it is stored under,
looking a topic up or creating it adds no subscriber, and a SUBSCRIBE adds its own client to
the topic it names. -/
namespace Sizigy

variable {env : Env} {b b' : Broker} {c t : Nat} {name : CString}

/-- A lookup leaves the map as it was, up to the lock. -/
theorem hashmapGet_spec {m m' : Hashmap CString V} (done : hashmapGet mutex m key = .returned (raw,m')) :
    raw = m.lookup key ∧ ∃ lock, m' = { m with lock := lock } := by
  cases mutex with
  | ignored =>
    obtain ⟨rfl,rfl⟩ := Prod.mk.inj (Outcome.returned.inj done)
    exact ⟨rfl,m.lock,rfl⟩
  | default =>
    obtain ⟨m₁,locked,done⟩ := Outcome.bind_eq_returned.mp done
    simp only [pthreadMutexLock] at locked
    split at locked
    · cases locked
    · obtain rfl := Outcome.returned.inj locked
      obtain ⟨rfl,rfl⟩ := Prod.mk.inj (Outcome.returned.inj done)
      exact ⟨rfl,false,rfl⟩

theorem getTopic_spec (done : getTopic env b name = .returned (raw,b')) :
    raw = b.topics.lookup name ∧ ∃ lock, b' = { b with topics := { b.topics with lock := lock } } := by
  obtain ⟨⟨raw',topics⟩,got,done⟩ := Outcome.bind_eq_returned.mp done
  obtain ⟨rfl,rfl⟩ := Prod.mk.inj (Outcome.returned.inj done)
  obtain ⟨found,lock,rfl⟩ := hashmapGet_spec got
  exact ⟨found,lock,rfl⟩

/-- Every stored topic exists and bears its name. -/
def Named (b : Broker) : Prop :=
  ∀ name t, b.topics.Contains name t → t < b.topic.next ∧ (b.topic.cell t).name = name

theorem Named.of_same (named : Named b) (same : SameTopics b b') : Named b' := by
  intro name t stored
  rw [same.topics] at stored
  rw [same.next,same.name]
  exact named name t stored

/-- The topics may have grown: what a subscriber list holds was there before, under the same
name, or is new in the given sense. -/
structure Extends (new : Subscription → CString → Prop) (b b' : Broker) : Prop where
  named : Named b'
  subs : ∀ t s, s ∈ (b'.topic.cell t).subscribers.nodes →
    (s ∈ (b.topic.cell t).subscribers.nodes ∧ (b'.topic.cell t).name = (b.topic.cell t).name) ∨
      new s (b'.topic.cell t).name

namespace Extends

theorem of_same (named : Named b) (same : SameTopics b b') : Extends new b b' where
  named := named.of_same same
  subs t s member := by
    rw [same.subscribers] at member
    exact .inl ⟨member,same.name t⟩

theorem trans (first : Extends (fun _ _ => False) b b') (second : Extends new b' b'') :
    Extends new b b'' where
  named := second.named
  subs t s member := by
    rcases second.subs t s member with ⟨before,name⟩ | added
    · rcases first.subs t s before with ⟨old,name'⟩ | impossible
      · exact .inl ⟨old,name.trans name'⟩
      · exact impossible.elim
    · exact .inr added

theorem trans_same (ext : Extends new b b') (same : SameTopics b' b'') : Extends new b b'' where
  named := ext.named.of_same same
  subs t s member := by
    rw [same.subscribers] at member
    rw [same.name]
    exact ext.subs t s member

theorem weaken (ext : Extends new b b') (imp : ∀ s name, new s name → new' s name) :
    Extends new' b b' :=
  ⟨ext.named,fun t s member => (ext.subs t s member).imp_right (imp s _)⟩

end Extends

theorem getTopic_extends (named : Named b) (done : getTopic env b name = .returned (raw,b')) :
    Extends (fun _ _ => False) b b' := by
  obtain ⟨_,lock,rfl⟩ := getTopic_spec done
  exact ⟨named,fun t s member => .inl ⟨member,rfl⟩⟩

theorem createTopic_extends (named : Named b) (name : CString) :
    Extends (fun _ _ => False) b (createTopic b name).2 where
  named name' t stored := by
    obtain ⟨less,same⟩ := named name' t stored
    refine ⟨Nat.lt_succ_of_lt less,?_⟩
    change ((b.topic.alloc _).cell t).name = name'
    rw [Heap.alloc_old _ _ t (Nat.ne_of_lt less)]
    exact same
  subs t s member := by
    change s ∈ ((b.topic.alloc _).cell t).subscribers.nodes at member
    change _ ∧ ((b.topic.alloc _).cell t).name = _ ∨ _
    by_cases new : t = b.topic.next
    · subst new
      rw [Heap.alloc_new] at member
      exact absurd member (List.not_mem_nil)
    · rw [Heap.alloc_old _ _ t new] at member ⊢
      exact .inl ⟨member,rfl⟩

theorem putTopic_extends (named : Named b) (less : t < b.topic.next)
    (same : (b.topic.cell t).name = name) (done : putTopic env b name t = .returned b') :
    Extends (fun _ _ => False) b b' := by
  obtain ⟨⟨status,topics⟩,put,done⟩ := Outcome.bind_eq_returned.mp done
  obtain rfl := Outcome.returned.inj done
  refine ⟨fun name' t' stored => ?_,fun t s member => .inl ⟨member,rfl⟩⟩
  rcases put_subset put stored with ⟨rfl,rfl⟩ | before
  · exact ⟨less,same⟩
  · exact named name' t' before

theorem findTopic_extends (named : Named b) (done : findTopic env b name = .returned (t,b')) :
    Extends (fun _ _ => False) b b' ∧ (b'.topic.cell t).name = name := by
  rcases findTopic_cases done with got | ⟨b₁,got,rfl,put⟩
  · have ext := getTopic_extends named got
    obtain ⟨found,lock,rfl⟩ := getTopic_spec got
    exact ⟨ext,(named name t (lookup_contains found.symm)).2⟩
  · have first := getTopic_extends named got
    have second := createTopic_extends first.named name
    have new : ((createTopic b₁ name).2.topic.cell b₁.topic.next).name = name :=
      congrArg Topic.name (Heap.alloc_new b₁.topic _)
    have third := putTopic_extends second.named (Nat.lt_succ_self _) new put
    refine ⟨(first.trans second).trans third,?_⟩
    obtain ⟨⟨status,topics⟩,_,put⟩ := Outcome.bind_eq_returned.mp put
    obtain rfl := Outcome.returned.inj put
    exact new

theorem insert_members (l : LinkedList α) (val : α) :
    ∀ s ∈ (listHeadInsert l val).nodes, s = val ∨ s ∈ l.nodes := by
  intro s member
  unfold listHeadInsert at member
  split at member
  · exact .inl (List.mem_singleton.mp member)
  · exact List.mem_cons.mp member

theorem addSubscriber_extends (named : Named b) (done : addSubscriber env b s = .returned b') :
    Extends (fun s' name => s' = s ∧ name = s.topic) b b' := by
  obtain ⟨t,b₁,got,rfl⟩ := addSubscriber_cases done
  have first := getTopic_extends named got
  obtain ⟨found,lock,rfl⟩ := getTopic_spec got
  have here := (named s.topic t (lookup_contains found.symm)).2
  refine ⟨fun name' t' stored => ?_,fun t' s' member => ?_⟩
  · rw [insertSubscriber_name]
    exact named name' t' stored
  · rw [insertSubscriber_subscribers] at member
    rw [insertSubscriber_name]
    split at member
    next same =>
      subst same
      rcases insert_members _ _ s' member with rfl | old
      · exact .inr ⟨rfl,here⟩
      · exact .inl ⟨old,rfl⟩
    next => exact .inl ⟨member,rfl⟩

theorem registerClient_store (done : registerClient env b c pkt = .returned b') : SameStore b b' := by
  have added {b₁ b₂ : Broker} (done : addClient env b₁ c = .returned b₂) : SameStore b₁ b₂ := by
    obtain ⟨⟨_,clients⟩,_,done⟩ := Outcome.bind_eq_returned.mp done
    obtain rfl := Outcome.returned.inj done
    exact ⟨rfl,rfl,rfl⟩
  rcases registerClient_cases done with ⟨_,rfl⟩ | ⟨_,b₁,deleted,_,done⟩ | ⟨_,_,done⟩
  · exact SameStore.refl _
  · obtain ⟨⟨_,clients⟩,_,deleted⟩ := Outcome.bind_eq_returned.mp deleted
    obtain rfl := Outcome.returned.inj deleted
    refine SameStore.trans ?_ (added done)
    exact ⟨rfl,rfl,rfl⟩
  · exact added done

theorem connectHandler_store (done : connectHandler env b c = .returned (rc,b')) : SameStore b b' := by
  obtain ⟨pkt,b₁,_,registered,rfl⟩ := connectHandler_cases done
  exact (registerClient_store registered).trans ⟨rfl,rfl,rfl⟩

theorem publishHandler_store (done : publishHandler env b c = .returned (rc,b')) : SameStore b b' := by
  unfold publishHandler at done
  split at done
  · obtain ⟨_,rfl⟩ := Prod.mk.inj (Outcome.returned.inj done)
    split
    · exact SameStore.refl b
    · exact ⟨rfl,rfl,rfl⟩
  · cases done

theorem pingreqHandler_store (done : pingreqHandler env b c = .returned (rc,b')) : SameStore b b' := by
  obtain ⟨_,rfl⟩ := Prod.mk.inj (Outcome.returned.inj done)
  exact ⟨rfl,rfl,rfl⟩

/-- A SUBSCRIBE adds nothing but a subscription of its client to the topic of its packet. -/
theorem subscribeHandler_extends (named : Named b) (done : subscribeHandler env b c = .returned (rc,b')) :
    ∃ pkt, (b.client.cell c).ptr = some (.subscribe pkt) ∧
      Extends (fun s name => s.client = c ∧ pkt.topicLen ≠ 0 ∧ cstr pkt.topic = name) b b' := by
  obtain ⟨pkt,stored,⟨_,rfl⟩ | ⟨some,t,b₁,b₂,found,added,rfl⟩⟩ := subscribeHandler_cases done
  · exact ⟨pkt,stored,Extends.of_same named (SameTopics.of_eq rfl rfl)⟩
  · obtain ⟨first,name⟩ := findTopic_extends named found
    have acked : Extends (fun _ _ => False) b₁ (setAckReply env b₁ c Opcode.suback 0) :=
      Extends.of_same first.named (SameTopics.of_eq rfl rfl)
    have second := addSubscriber_extends acked.named added
    refine ⟨pkt,stored,?_⟩
    have whole := (first.trans acked).trans second
    refine ⟨whole.named,fun t' s member => ?_⟩
    rcases whole.subs t' s member with old | ⟨rfl,here⟩
    · exact .inl old
    · exact .inr ⟨rfl,some,name.symm.trans here.symm⟩

end Sizigy
