import Sizigy.Server

/-! What the handlers leave alone. A command handler run for one client never touches the
kernel, unless it is the one for DISCONNECT; it changes no descriptor and no context handler,
and the reply of no other client. -/
namespace Sizigy

variable {env : Env} {b b' : Broker} {c : Nat}

namespace Broker

@[simp] theorem setClient_kernel (b : Broker) (c : Nat) (f : Client → Client) :
    (b.setClient c f).kernel = b.kernel := rfl

@[simp] theorem setClient_topics (b : Broker) (c : Nat) (f : Client → Client) :
    (b.setClient c f).topics = b.topics := rfl

@[simp] theorem setClient_topic (b : Broker) (c : Nat) (f : Client → Client) :
    (b.setClient c f).topic = b.topic := rfl

@[simp] theorem setClient_next (b : Broker) (c : Nat) (f : Client → Client) :
    (b.setClient c f).client.next = b.client.next := rfl

@[simp] theorem setClient_same (b : Broker) (c : Nat) (f : Client → Client) :
    (b.setClient c f).client.cell c = f (b.client.cell c) := Heap.modify_same _ _ _

theorem setClient_other (b : Broker) (c p : Nat) (f : Client → Client) (apart : p ≠ c) :
    (b.setClient c f).client.cell p = b.client.cell p := Heap.modify_other _ _ _ _ apart

theorem setClient_field (b : Broker) (c p : Nat) (f : Client → Client) (field : Client → β)
    (keeps : ∀ k, field (f k) = field k) :
    field ((b.setClient c f).client.cell p) = field (b.client.cell p) :=
  Heap.modify_field _ _ _ _ field keeps

@[simp] theorem setTopic_same (b : Broker) (t : Nat) (f : Topic → Topic) :
    (b.setTopic t f).topic.cell t = f (b.topic.cell t) := Heap.modify_same _ _ _

theorem setTopic_other (b : Broker) (t p : Nat) (f : Topic → Topic) (apart : p ≠ t) :
    (b.setTopic t f).topic.cell p = b.topic.cell p := Heap.modify_other _ _ _ _ apart

theorem setTopic_field (b : Broker) (t p : Nat) (f : Topic → Topic) (field : Topic → β)
    (keeps : ∀ k, field (f k) = field k) :
    field ((b.setTopic t f).topic.cell p) = field (b.topic.cell p) :=
  Heap.modify_field _ _ _ _ field keeps

@[simp] theorem setKernel_client (b : Broker) (f : Kernel → Kernel) :
    (b.setKernel f).client = b.client := rfl

@[simp] theorem setKernel_topics (b : Broker) (f : Kernel → Kernel) :
    (b.setKernel f).topics = b.topics := rfl

@[simp] theorem setKernel_topic (b : Broker) (f : Kernel → Kernel) :
    (b.setKernel f).topic = b.topic := rfl

@[simp] theorem setKernel_kernel (b : Broker) (f : Kernel → Kernel) :
    (b.setKernel f).kernel = f b.kernel := rfl

@[simp] theorem setKernel_fd (b : Broker) (f : Kernel → Kernel) (c : Nat) :
    (b.setKernel f).fd c = b.fd c := rfl

end Broker

theorem iterate_invariant (property : σ → Prop) {f : σ → K × V → Status × σ}
    (preserved : ∀ s kv, property s → property (f s kv).2) (t : Probing.Table K V) (s : σ)
    (start : property s) : property (iterateEntries f t s).2 := by
  induction t generalizing s with
  | nil => exact start
  | cons entry t ih =>
    cases entry with
    | none => exact ih s start
    | some kv =>
      have next := preserved s kv start
      simp only [iterateEntries]
      split
      next done => exact ih _ (by rwa [done] at next)
      next done => rwa [done] at next

theorem hashmapIterate2_invariant (property : σ → Prop) {f : σ → K × V → Status × σ}
    (preserved : ∀ s kv, property s → property (f s kv).2) (m : Hashmap K V) (s : σ)
    (start : property s) : property (hashmapIterate2 m f s).2 := by
  unfold hashmapIterate2
  split
  · exact start
  · exact iterate_invariant property preserved m.entries s start

/-- A callback that keeps a property on the pairs that are stored keeps it. -/
theorem iterateEntries_stored (property : σ → Prop) {f : σ → K × V → Status × σ} (t : Probing.Table K V)
    (preserved : ∀ s kv, some kv ∈ t → property s → property (f s kv).2) (s : σ) (start : property s) :
    property (iterateEntries f t s).2 := by
  induction t generalizing s with
  | nil => exact start
  | cons entry t ih =>
    have later : ∀ s kv, some kv ∈ t → property s → property (f s kv).2 := fun s kv member =>
      preserved s kv (List.mem_cons_of_mem _ member)
    cases entry with
    | none => exact ih later s start
    | some kv =>
      have next := preserved s kv (List.mem_cons_self ..) start
      simp only [iterateEntries]
      split
      next done => exact ih later _ (by rwa [done] at next)
      next done => rwa [done] at next

/-- The clean-up over the topics map never does anything. -/
@[simp] theorem closeSockets_eq (b : Broker) : closeSockets b = b :=
  hashmapIterate2_invariant (· = b) (fun _ _ same => same) b.topics b rfl

/-- A step on behalf of one client that stays inside the process. -/
structure Local (c : Nat) (b b' : Broker) : Prop where
  kernel : b'.kernel = b.kernel
  next : b'.client.next = b.client.next
  fd : ∀ p, b'.fd p = b.fd p
  ctx : ∀ p, (b'.client.cell p).ctxHandler = (b.client.cell p).ctxHandler
  reply : ∀ p, p ≠ c → (b'.client.cell p).reply = (b.client.cell p).reply

namespace Local

theorem refl (c : Nat) (b : Broker) : Local c b b :=
  ⟨rfl,rfl,fun _ => rfl,fun _ => rfl,fun _ _ => rfl⟩

theorem trans (first : Local c b b') (second : Local c b' b'') : Local c b b'' where
  kernel := second.kernel.trans first.kernel
  next := second.next.trans first.next
  fd p := (second.fd p).trans (first.fd p)
  ctx p := (second.ctx p).trans (first.ctx p)
  reply p apart := (second.reply p apart).trans (first.reply p apart)

/-- Nothing of the clients or the kernel changed. -/
theorem of_eq (client : b'.client = b.client) (kernel : b'.kernel = b.kernel) : Local c b b' where
  kernel := kernel
  next := by rw [client]
  fd p := by rw [Broker.fd,Broker.fd,client]
  ctx p := by rw [client]
  reply p _ := by rw [client]

theorem setClient (b : Broker) (c : Nat) (f : Client → Client) (fd : ∀ k, (f k).fd = k.fd)
    (ctx : ∀ k, (f k).ctxHandler = k.ctxHandler) : Local c b (b.setClient c f) where
  kernel := rfl
  next := rfl
  fd p := b.setClient_field c p f Client.fd fd
  ctx p := b.setClient_field c p f Client.ctxHandler ctx
  reply p apart := by rw [b.setClient_other c p f apart]

end Local

theorem updateClientLastAction_local (env : Env) (b : Broker) (c d : Nat) :
    Local c b (updateClientLastAction env b d) where
  kernel := rfl
  next := rfl
  fd p := b.setClient_field d p _ Client.fd fun _ => rfl
  ctx p := b.setClient_field d p _ Client.ctxHandler fun _ => rfl
  reply p _ := b.setClient_field d p _ Client.reply fun _ => rfl

@[simp] theorem updateClientLastAction_reply (env : Env) (b : Broker) (d p : Nat) :
    ((updateClientLastAction env b d).client.cell p).reply = (b.client.cell p).reply :=
  b.setClient_field d p _ Client.reply fun _ => rfl

theorem setAckReply_local (env : Env) (b : Broker) (c : Nat) (opcode rc : UInt8) :
    Local c b (setAckReply env b c opcode rc) :=
  Local.setClient b c _ (fun _ => rfl) fun _ => rfl

@[simp] theorem setAckReply_reply (env : Env) (b : Broker) (c : Nat) (opcode rc : UInt8) :
    ((setAckReply env b c opcode rc).client.cell c).reply =
      some ⟨opcode,b.fd c,.payload (ackBuffer env opcode rc),env.junkRetained⟩ := by
  simp [setAckReply,setReply,Broker.fd]

theorem addClient_client (done : addClient env b c = .returned b') : b'.client = b.client := by
  obtain ⟨⟨_,clients⟩,_,done⟩ := Outcome.bind_eq_returned.mp done
  obtain rfl := Outcome.returned.inj done
  rfl

theorem delClient_client (done : delClient env b c = .returned b') : b'.client = b.client := by
  obtain ⟨⟨_,clients⟩,_,done⟩ := Outcome.bind_eq_returned.mp done
  obtain rfl := Outcome.returned.inj done
  rfl

theorem addClient_local (done : addClient env b c = .returned b') : Local d b b' := by
  obtain ⟨⟨_,clients⟩,_,done⟩ := Outcome.bind_eq_returned.mp done
  obtain rfl := Outcome.returned.inj done
  exact Local.of_eq rfl rfl

theorem delClient_local (done : delClient env b c = .returned b') : Local d b b' := by
  obtain ⟨⟨_,clients⟩,_,done⟩ := Outcome.bind_eq_returned.mp done
  obtain rfl := Outcome.returned.inj done
  exact Local.of_eq rfl rfl

theorem getTopic_client (done : getTopic env b name = .returned (raw,b')) : b'.client = b.client := by
  obtain ⟨⟨_,topics⟩,_,done⟩ := Outcome.bind_eq_returned.mp done
  obtain ⟨_,rfl⟩ := Prod.mk.inj (Outcome.returned.inj done)
  rfl

theorem getTopic_local (done : getTopic env b name = .returned (raw,b')) : Local d b b' := by
  obtain ⟨⟨_,topics⟩,_,done⟩ := Outcome.bind_eq_returned.mp done
  obtain ⟨_,rfl⟩ := Prod.mk.inj (Outcome.returned.inj done)
  exact Local.of_eq rfl rfl

theorem putTopic_local (done : putTopic env b name t = .returned b') : Local d b b' := by
  obtain ⟨⟨_,topics⟩,_,done⟩ := Outcome.bind_eq_returned.mp done
  obtain rfl := Outcome.returned.inj done
  exact Local.of_eq rfl rfl

theorem findTopic_cases (done : findTopic env b name = .returned (t,b')) :
    getTopic env b name = .returned (some t,b') ∨
    ∃ b₁, getTopic env b name = .returned (none,b₁) ∧ t = b₁.topic.next ∧
      putTopic env (createTopic b₁ name).2 name t = .returned b' := by
  obtain ⟨⟨raw,b₁⟩,got,done⟩ := Outcome.bind_eq_returned.mp done
  cases raw with
  | some found =>
    obtain ⟨rfl,rfl⟩ := Prod.mk.inj (Outcome.returned.inj done)
    exact .inl got
  | none =>
    obtain ⟨b₂,put,done⟩ := Outcome.bind_eq_returned.mp done
    obtain ⟨rfl,rfl⟩ := Prod.mk.inj (Outcome.returned.inj done)
    exact .inr ⟨b₁,got,rfl,put⟩

theorem findTopic_client (done : findTopic env b name = .returned (t,b')) : b'.client = b.client := by
  rcases findTopic_cases done with got | ⟨b₁,got,_,put⟩
  · exact getTopic_client got
  · obtain ⟨⟨_,topics⟩,_,put⟩ := Outcome.bind_eq_returned.mp put
    obtain rfl := Outcome.returned.inj put
    have client := getTopic_client got
    exact client

theorem findTopic_local (done : findTopic env b name = .returned (t,b')) : Local d b b' := by
  rcases findTopic_cases done with got | ⟨b₁,got,_,put⟩
  · exact getTopic_local got
  · have created : Local d b₁ (createTopic b₁ name).2 := Local.of_eq rfl rfl
    exact ((getTopic_local got).trans created).trans (putTopic_local put)

theorem insertSubscriber_subscribers (b : Broker) (t : Nat) (s : Subscription) (p : Nat) :
    ((insertSubscriber b t s).topic.cell p).subscribers =
      if p = t then listHeadInsert (b.topic.cell p).subscribers s else (b.topic.cell p).subscribers := by
  unfold insertSubscriber Broker.setTopic
  split
  next same =>
    subst same
    rw [Heap.modify_same]
  next apart => rw [Heap.modify_other _ _ _ _ apart]

theorem insertSubscriber_name (b : Broker) (t : Nat) (s : Subscription) (p : Nat) :
    ((insertSubscriber b t s).topic.cell p).name = (b.topic.cell p).name :=
  b.setTopic_field t p (fun k => { k with subscribers := listHeadInsert k.subscribers s }) Topic.name
    fun _ => rfl

theorem addSubscriber_cases (done : addSubscriber env b s = .returned b') :
    ∃ t b₁, getTopic env b s.topic = .returned (some t,b₁) ∧ b' = insertSubscriber b₁ t s := by
  obtain ⟨⟨raw,b₁⟩,got,done⟩ := Outcome.bind_eq_returned.mp done
  cases raw with
  | none => cases done
  | some t =>
    obtain rfl := Outcome.returned.inj done
    exact ⟨t,b₁,got,rfl⟩

theorem addSubscriber_local (done : addSubscriber env b s = .returned b') : Local d b b' := by
  obtain ⟨t,b₁,got,rfl⟩ := addSubscriber_cases done
  exact (getTopic_local got).trans (Local.of_eq rfl rfl)

theorem delSubscriber_cases (done : delSubscriber env b s = .returned b') :
    ∃ t b₁, getTopic env b s.topic = .returned (some t,b₁) ∧ b' = b₁.setTopic t fun k =>
      { k with subscribers :=
          { k.subscribers with nodes := listRemoveNode (subCompare b₁ · s) k.subscribers.nodes } } := by
  obtain ⟨⟨raw,b₁⟩,got,done⟩ := Outcome.bind_eq_returned.mp done
  cases raw with
  | none => cases done
  | some t =>
    obtain rfl := Outcome.returned.inj done
    exact ⟨t,b₁,got,rfl⟩

theorem delSubscriber_local (done : delSubscriber env b s = .returned b') : Local d b b' := by
  obtain ⟨t,b₁,got,rfl⟩ := delSubscriber_cases done
  exact (getTopic_local got).trans (Local.of_eq rfl rfl)

/-- A CONNECT without an id registers nothing; one with an id puts the client into the map,
under the new id if the session is clean. -/
theorem registerClient_cases (done : registerClient env b c pkt = .returned b') :
    (pkt.idlen = 0 ∧ b' = b) ∨
    (pkt.idlen ≠ 0 ∧ ∃ b₁, delClient env b c = .returned b₁ ∧ pkt.cleanSession = 1 ∧
      addClient env (b₁.setClient c fun k => { k with id := cstr pkt.id }) c = .returned b') ∨
    (pkt.idlen ≠ 0 ∧ pkt.cleanSession ≠ 1 ∧ addClient env b c = .returned b') := by
  unfold registerClient at done
  split at done
  next empty => exact .inl ⟨empty,(Outcome.returned.inj done).symm⟩
  next named =>
    split at done
    next clean =>
      obtain ⟨b₁,deleted,added⟩ := Outcome.bind_eq_returned.mp done
      exact .inr (.inl ⟨named,b₁,deleted,clean,added⟩)
    next kept => exact .inr (.inr ⟨named,kept,done⟩)

theorem connectHandler_cases (done : connectHandler env b c = .returned (rc,b')) :
    ∃ pkt b₁, (b.client.cell c).ptr = some (.connect pkt) ∧ registerClient env b c pkt = .returned b₁ ∧
      b' = updateClientLastAction env
        (setAckReply env b₁ c Opcode.connack (if pkt.idlen = 0 then 1 else 0)) c := by
  unfold connectHandler at done
  split at done
  next pkt stored =>
    obtain ⟨b₁,registered,done⟩ := Outcome.bind_eq_returned.mp done
    obtain ⟨_,rfl⟩ := Prod.mk.inj (Outcome.returned.inj done)
    exact ⟨pkt,b₁,stored,registered,rfl⟩
  · cases done

theorem registerClient_local (done : registerClient env b c pkt = .returned b') : Local c b b' := by
  rcases registerClient_cases done with ⟨_,rfl⟩ | ⟨_,b₁,deleted,_,added⟩ | ⟨_,_,added⟩
  · exact Local.refl c _
  · have renamed := Local.setClient b₁ c (fun k => { k with id := cstr pkt.id }) (fun _ => rfl) fun _ => rfl
    exact ((delClient_local deleted).trans renamed).trans (addClient_local added)
  · exact addClient_local added

theorem connectHandler_local (done : connectHandler env b c = .returned (rc,b')) :
    Local c b b' ∧ (b'.client.cell c).reply.isSome := by
  obtain ⟨pkt,b₁,_,registered,rfl⟩ := connectHandler_cases done
  have acked := setAckReply_local env b₁ c Opcode.connack (if pkt.idlen = 0 then 1 else 0)
  exact ⟨((registerClient_local registered).trans acked).trans (updateClientLastAction_local env _ c c),by simp⟩

theorem pingreqHandler_local (done : pingreqHandler env b c = .returned (rc,b')) :
    Local c b b' ∧ (b'.client.cell c).reply.isSome := by
  obtain ⟨_,rfl⟩ := Prod.mk.inj (Outcome.returned.inj done)
  exact ⟨(setAckReply_local env b c _ _).trans (updateClientLastAction_local env _ c c),by simp⟩

theorem publishHandler_local (done : publishHandler env b c = .returned (rc,b')) :
    ∃ pkt, (b.client.cell c).ptr = some (.publish pkt) ∧ Local c b b' ∧
      (pkt.topicLen = 0 → b' = b) ∧ (pkt.topicLen ≠ 0 → (b'.client.cell c).reply =
        some ⟨Opcode.publish,b.fd c,.publish pkt,env.junkRetained⟩) := by
  unfold publishHandler at done
  split at done
  next pkt stored =>
    refine ⟨pkt,stored,?_⟩
    obtain ⟨_,rfl⟩ := Prod.mk.inj (Outcome.returned.inj done)
    split
    next empty => exact ⟨Local.refl c b,fun _ => rfl,fun some => absurd empty some⟩
    next some =>
      refine ⟨Local.setClient b c _ (fun _ => rfl) fun _ => rfl,fun empty => absurd empty some,?_⟩
      intro _
      simp [Broker.fd]
  · cases done

/-- A SUBSCRIBE with a topic: the topic is found, then looked up again by its name, and the
subscription goes to the head of that list. -/
theorem subscribeHandler_cases (done : subscribeHandler env b c = .returned (rc,b')) :
    ∃ pkt, (b.client.cell c).ptr = some (.subscribe pkt) ∧
      ((pkt.topicLen = 0 ∧ b' = setAckReply env b c Opcode.suback 1) ∨
      (pkt.topicLen ≠ 0 ∧ ∃ t b₁ b₂, findTopic env b (cstr pkt.topic) = .returned (t,b₁) ∧
        addSubscriber env (setAckReply env b₁ c Opcode.suback 0) ⟨c,(b₁.topic.cell t).name,pkt.qos⟩ =
          .returned b₂ ∧
        b' = b₂.setClient c fun k =>
          { k with reply := k.reply.map fun r => { r with retained := (b₂.topic.cell t).retained } })) := by
  unfold subscribeHandler at done
  split at done
  next pkt stored =>
    refine ⟨pkt,stored,?_⟩
    split at done
    next empty =>
      obtain ⟨_,rfl⟩ := Prod.mk.inj (Outcome.returned.inj done)
      exact .inl ⟨empty,rfl⟩
    next some =>
      obtain ⟨⟨t,b₁⟩,found,done⟩ := Outcome.bind_eq_returned.mp done
      obtain ⟨b₂,added,done⟩ := Outcome.bind_eq_returned.mp done
      obtain ⟨_,rfl⟩ := Prod.mk.inj (Outcome.returned.inj done)
      exact .inr ⟨some,t,b₁,b₂,found,added,rfl⟩
  · cases done

theorem addSubscriber_client (done : addSubscriber env b s = .returned b') : b'.client = b.client := by
  obtain ⟨t,b₁,got,rfl⟩ := addSubscriber_cases done
  have client := getTopic_client got
  exact client

theorem subscribeHandler_local (done : subscribeHandler env b c = .returned (rc,b')) :
    Local c b b' ∧ (b'.client.cell c).reply.isSome := by
  obtain ⟨pkt,_,⟨_,rfl⟩ | ⟨_,t,b₁,b₂,found,added,rfl⟩⟩ := subscribeHandler_cases done
  · exact ⟨setAckReply_local env b c _ _,by simp⟩
  · constructor
    · exact (((findTopic_local found).trans (setAckReply_local env b₁ c _ _)).trans
        (addSubscriber_local added)).trans (Local.setClient b₂ c _ (fun _ => rfl) fun _ => rfl)
    · simp [addSubscriber_client added]

theorem unsubscribeHandler_cases (done : unsubscribeHandler env b c = .returned (rc,b')) :
    ∃ pkt, (b.client.cell c).ptr = some (.unsubscribe pkt) ∧
      ((pkt.topicLen = 0 ∧ b' = setAckReply env b c Opcode.unsuback 1) ∨
      (pkt.topicLen ≠ 0 ∧
        delSubscriber env (setAckReply env b c Opcode.unsuback 0) ⟨c,cstr pkt.topic,0⟩ = .returned b')) := by
  unfold unsubscribeHandler at done
  split at done
  next pkt stored =>
    refine ⟨pkt,stored,?_⟩
    split at done
    next empty =>
      obtain ⟨_,rfl⟩ := Prod.mk.inj (Outcome.returned.inj done)
      exact .inl ⟨empty,rfl⟩
    next some =>
      obtain ⟨b₁,deleted,done⟩ := Outcome.bind_eq_returned.mp done
      obtain ⟨_,rfl⟩ := Prod.mk.inj (Outcome.returned.inj done)
      exact .inr ⟨some,deleted⟩
  · cases done

theorem delSubscriber_client (done : delSubscriber env b s = .returned b') : b'.client = b.client := by
  obtain ⟨t,b₁,got,rfl⟩ := delSubscriber_cases done
  have client := getTopic_client got
  exact client

/-- No two entries of the table share an opcode. -/
theorem Command.ctype_injective {left right : Command} (same : left.ctype = right.ctype) : left = right := by
  cases left <;> cases right <;> first | rfl | exact absurd same (by decide)

theorem runCommands_skip (table : List Command) (absent : ∀ command ∈ table, command.ctype ≠ opcode)
    (executed : Bool) (freeReply : Int) (b : Broker) :
    runCommands env opcode c table executed freeReply b = pure (executed,freeReply,b) := by
  induction table with
  | nil => rfl
  | cons command table ih =>
    rw [runCommands,if_neg (absent command (List.mem_cons_self ..))]
    exact ih fun other member => absent other (List.mem_cons_of_mem _ member)

/-- The call of the one handler that the loop finds. -/
def callCommand (env : Env) (b : Broker) (c : Nat) (command : Command) :
    Exec Event (Bool × Int × Broker) := do
  Exec.emit (.call command c (b.client.cell c).ptr)
  let (freeReply,b) ← Exec.lift (command.handler env b c)
  return (true,freeReply,b)

theorem runCommands_split (table : List Command) (command : Command) (rest : List Command)
    (before : ∀ other ∈ table, other.ctype ≠ command.ctype)
    (after : ∀ other ∈ rest, other.ctype ≠ command.ctype) (executed : Bool) (freeReply : Int)
    (b : Broker) :
    runCommands env command.ctype c (table ++ command :: rest) executed freeReply b =
      callCommand env b c command := by
  induction table with
  | nil =>
    rw [List.nil_append,runCommands,if_pos rfl]
    simp only [runCommands_skip rest after]
    rfl
  | cons other table ih =>
    rw [List.cons_append,runCommands,if_neg (before other (List.mem_cons_self ..))]
    exact ih fun another member => before another (List.mem_cons_of_mem _ member)

/-- No two entries of the table have the same opcode. -/
theorem runCommands_match (env : Env) (command : Command) (c : Nat) (b : Broker) :
    runCommands env command.ctype c commandsHashmap false (-1) b = callCommand env b c command := by
  have split : ∃ table rest, commandsHashmap = table ++ command :: rest ∧
      (∀ other ∈ table, other.ctype ≠ command.ctype) ∧
      ∀ other ∈ rest, other.ctype ≠ command.ctype := by
    cases command with
    | connect => exact ⟨[],_,rfl,by decide,by decide⟩
    | publish => exact ⟨[.connect],_,rfl,by decide,by decide⟩
    | pingreq => exact ⟨[.connect,.publish],_,rfl,by decide,by decide⟩
    | subscribe => exact ⟨[.connect,.publish,.pingreq],_,rfl,by decide,by decide⟩
    | unsubscribe => exact ⟨[.connect,.publish,.pingreq,.subscribe],_,rfl,by decide,by decide⟩
    | disconnect =>
      exact ⟨[.connect,.publish,.pingreq,.subscribe,.unsubscribe],_,rfl,by decide,by decide⟩
  obtain ⟨table,rest,split,before,after⟩ := split
  rw [split]
  exact runCommands_split table command rest before after _ _ b

/-- The client as its command handler finds it. -/
def linked (env : Env) (b : Broker) (c : Nat) (pkt : Packet) : Broker :=
  (updateClientLastAction env b c).setClient c fun k => { k with ptr := some pkt }

@[simp] theorem linked_ptr (env : Env) (b : Broker) (c : Nat) (pkt : Packet) :
    ((linked env b c pkt).client.cell c).ptr = some pkt := by
  simp [linked]

theorem linked_other (env : Env) (b : Broker) (c p : Nat) (pkt : Packet) (apart : p ≠ c) :
    (linked env b c pkt).client.cell p = b.client.cell p := by
  rw [linked,Broker.setClient_other _ c p _ apart,updateClientLastAction,Broker.setClient_other _ c p _ apart]

theorem linked_local (env : Env) (b : Broker) (c : Nat) (pkt : Packet) :
    Local c b (linked env b c pkt) :=
  (updateClientLastAction_local env b c c).trans (Local.setClient _ c _ (fun _ => rfl) fun _ => rfl)

@[simp] theorem linked_reply (env : Env) (b : Broker) (c : Nat) (pkt : Packet) (p : Nat) :
    ((linked env b c pkt).client.cell p).reply = (b.client.cell p).reply := by
  have kept := (updateClientLastAction env b c).setClient_field c p
    (fun k => { k with ptr := some pkt }) Client.reply fun _ => rfl
  exact kept.trans (updateClientLastAction_reply env b c p)

/-- The client handed over to the reply handler and armed for output. -/
def awaitReply (b : Broker) (fd : Fd) (c : Nat) : Broker :=
  (b.setClient c fun k => { k with ctxHandler := .reply }).setKernel (·.modEpoll fd .epollout c)

theorem awaitReply_reply (b : Broker) (fd : Fd) (c : Nat) :
    ((awaitReply b fd c).client.cell c).reply = (b.client.cell c).reply := by
  simp [awaitReply]

theorem awaitReply_ctx (b : Broker) (fd : Fd) (c : Nat) :
    ((awaitReply b fd c).client.cell c).ctxHandler = .reply := by
  simp [awaitReply]

theorem awaitReply_other (b : Broker) (fd : Fd) (c p : Nat) (apart : p ≠ c) :
    (awaitReply b fd c).client.cell p = b.client.cell p := by
  rw [awaitReply,Broker.setKernel_client,Broker.setClient_other _ c p _ apart]

/-- With a known command the request is its handler and the switch to the reply handler. -/
theorem serveRequest_command (env : Env) (b : Broker) (c : Nat) (command : Command) (pkt : Packet) :
    serveRequest env b c command.ctype pkt = (do
      let (_,_,b₁) ← callCommand env (linked env b c pkt) c command
      return (0,awaitReply b₁ (b.fd c) c)) := by
  have apart : command.ctype ≠ Opcode.pubrec := by cases command <;> decide
  change (runCommands env command.ctype c commandsHashmap false (-1) (linked env b c pkt) >>= _) = _
  rw [runCommands_match]
  congr 1
  funext ⟨executed,freeReply,b₁⟩
  simp only [ne_eq,apart,not_false_eq_true,true_or,if_true]
  rfl

/-- Without one nothing happens before the switch. -/
theorem serveRequest_unknown (env : Env) (b : Broker) (c : Nat) (pkt : Packet)
    (unknown : ∀ command : Command, command.ctype ≠ opcode) :
    serveRequest env b c opcode pkt = pure (0,awaitReply (linked env b c pkt) (b.fd c) c) := by
  change (runCommands env opcode c commandsHashmap false (-1) (linked env b c pkt) >>= _) = _
  rw [runCommands_skip commandsHashmap fun command _ => unknown command]
  simp only [Exec.pure_bind,or_true,if_true]
  rfl

theorem callCommand_returned (done : (callCommand env b c command).outcome = .returned (executed,rc,b')) :
    command.handler env b c = .returned (rc,b') := by
  simp only [callCommand,Exec.bind_outcome,Exec.emit_outcome,Outcome.returned_bind,Exec.lift_outcome]
    at done
  obtain ⟨⟨rc',b₁⟩,handled,done⟩ := Outcome.bind_eq_returned.mp done
  obtain ⟨_,rest⟩ := Prod.mk.inj (Outcome.returned.inj done)
  rw [handled,rest]

/-- A packet served to its end: the handler of its command ran, or there is none. -/
theorem serveRequest_cases (done : (serveRequest env b c opcode pkt).outcome = .returned (rc,b')) :
    ∃ b₁, b' = awaitReply b₁ (b.fd c) c ∧
      ((∃ command rc', Command.ctype command = opcode ∧
          command.handler env (linked env b c pkt) c = .returned (rc',b₁)) ∨
        ((∀ command : Command, command.ctype ≠ opcode) ∧ b₁ = linked env b c pkt)) := by
  by_cases known : ∃ command : Command, command.ctype = opcode
  · obtain ⟨command,rfl⟩ := known
    rw [serveRequest_command,Exec.bind_outcome] at done
    obtain ⟨⟨executed,rc',b₁⟩,called,done⟩ := Outcome.bind_eq_returned.mp done
    obtain ⟨_,rfl⟩ := Prod.mk.inj (Outcome.returned.inj done)
    exact ⟨b₁,rfl,.inl ⟨command,rc',rfl,callCommand_returned called⟩⟩
  · have unknown : ∀ command : Command, command.ctype ≠ opcode := fun command equal =>
      known ⟨command,equal⟩
    rw [serveRequest_unknown env b c pkt unknown] at done
    obtain ⟨_,rfl⟩ := Prod.mk.inj (Outcome.returned.inj done)
    exact ⟨_,rfl,.inr ⟨unknown,rfl⟩⟩

/-- The client waiting for input again. -/
def awaitRequest (b : Broker) (fd : Fd) (c : Nat) : Broker :=
  (b.setClient c fun k => { k with ctxHandler := .request }).setKernel (·.modEpoll fd .epollin c)

/-- What `recv_packet` makes of the bytes waiting for a client. -/
def incoming (env : Env) (b : Broker) (c : Nat) : Outcome (Option (UInt8 × Buffer) × Socket) :=
  recvPacket env.junk env.fuel (requestRing env.stack) (b.kernel.socket (b.fd c))

theorem requestHandler_cases (done : (requestHandler env b c).outcome = .returned (rc,b')) :
    ∃ packet s, incoming env b c = .returned (packet,s) ∧
      ((packet = none ∧ b' = awaitRequest (b.setKernel (·.setSocket (b.fd c) s)) (b.fd c) c) ∨
      ∃ opcode buffer, packet = some (opcode,buffer) ∧
        (((unpackPacket opcode buffer).1 = none ∧ b' = b.setKernel (·.setSocket (b.fd c) s)) ∨
        ∃ pkt, (unpackPacket opcode buffer).1 = some pkt ∧
          (serveRequest env (b.setKernel (·.setSocket (b.fd c) s)) c opcode pkt).outcome =
            .returned (rc,b'))) := by
  unfold requestHandler at done
  simp only [Exec.bind_outcome,Exec.lift_outcome] at done
  obtain ⟨⟨packet,s⟩,received,done⟩ := Outcome.bind_eq_returned.mp done
  refine ⟨packet,s,received,?_⟩
  cases packet with
  | none =>
    obtain ⟨_,rfl⟩ := Prod.mk.inj (Outcome.returned.inj done)
    exact .inl ⟨rfl,rfl⟩
  | some packet =>
    obtain ⟨opcode,buffer⟩ := packet
    refine .inr ⟨opcode,buffer,rfl,?_⟩
    simp only at done
    cases decoded : (unpackPacket opcode buffer).1 with
    | none =>
      rw [decoded] at done
      obtain ⟨_,rfl⟩ := Prod.mk.inj (Outcome.returned.inj done)
      exact .inl ⟨rfl,rfl⟩
    | some pkt =>
      rw [decoded] at done
      exact .inr ⟨pkt,rfl,done⟩

/-- The call shows whether or not the handler returns. -/
theorem serveRequest_events (command : Command) (pkt : Packet) :
    (serveRequest env b c command.ctype pkt).events = [.call command c (some pkt)] := by
  rw [serveRequest_command,Exec.bind_silent _ _ fun _ => rfl,callCommand,Exec.emit_bind_events,
    Exec.bind_silent _ _ fun _ => rfl,Exec.lift_events,linked_ptr]

theorem requestHandler_events
    (received : recvPacket env.junk env.fuel (requestRing env.stack) (b.kernel.socket (b.fd c)) =
      .returned (some (opcode,buffer),s)) :
    (requestHandler env b c).events =
      match (unpackPacket opcode buffer).1 with
      | none => []
      | some pkt => (serveRequest env (b.setKernel (·.setSocket (b.fd c) s)) c opcode pkt).events := by
  unfold requestHandler
  simp only [received,Exec.lift_bind]
  cases (unpackPacket opcode buffer).1 with
  | none => rfl
  | some pkt => rfl

theorem requestHandler_quiet
    (received : recvPacket env.junk env.fuel (requestRing env.stack) (b.kernel.socket (b.fd c)) =
      .returned (none,s)) :
    (requestHandler env b c).events = [] := by
  unfold requestHandler
  simp only [received,Exec.lift_bind]
  rfl

/-- Surroundings in which every allocation and every send succeeds. -/
def plainEnv : Env where
  mutex := .default
  calloc := fun _ => true
  fuel := 2
  now := 0
  junk := fun _ => 0
  stack := fun _ => 0
  junkRetained := none
  sendall := fun _ bytes => (0,bytes.length)
  randomName := cstr [120]

end Sizigy
