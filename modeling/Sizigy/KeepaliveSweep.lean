import Sizigy.HashmapRefinement
import Sizigy.Keepalive
import Sizigy.ServerSpec

/-! One sweep of the keepalive thread over the map of clients. The callback answers an error for
every client that it does not close, and an error ends the iteration: the sweep closes the
clients at the front of the table up to the first one that is not idle. -/
namespace Sizigy.KeepaliveSweep

open Probing Keepalive HashmapRefinement

variable {env : Env} {b : Broker} {c d : Nat} {clients : List Nat}

/-- The client is online and its last action lies at least its keepalive in the past. -/
def Due (now : UInt64) (k : Client) : Prop :=
  k.status = .online ∧ k.lastActionTime ≤ now ∧ k.lastActionTime.toNat + k.keepalive.toNat ≤ now.toNat

instance (now : UInt64) (k : Client) : Decidable (Due now k) :=
  inferInstanceAs (Decidable (k.status = .online ∧ k.lastActionTime ≤ now ∧
    k.lastActionTime.toNat + k.keepalive.toNat ≤ now.toNat))

/-- The clients in the map, in the order of the slots. -/
def stored (b : Broker) : List Nat := b.clients.entries.filterMap (Option.map Prod.snd)

/-- After the sweep exactly the due clients of the map have gone offline. -/
def Complete (env : Env) (b : Broker) : Prop :=
  ∀ c ∈ stored b, ((keepaliveSweep env b).client.cell c).status =
    if Due env.now (b.client.cell c) then .offline else (b.client.cell c).status

/-- The test of the callback on a client. -/
def Idle (env : Env) (b : Broker) (c : Nat) : Prop :=
  Expired (b.client.cell c).keepalive (b.client.cell c).status env.now (b.client.cell c).lastActionTime

instance (env : Env) (b : Broker) (c : Nat) : Decidable (Idle env b c) :=
  inferInstanceAs (Decidable (Expired _ _ _ _))

/-- Only idle clients, each once, stand before some entry of the client. -/
def Leads (env : Env) (b : Broker) (clients : List Nat) (c : Nat) : Prop :=
  ∃ before after, clients = before ++ c :: after ∧ before.Nodup ∧ ∀ d ∈ before, Idle env b d

/-- The condition on the table: every due client has only idle ones before it, and none of the
clients with only idle ones before it passes the test with a last action in the future. -/
structure Sorted (env : Env) (b : Broker) : Prop where
  due : ∀ c ∈ stored b, Due env.now (b.client.cell c) → Leads env b (stored b) c
  past : ∀ c, Leads env b (stored b) c → Idle env b c → (b.client.cell c).lastActionTime ≤ env.now

def closeClient (b : Broker) (c : Nat) : Broker :=
  (b.setKernel (·.close (b.fd c))).setClient c fun k => { k with status := .offline }

def sweep (env : Env) : List Nat → Broker → Broker
  | [], b => b
  | c :: clients, b => if Idle env b c then sweep env clients (closeClient b c) else b

theorem iterateEntries_sweep (env : Env) (t : Table CString Nat) (b : Broker) :
    (iterateEntries (checkClientStatus env) t b).2 = sweep env (t.filterMap (Option.map Prod.snd)) b := by
  induction t generalizing b with
  | nil => rfl
  | cons first t ih =>
    cases first with
    | none => simpa [iterateEntries] using ih b
    | some kv =>
      have test : checkClientStatus env b kv = if Idle env b kv.2 then (.ok,closeClient b kv.2) else (.err,b) :=
        checkClientStatus_expired env b kv
      by_cases idle : Idle env b kv.2
      · rw [if_pos idle] at test
        simpa [iterateEntries,test,sweep,idle] using ih (closeClient b kv.2)
      · rw [if_neg idle] at test
        simp [iterateEntries,test,sweep,idle]

/-- The early return for an empty map makes no difference. -/
theorem keepaliveSweep_eq (counted : b.clients.size = used b.clients.entries) :
    keepaliveSweep env b = sweep env (stored b) b := by
  unfold keepaliveSweep hashmapIterate2
  split
  next empty =>
    have none : stored b = [] := by
      simp only [stored,List.filterMap_eq_nil_iff,Option.map_eq_none_iff]
      simpa [used,empty] using counted.symm
    simp [none,sweep]
  next => exact iterateEntries_sweep env _ b

theorem closeClient_idle (env : Env) (b : Broker) (c d : Nat) :
    Idle env (closeClient b c) d ↔ Idle env b d ∧ d ≠ c := by
  by_cases same : d = c
  · simp [same,Idle,Expired,closeClient]
  · simp [same,Idle,closeClient,Broker.setClient_other,Broker.setKernel]

theorem leads_cons (idle : Idle env b d) (apart : c ≠ d) :
    Leads env (closeClient b d) clients c ↔ Leads env b (d :: clients) c := by
  constructor
  · rintro ⟨before,after,rfl,nodup,all⟩
    refine ⟨d :: before,after,rfl,List.nodup_cons.mpr ⟨fun member => ?_,nodup⟩,?_⟩
    · exact ((closeClient_idle env b d d).mp (all d member)).2 rfl
    · rintro e (_ | ⟨_,member⟩)
      · exact idle
      · exact ((closeClient_idle env b d e).mp (all e member)).1
  · rintro ⟨before,after,split,nodup,all⟩
    cases before with
    | nil => exact absurd (List.cons.inj split).1.symm apart
    | cons first before =>
      obtain ⟨rfl,rfl⟩ := List.cons.inj split
      obtain ⟨fresh,nodup'⟩ := List.nodup_cons.mp nodup
      refine ⟨before,after,rfl,nodup',fun e member => (closeClient_idle env b d e).mpr ⟨?_,?_⟩⟩
      · exact all e (List.mem_cons_of_mem _ member)
      · rintro rfl
        exact fresh member

/-- A sweep closes the idle clients that have only idle ones before them. -/
theorem sweep_status (env : Env) (clients : List Nat) (b : Broker) (c : Nat) :
    ((sweep env clients b).client.cell c).status = .offline ∧ Idle env b c ∧ Leads env b clients c ∨
    ((sweep env clients b).client.cell c).status = (b.client.cell c).status ∧
      ¬(Idle env b c ∧ Leads env b clients c) := by
  induction clients generalizing b with
  | nil =>
    refine .inr ⟨rfl,?_⟩
    rintro ⟨_,before,after,split,_⟩
    simp at split
  | cons d clients ih =>
    by_cases idle : Idle env b d
    · have rest := ih (closeClient b d)
      simp only [sweep,if_pos idle]
      by_cases same : c = d
      · subst same
        have closed : ((closeClient b c).client.cell c).status = .offline := by simp [closeClient]
        refine .inl ⟨?_,idle,[],clients,rfl,List.nodup_nil,by simp⟩
        rcases rest with ⟨offline,_⟩ | ⟨kept,_⟩
        · exact offline
        · exact kept.trans closed
      · have status : ((closeClient b d).client.cell c).status = (b.client.cell c).status := by
          simp [closeClient,Broker.setClient_other _ d c _ same,Broker.setKernel]
        rwa [closeClient_idle,leads_cons idle same,status,and_iff_left same] at rest
    · refine .inr ⟨by simp [sweep,idle],?_⟩
      rintro ⟨idle',before,after,split,_,all⟩
      cases before with
      | nil => exact idle ((List.cons.inj split).1 ▸ idle')
      | cons first before => exact idle ((List.cons.inj split).1 ▸ all first (List.mem_cons_self ..))

/-- With a last action that is not in the future the test is the real one. -/
theorem idle_iff_due (past : (b.client.cell c).lastActionTime ≤ env.now) :
    Idle env b c ↔ Due env.now (b.client.cell c) := by
  constructor
  · intro idle
    exact ⟨idle.1,past,expired_idle past idle⟩
  · rintro ⟨online,_,long⟩
    refine ⟨online,UInt64.le_iff_toNat_le.mpr ?_⟩
    rw [UInt64.toNat_sub_of_le _ _ past]
    simp
    omega

theorem due_idle (due : Due env.now (b.client.cell c)) : Idle env b c := (idle_iff_due due.2.1).mpr due

/-- A sweep is complete exactly when the table is sorted in this sense. -/
theorem complete_iff_sorted (counted : b.clients.size = used b.clients.entries) :
    Complete env b ↔ Sorted env b := by
  unfold Complete
  rw [keepaliveSweep_eq counted]
  constructor
  · intro complete
    refine ⟨fun c member due => ?_,fun c leads idle => ?_⟩
    · have after := complete c member
      rw [if_pos due] at after
      rcases sweep_status env (stored b) b c with ⟨_,_,leads⟩ | ⟨kept,_⟩
      · exact leads
      · exact absurd (after.symm.trans (kept.trans due.1)) nofun
    · have member : c ∈ stored b := by
        obtain ⟨before,after,split,_⟩ := leads
        simp [split]
      have after := complete c member
      rcases sweep_status env (stored b) b c with ⟨offline,_⟩ | ⟨_,other⟩
      · by_contra future
        rw [if_neg fun due => future due.2.1,offline] at after
        exact absurd (after.trans idle.1) nofun
      · exact absurd ⟨idle,leads⟩ other
  · intro sorted c member
    rcases sweep_status env (stored b) b c with ⟨offline,idle,leads⟩ | ⟨kept,other⟩
    · rw [offline,if_pos ((idle_iff_due (sorted.past c leads idle)).mp idle)]
    · rw [kept,if_neg fun due => other ⟨due_idle due,sorted.due c member due⟩]

/-- Two registered clients: one active in the second 100, one idle since the second 0. -/
def registered (first second : UInt64) : Broker :=
  { startServer 3 with
    clients := twoKeys
    client := ⟨3,fun c => ⟨.online,60,if c = 1 then first else second,3 + c,.request,keyC,none,none⟩⟩ }

def at100 : Env := { plainEnv with now := 100 }

theorem registered_stored (first second : UInt64) : stored (registered first second) = [1,2] := by
  change twoKeys.entries.filterMap (Option.map Prod.snd) = [1,2]
  decide +kernel

/-- With the idle client in front, it is closed and the active one is not. -/
theorem idleFirst_complete : ((keepaliveSweep at100 (registered 0 100)).client.cell 1).status = .offline ∧
    ((keepaliveSweep at100 (registered 0 100)).client.cell 2).status = .online := by
  have sorted : Sorted at100 (registered 0 100) := by
    refine ⟨fun c member due => ?_,fun c _ _ => ?_⟩
    · rw [registered_stored] at member ⊢
      rcases List.mem_pair.mp member with rfl | rfl
      · exact ⟨[],[2],rfl,List.nodup_nil,by simp⟩
      · exact absurd due (by decide)
    · change (if c = 1 then (0 : UInt64) else 100) ≤ 100
      split <;> decide
  have counted : (registered 0 100).clients.size = used (registered 0 100).clients.entries := by decide +kernel
  have complete := (complete_iff_sorted counted).mpr sorted
  unfold Complete at complete
  rw [registered_stored] at complete
  exact ⟨complete 1 (by simp),complete 2 (by simp)⟩

/-- With the active client in front, the sweep ends there and the idle one stays online. -/
theorem activeFirst_incomplete :
    Run (fun _ m op m' => Called m op m') hashmapCreate [.put keyC 1,.put keyK 2] (registered 100 0).clients ∧
    Due at100.now ((registered 100 0).client.cell 2) ∧
    ((keepaliveSweep at100 (registered 100 0)).client.cell 2).status = .online ∧
    ¬Complete at100 (registered 100 0) := by
  have stays : ((keepaliveSweep at100 (registered 100 0)).client.cell 2).status = .online := by decide +kernel
  have due : Due at100.now ((registered 100 0).client.cell 2) := by decide
  refine ⟨(Run.nil.snoc oneKey_called).snoc twoKeys_called,due,stays,fun complete => ?_⟩
  have after := complete 2 (by simp [registered_stored])
  rw [stays,if_pos due] at after
  exact absurd after nofun

end Sizigy.KeepaliveSweep
