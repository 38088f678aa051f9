import Sizigy.Library.Run
import Sizigy.Server

/-! The keepalive sweep and the workers on one client. The sweep reads the clock, reads the
time of the client's last action and decides; a worker's update reads the clock and the old
value in either order and then swaps. The idle time is an unsigned difference, so the sweep
is right as long as no swap stores a later second between its two reads. -/
namespace Sizigy.Keepalive

/-- The test of `check_client_status`. -/
def Expired (keepalive : UInt16) (status : Presence) (now last : UInt64) : Prop :=
  status = .online ∧ now - last ≥ keepalive.toUInt64

instance (keepalive : UInt16) (status : Presence) (now last : UInt64) :
    Decidable (Expired keepalive status now last) :=
  inferInstanceAs (Decidable (status = .online ∧ now - last ≥ keepalive.toUInt64))

/-- Uninterrupted, the sweep closes a client exactly on that test. -/
theorem checkClientStatus_expired (env : Env) (b : Broker) (kv : CString × Nat) :
    checkClientStatus env b kv =
      if Expired (b.client.cell kv.2).keepalive (b.client.cell kv.2).status env.now
          (b.client.cell kv.2).lastActionTime
      then (.ok,(b.setKernel (·.close (b.fd kv.2))).setClient kv.2 fun k => { k with status := .offline })
      else (.err,b) := rfl

/-- What an update in progress has read. -/
structure Update where
  old : Option UInt64
  time : Option UInt64

inductive Sweep where
  | idle
  | timed (now : UInt64)
  | sampled (now last : UInt64)

structure State (W : Type) where
  clock : UInt64
  lastAction : UInt64
  status : Presence
  update : W → Update
  sweep : Sweep

inductive Move (W : Type) where
  | tick (t : UInt64)
  | readOld (w : W)
  | readTime (w : W)
  | swap (w : W)
  | sweepTime
  | sweepLast
  | decide

variable {W : Type} [DecidableEq W] {keepalive : UInt16} {s s' : State W} {move : Move W}

inductive Step (keepalive : UInt16) (s : State W) : Move W → State W → Prop where
  | tick (later : s.clock ≤ t) : Step keepalive s (.tick t) { s with clock := t }
  | readOld : Step keepalive s (.readOld w)
    { s with update := Function.update s.update w { s.update w with old := some s.lastAction } }
  | readTime : Step keepalive s (.readTime w)
    { s with update := Function.update s.update w { s.update w with time := some s.clock } }
  | swap (old : (s.update w).old = some value) (time : (s.update w).time = some t) :
    Step keepalive s (.swap w) { s with
      lastAction := if s.lastAction = value then t else s.lastAction
      update := Function.update s.update w ⟨none,none⟩ }
  | sweepTime (idle : s.sweep = .idle) : Step keepalive s .sweepTime { s with sweep := .timed s.clock }
  | sweepLast (timed : s.sweep = .timed now) :
    Step keepalive s .sweepLast { s with sweep := .sampled now s.lastAction }
  | decide (sampled : s.sweep = .sampled now last) : Step keepalive s .decide { s with
      status := if Expired keepalive s.status now last then .offline else s.status
      sweep := .idle }

/-- The condition on a swap that goes through: it stores no later second than the one a sweep
that has not yet read the last action holds. -/
def Punctual (s : State W) : Move W → Prop
  | .swap w => ∀ now t, s.sweep = .timed now → (s.update w).old = some s.lastAction →
    (s.update w).time = some t → t ≤ now
  | _ => True

/-- No time in use is ahead of the clock, and none the sweep will subtract is ahead of its own. -/
structure Timely (s : State W) : Prop where
  last : s.lastAction ≤ s.clock
  update : ∀ w t, (s.update w).time = some t → t ≤ s.clock
  timed : ∀ now, s.sweep = .timed now → s.lastAction ≤ now
  sampled : ∀ now last, s.sweep = .sampled now last → last ≤ now

theorem update_timely {update : W → Update} {value : Update} {clock : UInt64}
    (before : ∀ w t, (update w).time = some t → t ≤ clock) (own : ∀ t, value.time = some t → t ≤ clock)
    (w w' : W) (t : UInt64) (read : (Function.update update w value w').time = some t) : t ≤ clock := by
  by_cases same : w' = w
  · rw [same,Function.update_self] at read
    exact own t read
  · rw [Function.update_of_ne same] at read
    exact before w' t read

theorem step_timely (timely : Timely s) (punctual : Punctual s move) (step : Step keepalive s move s') :
    Timely s' := by
  cases step with
  | tick later =>
    exact ⟨UInt64.le_trans timely.last later,fun w t read => UInt64.le_trans (timely.update w t read) later,
      timely.timed,timely.sampled⟩
  | @readOld w =>
    refine ⟨timely.last,update_timely timely.update (fun t read => ?_) w,timely.timed,timely.sampled⟩
    exact timely.update w t read
  | @readTime w =>
    refine ⟨timely.last,update_timely timely.update (fun t read => ?_) w,timely.timed,timely.sampled⟩
    obtain rfl := Option.some.inj read
    exact UInt64.le_refl _
  | @swap w value t old time =>
    refine ⟨?_,update_timely timely.update (fun t' read => ?_) w,fun now holds => ?_,timely.sampled⟩
    · dsimp only
      split
      · exact timely.update w t time
      · exact timely.last
    · cases read
    · dsimp only
      split
      next same => exact punctual now t holds (same ▸ old) time
      next => exact timely.timed now holds
  | sweepTime idle =>
    refine ⟨timely.last,timely.update,fun now holds => ?_,nofun⟩
    obtain rfl := Sweep.timed.inj holds
    exact timely.last
  | sweepLast timed =>
    refine ⟨timely.last,timely.update,nofun,fun now last holds => ?_⟩
    obtain ⟨rfl,rfl⟩ := Sweep.sampled.inj holds
    exact timely.timed _ timed
  | decide sampled => exact ⟨timely.last,timely.update,nofun,nofun⟩

/-- Without a borrow the test compares the times as numbers. -/
theorem expired_idle (order : last ≤ now) (expired : Expired keepalive status now last) :
    last.toNat + keepalive.toNat ≤ now.toNat := by
  have idle : keepalive.toUInt64.toNat ≤ (now - last).toNat := UInt64.le_iff_toNat_le.mp expired.2
  rw [UInt64.toNat_sub_of_le _ _ order] at idle
  have ordered := UInt64.le_iff_toNat_le.mp order
  have same : keepalive.toUInt64.toNat = keepalive.toNat := by simp
  omega

/-- Where a worker's client stands when nothing is under way. -/
structure Quiet (s : State W) : Prop where
  last : s.lastAction ≤ s.clock
  update : ∀ w, s.update w = ⟨none,none⟩
  sweep : s.sweep = .idle

omit [DecidableEq W] in
theorem quiet_timely (quiet : Quiet s) : Timely s where
  last := quiet.last
  update w t read := by
    rw [quiet.update] at read
    cases read
  timed now holds := by
    rw [quiet.sweep] at holds
    cases holds
  sampled now last holds := by
    rw [quiet.sweep] at holds
    cases holds

def Careful (keepalive : UInt16) (_ : List (Move W)) (s : State W) (move : Move W) (s' : State W) : Prop :=
  Punctual s move ∧ Step keepalive s move s'

/-- Along every run of punctual updates, a client that a step turns offline had been idle for
the keepalive by the two times the sweep read. -/
theorem offline_only_idle {start : State W} (quiet : Quiet start)
    (run : Run (Careful keepalive) start past s) (step : Step keepalive s move s')
    (online : s.status = .online) (closed : s'.status = .offline) :
    ∃ now last, s.sweep = .sampled now last ∧ last.toNat + keepalive.toNat ≤ now.toNat := by
  have timely := run.invariant (fun _ s => Timely s) (quiet_timely quiet)
    fun _ _ _ _ _ before taken => step_timely before taken.1 taken.2
  cases step with
  | tick => exact absurd (online.symm.trans closed) nofun
  | readOld => exact absurd (online.symm.trans closed) nofun
  | readTime => exact absurd (online.symm.trans closed) nofun
  | swap => exact absurd (online.symm.trans closed) nofun
  | sweepTime => exact absurd (online.symm.trans closed) nofun
  | sweepLast => exact absurd (online.symm.trans closed) nofun
  | @decide now last sampled =>
    refine ⟨now,last,sampled,?_⟩
    by_cases expired : Expired keepalive s.status now last
    · exact expired_idle (timely.sampled now last sampled) expired
    · rw [if_neg expired] at closed
      exact absurd (online.symm.trans closed) nofun

/-- A client idle for a minute, and one that was active in the current second. -/
def idleClient : State Unit := ⟨100,40,.online,fun _ => ⟨none,none⟩,.idle⟩
def activeClient : State Unit := ⟨100,100,.online,fun _ => ⟨none,none⟩,.idle⟩

theorem idleClient_closed : ∃ past s s', Run (Careful 60) idleClient past s ∧ Step 60 s .decide s' ∧
    s.status = .online ∧ s'.status = .offline ∧
    ∃ now last, s.sweep = .sampled now last ∧ last.toNat + (60 : UInt16).toNat ≤ now.toNat := by
  have quiet : Quiet idleClient := ⟨by decide,fun _ => rfl,rfl⟩
  have timed : Careful 60 [] idleClient .sweepTime { idleClient with sweep := .timed 100 } :=
    ⟨trivial,.sweepTime rfl⟩
  have sampled : Careful 60 [] { idleClient with sweep := .timed 100 } .sweepLast
      { idleClient with sweep := .sampled 100 40 } := ⟨trivial,.sweepLast rfl⟩
  have run := (Run.nil.snoc timed).snoc sampled
  have step : Step 60 { idleClient with sweep := .sampled 100 40 } .decide _ := .decide rfl
  have closed : (if Expired 60 .online 100 40 then Presence.offline else .online) = .offline := by decide
  exact ⟨_,_,_,run,step,rfl,closed,offline_only_idle quiet run step rfl closed⟩

/-- The clock ticks after the sweep read it and a worker stores the new second: the sweep
reads a last action in its own future and takes the wrapped difference for idle time. -/
def wrappedMoves : List (Move Unit) := [.sweepTime,.tick 101,.readOld (),.readTime (),.swap (),.sweepLast]

theorem active_client_closed : Quiet activeClient ∧ ∃ s s',
    Run (fun _ s move s' => Step 60 s move s') activeClient wrappedMoves s ∧ Step 60 s .decide s' ∧
      s.status = .online ∧ s'.status = .offline ∧
      ¬∃ now last, s.sweep = .sampled now last ∧ last.toNat + (60 : UInt16).toNat ≤ now.toNat := by
  have timed : Step 60 activeClient .sweepTime _ := .sweepTime rfl
  have ticked : Step 60 _ (.tick 101) _ := .tick (s := { activeClient with sweep := .timed 100 }) (by decide)
  have run := ((((((Run.nil.snoc timed).snoc ticked).snoc (.readOld (w := ()))).snoc
    (.readTime (w := ()))).snoc (.swap (w := ()) rfl rfl)).snoc (.sweepLast rfl) :
      Run (fun _ s move s' => Step 60 s move s') activeClient wrappedMoves _)
  refine ⟨⟨by decide,fun _ => rfl,rfl⟩,_,_,run,.decide rfl,rfl,by decide,?_⟩
  rintro ⟨now,last,sampled,idle⟩
  obtain ⟨rfl,rfl⟩ := Sweep.sampled.inj sampled
  exact absurd idle (by decide)

end Sizigy.Keepalive
