import Sizigy.HashmapContents
import Sizigy.Library.Monitor

/-! Threads that call `hashmap_put` and `hashmap_get` on one map, as the workers do with the topics.
A get gives the lock back before it reads the value that it found, and puts may come in between.
Still every interleaving looks like calls made one after the other, as long as no put finds
the map full: the rehash of such a put calls put, which waits for ever for the lock that its own
thread has. -/
namespace Sizigy.HashmapThreads

open Monitor Probing

variable {V : Type}

inductive Done (V : Type) where
  | put (key : CString) (val : V)
  | got (key : CString) (result : Option V)

/-- The map, with the calls that took effect so far; the code does not keep this record. -/
structure Shared (V : Type) where
  map : Hashmap CString V
  history : List (Done V)

/-- A put that rehashes the map, and the part of the old array that it has not gone through. -/
structure Frame (V : Type) where
  key : CString
  val : V
  old : Table CString V

/-- Between two calls, and the points of both calls. A put may be called by the rehash of another one. -/
inductive Point (V : Type) where
  | idle
  | put (key : CString) (val : V) (callers : List (Frame V))
  | place (key : CString) (val : V) (callers : List (Frame V))
  | rehash (frame : Frame V) (callers : List (Frame V))
  | placed (callers : List (Frame V))
  | failed (callers : List (Frame V))
  | get (key : CString)
  | search (key : CString)
  | found (key : CString) (curr : Nat)
  | read (key : CString) (curr : Nat)
  | missing

/-- The fields of a slot are written one by one, but only the value is read outside of the lock. Only the calls of
threads are recorded, not the puts that a rehash calls. -/
def program (calloc : Nat → Bool) : Point V → Act (Shared V) (Point V)
  | .idle => .choose fun p => (∃ key val, p = .put key val []) ∨ ∃ key, p = .get key
  | .put key val callers => .lock (.place key val callers)
  | .place key val callers => .work fun s =>
    match hashmapHash s.map key with
    | some index =>
      let history := if callers.isEmpty then s.history ++ [.put key val] else s.history
      some (⟨s.map.store index key val,history⟩,.placed callers)
    | none =>
      if calloc (2 * s.map.tableSize) then
        some ({ s with map := s.map.grown },.rehash ⟨key,val,s.map.entries⟩ callers)
      else some (s,.failed callers)
  | .rehash frame callers => .work fun s =>
    match frame.old with
    | [] => some (s,.place frame.key frame.val callers)
    | none :: old => some (s,.rehash { frame with old := old } callers)
    | some (key,val) :: old => some (s,.put key val ({ frame with old := old } :: callers))
  | .placed callers => .unlock <|
    match callers with
    | [] => .idle
    | frame :: callers => .rehash frame callers
  | .failed callers => .unlock <|
    match callers with
    | [] => .idle
    | _ :: callers => .failed callers
  | .get key => .lock (.search key)
  | .search key => .work fun s =>
    match hashmapFind s.map key with
    | some curr => some (s,.found key curr)
    | none => some ({ s with history := s.history ++ [.got key none] },.missing)
  | .found key curr => .unlock (.read key curr)
  | .read key curr => .access fun s =>
    ({ s with history := s.history ++ [.got key ((slot s.map.entries curr).map Prod.snd)] },.idle)
  | .missing => .unlock .idle

/-- The thread is in a put that rehashes the map. -/
def Point.inRehash : Point V → Bool
  | .put _ _ callers | .place _ _ callers | .placed callers | .failed callers => !callers.isEmpty
  | .rehash _ _ => true
  | _ => false

def guarded : Point V → Bool
  | .idle | .get _ | .read _ _ => false
  | .put _ _ callers => !callers.isEmpty
  | _ => true

/-- What a map holds after a call. -/
def Done.apply (map : CString → Option V) : Done V → CString → Option V
  | .put key val => Function.update map key (some val)
  | .got _ _ => map

def contents (history : List (Done V)) : CString → Option V := history.foldl Done.apply fun _ => none

/-- Every get returned what the puts before it had left. -/
def Legal (history : List (Done V)) : Prop :=
  ∀ before key result after, history = before ++ .got key result :: after → result = contents before key

structure Consistent (s : Shared V) : Prop where
  first : s.map.tableSize = initialSize
  fresh : s.map.Fresh
  lookups : ∀ key, s.map.lookup key = contents s.history key
  legal : Legal s.history

/-- The slot still belongs to the key, unless the table was replaced. -/
def Belongs (s : Shared V) (key : CString) (curr : Nat) : Prop :=
  s.map.tableSize = initialSize → ∃ val, slot s.map.entries curr = some (key,val)

/-- No thread comes past the lock of a put that a rehash calls. -/
def asserted : Point V → Shared V → Prop
  | .idle, _ | .get _, _ => True
  | .put _ _ callers, s => callers = [] ∨ s.map.tableSize ≠ initialSize
  | .place _ _ callers, s | .placed callers, s | .failed callers, s => callers = [] ∧ Consistent s
  | .rehash frame _, s => s.map.tableSize ≠ initialSize ∧ ∃ pair, some pair ∈ frame.old
  | .found key curr, s => Consistent s ∧ Belongs s key curr
  | .read key curr, s => Belongs s key curr
  | _, s => Consistent s

variable {s s' : Shared V} {p q : Point V} {key : CString} {val : V} {history : List (Done V)}

theorem contents_snoc (history : List (Done V)) (call : Done V) :
    contents (history ++ [call]) = call.apply (contents history) := by simp [contents]

theorem legal_snoc (legal : Legal history)
    (right : ∀ key result, call = .got key result → result = contents history key) :
    Legal (history ++ [call]) := by
  intro before key result after split
  rcases after.eq_nil_or_concat with rfl | ⟨after,last,rfl⟩
  · obtain ⟨rfl,ends⟩ := List.append_inj' split rfl
    exact right key result (List.head_eq_of_cons_eq ends)
  · rw [List.concat_eq_append,← List.cons_append,← List.append_assoc] at split
    exact legal before key result after (List.append_inj' split rfl).1

theorem create_consistent : Consistent (⟨hashmapCreate,[]⟩ : Shared V) where
  first := rfl
  fresh := create_fresh
  lookups key := by
    rw [contents,List.foldl_nil,lookup_none_iff create_valid]
    rintro val ⟨i,stored⟩
    simp [hashmapCreate] at stored
  legal before key result after split := by simp at split

/-- A put that finds a slot keeps everything in order. -/
theorem store_consistent (consistent : Consistent s) (found : hashmapHash s.map key = some index) (val : V) :
    Consistent { s with map := s.map.store index key val, history := s.history ++ [.put key val] } where
  first := consistent.first
  fresh := by
    obtain ⟨valid,unique,packed⟩ := consistent.fresh
    exact ⟨store_valid valid found val,(store_spec unique (packed_clear valid packed key) found val).1,
      store_packed valid packed found val⟩
  lookups key' := by
    rw [store_lookup found val key',contents_snoc,Done.apply,Function.update_apply,consistent.lookups]
  legal := legal_snoc consistent.legal fun _ _ same => by cases same

/-- A get that returns what the map holds keeps everything in order. -/
theorem got_consistent (consistent : Consistent s) (right : result = s.map.lookup key) :
    Consistent { s with history := s.history ++ [.got key result] } where
  first := consistent.first
  fresh := consistent.fresh
  lookups key' := by
    rw [contents_snoc]
    exact consistent.lookups key'
  legal := by
    refine legal_snoc consistent.legal fun key' result' same => ?_
    obtain ⟨rfl,rfl⟩ := Done.got.inj same
    rw [right,consistent.lookups]

/-- No put takes the slot of another key. -/
theorem store_belongs (found : hashmapHash s.map key = some index) (val : V) (belongs : Belongs s key' curr)
    (history : List (Done V)) : Belongs ⟨s.map.store index key val,history⟩ key' curr := by
  intro first
  obtain ⟨val',stored⟩ := belongs first
  obtain ⟨_,inside,_,_,_,free,_⟩ := hashmapHash_some found
  rw [store_slot inside val curr]
  by_cases same : curr = index
  · subst same
    rcases free with empty | ⟨old,held⟩
    · exact absurd (empty.symm.trans stored) (by simp)
    · obtain ⟨rfl,_⟩ := Prod.mk.inj (Option.some.inj (stored.symm.trans held))
      exact ⟨val,if_pos rfl⟩
  · exact ⟨val',by rw [if_neg same,stored]⟩

theorem search_belongs (found : hashmapFind s.map key = some curr) : Belongs s key curr :=
  fun _ => (hashmapFind_some found).2

/-- The late read still finds what the map holds for the key. -/
theorem read_right (consistent : Consistent s) (belongs : Belongs s key curr) :
    (slot s.map.entries curr).map Prod.snd = s.map.lookup key := by
  obtain ⟨val,stored⟩ := belongs consistent.first
  rw [stored,(lookup_some_iff consistent.fresh.valid consistent.fresh.unique).mpr ⟨curr,stored⟩]
  rfl

/-- Outside of the lock a thread knows at most whose slot it found. -/
theorem outside_kept (kept : ∀ key curr, Belongs s key curr → Belongs s' key curr) :
    ∀ r, guarded r = false → asserted r s → asserted r s' := by
  intro r outside known
  cases r with
  | idle | get _ => trivial
  | put _ _ callers => exact .inl (by simpa [guarded] using outside)
  | read key curr => exact kept key curr known
  | _ => simp [guarded] at outside

variable {calloc : Nat → Bool}

/-- Each step under the lock leads to what is known at the next point, and takes nothing from the others. -/
theorem work_asserted (act : program calloc p = .work f) (known : asserted p s) :
    ∃ s' q, f s = some (s',q) ∧ guarded q = true ∧ asserted q s' ∧
      ∀ r, guarded r = false → asserted r s → asserted r s' := by
  cases p with
  | place key val callers =>
    obtain ⟨rfl,known⟩ := known
    obtain rfl := Act.work.inj act
    cases found : hashmapHash s.map key with
    | some index =>
      exact ⟨⟨s.map.store index key val,s.history ++ [Done.put key val]⟩,.placed [],by simp [found],rfl,
        ⟨rfl,store_consistent known found val⟩,outside_kept fun _ _ belongs => store_belongs found val belongs _⟩
    | none =>
      have larger : s.map.grown.tableSize ≠ initialSize := by
        have first := known.first
        change 2 * s.map.tableSize ≠ initialSize
        rw [first]
        decide
      by_cases memory : calloc (2 * s.map.tableSize) = true
      · exact ⟨⟨s.map.grown,s.history⟩,.rehash ⟨key,val,s.map.entries⟩ [],by simp only [found,if_pos memory],rfl,
          ⟨larger,exists_used known.fresh.valid found⟩,outside_kept fun _ _ _ first => absurd first larger⟩
      · exact ⟨s,.failed [],by simp only [found,if_neg memory],rfl,⟨rfl,known⟩,fun _ _ => id⟩
  | rehash frame callers =>
    obtain ⟨key,val,old⟩ := frame
    obtain ⟨larger,pair,member⟩ := known
    obtain rfl := Act.work.inj act
    rcases old with _ | ⟨_ | _,old⟩
    · simp at member
    · exact ⟨s,_,rfl,rfl,⟨larger,pair,by simpa using member⟩,fun _ _ => id⟩
    · exact ⟨s,_,rfl,rfl,.inr larger,fun _ _ => id⟩
  | search key =>
    obtain rfl := Act.work.inj act
    cases found : hashmapFind s.map key with
    | some curr => exact ⟨s,.found key curr,by simp only [found],rfl,⟨known,search_belongs found⟩,fun _ _ => id⟩
    | none =>
      have nothing : none = s.map.lookup key := by rw [Hashmap.lookup,found]; rfl
      exact ⟨⟨s.map,s.history ++ [Done.got key none]⟩,.missing,by simp only [found],rfl,got_consistent known nothing,
        outside_kept fun _ _ belongs => belongs⟩
  | _ => cases act

/-- The read outside of the lock disturbs nobody. -/
theorem read_kept (belongs : Belongs s key curr) (r : Point V) (known : asserted r s) :
    asserted r { s with history := s.history ++ [.got key ((slot s.map.entries curr).map Prod.snd)] } := by
  have kept (consistent : Consistent s) := got_consistent consistent (read_right consistent belongs)
  cases r with
  | idle | get _ => trivial
  | put _ _ _ | rehash _ _ => exact known
  | read _ _ => exact known
  | found _ _ => exact ⟨kept known.1,known.2⟩
  | place _ _ _ | placed _ | failed _ => exact ⟨known.1,kept known.2⟩
  | search _ | missing => exact kept known

theorem outline : Outline (program (V := V) calloc) guarded Consistent asserted where
  choose p next act := by
    cases p with
    | idle =>
      obtain rfl := Act.choose.inj act
      refine ⟨rfl,fun q called => ?_⟩
      rcases called with ⟨key,val,rfl⟩ | ⟨key,rfl⟩
      · exact ⟨rfl,fun _ _ => .inl rfl⟩
      · exact ⟨rfl,fun _ _ => trivial⟩
    | _ => cases act
  lock p q act := by
    cases p with
    | put key val callers =>
      obtain rfl := Act.lock.inj act
      exact fun outside => ⟨rfl,fun _ _ consistent => ⟨by simpa [guarded] using outside,consistent⟩⟩
    | get key =>
      obtain rfl := Act.lock.inj act
      exact fun _ => ⟨rfl,fun _ _ consistent => consistent⟩
    | _ => cases act
  work p f act := by
    refine ⟨?_,fun s known => work_asserted act known⟩
    cases p with
    | place _ _ _ | rehash _ _ | search _ => rfl
    | _ => cases act
  wait p q act := by cases p <;> cases act
  signal p q act := by cases p <;> cases act
  unlock p q act := by
    cases p with
    | missing =>
      obtain rfl := Act.unlock.inj act
      exact ⟨rfl,fun _ known => ⟨rfl,known,trivial⟩⟩
    | placed callers | failed callers =>
      refine ⟨rfl,fun s known => ?_⟩
      obtain ⟨rfl,known⟩ := known
      obtain rfl := Act.unlock.inj act
      exact ⟨rfl,known,trivial⟩
    | found key curr =>
      obtain rfl := Act.unlock.inj act
      exact ⟨rfl,fun _ known => ⟨rfl,known⟩⟩
    | _ => cases act
  access p f act := by
    cases p with
    | read key curr =>
      obtain rfl := Act.access.inj act
      refine ⟨rfl,fun s belongs => ⟨rfl,trivial,fun consistent => ?_,read_kept belongs⟩⟩
      exact got_consistent consistent (read_right consistent belongs)
    | _ => cases act

section Threads

variable {T : Type} [DecidableEq T]

/-- A new map, and threads that have called nothing yet. -/
def start : Monitor.State T (Shared V) (Point V) := ⟨⟨hashmapCreate,[]⟩,none,fun _ => .running .idle⟩

/-- The states that threads reach by any interleaving. -/
def Reached (calloc : Nat → Bool) (past : List T) (s : Monitor.State T (Shared V) (Point V)) : Prop :=
  Run (fun _ s t s' => Step (program calloc) t s s') start past s

variable {past : List T} {s : Monitor.State T (Shared V) (Point V)}

omit [DecidableEq T] in
theorem start_sound : Sound guarded Consistent asserted (start : Monitor.State T (Shared V) (Point V)) where
  running t p now := by
    obtain rfl := Status.running.inj now
    simp [guarded,start]
  resting t p now := by simp [start] at now
  free _ := create_consistent
  held t p now := by
    obtain rfl := Status.running.inj now
    trivial
  alive t := by simp [start]

/-- Under the lock everything is in order, but for a thread in a rehash. -/
theorem guarded_consistent {s : Shared V} (under : guarded p = true) (outside : p.inRehash = false)
    (known : asserted p s) : Consistent s := by
  cases p with
  | idle | get _ | read _ _ => simp [guarded] at under
  | put _ _ _ => exact absurd (under.symm.trans outside) (by simp)
  | rehash _ _ => simp [Point.inRehash] at outside
  | found _ _ => exact known.1
  | place _ _ _ | placed _ | failed _ => exact known.2
  | search _ | missing => exact known

theorem inRehash_guarded (inside : p.inRehash = true) : guarded p = true := by
  cases p with
  | put _ _ _ => exact inside
  | place _ _ _ | placed _ | failed _ | rehash _ _ => rfl
  | _ => cases inside

section Rehash

variable {t u : T} {s s' : Monitor.State T (Shared V) (Point V)} {frame : Frame V} {callers : List (Frame V)}

/-- A thread in a rehash goes through the old array, or calls put for an entry of it. -/
theorem inRehash_cases {s : Shared V} (inside : p.inRehash = true) (known : asserted p s) :
    (∃ frame callers, p = .rehash frame callers ∧ ∃ pair, some pair ∈ frame.old) ∨
      ∃ key val callers, p = .put key val callers := by
  cases p with
  | rehash frame callers => exact .inl ⟨frame,callers,rfl,known.2⟩
  | put key val callers => exact .inr ⟨key,val,callers,rfl⟩
  | place _ _ _ | placed _ | failed _ =>
    obtain ⟨rfl,_⟩ := known
    cases inside
  | _ => cases inside

/-- With an entry ahead the loop of a rehash goes on, or calls put for it. -/
theorem rehash_scans (now : s.status t = .running (.rehash frame callers)) (ahead : some pair ∈ frame.old)
    (step : Step (program calloc) t s s') : ∃ q, s'.status t = .running q ∧ q.inRehash = true := by
  have here {r : Point V} (running : s.status t = .running r) : r = .rehash frame callers :=
    Status.running.inj (running.symm.trans now)
  obtain ⟨key,val,old⟩ := frame
  cases step with
  | @work r f shared q running act done =>
    obtain rfl := here running
    obtain rfl := Act.work.inj act
    refine ⟨q,move_same ..,?_⟩
    rcases old with _ | ⟨_ | _,old⟩
    · simp at ahead
    · obtain ⟨_,rfl⟩ := Prod.mk.inj (Option.some.inj done)
      rfl
    · obtain ⟨_,rfl⟩ := Prod.mk.inj (Option.some.inj done)
      rfl
  | @crash r f running act fails =>
    obtain rfl := here running
    obtain rfl := Act.work.inj act
    rcases old with _ | ⟨_ | _,old⟩ <;> cases fails
  | choose running act | lock running act | wait running act | signal running act | wake running act
  | unlock running act | access running act =>
    obtain rfl := here running
    cases act
  | spurious asleep | resume asleep => exact absurd (asleep.symm.trans now) (by simp)

/-- A put does not come past its lock while the lock is taken, be it by its own thread. -/
theorem put_waits (now : s.status t = .running (.put key val callers)) (taken : s.owner ≠ none) :
    ¬Step (program calloc) t s s' := by
  have here {r : Point V} (running : s.status t = .running r) : r = .put key val callers :=
    Status.running.inj (running.symm.trans now)
  intro step
  cases step with
  | lock _ _ free => exact taken free
  | choose running act | work running act | crash running act | wait running act | signal running act
  | wake running act | unlock running act | access running act =>
    obtain rfl := here running
    cases act
  | spurious asleep | resume asleep => exact absurd (asleep.symm.trans now) (by simp)

theorem rehash_stays (sound : Sound guarded Consistent asserted s) (now : s.status t = .running p)
    (inside : p.inRehash = true) (step : Step (program calloc) u s s') :
    ∃ q, s'.status t = .running q ∧ q.inRehash = true := by
  by_cases same : t = u
  · subst same
    rcases inRehash_cases inside (sound.held t p now) with ⟨frame,callers,rfl,pair,ahead⟩ | ⟨key,val,callers,rfl⟩
    · exact rehash_scans now ahead step
    · have own := (sound.running t _ now).mp (inRehash_guarded inside)
      exact absurd step (put_waits now (by rw [own]; simp))
  · exact ⟨p,step_other same now step,inside⟩

end Rehash

/-- In every interleaving no thread crashes, and as long as none is in a rehash the calls look as if made one after
the other: each get returned what the puts before it in the record had left, and the map holds what all of them left.
A thread that is in a rehash stays there and has the lock for ever. -/
theorem threads_linearize (reached : Reached calloc past s) :
    (∀ t, s.status t ≠ .crashed) ∧
    ((∀ t p, s.status t = .running p → p.inRehash = false) →
      Legal s.shared.history ∧ ∀ key, s.shared.map.lookup key = contents s.shared.history key) ∧
    ∀ t p, s.status t = .running p → p.inRehash = true →
      ∀ later s', Run (fun _ s t s' => Step (program calloc) t s s') s later s' →
        s'.owner = some t ∧ ∃ q, s'.status t = .running q ∧ q.inRehash = true := by
  have sound := run_sound outline start_sound reached
  refine ⟨sound.alive,fun calm => ?_,fun t p now inside later s' run => ?_⟩
  · have consistent : Consistent s.shared := by
      cases own : s.owner with
      | none => exact sound.free own
      | some t =>
        obtain ⟨p,now⟩ := sound.owner_running own
        exact guarded_consistent ((sound.running t p now).mpr own) (calm t p now) (sound.held t p now)
    exact ⟨consistent.legal,consistent.lookups⟩
  · obtain ⟨sound',q,now',inside'⟩ := Run.invariant
      (fun _ s => Sound guarded Consistent asserted s ∧ ∃ q, s.status t = .running q ∧ q.inRehash = true)
      ⟨sound,p,now,inside⟩ (fun _ _ _ _ _ ⟨sound,_,now,inside⟩ step =>
        ⟨step_sound outline sound step,rehash_stays sound now inside step⟩) run
    exact ⟨(sound'.running t q now').mp (inRehash_guarded inside'),q,now',inside'⟩

/-- Between the search of one thread and its read another thread overwrites the value. -/
theorem overtaken_reached : ∃ (past : List Bool) (s : Monitor.State Bool (Shared Nat) (Point Nat)),
    Reached (fun _ => true) past s ∧ (∀ t, s.status t = .running .idle) ∧
      s.shared.history = [.put (cstr [99]) 1,.put (cstr [99]) 2,.got (cstr [99]) (some 2)] := by
  let key : CString := cstr [99]
  have empty : hashmapHash (hashmapCreate : Hashmap CString Nat) key = some 64 := by decide +kernel
  have found : hashmapFind (hashmapCreate.store 64 key 1) key = some 64 := by decide +kernel
  have again : hashmapHash (hashmapCreate.store 64 key 1) key = some 64 := by decide +kernel
  have run : Reached (V := Nat) (fun _ => true) [] (start (T := Bool)) := .nil
  have run := Run.snoc run (.choose (t := false) rfl rfl (.inl ⟨key,1,rfl⟩))
  have run := Run.snoc run (.lock (t := false) rfl rfl rfl)
  have run := Run.snoc run (.work (t := false) rfl rfl (by simp only [start,State.move,empty]; rfl))
  have run := Run.snoc run (.unlock (t := false) rfl rfl rfl)
  have run := Run.snoc run (.choose (t := true) rfl rfl (.inr ⟨key,rfl⟩))
  have run := Run.snoc run (.lock (t := true) rfl rfl rfl)
  have run := Run.snoc run (.work (t := true) rfl rfl (by simp only [start,State.move,found]; rfl))
  have run := Run.snoc run (.unlock (t := true) rfl rfl rfl)
  have run := Run.snoc run (.choose (t := false) rfl rfl (.inl ⟨key,2,rfl⟩))
  have run := Run.snoc run (.lock (t := false) rfl rfl rfl)
  have run := Run.snoc run (.work (t := false) rfl rfl (by simp only [start,State.move,again]; rfl))
  have run := Run.snoc run (.unlock (t := false) rfl rfl rfl)
  have run := Run.snoc run (.access (t := true) rfl rfl)
  have read : (slot ((hashmapCreate.store 64 key 1).store 64 key 2).entries 64).map Prod.snd = some 2 := by
    decide +kernel
  refine ⟨_,_,run,fun t => by cases t <;> rfl,?_⟩
  exact congrArg (fun result => [Done.put key 1,.put key 2,.got key result]) read

theorem overtaken_linearized : ∃ (past : List Bool) (s : Monitor.State Bool (Shared Nat) (Point Nat)),
    Reached (fun _ => true) past s ∧
      s.shared.history = [.put (cstr [99]) 1,.put (cstr [99]) 2,.got (cstr [99]) (some 2)] ∧
      Legal s.shared.history ∧ s.shared.map.lookup (cstr [99]) = some 2 := by
  obtain ⟨past,s,reached,idle,history⟩ := overtaken_reached
  have calm (t : Bool) (p : Point Nat) (now : s.status t = .running p) : p.inRehash = false := by
    obtain rfl := Status.running.inj ((idle t).symm.trans now)
    rfl
  obtain ⟨legal,lookups⟩ := (threads_linearize reached).2.1 calm
  refine ⟨past,s,reached,history,legal,?_⟩
  rw [lookups,history]
  simp [contents,Done.apply]

end Threads

end Sizigy.HashmapThreads
