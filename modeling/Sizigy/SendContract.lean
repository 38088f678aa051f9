import Sizigy.Library.Bytes
import Sizigy.Library.Outcome

/-! `sendall` with the integers of `network.c`: `total` and the last result `n` are of type `int`,
the length, the bytes left and what `send` answers of type `ssize_t`. Below 2^31 bytes nothing is
cut off or wraps, and the status, which is read off the last result, says whether all was sent. -/
namespace Sizigy.SendContract

open Bytes

/-- What `send` answers to its calls, by their number and the bytes they ask for. -/
structure Answers where
  result : Nat → Int64 → Int64
  legal : ∀ call asked, 0 < asked →
    result call asked = -1 ∨ (0 < result call asked ∧ result call asked ≤ asked)

/-- A call of `send(2)`: where in the buffer it starts, the bytes it asks for, and the answer. -/
structure Send where
  offset : Int32
  asked : Int64
  result : Int64
  deriving DecidableEq

/-- How many bytes the kernel took. -/
def Send.count (s : Send) : Nat := s.result.toNatClampNeg

/-- They are the first ones that it was offered. -/
def Send.bytes (buf : Memory) (s : Send) : List UInt8 := load buf s.offset.toNatClampNeg s.count

def counts (log : List Send) : Nat := (log.map Send.count).sum

def send (answers : Answers) (call : Nat) (offset : Int32) (asked : Int64) : Exec Send Int64 := do
  let result := answers.result call asked
  Exec.emit ⟨offset,asked,result⟩
  return result

/-- The variables of `sendall`. -/
structure Sending where
  total : Int32
  bytesleft : Int64
  n : Int32
  deriving DecidableEq

/-- The end of a turn of the loop. -/
def Sending.advance (s : Sending) (n : Int32) : Sending := ⟨s.total + n,s.bytesleft - n.toInt64,n⟩

/-- Both branches on `errno` leave the loop. -/
def sendLoop (answers : Answers) (len : Int64) : Nat → Nat → Sending → Exec Send Sending
  | 0, _, _ => Exec.lift .unfinished
  | fuel + 1, call, s =>
    if s.total.toInt64 < len then do
      let result ← send answers call s.total s.bytesleft
      let n := result.toInt32
      if n = -1 then return { s with n := n }
      else sendLoop answers len fuel (call + 1) (s.advance n)
    else return s

/-- The status and `*sent`. -/
def sendall (answers : Answers) (len : Int64) (fuel : Nat) : Exec Send (Int32 × Int64) := do
  let s ← sendLoop answers len fuel 0 ⟨0,len,0⟩
  return (if s.n = -1 then -1 else 0,s.total.toInt64)

/-- Calls that took so many bytes together: each asked for all that the ones before it had left, and was
given some of it. -/
inductive Taken (answers : Answers) (len : Int64) : List Send → Nat → Prop where
  | nil : Taken answers len [] 0
  | snoc {log : List Send} {sent : Nat} {total : Int32} {left : Int64} (taken : Taken answers len log sent)
    (offset : total.toInt = sent) (asked : left.toInt = len.toInt - sent)
    (positive : 0 < (answers.result log.length left).toInt)
    (possible : (answers.result log.length left).toInt ≤ left.toInt) :
    Taken answers len (log ++ [⟨total,left,answers.result log.length left⟩])
      (sent + (answers.result log.length left).toNatClampNeg)

/-- What `sendall` and the kernel said to each other. The calls follow each other without gap or overlap from
the first byte on, each asks for all the bytes behind it and has the kernel's own answer, `*sent` is the sum
of what the kernel took, and a call is the last one exactly if it failed or reached the end. -/
structure Conversed (answers : Answers) (len : Int64) (log : List Send) (sent : Int64) : Prop where
  contiguous : ∀ before (call : Send) after, log = before ++ call :: after →
    call.offset.toInt = counts before ∧ call.asked.toInt = len.toInt - counts before ∧
      call.result = answers.result before.length call.asked
  sum : sent.toInt = counts log
  last : ∀ before (call : Send) after, log = before ++ call :: after →
    (after = [] ↔ call.result = -1 ∨ (counts (before ++ [call]) : Int) = len.toInt)
  silent : log = [] → len = 0

/-- How the loop ends: everything is sent, or the last call has failed. -/
inductive Finished (answers : Answers) (len : Int64) : List Send → Sending → Prop where
  | all {log : List Send} {s : Sending} {sent : Nat} (taken : Taken answers len log sent)
    (total : s.total.toInt = sent) (whole : len.toInt = sent) (fine : s.n ≠ -1) : Finished answers len log s
  | refused {log : List Send} {s : Sending} {sent : Nat} {left : Int64} (taken : Taken answers len log sent)
    (total : s.total.toInt = sent) (more : (sent : Int) < len.toInt) (asked : left.toInt = len.toInt - sent)
    (answer : answers.result log.length left = -1) (failed : s.n = -1) :
    Finished answers len (log ++ [⟨s.total,left,-1⟩]) s

variable {answers : Answers} {buf : Memory} {len left : Int64} {s : Sending} {log : List Send} {sent : Nat}

@[simp] theorem counts_nil : counts [] = 0 := rfl

@[simp] theorem counts_snoc (log : List Send) (call : Send) : counts (log ++ [call]) = counts log + call.count := by
  simp [counts]

/-- A part of a prolonged list is the new one or was there before. -/
theorem snoc_split {log before after : List α} {last call : α} (split : log ++ [last] = before ++ call :: after) :
    (after = [] ∧ before = log ∧ call = last) ∨ ∃ more, after = more ++ [last] ∧ log = before ++ call :: more := by
  rcases after.eq_nil_or_concat with rfl | ⟨more,final,rfl⟩
  · obtain ⟨rfl,ends⟩ := List.append_inj' split rfl
    exact .inl ⟨rfl,rfl,(List.head_eq_of_cons_eq ends).symm⟩
  · rw [List.concat_eq_append,← List.cons_append,← List.append_assoc] at split
    obtain ⟨rfl,ends⟩ := List.append_inj' split rfl
    exact .inr ⟨more,by rw [List.concat_eq_append,List.head_eq_of_cons_eq ends],rfl⟩

theorem Taken.counts (taken : Taken answers len log sent) : SendContract.counts log = sent := by
  induction taken with
  | nil => rfl
  | snoc _ _ _ _ _ ih => rw [counts_snoc,ih,Send.count]

theorem Taken.inside (taken : Taken answers len log sent) (nonneg : 0 ≤ len.toInt) : (sent : Int) ≤ len.toInt := by
  cases taken with
  | nil => exact nonneg
  | snoc _ _ asked positive possible =>
    have count := Int.toNat_of_nonneg positive.le
    rw [Int64.toNat_toInt] at count
    push_cast
    omega

/-- A call that took something is answered by the kernel, starts where those before it ended, and did not fail. -/
theorem Taken.split {before after : List Send} {call : Send} (taken : Taken answers len log sent)
    (split : log = before ++ call :: after) :
    call.offset.toInt = SendContract.counts before ∧ call.asked.toInt = len.toInt - SendContract.counts before ∧
      call.result = answers.result before.length call.asked ∧ 0 < call.result.toInt ∧
      SendContract.counts (before ++ [call]) + (after.map Send.count).sum = sent ∧
      ∀ next ∈ after, 0 < next.count := by
  induction taken generalizing after with
  | nil => simp at split
  | @snoc log sent total left taken offset asked positive possible ih =>
    have own := taken.counts
    rcases snoc_split split with ⟨rfl,rfl,rfl⟩ | ⟨more,rfl,rfl⟩
    · refine ⟨by rw [own]; exact offset,by rw [own]; exact asked,rfl,positive,?_,by simp⟩
      rw [counts_snoc,own]
      rfl
    · obtain ⟨offset',asked',answer,positive',sum,rest⟩ := ih rfl
      refine ⟨offset',asked',answer,positive',?_,fun next member => ?_⟩
      · simp only [List.map_append,List.map_cons,List.map_nil,List.sum_append,List.sum_cons,List.sum_nil,Send.count]
        omega
      · rcases List.mem_append.mp member with earlier | new
        · exact rest next earlier
        · obtain rfl := List.mem_singleton.mp new
          exact (Int64.toNatClampNeg_pos_iff _).mpr (Int64.lt_iff_toInt_lt.mpr positive)

/-- The three counters agree: so many bytes are sent, the rest is left, and no call has failed. -/
structure Consistent (len : Int64) (sent : Nat) (s : Sending) : Prop where
  total : s.total.toInt = sent
  left : s.bytesleft.toInt = len.toInt - sent
  fine : s.n ≠ -1

theorem start_consistent (len : Int64) : Consistent len 0 ⟨0,len,0⟩ where
  total := rfl
  left := by simp
  fine := show (0 : Int32) ≠ -1 by decide

theorem Consistent.more_iff (consistent : Consistent len sent s) :
    s.total.toInt64 < len ↔ (sent : Int) < len.toInt := by
  rw [Int64.lt_iff_toInt_lt,Int32.toInt_toInt64,consistent.total]

/-- A count between 1 and the bytes left survives the conversion to `int`. -/
theorem toInt32_toInt {result : Int64} (positive : 0 < result.toInt) (small : result.toInt < 2 ^ 31) :
    result.toInt32.toInt = result.toInt := by
  rw [Int64.toInt_toInt32]
  exact Int.bmod_eq_of_le (by omega) (by omega)

/-- A call that takes some of the bytes left keeps the counters together. -/
theorem Consistent.advance {result : Int64} (consistent : Consistent len sent s) (short : len.toInt < 2 ^ 31)
    (positive : 0 < result.toInt) (possible : result.toInt ≤ s.bytesleft.toInt) :
    Consistent len (sent + result.toNatClampNeg) (s.advance result.toInt32) := by
  obtain ⟨total,left,_⟩ := consistent
  have count : (result.toNatClampNeg : Int) = result.toInt := Int.toNat_of_nonneg positive.le
  have kept : result.toInt32.toInt = result.toInt := toInt32_toInt positive (by omega)
  refine ⟨?_,?_,fun failed => ?_⟩
  · rw [Sending.advance,Int32.toInt_add,total,kept,Nat.cast_add,count]
    exact Int.bmod_eq_of_le (by omega) (by omega)
  · rw [Sending.advance,Int64.toInt_sub,Int32.toInt_toInt64,kept,left,Int.bmod_eq_of_le (by omega) (by omega)]
    omega
  · have minus : result.toInt32.toInt = -1 := congrArg Int32.toInt failed
    omega

/-- What the kernel answers while bytes are left. -/
theorem Consistent.answer (consistent : Consistent len sent s) (more : (sent : Int) < len.toInt)
    (answers : Answers) (call : Nat) :
    answers.result call s.bytesleft = -1 ∨
    (0 < (answers.result call s.bytesleft).toInt ∧
      (answers.result call s.bytesleft).toInt ≤ s.bytesleft.toInt) := by
  have asked : 0 < s.bytesleft := by
    have left := consistent.left
    have zero : (0 : Int64).toInt = 0 := rfl
    rw [Int64.lt_iff_toInt_lt,left,zero]
    omega
  refine (answers.legal call s.bytesleft asked).imp_right ?_
  rintro ⟨positive,possible⟩
  exact ⟨Int64.lt_iff_toInt_lt.mp positive,Int64.le_iff_toInt_le.mp possible⟩

theorem send_bind (answers : Answers) (call : Nat) (offset : Int32) (asked : Int64) (next : Int64 → Exec Send β) :
    (send answers call offset asked >>= next) =
      ⟨⟨offset,asked,answers.result call asked⟩ :: (next (answers.result call asked)).events,
        (next (answers.result call asked)).outcome⟩ := rfl

theorem sendLoop_sent (consistent : Consistent len sent s) (all : len.toInt ≤ sent) (fuel call : Nat) :
    sendLoop answers len (fuel + 1) call s = ⟨[],.returned s⟩ := by
  rw [sendLoop,if_neg]
  · rfl
  · rw [consistent.more_iff]
    omega

theorem sendLoop_refused (consistent : Consistent len sent s) (more : (sent : Int) < len.toInt)
    (refused : answers.result call s.bytesleft = -1) (fuel : Nat) :
    sendLoop answers len (fuel + 1) call s = ⟨[⟨s.total,s.bytesleft,-1⟩],.returned { s with n := -1 }⟩ := by
  have minus : (-1 : Int64).toInt32 = -1 := by decide
  rw [sendLoop,if_pos (consistent.more_iff.mpr more),send_bind,refused]
  simp only [minus,if_true]
  rfl

theorem sendLoop_took (consistent : Consistent len sent s) (short : len.toInt < 2 ^ 31)
    (more : (sent : Int) < len.toInt) (positive : 0 < (answers.result call s.bytesleft).toInt)
    (possible : (answers.result call s.bytesleft).toInt ≤ s.bytesleft.toInt) (fuel : Nat) :
    sendLoop answers len (fuel + 1) call s =
      let rest := sendLoop answers len fuel (call + 1) (s.advance (answers.result call s.bytesleft).toInt32)
      ⟨⟨s.total,s.bytesleft,answers.result call s.bytesleft⟩ :: rest.events,rest.outcome⟩ := by
  have fine := (consistent.advance short positive possible).fine
  rw [sendLoop,if_pos (consistent.more_iff.mpr more),send_bind]
  simp only [if_neg (show ¬(answers.result call s.bytesleft).toInt32 = -1 from fine)]

/-- The loop ends, with any fuel above a bound on the bytes left, and its calls prolong those before. -/
def Ends (answers : Answers) (len : Int64) (bound : Nat) (log : List Send) (s : Sending) : Prop :=
  ∃ rest s', (∀ fuel, bound < fuel → sendLoop answers len fuel log.length s = ⟨rest,.returned s'⟩) ∧
    Finished answers len (log ++ rest) s'

theorem sent_ends (consistent : Consistent len sent s) (taken : Taken answers len log sent)
    (all : len.toInt = sent) (bound : Nat) : Ends answers len bound log s := by
  refine ⟨[],s,fun fuel enough => ?_,?_⟩
  · obtain ⟨fuel,rfl⟩ := Nat.exists_eq_succ_of_ne_zero (Nat.ne_zero_of_lt enough)
    exact sendLoop_sent consistent all.le fuel log.length
  · rw [List.append_nil]
    exact .all taken consistent.total all consistent.fine

theorem refused_ends (consistent : Consistent len sent s) (taken : Taken answers len log sent)
    (more : (sent : Int) < len.toInt) (refused : answers.result log.length s.bytesleft = -1) (bound : Nat) :
    Ends answers len bound log s := by
  refine ⟨_,{ s with n := -1 },fun fuel enough => ?_,
    .refused (s := { s with n := -1 }) taken consistent.total more consistent.left refused rfl⟩
  obtain ⟨fuel,rfl⟩ := Nat.exists_eq_succ_of_ne_zero (Nat.ne_zero_of_lt enough)
  exact sendLoop_refused consistent more refused fuel

theorem took_ends (consistent : Consistent len sent s) (short : len.toInt < 2 ^ 31)
    (more : (sent : Int) < len.toInt) (positive : 0 < (answers.result log.length s.bytesleft).toInt)
    (possible : (answers.result log.length s.bytesleft).toInt ≤ s.bytesleft.toInt)
    (ends : Ends answers len bound (log ++ [⟨s.total,s.bytesleft,answers.result log.length s.bytesleft⟩])
      (s.advance (answers.result log.length s.bytesleft).toInt32)) :
    Ends answers len (bound + 1) log s := by
  obtain ⟨rest,s',done,finished⟩ := ends
  rw [List.append_assoc] at finished
  refine ⟨_,s',fun fuel enough => ?_,finished⟩
  obtain ⟨fuel,rfl⟩ := Nat.exists_eq_succ_of_ne_zero (Nat.ne_zero_of_lt enough)
  have later := done fuel (Nat.lt_of_succ_lt_succ enough)
  rw [List.length_append,List.length_singleton] at later
  rw [sendLoop_took consistent short more positive possible,later]
  rfl

/-- Each turn that does not end the loop leaves fewer bytes. -/
theorem sendLoop_ends (answers : Answers) (nonneg : 0 ≤ len.toInt) (short : len.toInt < 2 ^ 31) (bound : Nat)
    (consistent : Consistent len sent s) (taken : Taken answers len log sent) (few : len.toInt - sent ≤ bound) :
    Ends answers len bound log s := by
  induction bound generalizing sent s log with
  | zero => exact sent_ends consistent taken (le_antisymm (by simpa using few) (taken.inside nonneg)) 0
  | succ bound ih =>
    by_cases more : (sent : Int) < len.toInt
    · rcases consistent.answer more answers log.length with refused | ⟨positive,possible⟩
      · exact refused_ends consistent taken more refused _
      · have next := consistent.advance short positive possible
        have longer := taken.snoc consistent.total consistent.left positive possible
        have count : ((answers.result log.length s.bytesleft).toNatClampNeg : Int) =
            (answers.result log.length s.bytesleft).toInt := Int.toNat_of_nonneg positive.le
        exact took_ends consistent short more positive possible (ih next longer (by push_cast; omega))
    · exact sent_ends consistent taken (le_antisymm (not_lt.mp more) (taken.inside nonneg)) _

theorem Finished.conversed (finished : Finished answers len log s) : Conversed answers len log s.total.toInt64 where
  contiguous before call after split := by
    cases finished with
    | all taken =>
      obtain ⟨offset,asked,answer,_⟩ := taken.split split
      exact ⟨offset,asked,answer⟩
    | refused taken total _ asked answer =>
      rcases snoc_split split with ⟨_,rfl,rfl⟩ | ⟨_,_,earlier⟩
      · rw [taken.counts]
        exact ⟨total,asked,answer.symm⟩
      · obtain ⟨offset,asked,answer,_⟩ := taken.split earlier
        exact ⟨offset,asked,answer⟩
  sum := by
    rw [Int32.toInt_toInt64]
    cases finished with
    | all taken total => rw [total,taken.counts]
    | refused taken total =>
      rw [total,counts_snoc,taken.counts]
      rfl
  last before call after split := by
    have minus : (-1 : Int64).toInt = -1 := rfl
    cases finished with
    | all taken _ whole =>
      obtain ⟨_,_,_,positive,sum,rest⟩ := taken.split split
      have fine : call.result ≠ -1 := fun failed => by
        rw [failed,minus] at positive
        omega
      cases after with
      | nil =>
        rw [List.map_nil,List.sum_nil,Nat.add_zero] at sum
        exact iff_of_true rfl (.inr (by rw [sum,whole]))
      | cons next after =>
        have some := rest next (List.mem_cons_self ..)
        rw [List.map_cons,List.sum_cons] at sum
        refine iff_of_false (List.cons_ne_nil _ _) ?_
        rintro (failed | done)
        · exact fine failed
        · omega
    | refused taken _ more =>
      rcases snoc_split split with ⟨rfl,rfl,rfl⟩ | ⟨more',rfl,earlier⟩
      · exact iff_of_true rfl (.inl rfl)
      · obtain ⟨_,_,_,positive,sum,_⟩ := taken.split earlier
        refine iff_of_false (by simp) ?_
        rintro (failed | done)
        · rw [failed,minus] at positive
          omega
        · omega
  silent empty := by
    cases finished with
    | all taken _ whole =>
      rw [empty] at taken
      rw [← taken.counts] at whole
      exact Int64.toInt_inj.mp whole
    | refused => simp at empty

theorem Finished.status (finished : Finished answers len log s) :
    (if s.n = -1 then -1 else 0 : Int32) = if s.total.toInt64 = len then 0 else -1 := by
  have all : s.total.toInt64 = len ↔ s.total.toInt = len.toInt := by
    rw [← Int64.toInt_inj,Int32.toInt_toInt64]
  cases finished with
  | all _ total whole fine => rw [if_neg fine,if_pos (all.mpr (total.trans whole.symm))]
  | refused _ total more _ _ failed =>
    rw [if_pos failed,if_neg fun same => by have := all.mp same; omega]

/-- The bytes that the kernel took lie behind each other. -/
theorem Conversed.bytes {sent : Int64} (conversed : Conversed answers len log sent) (buf : Memory) :
    log.flatMap (Send.bytes buf) = load buf 0 (counts log) := by
  have front (n : Nat) : (log.take n).flatMap (Send.bytes buf) = load buf 0 (counts (log.take n)) := by
    induction n with
    | zero => simp
    | succ n ih =>
      by_cases inside : n < log.length
      · have split : log = log.take n ++ log[n] :: log.drop (n + 1) := by simp
        have offset : log[n].offset.toNatClampNeg = counts (log.take n) := by
          rw [← Int32.toNat_toInt,(conversed.contiguous _ _ _ split).1,Int.toNat_natCast]
        rw [List.take_succ_eq_append_getElem inside,List.flatMap_append,ih,counts_snoc,load_add,Nat.zero_add,
          List.flatMap_singleton,Send.bytes,offset]
      · have same : log.take (n + 1) = log.take n := by
          rw [List.take_of_length_le (by omega),List.take_of_length_le (by omega)]
        rw [same,ih]
  have whole := front log.length
  rwa [List.take_length] at whole

theorem Finished.inside (finished : Finished answers len log s) : 0 ≤ s.total.toInt ∧ s.total.toInt ≤ len.toInt := by
  cases finished with
  | all _ total whole => omega
  | refused _ total more => omega

theorem sendall_finishes (answers : Answers) (nonneg : 0 ≤ len.toInt) (short : len.toInt < 2 ^ 31) :
    ∃ log s, (∀ fuel, len.toNatClampNeg < fuel →
      sendall answers len fuel = ⟨log,.returned (if s.n = -1 then -1 else 0,s.total.toInt64)⟩) ∧
      Finished answers len log s := by
  have count : (len.toNatClampNeg : Int) = len.toInt := Int.toNat_of_nonneg nonneg
  obtain ⟨log,s,done,finished⟩ :=
    sendLoop_ends answers nonneg short len.toNatClampNeg (start_consistent len) .nil (by simp [count])
  rw [List.nil_append] at finished
  refine ⟨log,s,fun fuel enough => ?_,finished⟩
  have turned := done fuel enough
  rw [List.length_nil] at turned
  rw [sendall,turned,Exec.returned_bind]
  simp

/-- Whatever the kernel answers, `sendall` ends. It makes these calls of `send`; the bytes that the kernel takes
are the first `*sent` of the buffer, and the status is 0 exactly if that is all of them. -/
theorem sendall_contract (answers : Answers) (buf : Memory) (len : Int64) (nonneg : 0 ≤ len)
    (short : len.toInt < 2 ^ 31) :
    ∃ rc sent log,
      (∀ fuel, len.toNatClampNeg < fuel → sendall answers len fuel = ⟨log,.returned (rc,sent)⟩) ∧
      Conversed answers len log sent ∧
      0 ≤ sent ∧ sent ≤ len ∧ log.flatMap (Send.bytes buf) = load buf 0 sent.toNatClampNeg ∧
      rc = if sent = len then 0 else -1 := by
  obtain ⟨log,s,done,finished⟩ := sendall_finishes answers (Int64.le_iff_toInt_le.mp nonneg) short
  have conversed := finished.conversed
  refine ⟨_,s.total.toInt64,log,done,conversed,?_,?_,?_,finished.status⟩
  · rw [Int64.le_iff_toInt_le,Int32.toInt_toInt64]
    exact finished.inside.1
  · rw [Int64.le_iff_toInt_le,Int32.toInt_toInt64]
    exact finished.inside.2
  · rw [conversed.bytes buf,← Int64.toNat_toInt,conversed.sum,Int.toNat_natCast]

/-- What `send(2)` does with the bytes left of a packet: it takes one of them and as many more
as it has room for, or it fails. -/
inductive Answer where
  | took (more : Nat)
  | eagain
  | error
  deriving DecidableEq

/-- A kernel that answers as listed, and refuses from then on. -/
def listed (answers : List Answer) : Answers where
  result call asked :=
    match answers[call]? with
    | some (.took more) => Int64.ofNat (min (more + 1) asked.toNatClampNeg)
    | _ => -1
  legal call asked some := by
    split
    next more _ =>
      have bound := asked.toNatClampNeg_lt
      have positive : 0 < asked.toNatClampNeg := (Int64.toNatClampNeg_pos_iff asked).mpr some
      have count : (asked.toNatClampNeg : Int) = asked.toInt :=
        Int.toNat_of_nonneg (Int64.lt_iff_toInt_lt.mp some).le
      have zero : (0 : Int64).toInt = 0 := rfl
      refine .inr ⟨?_,?_⟩
      · rw [Int64.lt_iff_toInt_lt,Int64.toInt_ofNat_of_lt (by omega),zero]
        omega
      · rw [Int64.le_iff_toInt_le,Int64.toInt_ofNat_of_lt (by omega)]
        omega
    next => exact .inl rfl

/-- Three letters in memory. -/
def letters : Memory := store (fun _ => 0) 0 [97,98,99]

/-- The kernel takes two of them and refuses the third. -/
theorem letters_cut :
    sendall (listed [.took 1,.eagain]) 3 1000 = ⟨[⟨0,3,2⟩,⟨2,1,-1⟩],.returned (-1,2)⟩ ∧
    Conversed (listed [.took 1,.eagain]) 3 [⟨0,3,2⟩,⟨2,1,-1⟩] 2 ∧
    ([⟨0,3,2⟩,⟨2,1,-1⟩] : List Send).flatMap (Send.bytes letters) = [97,98] := by
  obtain ⟨rc,sent,log,done,conversed,_,_,front,_⟩ :=
    sendall_contract (listed [.took 1,.eagain]) letters 3 (by decide) (by decide)
  have four : sendall (listed [.took 1,.eagain]) 3 4 = ⟨[⟨0,3,2⟩,⟨2,1,-1⟩],.returned (-1,2)⟩ := by
    have calls : (sendall (listed [.took 1,.eagain]) 3 4).events = [⟨0,3,2⟩,⟨2,1,-1⟩] := by decide +kernel
    have status : (sendall (listed [.took 1,.eagain]) 3 4).outcome = .returned (-1,2) := by decide +kernel
    rw [← calls,← status]
  have same := (done 4 (by decide)).symm.trans four
  have calls : log = [⟨0,3,2⟩,⟨2,1,-1⟩] := congrArg Exec.events same
  have status : rc = -1 ∧ sent = 2 := by simpa using congrArg Exec.outcome same
  obtain ⟨rfl,rfl⟩ := status
  subst calls
  exact ⟨done 1000 (by decide),conversed,front⟩

end Sizigy.SendContract
