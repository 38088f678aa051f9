import Sizigy.Library.Tape
import Sizigy.Ringbuf

/-! The receiving half of `network.c`. A socket is the list of what its `recv` calls will
find, in chunks that the kernel chose, and what they answer once that is used up. -/
namespace Sizigy

open Tape

/-- Some bytes, or `EAGAIN`. -/
inductive Arrival where
  | bytes (first : UInt8) (more : List UInt8)
  | again

/-- The answer of every later call: `EAGAIN`, end of file, or a hard error. -/
inductive Ending where
  | quiet
  | closed
  | failed
  deriving DecidableEq

structure Socket where
  arrivals : List Arrival
  ending : Ending

inductive RecvResult where
  | data (bytes : List UInt8)
  | again
  | eof
  | error

def Ending.answer : Ending → RecvResult
  | .quiet => .again
  | .closed => .eof
  | .failed => .error

/-- `recv(2)`; what exceeds the length asked for stays for the next call. -/
def recv (s : Socket) (len : Nat) : RecvResult × Socket :=
  match s.arrivals with
  | [] => (s.ending.answer,s)
  | .again :: rest => (.again,{ s with arrivals := rest })
  | .bytes first more :: rest =>
    match (first :: more).drop len with
    | [] => (.data (first :: more),{ s with arrivals := rest })
    | next :: left => (.data ((first :: more).take len),{ s with arrivals := .bytes next left :: rest })

/-- The loop of `recvbytes`. Every turn ends it or brings a byte, so as many turns as bytes
asked for are enough; the first argument counts them. -/
def recvLoop (bufsize : Nat) : Nat → Nat → Ringbuffer → Socket → Int × Ringbuffer × Socket
  | 0, total, ringbuf, s => (total,ringbuf,s)
  | turns + 1, total, ringbuf, s =>
    if total < bufsize then
      match recv s (bufsize - total) with
      | (.data buf,s) => recvLoop bufsize turns (total + buf.length) (ringbufBulkPush ringbuf buf).2 s
      | (.again,s) => (total,ringbuf,s)
      | (.eof,s) => (0,ringbuf,s)
      | (.error,s) => (-1,ringbuf,s)
    else (total,ringbuf,s)

def recvbytes (s : Socket) (ringbuf : Ringbuffer) (bufsize : Nat) : Int × Ringbuffer × Socket :=
  recvLoop bufsize bufsize 0 ringbuf s

def Arrival.marks : Arrival → Tape UInt8
  | .bytes first more => some first :: more.map some
  | .again => [none]

/-- The bytes and the `EAGAIN` answers of a socket in order. Where chunks meet does not show. -/
def tape (arrivals : List Arrival) : Tape UInt8 := arrivals.flatMap Arrival.marks

theorem scan_bytes (bytes : List UInt8) (n : Nat) (t : Tape UInt8) :
    scan (bytes.length + n) (bytes.map some ++ t) = (bytes ++ (scan n t).1,(scan n t).2) := by
  induction bytes with
  | nil => simp
  | cons byte bytes ih =>
    rw [List.length_cons,Nat.add_right_comm,List.map_cons,List.cons_append,scan,ih]
    rfl

/-- A call that asks for something finds the start of what the tape still holds. -/
theorem recv_quiet (s : Socket) (quiet : s.ending = .quiet) (positive : 0 < len) :
    (recv s len).2.ending = .quiet ∧
    (((recv s len).1 = .again ∧ scan len (tape s.arrivals) = ([],tape (recv s len).2.arrivals)) ∨
    ∃ bytes, (recv s len).1 = .data bytes ∧ 0 < bytes.length ∧ bytes.length ≤ len ∧
      scan len (tape s.arrivals) =
        (bytes ++ (scan (len - bytes.length) (tape (recv s len).2.arrivals)).1,
          (scan (len - bytes.length) (tape (recv s len).2.arrivals)).2)) := by
  obtain ⟨arrivals,ending⟩ := s
  obtain rfl : ending = .quiet := quiet
  obtain ⟨budget,rfl⟩ : ∃ budget, len = budget + 1 := ⟨len - 1,by omega⟩
  rcases arrivals with _ | ⟨⟨first,more⟩ | _,rest⟩
  · exact ⟨rfl,.inl ⟨rfl,rfl⟩⟩
  · have arrived : tape (.bytes first more :: rest) = (first :: more).map some ++ tape rest := by
      simp [tape,Arrival.marks]
    rcases tail : (first :: more).drop (budget + 1) with _ | ⟨next,later⟩
    · have found : recv ⟨.bytes first more :: rest,.quiet⟩ (budget + 1) =
          (.data (first :: more),⟨rest,.quiet⟩) := by simp only [recv,tail]
      have fits : (first :: more).length ≤ budget + 1 := List.drop_eq_nil_iff.mp tail
      rw [found,arrived]
      refine ⟨rfl,.inr ⟨first :: more,rfl,Nat.succ_pos _,fits,?_⟩⟩
      rw [← scan_bytes,Nat.add_sub_cancel' fits]
    · have found : recv ⟨.bytes first more :: rest,.quiet⟩ (budget + 1) =
          (.data ((first :: more).take (budget + 1)),⟨.bytes next later :: rest,.quiet⟩) := by
        simp only [recv,tail]
      have size : ((first :: more).take (budget + 1)).length = budget + 1 := by
        have := congrArg List.length tail
        simp only [List.length_drop,List.length_cons] at this
        simp only [List.length_take,List.length_cons]
        omega
      have halves : (first :: more).map some ++ tape rest =
          ((first :: more).take (budget + 1)).map some ++ tape (.bytes next later :: rest) := by
        have joined : first :: more = (first :: more).take (budget + 1) ++ (next :: later) := by
          rw [← tail,List.take_append_drop]
        nth_rewrite 1 [joined]
        simp [tape,Arrival.marks]
      rw [found,arrived,halves]
      refine ⟨rfl,.inr ⟨_,rfl,by omega,by omega,?_⟩⟩
      rw [← scan_bytes,size,Nat.sub_self,Nat.add_zero]
  · exact ⟨rfl,.inl ⟨rfl,rfl⟩⟩

theorem take_append_take (bytes more : List UInt8) (n : Nat) :
    (bytes.take n ++ more).take n = (bytes ++ more).take n := by
  rw [List.take_append,List.take_append,List.take_take,Nat.min_self,List.length_take]
  congr 2
  omega

theorem contents_take (r : Ringbuffer) : r.contents.take r.max = r.contents :=
  List.take_of_length_le (by rw [contents_length]; exact size_le_max r)

theorem bulkPush_take (r : Ringbuffer) (data : List UInt8) :
    (ringbufBulkPush r data).2.contents = (r.contents ++ data).take r.max := by
  rw [bulkPush_contents,List.take_append,contents_length,contents_take]

/-- One bounded read of the tape into the ring, which keeps what fits. -/
structure Scanned (s : Socket) (r : Ringbuffer) (n : Nat) (r' : Ringbuffer) (s' : Socket) : Prop where
  contents : r'.contents = (r.contents ++ (scan n (tape s.arrivals)).1).take r.max
  max : r'.max = r.max
  quiet : s'.ending = .quiet
  rest : tape s'.arrivals = (scan n (tape s.arrivals)).2

theorem scanned_nothing (quiet : s.ending = .quiet) : Scanned s r 0 r s :=
  ⟨by rw [scan,List.append_nil,contents_take],rfl,quiet,by rw [scan]⟩

theorem recvLoop_scanned (bufsize turns total : Nat) (r : Ringbuffer) (s : Socket)
    (quiet : s.ending = .quiet) (enough : bufsize - total ≤ turns) :
    ∃ r' s', recvLoop bufsize turns total r s =
        (((total + (scan (bufsize - total) (tape s.arrivals)).1.length : Nat) : Int),r',s') ∧
      Scanned s r (bufsize - total) r' s' := by
  induction turns generalizing total r s with
  | zero =>
    rw [Nat.le_zero.mp enough]
    exact ⟨r,s,rfl,scanned_nothing quiet⟩
  | succ turns ih =>
    by_cases more : total < bufsize
    · obtain ⟨quiet',answer⟩ := recv_quiet s quiet (Nat.sub_pos_of_lt more)
      rcases found : recv s (bufsize - total) with ⟨result,s'⟩
      rw [found] at quiet' answer
      rcases answer with ⟨rfl,rest⟩ | ⟨bytes,rfl,some,fits,rest⟩
      · refine ⟨r,s',?_,?_,rfl,quiet',by rw [rest]⟩
        · rw [recvLoop,if_pos more,found,rest]
          rfl
        · rw [rest,List.append_nil,contents_take]
      · obtain ⟨r',s'',done,scanned⟩ :=
          ih (total + bytes.length) (ringbufBulkPush r bytes).2 s' quiet' (by omega)
        rw [Nat.sub_add_eq] at done scanned
        refine ⟨r',s'',?_,?_,scanned.max.trans (bulkPush_max r bytes),scanned.quiet,?_⟩
        · rw [recvLoop,if_pos more,found,rest,List.length_append,← Nat.add_assoc]
          exact done
        · rw [scanned.contents,rest,bulkPush_max,bulkPush_take,take_append_take,List.append_assoc]
        · rw [scanned.rest,rest]
    · have none : bufsize - total = 0 := Nat.sub_eq_zero_of_le (Nat.le_of_not_lt more)
      rw [none]
      exact ⟨r,s,by rw [recvLoop,if_neg more,scan]; rfl,scanned_nothing quiet⟩

theorem recvbytes_scanned (s : Socket) (r : Ringbuffer) (bufsize : Nat) (quiet : s.ending = .quiet) :
    ∃ r' s', recvbytes s r bufsize = (((scan bufsize (tape s.arrivals)).1.length : Int),r',s') ∧
      Scanned s r bufsize r' s' := by
  obtain ⟨r',s',done,scanned⟩ := recvLoop_scanned bufsize bufsize 0 r s quiet (Nat.le_refl _)
  rw [Nat.zero_add] at done
  exact ⟨r',s',done,scanned⟩

end Sizigy
