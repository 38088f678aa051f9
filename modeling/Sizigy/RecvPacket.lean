import Sizigy.Library.Outcome
import Sizigy.Network
import Sizigy.Protocol

/-! `recv_packet` of `server.c`. Its byte counts are of type `size_t`, so that the two tests
for a negative count never hold and an error does not end the loops. Both loops may run for
ever on a socket that brings nothing; fuel counts their turns. -/
namespace Sizigy

open Bytes Tape

def headlen : Nat := 5

def onemb : Nat := 1048576

/-- The ring buffer that `request_handler` makes for each call, over a stack array. -/
def requestRing (stack : Memory) : Ringbuffer := ringbufInit stack (onemb * 2) (by decide)

/-- Conversion of a signed result to `size_t`. -/
def sizeT (n : Int) : Nat := (n % 2 ^ 64).toNat

/-- The first loop; `none` is its null return. -/
def headerLoop : Nat → Nat → Ringbuffer → Socket → Outcome (Option Ringbuffer × Socket)
  | 0, _, _, _ => .unfinished
  | fuel + 1, n, rbuf, s =>
    if n < headlen then
      let (got,rbuf,s) := recvbytes s rbuf headlen
      let n := sizeT (n + got)
      if n = 0 then .returned (none,s) else headerLoop fuel n rbuf s
    else .returned (some rbuf,s)

/-- The second loop asks for the whole body again in every turn. -/
def bodyLoop (need : Nat) : Nat → Ringbuffer → Socket → Outcome (Ringbuffer × Socket)
  | 0, _, _ => .unfinished
  | fuel + 1, rbuf, s =>
    if ringbufSize rbuf < need then
      let (_,rbuf,s) := recvbytes s rbuf need
      bodyLoop need fuel rbuf s
    else .returned (rbuf,s)

/-- Pops into consecutive bytes; a pop of an empty ring leaves the byte as it was. -/
def popBytes (junk : Memory) (pos : Nat) : Nat → Ringbuffer → List UInt8 × Ringbuffer
  | 0, rbuf => ([],rbuf)
  | n + 1, rbuf =>
    let (byte,rbuf) := ringbufPop rbuf
    let (bytes,rbuf) := popBytes junk (pos + 1) n rbuf
    (byte.getD (junk pos) :: bytes,rbuf)

/-- `tlen - HEADLEN`, a `uint32_t` difference. -/
def remaining (tlen : Nat) : Nat := (tlen + (2 ^ 32 - headlen)) % 2 ^ 32

def recvPacket (junk : Memory) (fuel : Nat) (rbuf : Ringbuffer) (s : Socket) :
    Outcome (Option (UInt8 × Buffer) × Socket) := do
  let (header,s) ← headerLoop fuel 0 rbuf s
  match header with
  | none => return (none,s)
  | some rbuf =>
    let tmp := popBytes junk 0 headlen rbuf
    let tlen := decode (tmp.1.drop 1)
    let need := remaining tlen
    let (rbuf,s) ← bodyLoop need fuel tmp.2 s
    let b := bufferInit tlen junk
    let body := popBytes junk headlen need rbuf
    return (some (tmp.1.headD 0,{ b with data := store (store b.data 0 tmp.1) headlen body.1 }),s)

theorem remaining_add (small : headlen + need < 2 ^ 32) : remaining (headlen + need) = need := by
  unfold remaining headlen at *
  omega

/-- A length below the header's wraps to more than the ring can hold. -/
theorem remaining_possible (small : tlen < 2 ^ 32) (possible : remaining tlen ≤ onemb * 2) :
    tlen = headlen + remaining tlen := by
  unfold remaining headlen onemb at *
  omega

/-- Bytes that moved from the socket into the ring, which keeps what fits. -/
structure Drawn (s : Socket) (r : Ringbuffer) (bytes : List UInt8) (r' : Ringbuffer) (s' : Socket) :
    Prop where
  contents : r'.contents = (r.contents ++ bytes).take r.max
  max : r'.max = r.max
  quiet : s'.ending = .quiet
  payload : payload (tape s.arrivals) = bytes ++ payload (tape s'.arrivals)
  rest : Rest (tape s.arrivals) (tape s'.arrivals) bytes.length

theorem Drawn.nothing (quiet : s.ending = .quiet) : Drawn s r [] r s :=
  ⟨by rw [List.append_nil,contents_take],rfl,quiet,rfl,Rest.refl _⟩

theorem Drawn.trans (first : Drawn s r bytes r' s') (second : Drawn s' r' more r'' s'') :
    Drawn s r (bytes ++ more) r'' s'' where
  contents := by
    rw [second.contents,first.contents,first.max,take_append_take,List.append_assoc]
  max := second.max.trans first.max
  quiet := second.quiet
  payload := by rw [first.payload,second.payload,List.append_assoc]
  rest := by
    rw [List.length_append]
    exact first.rest.trans second.rest

theorem Scanned.drawn (scanned : Scanned s r n r' s') :
    Drawn s r (scan n (tape s.arrivals)).1 r' s' where
  contents := scanned.contents
  max := scanned.max
  quiet := scanned.quiet
  payload := by rw [scanned.rest,← scan_payload]
  rest := by
    rw [scanned.rest]
    exact scan_rest n _

theorem Drawn.size (drawn : Drawn s r bytes r' s') :
    ringbufSize r' = min r.max (ringbufSize r + bytes.length) := by
  rw [← contents_length,drawn.contents,List.length_take,List.length_append,contents_length]

theorem sizeT_add {n k : Nat} (small : n + k < 2 ^ 64) : sizeT ((n : Int) + (k : Int)) = n + k := by
  unfold sizeT
  omega

/-- The ring is larger than two headers, and holds the bytes counted so far. -/
structure Counted (n : Nat) (r : Ringbuffer) : Prop where
  size : ringbufSize r = n
  room : 2 * headlen ≤ r.max

theorem Counted.next (counted : Counted n r) (few : n < headlen) (drawn : Drawn s r bytes r' s')
    (bound : bytes.length ≤ headlen) : Counted (n + bytes.length) r' where
  size := by
    rw [drawn.size,counted.size]
    have := counted.room
    omega
  room := by
    rw [drawn.max]
    exact counted.room

/-- What a loop has drawn: nothing if there was enough before, else what repeated reads
of the given bound gather. -/
def Completes (bound need : Nat) (t : Tape UInt8) (bytes : List UInt8) : Prop :=
  (need = 0 → bytes = []) ∧ (0 < need → Gathered bound need t bytes.length)

theorem Completes.step (positive : 0 < need) (possible : need ≤ bound)
    (later : Completes bound (need - (scan bound t).1.length) (scan bound t).2 bytes) :
    Completes bound need t ((scan bound t).1 ++ bytes) := by
  refine ⟨fun zero => by omega,fun _ => ?_⟩
  rw [List.length_append]
  rcases Nat.lt_or_ge (scan bound t).1.length need with few | enough
  · exact gathered_more few possible (later.2 (by omega))
  · rw [later.1 (by omega),List.length_nil,Nat.add_zero]
    exact gathered_last enough positive

theorem headerLoop_some (counted : Counted n r) (quiet : s.ending = .quiet)
    (done : headerLoop fuel n r s = .returned (some r',s')) :
    ∃ bytes, Drawn s r bytes r' s' ∧ Counted (n + bytes.length) r' ∧
      Completes headlen (headlen - n) (tape s.arrivals) bytes := by
  induction fuel generalizing n r s with
  | zero => contradiction
  | succ fuel ih =>
    obtain ⟨r₁,s₁,received,scanned⟩ := recvbytes_scanned s r headlen quiet
    have bound := scan_length_le headlen (tape s.arrivals)
    by_cases few : n < headlen
    · have counted₁ := counted.next few scanned.drawn bound
      have total := sizeT_add (n := n) (k := (scan headlen (tape s.arrivals)).1.length)
        (by unfold headlen at *; omega)
      simp only [headerLoop,few,if_true,received,total] at done
      split at done
      · cases done
      · obtain ⟨bytes,drawn,counted',completes⟩ := ih counted₁ scanned.quiet done
        rw [scanned.rest,Nat.sub_add_eq] at completes
        refine ⟨_,scanned.drawn.trans drawn,?_,completes.step (by omega) (by omega)⟩
        rwa [List.length_append,← Nat.add_assoc]
    · simp only [headerLoop,few,if_false] at done
      cases done
      exact ⟨[],Drawn.nothing quiet,counted,fun _ => rfl,fun left => absurd left (by omega)⟩

theorem headerLoop_none (counted : Counted n r) (quiet : s.ending = .quiet)
    (done : headerLoop fuel n r s = .returned (none,s')) :
    n = 0 ∧ (scan headlen (tape s.arrivals)).1 = [] ∧ s'.ending = .quiet ∧
      tape s'.arrivals = (scan headlen (tape s.arrivals)).2 := by
  induction fuel generalizing n r s with
  | zero => contradiction
  | succ fuel ih =>
    obtain ⟨r₁,s₁,received,scanned⟩ := recvbytes_scanned s r headlen quiet
    have bound := scan_length_le headlen (tape s.arrivals)
    by_cases few : n < headlen
    · have counted₁ := counted.next few scanned.drawn bound
      have total := sizeT_add (n := n) (k := (scan headlen (tape s.arrivals)).1.length)
        (by unfold headlen at *; omega)
      simp only [headerLoop,few,if_true,received,total] at done
      split at done
      next zero =>
        cases done
        exact ⟨by omega,List.eq_nil_of_length_eq_zero (by omega),scanned.quiet,scanned.rest⟩
      next positive => exact absurd (ih counted₁ scanned.quiet done).1 positive
    · simp only [headerLoop,few,if_false] at done
      cases done

/-- The first loop gets through a header whose bytes arrive, once it has one of them. -/
theorem headerLoop_returns (counted : Counted n r) (quiet : s.ending = .quiet)
    (started : 0 < n ∨ ¬Pause (tape s.arrivals) 0)
    (arrives : headlen ≤ n + (payload (tape s.arrivals)).length)
    (enough : (tape s.arrivals).length < fuel) :
    ∃ r' s', headerLoop fuel n r s = .returned (some r',s') ∧
      (tape s'.arrivals).length ≤ (tape s.arrivals).length := by
  induction fuel generalizing n r s with
  | zero => contradiction
  | succ fuel ih =>
    by_cases few : n < headlen
    · obtain ⟨r₁,s₁,received,scanned⟩ := recvbytes_scanned s r headlen quiet
      have bound := scan_length_le headlen (tape s.arrivals)
      have counted₁ := counted.next few scanned.drawn bound
      have total := sizeT_add (n := n) (k := (scan headlen (tape s.arrivals)).1.length)
        (by unfold headlen at *; omega)
      have positive : n + (scan headlen (tape s.arrivals)).1.length ≠ 0 := by
        intro zero
        rcases started with some | first
        · omega
        · rcases scan_stops headlen (tape s.arrivals) with pause | full
          · rw [show (scan headlen (tape s.arrivals)).1.length = 0 by omega] at pause
            exact first pause
          · unfold headlen at *
            omega
      have shrinks : (tape s₁.arrivals).length < (tape s.arrivals).length := by
        rcases marks : tape s.arrivals with _ | ⟨mark,rest⟩
        · simp [marks] at arrives
          omega
        · rw [scanned.rest,marks]
          exact Nat.lt_succ_of_le (scan_shrinks headlen (by decide) mark rest)
      have moved := congrArg List.length scanned.drawn.payload
      rw [List.length_append] at moved
      obtain ⟨r',s',done,shorter⟩ := ih counted₁ scanned.quiet (.inl (Nat.pos_of_ne_zero positive))
        (by omega) (by omega)
      refine ⟨r',s',?_,by omega⟩
      simp only [headerLoop,few,if_true,received,total,positive,if_false]
      exact done
    · exact ⟨r,s,by simp [headerLoop,few],Nat.le_refl _⟩

theorem bodyLoop_drawn (possible : need ≤ r.max) (quiet : s.ending = .quiet)
    (done : bodyLoop need fuel r s = .returned (r',s')) :
    ∃ bytes, Drawn s r bytes r' s' ∧ need ≤ ringbufSize r' ∧
      Completes need (need - ringbufSize r) (tape s.arrivals) bytes := by
  induction fuel generalizing r s with
  | zero => contradiction
  | succ fuel ih =>
    obtain ⟨r₁,s₁,received,scanned⟩ := recvbytes_scanned s r need quiet
    by_cases few : ringbufSize r < need
    · simp only [bodyLoop,few,if_true,received] at done
      obtain ⟨bytes,drawn,enough,completes⟩ := ih (scanned.max ▸ possible) scanned.quiet done
      have left : need - ringbufSize r₁ =
          need - ringbufSize r - (scan need (tape s.arrivals)).1.length := by
        rw [scanned.drawn.size]
        omega
      rw [scanned.rest,left] at completes
      exact ⟨_,scanned.drawn.trans drawn,enough,completes.step (by omega) (by omega)⟩
    · simp only [bodyLoop,few,if_false] at done
      cases done
      exact ⟨[],Drawn.nothing quiet,Nat.le_of_not_lt few,fun _ => rfl,fun left => absurd left (by omega)⟩

theorem bodyLoop_returns (possible : need ≤ r.max) (quiet : s.ending = .quiet)
    (arrives : need ≤ ringbufSize r + (payload (tape s.arrivals)).length)
    (enough : (tape s.arrivals).length < fuel) :
    ∃ r' s', bodyLoop need fuel r s = .returned (r',s') ∧
      (tape s'.arrivals).length ≤ (tape s.arrivals).length := by
  induction fuel generalizing r s with
  | zero => contradiction
  | succ fuel ih =>
    by_cases few : ringbufSize r < need
    · obtain ⟨r₁,s₁,received,scanned⟩ := recvbytes_scanned s r need quiet
      have shrinks : (tape s₁.arrivals).length < (tape s.arrivals).length := by
        rcases marks : tape s.arrivals with _ | ⟨mark,rest⟩
        · simp [marks] at arrives
          omega
        · rw [scanned.rest,marks]
          exact Nat.lt_succ_of_le (scan_shrinks need (by omega) mark rest)
      have moved := congrArg List.length scanned.drawn.payload
      have size := scanned.drawn.size
      rw [List.length_append] at moved
      obtain ⟨r',s',done,shorter⟩ :=
        ih (scanned.max ▸ possible) scanned.quiet (by omega) (by omega)
      refine ⟨r',s',?_,by omega⟩
      simp only [bodyLoop,few,if_true,received]
      exact done
    · exact ⟨r,s,by simp [bodyLoop,few],Nat.le_refl _⟩

theorem popBytes_contents (junk : Memory) (pos : Nat) (bytes : List UInt8)
    (queued : r.contents = bytes ++ rest) :
    (popBytes junk pos bytes.length r).1 = bytes ∧
      (popBytes junk pos bytes.length r).2.contents = rest ∧
      (popBytes junk pos bytes.length r).2.max = r.max := by
  induction bytes generalizing pos r with
  | nil => exact ⟨rfl,queued,rfl⟩
  | cons byte bytes ih =>
    obtain ⟨first,others,max⟩ := pop_contents queued
    obtain ⟨later,left,max'⟩ := ih (pos + 1) others
    simp only [List.length_cons,popBytes]
    exact ⟨by rw [first,later]; rfl,left,max'.trans max⟩

theorem recvbytes_max (s : Socket) (r : Ringbuffer) (bufsize : Nat) :
    (recvbytes s r bufsize).2.1.max = r.max := by
  have loop (turns total : Nat) (r : Ringbuffer) (s : Socket) :
      (recvLoop bufsize turns total r s).2.1.max = r.max := by
    induction turns generalizing total r s with
    | zero => rfl
    | succ turns ih =>
      unfold recvLoop
      split
      · split
        · rw [ih,bulkPush_max]
        · rfl
        · rfl
        · rfl
      · rfl
  exact loop _ _ r s

theorem headerLoop_max (done : headerLoop fuel n r s = .returned (some r',s')) : r'.max = r.max := by
  induction fuel generalizing n r s with
  | zero => contradiction
  | succ fuel ih =>
    unfold headerLoop at done
    split at done
    · dsimp only at done
      split at done
      · cases done
      · rw [ih done,recvbytes_max]
    · cases done
      rfl

/-- The body of a packet that arrives is in the ring as a whole. -/
theorem bodyLoop_fits (done : bodyLoop need fuel r s = .returned (r',s')) : need ≤ r.max := by
  induction fuel generalizing r s with
  | zero => contradiction
  | succ fuel ih =>
    unfold bodyLoop at done
    split at done
    · rw [← recvbytes_max s r need]
      exact ih done
    next enough =>
      exact (Nat.le_of_not_lt enough).trans (size_le_max r)

theorem popBytes_shape (junk : Memory) (pos n : Nat) (r : Ringbuffer) :
    (popBytes junk pos n r).1.length = n ∧ (popBytes junk pos n r).2.max = r.max := by
  induction n generalizing pos r with
  | zero => exact ⟨rfl,rfl⟩
  | succ n ih =>
    obtain ⟨length,max⟩ := ih (pos + 1) (ringbufPop r).2
    refine ⟨congrArg Nat.succ length,max.trans ?_⟩
    unfold ringbufPop
    split <;> rfl

/-- A packet is sized by its own length field and fits the ring after the header. -/
theorem recvPacket_fits (done : recvPacket junk fuel (requestRing stack) s = .returned (some (opcode,b),s')) :
    b.size ≤ onemb * 2 + headlen ∧ decode (load b.data 1 4) = b.size ∧ b.pos = 0 := by
  unfold recvPacket at done
  obtain ⟨⟨header,s₁⟩,first,done⟩ := Outcome.bind_eq_returned.mp done
  cases header with
  | none => exact absurd (Prod.mk.inj (Outcome.returned.inj done)).1.symm (Option.some_ne_none _)
  | some r =>
    obtain ⟨length,max⟩ := popBytes_shape junk 0 headlen r
    dsimp only at done
    generalize popBytes junk 0 headlen r = tmp at *
    obtain ⟨⟨r₁,s₁⟩,second,done⟩ := Outcome.bind_eq_returned.mp done
    obtain ⟨packet,rfl⟩ := Prod.mk.inj (Outcome.returned.inj done)
    obtain ⟨_,rfl⟩ := Prod.mk.inj (Option.some.inj packet)
    have possible := bodyLoop_fits second
    rw [max,headerLoop_max first] at possible
    have small : decode (tmp.1.drop 1) < 2 ^ 32 := by
      have bound := decode_lt (tmp.1.drop 1)
      rwa [List.length_drop,length] at bound
    have total := remaining_possible small possible
    refine ⟨?_,?_,rfl⟩
    · change decode (tmp.1.drop 1) ≤ _
      have ring : (requestRing stack).max = onemb * 2 := rfl
      omega
    · change decode (load (store (store junk 0 tmp.1) headlen _) 1 4) = decode (tmp.1.drop 1)
      congr 1
      rw [load_store_below _ _ (by decide)]
      have whole := load_store junk 0 tmp.1
      rw [length,show headlen = 1 + 4 from rfl,load_add] at whole
      have field := congrArg (List.drop 1) whole
      rwa [List.drop_left' (load_length _ _ _),Nat.zero_add] at field

/-- The first byte of a packet is the opcode that it is returned with. -/
theorem recvPacket_opcode (done : recvPacket junk fuel (requestRing stack) s = .returned (some (opcode,b),s')) :
    b.data 0 = opcode := by
  unfold recvPacket at done
  obtain ⟨⟨header,s₁⟩,_,done⟩ := Outcome.bind_eq_returned.mp done
  cases header with
  | none => exact absurd (Prod.mk.inj (Outcome.returned.inj done)).1.symm (Option.some_ne_none _)
  | some r =>
    obtain ⟨length,_⟩ := popBytes_shape junk 0 headlen r
    dsimp only at done
    generalize popBytes junk 0 headlen r = tmp at *
    obtain ⟨⟨r₁,s₁⟩,_,done⟩ := Outcome.bind_eq_returned.mp done
    obtain ⟨packet,_⟩ := Prod.mk.inj (Outcome.returned.inj done)
    obtain ⟨rfl,rfl⟩ := Prod.mk.inj (Option.some.inj packet)
    have first : 0 < headlen := by decide
    have header := store_below (store junk 0 tmp.1) headlen
      (popBytes junk headlen (remaining (decode (tmp.1.drop 1))) r₁).1 first
    refine header.trans ?_
    cases bytes : tmp.1 with
    | nil => simp [bytes,headlen] at length
    | cons first rest => rfl

/-- The call brings a packet with this opcode and these bytes. -/
def brings (opcode : UInt8) (bytes : List UInt8) : Outcome (Option (UInt8 × Buffer) × Socket) → Bool
  | .returned (some (found,buffer),_) => found == opcode && buffer.bytes == bytes
  | _ => false

theorem brings_packet (brought : brings opcode bytes x = true) :
    ∃ buffer s, x = .returned (some (opcode,buffer),s) ∧ buffer.bytes = bytes := by
  unfold brings at brought
  split at brought
  · rw [Bool.and_eq_true,beq_iff_eq,beq_iff_eq] at brought
    obtain ⟨rfl,rfl⟩ := brought
    exact ⟨_,_,rfl,rfl⟩
  · cases brought

end Sizigy
