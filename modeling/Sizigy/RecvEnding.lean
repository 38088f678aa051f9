import Sizigy.Framing

/-! When `recv_packet` ends, and with what. End of file counts as no progress and an error as
minus one, both on a `size_t`. The body loop does not look at its count at all, so the ending
of a stream matters to the header loop alone, and only if it is met there. A call that does not
end goes on for ever, or kills the process: for a length below 5, which wraps, or one of several
megabytes, the array that `recvbytes` declares for the body does not fit on the stack. -/
namespace Sizigy.RecvEnding

open Bytes Framing Tape

variable {stack junk : Memory} {arrivals : List Arrival} {e : Ending}

/-- The count that `recvbytes` returns when it meets the ending, for so many bytes taken. -/
def report (e : Ending) (got : Int) : Int :=
  match e with
  | .quiet => got
  | .closed => 0
  | .failed => -1

/-- The same result on a socket with another ending. -/
def relabel (e : Ending) (x : Outcome (α × Socket)) : Outcome (α × Socket) := do
  let (value,s) ← x
  return (value,{ s with ending := e })

@[simp] theorem relabel_returned (e : Ending) (value : α) (s : Socket) :
    relabel e (.returned (value,s)) = .returned (value,{ s with ending := e }) := rfl

theorem relabel_eq_returned {x : Outcome (α × Socket)} (done : relabel e x = .returned (value,s)) :
    ∃ s', x = .returned (value,s') := by
  obtain ⟨⟨value',s'⟩,found,same⟩ := Outcome.bind_eq_returned.mp done
  obtain ⟨rfl,_⟩ := Prod.mk.inj (Outcome.returned.inj same)
  exact ⟨s',found⟩

/-- Bytes that a call finds stood at the front of the tape. -/
theorem recv_front (first : UInt8) (more : List UInt8) (rest : List Arrival) (positive : 0 < len) :
    ∃ bytes later, 0 < bytes.length ∧ bytes.length ≤ len ∧
      tape (.bytes first more :: rest) = bytes.map some ++ tape later ∧
      ∀ e, recv ⟨.bytes first more :: rest,e⟩ len = (.data bytes,⟨later,e⟩) := by
  cases tail : (first :: more).drop len with
  | nil =>
    refine ⟨first :: more,rest,Nat.succ_pos _,List.drop_eq_nil_iff.mp tail,by simp [tape,Arrival.marks],fun e => ?_⟩
    simp only [recv,tail]
  | cons next left =>
    have joined := List.take_append_drop len (first :: more)
    have length := congrArg List.length tail
    simp only [List.length_drop,List.length_cons] at length
    refine ⟨(first :: more).take len,.bytes next left :: rest,by simp; omega,by simp,?_,fun e => ?_⟩
    · have marks : (first :: more).map some = ((first :: more).take len).map some ++ (next :: left).map some := by
        rw [← List.map_append,← tail,joined]
      simpa [tape,Arrival.marks] using congrArg (· ++ tape rest) marks
    · simp only [recv,tail]

theorem recvLoop_ending (bufsize turns total : Nat) (r : Ringbuffer) (arrivals : List Arrival)
    (enough : bufsize - total ≤ turns) : ∃ got r' later, ∀ e, recvLoop bufsize turns total r ⟨arrivals,e⟩ =
      (if dry (bufsize - total) (tape arrivals) then report e got else got,r',⟨later,e⟩) := by
  induction turns generalizing total r arrivals with
  | zero =>
    have none : bufsize - total = 0 := Nat.le_zero.mp enough
    exact ⟨total,r,arrivals,by simp [recvLoop,none,dry]⟩
  | succ turns ih =>
    by_cases more : total < bufsize
    · obtain ⟨budget,left⟩ : ∃ budget, bufsize - total = budget + 1 := ⟨bufsize - total - 1,by omega⟩
      rcases arrivals with _ | ⟨⟨first,others⟩ | _,rest⟩
      · refine ⟨total,r,[],fun e => ?_⟩
        cases e <;> simp [recvLoop,more,recv,Ending.answer,left,tape,dry,report]
      · obtain ⟨bytes,later,some,fits,front,found⟩ := recv_front first others rest (Nat.sub_pos_of_lt more)
        obtain ⟨got,r',last,ended⟩ :=
          ih (total + bytes.length) (ringbufBulkPush r bytes).2 later (by omega)
        have same : dry (bufsize - total) (tape (.bytes first others :: rest)) =
            dry (bufsize - (total + bytes.length)) (tape later) := by
          have split : bufsize - total = bytes.length + (bufsize - (total + bytes.length)) := by omega
          rw [front,split,dry_append]
        exact ⟨got,r',last,by simpa [recvLoop,more,found,same] using ended⟩
      · exact ⟨total,r,rest,by simp [recvLoop,more,recv,left,tape,Arrival.marks,dry]⟩
    · have none : bufsize - total = 0 := Nat.sub_eq_zero_of_le (Nat.le_of_not_lt more)
      exact ⟨total,r,arrivals,by simp [recvLoop,more,none,dry]⟩

/-- One call of `recvbytes` for a header or a body, on any ending: what it takes does not
depend on the ending, what it returns does if it meets it. -/
theorem recvbytes_ending (arrivals : List Arrival) (r : Ringbuffer) (n : Nat) :
    ∃ r' later, Scanned ⟨arrivals,.quiet⟩ r n r' ⟨later,.quiet⟩ ∧
      ∀ e, recvbytes ⟨arrivals,e⟩ r n = (if dry n (tape arrivals) then report e (scan n (tape arrivals)).1.length
        else ((scan n (tape arrivals)).1.length : Int),r',⟨later,e⟩) := by
  obtain ⟨got,r',later,ended⟩ := recvLoop_ending n n 0 r arrivals (Nat.le_refl _)
  obtain ⟨r₁,s₁,received,scanned⟩ := recvbytes_scanned ⟨arrivals,.quiet⟩ r n rfl
  have quiet : recvbytes ⟨arrivals,.quiet⟩ r n = (got,r',⟨later,.quiet⟩) := by
    simpa [recvbytes,report] using ended .quiet
  obtain ⟨rfl,same⟩ := Prod.mk.inj (quiet.symm.trans received)
  obtain ⟨rfl,rfl⟩ := Prod.mk.inj same
  exact ⟨r',later,scanned,ended⟩

/-- The body loop only looks at the ring. -/
theorem bodyLoop_ending (need fuel : Nat) (r : Ringbuffer) (s : Socket) (e : Ending) :
    bodyLoop need fuel r { s with ending := e } = relabel e (bodyLoop need fuel r s) := by
  induction fuel generalizing r s with
  | zero => rfl
  | succ fuel ih =>
    by_cases few : ringbufSize r < need
    · obtain ⟨r',later,_,ended⟩ := recvbytes_ending s.arrivals r need
      simp only [bodyLoop,few,if_true,ended]
      exact ih r' ⟨later,s.ending⟩
    · simp [bodyLoop,few]

/-- With so many bytes counted, the header is completed before the ending is met: five bytes
follow the last `EAGAIN` inside it, or an `EAGAIN` stands behind it. -/
def Reads (n : Nat) (t : Tape UInt8) : Prop :=
  (headlen ≤ (payload t).length ∧ ∀ p, n + p < headlen → Mark t p → p + headlen ≤ (payload t).length) ∨
    ∃ p, headlen ≤ n + p ∧ Mark t p

theorem dry_not_reads {t : Tape UInt8} (out : dry headlen t = true) : ¬Reads n t := by
  obtain ⟨_,_,few,none⟩ := dry_scan out
  rintro (⟨enough,_⟩ | ⟨p,_,mark⟩)
  · omega
  · exact none p mark

theorem reads_now {t : Tape UInt8} (within : dry headlen t = false)
    (enough : headlen ≤ n + (scan headlen t).1.length) : Reads n t := by
  obtain ⟨inside,full | ⟨_,marks⟩⟩ := scan_marked within
  · have total := congrArg List.length (scan_payload headlen t)
    rw [List.length_append,full] at total
    refine .inl ⟨by omega,fun p less mark => absurd mark (inside p ?_)⟩
    omega
  · exact .inr ⟨(scan headlen t).1.length,enough,(marks 0).mpr (.inl rfl)⟩

theorem reads_later {t : Tape UInt8} (within : dry headlen t = false)
    (few : n + (scan headlen t).1.length < headlen) :
    Reads n t ↔ Reads (n + (scan headlen t).1.length) (scan headlen t).2 := by
  have total := congrArg List.length (scan_payload headlen t)
  rw [List.length_append] at total
  obtain ⟨inside,full | ⟨_,marks⟩⟩ := scan_marked within
  · omega
  · generalize (scan headlen t).1.length = k at *
    generalize (scan headlen t).2 = t' at *
    have here : Mark t k := (marks 0).mpr (.inl rfl)
    constructor
    · rintro (⟨enough,spaced⟩ | ⟨p,beyond,mark⟩)
      · have := spaced k few here
        refine .inl ⟨by omega,fun p less mark => ?_⟩
        have := spaced (k + p) (by omega) ((marks p).mpr (.inr mark))
        omega
      · obtain ⟨q,rfl⟩ := Nat.exists_eq_add_of_le (show k ≤ p by omega)
        rcases (marks q).mp mark with rfl | later
        · omega
        · exact .inr ⟨q,by omega,later⟩
    · rintro (⟨enough,spaced⟩ | ⟨p,beyond,mark⟩)
      · refine .inl ⟨by omega,fun p less mark => ?_⟩
        rcases Nat.lt_or_ge p k with early | late
        · exact absurd mark (inside p early)
        · obtain ⟨q,rfl⟩ := Nat.exists_eq_add_of_le late
          rcases (marks q).mp mark with rfl | later
          · omega
          · have := spaced q (by omega) later
            omega
      · exact .inr ⟨k + p,by omega,(marks p).mpr (.inr mark)⟩

/-- A turn of the header loop that does not meet the ending. -/
theorem headerLoop_turn (few : n < headlen) (within : dry headlen (tape arrivals) = false) (r : Ringbuffer) :
    ∃ r' later, tape later = (scan headlen (tape arrivals)).2 ∧ ∀ e fuel, headerLoop (fuel + 1) n r ⟨arrivals,e⟩ =
      if n + (scan headlen (tape arrivals)).1.length = 0 then .returned (none,⟨later,e⟩)
      else headerLoop fuel (n + (scan headlen (tape arrivals)).1.length) r' ⟨later,e⟩ := by
  obtain ⟨r',later,scanned,ended⟩ := recvbytes_ending arrivals r headlen
  have bound := scan_length_le headlen (tape arrivals)
  have total := sizeT_add (n := n) (k := (scan headlen (tape arrivals)).1.length) (by unfold headlen at *; omega)
  refine ⟨r',later,scanned.rest,fun e fuel => ?_⟩
  simp [headerLoop,few,ended,within,total]

/-- A header that is completed before the ending is read as on a quiet socket. -/
theorem headerLoop_relabel (e : Ending) (fuel : Nat) (few : n < headlen) (r : Ringbuffer)
    (reads : Reads n (tape arrivals)) :
    headerLoop fuel n r ⟨arrivals,e⟩ = relabel e (headerLoop fuel n r ⟨arrivals,.quiet⟩) := by
  induction fuel generalizing n r arrivals with
  | zero => rfl
  | succ fuel ih =>
    have within : dry headlen (tape arrivals) = false := by
      by_contra out
      exact dry_not_reads (by simpa using out) reads
    obtain ⟨r',later,rest,turn⟩ := headerLoop_turn few within r
    rw [turn,turn]
    split
    · rfl
    · by_cases short : n + (scan headlen (tape arrivals)).1.length < headlen
      · exact ih short r' (by rw [rest]; exact (reads_later within short).mp reads)
      · cases fuel with
        | zero => rfl
        | succ fuel => simp [headerLoop,short]

/-- A turn of the header loop that meets the ending. -/
theorem headerLoop_dry (few : n < headlen) (out : dry headlen (tape arrivals) = true) (r : Ringbuffer) :
    ∃ r' later, tape later = [] ∧ ∀ e fuel, headerLoop (fuel + 1) n r ⟨arrivals,e⟩ =
      let n := sizeT (n + report e (scan headlen (tape arrivals)).1.length)
      if n = 0 then .returned (none,⟨later,e⟩) else headerLoop fuel n r' ⟨later,e⟩ := by
  obtain ⟨r',later,scanned,ended⟩ := recvbytes_ending arrivals r headlen
  refine ⟨r',later,scanned.rest.trans (dry_scan out).2.1,fun e fuel => ?_⟩
  simp [headerLoop,few,ended,out]

theorem empty_not_reads : ¬Reads n [] := dry_not_reads rfl

/-- End of file after a part of the header that was counted is met again and again. -/
theorem headerLoop_closed (positive : 0 < n) (few : n < headlen) (unread : ¬Reads n (tape arrivals)) (r : Ringbuffer)
    (fuel : Nat) (result : Option Ringbuffer × Socket) : headerLoop fuel n r ⟨arrivals,.closed⟩ ≠ .returned result := by
  induction fuel generalizing n r arrivals with
  | zero => simp [headerLoop]
  | succ fuel ih =>
    cases out : dry headlen (tape arrivals) with
    | true =>
      obtain ⟨r',later,rest,turn⟩ := headerLoop_dry few out r
      have same : sizeT ((n : Int) + 0) = n := sizeT_add (n := n) (k := 0) (by unfold headlen at few; omega)
      have nonzero : n ≠ 0 := by omega
      simp only [turn,report,same,nonzero,if_false]
      exact ih positive few (by rw [rest]; exact empty_not_reads) r'
    | false =>
      obtain ⟨r',later,rest,turn⟩ := headerLoop_turn few out r
      have nonzero : n + (scan headlen (tape arrivals)).1.length ≠ 0 := by omega
      by_cases short : n + (scan headlen (tape arrivals)).1.length < headlen
      · simp only [turn,nonzero,if_false]
        exact ih (by omega) short (by rw [rest]; exact (reads_later out short).not.mp unread) r'
      · exact absurd (reads_now out (by omega)) unread

/-- An error after a part of the header counts that part down to nothing. -/
theorem headerLoop_failed (positive : 0 < n) (few : n < headlen) (unread : ¬Reads n (tape arrivals)) (r : Ringbuffer) :
    ∃ fuel s, headerLoop fuel n r ⟨arrivals,.failed⟩ = .returned (none,s) := by
  induction size : (tape arrivals).length + n using Nat.strong_induction_on generalizing n r arrivals with
  | _ measure ih =>
    cases out : dry headlen (tape arrivals) with
    | true =>
      obtain ⟨r',later,rest,turn⟩ := headerLoop_dry few out r
      have less : sizeT ((n : Int) + -1) = n - 1 := by
        unfold sizeT headlen at *
        omega
      by_cases last : n - 1 = 0
      · exact ⟨1,⟨later,.failed⟩,by simp [turn,report,less,last]⟩
      · have shorter : (tape later).length + (n - 1) < measure := by
          rw [rest,List.length_nil]
          omega
        obtain ⟨fuel,s,null⟩ := ih _ shorter (by omega) (by omega) (by rw [rest]; exact empty_not_reads) r' rfl
        exact ⟨fuel + 1,s,by simpa [turn,report,less,last] using null⟩
    | false =>
      obtain ⟨r',later,rest,turn⟩ := headerLoop_turn few out r
      have nonzero : n + (scan headlen (tape arrivals)).1.length ≠ 0 := by omega
      by_cases short : n + (scan headlen (tape arrivals)).1.length < headlen
      · have shorter : (tape later).length + (n + (scan headlen (tape arrivals)).1.length) < measure := by
          have := scan_consumes out (by omega)
          rw [rest]
          omega
        obtain ⟨fuel,s,null⟩ :=
          ih _ shorter (by omega) short (by rw [rest]; exact (reads_later out short).not.mp unread)
          r' rfl
        exact ⟨fuel + 1,s,by simp only [turn,nonzero,if_false,null]⟩
      · exact absurd (reads_now out (by omega)) unread

/-- What a call that returns has done. -/
theorem recvPacket_cases (done : recvPacket junk fuel rbuf s = .returned (packet,s')) :
    (packet = none ∧ headerLoop fuel 0 rbuf s = .returned (none,s')) ∨
    ∃ r s₁ opcode b, headerLoop fuel 0 rbuf s = .returned (some r,s₁) ∧ packet = some (opcode,b) := by
  obtain ⟨⟨header,s₁⟩,first,done⟩ := Outcome.bind_eq_returned.mp done
  cases header with
  | none =>
    obtain ⟨rfl,rfl⟩ := Prod.mk.inj (Outcome.returned.inj done)
    exact .inl ⟨rfl,first⟩
  | some r =>
    obtain ⟨_,_,done⟩ := Outcome.bind_eq_returned.mp done
    obtain ⟨rfl,_⟩ := Prod.mk.inj (Outcome.returned.inj done)
    exact .inr ⟨r,s₁,_,_,first,rfl⟩

theorem recvPacket_null (null : headerLoop fuel 0 rbuf s = .returned (none,s')) :
    recvPacket junk fuel rbuf s = .returned (none,s') := by
  simp [recvPacket,null]

theorem recvPacket_relabel (rbuf : Ringbuffer)
    (header : headerLoop fuel 0 rbuf ⟨arrivals,e⟩ = relabel e (headerLoop fuel 0 rbuf ⟨arrivals,.quiet⟩)) :
    recvPacket junk fuel rbuf ⟨arrivals,e⟩ = relabel e (recvPacket junk fuel rbuf ⟨arrivals,.quiet⟩) := by
  simp only [recvPacket,header]
  cases headerLoop fuel 0 rbuf ⟨arrivals,.quiet⟩ with
  | returned result =>
    obtain ⟨found,s⟩ := result
    cases found with
    | none => rfl
    | some r =>
      simp only [relabel_returned,Outcome.returned_bind]
      rw [bodyLoop_ending]
      cases bodyLoop _ fuel _ s <;> rfl
  | blocked => rfl
  | crashed => rfl
  | unfinished => rfl

/-- The length field of the header at the front of a stream. -/
def declared (t : Tape UInt8) : Nat := decode (((payload t).take headlen).drop 1)

/-- The buffer holds the declared number of bytes, as they were received. -/
structure Genuine (t : Tape UInt8) (b : Buffer) : Prop where
  header : headlen ≤ (payload t).length
  inside : declared t ≤ (payload t).length
  bytes : b.bytes = (payload t).take (declared t)

/-- The call ends, with nothing or with a buffer of the declared bytes that were received. -/
def Ends (stack junk : Memory) (s : Socket) : Prop :=
  ∃ fuel packet s', recvPacket junk fuel (requestRing stack) s = .returned (packet,s') ∧
    ∀ opcode b, packet = some (opcode,b) → Genuine (tape s.arrivals) b

/-- A declared length that holds the header and fits the ring, with all its bytes on the way. -/
structure Whole (t : Tape UInt8) : Prop where
  header : headlen ≤ declared t
  body : declared t ≤ onemb * 2 + headlen
  arrives : declared t ≤ (payload t).length

theorem Whole.framed {t : Tape UInt8} (whole : Whole t) : WellFramed ((payload t).take (declared t)) := by
  have length : ((payload t).take (declared t)).length = declared t := by
    simp [whole.arrives]
  refine ⟨by rw [length]; exact whole.header,by rw [length]; exact whole.body,?_⟩
  rw [length,List.take_take,Nat.min_eq_left whole.header]
  rfl

theorem whole_ends (stack junk : Memory) (whole : Whole (tape arrivals)) (front : ¬Pause (tape arrivals) 0) :
    Ends stack junk ⟨arrivals,.quiet⟩ := by
  have carried : payload (tape arrivals) = (payload (tape arrivals)).take (declared (tape arrivals)) ++
      (payload (tape arrivals)).drop (declared (tape arrivals)) := (List.take_append_drop _ _).symm
  obtain ⟨packet,s',done,_⟩ := recvPacket_returns stack junk (s := ⟨arrivals,.quiet⟩) rfl front whole.framed carried
    (Nat.lt_succ_self _)
  refine ⟨_,some packet,s',done,fun opcode b found => ?_⟩
  obtain rfl := Option.some.inj found
  obtain ⟨bytes,cut⟩ := recvPacket_cut rfl done
  exact ⟨whole.header.trans whole.arrives,whole.arrives,(cut_front cut whole.framed carried).2⟩

theorem paused_ends (stack junk : Memory) (pause : Pause (tape arrivals) 0) :
    Ends stack junk ⟨arrivals,.quiet⟩ := by
  have nothing : (scan headlen (tape arrivals)).1 = [] := by
    by_contra some
    exact scan_inside headlen (tape arrivals) 0 (List.length_pos_iff.mpr some) pause
  obtain ⟨s',done,_⟩ := recvPacket_pauses stack junk (s := ⟨arrivals,.quiet⟩) rfl nothing 0
  exact ⟨1,none,s',done,by simp⟩

theorem quiet_ends_iff (stack junk : Memory) (arrivals : List Arrival) :
    Ends stack junk ⟨arrivals,.quiet⟩ ↔ Pause (tape arrivals) 0 ∨ Whole (tape arrivals) := by
  constructor
  · rintro ⟨fuel,packet,s',done,genuine⟩
    cases packet with
    | none =>
      obtain ⟨empty,_⟩ := recvPacket_none rfl done
      have stops := scan_stops headlen (tape arrivals)
      rw [empty] at stops
      exact .inl (stops.resolve_right (by decide))
    | some packet =>
      obtain ⟨bytes,cut⟩ := recvPacket_cut rfl done
      have size : packet.2.size = declared (tape arrivals) := by
        rw [cut.declared,declared,cut.payload,List.take_append_of_le_length (cut.header.trans cut.inside)]
      exact .inr ⟨size ▸ cut.header,size ▸ (recvPacket_fits done).1,(genuine _ _ rfl).inside⟩
  · intro condition
    by_cases pause : Pause (tape arrivals) 0
    · exact paused_ends stack junk pause
    · exact whole_ends stack junk (condition.resolve_left pause) pause

/-- Where the ending is not met before the header is complete, or at once, it makes no
difference. -/
theorem ends_relabel (stack junk : Memory) (e : Ending)
    (read : Mark (tape arrivals) 0 ∨ Reads 0 (tape arrivals)) :
    Ends stack junk ⟨arrivals,e⟩ ↔ Ends stack junk ⟨arrivals,.quiet⟩ := by
  have header (fuel : Nat) : headerLoop fuel 0 (requestRing stack) ⟨arrivals,e⟩ =
      relabel e (headerLoop fuel 0 (requestRing stack) ⟨arrivals,.quiet⟩) := by
    rcases read with mark | reads
    · have within : dry headlen (tape arrivals) = false := by
        by_contra out
        exact (dry_scan (by simpa using out)).2.2.2 0 mark
      have nothing : (scan headlen (tape arrivals)).1.length = 0 := by
        by_contra some
        exact (scan_marked within).1 0 (by omega) mark
      obtain ⟨r',later,_,turn⟩ := headerLoop_turn (show 0 < headlen by decide) within (requestRing stack)
      cases fuel with
      | zero => rfl
      | succ fuel => simp [turn,nothing]
    · exact headerLoop_relabel e fuel (by decide) _ reads
  constructor
  · rintro ⟨fuel,packet,s',done,genuine⟩
    rw [recvPacket_relabel _ (header fuel)] at done
    obtain ⟨s,done⟩ := relabel_eq_returned done
    exact ⟨fuel,packet,s,done,genuine⟩
  · rintro ⟨fuel,packet,s',done,genuine⟩
    exact ⟨fuel,packet,_,by rw [recvPacket_relabel _ (header fuel),done]; rfl,genuine⟩

/-- The first turn on a stream that has begun but ends before its header is complete: it runs
into the ending, or stops at an `EAGAIN` with a part of the header. -/
theorem first_turn (begun : ¬Mark (tape arrivals) 0) (unread : ¬Reads 0 (tape arrivals)) (r : Ringbuffer) :
    dry headlen (tape arrivals) = true ∨
    ∃ n r' later, 0 < n ∧ n < headlen ∧ Mark (tape arrivals) n ∧ ¬Reads n (tape later) ∧
      ∀ e fuel, headerLoop (fuel + 1) 0 r ⟨arrivals,e⟩ = headerLoop fuel n r' ⟨later,e⟩ := by
  cases out : dry headlen (tape arrivals) with
  | true => exact .inl rfl
  | false =>
    obtain ⟨r',later,rest,turn⟩ := headerLoop_turn (show 0 < headlen by decide) out r
    have short : 0 + (scan headlen (tape arrivals)).1.length < headlen := by
      by_contra enough
      exact unread (reads_now out (Nat.le_of_not_lt enough))
    obtain ⟨_,full | ⟨_,marks⟩⟩ := scan_marked out
    · omega
    · have mark : Mark (tape arrivals) (scan headlen (tape arrivals)).1.length := (marks 0).mpr (.inl rfl)
      have positive : (scan headlen (tape arrivals)).1.length ≠ 0 := fun zero => begun (zero ▸ mark)
      have later_unread := (reads_later out short).not.mp unread
      simp only [Nat.zero_add,← rest] at turn short later_unread
      refine .inr ⟨_,r',later,Nat.pos_of_ne_zero positive,short,mark,later_unread,fun e fuel => ?_⟩
      rw [turn,if_neg positive]

/-- The condition under which a call ends as it should. A stream that never gets to the end of
its header is given up on end of file only if no `EAGAIN` split the header, and on an error
only if one did. -/
def Settles (s : Socket) : Prop :=
  Mark (tape s.arrivals) 0 ∨
  match s.ending with
  | .quiet => payload (tape s.arrivals) = [] ∨ Whole (tape s.arrivals)
  | .closed => (Reads 0 (tape s.arrivals) ∧ Whole (tape s.arrivals)) ∨
    (¬Reads 0 (tape s.arrivals) ∧ ∀ p, 0 < p → p < headlen → ¬Mark (tape s.arrivals) p)
  | .failed => (Reads 0 (tape s.arrivals) ∧ Whole (tape s.arrivals)) ∨
    (¬Reads 0 (tape s.arrivals) ∧ ∃ p, 0 < p ∧ p < headlen ∧ Mark (tape s.arrivals) p)

theorem reads_payload {t : Tape UInt8} (reads : Reads 0 t) : payload t ≠ [] := by
  intro empty
  rcases reads with ⟨enough,_⟩ | ⟨p,beyond,mark⟩
  · simp [empty,headlen] at enough
  · have inside := mark_le mark
    simp [empty] at inside
    simp [inside,headlen] at beyond

theorem closed_ends_iff (begun : ¬Mark (tape arrivals) 0) (unread : ¬Reads 0 (tape arrivals)) :
    Ends stack junk ⟨arrivals,.closed⟩ ↔ ∀ p, 0 < p → p < headlen → ¬Mark (tape arrivals) p := by
  rcases first_turn begun unread (requestRing stack) with out | ⟨n,r',later,positive,few,mark,left,turn⟩
  · obtain ⟨r',later,_,turn⟩ := headerLoop_dry (show 0 < headlen by decide) out (requestRing stack)
    refine iff_of_true ⟨1,none,⟨later,.closed⟩,recvPacket_null (by simp [turn,report,sizeT]),by simp⟩ ?_
    exact fun p _ _ => (dry_scan out).2.2.2 p
  · refine iff_of_false ?_ fun unsplit => unsplit n positive few mark
    rintro ⟨fuel,packet,s',done,_⟩
    have returned : ∃ result, headerLoop fuel 0 (requestRing stack) ⟨arrivals,.closed⟩ = .returned result := by
      rcases recvPacket_cases done with ⟨_,first⟩ | ⟨_,_,_,_,first,_⟩
      · exact ⟨_,first⟩
      · exact ⟨_,first⟩
    obtain ⟨result,first⟩ := returned
    cases fuel with
    | zero => contradiction
    | succ fuel => exact headerLoop_closed positive few left r' fuel result (turn .closed fuel ▸ first)

theorem failed_ends_iff (begun : ¬Mark (tape arrivals) 0) (unread : ¬Reads 0 (tape arrivals)) :
    Ends stack junk ⟨arrivals,.failed⟩ ↔ ∃ p, 0 < p ∧ p < headlen ∧ Mark (tape arrivals) p := by
  rcases first_turn begun unread (requestRing stack) with out | ⟨n,r',later,positive,few,mark,left,turn⟩
  · obtain ⟨_,_,short,unmarked⟩ := dry_scan out
    refine iff_of_false ?_ fun split => by
      obtain ⟨p,_,_,mark⟩ := split
      exact unmarked p mark
    rintro ⟨fuel,packet,s',done,genuine⟩
    rcases recvPacket_cases done with ⟨_,null⟩ | ⟨_,_,opcode,b,_,rfl⟩
    · obtain ⟨r',later,_,turn⟩ := headerLoop_dry (show 0 < headlen by decide) out (requestRing stack)
      have huge : sizeT ((0 : Nat) + -1) = 2 ^ 64 - 1 := by decide
      rcases fuel with _ | _ | fuel
      · contradiction
      · simp only [turn,report,huge] at null
        simp [headerLoop] at null
      · simp only [turn,report,huge] at null
        simp [headerLoop,headlen] at null
    · have long : headlen ≤ (payload (tape arrivals)).length := (genuine opcode b rfl).header
      omega
  · obtain ⟨fuel,s,null⟩ := headerLoop_failed positive few left r'
    exact iff_of_true ⟨fuel + 1,none,s,recvPacket_null (by rw [turn,null]),by simp⟩ ⟨n,positive,few,mark⟩

/-- On every stream, however it is cut and however it ends, `recv_packet` ends with nothing or
with the declared bytes exactly under that condition. -/
theorem ends_iff_settles (stack junk : Memory) (s : Socket) : Ends stack junk s ↔ Settles s := by
  obtain ⟨arrivals,ending⟩ := s
  have quiet := quiet_ends_iff stack junk arrivals
  rw [pause_zero_iff,or_assoc] at quiet
  by_cases begun : Mark (tape arrivals) 0
  · exact iff_of_true ((ends_relabel stack junk ending (.inl begun)).mpr (quiet.mpr (.inl begun))) (.inl begun)
  by_cases reads : Reads 0 (tape arrivals)
  · have whole := (ends_relabel stack junk ending (.inr reads)).trans quiet
    have some := reads_payload reads
    cases ending <;> simp [whole,Settles,begun,reads,some]
  · cases ending with
    | quiet => simpa [Settles,begun] using quiet
    | closed => simpa [Settles,begun,reads] using closed_ends_iff begun reads
    | failed => simpa [Settles,begun,reads] using failed_ends_iff begun reads

/-- A header that declares ten bytes, and then end of file. -/
def cutShort : Socket := ⟨[.bytes 49 [0,0,0,10]],.closed⟩

theorem cutShort_never_ends : ¬Ends (fun _ => 0) (fun _ => 0) cutShort := by
  have unmarked : ∀ p < headlen, ¬Mark (tape cutShort.arrivals) p := by decide
  have complete : Reads 0 (tape cutShort.arrivals) :=
    .inl ⟨by decide,fun p less mark => absurd mark (unmarked p (by omega))⟩
  intro ends
  have quiet := (quiet_ends_iff _ _ _).mp ((ends_relabel _ _ .closed (.inr complete)).mp ends)
  rcases quiet with pause | whole
  · exact absurd pause (by decide)
  · exact absurd whole.arrives (by decide)

end Sizigy.RecvEnding
