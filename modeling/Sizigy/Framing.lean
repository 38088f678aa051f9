import Sizigy.RecvPacket

/-! Framing of a byte stream by successive calls of `recv_packet`. A call returns the packet
at the front of the stream, but what it takes from the socket beyond that packet is lost
with its ring buffer. Where `EAGAIN` answers fall decides how much it takes. -/
namespace Sizigy.Framing

open Bytes Tape

/-- No pause strictly between two positions. -/
def Smooth (pause : Nat → Prop) (a e : Nat) : Prop := ∀ p, a < p → p < e → ¬pause p

/-- A packet from `a` to `e` is read without a byte of the next one: there is a pause at its
end; or the header was read exactly and no pause splits the body; or the last read of a
split header happens to end where the packet does. -/
def Seamless (pause : Nat → Prop) (a e : Nat) : Prop :=
  pause e ∨
  ((Smooth pause a (a + headlen) ∨ pause (a + headlen)) ∧ Smooth pause (a + headlen) e) ∨
  ∃ q, 0 < q ∧ q < headlen ∧ pause (a + q) ∧ e = a + q + headlen ∧ Smooth pause (a + q) e

theorem header_exact (gathered : Gathered headlen headlen t n) :
    n = headlen ↔ Smooth (Pause t) 0 headlen ∨ Pause t headlen := by
  rw [gathered_exact gathered (Nat.le_refl _),or_comm]
  exact or_congr_left (and_iff_right rfl)

/-- A split header that the third alternative describes is read up to the packet's end. -/
theorem split_header_le (gathered : Gathered headlen headlen t n) (less : q < headlen)
    (pause : Pause t q) (positive : 0 < q) (smooth : Smooth (Pause t) q (q + headlen)) :
    n ≤ q + headlen ∧ (n < q + headlen → Pause t n) := by
  obtain ⟨q',less',start,quiet,enough,inside,stop⟩ := gathered
  have same : q' = q := by
    rcases Nat.lt_trichotomy q' q with below | equal | above
    · exact absurd pause (quiet q below (by omega))
    · exact equal
    · rcases start with zero | pause'
      · omega
      · exact absurd pause' (smooth q' above (by omega))
  subst same
  exact ⟨inside,fun short => stop.resolve_right (by omega)⟩

/-- Header loop and body loop together stop at the end of the packet exactly in the three
cases above. -/
theorem seamless_iff (header : Gathered headlen headlen t n) (rest : Rest t t' n)
    (body : Completes need (need - (n - headlen)) t' bytes) :
    n + bytes.length = headlen + need ↔ Seamless (Pause t) 0 (headlen + need) := by
  have exactHeader := header_exact header
  have splitHeader := fun q => split_header_le (q := q) header
  obtain ⟨q,less,start,quiet,enough,inside,stop⟩ := header
  unfold Seamless
  simp only [Nat.zero_add]
  rcases Nat.lt_or_ge (n - headlen) need with short | covered
  · have gathered := body.2 (by omega)
    have arithmetic : n + bytes.length = headlen + need ↔ bytes.length = need - (n - headlen) := by omega
    rw [arithmetic,gathered_exact gathered (by omega)]
    have last : Pause t' (need - (n - headlen)) ↔ Pause t (headlen + need) := by
      rw [rest.1 _ (by omega),show n + (need - (n - headlen)) = headlen + need by omega]
    rw [last]
    apply or_congr_right
    constructor
    · rintro ⟨same,inner⟩
      obtain rfl : n = headlen := by omega
      refine .inl ⟨exactHeader.mp rfl,fun p above below pause => ?_⟩
      obtain ⟨d,rfl⟩ := Nat.exists_eq_add_of_lt above
      rw [Nat.add_assoc] at pause
      exact inner (d + 1) (by omega) (by omega) ((rest.1 _ (by omega)).mpr pause)
    · rintro (⟨first,smooth⟩ | ⟨q',positive,less',pause,ends,smooth⟩)
      · obtain rfl := exactHeader.mpr first
        refine ⟨by omega,fun p above below pause => ?_⟩
        exact smooth _ (by omega) (by omega) ((rest.1 p above).mp pause)
      · rw [ends] at smooth
        obtain ⟨_,early⟩ := splitHeader q' less' pause positive smooth
        exact absurd (early (by omega)) (smooth n (by omega) (by omega))
  · obtain rfl := body.1 (by omega)
    rw [List.length_nil,Nat.add_zero]
    constructor
    · rintro rfl
      rcases stop with pause | full
      · exact .inl pause
      · rcases Nat.eq_zero_or_pos q with rfl | positive
        · have all : headlen + need = headlen := by omega
          refine .inr (.inl ⟨exactHeader.mp all,fun p above below => by omega⟩)
        · have pause := start.resolve_left (by omega)
          exact .inr (.inr ⟨q,positive,less,pause,full,fun p above below => quiet p above below⟩)
    · rintro (pause | ⟨first,_⟩ | ⟨q',positive,less',pause,ends,smooth⟩)
      · by_contra apart
        exact quiet _ (by omega) (by omega) pause
      · have := exactHeader.mpr first
        omega
      · rw [ends] at smooth
        have := (splitHeader q' less' pause positive smooth).1
        omega

/-- What a call that returns a buffer did: it took some bytes, at least the buffer's, and
the buffer holds the first of them. -/
structure Cut (s : Socket) (b : Buffer) (s' : Socket) (bytes : List UInt8) : Prop where
  quiet : s'.ending = .quiet
  payload : payload (tape s.arrivals) = bytes ++ payload (tape s'.arrivals)
  rest : Rest (tape s.arrivals) (tape s'.arrivals) bytes.length
  header : headlen ≤ b.size
  inside : b.size ≤ bytes.length
  declared : b.size = decode ((bytes.take headlen).drop 1)
  data : b.bytes = bytes.take b.size
  seamless : bytes.length = b.size ↔ Seamless (Pause (tape s.arrivals)) 0 b.size

variable {stack junk : Memory}

theorem request_counted (stack : Memory) : Counted 0 (requestRing stack) :=
  ⟨rfl,show 2 * headlen ≤ onemb * 2 by decide⟩

/-- After the first loop the header is popped and the rest of what came is still queued. -/
theorem header_popped (quiet : s.ending = .quiet)
    (done : headerLoop fuel 0 (requestRing stack) s = .returned (some r,s')) (junk : Memory) :
    ∃ bytes, Drawn s (requestRing stack) bytes r s' ∧
      Gathered headlen headlen (tape s.arrivals) bytes.length ∧
      (popBytes junk 0 headlen r).1 = bytes.take headlen ∧
      (popBytes junk 0 headlen r).2.contents = bytes.drop headlen ∧
      (popBytes junk 0 headlen r).2.max = onemb * 2 := by
  obtain ⟨bytes,drawn,counted,completes⟩ := headerLoop_some (request_counted stack) quiet done
  have gathered := completes.2 (by decide)
  have enough : headlen ≤ bytes.length := gathered.enough
  have max : r.max = onemb * 2 := drawn.max
  have queued : r.contents = bytes.take headlen ++ bytes.drop headlen := by
    have fits := size_le_max r
    rw [counted.size,Nat.zero_add,drawn.max] at fits
    rw [List.take_append_drop,drawn.contents]
    exact List.take_of_length_le fits
  have popped := popBytes_contents junk 0 (bytes.take headlen) queued
  rw [List.length_take,Nat.min_eq_left enough] at popped
  exact ⟨bytes,drawn,gathered,popped.1,popped.2.1,popped.2.2.trans max⟩

theorem header_decode_lt (bytes : List UInt8) (enough : headlen ≤ bytes.length) :
    decode ((bytes.take headlen).drop 1) < 2 ^ 32 := by
  have bound := decode_lt ((bytes.take headlen).drop 1)
  rw [List.length_drop,List.length_take,Nat.min_eq_left enough] at bound
  exact bound

theorem recvPacket_none (quiet : s.ending = .quiet)
    (done : recvPacket junk fuel (requestRing stack) s = .returned (none,s')) :
    (scan headlen (tape s.arrivals)).1 = [] ∧ s'.ending = .quiet ∧
      tape s'.arrivals = (scan headlen (tape s.arrivals)).2 := by
  unfold recvPacket at done
  obtain ⟨⟨header,s₁⟩,first,done⟩ := Outcome.bind_eq_returned.mp done
  cases header with
  | none =>
    obtain rfl := (Prod.mk.inj (Outcome.returned.inj done)).2
    exact (headerLoop_none (request_counted stack) quiet first).2
  | some r =>
    obtain ⟨_,_,done⟩ := Outcome.bind_eq_returned.mp done
    exact absurd (Prod.mk.inj (Outcome.returned.inj done)).1 (Option.some_ne_none _)

theorem queued_size {r : Ringbuffer} {bytes : List UInt8} (queued : r.contents = bytes.drop headlen) :
    ringbufSize r = bytes.length - headlen := by
  rw [← contents_length,queued,List.length_drop]

/-- Header and body, written one behind the other, are the front of the bytes that were taken. -/
theorem packet_data (junk : Memory) {bytes more queue : List UInt8} (enough : headlen ≤ bytes.length)
    (queued : queue = (bytes.drop headlen ++ more).take limit) (possible : need ≤ limit)
    (filled : need ≤ queue.length) :
    load (store (store junk 0 (bytes.take headlen)) headlen (queue.take need)) 0 (headlen + need) =
      (bytes ++ more).take (headlen + need) := by
  have headerSize : (bytes.take headlen).length = headlen := by
    rw [List.length_take,Nat.min_eq_left enough]
  have bodySize : (queue.take need).length = need := by
    rw [List.length_take,Nat.min_eq_left filled]
  have written := load_store_store junk (bytes.take headlen) (queue.take need)
  rw [headerSize,bodySize] at written
  rw [written,queued,List.take_take,Nat.min_eq_left possible,List.take_add,
    List.take_append_of_le_length enough,List.drop_append_of_le_length enough]

theorem recvPacket_cut (quiet : s.ending = .quiet)
    (done : recvPacket junk fuel (requestRing stack) s = .returned (some (opcode,b),s')) :
    ∃ bytes, Cut s b s' bytes := by
  unfold recvPacket at done
  obtain ⟨⟨header,s₁⟩,first,done⟩ := Outcome.bind_eq_returned.mp done
  cases header with
  | none => exact absurd (Prod.mk.inj (Outcome.returned.inj done)).1.symm (Option.some_ne_none _)
  | some r =>
    obtain ⟨bytes,drawn,gathered,popped,queued,max⟩ := header_popped quiet first junk
    have enough := gathered.enough
    simp only [popped] at done
    generalize (popBytes junk 0 headlen r).2 = r₂ at *
    obtain ⟨⟨r₃,s₃⟩,second,done⟩ := Outcome.bind_eq_returned.mp done
    have possible := bodyLoop_fits second
    have length := remaining_possible (header_decode_lt bytes enough) (max ▸ possible)
    generalize remaining (decode ((bytes.take headlen).drop 1)) = need at *
    obtain ⟨more,drawn₂,filled,completes⟩ := bodyLoop_drawn possible drawn.quiet second
    have size := queued_size queued
    have bodySize : (r₃.contents.take need).length = need := by
      rw [List.length_take,contents_length,Nat.min_eq_left filled]
    have body := (popBytes_contents junk headlen (r₃.contents.take need)
      (List.take_append_drop need r₃.contents).symm).1
    rw [bodySize] at body
    have written := packet_data junk enough (queued ▸ drawn₂.contents) possible (contents_length r₃ ▸ filled)
    obtain ⟨packet,rfl⟩ := Prod.mk.inj (Outcome.returned.inj done)
    obtain ⟨rfl,rfl⟩ := Prod.mk.inj (Option.some.inj packet)
    simp only [body,length]
    exact ⟨bytes ++ more,{
      quiet := drawn₂.quiet
      payload := by rw [drawn.payload,drawn₂.payload,List.append_assoc]
      rest := by
        rw [List.length_append]
        exact drawn.rest.trans drawn₂.rest
      header := Nat.le_add_right _ _
      inside := by
        have := drawn₂.size
        rw [List.length_append]
        change headlen + need ≤ _
        omega
      declared := by
        rw [List.take_append_of_le_length enough]
        exact length.symm
      data := written
      seamless := by
        rw [List.length_append]
        exact seamless_iff gathered drawn.rest (size ▸ completes) }⟩

/-- A packet whose length field is its own length, and whose body fits into the ring. -/
structure WellFramed (p : List UInt8) : Prop where
  header : headlen ≤ p.length
  body : p.length ≤ onemb * 2 + headlen
  declared : decode ((p.take headlen).drop 1) = p.length

theorem take_front {bytes p : List UInt8} (joined : bytes ++ rest = p ++ later) (left : n ≤ bytes.length)
    (right : n ≤ p.length) : bytes.take n = p.take n := by
  calc bytes.take n
    _ = (bytes ++ rest).take n := (List.take_append_of_le_length left).symm
    _ = (p ++ later).take n := by rw [joined]
    _ = p.take n := List.take_append_of_le_length right

theorem cut_front (cut : Cut s b s' bytes) (framed : WellFramed p)
    (carried : payload (tape s.arrivals) = p ++ later) : b.size = p.length ∧ b.bytes = p := by
  have joined := cut.payload.symm.trans carried
  have long := cut.header.trans cut.inside
  have size : b.size = p.length := by
    rw [cut.declared,take_front joined long framed.header,framed.declared]
  refine ⟨size,?_⟩
  rw [cut.data,size,take_front joined (size ▸ cut.inside) (Nat.le_refl _),List.take_length]

theorem recvPacket_returns (stack junk : Memory) (quiet : s.ending = .quiet) (front : ¬Pause (tape s.arrivals) 0)
    (framed : WellFramed p) (carried : payload (tape s.arrivals) = p ++ later)
    (enough : (tape s.arrivals).length < fuel) :
    ∃ packet s', recvPacket junk fuel (requestRing stack) s = .returned (some packet,s') ∧
      (tape s'.arrivals).length ≤ (tape s.arrivals).length := by
  have total := congrArg List.length carried
  rw [List.length_append] at total
  have header := framed.header
  obtain ⟨r,s₁,first,shorter⟩ :=
    headerLoop_returns (request_counted stack) quiet (.inr front) (by omega) enough
  obtain ⟨bytes,drawn,gathered,popped,queued,max⟩ := header_popped quiet first junk
  have long := gathered.enough
  have length : decode ((popBytes junk 0 headlen r).1.drop 1) = headlen + (p.length - headlen) := by
    rw [popped,take_front (drawn.payload.symm.trans carried) long header,framed.declared]
    omega
  have small : headlen + (p.length - headlen) < 2 ^ 32 := by
    have := framed.body
    unfold headlen onemb at *
    omega
  have moved := congrArg List.length drawn.payload
  have size := queued_size queued
  rw [List.length_append] at moved
  have possible : p.length - headlen ≤ (popBytes junk 0 headlen r).2.max := by
    have := framed.body
    rw [max]
    omega
  have enough₁ : (tape s₁.arrivals).length < fuel := by omega
  obtain ⟨r₃,s₃,second,shorter₃⟩ := bodyLoop_returns possible drawn.quiet (by omega) enough₁
  simp only [recvPacket,first,Outcome.returned_bind,length,remaining_add small,second]
  exact ⟨_,s₃,rfl,by omega⟩

theorem recvPacket_pauses (stack junk : Memory) (quiet : s.ending = .quiet)
    (front : (scan headlen (tape s.arrivals)).1 = []) (fuel : Nat) :
    ∃ s', recvPacket junk (fuel + 1) (requestRing stack) s = .returned (none,s') ∧
      s'.ending = .quiet ∧ tape s'.arrivals = (scan headlen (tape s.arrivals)).2 := by
  obtain ⟨r,s',received,scanned⟩ := recvbytes_scanned s (requestRing stack) headlen quiet
  have nothing : headerLoop (fuel + 1) 0 (requestRing stack) s = .returned (none,s') := by
    rw [headerLoop,if_pos (by decide),received,front]
    rfl
  refine ⟨s',?_,scanned.quiet,scanned.rest⟩
  rw [recvPacket,nothing]
  rfl

/-- Successive calls, each with a fresh ring as `request_handler` makes it, and the contents
of the buffers they return. -/
def receive (stack junk : Memory) (fuel : Nat) : Nat → Socket → Outcome (List (List UInt8))
  | 0, _ => .returned []
  | calls + 1, s => do
    let (packet,s) ← recvPacket junk fuel (requestRing stack) s
    let later ← receive stack junk fuel calls s
    return packet.toList.map (·.2.bytes) ++ later

theorem receive_succ (first : recvPacket junk fuel (requestRing stack) s = .returned (packet,s'))
    (second : receive stack junk fuel calls s' = .returned later) :
    receive stack junk fuel (calls + 1) s = .returned (packet.toList.map (·.2.bytes) ++ later) := by
  simp only [receive,first,second,Outcome.returned_bind]
  rfl

/-- However the bytes are framed, no more of them come back than were sent. -/
theorem receive_bounded (quiet : s.ending = .quiet)
    (done : receive stack junk fuel calls s = .returned packets) :
    packets.flatten.length ≤ (payload (tape s.arrivals)).length := by
  induction calls generalizing s packets with
  | zero =>
    obtain rfl := Outcome.returned.inj done
    exact Nat.zero_le _
  | succ calls ih =>
    obtain ⟨⟨packet,s₁⟩,first,done⟩ := Outcome.bind_eq_returned.mp done
    obtain ⟨later,second,done⟩ := Outcome.bind_eq_returned.mp done
    obtain rfl := Outcome.returned.inj done
    cases packet with
    | none =>
      obtain ⟨empty,quiet',rest⟩ := recvPacket_none quiet first
      have same := scan_payload headlen (tape s.arrivals)
      rw [empty,← rest] at same
      rw [same]
      exact ih quiet' second
    | some packet =>
      obtain ⟨opcode,b⟩ := packet
      obtain ⟨bytes,cut⟩ := recvPacket_cut quiet first
      have inside := cut.inside
      have bound := ih cut.quiet second
      have taken := congrArg List.length cut.data
      rw [List.length_take] at taken
      rw [cut.payload,List.length_append]
      change (b.bytes ++ later.flatten).length ≤ _
      rw [List.length_append]
      omega

/-- All packets of a stream, one after the other from a position on, are read seamlessly. -/
def AllSeamless (pause : Nat → Prop) : Nat → List (List UInt8) → Prop
  | _, [] => True
  | a, p :: packets => Seamless pause a (a + p.length) ∧ AllSeamless pause (a + p.length) packets

theorem smooth_shift {pause pause' : Nat → Prop} (same : ∀ q, 0 < q → (pause' q ↔ pause (k + q))) :
    Smooth pause' a e ↔ Smooth pause (k + a) (k + e) := by
  constructor
  · intro smooth p above below pause
    obtain ⟨d,rfl⟩ : ∃ d, p = k + d := ⟨p - k,by omega⟩
    exact smooth d (by omega) (by omega) ((same d (by omega)).mpr pause)
  · intro smooth p above below pause
    exact smooth (k + p) (by omega) (by omega) ((same p (by omega)).mp pause)

theorem seamless_shift {pause pause' : Nat → Prop} (same : ∀ q, 0 < q → (pause' q ↔ pause (k + q)))
    (positive : 0 < e) : Seamless pause' a e ↔ Seamless pause (k + a) (k + e) := by
  have step : 0 < a + headlen := by unfold headlen; omega
  unfold Seamless
  rw [same e positive,smooth_shift same,smooth_shift same,same (a + headlen) step]
  apply or_congr_right
  apply or_congr (by rw [Nat.add_assoc])
  apply exists_congr
  intro q
  constructor
  · rintro ⟨inside,less,pause,ends,smooth⟩
    rw [same _ (by omega)] at pause
    rw [smooth_shift same] at smooth
    exact ⟨inside,less,by rwa [Nat.add_assoc],by omega,by rwa [Nat.add_assoc]⟩
  · rintro ⟨inside,less,pause,ends,smooth⟩
    rw [Nat.add_assoc] at pause smooth
    exact ⟨inside,less,(same _ (by omega)).mpr pause,by omega,(smooth_shift same).mpr smooth⟩

theorem allSeamless_shift {pause pause' : Nat → Prop}
    (same : ∀ q, 0 < q → (pause' q ↔ pause (k + q))) (framed : ∀ p ∈ packets, WellFramed p) :
    AllSeamless pause' a packets ↔ AllSeamless pause (k + a) packets := by
  induction packets generalizing a with
  | nil => exact Iff.rfl
  | cons p packets ih =>
    have header := (framed p (List.mem_cons_self ..)).header
    unfold AllSeamless
    rw [seamless_shift same (by unfold headlen at header; omega),
      ih fun q member => framed q (List.mem_cons_of_mem _ member),Nat.add_assoc]

theorem seamless_of_receive (quiet : s.ending = .quiet)
    (carried : payload (tape s.arrivals) = packets.flatten) (framed : ∀ p ∈ packets, WellFramed p)
    (done : receive stack junk fuel calls s = .returned packets) :
    AllSeamless (Pause (tape s.arrivals)) 0 packets := by
  induction calls generalizing s packets with
  | zero =>
    obtain rfl := Outcome.returned.inj done
    trivial
  | succ calls ih =>
    obtain ⟨⟨packet,s₁⟩,first,done⟩ := Outcome.bind_eq_returned.mp done
    obtain ⟨later,second,done⟩ := Outcome.bind_eq_returned.mp done
    obtain rfl := Outcome.returned.inj done
    cases packet with
    | none =>
      obtain ⟨empty,quiet',rest⟩ := recvPacket_none quiet first
      have same := scan_payload headlen (tape s.arrivals)
      have moved := scan_rest headlen (tape s.arrivals)
      rw [empty,← rest] at same moved
      exact (allSeamless_shift moved.1 framed).mp (ih quiet' (same.symm.trans carried) framed second)
    | some packet =>
      obtain ⟨opcode,b⟩ := packet
      obtain ⟨bytes,cut⟩ := recvPacket_cut quiet first
      have bound := receive_bounded cut.quiet second
      have taken := congrArg List.length cut.data
      have joined : bytes ++ payload (tape s₁.arrivals) = b.bytes ++ later.flatten :=
        cut.payload.symm.trans carried
      have lengths := congrArg List.length joined
      have inside := cut.inside
      rw [List.length_append,List.length_append] at lengths
      rw [List.length_take] at taken
      have exact : bytes.length = b.size := by omega
      obtain ⟨rfl,rest⟩ := List.append_inj joined (by omega)
      have framed' : ∀ p ∈ later, WellFramed p := fun p member =>
        framed p (List.mem_cons_of_mem _ member)
      have front := cut.seamless.mp exact
      have back := (allSeamless_shift cut.rest.1 framed').mp (ih cut.quiet rest framed' second)
      change Seamless _ 0 (0 + b.bytes.length) ∧ AllSeamless _ (0 + b.bytes.length) later
      rw [Nat.zero_add,exact]
      rw [exact] at back
      exact ⟨front,back⟩

theorem receive_ended (quiet : s.ending = .quiet) (ended : tape s.arrivals = []) (calls fuel : Nat) :
    receive stack junk (fuel + 1) calls s = .returned [] := by
  induction calls generalizing s with
  | zero => rfl
  | succ calls ih =>
    obtain ⟨s',done,quiet',rest⟩ :=
      recvPacket_pauses stack junk quiet (by rw [ended]; rfl) fuel
    rw [ended] at rest
    exact receive_succ done (ih quiet' rest)

theorem receive_of_seamless (size : Nat) (quiet : s.ending = .quiet)
    (measured : (tape s.arrivals).length + packets.length ≤ size)
    (carried : payload (tape s.arrivals) = packets.flatten) (framed : ∀ p ∈ packets, WellFramed p)
    (seamless : AllSeamless (Pause (tape s.arrivals)) 0 packets)
    (enough : (tape s.arrivals).length < fuel) :
    ∀ calls ≥ size, receive stack junk fuel calls s = .returned packets := by
  induction size generalizing s packets with
  | zero =>
    intro calls _
    obtain ⟨fuel,rfl⟩ : ∃ more, fuel = more + 1 := ⟨fuel - 1,by omega⟩
    obtain rfl := List.eq_nil_of_length_eq_zero (l := packets) (by omega)
    exact receive_ended quiet (List.eq_nil_of_length_eq_zero (by omega)) calls fuel
  | succ size ih =>
    intro calls many
    obtain ⟨calls,rfl⟩ : ∃ fewer, calls = fewer + 1 := ⟨calls - 1,by omega⟩
    obtain ⟨fuel,rfl⟩ : ∃ more, fuel = more + 1 := ⟨fuel - 1,by omega⟩
    rcases marks : tape s.arrivals with _ | ⟨_ | byte,rest⟩
    · rw [marks,payload_nil] at carried
      rcases packets with _ | ⟨p,packets⟩
      · exact receive_ended quiet marks _ fuel
      · have header := (framed p (List.mem_cons_self ..)).header
        obtain ⟨rfl,_⟩ := List.append_eq_nil_iff.mp carried.symm
        exact absurd header (by decide)
    · obtain ⟨s',done,quiet',left⟩ :=
        recvPacket_pauses stack junk quiet (by rw [marks]; rfl) fuel
      have moved := scan_rest headlen (tape s.arrivals)
      rw [← left] at moved
      have shorter : tape s'.arrivals = rest := by rw [left,marks]; rfl
      have seamless' := (allSeamless_shift (a := 0) moved.1 framed).mpr
        (by rw [marks] at seamless ⊢; exact seamless)
      rw [marks,List.length_cons] at measured enough
      rw [marks,payload_none] at carried
      exact receive_succ done (ih quiet' (by rw [shorter]; omega) (by rw [shorter,carried]) framed
        seamless' (by rw [shorter]; omega) calls (by omega))
    · rcases packets with _ | ⟨p,packets⟩
      · rw [marks] at carried
        contradiction
      have framedFront := framed p (List.mem_cons_self ..)
      have framedBack : ∀ q ∈ packets, WellFramed q := fun q member =>
        framed q (List.mem_cons_of_mem _ member)
      obtain ⟨⟨opcode,b⟩,s',done,shorter⟩ := recvPacket_returns stack junk quiet
        (by rw [marks]; exact id) framedFront carried enough
      obtain ⟨bytes,cut⟩ := recvPacket_cut quiet done
      obtain ⟨bufferSize,bufferBytes⟩ := cut_front cut framedFront carried
      obtain ⟨front,back⟩ := seamless
      rw [Nat.zero_add] at front back
      have exact : bytes.length = p.length := by
        rw [← bufferSize] at front ⊢
        exact cut.seamless.mpr front
      obtain ⟨_,carried'⟩ := List.append_inj (cut.payload.symm.trans carried) exact
      have seamless' := (allSeamless_shift (a := 0) cut.rest.1 framedBack).mpr (by rwa [exact])
      rw [List.length_cons] at measured
      have later := ih cut.quiet (by omega) carried' framedBack seamless' (by omega) calls (by omega)
      rw [← bufferBytes]
      exact receive_succ done later

/-- A stream of packets and the way in which the kernel hands it out. -/
structure Traffic where
  packets : List (List UInt8)
  arrivals : List Arrival
  framed : ∀ p ∈ packets, WellFramed p
  carried : payload (tape arrivals) = packets.flatten

/-- Enough calls return exactly the packets, in order, and further calls nothing. -/
def Traffic.Delivered (t : Traffic) (stack junk : Memory) : Prop :=
  ∃ enough, ∀ calls ≥ enough, ∃ fuel,
    receive stack junk fuel calls ⟨t.arrivals,.quiet⟩ = .returned t.packets

/-- The packets come back exactly when each of them is read seamlessly. -/
theorem delivered_iff_seamless (t : Traffic) (stack junk : Memory) :
    t.Delivered stack junk ↔ AllSeamless (Pause (tape t.arrivals)) 0 t.packets := by
  constructor
  · rintro ⟨enough,delivered⟩
    obtain ⟨fuel,done⟩ := delivered enough (Nat.le_refl _)
    exact seamless_of_receive rfl t.carried t.framed done
  · intro seamless
    refine ⟨(tape t.arrivals).length + t.packets.length,fun calls many => ?_⟩
    exact ⟨(tape t.arrivals).length + 1,receive_of_seamless (s := ⟨t.arrivals,.quiet⟩) _ rfl
      (Nat.le_refl _) t.carried t.framed seamless (Nat.lt_succ_self _) calls many⟩

/-- Two PINGREQ packets; the first two bytes arrive before the rest. -/
def splitPings : Traffic where
  packets := [[0xC0,0,0,0,8,0,0,0],[0xC0,0,0,0,8,0,0,0]]
  arrivals := [.bytes 0xC0 [0],.again,.bytes 0 [0,8,0,0,0,0xC0,0,0,0,8,0,0,0]]
  framed := by
    intro p member
    obtain rfl : p = [0xC0,0,0,0,8,0,0,0] := by simpa using member
    exact ⟨by decide,by decide,by decide⟩
  carried := by decide

/-- The call for the first packet also takes the first two bytes of the second. -/
theorem splitPings_lost : ¬splitPings.Delivered (fun _ => 0) fun _ => 0 := by
  rintro ⟨enough,delivered⟩
  obtain ⟨fuel,done⟩ := delivered enough (Nat.le_refl _)
  obtain ⟨first,_⟩ := seamless_of_receive rfl splitPings.carried splitPings.framed done
  rcases first with atEnd | ⟨smooth | atHeader,_⟩ | ⟨q,_,_,atSplit,ends,_⟩
  · exact absurd atEnd (by decide)
  · exact absurd (show Pause (tape splitPings.arrivals) 2 by decide) (smooth 2 (by decide) (by decide))
  · exact absurd atHeader (by decide)
  · obtain rfl : q = 3 := by
      change 8 = 0 + q + 5 at ends
      omega
    exact absurd atSplit (by decide)

end Sizigy.Framing
