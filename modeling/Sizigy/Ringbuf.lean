import Sizigy.Library.Bytes
import Sizigy.Library.Cyclic

/-! `ringbuf.c`. The positions of a ring buffer carry their bounds, and a full buffer its
meeting positions; the bytes it holds are the window from its tail. -/
namespace Sizigy

open Bytes Cyclic

structure Ringbuffer where
  buffer : Memory
  head : Nat
  tail : Nat
  max : Nat
  full : Bool
  headInside : head < max
  tailInside : tail < max
  fullMeets : full = true → head = tail

/-- The assertion on the size is the last argument. -/
def ringbufInit (buffer : Memory) (size : Nat) (nonempty : 0 < size) : Ringbuffer :=
  ⟨buffer,0,0,size,false,nonempty,nonempty,fun _ => rfl⟩

def ringbufReset (r : Ringbuffer) : Ringbuffer :=
  ⟨r.buffer,0,0,r.max,false,Nat.zero_lt_of_lt r.headInside,Nat.zero_lt_of_lt r.headInside,fun _ => rfl⟩

def ringbufFull (r : Ringbuffer) : Bool := r.full

def ringbufEmpty (r : Ringbuffer) : Bool := !r.full && decide (r.head = r.tail)

def ringbufSize (r : Ringbuffer) : Nat :=
  if r.full then r.max
  else if r.head ≥ r.tail then r.head - r.tail
  else r.max + r.head - r.tail

theorem mod_inside (r : Ringbuffer) (i : Nat) : i % r.max < r.max :=
  Nat.mod_lt i (Nat.zero_lt_of_lt r.headInside)

def advancePointer (r : Ringbuffer) : Ringbuffer :=
  let tail := if r.full then (r.tail + 1) % r.max else r.tail
  let head := (r.head + 1) % r.max
  { r with
    head := head
    tail := tail
    full := decide (head = tail)
    headInside := mod_inside r _
    tailInside := by
      change (if r.full then (r.tail + 1) % r.max else r.tail) < r.max
      split
      · exact mod_inside r _
      · exact r.tailInside
    fullMeets := of_decide_eq_true }

def retreatPointer (r : Ringbuffer) : Ringbuffer :=
  { r with
    full := false
    tail := (r.tail + 1) % r.max
    tailInside := mod_inside r _
    fullMeets := fun impossible => nomatch impossible }

/-- Results are the codes of the source: 0, or -1 for a full buffer. -/
def ringbufPush (r : Ringbuffer) (data : UInt8) : Int × Ringbuffer :=
  if !ringbufFull r then (0,advancePointer { r with buffer := Function.update r.buffer r.head data })
  else (-1,r)

def ringbufBulkPush (r : Ringbuffer) : List UInt8 → Int × Ringbuffer
  | [] => (0,r)
  | byte :: data =>
    let (code,r) := ringbufPush r byte
    if code = -1 then (code,r) else ringbufBulkPush r data

/-- `none` is the code -1, which leaves the destination as it was. -/
def ringbufPop (r : Ringbuffer) : Option UInt8 × Ringbuffer :=
  if !ringbufEmpty r then (some (r.buffer r.tail),retreatPointer r) else (none,r)

variable {r : Ringbuffer}

/-- The queued bytes, oldest first. -/
def Ringbuffer.contents (r : Ringbuffer) : List UInt8 := window r.buffer r.max r.tail (ringbufSize r)

@[simp] theorem contents_length (r : Ringbuffer) : r.contents.length = ringbufSize r := by
  simp [Ringbuffer.contents]

theorem size_le_max (r : Ringbuffer) : ringbufSize r ≤ r.max := by
  have := r.headInside
  have := r.tailInside
  unfold ringbufSize
  split
  · exact Nat.le_refl _
  · split <;> omega

theorem full_iff (r : Ringbuffer) : ringbufFull r = true ↔ ringbufSize r = r.max := by
  have := r.headInside
  have := r.tailInside
  unfold ringbufFull ringbufSize
  split
  · simp_all
  · split <;> simp_all <;> omega

theorem empty_iff (r : Ringbuffer) : ringbufEmpty r = true ↔ ringbufSize r = 0 := by
  have := r.headInside
  have := r.tailInside
  unfold ringbufEmpty ringbufSize
  split
  · simp_all
    omega
  · split <;> simp_all <;> omega

/-- The head is where the window ends. -/
theorem head_eq (r : Ringbuffer) : (r.tail + ringbufSize r) % r.max = r.head := by
  have headInside := r.headInside
  have := r.tailInside
  unfold ringbufSize
  split
  next full =>
    rw [Nat.add_mod_right,r.fullMeets full,Nat.mod_eq_of_lt r.tailInside]
  next =>
    split
    next ahead =>
      rw [Nat.add_sub_cancel' ahead,Nat.mod_eq_of_lt headInside]
    next =>
      rw [show r.tail + (r.max + r.head - r.tail) = r.head + r.max by omega,Nat.add_mod_right,
        Nat.mod_eq_of_lt headInside]

theorem push_full (full : ringbufSize r = r.max) (byte : UInt8) : ringbufPush r byte = (-1,r) := by
  simp [ringbufPush,(full_iff r).mpr full]

theorem push_size (room : ringbufSize r < r.max) (byte : UInt8) :
    (ringbufPush r byte).1 = 0 ∧ ringbufSize (ringbufPush r byte).2 = ringbufSize r + 1 := by
  have notFull : r.full = false := by
    have := (full_iff r).not.mpr (by omega)
    simpa [ringbufFull] using this
  have := r.headInside
  have := r.tailInside
  refine ⟨by simp [ringbufPush,ringbufFull,notFull],?_⟩
  simp only [ringbufPush,ringbufFull,notFull,ringbufSize,advancePointer,succ_mod r.headInside] at room ⊢
  grind

theorem push_contents (room : ringbufSize r < r.max) (byte : UInt8) :
    (ringbufPush r byte).2.contents = r.contents ++ [byte] := by
  have notFull : r.full = false := by
    have := (full_iff r).not.mpr (by omega)
    simpa [ringbufFull] using this
  rw [Ringbuffer.contents,(push_size room byte).2,window_snoc]
  simp only [ringbufPush,ringbufFull,notFull,advancePointer,Bool.not_false,if_true,Bool.false_eq_true,
    if_false,head_eq,Function.update_self]
  congr 1
  nth_rewrite 1 [← head_eq r]
  exact window_update r.buffer byte room

theorem push_max (r : Ringbuffer) (byte : UInt8) : (ringbufPush r byte).2.max = r.max := by
  unfold ringbufPush
  split <;> rfl

theorem bulkPush_max (r : Ringbuffer) (data : List UInt8) : (ringbufBulkPush r data).2.max = r.max := by
  induction data generalizing r with
  | nil => rfl
  | cons byte data ih =>
    simp only [ringbufBulkPush]
    split
    · exact push_max r byte
    · exact (ih _).trans (push_max r byte)

/-- A bulk push queues what fits and drops the rest. -/
theorem bulkPush_contents (r : Ringbuffer) (data : List UInt8) :
    (ringbufBulkPush r data).2.contents = r.contents ++ data.take (r.max - ringbufSize r) := by
  induction data generalizing r with
  | nil => simp [ringbufBulkPush]
  | cons byte data ih =>
    rcases (size_le_max r).eq_or_lt with full | room
    · simp [ringbufBulkPush,push_full full,full]
    · obtain ⟨code,size⟩ := push_size room byte
      simp only [ringbufBulkPush,code]
      rw [if_neg (by decide),ih,push_contents room,size,push_max,List.append_assoc]
      have left : r.max - ringbufSize r = (r.max - (ringbufSize r + 1)) + 1 := by omega
      rw [left,List.take_succ_cons,List.singleton_append]

theorem retreat_size (queued : 0 < ringbufSize r) : ringbufSize (retreatPointer r) = ringbufSize r - 1 := by
  have := r.headInside
  have tailInside := r.tailInside
  have := r.fullMeets
  simp only [retreatPointer,ringbufSize,succ_mod tailInside] at queued ⊢
  grind

theorem pop_contents (queued : r.contents = byte :: rest) :
    (ringbufPop r).1 = some byte ∧ (ringbufPop r).2.contents = rest ∧ (ringbufPop r).2.max = r.max := by
  have length : ringbufSize r = rest.length + 1 := by rw [← contents_length,queued,List.length_cons]
  have notEmpty : ringbufEmpty r = false := by
    have := (empty_iff r).not.mpr (by omega)
    simpa using this
  have shape : r.contents = r.buffer r.tail :: window r.buffer r.max ((r.tail + 1) % r.max) rest.length := by
    rw [Ringbuffer.contents,length,window_cons,Nat.mod_eq_of_lt r.tailInside]
  obtain ⟨first,others⟩ := List.cons.inj (queued.symm.trans shape)
  have popped : ringbufPop r = (some (r.buffer r.tail),retreatPointer r) := by simp [ringbufPop,notEmpty]
  refine ⟨by rw [popped,first],?_,by rw [popped]; rfl⟩
  rw [popped,Ringbuffer.contents,retreat_size (by omega),length]
  exact others.symm

end Sizigy
