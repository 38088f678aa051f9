import Sizigy.Ringbuf

/-! The ring buffer as a bounded queue. The queue is the abstract layer: it knows nothing of
positions, of the flag or of where the bytes lie. Along every sequence of calls the buffer gives
the answers of the queue, and its size and its two tests are those of the queue. -/
namespace Sizigy.RingbufFifo

open Bytes

inductive Op where
  | push (byte : UInt8)
  | bulkPush (data : List UInt8)
  | pop
  | reset

/-- What a call gives back: a code, the byte of a pop or its failure, or nothing. -/
inductive Answer where
  | code (r : Int)
  | byte (data : Option UInt8)
  | done
  deriving DecidableEq

def ringStep (r : Ringbuffer) : Op → Answer × Ringbuffer
  | .push byte => (.code (ringbufPush r byte).1,(ringbufPush r byte).2)
  | .bulkPush data => (.code (ringbufBulkPush r data).1,(ringbufBulkPush r data).2)
  | .pop => (.byte (ringbufPop r).1,(ringbufPop r).2)
  | .reset => (.done,ringbufReset r)

/-- A queue of bounded length, oldest byte first. -/
def fifoStep (capacity : Nat) (q : List UInt8) : Op → Answer × List UInt8
  | .push byte => if q.length < capacity then (.code 0,q ++ [byte]) else (.code (-1),q)
  | .bulkPush data =>
    (.code (if data.length ≤ capacity - q.length then 0 else -1),q ++ data.take (capacity - q.length))
  | .pop => (.byte q.head?,q.tail)
  | .reset => (.done,[])

/-- The answers to a sequence of calls, and where it ends. -/
def runOps (step : σ → Op → Answer × σ) (s : σ) : List Op → List Answer × σ
  | [] => ([],s)
  | op :: ops => ((step s op).1 :: (runOps step (step s op).2 ops).1,(runOps step (step s op).2 ops).2)

variable {r : Ringbuffer}

theorem bulkPush_code (r : Ringbuffer) (data : List UInt8) :
    (ringbufBulkPush r data).1 = if data.length ≤ r.max - ringbufSize r then 0 else -1 := by
  induction data generalizing r with
  | nil => simp [ringbufBulkPush]
  | cons byte data ih =>
    rcases (size_le_max r).eq_or_lt with full | room
    · simp [ringbufBulkPush,push_full full,full]
    · obtain ⟨code,size⟩ := push_size room byte
      have fits : data.length ≤ r.max - (ringbufSize r + 1) ↔ data.length + 1 ≤ r.max - ringbufSize r := by omega
      simp [ringbufBulkPush,code,ih,size,push_max,fits]

theorem pop_empty (empty : ringbufSize r = 0) : ringbufPop r = (none,r) := by
  simp [ringbufPop,(empty_iff r).mpr empty]

/-- A call does to the bytes of the buffer what it does to the queue, with the same answer. -/
theorem ringStep_refines (r : Ringbuffer) (op : Op) :
    (ringStep r op).1 = (fifoStep r.max r.contents op).1 ∧
      (ringStep r op).2.contents = (fifoStep r.max r.contents op).2 ∧ (ringStep r op).2.max = r.max := by
  cases op with
  | push byte =>
    rcases (size_le_max r).eq_or_lt with full | room
    · simp [ringStep,fifoStep,push_full full,full]
    · simp [ringStep,fifoStep,push_size room,push_contents room,push_max,room]
  | bulkPush data => simp [ringStep,fifoStep,bulkPush_code,bulkPush_contents,bulkPush_max]
  | pop =>
    cases queued : r.contents with
    | nil =>
      have empty : ringbufSize r = 0 := by simpa [queued] using (contents_length r).symm
      simp [ringStep,fifoStep,pop_empty empty,queued]
    | cons byte rest => simp [ringStep,fifoStep,pop_contents queued]
  | reset => exact ⟨rfl,rfl,rfl⟩

theorem run_refines (r : Ringbuffer) (ops : List Op) :
    (runOps ringStep r ops).1 = (runOps (fifoStep r.max) r.contents ops).1 ∧
      (runOps ringStep r ops).2.contents = (runOps (fifoStep r.max) r.contents ops).2 ∧
      (runOps ringStep r ops).2.max = r.max := by
  induction ops generalizing r with
  | nil => exact ⟨rfl,rfl,rfl⟩
  | cons op ops ih =>
    obtain ⟨answer,contents,max⟩ := ringStep_refines r op
    obtain ⟨answers,final,max'⟩ := ih (ringStep r op).2
    rw [max,contents] at answers final
    simp [runOps,answer,answers,final,max',max]

/-- The buffer shows the size of the queue, and that it is empty or full. -/
structure Shows (capacity : Nat) (r : Ringbuffer) (q : List UInt8) : Prop where
  bounded : q.length ≤ capacity
  size : ringbufSize r = q.length
  empty : ringbufEmpty r = true ↔ q.length = 0
  full : ringbufFull r = true ↔ q.length = capacity

theorem contents_shown (r : Ringbuffer) : Shows r.max r r.contents where
  bounded := by simpa using size_le_max r
  size := by simp
  empty := by simpa using empty_iff r
  full := by simpa using full_iff r

/-- After any sequence of calls on a new buffer there is a queue that has given all its
answers and that it shows; a push into a full buffer and a pop from an empty one change nothing. -/
theorem ring_refines_fifo (buffer : Memory) (capacity : Nat) (positive : 0 < capacity) (ops : List Op) :
    ∃ r q, runOps ringStep (ringbufInit buffer capacity positive) ops =
        ((runOps (fifoStep capacity) [] ops).1,r) ∧ q = (runOps (fifoStep capacity) [] ops).2 ∧
      Shows capacity r q ∧ (q.length = capacity → ∀ byte, ringbufPush r byte = (-1,r)) ∧
      (q.length = 0 → ringbufPop r = (none,r)) := by
  obtain ⟨answers,contents,max⟩ := run_refines (ringbufInit buffer capacity positive) ops
  generalize ended : (runOps ringStep (ringbufInit buffer capacity positive) ops).2 = r at *
  have capacity_eq : r.max = capacity := max
  have shown := contents_shown r
  rw [contents,capacity_eq] at shown
  refine ⟨r,_,Prod.ext answers ended,rfl,shown,fun full byte => ?_,fun empty => ?_⟩
  · exact push_full (by rw [shown.size,capacity_eq]; exact full) byte
  · exact pop_empty (shown.size.trans empty)

/-- A buffer of one byte: it is full and empty by turns. -/
theorem oneByte_refines : ∃ r, runOps ringStep (ringbufInit (fun _ => 0) 1 (by decide))
      [.push 7,.push 8,.pop,.pop,.bulkPush [5,6]] =
        ([.code 0,.code (-1),.byte (some 7),.byte none,.code (-1)],r) ∧ Shows 1 r [5] := by
  obtain ⟨r,q,answers,rfl,shown,_⟩ := ring_refines_fifo (fun _ => 0) 1 (by decide)
    [.push 7,.push 8,.pop,.pop,.bulkPush [5,6]]
  exact ⟨r,answers,shown⟩

end Sizigy.RingbufFifo
