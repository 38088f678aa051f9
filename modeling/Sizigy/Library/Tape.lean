import Mathlib.Data.List.Basic
import Mathlib.Tactic.Common

/-! Streams that arrive with pauses. A tape lists the symbols of a stream in order, with a
mark wherever a reader finds nothing yet. A bounded scan stops at its bound or at the first
mark, which it consumes; the end of the tape is a pause that never goes away. -/

abbrev Tape (α : Type) := List (Option α)

namespace Tape

def payload (t : Tape α) : List α := t.filterMap id

def scan : Nat → Tape α → List α × Tape α
  | 0, t => ([],t)
  | _ + 1, [] => ([],[])
  | _ + 1, none :: t => ([],t)
  | n + 1, some a :: t => (a :: (scan n t).1,(scan n t).2)

/-- A reader that has taken so many symbols finds nothing more at that point. -/
def Pause : Tape α → Nat → Prop
  | [], p => p = 0
  | none :: t, p => p = 0 ∨ Pause t p
  | some _ :: _, 0 => False
  | some _ :: t, p + 1 => Pause t p

instance decidablePause : (t : Tape α) → (p : Nat) → Decidable (Pause t p)
  | [], p => inferInstanceAs (Decidable (p = 0))
  | none :: t, p =>
    have := decidablePause t p
    inferInstanceAs (Decidable (p = 0 ∨ Pause t p))
  | some _ :: _, 0 => isFalse id
  | some _ :: t, p + 1 => decidablePause t p

@[simp] theorem payload_nil : payload ([] : Tape α) = [] := rfl

@[simp] theorem payload_none (t : Tape α) : payload (none :: t) = payload t := rfl

@[simp] theorem payload_some (a : α) (t : Tape α) : payload (some a :: t) = a :: payload t := rfl

@[simp] theorem payload_append (t u : Tape α) : payload (t ++ u) = payload t ++ payload u :=
  List.filterMap_append

theorem scan_payload (n : Nat) (t : Tape α) : payload t = (scan n t).1 ++ payload (scan n t).2 := by
  fun_induction scan n t with
  | case1 t => rfl
  | case2 n => rfl
  | case3 n t => rfl
  | case4 n a t ih => rw [payload_some,ih]; rfl

theorem scan_length_le (n : Nat) (t : Tape α) : (scan n t).1.length ≤ n := by
  fun_induction scan n t with
  | case1 t => exact Nat.le_refl 0
  | case2 n => exact Nat.zero_le _
  | case3 n t => exact Nat.zero_le _
  | case4 n a t ih => exact Nat.succ_le_succ ih

/-- A scan of a tape that has not ended consumes some of it. -/
theorem scan_shrinks (n : Nat) (positive : 0 < n) (mark : Option α) (t : Tape α) :
    (scan n (mark :: t)).2.length ≤ t.length := by
  have shorter (n : Nat) (t : Tape α) : (scan n t).2.length ≤ t.length := by
    fun_induction scan n t with
    | case1 t => exact Nat.le_refl _
    | case2 n => exact Nat.le_refl _
    | case3 n t => exact Nat.le_succ _
    | case4 n a t ih => exact Nat.le_succ_of_le ih
  obtain ⟨n,rfl⟩ := Nat.exists_eq_succ_of_ne_zero (Nat.pos_iff_ne_zero.mp positive)
  cases mark with
  | none => exact Nat.le_refl _
  | some a => exact shorter n t

theorem scan_stops (n : Nat) (t : Tape α) :
    Pause t (scan n t).1.length ∨ (scan n t).1.length = n := by
  fun_induction scan n t with
  | case1 t => exact .inr rfl
  | case2 n => exact .inl rfl
  | case3 n t => exact .inl (.inl rfl)
  | case4 n a t ih =>
    rcases ih with pause | full
    · exact .inl pause
    · exact .inr (congrArg Nat.succ full)

theorem scan_inside (n : Nat) (t : Tape α) : ∀ p < (scan n t).1.length, ¬Pause t p := by
  fun_induction scan n t with
  | case1 t => simp
  | case2 n => simp
  | case3 n t => simp
  | case4 n a t ih =>
    intro p less
    cases p with
    | zero => exact id
    | succ p => exact ih p (Nat.lt_of_succ_lt_succ less)

/-- A tape left over after so many symbols: the pauses behind its start are the old ones. -/
def Rest (t t' : Tape α) (k : Nat) : Prop :=
  (∀ q, 0 < q → (Pause t' q ↔ Pause t (k + q))) ∧ (Pause t' 0 → Pause t k)

theorem Rest.refl (t : Tape α) : Rest t t 0 := ⟨fun q _ => by rw [Nat.zero_add],id⟩

theorem Rest.pause (rest : Rest t t' k) : Pause t' q → Pause t (k + q) := by
  rcases Nat.eq_zero_or_pos q with rfl | positive
  · exact rest.2
  · exact (rest.1 q positive).mp

theorem Rest.trans (first : Rest t t' j) (second : Rest t' t'' k) : Rest t t'' (j + k) := by
  constructor
  · intro q positive
    rw [second.1 q positive,first.1 (k + q) (by omega),Nat.add_assoc]
  · intro pause
    exact first.pause (second.2 pause)

theorem scan_rest (n : Nat) (t : Tape α) : Rest t (scan n t).2 (scan n t).1.length := by
  fun_induction scan n t with
  | case1 t => exact Rest.refl t
  | case2 n => exact Rest.refl []
  | case3 n t =>
    constructor
    · intro q positive
      simp only [List.length_nil,Nat.zero_add,Pause]
      constructor
      · exact .inr
      · rintro (zero | pause)
        · omega
        · exact pause
    · exact fun _ => .inl rfl
  | case4 n a t ih =>
    constructor
    · intro q positive
      rw [List.length_cons,Nat.succ_add]
      exact ih.1 q positive
    · exact ih.2

/-- Outcome of scanning again and again, each time with the same bound, until so much has
arrived: the last scan started at the beginning or at a pause, and went on to its bound or
to the next pause. -/
def Gathered (bound need : Nat) (t : Tape α) (n : Nat) : Prop :=
  ∃ q < need, (q = 0 ∨ Pause t q) ∧ (∀ p, q < p → p < n → ¬Pause t p) ∧ need ≤ n ∧
    n ≤ q + bound ∧ (Pause t n ∨ n = q + bound)

theorem Gathered.enough {t : Tape α} (gathered : Gathered bound need t n) : need ≤ n := by
  obtain ⟨_,_,_,_,enough,_⟩ := gathered
  exact enough

theorem gathered_last (enough : need ≤ (scan bound t).1.length) (positive : 0 < need) :
    Gathered bound need t (scan bound t).1.length := by
  refine ⟨0,positive,.inl rfl,fun p _ less => scan_inside bound t p less,enough,?_,?_⟩
  · rw [Nat.zero_add]
    exact scan_length_le bound t
  · rw [Nat.zero_add]
    exact scan_stops bound t

theorem gathered_more (few : (scan bound t).1.length < need) (possible : need ≤ bound)
    (later : Gathered bound (need - (scan bound t).1.length) (scan bound t).2 n) :
    Gathered bound need t ((scan bound t).1.length + n) := by
  have rest := scan_rest bound t
  have stopped : Pause t (scan bound t).1.length := by
    rcases scan_stops bound t with pause | full
    · exact pause
    · omega
  generalize (scan bound t).1.length = k at *
  generalize (scan bound t).2 = t' at *
  obtain ⟨q,less,start,quiet,enough,inside,stop⟩ := later
  refine ⟨k + q,by omega,.inr ?_,?_,by omega,by omega,?_⟩
  · rcases start with rfl | pause
    · exact stopped
    · exact rest.pause pause
  · intro p above below pause
    obtain ⟨d,rfl⟩ := Nat.exists_eq_add_of_lt above
    have shifted : Pause t (k + (q + d + 1)) := by
      rwa [show k + (q + d + 1) = k + q + d + 1 by omega]
    exact quiet (q + d + 1) (by omega) (by omega) ((rest.1 _ (by omega)).mpr shifted)
  · rcases stop with pause | full
    · exact .inl (rest.pause pause)
    · exact .inr (by omega)

/-- Nothing beyond the need is taken exactly when there is a pause right there, or the bound
is the need and there is no pause before it. -/
theorem gathered_exact (gathered : Gathered bound need t n) (possible : need ≤ bound) :
    n = need ↔ Pause t need ∨ (bound = need ∧ ∀ p, 0 < p → p < need → ¬Pause t p) := by
  obtain ⟨q,less,start,quiet,enough,inside,stop⟩ := gathered
  constructor
  · rintro rfl
    rcases stop with pause | full
    · exact .inl pause
    · have zero : q = 0 := by omega
      exact .inr ⟨by omega,fun p above below => quiet p (by omega) below⟩
  · rintro (pause | ⟨same,inner⟩)
    · by_contra beyond
      exact quiet need less (by omega) pause
    · rcases start with rfl | pause
      · omega
      · rcases Nat.eq_zero_or_pos q with rfl | positive
        · omega
        · exact absurd pause (inner q positive less)

/-- A mark, not the end of the tape, stands behind so many symbols. -/
def Mark : Tape α → Nat → Prop
  | [], _ => False
  | none :: t, p => p = 0 ∨ Mark t p
  | some _ :: _, 0 => False
  | some _ :: t, p + 1 => Mark t p

instance decidableMark : (t : Tape α) → (p : Nat) → Decidable (Mark t p)
  | [], _ => isFalse id
  | none :: t, p =>
    have := decidableMark t p
    inferInstanceAs (Decidable (p = 0 ∨ Mark t p))
  | some _ :: _, 0 => isFalse id
  | some _ :: t, p + 1 => decidableMark t p

theorem mark_le {t : Tape α} (mark : Mark t p) : p ≤ (payload t).length := by
  fun_induction Mark t p with
  | case1 p => exact mark.elim
  | case2 t p ih =>
    rcases mark with rfl | later
    · exact Nat.zero_le _
    · exact ih later
  | case3 a t => exact mark.elim
  | case4 a t p ih => exact Nat.succ_le_succ (ih mark)

theorem pause_zero_iff (t : Tape α) : Pause t 0 ↔ Mark t 0 ∨ payload t = [] := by
  cases t with
  | nil => simp [Pause,Mark]
  | cons mark t => cases mark <;> simp [Pause,Mark]

/-- A bounded scan runs off the end of the tape. -/
def dry : Nat → Tape α → Bool
  | 0, _ => false
  | _ + 1, [] => true
  | _ + 1, none :: _ => false
  | n + 1, some _ :: t => dry n t

theorem dry_append (symbols : List α) (n : Nat) (t : Tape α) :
    dry (symbols.length + n) (symbols.map some ++ t) = dry n t := by
  induction symbols with
  | nil => simp
  | cons a symbols ih => simpa [Nat.add_right_comm,dry] using ih

theorem dry_scan {t : Tape α} (out : dry n t = true) :
    (scan n t).1 = payload t ∧ (scan n t).2 = [] ∧ (payload t).length < n ∧ ∀ p, ¬Mark t p := by
  fun_induction dry n t with
  | case1 t => contradiction
  | case2 n => simp [scan,Mark]
  | case3 n t => contradiction
  | case4 n a t ih =>
    obtain ⟨symbols,rest,few,none⟩ := ih out
    refine ⟨by simp [scan,symbols],rest,Nat.succ_lt_succ few,fun p => ?_⟩
    cases p with
    | zero => exact id
    | succ p => exact none p

/-- A scan that does not run off the tape takes its bound, before any mark, or stops at the
first mark. -/
theorem scan_marked {t : Tape α} (within : dry n t = false) :
    (∀ p < (scan n t).1.length, ¬Mark t p) ∧ ((scan n t).1.length = n ∨ ((scan n t).1.length < n ∧
      ∀ p, Mark t ((scan n t).1.length + p) ↔ p = 0 ∨ Mark (scan n t).2 p)) := by
  fun_induction dry n t with
  | case1 t => simp [scan]
  | case2 n => contradiction
  | case3 n t => simp [scan,Mark]
  | case4 n a t ih =>
    obtain ⟨inside,stop⟩ := ih within
    constructor
    · intro p less
      cases p with
      | zero => exact id
      | succ p => exact inside p (Nat.lt_of_succ_lt_succ less)
    · simpa [scan,Mark,Nat.succ_add] using stop

/-- A scan that stops at a mark consumes it with the symbols before it. -/
theorem scan_consumes {t : Tape α} (within : dry n t = false) (short : (scan n t).1.length < n) :
    (scan n t).1.length + (scan n t).2.length < t.length := by
  fun_induction dry n t with
  | case1 t => simp at short
  | case2 n => contradiction
  | case3 n t => simp [scan]
  | case4 n a t ih =>
    have later := ih within (by simpa [scan] using short)
    simp only [scan,List.length_cons]
    omega

end Tape
