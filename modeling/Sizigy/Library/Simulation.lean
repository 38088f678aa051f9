import Mathlib.Data.List.Forall2
import Sizigy.Library.Run

/-! Machines that answer moves, and runs that behave like them. A run of an implementation is
matched with moves of a machine when the machine is given what the run was given and says what
the run showed, in the same order. It is enough to match the steps one by one. -/

namespace Simulation

/-- Moves one after the other, with what the machine says on the way. -/
def play (act : A → M → A × List O) (a : A) : List M → A × List O
  | [] => (a,[])
  | move :: rest =>
    let (a,said) := act a move
    let (last,later) := play act a rest
    (last,said ++ later)

variable {act : A → M → A × List O}

theorem play_append (a : A) (moves later : List M) :
    play act a (moves ++ later) = ((play act (play act a moves).1 later).1,
      (play act a moves).2 ++ (play act (play act a moves).1 later).2) := by
  induction moves generalizing a with
  | nil => rfl
  | cons move rest ih => simp only [List.cons_append,play,ih,List.append_assoc]

/-- The machine takes some moves for what a step was given, and says what it showed. -/
structure Matched (act : A → M → A × List O) (input : M → Option I) (shown : O → E → Prop)
    (a : A) (given : List I) (showed : List E) (moves : List M) : Prop where
  took : moves.filterMap input = given
  said : List.Forall₂ shown (play act a moves).2 showed

variable {input : M → Option I} {shown : O → E → Prop} {a : A}

theorem Matched.nil : Matched act input shown a [] [] [] := ⟨rfl,.nil⟩

theorem Matched.append (first : Matched act input shown a given showed moves)
    (second : Matched act input shown (play act a moves).1 given' showed' later) :
    Matched act input shown a (given ++ given') (showed ++ showed') (moves ++ later) where
  took := by rw [List.filterMap_append,first.took,second.took]
  said := by
    rw [play_append]
    exact List.rel_append first.said second.said

theorem Matched.imp {shown' : O → E → Prop} (matched : Matched act input shown a given showed moves)
    (imp : ∀ said event, shown said event → shown' said event) : Matched act input shown' a given showed moves :=
  ⟨matched.took,matched.said.imp imp⟩

/-- What a step of the implementation is matched with. The reading of the outputs may depend on the state
that is reached, as long as later states read them alike. -/
theorem run_matched {step : List L → S → L → S → Prop} {related : S → A → Prop} {reads : S → O → E → Prop}
    {given : L → List I} {showed : L → List E} (initial : related start a)
    (matched : ∀ past s label s' a, step past s label s' → related s a →
      (∀ said event, reads s said event → reads s' said event) ∧
      ∃ moves, related s' (play act a moves).1 ∧ Matched act input (reads s') a (given label) (showed label) moves)
    (run : Run step start past s) :
    ∃ moves, related s (play act a moves).1 ∧
      Matched act input (reads s) a (past.flatMap given) (past.flatMap showed) moves := by
  induction run with
  | nil => exact ⟨[],initial,Matched.nil⟩
  | @snoc past s label s' run taken ih =>
    obtain ⟨moves,before,sofar⟩ := ih
    obtain ⟨kept,later,after,new⟩ := matched past s label s' _ taken before
    refine ⟨moves ++ later,?_,?_⟩
    · rw [play_append]
      exact after
    · rw [List.flatMap_append,List.flatMap_append,List.flatMap_singleton,List.flatMap_singleton]
      exact (sofar.imp kept).append new

end Simulation
