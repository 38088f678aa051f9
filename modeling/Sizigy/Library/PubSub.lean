import Mathlib.Logic.Function.Basic

/-! A publish/subscribe service. A request gives its client a duty of the service, and duties are
done one at a time, in any order. A subscriber is acknowledged and told the letter that the name
retains when it subscribes; a published letter goes to the subscribers that the name has when
the duty is done, and its publisher is acknowledged after them. -/

namespace PubSub

inductive Request (Name Letter Ack : Type) where
  | subscribe (name : Name) (ack : Ack)
  | publish (name : Name) (letter : Letter) (kept : Option Letter) (ack : Option Ack)
  | other (ack : Ack)
  | void

inductive Duty (Name Letter Ack : Type) where
  | acknowledge (ack : Ack) (letter : Option Letter)
  | deliver (name : Name) (letter : Letter) (kept : Option Letter) (ack : Option Ack)

inductive Sent (Letter Ack : Type) where
  | ack (ack : Ack)
  | letter (letter : Letter)

structure State (Client Name Letter Ack : Type) where
  /-- The latest one comes first. -/
  subscribers : Name → List Client
  retained : Name → Option Letter
  duty : Client → Option (Duty Name Letter Ack)

inductive Move (Client Name Letter Ack : Type) where
  | ask (c : Client) (r : Request Name Letter Ack)
  | answer (c : Client)

variable {Client Name Letter Ack : Type} [DecidableEq Client] [DecidableEq Name]

namespace State

def initial : State Client Name Letter Ack := ⟨fun _ => [],fun _ => none,fun _ => none⟩

def owe (s : State Client Name Letter Ack) (c : Client) (duty : Option (Duty Name Letter Ack)) :
    State Client Name Letter Ack :=
  { s with duty := Function.update s.duty c duty }

def ask (s : State Client Name Letter Ack) (c : Client) : Request Name Letter Ack → State Client Name Letter Ack
  | .subscribe name ack =>
    { s with subscribers := Function.update s.subscribers name (c :: s.subscribers name) }.owe c
      (some (.acknowledge ack (s.retained name)))
  | .publish name letter kept ack => s.owe c (some (.deliver name letter kept ack))
  | .other ack => s.owe c (some (.acknowledge ack none))
  | .void => s

/-- What a duty of a client comes to. -/
def perform (s : State Client Name Letter Ack) (c : Client) :
    Duty Name Letter Ack → State Client Name Letter Ack × List (Client × Sent Letter Ack)
  | .acknowledge ack letter => (s,(c,.ack ack) :: letter.toList.map fun l => (c,.letter l))
  | .deliver name letter kept ack =>
    ({ s with retained := Function.update s.retained name (kept.or (s.retained name)) },
      ((s.subscribers name).map fun d => (d,.letter letter)) ++ ack.toList.map fun a => (c,.ack a))

def answer (s : State Client Name Letter Ack) (c : Client) :
    State Client Name Letter Ack × List (Client × Sent Letter Ack) :=
  match s.duty c with
  | none => (s,[])
  | some duty =>
    let (s,sent) := s.perform c duty
    (s.owe c none,sent)

/-- A request is taken in silence. -/
def act (s : State Client Name Letter Ack) :
    Move Client Name Letter Ack → State Client Name Letter Ack × List (Client × Sent Letter Ack)
  | .ask c r => (s.ask c r,[])
  | .answer c => s.answer c

end State

/-- The request that a move takes. -/
def Move.request : Move Client Name Letter Ack → Option (Client × Request Name Letter Ack)
  | .ask c r => some (c,r)
  | .answer _ => none

end PubSub
