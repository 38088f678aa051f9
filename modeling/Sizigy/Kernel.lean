import Mathlib.Logic.Function.Basic
import Sizigy.Network

/-! What the program relies on from the kernel: the table of open descriptors, the one-shot
registrations of its epoll instance, and the data waiting on each socket. Closing a
descriptor drops its registration. -/
namespace Sizigy

abbrev Fd := Nat

/-- Who is at an open descriptor: the connection a `Client` was made for, or one that
`accept_handler` gave up before making one. -/
inductive Peer where
  | client (c : Nat)
  | stray
  deriving DecidableEq

inductive Interest where
  | epollin
  | epollout
  deriving DecidableEq

/-- The pointer stored with a registration, and the event it waits for, if any. -/
structure Registration where
  data : Nat
  armed : Option Interest
  deriving DecidableEq

structure Kernel where
  connection : Fd → Option Peer
  epoll : Fd → Option Registration
  socket : Fd → Socket

namespace Kernel

def close (k : Kernel) (fd : Fd) : Kernel :=
  { k with connection := Function.update k.connection fd none, epoll := Function.update k.epoll fd none }

/-- A new connection at a descriptor that was not open. -/
def accept (k : Kernel) (fd : Fd) (peer : Peer) (s : Socket) : Kernel :=
  { k with connection := Function.update k.connection fd (some peer), socket := Function.update k.socket fd s }

/-- `EPOLL_CTL_ADD` fails on a registered descriptor. -/
def addEpoll (k : Kernel) (fd : Fd) (data : Nat) : Kernel :=
  match k.epoll fd with
  | none => { k with epoll := Function.update k.epoll fd (some ⟨data,some .epollin⟩) }
  | some _ => k

/-- `EPOLL_CTL_MOD` fails on a descriptor that is not registered. -/
def modEpoll (k : Kernel) (fd : Fd) (event : Interest) (data : Nat) : Kernel :=
  match k.epoll fd with
  | none => k
  | some _ => { k with epoll := Function.update k.epoll fd (some ⟨data,some event⟩) }

/-- A one-shot registration is disarmed when its event is delivered. -/
def disarm (k : Kernel) (fd : Fd) : Kernel :=
  match k.epoll fd with
  | none => k
  | some r => { k with epoll := Function.update k.epoll fd (some ⟨r.data,none⟩) }

def setSocket (k : Kernel) (fd : Fd) (s : Socket) : Kernel :=
  { k with socket := Function.update k.socket fd s }

variable {k : Kernel}

@[simp] theorem close_connection (k : Kernel) (fd : Fd) :
    (k.close fd).connection = Function.update k.connection fd none := rfl

@[simp] theorem close_epoll (k : Kernel) (fd : Fd) :
    (k.close fd).epoll = Function.update k.epoll fd none := rfl

@[simp] theorem accept_connection (k : Kernel) (fd : Fd) (peer : Peer) (s : Socket) :
    (k.accept fd peer s).connection = Function.update k.connection fd (some peer) := rfl

@[simp] theorem accept_epoll (k : Kernel) (fd : Fd) (peer : Peer) (s : Socket) :
    (k.accept fd peer s).epoll = k.epoll := rfl

@[simp] theorem setSocket_connection (k : Kernel) (fd : Fd) (s : Socket) :
    (k.setSocket fd s).connection = k.connection := rfl

@[simp] theorem setSocket_epoll (k : Kernel) (fd : Fd) (s : Socket) :
    (k.setSocket fd s).epoll = k.epoll := rfl

@[simp] theorem addEpoll_connection (k : Kernel) (fd : Fd) (data : Nat) :
    (k.addEpoll fd data).connection = k.connection := by
  unfold addEpoll
  split <;> rfl

@[simp] theorem modEpoll_connection (k : Kernel) (fd : Fd) (event : Interest) (data : Nat) :
    (k.modEpoll fd event data).connection = k.connection := by
  unfold modEpoll
  split <;> rfl

@[simp] theorem disarm_connection (k : Kernel) (fd : Fd) : (k.disarm fd).connection = k.connection := by
  unfold disarm
  split <;> rfl

@[simp] theorem disarm_socket (k : Kernel) (fd : Fd) : (k.disarm fd).socket = k.socket := by
  unfold disarm
  split <;> rfl

theorem modEpoll_epoll (k : Kernel) (fd : Fd) (event : Interest) (data : Nat) (fd' : Fd) :
    (k.modEpoll fd event data).epoll fd' =
      if fd' = fd ∧ (k.epoll fd).isSome then some ⟨data,some event⟩ else k.epoll fd' := by
  unfold modEpoll
  split
  next none => simp [none]
  next registered =>
    by_cases same : fd' = fd
    · simp [same,registered]
    · simp [same]

theorem addEpoll_epoll (k : Kernel) (fd : Fd) (data : Nat) (fd' : Fd) :
    (k.addEpoll fd data).epoll fd' =
      if fd' = fd ∧ k.epoll fd = none then some ⟨data,some .epollin⟩ else k.epoll fd' := by
  unfold addEpoll
  split
  next free =>
    by_cases same : fd' = fd
    · simp [same,free]
    · simp [same]
  next registered => simp [registered]

theorem disarm_epoll (k : Kernel) (fd fd' : Fd) :
    (k.disarm fd).epoll fd' =
      if fd' = fd then (k.epoll fd).map fun r => ⟨r.data,none⟩ else k.epoll fd' := by
  unfold disarm
  split
  next none =>
    by_cases same : fd' = fd
    · simp [same,none]
    · simp [same]
  next registered =>
    by_cases same : fd' = fd
    · simp [same,registered]
    · simp [same]

end Kernel

end Sizigy
