import Mathlib.Data.Finset.Basic
import ApueToyCodes.Printd.Daemon

/-!
# `Printd.Workers` — the list of the client threads (printer/printd.c)

Each client thread puts itself on a list, with the socket of its client, and takes itself off it when it ends.
The list is there for `kill_workers`; the socket is closed by `client_cleanup`, which looks for the thread on
the list. The walks along the list take a bound on their length, since a list need not end.
-/

namespace Printd

/-- `struct worker_thread` -/
structure WorkerThread (T : Type) where
  next   : Option Nat
  prev   : Option Nat
  tid    : T
  sockfd : Int

/-- The list, the objects there are, and the sockets of clients that are open. -/
structure Pool (T : Type) where
  workers : Option Nat
  heap    : Nat → Option (WorkerThread T)
  fds     : Finset Int

namespace Pool

variable {T : Type}

def init (T : Type) (fds : Finset Int) : Pool T := ⟨none, fun _ => none, fds⟩

def setWorker (p : Pool T) (wtp : Nat) (w : WorkerThread T) : Pool T :=
  { p with heap := Function.update p.heap wtp (some w) }

/-- `wtp->next = v`; `none` where `wtp` is no object. -/
def setNext (p : Pool T) (wtp : Nat) (v : Option Nat) : Option (Pool T) :=
  (p.heap wtp).map fun w => p.setWorker wtp { w with next := v }

/-- `wtp->prev = v` -/
def setPrev (p : Pool T) (wtp : Nat) (v : Option Nat) : Option (Pool T) :=
  (p.heap wtp).map fun w => p.setWorker wtp { w with prev := v }

/-- `add_worker`, with the object at `wtp`. Where there is a worker, `workers` stays as it is. -/
def addWorker (p : Pool T) (tid : T) (sockfd : Int) (wtp : Nat) : Option (Pool T) :=
  let p := p.setWorker wtp { next := p.workers, prev := none, tid := tid, sockfd := sockfd }
  match p.workers with
  | none => some { p with workers := some wtp }
  | some w => p.setPrev w (some wtp)

/-- `accept` in `main`, and the start of the thread. -/
def connect (p : Pool T) (tid : T) (sockfd : Int) (wtp : Nat) : Option (Pool T) :=
  { p with fds := insert sockfd p.fds }.addWorker tid sockfd wtp

/-- How the search of `client_cleanup` ends. -/
inductive Found where
  | absent
  | worker (wtp : Nat)
  | fault
  | unfinished

section
variable [DecidableEq T]

/-- The loop of `client_cleanup`, from `wtp` on. -/
def find (p : Pool T) (tid : T) : Nat → Option Nat → Found
  | _,        none => .absent
  | 0,        some _ => .unfinished
  | fuel + 1, some wtp =>
    match p.heap wtp with
    | none => .fault
    | some w => if w.tid = tid then .worker wtp else p.find tid fuel w.next

/-- The neighbours are led around the worker. -/
def unlinkWorker (p : Pool T) (w : WorkerThread T) : Option (Pool T) := do
  let p ← match w.next with
    | some n => p.setPrev n w.prev
    | none => some p
  match w.prev with
  | some m => p.setNext m w.next
  | none => some { p with workers := w.next }

/-- `client_cleanup` -/
def clientCleanup (fuel : Nat) (p : Pool T) (tid : T) : Outcome (Pool T) :=
  match p.find tid fuel p.workers with
  | .absent => .next p
  | .unfinished => .blocked
  | .fault => .fault
  | .worker wtp =>
    match p.heap wtp with
    | none => .fault
    | some w =>
      match p.unlinkWorker w with
      | none => .fault
      | some p => .next { p with heap := Function.update p.heap wtp none, fds := p.fds.erase w.sockfd }

end

/-- The loop of `kill_workers`: the threads it cancels. -/
def cancelLoop (p : Pool T) : Nat → Option Nat → Outcome (List T)
  | _,        none => .next []
  | 0,        some _ => .blocked
  | fuel + 1, some wtp =>
    match p.heap wtp with
    | none => .fault
    | some w =>
      match p.cancelLoop fuel w.next with
      | .next ts => .next (w.tid :: ts)
      | r => r

/-- `kill_workers` -/
def killWorkers (fuel : Nat) (p : Pool T) : Outcome (List T) := p.cancelLoop fuel p.workers

end Pool

/-- A client thread starts or ends. -/
inductive PoolEvent (T : Type) where
  | connect (tid : T) (sockfd : Int) (wtp : Nat)
  | ends (tid : T)

def PoolEvent.isConnect {T : Type} : PoolEvent T → Bool
  | .connect _ _ _ => true
  | .ends _ => false

variable {T : Type} [DecidableEq T]

/-- A new thread has a number of its own, a socket of its own and an object of its own. -/
inductive PoolStep : Pool T → PoolEvent T → Pool T → Prop
  | connect {p p' : Pool T} {tid : T} {sockfd : Int} {wtp : Nat} :
      p.heap wtp = none → sockfd ∉ p.fds → (∀ a w, p.heap a = some w → w.tid ≠ tid) →
      p.connect tid sockfd wtp = some p' → PoolStep p (.connect tid sockfd wtp) p'
  | ends {p p' : Pool T} {tid : T} {fuel : Nat} : p.clientCleanup fuel tid = .next p' →
      PoolStep p (.ends tid) p'

/-- A step in which no thread starts while another is on the list. -/
def OneAtATime (p : Pool T) (e : PoolEvent T) (p' : Pool T) : Prop :=
  PoolStep p e p' ∧ (e.isConnect = true → p.workers = none)

/-- Whichever thread ends first, its socket is closed, and `workers` points to no freed object. -/
def Orderly (p : Pool T) : Prop :=
  ∀ a w, p.heap a = some w → ∃ fuel p', p.clientCleanup fuel w.tid = .next p' ∧ w.sockfd ∉ p'.fds ∧
    ∀ b, p'.workers = some b → p'.heap b ≠ none

end Printd
