import ApueToyCodes.Lib.CInt
import ApueToyCodes.Lib.Runs
import ApueToyCodes.Lib.SemSet

/-!
# `Semaph.Protocol` — semaphores with a process counter (`apue.3e/lib`, semaph.c)

Processes share the semaphore of one key. The set behind it has three members: the semaphore itself, the counter
of the processes that use it, and a lock. A step of a process is one system call; which call of the library
it makes next is the label, and so is that it ends, anywhere. An operation that has to wait is a step that
is not there yet; only a process that waits for the lock in `sem_create` is told apart (`asleep`), since
`semop` gives another error to a process it wakes than to one that comes too late. What the system refuses
because a value or an adjustment would get too large (`ERANGE`) is an error of the call.

`IPC_PRIVATE` and −1 are not used as keys. Identifiers are not used again. All callers of `sem_create` give the
same initial value. A process has the semaphore at most once at a time, and calls `sem_op` and `sem_close` only
while it has it.
-/

namespace Semaph

open CInt SemSet

/-- `BIGCOUNT` -/
abbrev bigcount : Int := 10000

def opLock : List (Sembuf (Fin 3)) := [⟨2, 0, false⟩, ⟨2, 1, true⟩]
def opEndcreate : List (Sembuf (Fin 3)) := [⟨1, -1, true⟩, ⟨2, -1, true⟩]
def opOpen : List (Sembuf (Fin 3)) := [⟨1, -1, true⟩]
def opClose : List (Sembuf (Fin 3)) := [⟨2, 0, false⟩, ⟨2, 1, true⟩, ⟨1, 1, true⟩]
def opUnlock : List (Sembuf (Fin 3)) := [⟨2, -1, true⟩]
/-- `op_op`, with its amount: the field of `struct sembuf` is a `short`. -/
def opOp (value : Int) : List (Sembuf (Fin 3)) := [⟨0, toInt16 value, true⟩]

example : opOp 65536 = [⟨0, 0, true⟩] ∧ opOp (-65535) = [⟨0, 1, true⟩] := ⟨rfl, rfl⟩

/-- The set of the key. -/
structure Sems (P : Type) where
  id   : Nat
  vals : Vals P (Fin 3)

/-- Where a process is. -/
inductive Pc where
  | out
  -- `sem_create`
  | again
  | lock (id : Nat)
  | asleep (id : Nat)
  | getval (id : Nat)
  | setval0 (id : Nat)
  | setval1 (id : Nat)
  | endcreate (id : Nat)
  -- `sem_open`
  | opening (id : Nat)
  /-- it has the semaphore -/
  | opened (id : Nat)
  -- `sem_close`
  | closeGet (id : Nat)
  | closeRm (id : Nat)
  | unlock (id : Nat)
  /-- ended by `err_sys` or `err_dump` -/
  | failed (msg : String)
deriving DecidableEq

structure State (P : Type) where
  sems   : Option (Sems P)
  nextId : Nat
  pc     : P → Pc

def init (P : Type) : State P := { sems := none, nextId := 0, pc := fun _ => .out }

/-- A call of the library. -/
inductive Call where
  | create
  | openSem
  /-- `sem_wait` is −1, `sem_signal` 1 -/
  | op (value : Int)
  | close
deriving DecidableEq

inductive Event (P : Type) where
  | call (p : P) (c : Call)
  /-- the next system call in `sem_create`, `sem_open` or `sem_close` -/
  | run (p : P)
  /-- the process ends -/
  | exit (p : P)
deriving DecidableEq

section

variable {P : Type} [DecidableEq P] (s : State P) (p : P)

def State.goto (pc : Pc) : State P := { s with pc := Function.update s.pc p pc }

/-- The set with other values. -/
def State.mapVals (f : Vals P (Fin 3) → Vals P (Fin 3)) : State P :=
  { s with sems := s.sems.map fun ss => ⟨ss.id, f ss.vals⟩ }

/-- The values of the set `id`, if that is still there. -/
def State.vals (id : Nat) : Option (Vals P (Fin 3)) :=
  match s.sems with
  | some ss => if ss.id = id then some ss.vals else none
  | none    => none

/-- The process ends, and what it did with `SEM_UNDO` is undone. -/
def State.leave (pc : Pc) : State P := (s.mapVals (undo p)).goto p pc

def State.err (msg : String) : State P := s.leave p (.failed msg)

/-- A `semop` on the set `id`: not there any more, refused, has to wait, or done. -/
def semopThen (id : Nat) (bs : List (Sembuf (Fin 3))) (msg : String) (gone : State P) (wait : Option (State P))
    (pc : Pc) : Option (State P) :=
  match s.vals id with
  | none => some gone
  | some vals =>
    if outOfRange p bs vals then some (s.err p msg)
    else
      match semop p bs vals with
      | none   => wait
      | some v => some ((s.mapVals fun _ => v).goto p pc)

/-- A `semctl` on the set `id`. -/
def semctlThen (id : Nat) (msg : String) (k : Vals P (Fin 3) → State P) : Option (State P) :=
  match s.vals id with
  | none      => some (s.err p msg)
  | some vals => some (k vals)

/-- The begin of a call. -/
def callStep : Call → Option (State P)
  | .create => if s.pc p = .out then some (s.goto p .again) else none
  | .openSem =>
      if s.pc p = .out then
        match s.sems with
        -- `semget` without `IPC_CREAT`: −1 is returned
        | none    => some s
        | some ss => some (s.goto p (.opening ss.id))
      else none
  | .op value =>
      match s.pc p with
      | .opened id =>
          if toInt16 value = 0 then some (s.err p "can't have value == 0")
          else semopThen s p id (opOp value) "sem_op error" (s.err p "sem_op error") none (.opened id)
      | _ => none
  | .close =>
      match s.pc p with
      | .opened id => semopThen s p id opClose "can't semop" (s.err p "can't semop") none (.closeGet id)
      | _ => none

/-- The next system call. -/
def runStep (initval : Int) : Option (State P) :=
  match s.pc p with
  | .again =>
      match s.sems with
      | some ss => some (s.goto p (.lock ss.id))
      | none    =>
          some ({ s with sems := some ⟨s.nextId, zero⟩, nextId := s.nextId + 1 }.goto p (.lock s.nextId))
  -- no such set: `EINVAL`, and `goto again`
  | .lock id => semopThen s p id opLock "can't lock" (s.goto p .again) (some (s.goto p (.asleep id))) (.getval id)
  -- removed while it slept: `EIDRM`
  | .asleep id => semopThen s p id opLock "can't lock" (s.err p "can't lock") none (.getval id)
  | .getval id =>
      semctlThen s p id "can't GETVAL" fun v =>
        s.goto p (if v.val 1 = 0 then .setval0 id else .endcreate id)
  | .setval0 id =>
      semctlThen s p id "can SETVAL[0]" fun _ =>
        if initval < 0 ∨ semvmx < initval then s.err p "can SETVAL[0]"
        else (s.mapVals (setval 0 initval)).goto p (.setval1 id)
  | .setval1 id =>
      semctlThen s p id "can SETVAL[1]" fun _ => (s.mapVals (setval 1 bigcount)).goto p (.endcreate id)
  | .endcreate id => semopThen s p id opEndcreate "can't end create" (s.err p "can't end create") none (.opened id)
  | .opening id => semopThen s p id opOpen "can't open" (s.err p "can't open") none (.opened id)
  | .closeGet id =>
      semctlThen s p id "can't GETVAL" fun v =>
        if v.val 1 > bigcount then s.err p "sem[1] > BIGCOUNT"
        else s.goto p (if v.val 1 = bigcount then .closeRm id else .unlock id)
  | .closeRm id => semctlThen s p id "can't IPC_RMID" fun _ => { s with sems := none }.goto p .out
  | .unlock id => semopThen s p id opUnlock "can't unlock" (s.err p "can't unlock") none .out
  | .out | .opened _ | .failed _ => none

def step (initval : Int) : Event P → Option (State P)
  | .call p c => callStep s p c
  | .run p    => runStep s p initval
  | .exit p   =>
      match s.pc p with
      | .failed _ => none
      | _         => some (s.leave p .out)

/-- A process gives back no more than it has taken, and all of it before it closes. -/
def Fair : Event P → Prop
  | .call p (.op value) => ∀ ss ∈ s.sems, toInt16 value ≤ ss.vals.adj p 0
  | .call p .close      => ∀ ss ∈ s.sems, ss.vals.adj p 0 = 0
  | .call _ .openSem    => False
  | _                   => True

instance : (e : Event P) → Decidable (Fair s e)
  | .call p (.op value) => inferInstanceAs (Decidable (∀ ss ∈ s.sems, toInt16 value ≤ ss.vals.adj p 0))
  | .call p .close      => inferInstanceAs (Decidable (∀ ss ∈ s.sems, ss.vals.adj p 0 = 0))
  | .call _ .openSem    => .isFalse fun h => h
  | .call _ .create     => .isTrue trivial
  | .run _              => .isTrue trivial
  | .exit _             => .isTrue trivial

end

end Semaph
