import Mathlib.Algebra.Group.Int.Defs
import Mathlib.Data.Fintype.Basic
import Mathlib.Logic.Function.Basic
import Mathlib.Data.List.Basic
import ApueToyCodes.Lib.Runs

/-!
# `FooHash.Objects` — counted objects in a hash table (`apue.3e/threads`, mutex2.c)

Any number of threads call `foo_alloc`, `foo_hold`, `foo_find` and `foo_rele`. A step of a thread is what it does
from one lock call to the next. An object not allocated any more, a mutex unlocked by a thread that does not
hold it or destroyed while one does, a field touched without the lock that protects it, and an `f_count` beyond
`INT_MAX` are a `fault`: that none occurs is to be proved.

`refs` is not in the program: who has which reference. A caller holds and releases only objects it has a
reference to, and may hand a reference to another thread; `foo_alloc` and `foo_find` return one. All callers
together never ask for more references to an object than an `int` can count (`Countable`). `malloc` returns any
address that is not in use.
-/

namespace FooHash

/-- `NHASH` -/
abbrev nhash : Nat := 29

/-- `INT_MAX` -/
abbrev intMax : Int := 2147483647

/-- `HASH`: the `int` as an `unsigned long`. -/
def hash (id : Int) : Fin nhash := ⟨(id % 2 ^ 64).toNat % nhash, Nat.mod_lt _ (by decide)⟩

/-- `struct foo`; `f_lock` is the thread that holds the mutex. -/
structure Foo (T : Type) where
  count : Int
  lock  : Option T
  id    : Int
  next  : Nat
deriving DecidableEq

/-- Where a thread is, with its `fp`, `id` and `tfp`. -/
inductive Pc where
  | idle
  -- `foo_alloc`
  | allocHash (fp : Nat)
  | allocInsert (fp : Nat)
  | allocObj (fp : Nat)
  | allocUnhash (fp : Nat)
  | allocUnobj (fp : Nat)
  -- `foo_hold`
  | holdObj (fp : Nat)
  | holdCount (fp : Nat)
  | holdUnobj (fp : Nat)
  -- `foo_find`, with the `foo_hold` in it
  | findHash (id : Int)
  | findWalk (id : Int) (fp : Nat)
  | findObj (id : Int) (fp : Nat)
  | findCount (id : Int) (fp : Nat)
  | findUnobj (id : Int) (fp : Nat)
  | findUnhash (id : Int) (fp : Nat)
  -- `foo_rele`
  | releObj (fp : Nat)
  | releCheck (fp : Nat)
  | releUnobj (fp : Nat)
  | releRetry (fp : Nat)
  | releHash (fp : Nat)
  | releObjAgain (fp : Nat)
  | releRecheck (fp : Nat)
  | releKeep (fp : Nat)
  | releKept
  | releWalk (fp tfp : Nat)
  | releRemoved (fp : Nat)
  | releUnlock (fp : Nat)
  | releFree (fp : Nat)
deriving DecidableEq

/-- The object whose references the thread is about to count up. -/
def Pc.counting : Pc → Option Nat
  | holdCount fp | findCount _ fp => some fp
  | _ => none

structure State (T : Type) where
  heap     : Nat → Option (Foo T)
  fh       : Fin nhash → Nat
  hashlock : Option T
  pc       : T → Pc
  refs     : List (T × Nat)

/-- The references to an object. -/
def State.refCount {T : Type} (s : State T) (fp : Nat) : Nat := s.refs.countP (·.2 = fp)

/-- What comes of a step. -/
inductive Outcome (σ : Type) where
  | next (s : σ)
  /-- the thread waits for a lock -/
  | blocked
  | fault

/-- No object yet. -/
def init (T : Type) : State T :=
  { heap := fun _ => none, fh := fun _ => 0, hashlock := none, pc := fun _ => .idle, refs := [] }

section

variable {T : Type} [DecidableEq T] (t : T) (s : State T)

def State.goto (pc : Pc) : State T := { s with pc := Function.update s.pc t pc }

def State.setFoo (fp : Nat) (foo : Foo T) : State T := { s with heap := Function.update s.heap fp (some foo) }

/-- `pthread_mutex_lock(&hashlock)` -/
def lockHash (pc : Pc) : Outcome (State T) :=
  if s.hashlock = none then .next ({ s with hashlock := some t }.goto t pc) else .blocked

/-- `pthread_mutex_unlock(&hashlock)` -/
def unlockHash (pc : Pc) : Outcome (State T) :=
  if s.hashlock = some t then .next ({ s with hashlock := none }.goto t pc) else .fault

/-- `pthread_mutex_lock(&fp->f_lock)` -/
def lockObj (fp : Nat) (pc : Pc) : Outcome (State T) :=
  match s.heap fp with
  | none => .fault
  | some foo =>
    if foo.lock = none then .next ((s.setFoo fp { foo with lock := some t }).goto t pc) else .blocked

/-- `pthread_mutex_unlock(&fp->f_lock)` -/
def unlockObj (fp : Nat) (pc : Pc) : Outcome (State T) :=
  match s.heap fp with
  | none => .fault
  | some foo =>
    if foo.lock = some t then .next ((s.setFoo fp { foo with lock := none }).goto t pc) else .fault

/-- Access to `f_count`, protected by `f_lock`. -/
def counted (fp : Nat) (k : Foo T → Outcome (State T)) : Outcome (State T) :=
  match s.heap fp with
  | none => .fault
  | some foo => if foo.lock = some t then k foo else .fault

/-- Access to `fh`, and to `f_id` and `f_next` of an object, protected by `hashlock`. -/
def linked (fp : Nat) (k : Foo T → Outcome (State T)) : Outcome (State T) :=
  match s.heap fp with
  | none => .fault
  | some foo => if s.hashlock = some t then k foo else .fault

/-- `fp->f_count--`, and the reference is gone. -/
def decrement (fp : Nat) (foo : Foo T) (pc : Pc) : Outcome (State T) :=
  .next ({ s.setFoo fp { foo with count := foo.count - 1 } with refs := s.refs.erase (t, fp) }.goto t pc)

/-- `fp->f_count++`, and there is a reference more; `f_count` is an `int`. -/
def increment (fp : Nat) (foo : Foo T) (pc : Pc) : Outcome (State T) :=
  if foo.count < intMax then
    .next ({ s.setFoo fp { foo with count := foo.count + 1 } with refs := (t, fp) :: s.refs }.goto t pc)
  else .fault

/-- The step of a thread in a call. -/
def step : Outcome (State T) :=
  match s.pc t with
  | .idle => .blocked
  | .allocHash fp => lockHash t s (.allocInsert fp)
  | .allocInsert fp => linked t s fp fun foo =>
    .next (({ s.setFoo fp { foo with next := s.fh (hash foo.id) } with
      fh := Function.update s.fh (hash foo.id) fp }).goto t (.allocObj fp))
  | .allocObj fp => lockObj t s fp (.allocUnhash fp)
  | .allocUnhash fp => unlockHash t s (.allocUnobj fp)
  | .allocUnobj fp => unlockObj t s fp .idle
  | .holdObj fp => lockObj t s fp (.holdCount fp)
  | .holdCount fp => counted t s fp fun foo => increment t s fp foo (.holdUnobj fp)
  | .holdUnobj fp => unlockObj t s fp .idle
  | .findHash id =>
    if s.hashlock = none then .next ({ s with hashlock := some t }.goto t (.findWalk id (s.fh (hash id))))
    else .blocked
  | .findWalk id fp =>
    if fp = 0 then .next (s.goto t (.findUnhash id 0))
    else linked t s fp fun foo =>
      .next (s.goto t (if foo.id = id then .findObj id fp else .findWalk id foo.next))
  | .findObj id fp => lockObj t s fp (.findCount id fp)
  | .findCount id fp => counted t s fp fun foo => increment t s fp foo (.findUnobj id fp)
  | .findUnobj id fp => unlockObj t s fp (.findUnhash id fp)
  | .findUnhash _ _ => unlockHash t s .idle
  | .releObj fp => lockObj t s fp (.releCheck fp)
  | .releCheck fp => counted t s fp fun foo =>
    if foo.count = 1 then .next (s.goto t (.releRetry fp)) else decrement t s fp foo (.releUnobj fp)
  | .releUnobj fp => unlockObj t s fp .idle
  | .releRetry fp => unlockObj t s fp (.releHash fp)
  | .releHash fp => lockHash t s (.releObjAgain fp)
  | .releObjAgain fp => lockObj t s fp (.releRecheck fp)
  | .releRecheck fp => counted t s fp fun foo =>
    if foo.count ≠ 1 then decrement t s fp foo (.releKeep fp)
    else linked t s fp fun foo =>
      if s.fh (hash foo.id) = fp then
        .next ({ s with fh := Function.update s.fh (hash foo.id) foo.next }.goto t (.releRemoved fp))
      else .next (s.goto t (.releWalk fp (s.fh (hash foo.id))))
  | .releKeep fp => unlockObj t s fp .releKept
  | .releKept => unlockHash t s .idle
  | .releWalk fp tfp => linked t s fp fun foo => linked t s tfp fun tfoo =>
    if tfoo.next = fp then .next ((s.setFoo tfp { tfoo with next := foo.next }).goto t (.releRemoved fp))
    else .next (s.goto t (.releWalk fp tfoo.next))
  | .releRemoved fp => unlockHash t s (.releUnlock fp)
  | .releUnlock fp => unlockObj t s fp (.releFree fp)
  | .releFree fp =>
    match s.heap fp with
    | none => .fault
    | some foo =>
      if foo.lock = none then
        .next ({ s with heap := Function.update s.heap fp none, refs := s.refs.erase (t, fp) }.goto t .idle)
      else .fault

end

/-- What a thread does next. -/
inductive Act (T : Type) where
  /-- the address `malloc` has returned, or 0 where `foo_alloc` returns `NULL` -/
  | alloc (t : T) (id : Int) (fp : Nat)
  | hold (t : T) (fp : Nat)
  | find (t : T) (id : Int)
  | rele (t : T) (fp : Nat)
  /-- a reference handed to another thread -/
  | give (t t' : T) (fp : Nat)
  /-- on in its call -/
  | go (t : T)

section

variable {T : Type} [DecidableEq T]

/-- The steps of the threads, in any order. -/
inductive Step : State T → Act T → State T → Prop
  /-- `f_next` is what `malloc` has left there -/
  | alloc {s : State T} {t : T} {fp : Nat} (id : Int) (garbage : Nat) : s.pc t = .idle → fp ≠ 0 → s.heap fp = none →
      Step s (.alloc t id fp)
        ({ s.setFoo fp { count := 1, lock := none, id := id, next := garbage } with
          refs := (t, fp) :: s.refs }.goto t (.allocHash fp))
  | allocNull {s : State T} {t : T} (id : Int) : s.pc t = .idle → Step s (.alloc t id 0) s
  | hold {s : State T} {t : T} {fp : Nat} : s.pc t = .idle → (t, fp) ∈ s.refs →
      Step s (.hold t fp) (s.goto t (.holdObj fp))
  | find {s : State T} {t : T} (id : Int) : s.pc t = .idle → Step s (.find t id) (s.goto t (.findHash id))
  | rele {s : State T} {t : T} {fp : Nat} : s.pc t = .idle → (t, fp) ∈ s.refs →
      Step s (.rele t fp) (s.goto t (.releObj fp))
  | give {s : State T} {t : T} (t' : T) {fp : Nat} : s.pc t = .idle → (t, fp) ∈ s.refs →
      Step s (.give t t' fp) { s with refs := (t', fp) :: s.refs.erase (t, fp) }
  | go {s s' : State T} {t : T} : step t s = .next s' → Step s (.go t) s'

/-- A thread that is about to count a reference does so at an object with fewer than `INT_MAX`. -/
def Countable (s : State T) : Prop := ∀ t, ∀ fp ∈ (s.pc t).counting, (s.refCount fp : Int) < intMax

instance [Fintype T] (s : State T) : Decidable (Countable s) :=
  inferInstanceAs (Decidable (∀ t, ∀ fp ∈ (s.pc t).counting, (s.refCount fp : Int) < intMax))

/-- Any run of the threads that asks for no more references than can be counted. -/
def Reached (s : State T) : Prop :=
  ∃ acts, Runs.Run (fun s a s' => Step s a s' ∧ Countable s') (init T) acts s

end

end FooHash
