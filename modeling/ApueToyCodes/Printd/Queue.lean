import ApueToyCodes.Printd.Daemon

/-!
# `Printd.Queue` — the spooler with a list for its queue

What the daemon is, with no heap and no pointers: jobs are entries of a list, and the printer thread holds an
entry. `Correctness.Refine` shows that the daemon takes the steps of this one.
-/

namespace Printd

/-- A job: its number and its request. -/
structure Entry where
  id  : Nat
  req : PrintReq
deriving DecidableEq

structure Queue (T : Type) where
  core    : Spooler T
  jobs    : List Entry
  printer : Printer Entry

variable {T : Type} [DecidableEq T]

namespace Queue

def init (T : Type) : Queue T := { core := .init T, jobs := [], printer := .waiting }

/-- The steps of the spooler. -/
inductive Step : Queue T → Event T → Queue T → Prop
  | spool {q : Queue T} {e : Event T} {core : Spooler T} : Spooler.Step q.core e core →
      Step q e { q with core := core }
  | add {q : Queue T} {t : T} {id : Nat} {req : PrintReq} (jp : Nat) : q.core.pc t = .adding id req →
      Step q (.add t jp)
        { q with core := (q.core.tell (.queued id)).goto t .idle, jobs := q.jobs ++ [⟨id, req⟩] }
  | requeue {q : Queue T} {id : Nat} {todo : List Nat} {req : PrintReq} (jp : Nat) :
      q.core.main = .building (id :: todo) → q.core.reqs id = some (some req) →
      Step q (.requeue jp)
        { q with
          core := { q.core with main := .building todo }.tell (.queued id)
          jobs := q.jobs ++ [⟨id, req⟩] }
  | pickup {q : Queue T} {e : Entry} {jobs : List Entry} : q.printer = .waiting → q.jobs = e :: jobs →
      Step q .pickup { q with jobs := jobs, printer := .holds e .picked }
  | stage {q : Queue T} {e : Entry} {st st' : Stage} {a : PrinterAct} {core : Spooler T} :
      q.printer = .holds e st → printJob q.core e.id e.req st a = some (core, .stage st') →
      Step q (.printer a) { q with core := core, printer := .holds e st' }
  | free {q : Queue T} {e : Entry} {st : Stage} {a : PrinterAct} {core : Spooler T} :
      q.printer = .holds e st → printJob q.core e.id e.req st a = some (core, .free) →
      Step q (.printer a) { q with core := core, printer := .waiting }
  | replace {q : Queue T} {e : Entry} {st : Stage} {a : PrinterAct} {core : Spooler T} :
      q.printer = .holds e st → printJob q.core e.id e.req st a = some (core, .replace) →
      Step q (.printer a) { q with core := core, jobs := e :: q.jobs, printer := .waiting }
  | crash {q : Queue T} : q.core.main ≠ .down → Step q .crash { Queue.init T with core := q.core.crashed }

/-- The jobs that are neither printed nor canceled, first the one the printer thread holds. -/
def pending (q : Queue T) : List Entry := q.printer.inHand ++ q.jobs

end Queue

end Printd
