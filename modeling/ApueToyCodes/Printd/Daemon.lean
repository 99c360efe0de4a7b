import Mathlib.Logic.Function.Basic
import ApueToyCodes.Lib.Decimal
import ApueToyCodes.Lib.Runs

/-!
# `Printd.Daemon` — the print spooler (printer/printd.c)

A thread for each client takes a document in: it stores the document and the request in the spool directory
under a number, tells the client the number, and puts a job on the queue. One thread takes the jobs off the
queue and sends them to the printer; a job that could not be sent goes back to the head of the queue. A
daemon that starts queues what it finds in the spool directory.

A step is a system call, or what a thread does while it holds `joblock`. The daemon may end at any step
(`crash`); the spool directory and the job file stay. The jobs are objects on a heap, linked both ways.
Everything but the queue is in a `Spooler`, whose steps `Spooler.Step` lists; `out` is what happens to jobs as
seen from outside. Two threads that were given the same number and write to one data file are taken to
append.

`tread` returns -1 when nothing comes for 20 s. The loop of `client_thread` takes this for the end of the
document like a 0, so a document is what has come until then.
-/

namespace Printd
open Decimal

/-- `struct printreq`, the two names as the arrays they are -/
structure PrintReq where
  size   : UInt32
  flags  : UInt32
  usernm : List UInt8
  jobnm  : List UInt8
deriving DecidableEq

/-- `PR_TEXT` -/
abbrev prText : UInt32 := 1

/-- `IOBUFSZ` -/
abbrev iobufsz : Nat := 8192

/-- `"%!PS"` -/
def psMagic : List UInt8 := [37, 33, 80, 83]

/-- What happens to jobs. -/
inductive Out where
  | started
  /-- the client was told the number, after it had sent `doc` -/
  | accepted (id : Nat) (req : PrintReq) (doc : List UInt8)
  /-- the job was put on the queue -/
  | queued (id : Nat)
  /-- the printer reported success -/
  | printed (id : Nat) (req : PrintReq) (doc : List UInt8)
  /-- `job %d canceled` -/
  | canceled (id : Nat)
  /-- `build_qonstart` could not open the request -/
  | skipped (id : Nat)
  /-- `build_qonstart: can't read` -/
  | unreadable (id : Nat)
deriving DecidableEq

/-- Where a thread in `client_thread` stands. `doc` is not a variable of the source: it is what `tread` has
    read from the client. -/
inductive Pc where
  | idle
  | header
  | numbering (req : PrintReq)
  | creating (id : Nat) (req : PrintReq)
  | storing (id : Nat) (req : PrintReq) (first : Bool) (doc : List UInt8)
  | creatingReq (id : Nat) (req : PrintReq) (doc : List UInt8)
  | writingReq (id : Nat) (req : PrintReq) (doc : List UInt8)
  | responding (id : Nat) (req : PrintReq) (doc : List UInt8)
  | adding (id : Nat) (req : PrintReq)
  /-- the calls of `unlink` behind an error -/
  | unlinkingReq (id : Nat)
  | unlinkingData (id : Nat)

/-- Where the main thread stands: `todo` is what `readdir` has yet to return. -/
inductive Main where
  | down
  | building (todo : List Nat)
  | discarding (id : Nat) (todo : List Nat)
  | serving

/-- The daemon but for its queue. A request file with nothing in it is one that was not written in full. -/
structure Spooler (T : Type) where
  main    : Main
  nextjob : Nat
  jobno   : List UInt8
  data    : Nat → Option (List UInt8)
  reqs    : Nat → Option (Option PrintReq)
  pc      : T → Pc
  out     : List Out

/-- Where the printer thread stands with the job it has picked up. -/
inductive Stage where
  | picked | opening | sending | unlinkData | unlinkReq | deferring
deriving DecidableEq

/-- The job is not done with: nothing was told about it. -/
def Stage.waits : Stage → Bool
  | .unlinkData | .unlinkReq => false
  | _ => true

/-- The printer thread; a job is what `J` stands for. -/
inductive Printer (J : Type) where
  | waiting
  | holds (j : J) (stage : Stage)

/-- The job in its hands that is not done with. -/
def Printer.inHand {J : Type} : Printer J → List J
  | .waiting  => []
  | .holds j st => if st.waits then [j] else []

/-- What a client thread does, with the results of its calls. -/
inductive ClientAct where
  | connect
  | header (req : Option PrintReq)
  | number
  | creat (ok : Bool)
  /-- `tread` leaves `nr` bytes in `buf`, of which `write` passes on `nw`; `none` is an error -/
  | chunk (buf : List UInt8) (nr : Nat) (nw : Option Nat)
  /-- `tread` returns 0, or -1: an error, or nothing has come for 20 s -/
  | eof
  | creatReq (ok : Bool)
  | writeReq (ok : Bool)
  | respond (ok : Bool)
  | unlink

/-- What the printer thread does with its job; `ok` is how the calls went. -/
inductive PrinterAct where
  | update
  | openData (ok : Bool)
  | send (ok : Bool)
  | unlink
  | replace

/-- A step of the daemon. The address is what `malloc` returns. -/
inductive Event (T : Type) where
  | start (todo : List Nat)
  | skip
  | unreadable
  | discard
  | requeue (jp : Nat)
  | serve
  | client (t : T) (a : ClientAct)
  | add (t : T) (jp : Nat)
  | pickup
  | printer (a : PrinterAct)
  | crash

section

variable {T : Type} [DecidableEq T]

namespace Spooler

/-- The spool before the first daemon: nothing in it. -/
def init (T : Type) : Spooler T where
  main := .down
  nextjob := 0
  jobno := []
  data _ := none
  reqs _ := none
  pc _ := .idle
  out := []

def goto (c : Spooler T) (t : T) (pc : Pc) : Spooler T := { c with pc := Function.update c.pc t pc }

def setData (c : Spooler T) (id : Nat) (doc : Option (List UInt8)) : Spooler T :=
  { c with data := Function.update c.data id doc }

def setReq (c : Spooler T) (id : Nat) (req : Option (Option PrintReq)) : Spooler T :=
  { c with reqs := Function.update c.reqs id req }

def tell (c : Spooler T) (o : Out) : Spooler T := { c with out := c.out ++ [o] }

/-- `get_newjobno`: the number after the largest of an `int32_t` is 1. -/
def newjobno (c : Spooler T) : Spooler T :=
  { c with nextjob := if c.nextjob + 1 < 2147483648 then c.nextjob + 1 else 1 }

/-- `update_jobno`: what the file held behind the new number stays there. -/
def updateJobno (c : Spooler T) : Spooler T :=
  { c with jobno := dec c.nextjob ++ c.jobno.drop (dec c.nextjob).length }

/-- `init_request`: the number in the job file. It is taken to be an `int32_t`. -/
def initRequest (c : Spooler T) : Spooler T :=
  { c with nextjob := if c.jobno = [] then 1 else (atol c.jobno).toNat }

/-- The request with `PR_TEXT` set, unless the first bytes of the buffer are `%!PS`. -/
def sniffed (first : Bool) (buf : List UInt8) (req : PrintReq) : PrintReq :=
  if first ∧ buf.take 4 ≠ psMagic then { req with flags := req.flags ||| prText } else req

/-- `client_thread` up to the call of `add_job`. -/
def clientStep (c : Spooler T) (t : T) (a : ClientAct) : Option (Spooler T) :=
  match c.pc t, a with
  | .idle, .connect =>
    match c.main with
    | .serving => some (c.goto t .header)
    | _ => none
  | .header, .header none => some (c.goto t .idle)
  | .header, .header (some req) => some (c.goto t (.numbering req))
  | .numbering req, .number => some (c.newjobno.goto t (.creating c.nextjob req))
  | .creating id req, .creat ok =>
    if ok then some ((c.setData id (some [])).goto t (.storing id req true [])) else some (c.goto t .idle)
  | .storing id req first doc, .chunk buf nr nw =>
    if 0 < nr ∧ nr ≤ buf.length ∧ buf.length = iobufsz then
      let c := c.setData id ((c.data id).map (· ++ (buf.take nr).take (nw.getD 0)))
      if nw = some nr then some (c.goto t (.storing id (sniffed first buf req) false (doc ++ buf.take nr)))
      else some (c.goto t (.unlinkingData id))
    else none
  | .storing id req _ doc, .eof => some (c.goto t (.creatingReq id req doc))
  | .creatingReq id req doc, .creatReq ok =>
    if ok then some ((c.setReq id (some none)).goto t (.writingReq id req doc))
    else some (c.goto t (.unlinkingData id))
  | .writingReq id req doc, .writeReq ok =>
    if ok then some ((c.setReq id (some (some req))).goto t (.responding id req doc))
    else some (c.goto t (.unlinkingReq id))
  -- the source does not look whether the response was written
  | .responding id req doc, .respond ok =>
    if ok then some ((c.tell (.accepted id req doc)).goto t (.adding id req))
    else some (c.goto t (.adding id req))
  | .unlinkingReq id, .unlink => some ((c.setReq id none).goto t (.unlinkingData id))
  | .unlinkingData id, .unlink => some ((c.setData id none).goto t .idle)
  | _, _ => none

/-- The directory of the requests, in the order in which `readdir` returns it. -/
def Lists (c : Spooler T) (todo : List Nat) : Prop := todo.Nodup ∧ ∀ id, id ∈ todo ↔ c.reqs id ≠ none

/-- The steps that leave the queue alone. A daemon that cannot open the directory skips all of it. -/
inductive Step : Spooler T → Event T → Spooler T → Prop
  | start {c : Spooler T} {todo : List Nat} : c.main = .down → c.Lists todo →
      Step c (.start todo) ({ c.initRequest with main := .building todo }.tell .started)
  | skip {c : Spooler T} {id : Nat} {todo : List Nat} : c.main = .building (id :: todo) →
      Step c .skip ({ c with main := .building todo }.tell (.skipped id))
  | unreadable {c : Spooler T} {id : Nat} {todo : List Nat} : c.main = .building (id :: todo) →
      c.reqs id ≠ none →
      Step c .unreadable (({ c with main := .discarding id todo }.setReq id none).tell (.unreadable id))
  | discard {c : Spooler T} {id : Nat} {todo : List Nat} : c.main = .discarding id todo →
      Step c .discard ({ c with main := .building todo }.setData id none)
  | serve {c : Spooler T} : c.main = .building [] → Step c .serve { c with main := .serving }
  | client {c c' : Spooler T} {t : T} {a : ClientAct} : c.clientStep t a = some c' →
      Step c (.client t a) c'

/-- The daemon is gone, and what it had in memory. -/
def crashed (c : Spooler T) : Spooler T := { c with main := .down, nextjob := 0, pc := fun _ => .idle }

end Spooler

/-- What becomes of the job in the hands of the printer thread. -/
inductive Next where
  | stage (st : Stage)
  | free
  | replace

/-- `printer_thread` with a job: what it does to the spool, and what becomes of the job. -/
def printJob (c : Spooler T) (id : Nat) (req : PrintReq) : Stage → PrinterAct → Option (Spooler T × Next)
  | .picked, .update => some (c.updateJobno, .stage .opening)
  | .opening, .openData ok =>
    if ok ∧ c.data id ≠ none then some (c, .stage .sending) else some (c.tell (.canceled id), .free)
  | .sending, .send ok =>
    if ok then some (c.tell (.printed id req ((c.data id).getD [])), .stage .unlinkData)
    else some (c, .stage .deferring)
  | .unlinkData, .unlink => some (c.setData id none, .stage .unlinkReq)
  | .unlinkReq, .unlink => some (c.setReq id none, .free)
  | .deferring, .replace => some (c, .replace)
  | _, _ => none

/-! ## The queue -/

/-- `struct job` -/
structure Job where
  next  : Option Nat
  prev  : Option Nat
  jobid : Nat
  req   : PrintReq

structure State (T : Type) where
  core    : Spooler T
  heap    : Nat → Option Job
  jobhead : Option Nat
  jobtail : Option Nat
  printer : Printer Nat

namespace State

def init (T : Type) : State T :=
  { core := .init T, heap := fun _ => none, jobhead := none, jobtail := none, printer := .waiting }

def setJob (s : State T) (jp : Nat) (job : Job) : State T :=
  { s with heap := Function.update s.heap jp (some job) }

/-- `jp->next = v`; `none` where `jp` is no object. -/
def setNext (s : State T) (jp : Nat) (v : Option Nat) : Option (State T) :=
  (s.heap jp).map fun job => s.setJob jp { job with next := v }

/-- `jp->prev = v` -/
def setPrev (s : State T) (jp : Nat) (v : Option Nat) : Option (State T) :=
  (s.heap jp).map fun job => s.setJob jp { job with prev := v }

/-- `add_job`, with the object at `jp` -/
def addJob (s : State T) (jp id : Nat) (req : PrintReq) : Option (State T) :=
  let s := s.setJob jp { next := none, prev := s.jobtail, jobid := id, req := req }
  match s.jobtail with
  | none => some { s with jobhead := some jp, jobtail := some jp }
  | some t => (s.setNext t (some jp)).map fun s => { s with jobtail := some jp }

/-- `replace_job` -/
def replaceJob (s : State T) (jp : Nat) : Option (State T) := do
  let job ← s.heap jp
  let s := s.setJob jp { job with prev := none, next := s.jobhead }
  match s.jobhead with
  | none => some { s with jobtail := some jp, jobhead := some jp }
  | some h => (s.setPrev h (some jp)).map fun s => { s with jobhead := some jp }

/-- `remove_job` -/
def removeJob (s : State T) (target : Nat) : Option (State T) := do
  let job ← s.heap target
  let s ← match job.next with
    | some n => s.setPrev n job.prev
    | none => some { s with jobtail := job.prev }
  match job.prev with
  | some p => s.setNext p job.next
  | none => some { s with jobhead := job.next }

/-- `free(jp)` -/
def free (s : State T) (jp : Nat) : State T := { s with heap := Function.update s.heap jp none }

end State

/-- What comes of a step. -/
inductive Outcome (σ : Type) where
  | next (s : σ)
  | blocked
  /-- freed memory was touched -/
  | fault

def Outcome.ofOption {σ : Type} : Option σ → Outcome σ
  | some s => .next s
  | none => .fault

/-- The steps that touch the queue. -/
def queueStep (s : State T) : Event T → Outcome (State T)
  | .add t jp =>
    match s.core.pc t with
    | .adding id req =>
      if s.heap jp = none then
        .ofOption ({ s with core := (s.core.tell (.queued id)).goto t .idle }.addJob jp id req)
      else .blocked
    | _ => .blocked
  | .requeue jp =>
    match s.core.main with
    | .building (id :: todo) =>
      match s.core.reqs id with
      | some (some req) =>
        if s.heap jp = none then
          let core := { s.core with main := .building todo }.tell (.queued id)
          .ofOption ({ s with core := core }.addJob jp id req)
        else .blocked
      | _ => .blocked
    | _ => .blocked
  | .pickup =>
    match s.printer, s.jobhead with
    | .waiting, some jp =>
      .ofOption ((s.removeJob jp).map fun s => { s with printer := .holds jp .picked })
    | _, _ => .blocked
  | .printer a =>
    match s.printer with
    | .waiting => .blocked
    | .holds jp st =>
      match s.heap jp with
      | none => .fault
      | some job =>
        match printJob s.core job.jobid job.req st a with
        | none => .blocked
        | some (core, .stage st) => .next { s with core := core, printer := .holds jp st }
        | some (core, .free) => .next { s.free jp with core := core, printer := .waiting }
        | some (core, .replace) => .ofOption ({ s with core := core, printer := .waiting }.replaceJob jp)
  | .crash =>
    match s.core.main with
    | .down => .blocked
    | _ => .next { State.init T with core := s.core.crashed }
  | _ => .blocked

/-- The steps of the daemon, in any order. -/
inductive Step : State T → Event T → State T → Prop
  | spool {s : State T} {e : Event T} {core : Spooler T} : Spooler.Step s.core e core →
      Step s e { s with core := core }
  | queue {s s' : State T} {e : Event T} : queueStep s e = .next s' → Step s e s'

/-- Any run of the daemon, ended and started again any number of times. -/
def Reached (s : State T) : Prop := ∃ tr, Runs.Run Step (State.init T) tr s

end

end Printd
