import Mathlib.Data.Fintype.Basic
import ApueToyCodes.Rot13.Translate

/-!
# `Rot13.Aio` — copying with requests in flight (`apue.3e/advio`, rot13c2.c.in)

`main` keeps up to `NBUF` blocks going at once. It walks the buffers round and round and moves each one on from
unused to read pending to write pending, while the system works on the requests it was given and finishes them
in any order. A step is either one of the program (one buffer of the walk, or one call behind it) or the
completion of one request.

The input file does not change while it is copied, so `st_size` is its length. `off` and `numop` do not
overflow.
-/

namespace Rot13

open RecordFile Pieces

/-- `NBUF` -/
abbrev nbuf : Nat := 8

/-- `enum rwop` -/
inductive Rwop where
  | unused
  | readPending
  | writePending
deriving DecidableEq

inductive File where
  | ifd
  | ofd
deriving DecidableEq

/-- The request of a control block: what `aio_error` and `aio_return` go by. -/
inductive Request where
  | none
  | reading
  | writing
  /-- over: the values of `aio_error` and `aio_return` -/
  | done (err ret : Int)
deriving DecidableEq

/-- `struct buf`, with the fields of its `aiocb` that change. -/
structure Buf where
  op     : Rwop
  last   : Bool
  fildes : File
  offset : Nat
  nbytes : Nat
  req    : Request
  data   : List UInt8
deriving DecidableEq

inductive Pc where
  /-- at the buffer `i` of the walk -/
  | scan (i : Fin nbuf)
  /-- behind the walk: `numop == 0`? -/
  | check
  /-- in `aio_suspend` -/
  | suspended
  /-- behind the loop: `aio_fsync` -/
  | sync
  | exited (e : Exit)
deriving DecidableEq

structure State where
  off     : Nat
  numop   : Nat
  bufs    : Fin nbuf → Buf
  aiolist : Fin nbuf → Bool
  out     : List UInt8
  pc      : Pc

/-- The static `bufs`, as the loop in front of the walk leaves them. -/
def Buf.init : Buf :=
  { op := .unused, last := false, fildes := .ifd, offset := 0, nbytes := 0, req := .none,
    data := List.replicate bsz 0 }

def init : State :=
  { off := 0, numop := 0, bufs := fun _ => .init, aiolist := fun _ => false, out := [], pc := .scan 0 }

inductive Event where
  /-- the program goes on; `ok` is whether the call it makes succeeds -/
  | main (ok : Bool)
  /-- the request of buffer `i` is over -/
  | complete (i : Fin nbuf) (err ret : Int)
deriving DecidableEq

namespace State

def setBuf (s : State) (i : Fin nbuf) (b : Buf) : State := { s with bufs := Function.update s.bufs i b }

def goto (s : State) (pc : Pc) : State := { s with pc := pc }

def fail (s : State) (e : Exit) : State := s.goto (.exited e)

/-- `i++` -/
def next (s : State) (i : Fin nbuf) : State :=
  s.goto (if h : i.val + 1 < nbuf then .scan ⟨i.val + 1, h⟩ else .check)

@[simp] theorem goto_bufs (s : State) (pc : Pc) : (s.goto pc).bufs = s.bufs := rfl
@[simp] theorem goto_off (s : State) (pc : Pc) : (s.goto pc).off = s.off := rfl
@[simp] theorem goto_out (s : State) (pc : Pc) : (s.goto pc).out = s.out := rfl
@[simp] theorem goto_numop (s : State) (pc : Pc) : (s.goto pc).numop = s.numop := rfl
@[simp] theorem goto_aiolist (s : State) (pc : Pc) : (s.goto pc).aiolist = s.aiolist := rfl
@[simp] theorem goto_pc (s : State) (pc : Pc) : (s.goto pc).pc = pc := rfl

end State

section

variable (inp : List UInt8) (s : State)

/-- `case UNUSED` -/
def scanUnused (i : Fin nbuf) (b : Buf) (ok : Bool) : State :=
  if s.off < inp.length then
    let off := s.off + bsz
    let b := { b with op := .readPending, fildes := .ifd, offset := s.off,
                      last := b.last || decide (off ≥ inp.length), nbytes := bsz, req := .reading }
    if ok then
      { s.setBuf i b with off := off, aiolist := Function.update s.aiolist i true, numop := s.numop + 1 }.next i
    else s.fail (.errSys "aio_read failed")
  else s.next i

/-- `case READ_PENDING`, when the request is over. -/
def scanRead (i : Fin nbuf) (b : Buf) (err n : Int) (ok : Bool) : State :=
  if err = -1 then s.fail (.errSys "aio_error failed")
  else if err ≠ 0 then s.fail (.errExit err "read failed")
  else if n < 0 then s.fail (.errSys "aio_return failed")
  else if n ≠ bsz ∧ b.last = false then s.fail (.errQuit "short read (%d/%d)" [n, bsz])
  else
    let b := { b with data := translateFirst n.toNat b.data, op := .writePending, fildes := .ofd,
                      nbytes := n.toNat, req := .writing }
    if ok then (s.setBuf i b).next i else s.fail (.errSys "aio_write failed")

/-- `case WRITE_PENDING`, when the request is over. -/
def scanWrite (i : Fin nbuf) (b : Buf) (err n : Int) : State :=
  if err = -1 then s.fail (.errSys "aio_error failed")
  else if err ≠ 0 then s.fail (.errExit err "write failed")
  else if n < 0 then s.fail (.errSys "aio_return failed")
  else if n ≠ b.nbytes then s.fail (.errQuit "short write (%d/%d)" [n, bsz])
  else
    { s.setBuf i { b with op := .unused } with
      aiolist := Function.update s.aiolist i false, numop := s.numop - 1 }.next i

/-- The buffer `i` of the walk. -/
def scan (i : Fin nbuf) (ok : Bool) : State :=
  let b := s.bufs i
  match b.op, b.req with
  | .unused,       _             => scanUnused inp s i b ok
  | .readPending,  .done err ret => scanRead s i b err ret ok
  | .writePending, .done err ret => scanWrite s i b err ret
  -- `EINPROGRESS`
  | _,             _             => s.next i

def Request.isOver : Request → Bool
  | .done .. => true
  | _        => false

/-- A step of the program; none while `aio_suspend` sleeps, and none after `exit`. -/
def mainStep (ok : Bool) : Option State :=
  match s.pc with
  | .scan i => some (scan inp s i ok)
  | .check =>
      if s.numop = 0 then some (s.goto (if s.off ≥ inp.length then .sync else .scan 0))
      else some (s.goto .suspended)
  | .suspended =>
      if ok = false then some (s.fail (.errSys "aio_suspend failed"))
      else if ∃ i, s.aiolist i ∧ (s.bufs i).req.isOver then some (s.goto (.scan 0))
      else none
  | .sync => some (if ok then s.fail .ok else s.fail (.errSys "aio_fsync failed"))
  | .exited _ => none

def State.file : File → List UInt8
  | .ifd => inp
  | .ofd => s.out

/-- The system is done with the request of buffer `i`, with an error or with so many bytes. -/
def completeStep (i : Fin nbuf) (err ret : Int) : Option State :=
  let b := s.bufs i
  let s' := s.setBuf i { b with req := .done err ret }
  match s.pc, b.req with
  | .exited _, _ => none
  | _, .reading =>
      if err ≠ 0 ∨ ret < 0 then some s'
      else if ReadReturns (s.file inp b.fildes) b.offset b.nbytes ret then
        let bs := pread (s.file inp b.fildes) b.offset ret.toNat
        some (s.setBuf i { b with req := .done err ret, data := bs ++ b.data.drop ret.toNat })
      else none
  | _, .writing =>
      if err ≠ 0 ∨ ret < 0 then some s'
      -- `ifd` is open for reading only
      else if b.fildes = .ofd ∧ WriteReturns b.nbytes ret then
        some { s' with out := fill s.out b.offset (b.data.take ret.toNat) }
      else none
  | _, _ => none

def step : Event → Option State
  | .main ok            => mainStep inp s ok
  | .complete i err ret => completeStep inp s i err ret

end

/-- Runs of the program together with the system. -/
def RunsTo (inp : List UInt8) : State → List Event → State → Prop :=
  Runs.Run fun s e s' => step inp s e = some s'

/-- One block of `n` bytes: begun, read, translated, written. -/
def oneBlock (n : Int) : List Event :=
  List.replicate 9 (.main true) ++ .complete 0 0 n :: List.replicate 10 (.main true) ++
    .complete 0 0 n :: List.replicate 11 (.main true)

/-- One block and a second one of `n` bytes, which is read and written before the first one has been read. -/
def twoBlocks (n : Int) : List Event :=
  List.replicate 9 (.main true) ++
    .complete 1 0 n :: List.replicate 10 (.main true) ++
    .complete 1 0 n :: List.replicate 10 (.main true) ++
    .complete 0 0 bsz :: List.replicate 10 (.main true) ++
    .complete 0 0 bsz :: List.replicate 11 (.main true)

end Rot13
