import ApueToyCodes.Lib.Channels

/-!
# `TellWait.Pipes` — parent and child synchronised over two pipes (`lab_1`, test4.c)

`WAIT` makes two pipes before the fork. `TELL_CHILD` and `TELL_PARENT` write one byte to a pipe of their
own, `WAIT_PARENT` and `WIAT_CHILD` (the source's spelling) read one byte and check it. The pipes are byte
queues; a `read` on an empty pipe blocks, that is, no step reads from it. Any `read` or `write` may also
fail, and the process then prints a text and exits.

The four functions have two shapes, `Code`. Each process calls its two functions in any order and any number
of times, and `Step` interleaves the two processes at their system calls.
-/

namespace TellWait

/-- `fd1` and `fd2`: two pipes. -/
inductive Pipe where
  | fd1 | fd2
deriving DecidableEq

/-- The body of a function: read a byte and compare it, or write a byte. -/
inductive Code where
  | wait (fd : Pipe) (c : UInt8) (error : String)
  | tell (fd : Pipe) (c : UInt8)
deriving DecidableEq

/-- `WAIT_PARENT` -/
def waitParent : Code := .wait .fd1 'p'.toUInt8 "wait_parent error\n"

/-- `TELL_CHILD` -/
def tellChild : Code := .tell .fd1 'p'.toUInt8

/-- `WIAT_CHILD` -/
def wiatChild : Code := .wait .fd2 'c'.toUInt8 "wait_child error\n"

/-- `TELL_PARENT` -/
def tellParent : Code := .tell .fd2 'c'.toUInt8

inductive Party where
  | parent | child
deriving DecidableEq

/-- The functions a process calls. -/
def Party.calls : Party → List Code
  | .parent => [tellChild, wiatChild]
  | .child  => [tellParent, waitParent]

/-- Where a process stands. -/
inductive Proc where
  | idle
  /-- in a call, at its `read` or `write` -/
  | called (f : Code)
  /-- `read` has delivered the byte -/
  | checking (f : Code) (c : UInt8)
  /-- `write` has written its byte -/
  | told (f : Code)
  | exited (code : Int)
deriving DecidableEq

/-- What a process does. -/
inductive Event where
  | call (f : Code)
  | read (fd : Pipe) (c : UInt8)
  | write (fd : Pipe) (c : UInt8)
  | ret (f : Code)
  | exit (text : String) (code : Int)
deriving DecidableEq

structure Sys where
  queue : Pipe → List UInt8
  proc  : Party → Proc

/-- `WAIT`, then `fork`: `made` says which `pipe` calls succeed, `none` is the exit of `WAIT`. -/
def wait (made : Pipe → Bool) : Option Sys :=
  if made .fd1 ∧ made .fd2 then some ⟨fun _ => [], fun _ => .idle⟩ else none

/-- Process `w` moves on to `p`. -/
def Sys.setProc (s : Sys) (w : Party) (p : Proc) : Sys := { s with proc := Function.update s.proc w p }

def Sys.setQueue (s : Sys) (fd : Pipe) (q : List UInt8) : Sys :=
  { s with queue := Function.update s.queue fd q }

/-- One step of one process. -/
inductive Step : Sys → Party × Event → Sys → Prop
  | call {s : Sys} {w : Party} {f : Code} :
      s.proc w = .idle → f ∈ w.calls → Step s (w, .call f) (s.setProc w (.called f))
  | write {s : Sys} {w : Party} {fd : Pipe} {c : UInt8} :
      s.proc w = .called (.tell fd c) →
      Step s (w, .write fd c) ((s.setQueue fd (s.queue fd ++ [c])).setProc w (.told (.tell fd c)))
  | writeError {s : Sys} {w : Party} {fd : Pipe} {c : UInt8} :
      s.proc w = .called (.tell fd c) →
      Step s (w, .exit "write error\n" (-1)) (s.setProc w (.exited (-1)))
  | read {s : Sys} {w : Party} {fd : Pipe} {c b : UInt8} {error : String} {rest : List UInt8} :
      s.proc w = .called (.wait fd c error) → s.queue fd = b :: rest →
      Step s (w, .read fd b) ((s.setQueue fd rest).setProc w (.checking (.wait fd c error) b))
  | readError {s : Sys} {w : Party} {fd : Pipe} {c : UInt8} {error : String} :
      s.proc w = .called (.wait fd c error) →
      Step s (w, .exit "read error\n" (-1)) (s.setProc w (.exited (-1)))
  | wrong {s : Sys} {w : Party} {fd : Pipe} {c b : UInt8} {error : String} :
      s.proc w = .checking (.wait fd c error) b → b ≠ c →
      Step s (w, .exit error (-2)) (s.setProc w (.exited (-2)))
  | waited {s : Sys} {w : Party} {fd : Pipe} {c : UInt8} {error : String} :
      s.proc w = .checking (.wait fd c error) c →
      Step s (w, .ret (.wait fd c error)) (s.setProc w .idle)
  | told {s : Sys} {w : Party} {f : Code} :
      s.proc w = .told f → Step s (w, .ret f) (s.setProc w .idle)

/-- What an event does to the pipes. -/
def pipeOp : Party × Event → Channels.Op Pipe UInt8
  | (_, .read fd c)  => .take fd c
  | (_, .write fd c) => .put fd c
  | _                => .idle

/-! ## The records of a state -/

@[simp] theorem setProc_queue (s : Sys) (w : Party) (p : Proc) : (s.setProc w p).queue = s.queue := rfl

@[simp] theorem setQueue_proc (s : Sys) (fd : Pipe) (q : List UInt8) : (s.setQueue fd q).proc = s.proc := rfl

@[simp] theorem setProc_self (s : Sys) (w : Party) (p : Proc) : (s.setProc w p).proc w = p :=
  Function.update_self _ _ _

theorem setProc_of_ne {s : Sys} {w w' : Party} (h : w' ≠ w) (p : Proc) :
    (s.setProc w p).proc w' = s.proc w' := Function.update_of_ne h _ _

end TellWait
