import ApueToyCodes.Lib.FdTrace
import ApueToyCodes.OpenServer.Opend

/-!
# `Popen.MyPopen` — commands behind a stream, in `lab_1` (test4.c)

`my_popen`, and the file's own `fclose`, which takes the place of the library's. `childpid` holds the child
behind each descriptor, 0 for none; it is allocated by the first call. The outcomes of the system calls are
a record; a stream is known by its descriptor.
-/

namespace Popen
open OpenServer (ascii)

/-- `open_max()` -/
abbrev openMax : Nat := 256

/-- `STDIN_FILENO` -/
abbrev stdinFileno : Nat := 0

/-- `STDOUT_FILENO` -/
abbrev stdoutFileno : Nat := 1

/-- `EOF` -/
abbrev eof : Int := -1

/-- The process id of a child, as `fork` returns it to the parent. -/
abbrev Pid := {pid : Nat // 0 < pid}

/-- `FILE` -/
structure File where
  fileno : Nat
deriving DecidableEq

/-! ## The table -/

/-- The file's variables `maxfd` and `childpid`. -/
structure Globals where
  maxfd     : Nat
  childpid  : Option (List Nat)
  length_eq : ∀ table, childpid = some table → table.length = maxfd

/-- The variables when the program starts. -/
def Globals.start : Globals where
  maxfd := 0
  childpid := none
  length_eq := by
    intro _ h
    contradiction

/-- The entry of a descriptor; without a table there is none. -/
def Globals.pid (g : Globals) (fd : Nat) : Nat := (g.childpid.getD []).getD fd 0

/-- `maxfd=open_max()`, and the table of zeros `calloc` returns, if it does. -/
def Globals.allocate (calloc : Bool) : Globals where
  maxfd := openMax
  childpid := if calloc then some (List.replicate openMax 0) else none
  length_eq := by
    intro table h
    cases calloc with
    | false => contradiction
    | true =>
        obtain rfl := Option.some.inj h
        exact List.length_replicate

/-- The table, allocated if it is not there yet. -/
def Globals.withTable (g : Globals) (calloc : Bool) : Globals :=
  if g.childpid.isNone then .allocate calloc else g

/-- `childpid[fd]=pid` -/
def Globals.setPid (g : Globals) (fd : Nat) (pid : Nat) : Globals where
  maxfd := g.maxfd
  childpid := g.childpid.map (·.set fd pid)
  length_eq := by
    intro table h
    obtain ⟨table', h', rfl⟩ := Option.map_eq_some_iff.mp h
    rw [List.length_set]
    exact g.length_eq table' h'

/-! ## my_popen -/

/-- What a call does to the world. -/
inductive Event where
  | fd (e : FdTrace.Event Nat)
  | dup2 (old new : Nat)
  | printed (text : List UInt8)
  | execl (path : List UInt8) (args : List (List UInt8))
deriving DecidableEq

abbrev created (fd : Nat) : Event := .fd (.created fd)

abbrev closed (fd : Nat) : Event := .fd (.closed fd)

/-- What a sequence of events does with descriptors. -/
def fdEvents (es : List Event) : List (FdTrace.Event Nat) :=
  es.filterMap fun | .fd e => some e | _ => none

/-- The value of `fork`: -1, 0 in the child, its process id in the parent. -/
inductive Fork where
  | error
  | child
  | parent (pid : Pid)

/-- The outcomes of the calls: whether `calloc`, `fdopen` and `execl` succeed, the two ends of the pipe, and
    the value of `fork`. -/
structure PopenCalls where
  calloc : Bool
  pipe   : Option (Nat × Nat)
  fork   : Fork
  fdopen : Bool
  execl  : Bool

/-- How `my_popen` ends. -/
inductive Ending where
  /-- it returns, `NULL` or a stream -/
  | returned (fp : Option File)
  /-- the process has become the shell -/
  | shell
deriving DecidableEq

/-- The end of a call, what it did, and the variables it leaves. -/
structure Popened where
  ending  : Ending
  events  : List Event
  globals : Globals

/-- `(type[0]!='r'||type[0]!='w')&&type[1]!=0`, if the bytes it reads are there. -/
def badMode (type : List UInt8) : Option Bool := do
  let c ← type[0]?
  if c ≠ 114 ∨ c ≠ 119 then
    let c' ← type[1]?
    return c' ≠ 0
  else return false

/-- The child: its end of the pipe becomes a standard stream, the descriptors of other streams are closed, and
    the shell runs the command. -/
def popenChild (cmd : List UInt8) (forRead : Bool) (r w : Nat) (execl : Bool) (g : Globals) : Popened :=
  let ends :=
    if forRead then
      closed r :: if w ≠ stdoutFileno then [.dup2 w stdoutFileno, closed w] else []
    else closed w :: if r ≠ stdinFileno then [.dup2 r stdinFileno, closed r] else []
  let others := ((List.range g.maxfd).filter fun i => g.pid i > 0).map closed
  let exec := Event.execl (ascii "/bin/bash") [ascii "bash", ascii "-c", cmd]
  if execl then ⟨.shell, ends ++ others ++ [exec], g⟩
  else ⟨.returned none, ends ++ others ++ [exec, .printed (ascii "exexl error\n")], g⟩

/-- The parent: the other end is closed, and the stream is remembered with the child. -/
def popenParent (forRead : Bool) (r w : Nat) (pid : Pid) (fdopen : Bool) (g : Globals) : Popened :=
  let kept := if forRead then r else w
  let es := [closed (if forRead then w else r)]
  if fdopen = false then ⟨.returned none, es, g⟩
  else ⟨.returned (some ⟨kept⟩), es, g.setPid kept pid⟩

/-- `my_popen` from `pipe` on. -/
def popenPipe (cmd : List UInt8) (forRead : Bool) (o : PopenCalls) (g : Globals) : Popened :=
  match o.pipe with
  | none => ⟨.returned none, [.printed (ascii "pipe error\n")], g⟩
  | some (r, w) =>
    if r ≥ g.maxfd ∨ w ≥ g.maxfd then ⟨.returned none, [created r, created w, closed r, closed w], g⟩
    else
      let after := fun p : Popened => { p with events := [created r, created w] ++ p.events }
      match o.fork with
      | .error => after ⟨.returned none, [.printed (ascii "fork error\n")], g⟩
      | .child => after (popenChild cmd forRead r w o.execl g)
      | .parent pid => after (popenParent forRead r w pid o.fdopen g)

/-- `my_popen`, if it reads no byte outside `type`. -/
def myPopen (cmd type : List UInt8) (o : PopenCalls) (g : Globals) : Option Popened := do
  if ← badMode type then return ⟨.returned none, [], g⟩
  let g := g.withTable o.calloc
  if g.childpid.isNone then return ⟨.returned none, [], g⟩
  return popenPipe cmd (type[0]? = some 114) o g

/-! ## fclose -/

/-- `fclose`, with what `waitpid` reports of each child (`none` is an error). The library's function has this
    name too, so that the call inside is a call of this function; the fuel counts the calls that may be
    open. -/
def fclose (waitpid : Nat → Option Int) (g : Globals) (fp : File) : Nat → Option Int
  | 0        => none
  | fuel + 1 =>
    if g.childpid.isNone then some (-1)
    else
      let fd := fp.fileno
      if fd ≥ g.maxfd then some (-1)
      else
        match fclose waitpid g fp fuel with
        | none => none
        | some v =>
          if v = eof then some (-1)
          else
            let pid := g.pid fd
            if pid = 0 then some (-1)
            else
              match waitpid pid with
              | none => some (-1)
              | some status => some status

end Popen
