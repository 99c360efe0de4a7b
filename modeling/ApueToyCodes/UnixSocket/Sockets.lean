import Mathlib.Data.Nat.Digits.Defs
import Mathlib.Data.Int.Order.Basic
import ApueToyCodes.Lib.FdTrace
import ApueToyCodes.OpenServer.Opend

/-!
# `UnixSocket.Sockets` — the UNIX-domain socket helpers of `lab_2` (test1.c)

`serv_listen`, `serv_accept` and `cli_conn`. What their system calls and `malloc` do is a record for each
function; a descriptor the kernel creates is any number. A function's result is its value and what it did
with descriptors, memory and paths, in order. `errno`, which the functions save and restore around their
cleanup, is left out, as are the contents of the addresses beyond the path.
-/

namespace UnixSocket
open OpenServer (ascii)

/-- What a function does to the world. -/
inductive Event where
  | fd (e : FdTrace.Event Int)
  | malloc
  | free
  | bind (path : List UInt8) (ok : Bool)
  | unlink (path : List UInt8)
deriving DecidableEq

abbrev created (fd : Int) : Event := .fd (.created fd)

abbrev closed (fd : Int) : Event := .fd (.closed fd)

/-- What a sequence of events does with descriptors. -/
def fdEvents (es : List Event) : List (FdTrace.Event Int) :=
  es.filterMap fun | .fd e => some e | _ => none

/-- The value of a function, and what it did. -/
structure Result where
  ret    : Int
  events : List Event

/-- `sizeof(un.sun_path)` -/
abbrev sunPath : Nat := 108

/-! ## serv_listen -/

/-- The system calls of `serv_listen`: the descriptor of `socket`, if it succeeds, and whether `bind` and
    `listen` do. -/
structure ListenCalls where
  socket : Option Int
  bind   : Bool
  listen : Bool

/-- `serv_listen` -/
def servListen (name : List UInt8) (o : ListenCalls) : Result :=
  if name.length ≥ sunPath then ⟨-1, []⟩
  else
    match o.socket with
    | none => ⟨-2, []⟩
    | some fd =>
      if o.bind = false then ⟨-3, [created fd, .bind name false, closed fd]⟩
      else if o.listen = false then ⟨-4, [created fd, .bind name true, closed fd]⟩
      else ⟨fd, [created fd, .bind name true]⟩

/-! ## serv_accept -/

/-- The fields of `struct stat` that are looked at. -/
structure Stat where
  mode  : Nat
  ctime : Int
  mtime : Int
  atime : Int
  uid   : Nat

/-- `S_ISSOCK` -/
def sIsSock (mode : Nat) : Bool := mode &&& 0o170000 = 0o140000

/-- `S_IRWXG|S_IRWXO` -/
abbrev sIrwxgo : Nat := 0o77

/-- `S_IRWXU` -/
abbrev sIrwxu : Nat := 0o700

/-- `STALE` -/
abbrev stale : Int := 30

/-- The calls of `serv_accept`: whether `malloc` succeeds, the descriptor and the peer's path `accept`
    returns, what `stat` says of the path, and the time. -/
structure AcceptCalls where
  malloc : Bool
  accept : Option (Int × List UInt8)
  stat   : Option Stat
  time   : Int

/-- The end of `serv_accept` at `ERROR`. -/
def acceptError (rval newfd : Int) (es : List Event) : Result := ⟨rval, es ++ [closed newfd, .free]⟩

/-- `serv_accept`, and the value stored at `uidptr` if it is not `NULL`. The condition is
    `newfd=accept(...)<0`, so that `newfd` is the outcome of the comparison, 0 or 1. -/
def servAccept (o : AcceptCalls) : Result × Option Nat :=
  if o.malloc = false then (⟨-1, []⟩, none)
  else
    match o.accept with
    | none => (⟨-2, [.malloc, .free]⟩, none) -- `newfd` is 1
    | some (fd, name) =>
      let newfd : Int := 0
      let es := [.malloc, created fd]
      match o.stat with
      | none => (acceptError (-3) newfd es, none)
      | some statbuf =>
        let staletime := o.time - stale
        if sIsSock statbuf.mode = false then (acceptError (-4) newfd es, none)
        else if statbuf.mode &&& sIrwxgo ≠ 0 ∨ statbuf.mode &&& sIrwxu ≠ sIrwxu then
          (acceptError (-5) newfd es, none)
        else if statbuf.ctime < staletime ∨ statbuf.mtime < staletime ∨ statbuf.atime < staletime then
          (acceptError (-6) newfd es, none)
        else (⟨newfd, es ++ [.unlink name, .free]⟩, some statbuf.uid)

/-! ## cli_conn -/

/-- The path `cli_conn` gives its own end: `CLI_PATH` and the process id in at least five digits. -/
def ownPath (pid : Nat) : List UInt8 :=
  let digits := (Nat.toDigits 10 pid).map fun c => UInt8.ofNat c.toNat
  ascii "/var/tmp/" ++ (List.replicate (5 - digits.length) 48 ++ digits)

/-- The system calls of `cli_conn`. -/
structure ConnCalls where
  pid     : Nat
  socket  : Option Int
  bind    : Bool
  chmod   : Bool
  connect : Bool

/-- `cli_conn` -/
def cliConn (name : List UInt8) (o : ConnCalls) : Result :=
  if name.length ≥ sunPath then ⟨-1, []⟩
  else
    match o.socket with
    | none => ⟨-1, []⟩
    | some fd =>
      let path := ownPath o.pid
      if o.bind = false then ⟨-2, [created fd, .unlink path, .bind path false, closed fd]⟩
      else if o.chmod = false then ⟨-3, [created fd, .unlink path, .bind path true, closed fd, .unlink path]⟩
      else if o.connect = false then
        ⟨-4, [created fd, .unlink path, .bind path true, closed fd, .unlink path]⟩
      else ⟨fd, [created fd, .unlink path, .bind path true]⟩

end UnixSocket
