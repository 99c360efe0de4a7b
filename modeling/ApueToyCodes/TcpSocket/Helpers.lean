import Mathlib.Data.Int.Order.Basic
import ApueToyCodes.Lib.FdTrace

/-!
# `TcpSocket.Helpers` — connecting and serving in `lab_1` (test4.c)

`connect_retry` tries to connect up to eight times, each time on a socket of its own, and sleeps in between;
`initservice` makes a socket a server's. The outcomes of the system calls are given for every attempt. A
function's result is its value and what it did with descriptors, in order. The addresses and the saved
`errno` are left out.

Neither function has the socket in its variable `fd`: the first drops the value of `socket`, so that `fd`
keeps what it happens to hold, the second assigns the outcome of a comparison.
-/

namespace TcpSocket

/-- What a function does to the world. -/
inductive Event where
  | fd (e : FdTrace.Event Int)
  | connect (fd : Int) (ok : Bool)
  | bind (fd : Int) (ok : Bool)
  | listen (fd : Int) (ok : Bool)
  | sleep (secs : Nat)
deriving DecidableEq

abbrev created (fd : Int) : Event := .fd (.created fd)

abbrev closed (fd : Int) : Event := .fd (.closed fd)

/-- What a sequence of events does with descriptors. -/
def fdEvents (es : List Event) : List (FdTrace.Event Int) :=
  es.filterMap fun | .fd e => some e | _ => none

/-- The value of a function, and what it did. -/
structure Result where
  ret    : Int
  events : List Event
deriving DecidableEq

/-! ## connect_retry -/

/-- `NUMSEC` -/
abbrev numsecMax : Nat := 128

/-- The system calls of one turn: the descriptor of `socket`, if it succeeds, and whether `connect` does. -/
structure Attempt where
  socket  : Option Int
  connect : Bool

/-- The loop of `connect_retry` from turn `k` on. -/
def connectLoop (o : Nat → Attempt) (fd : Int) : Nat → Nat → Nat → Option Result
  | 0,        _, _      => none
  | fuel + 1, k, numsec =>
    if numsec ≤ numsecMax then
      match (o k).socket with
      | none => some ⟨-1, []⟩
      | some s => -- not stored in `fd`
        if (o k).connect then some ⟨fd, [created s, .connect fd true]⟩
        else
          let pause := if numsec ≤ numsecMax / 2 then [.sleep numsec] else []
          (connectLoop o fd fuel (k + 1) (numsec * 2)).map fun r =>
            ⟨r.ret, created s :: .connect fd false :: pause ++ closed fd :: r.events⟩
    else some ⟨-1, []⟩

/-- `connect_retry`, where `fd` happens to hold the value given. `numsec` doubles, so eight turns and the test
    that ends them are enough. -/
def connectRetry (o : Nat → Attempt) (fd : Int) : Option Result := connectLoop o fd 9 0 1

/-! ## initservice -/

/-- `SOCK_STREAM` -/
abbrev sockStream : Int := 1

/-- `SOCK_SEQPACKET` -/
abbrev sockSeqpacket : Int := 5

/-- The system calls of `initservice`. -/
structure ServiceCalls where
  socket : Option Int
  bind   : Bool
  listen : Bool

/-- `initservice`. The condition is `fd=socket(...)==-1`, so that `fd` is the outcome of the comparison, 0 or
    1. -/
def initservice (type : Int) (o : ServiceCalls) : Result :=
  match o.socket with
  | none => ⟨-1, []⟩ -- `fd` is 1
  | some s =>
    let fd : Int := 0
    if o.bind = false then ⟨-1, [created s, .bind fd false, closed fd]⟩
    else if type = sockStream ∨ type = sockSeqpacket then
      if o.listen = false then ⟨-1, [created s, .bind fd true, .listen fd false, closed fd]⟩
      else ⟨fd, [created s, .bind fd true, .listen fd true]⟩
    else ⟨fd, [created s, .bind fd true]⟩

end TcpSocket
