import ApueToyCodes.Lib.CInt
import ApueToyCodes.OpenServer.Csopen

/-!
# `OpenServer.ServerStart` — how the client of `lab_2` (test.c) starts its server

`csopen` keeps a pair of descriptors between its calls. While the first is negative there is no server, and
the call makes a socket pair, forks a child that becomes the server with one end as its standard input and
output, and keeps the other end. `csopen` is followed here in the parent; what the child does until it
executes the server is left out.
-/

namespace OpenServer
open CInt

/-- The client between two calls: the static pair `fd`, whether `cmptr` is allocated, the descriptors open,
    and those whose other end a child forked as server has. -/
structure Client where
  fd     : Int × Int
  cmptr  : Bool
  fds    : Finset Int
  served : Finset Int

/-- The client before its first call. -/
def Client.initial (fds : Finset Int) : Client := ⟨(-1, -1), false, fds, ∅⟩

/-- A call of `csopen` and what its system calls do: the pair `socketpair` makes, the process `fork` starts,
    the value of `writev`, the calls of `recv_fd`. -/
structure Call where
  name       : List UInt8
  oflag      : Int
  socketpair : Option (Int × Int)
  fork       : Option Nat
  writev     : Int
  recv       : RecvCalls

/-- The part of `csopen` that starts the server; `false` where it returns -1. -/
def startServer (c : Call) (s : Client) : Bool × Client :=
  if s.fd.1 < 0 then
    match c.socketpair with
    | none => (false, s)
    | some (a, b) =>
      let s := { s with fd := (a, b), fds := insert b (insert a s.fds) }
      match c.fork with
      | none => (false, s)
      | some _ => (true, { s with served := insert a s.served, fds := s.fds.erase b })
  else (true, s)

/-- `csopen`: how it ends, the client after it, and the descriptor `writev` was called with, if it was. -/
def csopen (write : List UInt8 → Int) (c : Call) (s : Client) : Received × Client × Option Int :=
  match startServer c s with
  | (false, s) => (.returned (-1) c.recv.chunks [], s, none)
  | (true, s) =>
    match csopenRequest c.name c.oflag with
    | none => (.outOfBounds, s, none)
    | some req =>
      if c.writev ≠ toInt32 req.length then (.returned (-1) c.recv.chunks [], s, some s.fd.1)
      else
        let r := recvFd write c.recv s.cmptr
        (r.1, { s with cmptr := r.2 }, some s.fd.1)

end OpenServer
