import Mathlib.Data.Finset.Insert
import Mathlib.Data.Finset.Erase
import Mathlib.Data.Finset.Lattice.Fold
import Mathlib.Order.Nat
import ApueToyCodes.Lib.CStr

/-!
# `OpenServer.Opend` — the open server of `lab_2` (opend.c)

The server reads a request into the buffer of `main`, splits it in place with `strtok`, opens the file it
names and answers on the socket: zero or more bytes of text, then a two-byte trailer `(0, status)`, with the
descriptor attached when the file was opened.

The globals, the buffer of `main` and the set of open descriptors are the fields of `Server`. What a
request's system calls do is an `Outcomes` record; the debugging `open(...)` calls scattered over the source
are one function `debugOpen`, told apart by their site. Pointers into the buffer are offsets. The contents
of the debug files are left out (the `write` of the pathname into one of them included): nothing reads them.
-/

namespace OpenServer
open CStr

/-- The bytes of an ASCII text. -/
def ascii (s : String) : List UInt8 := s.toList.map fun c => UInt8.ofNat c.toNat

/-- `CL_OPEN` -/
def clOpen : List UInt8 := ascii "open"

/-- `LINESIZE` -/
abbrev linesize : Nat := 4096

/-- `MAXARGC` -/
abbrev maxargc : Nat := 50

/-- `WHITE` -/
def white : List UInt8 := ascii " \t\n"

/-- `O_RDONLY` -/
abbrev oRdonly : Int := 0

/-! ## The world around the server -/

/-- What the host fixes: the number given to a new descriptor, and what `snprintf` makes of the undefined
    conversion `%*.*\n` for its arguments. -/
structure Host where
  pick : Finset Nat → Nat
  pick_fresh : ∀ fds, pick fds ∉ fds
  badConversion : Nat → List UInt8 → List UInt8

theorem exists_free (fds : Finset Nat) : ∃ fd, fd ∉ fds := by
  refine ⟨fds.sup id + 1, fun h => ?_⟩
  have : fds.sup id + 1 ≤ fds.sup id := Finset.le_sup (f := id) h
  omega

/-- A host that hands out the lowest descriptor free and prints nothing for the undefined conversion. -/
def posix : Host where
  pick fds := Nat.find (exists_free fds)
  pick_fresh fds := Nat.find_spec (exists_free fds)
  badConversion _ _ := []

/-- The places of the debugging `open` calls, by file and, where a file is opened in two places, by
    function. -/
inductive Site where
  | ooooo | aaa | oooooFailed | yyyyy | bbbb | ddddd | cccc | yyyy | xxxxx | zzzz
deriving DecidableEq

/-- What the system calls made for one request do: which debugging `open`s succeed, whether the requested
    file opens, whether `malloc` does, how many bytes `write` and `sendmsg` can pass on (`none` is an
    error). -/
structure Outcomes where
  debug     : Site → Bool
  requested : Bool
  malloc    : Bool
  write     : Option Nat
  sendmsg   : Option Nat

/-- The process: the buffer of `main`, the globals (`errmsg` as the C string it holds, `cmptr` as whether it
    is allocated), and the descriptors open. -/
structure Server where
  buf      : List UInt8
  errmsg   : List UInt8
  oflags   : Int
  pathname : Option Nat
  cmptr    : Bool
  fds      : Finset Nat

/-- What one `write` or `sendmsg` puts on the socket. -/
structure Packet where
  bytes  : List UInt8
  rights : Option Nat
deriving DecidableEq

section
variable (H : Host) (o : Outcomes)

/-- One of the debugging `open(...)` calls; its result is kept nowhere. -/
def debugOpen (site : Site) (s : Server) : Server :=
  if o.debug site then { s with fds := insert (H.pick s.fds) s.fds } else s

/-- `snprintf(errmsg, LINESIZE-1, ...)` of a text: cut at a NUL and to the space there is. -/
def snprintf (text : List UInt8) : List UInt8 := (text.takeWhile (· != 0)).take (linesize - 2)

/-- The packet a transfer of `k` of the bytes makes; none if nothing got through. -/
def packet (bytes : List UInt8) (rights : Option Nat) (k : Nat) : List Packet :=
  if bytes.take k = [] then [] else [⟨bytes.take k, rights⟩]

/-! ## send_fd, send_err -/

/-- The end of `send_fd`: send the two bytes. -/
def sendTrailer (trailer : List UInt8) (rights : Option Nat) (s : Server) : Int × Server × List Packet :=
  let s := debugOpen H o .xxxxx s
  match o.sendmsg with
  | none => (-1, s, [])
  | some k =>
    if min k trailer.length ≠ 2 then (-1, s, packet trailer rights k)
    else (0, debugOpen H o .zzzz s, packet trailer rights k)

/-- The status byte of an error code. -/
def statusByte (newfd : Int) : UInt8 :=
  let c := UInt8.ofInt (-newfd)
  if c = 0 then 1 else c

/-- `send_fd`. The length the source stores in the control message (`RIGHTSLEN`, which nothing defines) is
    taken to be the `CONTROLLEN` of its sibling in test.c. -/
def sendFd (newfd : Int) (s : Server) : Int × Server × List Packet :=
  let s := debugOpen H o .yyyy s
  if newfd < 0 then sendTrailer H o [0, statusByte newfd] none s
  else if s.cmptr = false ∧ o.malloc = false then (-1, s, [])
  else sendTrailer H o [0, 0] (some newfd.toNat) { s with cmptr := true }

/-- `send_err` -/
def sendErr (errcode : Int) (msg : List UInt8) (s : Server) : Int × Server × List Packet :=
  let text := (o.write.map (packet msg none)).getD []
  if msg.length > 0 ∧ (o.write.map (min msg.length)) ≠ some msg.length then (-1, s, text)
  else
    -- no error code may look like a descriptor
    let errcode := if errcode ≥ 0 then -1 else errcode
    let r := sendFd H o errcode s
    (if r.1 < 0 then -1 else 0, r.2.1, text ++ r.2.2)

/-! ## cli_args, buf_args -/

/-- The text `cli_args` leaves for a request it does not understand. -/
def usage : List UInt8 := ascii "usage: <pathname> <oflag>\n"

/-- `cli_args`. `argv[0]` is looked at only when `argc` is 3. -/
def cliArgs (argc : Nat) (argv : List (Option Nat)) (s : Server) : Int × Server :=
  if argc ≠ 3 ∨ ((argv.getD 0 none).map (cstr s.buf)) ≠ some clOpen then (-1, { s with errmsg := usage })
  else
    let s := debugOpen H o .bbbb s
    let s := { s with pathname := argv.getD 1 none }
    let s := debugOpen H o .ddddd s
    -- the flags of the request are not looked at
    let s := { s with oflags := oRdonly }
    let s := debugOpen H o .cccc s
    (0, s)

/-- The loop of `buf_args`. The bound on `argc` ends it, so `maxargc` turns are enough. -/
def bufArgsLoop : Nat → List UInt8 → Nat → Nat → List (Option Nat) →
    Option (Nat × List (Option Nat)) × List UInt8
  | 0,        buf, _,    _,    _    => (none, buf)
  | fuel + 1, buf, save, argc, argv =>
    match strtok white buf save with
    | (none, buf, _) => (some (argc, argv), buf)
    | (some ptr, buf, save) =>
      if argc + 1 ≥ maxargc - 1 then (none, buf)
      else bufArgsLoop fuel buf save (argc + 1) (argv ++ [some ptr])

/-- `buf_args` on the buffer of `main`. `argv` lists the slots filled so far; the final
    `argv[argc++] = NULL` overwrites the last of them. -/
def bufArgs (userfunc : Nat → List (Option Nat) → Server → Int × Server) (s : Server) : Int × Server :=
  match strtok white s.buf 0 with
  | (none, buf, _) => (-1, { s with buf := buf })
  | (some _, buf, save) =>
    -- `argv[0]` is the buffer, not the token
    match bufArgsLoop maxargc buf save 0 [some 0] with
    | (none, buf) => (-1, { s with buf := buf })
    | (some (argc, argv), buf) => userfunc (argc + 1) (argv.set argc none) { s with buf := buf }

/-! ## handler_request, main -/

/-- `handler_request` for a request it refuses: the text in `errmsg`. -/
def refuse (s : Server) : Server × List Packet := (sendErr H o (-1) s.errmsg s).2

/-- The rest of `handler_request` once the arguments are known. -/
def openRequested (s : Server) : Server × List Packet :=
  let s := debugOpen H o .aaa s
  if o.requested then
    let newfd := H.pick s.fds
    let s := { s with fds := insert newfd s.fds }
    let r := sendFd H o newfd s
    if r.1 < 0 then r.2 -- `newfd` stays open
    else
      let s := debugOpen H o .yyyyy r.2.1
      ({ s with fds := s.fds.erase newfd }, r.2.2)
  else
    let s := debugOpen H o .oooooFailed s
    let path := (s.pathname.map (cstr s.buf)).getD []
    refuse H o { s with errmsg := snprintf (ascii "can't open " ++ path ++ ascii " \n") }

/-- `handler_request` -/
def handlerRequest (nread : Nat) (s : Server) : Server × List Packet :=
  if s.buf.getD (nread - 1) 0 ≠ 0 then
    refuse H o { s with errmsg := snprintf (ascii "request not null terminated: "
      ++ H.badConversion nread (s.buf.take nread)) }
  else
    let r := bufArgs (cliArgs H o) (debugOpen H o .ooooo s)
    if r.1 < 0 then refuse H o r.2 else openRequested H o r.2

/-- `read` into the buffer of `main`: what is behind the request stays there. -/
def receive (req : List UInt8) (s : Server) : Server := { s with buf := req ++ s.buf.drop req.length }

end

/-- A request as `read` returns it. -/
def Readable (req : List UInt8) : Prop := req ≠ [] ∧ req.length ≤ linesize

/-- One turn of the loop of `main`. -/
def serve (H : Host) (s : Server) (call : List UInt8 × Outcomes) : Server × List Packet :=
  handlerRequest H call.2 call.1.length (receive call.1 s)

/-- The server after a sequence of requests. -/
def serveAll (H : Host) (s : Server) (calls : List (List UInt8 × Outcomes)) : Server :=
  calls.foldl (fun s call => (serve H s call).1) s

@[simp] theorem serveAll_nil (H : Host) (s : Server) : serveAll H s [] = s := rfl

@[simp] theorem serveAll_cons (H : Host) (s : Server) (call : List UInt8 × Outcomes)
    (calls : List (List UInt8 × Outcomes)) :
    serveAll H s (call :: calls) = serveAll H (serve H s call).1 calls := rfl

/-- A server that has served nothing: nothing in `errmsg`, no control message allocated. -/
def Started (s : Server) : Prop := s.buf.length = linesize ∧ s.errmsg = [] ∧ s.cmptr = false

/-- A server just started, with the standard descriptors open. -/
def started : Server where
  buf := List.replicate linesize 0
  errmsg := []
  oflags := 0
  pathname := none
  cmptr := false
  fds := {0, 1, 2}

theorem started_started : Started started := ⟨List.length_replicate, rfl, rfl⟩

/-- Every system call succeeds. -/
def allSucceed : Outcomes where
  debug _ := true
  requested := true
  malloc := true
  write := some linesize
  sendmsg := some 2

end OpenServer
