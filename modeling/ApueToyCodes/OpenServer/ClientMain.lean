import ApueToyCodes.OpenServer.ServerStart

/-!
# `OpenServer.ClientMain` — the client program of `lab_2` (test.c)

`main` asks the server for the file each line of its input names, and copies the file to its output. A turn
of its loop is one function of the results of its system calls, `TurnCalls`. What is on the socket is one of
these results, so nothing is assumed about the server.
-/

namespace OpenServer
open CStr

/-- `BUFFERSIZE` of test.c -/
abbrev bufferSize : Nat := 8192

abbrev newline : UInt8 := 10

/-- How many bytes `fgets` takes: up to the end of the line, and no more than there is room for. -/
def lineLength (stdin : List UInt8) : Nat := min ((stdin.takeWhile (· != newline)).length + 1) (linesize - 1)

/-- `fgets(line, LINESIZE, stdin)`: the bytes it takes, and the input behind them. -/
def fgets (stdin : List UInt8) : Option (List UInt8 × List UInt8) :=
  if stdin = [] then none else some (stdin.take (lineLength stdin), stdin.drop (lineLength stdin))

/-- The array `line` after `fgets`. -/
def stored (got line : List UInt8) : List UInt8 := got ++ 0 :: line.drop (got.length + 1)

/-- What `read` of the file and `write` to the output do in each turn of the loop that copies: how many
    bytes they pass on at most; `none` is an error. -/
structure CopyCalls where
  read  : Nat → Option Nat
  write : Nat → Option Nat

/-- The loop that copies the file, whose bytes still to read are `rest`: whether it reaches the end of the
    file, and the output. -/
def copyLoop (c : CopyCalls) (k : Nat) (rest out : List UInt8) : Bool × List UInt8 :=
  match c.read k with
  | none => (false, out)
  | some m =>
    let buf := rest.take (min m bufferSize)
    if _hbuf : buf = [] then (true, out)
    else
      match c.write k with
      | none => (false, out)
      | some w =>
        if min w buf.length ≠ buf.length then (false, out ++ buf.take w)
        else copyLoop c (k + 1) (rest.drop buf.length) (out ++ buf)
termination_by rest.length
decreasing_by
  have hpos : 0 < (rest.take (min m bufferSize)).length := List.length_pos_iff.mpr _hbuf
  have hle := List.length_take_le' (min m bufferSize) rest
  show (rest.drop (rest.take (min m bufferSize)).length).length < rest.length
  rw [List.length_drop]
  omega

/-- The program between two turns of its loop: what `csopen` keeps, the array `line`, and the three
    streams. -/
structure Program where
  client : Client
  line   : List UInt8
  stdin  : List UInt8
  stdout : List UInt8
  stderr : List UInt8

/-- What the system calls of one turn do: those of `csopen`, whether the standard error takes what it is
    given, and those that copy the file the descriptor is for. -/
structure TurnCalls where
  socketpair : Option (Int × Int)
  fork       : Option Nat
  writev     : Int
  recv       : RecvCalls
  userfunc   : List UInt8 → Int
  contents   : List UInt8
  copy       : CopyCalls

/-- How `main` ends: with an exit status, waiting for a reply that does not come, or behind an array. -/
inductive Ending where
  | exit (status : Int)
  | waits
  | outOfBounds
deriving DecidableEq

/-- The call of `csopen` in a turn. -/
def TurnCalls.call (e : TurnCalls) (name : List UInt8) : Call :=
  ⟨name, oRdonly, e.socketpair, e.fork, e.writev, e.recv⟩

/-- What `main` does with the descriptor `csopen` returned. -/
def copyFile (e : TurnCalls) (fd : Int) (s : Program) : Program × Option Ending :=
  let fds := insert fd s.client.fds
  let r := copyLoop e.copy 0 e.contents s.stdout
  -- the descriptor is closed where the file was copied
  if r.1 then ({ s with stdout := r.2, client := { s.client with fds := fds.erase fd } }, none)
  else ({ s with stdout := r.2, client := { s.client with fds := fds } }, some (.exit (-1)))

/-- One turn of the loop of `main`. -/
def turn (e : TurnCalls) (s : Program) : Program × Option Ending :=
  match fgets s.stdin with
  | none => (s, some (.exit 0))
  | some (got, stdin) =>
    let s := { s with line := stored got s.line, stdin := stdin }
    -- the last byte of the array is looked at; behind it the source would write
    if s.line.getD (linesize - 1) 0 = newline then (s, some .outOfBounds)
    else
      let r := csopen e.userfunc (e.call (cstr s.line 0)) s.client
      let s := { s with client := r.2.1 }
      match r.1 with
      | .outOfBounds => (s, some .outOfBounds)
      | .blocked handed => ({ s with stderr := s.stderr ++ handed }, some .waits)
      | .returned fd _ handed =>
        let s := { s with stderr := s.stderr ++ handed }
        if fd < 0 then (s, some (.exit (-1))) else copyFile e fd s

/-- `main`, as far as the results of its calls are given. -/
def mainLoop : List TurnCalls → Program → Program × Option Ending
  | [],      s => (s, none)
  | e :: es, s =>
    match turn e s with
    | (s, some ending) => (s, some ending)
    | (s, none) => mainLoop es s

end OpenServer
