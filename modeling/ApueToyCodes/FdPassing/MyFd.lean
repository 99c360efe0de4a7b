import ApueToyCodes.OpenServer.Opend

/-!
# `FdPassing.MyFd` — passing descriptors in `lab_1` (test5.c)

`my_send_fd` sends two bytes, a NUL and a status, with a descriptor attached where the status is 0.
`my_recv_fd` receives into a buffer of its own, which keeps the bytes of earlier contents behind the received
ones, and scans it for the NUL. The misspelt fields of `struct msghdr` and `CMSG_DATA` are taken for the ones
meant.
-/

namespace FdPassing
open OpenServer (statusByte)

/-- `BUFFERSIZE` -/
abbrev bufferSize : Nat := 4096

/-- `CONTROLLEN`: `CMSG_LEN` of an `int` and of the credentials. -/
abbrev controllen : Nat := 48

/-! ## my_send_fd -/

/-- What `sendmsg` is given: the bytes, and the descriptor in the control message. -/
structure SendMsg where
  bytes  : List UInt8
  rights : Option Int
deriving DecidableEq

/-- The message `my_send_fd` builds for a descriptor or a negative code. -/
def reply (fdToSend : Int) : SendMsg :=
  if fdToSend < 0 then ⟨[0, statusByte fdToSend], none⟩ else ⟨[0, 0], some fdToSend⟩

/-- `my_send_fd`: its value, and what it hands to `sendmsg`. `mem` is whether the control message is there or
    `malloc` succeeds, `sendmsg` is the value of the system call. -/
def mySendFd (mem : Bool) (sendmsg : Int) (fdToSend : Int) : Int × Option SendMsg :=
  if 0 ≤ fdToSend ∧ mem = false then (-1, none)
  else (if sendmsg ≠ 2 then -1 else 0, some (reply fdToSend))

/-! ## my_recv_fd -/

/-- What one `recvmsg` returns: the bytes, the length of the control message, and the `int` in its data. -/
structure RecvMsg where
  bytes      : List UInt8
  controllen : Nat
  data       : Int

/-- How the loop over the buffer ends. -/
inductive Scan where
  /-- a byte behind the buffer was read -/
  | outOfBounds
  /-- `return -1` -/
  | fail
  /-- the loop ended with these values -/
  | done (nr status newfd : Int)
deriving DecidableEq

/-- The loop over the buffer: how it ends, and the indices it reads. The list is the buffer from `ptr` on. -/
def scan (msg : RecvMsg) : List UInt8 → Nat → Int → Int → Int → Scan × List Nat
  | [],        ptr, nr, status, newfd =>
    if (ptr : Int) ≠ nr then (.outOfBounds, [ptr]) else (.done nr status newfd, [])
  | c :: rest, ptr, nr, status, newfd =>
    if (ptr : Int) ≠ nr then
      if c = 0 then
        if ((ptr + 1 : Nat) : Int) ≠ nr - 1 then (.fail, [ptr])
        else
          match rest.head? with
          | none => (.outOfBounds, [ptr, ptr + 1])
          | some b =>
            -- the status is looked at without moving the cursor, and `nr` loses two
            if b = 0 then
              if msg.controllen < controllen then (.fail, [ptr, ptr + 1])
              else
                let r := scan msg rest (ptr + 1) (nr - 2) 0 msg.data
                (r.1, ptr :: (ptr + 1) :: r.2)
            else
              let r := scan msg rest (ptr + 1) (nr - 2) b.toNat (-b.toNat)
              (r.1, ptr :: (ptr + 1) :: r.2)
      else
        let r := scan msg rest (ptr + 1) nr status newfd
        (r.1, ptr :: r.2)
    else (.done nr status newfd, [])

/-- How `my_recv_fd` ends. -/
inductive Ending where
  | returned (v : Int)
  /-- waiting for another message -/
  | blocked
  | outOfBounds
deriving DecidableEq

/-- The end of `my_recv_fd`: the results of `recvmsg` it has not asked for, the bytes handed to `userfunc`,
    and whether every byte it read was below the received length. -/
structure Received where
  ending : Ending
  left   : List (Option RecvMsg)
  handed : List UInt8
  inside : Bool

/-- The loop of `my_recv_fd` over the results of `recvmsg` (`none` is an error), with the buffer, `status` and
    `newfd` as the turn before left them. -/
def recvLoop (userfunc : List UInt8 → Int) :
    List (Option RecvMsg) → List UInt8 → Int → Int → List UInt8 → Bool → Received
  | [],               _,   _,      _,     handed, inside => ⟨.blocked, [], handed, inside⟩
  | none :: left,     _,   _,      _,     handed, inside => ⟨.returned (-1), left, handed, inside⟩
  | some msg :: left, buf, status, newfd, handed, inside =>
    if msg.bytes.length = 0 then ⟨.returned (-1), left, handed, inside⟩
    else
      let buf := msg.bytes ++ buf.drop msg.bytes.length
      let r := scan msg buf 0 msg.bytes.length status newfd
      let inside := inside && r.2.all fun i => i < msg.bytes.length
      match r.1 with
      | .outOfBounds => ⟨.outOfBounds, left, handed, inside⟩
      | .fail => ⟨.returned (-1), left, handed, inside⟩
      | .done nr status newfd =>
        let text := if nr > 0 then buf.take nr.toNat else []
        if nr > 0 ∧ userfunc text ≠ nr then ⟨.returned (-1), left, handed ++ text, inside⟩
        else if status > 0 then ⟨.returned newfd, left, handed ++ text, inside⟩
        else recvLoop userfunc left buf status newfd (handed ++ text) inside

/-- `my_recv_fd`, with the contents its buffer happens to have. `newfd` has no value at first; it is not used
    before it gets one. -/
def myRecvFd (userfunc : List UInt8 → Int) (mem : Bool) (buf : List UInt8) (msgs : List (Option RecvMsg)) :
    Received :=
  if mem = false then ⟨.returned (-1), msgs, [], true⟩
  else recvLoop userfunc msgs buf (-1) 0 [] true

end FdPassing
