import Mathlib.Data.Nat.Digits.Defs
import ApueToyCodes.OpenServer.Opend

/-!
# `OpenServer.Csopen` — the client of the open server, `lab_2` (test.c)

The bytes `csopen` writes for a request, and `recv_fd`, which reads a reply chunk by chunk from `recvmsg`.
The loop over a chunk changes both its cursor and its bound; `scan` follows it with the cursor as the rest
of the chunk, and reports a read behind the received bytes.

`recv_fd` sets `SO_PASSCRED` on the socket before it reads. What `recvmsg` then stores in the control buffer
is the system's doing (`recvmsg`, `storeCmsgs`): the credentials of the sender come first, a message with
less room than its data is cut, and one with no room for its header is dropped.
-/

namespace OpenServer

/-! ## csopen -/

/-- The bytes `sprintf` makes of `%d`. -/
def decimal : Int → List UInt8
  | .ofNat n   => (Nat.toDigits 10 n).map fun c => UInt8.ofNat c.toNat
  | .negSucc n => ascii "-" ++ (Nat.toDigits 10 (n + 1)).map fun c => UInt8.ofNat c.toNat

/-- The three pieces `csopen` hands to `writev`: `open`, the name, the flags with their NUL. -/
def request (name : List UInt8) (oflag : Int) : List UInt8 :=
  ascii "open " ++ (name ++ (ascii " " ++ decimal oflag ++ [0]))

/-- The bytes `csopen(name, oflag)` writes; `none` where `sprintf` runs over the ten bytes of its buffer. -/
def csopenRequest (name : List UInt8) (oflag : Int) : Option (List UInt8) :=
  if (ascii " " ++ decimal oflag ++ [0]).length > 10 then none else some (request name oflag)

/-! ## recvmsg -/

/-- `SOL_SOCKET` -/
abbrev solSocket : Nat := 1

/-- `SCM_RIGHTS` -/
abbrev scmRights : Nat := 1

/-- `SCM_CREDENTIALS` -/
abbrev scmCredentials : Nat := 2

/-- The bytes of a `struct cmsghdr`. -/
abbrev cmsgHeader : Nat := 16

/-- `CONTROLLEN`, that is `CMSG_LEN(sizeof(int))` -/
abbrev controllen : Nat := 20

/-- `struct ucred` -/
structure Ucred where
  pid : Int
  uid : Int
  gid : Int

/-- A control message: `cmsg_level`, `cmsg_type` and the `int`s of its data. -/
structure Cmsg where
  level : Nat
  type  : Nat
  data  : List Int

/-- A piece of the stream that one `recvmsg` takes off the socket: its bytes, who sent it, and the
    descriptor that came with it, under its number in the client. -/
structure Chunk where
  bytes  : List UInt8
  cred   : Ucred
  rights : Option Int

/-- What one `recvmsg` returns, with `msg_controllen` and the control messages after it. -/
structure RecvMsg where
  bytes      : List UInt8
  controllen : Nat
  cmsgs      : List Cmsg

/-- The control messages there are for a chunk: the credentials of the sender, if the socket asks for them
    with `SO_PASSCRED`, and behind them the descriptor. -/
def Chunk.ancillary (passcred : Bool) (c : Chunk) : List Cmsg :=
  (if passcred then [⟨solSocket, scmCredentials, [c.cred.pid, c.cred.uid, c.cred.gid]⟩] else []) ++
    (c.rights.map fun fd => ⟨solSocket, scmRights, [fd]⟩).toList

/-- The control messages as they are stored in `room` bytes, and the bytes used. Each takes the room of its
    `CMSG_SPACE`, or all there is left. -/
def storeCmsgs : Nat → List Cmsg → List Cmsg × Nat
  | _,    [] => ([], 0)
  | room, cm :: cmsgs =>
    if room < cmsgHeader then ([], 0)
    else
      let data := cm.data.take ((room - cmsgHeader) / 4)
      let used := min (cmsgHeader + (4 * cm.data.length + 7) / 8 * 8) room
      let r := storeCmsgs (room - used) cmsgs
      (⟨cm.level, cm.type, data⟩ :: r.1, used + r.2)

/-- `recvmsg` with a control buffer of `room` bytes. -/
def recvmsg (passcred : Bool) (room : Nat) (c : Chunk) : RecvMsg :=
  let stored := storeCmsgs room (c.ancillary passcred)
  ⟨c.bytes, stored.2, stored.1⟩

/-- **What `recv_fd` finds in its control buffer**: the credentials fill it, with or without a descriptor
    behind them. -/
theorem recvmsg_passcred (c : Chunk) :
    recvmsg true controllen c = ⟨c.bytes, controllen, [⟨solSocket, scmCredentials, [c.cred.pid]⟩]⟩ := by
  obtain ⟨bytes, cred, rights⟩ := c
  cases rights <;> simp [recvmsg, Chunk.ancillary, storeCmsgs, controllen, cmsgHeader]

/-- Without `SO_PASSCRED` the buffer has room for the descriptor. -/
example (bytes : List UInt8) (cred : Ucred) (fd : Int) :
    recvmsg false controllen ⟨bytes, cred, some fd⟩ = ⟨bytes, controllen, [⟨solSocket, scmRights, [fd]⟩]⟩ := by
  simp [recvmsg, Chunk.ancillary, storeCmsgs, controllen, cmsgHeader]

/-! ## recv_fd -/

/-- The walk over the control messages for an `SCM_RIGHTS` one, whose first `int` is the descriptor. -/
def passedFd (newfd : Int) (cmsgs : List Cmsg) : Int :=
  cmsgs.foldl (fun newfd cmp =>
    if cmp.level ≠ solSocket then newfd
    else if cmp.type = scmRights then cmp.data.headD 0 else newfd) newfd

/-- How the loop over a chunk ends. -/
inductive Scan where
  /-- a byte behind the received ones was read -/
  | outOfBounds
  /-- `return -1` -/
  | fail
  /-- the loop ended with these values -/
  | done (nr status newfd : Int)

/-- The loop over the received bytes. `rest` are the bytes from `ptr` on. -/
def scan (msg : RecvMsg) (rest : List UInt8) (ptr nr status newfd : Int) : Scan :=
  if ptr < nr then
    match rest with
    | [] => .outOfBounds
    | c :: rest =>
      -- the cursor has moved past `c`; `nr` loses two whatever `c` was
      if c = 0 then
        if ptr + 1 ≠ nr - 1 then .fail
        else
          match rest with
          | [] => .outOfBounds
          | b :: rest =>
            if b = 0 then
              if msg.controllen ≠ controllen then .fail
              else scan msg (b :: rest) (ptr + 1) (nr - 2) 0 (passedFd newfd msg.cmsgs)
            -- the status is looked at without moving the cursor
            else scan msg (b :: rest) (ptr + 1) (nr - 2) b.toNat (-b.toNat)
      else scan msg rest (ptr + 1) (nr - 2) status newfd
  else .done nr status newfd

theorem scan_end {msg : RecvMsg} {rest : List UInt8} {ptr nr : Int} (h : ¬ ptr < nr) (status newfd : Int) :
    scan msg rest ptr nr status newfd = .done nr status newfd := by
  rw [scan.eq_def, if_neg h]

theorem scan_text {msg : RecvMsg} {c : UInt8} {rest : List UInt8} {ptr nr : Int} (h : ptr < nr) (hc : c ≠ 0)
    (status newfd : Int) : scan msg (c :: rest) ptr nr status newfd
      = scan msg rest (ptr + 1) (nr - 2) status newfd := by
  rw [scan.eq_def, if_pos h]
  exact if_neg hc

/-- How `recv_fd` ends: with a value (and what it left unread), waiting for more input, or reading out of
    bounds; with the bytes handed to `userfunc`. -/
inductive Received where
  | returned (v : Int) (left : List (Option Chunk)) (handed : List UInt8)
  | blocked (handed : List UInt8)
  | outOfBounds

/-- The loop of `recv_fd`, with `SO_PASSCRED` set and the control buffer allocated, over what there is for
    `recvmsg` (`none` is an error). -/
def recvLoop (userfunc : List UInt8 → Int) :
    List (Option Chunk) → Int → Int → List UInt8 → Received
  | [], _, _, handed => .blocked handed
  | none :: left, _, _, handed => .returned (-1) left handed
  | some chunk :: left, status, newfd, handed =>
    let msg := recvmsg true controllen chunk
    if msg.bytes.length = 0 then .returned (-1) left handed
    else
      match scan msg msg.bytes 0 msg.bytes.length status newfd with
      | .outOfBounds => .outOfBounds
      | .fail => .returned (-1) left handed
      | .done nr status newfd =>
        let text := if nr > 0 then msg.bytes.take nr.toNat else []
        if nr > 0 ∧ userfunc text ≠ nr then .returned (-1) left (handed ++ text)
        else if status ≥ 0 then .returned newfd left (handed ++ text)
        else recvLoop userfunc left status newfd (handed ++ text)

/-- What the system calls of one `recv_fd` do: whether `setsockopt` and `malloc` succeed, and what there is
    for `recvmsg`. -/
structure RecvCalls where
  setsockopt : Bool
  malloc     : Bool
  chunks     : List (Option Chunk)

/-- `recv_fd`, from whether `cmptr` is allocated: how it ends, and whether `cmptr` is then. The size given to
    `malloc` (`sizeof(struct CONTROLLEN)`, which is no type) is taken to be the `CONTROLLEN` of `send_fd`. -/
def recvFd (userfunc : List UInt8 → Int) (c : RecvCalls) (cmptr : Bool) : Received × Bool :=
  if c.setsockopt = false then (.returned (-1) c.chunks [], cmptr)
  -- the first turn of the loop allocates the buffer, if it is not there from an earlier call
  else if cmptr = false ∧ c.malloc = false then (.returned (-1) c.chunks [], cmptr)
  else (recvLoop userfunc c.chunks (-1) (-1) [], true)

end OpenServer
