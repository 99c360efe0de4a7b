import ApueToyCodes.Lib.ByteMem
import ApueToyCodes.Lib.CInt

/-!
# `FullIo.Readn` — `my_readn` and `my_writen` of `lab_1` (test4.c)

Both functions repeat a system call until `n` bytes are transferred, the call fails or it transfers nothing.
They are one loop with the system call as a parameter. Addresses count from the start of the buffer; the
`int` the remaining count is kept in, and its comparison and subtraction with the `size_t` it comes from, are
as in C.
-/

namespace FullIo
open ByteMem CInt

/-- What a call of `read` or `write` transfers; `none` is an error. -/
abbrev Moved := Option (List UInt8)

/-- The value the call returns. -/
def result : Moved → Int
  | none    => -1
  | some bs => bs.length

/-- A system call, by its number in the loop, its address and its count: what it transfers, and the memory
    after it. -/
abbrev Syscall := Nat → Nat → Nat → Mem → Moved × Mem

/-- `read`; `reads k count` is what the file has for the `k`-th call. -/
def read (reads : Nat → Nat → Moved) : Syscall := fun k ptr count mem =>
  match reads k count with
  | none    => (none, mem)
  | some bs => (some bs, storeBytes mem ptr bs)

/-- `write`; `writes k count` is how many bytes the file takes in the `k`-th call. -/
def write (writes : Nat → Nat → Option Nat) : Syscall := fun k ptr count mem =>
  ((writes k count).map (loadBytes mem ptr), mem)

/-- How a function ends: its value, the memory, and what each call transferred. -/
structure Done where
  ret   : Int
  mem   : Mem
  calls : List Moved

/-- The loop of `my_readn` and `my_writen`. -/
def ioLoop (io : Syscall) (n : Nat) : Nat → Nat → Int → Mem → List Moved → Option Done
  | 0,        _,   _,     _,   _     => none
  | fuel + 1, ptr, nleft, mem, calls =>
    if nleft > 0 then
      let (moved, mem) := io calls.length ptr (toSize nleft) mem
      let nread := toInt32 (result moved)
      let calls := calls ++ [moved]
      if nread < 0 then
        if toSize nleft = n then some ⟨-1, mem, calls⟩
        else some ⟨toInt64 (n - toSize nleft), mem, calls⟩
      else if nread = 0 then some ⟨toInt64 (n - toSize nleft), mem, calls⟩
      else ioLoop io n fuel (ptr + nread.toNat) (nleft - nread) mem calls
    else some ⟨toInt64 (n - toSize nleft), mem, calls⟩

/-- The body of both: `int nleft=n`. A turn transfers at least one byte. -/
def fullIo (io : Syscall) (n : Nat) (mem : Mem) : Option Done :=
  ioLoop io n ((toInt32 n).toNat + 1) 0 (toInt32 n) mem []

/-- `my_readn` -/
def myReadn (reads : Nat → Nat → Moved) (n : Nat) (mem : Mem) : Option Done := fullIo (read reads) n mem

/-- `my_writen` -/
def myWriten (writes : Nat → Nat → Option Nat) (n : Nat) (mem : Mem) : Option Done :=
  fullIo (write writes) n mem

end FullIo
