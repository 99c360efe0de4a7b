import ApueToyCodes.Lib.Clock

/-!
# `Timeout.Timer` — calling a function later, in `lab_1` (test2.c)

`timeout` has a function called at a time: a thread of its own sleeps until then and calls it; where the time
is over, or no thread can be made, it is called at once. `makepthread` makes the thread, `timeout_helper` is
what the thread runs.

The time the clock shows and the outcomes of the calls of the system are given. `timeout` and the thread are
two lists of what each does, the thread to its end; a function and its argument are of any types. The messages
are left out, and with them the `sleep` of `makepthread`.
-/

namespace Timeout
open Clock (Timespec nsecPerSec)

universe u

variable {φ α : Type u}

/-- What `timeout` and the thread do. -/
inductive Event (φ α : Type u) where
  | malloc
  | nanosleep (wait : Timespec)
  | call (func : φ) (arg : α)
  | free
deriving DecidableEq

/-- `struct to_info` -/
structure ToInfo (φ α : Type u) where
  toFn   : φ
  toArg  : α
  toWait : Timespec

/-- The outcomes of the calls of the system; an error is not 0. -/
structure Calls where
  malloc         : Bool
  attrInit       : Int
  setdetachstate : Int
  create         : Int

/-- `makepthread`: the error it returns, and the thread it has made, which runs `fn` on `arg`. -/
def makepthread {β τ : Type u} (o : Calls) (fn : β → τ) (arg : β) : Int × Option τ :=
  if o.attrInit ≠ 0 then (o.attrInit, none)
  else if o.setdetachstate ≠ 0 then (o.setdetachstate, none)
  else if o.create ≠ 0 then (o.create, none)
  else (0, some (fn arg))

/-- `timeout_helper` -/
def timeoutHelper (tip : ToInfo φ α) : List (Event φ α) :=
  [.nanosleep tip.toWait, .call tip.toFn tip.toArg, .free]

/-- What `timeout` does, and what the thread it has made does. -/
structure Run (φ α : Type u) where
  parent : List (Event φ α)
  thread : Option (List (Event φ α))

/-- A difference of seconds, `none` if `time_t` has no such value. -/
def timeT (sec : Int) : Option Int :=
  if -9223372036854775808 ≤ sec ∧ sec < 9223372036854775808 then some sec else none

/-- `timeout`; `none` where it writes through a null pointer or a subtraction overflows. -/
def timeout (o : Calls) (now when : Timespec) (func : φ) (arg : α) : Option (Run φ α) :=
  if when.sec > now.sec ∨ when.sec = now.sec ∧ when.nsec > now.nsec then
    if o.malloc = false then none -- prints a message and goes on
    else
      (timeT (when.sec - now.sec)).map fun sec =>
        let wait : Timespec :=
          if when.nsec ≥ now.nsec then ⟨sec, when.nsec - now.nsec⟩
          else ⟨sec - 1, nsecPerSec - now.nsec + when.nsec⟩
        let (err, thread) := makepthread o timeoutHelper ⟨func, arg, wait⟩
        if err = 0 then ⟨[.malloc], thread⟩ else ⟨[.malloc, .free, .call func arg], thread⟩
  else some ⟨[.call func arg], none⟩

end Timeout
