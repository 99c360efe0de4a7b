import Mathlib.Logic.Function.Iterate

/-!
# `Rand.MyRand` — the random numbers of `lab_8` (rand.h)

The state is the variable `next`, an `unsigned int`. A function that changes it returns the new one.
-/

namespace Rand

/-- `myrand`: the number it returns, and the new `next`. -/
def myrand (next : UInt32) : Int × UInt32 :=
  let next := next * 1103515245 + 123456
  ((next / 65536 % 32768).toNat, next)

/-- `mysrand`: the new `next`. -/
def mysrand (seek : UInt32) : UInt32 := seek

/-- `next` after `mysrand` and `n` calls of `myrand`. -/
def nextAfter (seek : UInt32) (n : Nat) : UInt32 := (fun next => (myrand next).2)^[n] (mysrand seek)

end Rand
