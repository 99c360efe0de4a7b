import Mathlib.Data.Nat.ModEq
import Mathlib.Logic.Function.Iterate

/-!
# `Lib.Congruential` — linear congruential generators

A generator replaces its state `x` by `(a * x + c) % m`. For a divisor `d` of `m` the states modulo `d` are
those of the generator with modulus `d`. Where that one does not move, because `a` is 1 and `c` is 0 modulo
`d`, no run leaves the residue class of its seed (`iterate_affine_modEq`).
-/

namespace Congruential

variable {m a c d : Nat}

/-- One step of the generator. -/
def affine (m a c x : Nat) : Nat := (a * x + c) % m

/-- **One step** keeps the residue. -/
theorem affine_modEq (hm : d ∣ m) (ha : a ≡ 1 [MOD d]) (hc : c ≡ 0 [MOD d]) (x : Nat) :
    affine m a c x ≡ x [MOD d] := by
  have hstep : a * x + c ≡ 1 * x + 0 [MOD d] := (ha.mul_right x).add hc
  rw [one_mul, Nat.add_zero] at hstep
  exact ((Nat.mod_modEq (a * x + c) m).of_dvd hm).trans hstep

/-- **A run** keeps the residue of its seed. -/
theorem iterate_affine_modEq (hm : d ∣ m) (ha : a ≡ 1 [MOD d]) (hc : c ≡ 0 [MOD d]) (x n : Nat) :
    (affine m a c)^[n] x ≡ x [MOD d] := by
  induction n with
  | zero => exact Nat.ModEq.refl x
  | succ n ih =>
      rw [Function.iterate_succ_apply']
      exact (affine_modEq hm ha hc _).trans ih

end Congruential
