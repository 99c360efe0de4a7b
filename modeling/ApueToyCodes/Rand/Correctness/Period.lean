import ApueToyCodes.Lib.Congruential
import ApueToyCodes.Rand.MyRand

/-!
# `Rand.Correctness.Period` — the states a seed leads to

A generator with the multiplier of `myrand` comes from every seed to every state if its increment is odd. The
increment 123456 is divisible by four, and the multiplier is 1 modulo four: the two lowest bits of `next` are
those of the seed for ever, and a run has at most a quarter of the states.
-/

namespace Rand
open Congruential (affine iterate_affine_modEq)

/-- The number of states. -/
abbrev states : Nat := 4294967296

/-- From the seed all states are reached, and the seed again after all of them, not before. -/
structure FullPeriod (seek : UInt32) : Prop where
  reached : ∀ next, ∃ n < states, nextAfter seek n = next
  returns : nextAfter seek states = seek
  first   : ∀ n, 0 < n → n < states → nextAfter seek n ≠ seek

theorem myrand_next_toNat (next : UInt32) :
    (myrand next).2.toNat = affine states 1103515245 123456 next.toNat := by
  show (next * 1103515245 + 123456).toNat = _
  rw [UInt32.toNat_add, UInt32.toNat_mul]
  show (next.toNat * 1103515245 % 2 ^ 32 + 123456) % 2 ^ 32 = (1103515245 * next.toNat + 123456) % 4294967296
  omega

/-- The generator of `myrand` on the values of its state. -/
theorem nextAfter_toNat (seek : UInt32) (n : Nat) :
    (nextAfter seek n).toNat = (affine states 1103515245 123456)^[n] seek.toNat := by
  unfold nextAfter
  induction n with
  | zero => rfl
  | succ n ih => rw [Function.iterate_succ_apply', Function.iterate_succ_apply', myrand_next_toNat, ih]

/-- **The two lowest bits** of the state are those of the seed. -/
theorem nextAfter_mod_four (seek : UInt32) (n : Nat) : (nextAfter seek n).toNat % 4 = seek.toNat % 4 := by
  rw [nextAfter_toNat]
  exact iterate_affine_modEq (by decide) (by decide) (by decide) _ n

/-- **No seed has the full period**: it does not come to the next number. -/
theorem not_fullPeriod (seek : UInt32) : ¬ FullPeriod seek := by
  intro h
  obtain ⟨n, _, hn⟩ := h.reached (seek + 1)
  have hmod := nextAfter_mod_four seek n
  rw [hn, UInt32.toNat_add] at hmod
  change (seek.toNat + 1) % 2 ^ 32 % 4 = seek.toNat % 4 at hmod
  omega

/-- From 9, the seed of `main`, every number is 1 modulo four: 2 is not reached. -/
theorem nine_does_not_reach_two : (∀ n, nextAfter 9 n ≠ 2) ∧ ¬ FullPeriod 9 := by
  have hno : ∀ n, nextAfter 9 n ≠ 2 := by
    intro n h
    have hmod := nextAfter_mod_four 9 n
    rw [h] at hmod
    exact absurd hmod (by decide)
  refine ⟨hno, fun h => ?_⟩
  obtain ⟨n, _, hn⟩ := h.reached 2
  exact hno n hn

end Rand
