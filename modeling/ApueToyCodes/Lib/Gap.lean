import Mathlib.Data.Finset.Card
import Mathlib.Data.Nat.ModEq
import Mathlib.Logic.Equiv.Basic
import Mathlib.Order.Basic

/-!
# `Lib.Gap` — sequences ordered for a gap

A sequence of `n` elements is ordered for the gap `h` when no element is above the one `h` places on. Sorting
every residue class modulo `d` in place keeps the order for every other gap (`GapOrdered.of_classes`).
-/

namespace Gap

universe u

variable {α : Type u} {n d h : Nat} {f g : Nat → α}

/-- No element is above the one `h` places on. -/
def GapOrdered [LE α] (n h : Nat) (f : Nat → α) : Prop := ∀ i, i + h < n → f i ≤ f (i + h)

/-- Within a residue class modulo `d`, order for the gap `d` is order. -/
theorem GapOrdered.le_of_mod [Preorder α] (hf : GapOrdered n d f) {i j : Nat} (hij : i ≤ j) (hj : j < n)
    (hmod : i % d = j % d) : f i ≤ f j := by
  obtain ⟨m, hm⟩ : d ∣ j - i := (Nat.modEq_iff_dvd' hij).mp hmod
  obtain rfl : j = i + d * m := by omega
  clear hij hmod hm
  induction m with
  | zero => exact le_refl _
  | succ m ih =>
      rw [Nat.mul_succ, ← Nat.add_assoc] at hj ⊢
      exact le_trans (ih (by omega)) (hf _ hj)

/-- Order for the gap 1 is ascending order. -/
theorem GapOrdered.ascending [Preorder α] (hf : GapOrdered n 1 f) {i j : Nat} (hij : i ≤ j) (hj : j < n) :
    f i ≤ f j :=
  hf.le_of_mod hij hj (by rw [Nat.mod_one, Nat.mod_one])

/-! ## Permutations within the classes -/

/-- A permutation of the indices below `n` that keeps each one in its residue class modulo `d`. -/
structure WithinClasses (n d : Nat) (s : Equiv.Perm Nat) : Prop where
  mod   : ∀ i, s i % d = i % d
  below : ∀ i, s i < n ↔ i < n

theorem WithinClasses.refl (n d : Nat) : WithinClasses n d (Equiv.refl Nat) :=
  ⟨fun _ => rfl, fun _ => Iff.rfl⟩

theorem WithinClasses.trans {s t : Equiv.Perm Nat} (hs : WithinClasses n d s) (ht : WithinClasses n d t) :
    WithinClasses n d (s.trans t) := by
  constructor
  · intro i
    rw [Equiv.trans_apply, ht.mod, hs.mod]
  · intro i
    rw [Equiv.trans_apply, ht.below, hs.below]

theorem WithinClasses.swap {i j : Nat} (hi : i < n) (hj : j < n) (hmod : i % d = j % d) :
    WithinClasses n d (Equiv.swap i j) := by
  refine ⟨fun k => ?_, fun k => ?_⟩ <;> by_cases hki : k = i
  · rw [hki, Equiv.swap_apply_left, hmod]
  · by_cases hkj : k = j
    · rw [hkj, Equiv.swap_apply_right, hmod]
    · rw [Equiv.swap_apply_of_ne_of_ne hki hkj]
  · rw [hki, Equiv.swap_apply_left]
    exact iff_of_true hj hi
  · by_cases hkj : k = j
    · rw [hkj, Equiv.swap_apply_right]
      exact iff_of_true hi hj
    · rw [Equiv.swap_apply_of_ne_of_ne hki hkj]

theorem WithinClasses.symm {s : Equiv.Perm Nat} (hs : WithinClasses n d s) : WithinClasses n d s.symm := by
  constructor
  · intro i
    rw [← hs.mod, Equiv.apply_symm_apply]
  · intro i
    rw [← hs.below, Equiv.apply_symm_apply]

/-! ## Sorting the classes -/

/-- The indices below `m` in the residue class of `c` modulo `d`. -/
def classBelow (d c m : Nat) : Finset Nat := (Finset.range m).filter (fun p => p % d = c % d)

theorem mem_classBelow {c m p : Nat} : p ∈ classBelow d c m ↔ p < m ∧ p % d = c % d := by
  unfold classBelow
  rw [Finset.mem_filter, Finset.mem_range]

theorem card_classBelow_lt (d m : Nat) : (classBelow d m m).card < (classBelow d m (m + 1)).card := by
  apply Finset.card_lt_card
  rw [Finset.ssubset_iff_of_subset]
  · refine ⟨m, mem_classBelow.mpr ⟨Nat.lt_succ_self m, rfl⟩, ?_⟩
    intro hmem
    exact absurd (mem_classBelow.mp hmem).1 (Nat.lt_irrefl m)
  · intro p hp
    obtain ⟨hp, hmod⟩ := mem_classBelow.mp hp
    exact mem_classBelow.mpr ⟨Nat.lt_succ_of_lt hp, hmod⟩

/-- From `p` to where `s` takes it, `h` back, along `s` again and `h` on; or only to where `s` takes it,
    where there is no going `h` back. -/
def around (s : Equiv.Perm Nat) (h p : Nat) : Nat := if s p < h then s p else s.symm (s p - h) + h

theorem around_injective (s : Equiv.Perm Nat) (h : Nat) : Function.Injective (around s h) := by
  intro p q hpq
  unfold around at hpq
  by_cases hp : s p < h <;> by_cases hq : s q < h
  · rw [if_pos hp, if_pos hq] at hpq
    exact s.injective hpq
  · rw [if_pos hp, if_neg hq] at hpq
    omega
  · rw [if_neg hp, if_pos hq] at hpq
    omega
  · rw [if_neg hp, if_neg hq] at hpq
    have hsub : s p - h = s q - h := s.symm.injective (Nat.add_right_cancel hpq)
    exact s.injective (by omega)

section
variable [LinearOrder α] {s : Equiv.Perm Nat}

/-- `around` stays in a class: an element `h` before the origin of `g p` is as small as `g (i + h)`, so that
    the sorted class of `i` has it before an `i` with a greater element. -/
theorem around_mem (hf : GapOrdered n h f) (hg : GapOrdered n d g) (hs : WithinClasses n d s)
    (heq : ∀ i, g i = f (s i)) {i p : Nat} (hi : i + h < n) (hlt : g (i + h) < g i)
    (hp : p ∈ classBelow d (i + h) (i + h + 1)) : around s h p ∈ classBelow d (i + h) (i + h) := by
  obtain ⟨hp, hmod⟩ := mem_classBelow.mp hp
  have hp : p ≤ i + h := Nat.lt_succ_iff.mp hp
  have hsmod : s p % d = (i + h) % d := (hs.mod p).trans hmod
  rw [mem_classBelow]
  unfold around
  by_cases hsp : s p < h
  · rw [if_pos hsp]
    exact ⟨by omega, hsmod⟩
  · rw [if_neg hsp]
    have hback : s p - h + h = s p := Nat.sub_add_cancel (Nat.not_lt.mp hsp)
    have hsn : s p < n := (hs.below p).mpr (by omega)
    have hrmod : s.symm (s p - h) % d = i % d := by
      rw [hs.symm.mod]
      apply Nat.ModEq.add_right_cancel' h
      rw [hback]
      exact hsmod
    refine ⟨?_, Nat.ModEq.add_right h hrmod⟩
    by_contra hle
    have hclass : g i ≤ g (s.symm (s p - h)) :=
      hg.le_of_mod (by omega) ((hs.symm.below _).mpr (by omega)) hrmod.symm
    have hstep : f (s p - h) ≤ f (s p - h + h) := hf (s p - h) (by rw [hback]; exact hsn)
    have hlow : g p ≤ g (i + h) := hg.le_of_mod hp hi hmod
    rw [heq (s.symm _), Equiv.apply_symm_apply] at hclass
    rw [heq p] at hlow
    rw [hback] at hstep
    exact absurd hlt (not_lt.mpr (hclass.trans (hstep.trans hlow)))

/-- **Sorting the classes modulo `d` keeps the order for the gap `h`.** Were `g i` above `g (i + h)`,
    `around` would take the indices up to `i + h` of its class into those below it, which are fewer. -/
theorem GapOrdered.of_classes (hf : GapOrdered n h f) (hg : GapOrdered n d g) (hs : WithinClasses n d s)
    (heq : ∀ i, g i = f (s i)) : GapOrdered n h g := by
  intro i hi
  by_contra hlt
  have hcard : (classBelow d (i + h) (i + h + 1)).card ≤ (classBelow d (i + h) (i + h)).card := by
    apply Finset.card_le_card_of_injOn (around s h)
    · intro p hp
      exact around_mem hf hg hs heq hi (not_le.mp hlt) hp
    · exact (around_injective s h).injOn
  exact absurd hcard (Nat.not_le.mpr (card_classBelow_lt d (i + h)))

end

end Gap
