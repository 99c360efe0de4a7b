import ApueToyCodes.Sorting.InsertSort

/-!
# `Sorting.Correctness.Quick` — quick sort

`partition` keeps the pivot aside and moves a hole between the two ends of the range that is not yet
classified (`Split`). `scanRight` starts with the hole at `lo` and leaves it at `hi`, `scanLeft` the other
way round; a turn of the outer loop is one of each. With the hole filled the array is always a
rearrangement of the one `partition` was called on.
-/

namespace Sorting
open CArray

variable {a arr : List Int} {tmp : Int} {lo₀ hi₀ hole lo hi : Nat}

/-- The array in `partition` with pivot `tmp` on `[lo₀, hi₀]`: filling the hole rearranges `a`, the elements
    before `lo` are at most the pivot, those behind `hi` at least. -/
structure Split (a : List Int) (tmp : Int) (lo₀ hi₀ : Nat) (arr : List Int) (hole lo hi : Nat) : Prop where
  filled : Rearranged a (arr.set hole tmp) lo₀ (hi₀ + 1)
  range  : lo₀ ≤ lo ∧ lo ≤ hi ∧ hi ≤ hi₀ ∧ hi₀ < a.length
  left   : ∀ i, lo₀ ≤ i → i < lo → val arr i ≤ tmp
  right  : ∀ i, hi < i → i ≤ hi₀ → tmp ≤ val arr i

theorem Split.length (h : Split a tmp lo₀ hi₀ arr hole lo hi) : arr.length = a.length := by
  have := h.filled.length
  rwa [List.length_set] at this

/-- Copying `arr[j]` into the hole at `i` moves the hole to `j`. -/
theorem Split.moveHole {i j : Nat} (h : Rearranged a (arr.set i tmp) lo₀ (hi₀ + 1))
    (hij : i ≠ j) (hi : lo₀ ≤ i ∧ i ≤ hi₀) (hj : lo₀ ≤ j ∧ j ≤ hi₀) (hlen : hi₀ < a.length) :
    Rearranged a ((arr.set i (val arr j)).set j tmp) lo₀ (hi₀ + 1) := by
  have hlength := h.length
  rw [fill_move (by rw [List.length_set] at hlength; omega) hij]
  exact h.trans (.swapped (by omega) (by omega) (by omega) (by omega))

/-- An element greater than the pivot stays behind `hi`. -/
theorem Split.keep_right (h : Split a tmp lo₀ hi₀ arr lo lo hi) (hlt : lo < hi) (hx : tmp < val arr hi) :
    Split a tmp lo₀ hi₀ arr lo lo (hi - 1) := by
  have hrange := h.range
  refine ⟨h.filled, by omega, h.left, ?_⟩
  intro i hi1 hi2
  by_cases hih : i = hi
  · rw [hih]
    exact Int.le_of_lt hx
  · exact h.right i (by omega) hi2

/-- One that is not fills the hole at `lo`. -/
theorem Split.move_left (h : Split a tmp lo₀ hi₀ arr lo lo hi) (hlt : lo < hi) (hx : val arr hi ≤ tmp) :
    Split a tmp lo₀ hi₀ (arr.set lo (val arr hi)) hi (lo + 1) hi := by
  obtain ⟨h1, h2, h3, h4⟩ := h.range
  have hlen := h.length
  refine ⟨Split.moveHole h.filled (by omega) (by omega) (by omega) h4, by omega, ?_, ?_⟩
  · intro i hi1 hi2
    by_cases hil : i = lo
    · rw [hil, val_set_self (by omega)]
      exact hx
    · rw [val_set_ne hil]
      exact h.left i hi1 (by omega)
  · intro i hi1 hi2
    rw [val_set_ne (by omega)]
    exact h.right i hi1 hi2

/-- An element smaller than the pivot stays before `lo`. -/
theorem Split.keep_left (h : Split a tmp lo₀ hi₀ arr hi lo hi) (hlt : lo < hi) (hx : val arr lo < tmp) :
    Split a tmp lo₀ hi₀ arr hi (lo + 1) hi := by
  have hrange := h.range
  refine ⟨h.filled, by omega, ?_, h.right⟩
  intro i hi1 hi2
  by_cases hil : i = lo
  · rw [hil]
    exact Int.le_of_lt hx
  · exact h.left i hi1 (by omega)

/-- One that is not fills the hole at `hi`. -/
theorem Split.move_right (h : Split a tmp lo₀ hi₀ arr hi lo hi) (hlt : lo < hi) (hx : tmp ≤ val arr lo) :
    Split a tmp lo₀ hi₀ (arr.set hi (val arr lo)) lo lo (hi - 1) := by
  obtain ⟨h1, h2, h3, h4⟩ := h.range
  have hlen := h.length
  refine ⟨Split.moveHole h.filled (by omega) (by omega) (by omega) h4, by omega, ?_, ?_⟩
  · intro i hi1 hi2
    rw [val_set_ne (by omega)]
    exact h.left i hi1 hi2
  · intro i hi1 hi2
    by_cases hih : i = hi
    · rw [hih, val_set_self (by omega)]
      exact hx
    · rw [val_set_ne hih]
      exact h.right i (by omega) hi2

/-- **The scan from the right**: the hole goes from `lo` to `hi`. -/
theorem scanRight_split (fuel : Nat) : ∀ {arr : List Int} {lo hi : Nat},
    Split a tmp lo₀ hi₀ arr lo lo hi → hi - lo < fuel →
    ∃ arr' lo' hi', scanRight tmp fuel arr lo hi = some (arr', lo', hi') ∧
      Split a tmp lo₀ hi₀ arr' hi' lo' hi' ∧ hi' - lo' ≤ hi - lo ∧ (lo < hi → hi' - lo' < hi - lo) := by
  induction fuel with
  | zero =>
      intro arr lo hi _ hf
      exact absurd hf (Nat.not_lt_zero _)
  | succ fuel ih =>
      intro arr lo hi h hf
      have hrange := h.range
      have hlen := h.length
      rw [scanRight]
      by_cases hlt : lo < hi
      · rw [if_pos hlt, read_eq (by omega)]
        simp only [Option.bind_eq_bind, Option.bind_some]
        by_cases hx : val arr hi > tmp
        · rw [if_pos hx]
          obtain ⟨arr', lo', hi', heq, hs, hle, _⟩ := ih (h.keep_right hlt hx) (by omega)
          exact ⟨arr', lo', hi', heq, hs, by omega, fun _ => by omega⟩
        · rw [if_neg hx, write_eq (by omega)]
          exact ⟨_, _, _, rfl, h.move_left hlt (Int.not_lt.mp hx), by omega, fun _ => by omega⟩
      · rw [if_neg hlt]
        obtain rfl : lo = hi := by omega
        exact ⟨arr, lo, lo, rfl, h, Nat.le_refl _, fun h' => absurd h' hlt⟩

/-- **The scan from the left**: the hole goes from `hi` to `lo`. -/
theorem scanLeft_split (fuel : Nat) : ∀ {arr : List Int} {lo hi : Nat},
    Split a tmp lo₀ hi₀ arr hi lo hi → hi - lo < fuel →
    ∃ arr' lo' hi', scanLeft tmp fuel arr lo hi = some (arr', lo', hi') ∧
      Split a tmp lo₀ hi₀ arr' lo' lo' hi' ∧ hi' - lo' ≤ hi - lo := by
  induction fuel with
  | zero =>
      intro arr lo hi _ hf
      exact absurd hf (Nat.not_lt_zero _)
  | succ fuel ih =>
      intro arr lo hi h hf
      have hrange := h.range
      have hlen := h.length
      rw [scanLeft]
      by_cases hlt : lo < hi
      · rw [if_pos hlt, read_eq (by omega)]
        simp only [Option.bind_eq_bind, Option.bind_some]
        by_cases hx : val arr lo < tmp
        · rw [if_pos hx]
          obtain ⟨arr', lo', hi', heq, hs, hle⟩ := ih (h.keep_left hlt hx) (by omega)
          exact ⟨arr', lo', hi', heq, hs, by omega⟩
        · rw [if_neg hx, write_eq (by omega)]
          exact ⟨_, _, _, rfl, h.move_right hlt (Int.not_lt.mp hx), by omega⟩
      · rw [if_neg hlt]
        obtain rfl : lo = hi := by omega
        exact ⟨arr, lo, lo, rfl, h, Nat.le_refl _⟩

/-- **The outer loop** ends with nothing left to classify. -/
theorem partitionLoop_split (fuel : Nat) : ∀ {arr : List Int} {lo hi : Nat},
    Split a tmp lo₀ hi₀ arr lo lo hi → hi - lo < fuel →
    ∃ arr' p, partitionLoop tmp fuel arr lo hi = some (arr', p) ∧ Split a tmp lo₀ hi₀ arr' p p p := by
  induction fuel with
  | zero =>
      intro arr lo hi _ hf
      exact absurd hf (Nat.not_lt_zero _)
  | succ fuel ih =>
      intro arr lo hi h hf
      have hrange := h.range
      rw [partitionLoop]
      by_cases hlt : lo < hi
      · rw [if_pos hlt]
        obtain ⟨arr₁, lo₁, hi₁, heq₁, hs₁, _, hless⟩ := scanRight_split (hi - lo + 1) h (by omega)
        obtain ⟨arr₂, lo₂, hi₂, heq₂, hs₂, hle₂⟩ := scanLeft_split (hi₁ - lo₁ + 1) hs₁ (by omega)
        have hless := hless hlt
        simp only [heq₁, heq₂, Option.bind_eq_bind, Option.bind_some]
        exact ih hs₂ (by omega)
      · rw [if_neg hlt]
        obtain rfl : lo = hi := by omega
        exact ⟨arr, lo, rfl, h⟩

/-- **`partition`** rearranges the range around the pivot and returns the pivot's place. -/
theorem partition_spec (h1 : lo ≤ hi) (h2 : hi < a.length) :
    ∃ b p, partition a lo hi = some (b, p) ∧ Rearranged a b lo (hi + 1) ∧ lo ≤ p ∧ p ≤ hi ∧
      (∀ i, lo ≤ i → i < p → val b i ≤ val b p) ∧ ∀ i, p < i → i ≤ hi → val b p ≤ val b i := by
  have hstart : Split a (val a lo) lo hi a lo lo hi := by
    refine ⟨?_, by omega, fun i hi1 hi2 => by omega, fun i hi1 hi2 => by omega⟩
    rw [val_eq_getElem (by omega), List.set_getElem_self]
    exact .refl a lo (hi + 1)
  obtain ⟨arr, p, heq, hs⟩ := partitionLoop_split (hi - lo + 1) hstart (by omega)
  obtain ⟨h3, _, h4, _⟩ := hs.range
  have hp : p < arr.length := by rw [hs.length]; omega
  refine ⟨arr.set p (val a lo), p, ?_, hs.filled, h3, h4, ?_, ?_⟩
  · unfold partition
    rw [read_eq (by omega)]
    simp only [Option.bind_eq_bind, Option.bind_some, heq, write_eq hp]
  · intro i hi1 hi2
    rw [val_set_self hp, val_set_ne (by omega)]
    exact hs.left i hi1 hi2
  · intro i hi1 hi2
    rw [val_set_self hp, val_set_ne (by omega)]
    exact hs.right i hi1 hi2

/-- **Sorting the two sides of a pivot** sorts the range: the sides stay on their sides. -/
theorem sortedOn_sides {b b₁ b₂ : List Int} {p : Nat} (hr₁ : Rearranged b b₁ lo p)
    (hr₂ : Rearranged b₁ b₂ (p + 1) hi) (hs₁ : SortedOn b₁ lo p) (hs₂ : SortedOn b₂ (p + 1) hi)
    (hlo : lo ≤ p) (hp : p < hi) (hhi : hi ≤ b.length)
    (hleft : ∀ i, lo ≤ i → i < p → val b i ≤ val b p) (hright : ∀ i, p < i → i < hi → val b p ≤ val b i) :
    SortedOn b₂ lo hi := by
  have hlen₁ := hr₁.length
  have hpivot : val b₂ p = val b p := by
    rw [hr₂.frame p (Or.inl (Nat.lt_succ_self p)), hr₁.frame p (Or.inr (Nat.le_refl p))]
  have hl : ∀ k, lo ≤ k → k < p → val b₁ k ≤ val b p :=
    hr₁.forall_val (P := (· ≤ val b p)) hlo (by omega) hleft
  have hr : ∀ k, p + 1 ≤ k → k < hi → val b₂ k ≥ val b p := by
    refine hr₂.forall_val (P := (· ≥ val b p)) (by omega) (by omega) ?_
    intro k h1 h2
    rw [hr₁.frame k (Or.inr (by omega))]
    exact hright k h1 h2
  have hsame : ∀ k, lo ≤ k → k < p → val b₂ k = val b₁ k := fun k _ hk => hr₂.frame k (Or.inl (by omega))
  apply sortedOn_pivot (hs₁.congr hsame) hs₂
  · intro k h1 h2
    rw [hsame k h1 h2, hpivot]
    exact hl k h1 h2
  · intro k h1 h2
    rw [hpivot]
    exact hr k h1 h2

/-- **Quick sort** of a range, as an array in place. -/
theorem quickSort_rearranged (fuel : Nat) : ∀ (a : List Int) (lo hi : Nat), lo ≤ hi → hi ≤ a.length →
    hi - lo < fuel →
    ∃ b, quickSort fuel a lo hi = some b ∧ Rearranged a b lo hi ∧ SortedOn b lo hi := by
  induction fuel with
  | zero =>
      intro a lo hi _ _ hf
      exact absurd hf (Nat.not_lt_zero _)
  | succ fuel ih =>
      intro a lo hi hlo hhi hf
      rw [quickSort]
      by_cases hshort : hi - lo ≤ 1
      · rw [if_pos hshort]
        refine ⟨a, rfl, .refl a lo hi, ?_⟩
        intro i j h1 h2 h3
        omega
      · rw [if_neg hshort]
        obtain ⟨b₀, p, heq, hr₀, hlop, hphi, hleft, hright⟩ :=
          partition_spec (by omega : lo ≤ hi - 1) (by omega : hi - 1 < a.length)
        rw [show hi - 1 + 1 = hi by omega] at hr₀
        have hlen₀ := hr₀.length
        obtain ⟨b₁, heq₁, hr₁, hs₁⟩ := ih b₀ lo p hlop (by omega) (by omega)
        have hlen₁ := hr₁.length
        obtain ⟨b₂, heq₂, hr₂, hs₂⟩ := ih b₁ (p + 1) hi (by omega) (by omega) (by omega)
        refine ⟨b₂, ?_, ?_, ?_⟩
        · simp only [heq, heq₁, heq₂, Option.bind_eq_bind, Option.bind_some]
        · have hleft' := hr₁.mono (Nat.le_refl lo) (by omega : p ≤ hi)
          have hright' := hr₂.mono (by omega : lo ≤ p + 1) (Nat.le_refl hi)
          exact hr₀.trans (hleft'.trans hright')
        · exact sortedOn_sides hr₁ hr₂ hs₁ hs₂ hlop (by omega) (by omega) hleft
            fun i h1 h2 => hright i h1 (by omega)

/-- **`quick_sort` sorts** its half-open range and leaves the rest of the array alone. -/
theorem quick_sort_sorts {arr : List Int} {lo hi fuel : Nat} (hlo : lo ≤ hi) (hhi : hi ≤ arr.length)
    (hfuel : hi - lo < fuel) :
    ∃ arr', quickSort fuel arr lo hi = some arr' ∧ RangeSorted arr arr' lo hi := by
  obtain ⟨b, heq, hr, hs⟩ := quickSort_rearranged fuel arr lo hi hlo hhi hfuel
  exact ⟨b, heq, hr.rangeSorted hs hlo hhi⟩

/-- The middle of an array with equal elements. -/
theorem quick_sort_sorts_middle : ∃ arr', quickSort 5 [9, 3, 1, 3, 2, 0] 1 5 = some arr' ∧
    RangeSorted [9, 3, 1, 3, 2, 0] arr' 1 5 := by
  apply quick_sort_sorts <;> decide

/-- The array of `main`. -/
example : quickSort 11 [5, 4, 6, 8, 3, 1, 5, 7, 0, 9] 0 10 = some [0, 1, 3, 4, 5, 5, 6, 7, 8, 9] := by
  decide

end Sorting
