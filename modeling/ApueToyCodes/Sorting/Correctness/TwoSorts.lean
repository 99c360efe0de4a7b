import ApueToyCodes.Sorting.Correctness.Shell

/-!
# `Sorting.Correctness.TwoSorts` — insertion sort and selection sort

`insert_sort` keeps the elements before `i` in order among themselves: it is the pass of `per_insert_sort`
with the gap 1, without its overflow. `choose_sort` has the smallest elements before `i`. Both end with a
permutation in ascending order, and there is only one.
-/

namespace Sorting
open CArray Gap

variable {a arr arr' : List Int} {i j k n len : Nat} {min : Int}

/-! ## insert_sort -/

/-- **The loop of `insert_sort`** puts the one class of the gap 1 in order. -/
theorem insertSortLoop_spec (hlen : a.length = len) (fuel : Nat) :
    ∀ {arr : List Int} {i : Nat}, ClassDone a arr 1 0 i → len - i < fuel →
    ∃ arr', insertSortLoop len fuel arr i = some arr' ∧ ClassDone a arr' 1 0 len := by
  induction fuel with
  | zero =>
      intro arr i _ hf
      exact absurd hf (Nat.not_lt_zero _)
  | succ fuel ih =>
      intro arr i h hf
      rw [insertSortLoop]
      by_cases hi : i < len
      · have hlen' := h.classed.length
        obtain ⟨arr', heq, hdone⟩ := h.insert Nat.one_pos (Nat.mod_one i) (by omega)
        rw [if_pos hi, read_eq (by omega)]
        change insertDown 1 0 (val arr i) (i + 1) arr ((i : Int) - 1) = some arr' at heq
        simp only [Option.bind_eq_bind, Option.bind_some, heq]
        exact ih hdone (by omega)
      · rw [if_neg hi]
        refine ⟨arr, rfl, h.classed, h.others, ?_⟩
        intro p hp hpl
        exact h.ordered p hp (by omega)

/-- **`insert_sort`** sorts every array. -/
theorem insertSort_spec (arr : List Int) :
    ∃ arr', insertSort arr arr.length = some arr' ∧ arr'.Pairwise (· ≤ ·) ∧ arr'.Perm arr := by
  unfold insertSort
  by_cases hshort : arr.length ≤ 1
  · rw [if_pos hshort]
    refine ⟨arr, rfl, List.pairwise_iff_getElem.mpr fun i j hi hj hij => ?_, List.Perm.refl arr⟩
    omega
  · rw [if_neg hshort]
    have hstart : ClassDone arr arr 1 0 1 := by
      refine ⟨.refl arr 1, fun _ _ => rfl, ?_⟩
      intro p _ hp
      omega
    obtain ⟨arr', heq, hdone⟩ := insertSortLoop_spec rfl (arr.length + 1) hstart (by omega)
    have hlen := hdone.classed.length
    refine ⟨arr', heq, pairwise_of_gapOrdered_one ?_, hdone.classed.perm⟩
    rw [hlen]
    intro p hp
    exact hdone.ordered p (Nat.mod_one p) hp

/-! ## choose_sort -/

/-- `k` is the index of a smallest element among those of `[i, j)`. -/
structure Smallest (arr : List Int) (i j k : Nat) : Prop where
  range : i ≤ k ∧ k < j
  least : ∀ p, i ≤ p → p < j → val arr k ≤ val arr p

/-- **One turn of the loop over `j`** looks at one more element. -/
theorem Smallest.next (h : Smallest arr i j k) :
    Smallest arr i (j + 1) (if val arr k > val arr j then j else k) := by
  obtain ⟨hik, hkj⟩ := h.range
  split
  case isTrue hgt =>
    refine ⟨by omega, fun p hip hpj => ?_⟩
    rcases Nat.lt_succ_iff_lt_or_eq.mp hpj with hlt | rfl
    · exact Int.le_trans (Int.le_of_lt hgt) (h.least p hip hlt)
    · exact Int.le_refl _
  case isFalse hle =>
    refine ⟨by omega, fun p hip hpj => ?_⟩
    rcases Nat.lt_succ_iff_lt_or_eq.mp hpj with hlt | rfl
    · exact h.least p hip hlt
    · exact Int.not_lt.mp hle

/-- **The loop over `j`** finds a smallest element. -/
theorem chooseMin_spec (n : Nat) : ∀ {j k : Nat}, j + n ≤ arr.length → Smallest arr i j k →
    ∃ k', chooseMin arr n j (val arr k) k = some k' ∧ Smallest arr i (j + n) k' := by
  induction n with
  | zero => exact fun _ h => ⟨_, rfl, h⟩
  | succ n ih =>
      intro j k hj h
      have hnext := h.next
      rw [chooseMin, read_eq (by omega), show j + (n + 1) = j + 1 + n by omega]
      simp only [Option.bind_eq_bind, Option.bind_some]
      by_cases hgt : val arr k > val arr j
      · rw [if_pos hgt] at hnext ⊢
        exact ih (by omega) hnext
      · rw [if_neg hgt] at hnext ⊢
        exact ih (by omega) hnext

/-- `arr` is `a` with its smallest elements in order before `i`. -/
structure Chosen (a arr : List Int) (i : Nat) : Prop where
  moved  : Rearranged a arr 0 a.length
  sorted : SortedOn arr 0 i
  least  : ∀ p q, p < i → i ≤ q → q < a.length → val arr p ≤ val arr q

/-- **One turn of the loop over `i`** brings a smallest of the remaining elements to `i`. -/
theorem Chosen.next (h : Chosen a arr i) (hi : i < a.length) (hk : Smallest arr i a.length k) :
    Chosen a (swapped arr k i) (i + 1) := by
  obtain ⟨hik, hka⟩ := hk.range
  have hlen := h.moved.length
  have hswap : Rearranged arr (swapped arr k i) i a.length :=
    .swapped (by omega) (by omega) ⟨hik, hka⟩ ⟨Nat.le_refl i, hi⟩
  have hleast : ∀ p, i ≤ p → p < a.length → val arr k ≤ val (swapped arr k i) p :=
    hswap.forall_val (Nat.le_of_lt hi) (Nat.le_of_eq hlen.symm) hk.least
  have hbefore : ∀ p, p < i → val (swapped arr k i) p = val arr p := fun p hp => hswap.frame p (Or.inl hp)
  have hat : val (swapped arr k i) i = val arr k := val_swapped_right (by omega)
  refine ⟨h.moved.trans (hswap.mono (Nat.zero_le i) (Nat.le_refl _)), ?_, ?_⟩
  · intro p q _ hpq hq
    rw [hbefore p (by omega)]
    rcases Nat.lt_succ_iff_lt_or_eq.mp hq with hlt | rfl
    · rw [hbefore q hlt]
      exact h.sorted p q (Nat.zero_le p) hpq hlt
    · rw [hat]
      exact h.least p k hpq hik hka
  · intro p q hp hiq hq
    rcases Nat.lt_succ_iff_lt_or_eq.mp hp with hlt | rfl
    · rw [hbefore p hlt]
      exact hswap.forall_val (P := fun x => val arr p ≤ x) (Nat.le_of_lt hi) (Nat.le_of_eq hlen.symm)
        (fun r hr hra => h.least p r hlt hr hra) q (by omega) hq
    · rw [hat]
      exact hleast q (by omega) hq

/-- **The loop over `i`** of `choose_sort`. -/
theorem chooseLoop_spec (n : Nat) : ∀ {arr : List Int} {i : Nat}, Chosen a arr i → i + n = a.length →
    ∃ arr', chooseLoop a.length n arr i = some arr' ∧ Chosen a arr' a.length := by
  induction n with
  | zero =>
      rintro arr i h rfl
      exact ⟨arr, rfl, h⟩
  | succ n ih =>
      intro arr i h hi
      have hlen := h.moved.length
      have hstart : Smallest arr i (i + 1) i := by
        refine ⟨⟨Nat.le_refl i, Nat.lt_succ_self i⟩, fun p hip hpi => ?_⟩
        rw [Nat.le_antisymm hip (Nat.le_of_lt_succ hpi)]
      obtain ⟨k, heq, hk⟩ := chooseMin_spec (a.length - (i + 1)) (by omega) hstart
      rw [show i + 1 + (a.length - (i + 1)) = a.length by omega] at hk
      rw [chooseLoop, read_eq (by omega)]
      simp only [Option.bind_eq_bind, Option.bind_some, heq]
      rw [swap_eq (by have := hk.range.2; omega) (by omega), Option.bind_some]
      exact ih (h.next (by omega) hk) (by omega)

/-- **`choose_sort`** sorts every array. -/
theorem chooseSort_spec (arr : List Int) :
    ∃ arr', chooseSort arr arr.length = some arr' ∧ arr'.Pairwise (· ≤ ·) ∧ arr'.Perm arr := by
  have hstart : Chosen arr arr 0 := by
    refine ⟨.refl arr 0 arr.length, ?_, ?_⟩
    · intro p q _ _ hq
      omega
    · intro p q hp
      omega
  obtain ⟨arr', heq, hdone⟩ := chooseLoop_spec arr.length hstart (Nat.zero_add _)
  have hlen := hdone.moved.length
  refine ⟨arr', heq, ?_, hdone.moved.perm⟩
  rw [List.pairwise_iff_getElem]
  intro i j hi hj hij
  rw [← val_eq_getElem hi, ← val_eq_getElem hj]
  exact hdone.sorted i j (Nat.zero_le i) hij (by omega)

/-! ## Both -/

/-- **The two sorts agree**: on every array both end, without a step outside of it, in the permutation in
    ascending order. -/
theorem insert_sort_eq_choose_sort (arr : List Int) :
    ∃ arr', insertSort arr arr.length = some arr' ∧ chooseSort arr arr.length = some arr' ∧
      arr'.Pairwise (· ≤ ·) ∧ arr'.Perm arr := by
  obtain ⟨b, hb, hsorted, hperm⟩ := insertSort_spec arr
  obtain ⟨c, hc, hsorted', hperm'⟩ := chooseSort_spec arr
  obtain rfl : b = c := by
    refine (hperm.trans hperm'.symm).eq_of_pairwise ?_ hsorted hsorted'
    exact fun x y _ _ hxy hyx => Int.le_antisymm hxy hyx
  exact ⟨b, hb, hc, hsorted, hperm⟩

example : insertSort [5, 4, 6, 8, 3] 5 = chooseSort [5, 4, 6, 8, 3] 5 := by decide

end Sorting
