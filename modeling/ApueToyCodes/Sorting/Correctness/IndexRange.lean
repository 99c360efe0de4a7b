import ApueToyCodes.Sorting.Correctness.HeapSort
import ApueToyCodes.Sorting.Correctness.MergeSort
import ApueToyCodes.Sorting.Correctness.Shell

/-!
# `Sorting.Correctness.IndexRange` — how long an array the index arithmetic bears

The indices of the sorts are `int`s. `merge_sort` adds up the ends of its ranges, `three_max` doubles the
index of a leaf, and the loop over `i` of `per_insert_sort` steps one gap beyond the last element. Each of the
three bounds the length of the array it can be called with, and none of them looks at the length: where the
arithmetic does not fit, the function goes on with an index outside the array.

A function that returns has visited every index of its loops, so the bounds are exact
(`mergeSort_returns_iff`, `heapSort_returns_iff`, and `shellInsert_returns_iff` of the module on Shell sort).
-/

namespace Sorting
open CArray

variable {arr arr' : List Int} {len : Nat}

/-! ## merge_sort -/

theorem mergeSort_returns_iff (arr : List Int) :
    (∃ fuel arr', mergeSort fuel arr 0 arr.length = some arr') ↔ arr.length ≤ 1073741824 := by
  constructor
  · rintro ⟨fuel, arr', heq⟩
    by_cases hfit : arr.length ≤ 1073741824
    · exact hfit
    · rw [mergeSort_overflow fuel (by omega) (by omega)] at heq
      contradiction
  · intro hfit
    obtain ⟨arr', heq, _⟩ := mergeSort_pieces (arr.length + 1) [] arr [] (Nat.lt_succ_self _)
      (Or.inr (by rw [List.length_nil]; omega))
    rw [List.nil_append, List.append_nil, List.length_nil, Nat.zero_add] at heq
    exact ⟨arr.length + 1, _, heq⟩

/-! ## heap_sort -/

/-- `three_max` computes the right child of a leaf before it looks at the length. -/
theorem threeMax_overflow {p : Nat} (h : 1073741823 ≤ p) : threeMax arr p len = none := by
  have hr : rchild p = none := by
    unfold rchild int32
    rw [if_neg (by omega)]
  unfold threeMax
  rw [hr]
  cases lchild p <;> rfl

theorem heapSort_returns_iff (arr : List Int) :
    (∃ arr', heapSort arr arr.length = some arr') ↔ arr.length < 1073741824 := by
  constructor
  · rintro ⟨arr', heq⟩
    by_cases hfit : arr.length < 1073741824
    · exact hfit
    · -- the first node `creat_heap` looks at is the last element
      have hover : creatHeap arr arr.length = none := by
        unfold creatHeap
        obtain ⟨p, hp⟩ : ∃ p, arr.length = p + 1 := ⟨arr.length - 1, by omega⟩
        rw [hp, creatHeapLoop, threeMax_overflow (by omega)]
        rfl
      unfold heapSort at heq
      rw [hover] at heq
      contradiction
  · intro hfit
    obtain ⟨b, hb, hperm, _⟩ := creatHeap_built (a := arr) (by omega)
    have hlen := hperm.length_eq
    obtain ⟨arr', heq, _⟩ := heapSortLoop_spec b.length b (Nat.le_refl _) (by omega)
    refine ⟨arr', ?_⟩
    unfold heapSort
    rw [hb, Option.bind_eq_bind, Option.bind_some, ← hlen, heq]

/-! ## The three together -/

/-- Every index the calls `merge_sort(arr, 0, len)`, `heap_sort(arr, len)` and `shell_insert(arr, len)`
    compute fits in an `int`, and every element they read or write is one of the array. -/
def IndicesInRange (arr : List Int) : Prop :=
  (∃ fuel arr', mergeSort fuel arr 0 arr.length = some arr') ∧
  (∃ arr', heapSort arr arr.length = some arr') ∧ ∃ arr', shellInsert arr arr.length = some arr'

/-- **Indices stay in range** exactly below 2^30 elements, where `heap_sort` gives out first: `merge_sort`
    bears one element more, `shell_insert` half as many again. -/
theorem sort_indices_in_range_iff (arr : List Int) :
    IndicesInRange arr ↔ arr.length < 1073741824 := by
  unfold IndicesInRange
  rw [mergeSort_returns_iff, heapSort_returns_iff, shellInsert_returns_iff]
  omega

/-- An array of 2^30 elements: the right child of its last element is the index 2^31. -/
theorem sort_indices_overflow :
    (List.replicate 1073741824 (0 : Int)).length ≤ 2147483647 ∧ rchild (1073741824 - 1) = none ∧
      ¬ IndicesInRange (List.replicate 1073741824 0) := by
  refine ⟨?_, by decide, ?_⟩
  · rw [List.length_replicate]
    decide
  · rintro ⟨_, hheap, _⟩
    rw [heapSort_returns_iff, List.length_replicate] at hheap
    contradiction

end Sorting
