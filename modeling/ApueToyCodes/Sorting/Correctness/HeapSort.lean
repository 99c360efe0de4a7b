import ApueToyCodes.Sorting.Correctness.CreatHeap

/-!
# `Sorting.Correctness.HeapSort` — heap sort

`change_heap` moves the element at the root down to its place. `heap_sort` takes the greatest element from
the root to the end of the prefix that is not sorted yet, puts the last one of the prefix in its place and
has `change_heap` repair the root; what it needs of the prefix is in `Ready`. A heap is ready, and so is
every array of up to four elements with its greatest one at the root; but `creat_heap` does not always make
a heap.
-/

namespace Sorting
open CArray HeapTree ArrayHeap

variable {a arr arr' : List Int} {len l : Nat}

/-! ## change_heap -/

/-- **The loop of `change_heap`** ends inside the prefix, and leaves a heap where only `i` was out of
    order. -/
theorem changeHeapLoop_spec (hlen : len ≤ a.length) (hfit : 2 * len < 2147483648) (fuel : Nat) :
    ∀ {arr : List Int} {i : Nat}, Rearranged a arr 0 len → i < len ∨ i = 0 → len - i < fuel →
    ∃ b, changeHeapLoop len fuel arr i = some b ∧ Rearranged a b 0 len ∧
      (Sifting len (val arr) i → HeapOrdered len (val b)) := by
  induction fuel with
  | zero =>
      intro arr i _ _ hf
      exact absurd hf (Nat.not_lt_zero _)
  | succ fuel ih =>
      intro arr i hr hi hf
      have hlength := hr.length
      rw [changeHeapLoop, lchild, rchild, int32, int32, if_pos (by omega), if_pos (by omega)]
      simp only [Option.bind_eq_bind, Option.bind_some, Option.map_some]
      by_cases hl : 2 * i + 1 < len
      · rw [if_pos hl, if_pos trivial]
        obtain ⟨m, heq, hm⟩ := threeMax_spec arr (p := i) (by omega) (by omega) hfit
        rw [heq, Option.bind_some]
        by_cases hmi : m = i
        · subst hmi
          rw [if_pos rfl]
          exact ⟨arr, rfl, hr, fun h => h.done hm.self⟩
        · have hmlen : m < len := hm.lt (by omega)
          obtain ⟨hchild, _⟩ := hm.child hmi
          rw [if_neg hmi, swap_eq (by omega) (by omega), Option.bind_some]
          have hr' := hr.trans (.swapped (by omega) (by omega) (by omega) (by omega) :
            Rearranged arr (swapped arr i m) 0 len)
          have hless : len - m < fuel := by
            unfold Child at hchild
            omega
          obtain ⟨b, hb, hrb, hheap⟩ := ih hr' (Or.inl hmlen) hless
          refine ⟨b, hb, hrb, fun h => hheap ?_⟩
          exact h.down hm hmi (by omega) (val_swapped (by omega) (by omega))
      · have hno : ¬ 2 * i + 2 < len := by omega
        rw [if_neg hl, if_neg (by simpa using hno)]
        refine ⟨arr, rfl, hr, fun h => h.done ?_⟩
        exact forall_child (fun hc => absurd hc hl) fun hc => absurd hc hno

theorem changeHeap_spec (arr : List Int) (len : Nat) (hlen : len ≤ arr.length)
    (hfit : 2 * len < 2147483648) :
    ∃ b, changeHeap arr len = some b ∧ Rearranged arr b 0 len ∧
      (Sifting len (val arr) 0 → HeapOrdered len (val b)) :=
  changeHeapLoop_spec hlen hfit (len + 1) (.refl arr 0 len) (Or.inr rfl) (by omega)

/-- **`change_heap` repairs the root**: where only the root may be below a greater child, it leaves a heap of
    the elements it was given, and nothing else is touched. -/
theorem change_heap_repairs (hlen : len ≤ arr.length) (hfit : 2 * len < 2147483648)
    (hord : ∀ p c, 1 ≤ p → Child p c → c < len → val arr c ≤ val arr p) :
    ∃ arr', changeHeap arr len = some arr' ∧ HeapOrdered len (val arr') ∧
      (slice arr' 0 len).Perm (slice arr 0 len) ∧ arr'.length = arr.length ∧
      ∀ i, len ≤ i → arr'[i]? = arr[i]? := by
  obtain ⟨arr', heq, hr, hheap⟩ := changeHeap_spec arr len hlen hfit
  have hsifting : Sifting len (val arr) 0 := by
    refine ⟨fun p c hc hcl hp => hord p c (Nat.one_le_iff_ne_zero.mpr hp) hc hcl, ?_⟩
    -- the root is the child of no node
    intro p c hp
    unfold Child at hp
    omega
  exact ⟨arr', heq, hheap hsifting, hr.slice_perm (Nat.zero_le len) hlen, hr.length,
    fun i hi => hr.getElem?_frame (Or.inr hi)⟩

/-- A root with two equal children, of which the left one has a single child, and an element behind. -/
theorem change_heap_repairs_four :
    ∃ arr', changeHeap [1, 7, 7, 4, 9] 4 = some arr' ∧ HeapOrdered 4 (val arr') ∧
      (slice arr' 0 4).Perm (slice [1, 7, 7, 4, 9] 0 4) ∧ arr'.length = 5 ∧
      ∀ i, 4 ≤ i → arr'[i]? = ([1, 7, 7, 4, 9] : List Int)[i]? := by
  apply change_heap_repairs
  · decide
  · decide
  · intro p c hp hc hcl
    obtain ⟨rfl, rfl⟩ : p = 1 ∧ c = 3 := by
      unfold Child at hc
      omega
    decide

/-! ## heap_sort -/

/-- The prefix of `l` elements has its greatest one at the root and would be a heap without root and last
    element; the elements behind it are sorted, and none of the prefix is greater. -/
structure Ready (arr : List Int) (l : Nat) : Prop where
  root    : ∀ i < l, val arr i ≤ val arr 0
  ordered : ∀ p c, Child p c → c + 1 < l → p ≠ 0 → val arr c ≤ val arr p
  sorted  : SortedOn arr l arr.length
  bound   : ∀ i j, i < l → l ≤ j → j < arr.length → val arr i ≤ val arr j

/-- What is behind the prefix is sorted with it where the prefix has at most one element. -/
theorem Ready.finish (h : Ready arr l) (hl : l ≤ 1) : SortedOn arr 0 arr.length := by
  intro i j _ hij hj
  by_cases hi : i < l
  · exact h.bound i j hi (by omega) hj
  · exact h.sorted i j (by omega) hij hj

/-- After the exchange of root and last element only the root may be out of order. -/
theorem Ready.sifting (h : Ready arr (l + 2)) :
    Sifting (l + 1) (val (swapped arr 0 (l + 1))) 0 := by
  constructor
  · intro p c hc hcl hp
    unfold Child at hc
    rw [val_swapped_ne (by omega) (by omega), val_swapped_ne (by omega) (by omega)]
    exact h.ordered p c hc (by omega) hp
  · intro p c hp
    unfold Child at hp
    omega

/-- **One extraction**: the greatest element of the prefix joins the sorted ones. -/
theorem Ready.extract (h : Ready arr (l + 2)) (hlen : l + 2 ≤ arr.length)
    (hr : Rearranged (swapped arr 0 (l + 1)) arr' 0 (l + 1)) (hheap : HeapOrdered (l + 1) (val arr')) :
    Ready arr' (l + 1) := by
  have hlength := hr.length
  rw [length_swapped] at hlength
  have hlast : val arr' (l + 1) = val arr 0 := by
    rw [hr.frame _ (Or.inr (Nat.le_refl _)), val_swapped_right (by omega)]
  have hrest : ∀ {j}, l + 2 ≤ j → val arr' j = val arr j := by
    intro j hj
    rw [hr.frame j (Or.inr (by omega)), val_swapped_ne (by omega) (by omega)]
  -- a bound on all of the old prefix is one on what is left of it
  have hprefix : ∀ {x}, (∀ i < l + 2, val arr i ≤ x) → ∀ i < l + 1, val arr' i ≤ x := by
    intro x hx i hi
    refine hr.forall_val (P := (· ≤ x)) (Nat.zero_le _) (by rw [length_swapped]; omega) ?_ i i.zero_le hi
    intro k _ hk
    by_cases hk0 : k = 0
    · subst hk0
      rw [val_swapped_left (by omega)]
      exact hx (l + 1) (by omega)
    · rw [val_swapped_ne hk0 (by omega)]
      exact hx k (by omega)
  refine ⟨hheap.le_root, fun p c hc hcl _ => hheap p c hc (by omega), ?_, ?_⟩
  · intro i j hi hij hj
    rw [hrest (by omega : l + 2 ≤ j)]
    by_cases hil : i = l + 1
    · subst hil
      rw [hlast]
      exact h.bound 0 j (by omega) (by omega) (by omega)
    · rw [hrest (by omega)]
      exact h.sorted i j (by omega) hij (by omega)
  · intro i j hi hj hjl
    by_cases hjl' : j = l + 1
    · rw [hjl', hlast]
      exact hprefix h.root i hi
    · rw [hrest (by omega : l + 2 ≤ j)]
      exact hprefix (fun i hi => h.bound i j hi (by omega) (by omega)) i hi

/-- **The loop of `heap_sort`** always ends inside the array, and sorts it from a ready prefix. -/
theorem heapSortLoop_spec (l : Nat) : ∀ arr : List Int, l ≤ arr.length → 2 * l < 2147483648 →
    ∃ b, heapSortLoop l arr = some b ∧ b.Perm arr ∧ (Ready arr l → SortedOn b 0 b.length) := by
  induction l using Nat.strongRecOn with
  | ind l ih =>
      intro arr hlen hfit
      rcases l with _ | _ | l
      · exact ⟨arr, rfl, List.Perm.refl arr, fun h => h.finish (Nat.zero_le 1)⟩
      · exact ⟨arr, rfl, List.Perm.refl arr, fun h => h.finish (Nat.le_refl 1)⟩
      · have hswap : (swapped arr 0 (l + 1)).Perm arr := swapped_perm (by omega) (by omega)
        have hlength := hswap.length_eq
        obtain ⟨arr₁, heq₁, hr₁, hheap₁⟩ :=
          changeHeap_spec (swapped arr 0 (l + 1)) (l + 1) (by omega) (by omega)
        have hlength₁ := hr₁.length
        obtain ⟨b, heq, hperm, hsorted⟩ := ih (l + 1) (Nat.lt_succ_self _) arr₁ (by omega) (by omega)
        refine ⟨b, ?_, hperm.trans (hr₁.perm.trans hswap), ?_⟩
        · rw [heapSortLoop, swap_eq (by omega) (by omega)]
          simp only [Option.bind_eq_bind, Option.bind_some, heq₁, heq]
        · intro h
          exact hsorted (h.extract hlen hr₁ (hheap₁ h.sifting))

/-- Before the first extraction nothing is behind the prefix. -/
theorem ready_start (hroot : ∀ i < arr.length, val arr i ≤ val arr 0)
    (hord : ∀ p c, Child p c → c + 1 < arr.length → p ≠ 0 → val arr c ≤ val arr p) : Ready arr arr.length :=
  ⟨hroot, hord, fun i j hi hij hj => by omega, fun i j _ hj hjl => by omega⟩

/-- **`heap_sort` sorts** every array of up to four elements, and every array in which under no node there
    are two elements above it in its greater child; of an array without that `creat_heap` makes no heap. In
    all cases it returns a permutation. -/
theorem heap_sort_sorts_when (hfit : 2 * arr.length < 2147483648) :
    ∃ arr', heapSort arr arr.length = some arr' ∧ arr'.Perm arr ∧
      (arr.length ≤ 4 ∨ OneGreaterBelow arr → arr'.Pairwise (· ≤ ·)) ∧
      (¬ OneGreaterBelow arr →
        ∃ b, creatHeap arr arr.length = some b ∧ ¬ HeapOrdered arr.length (val b)) := by
  obtain ⟨b, heq, hperm, hroot, hiff⟩ := creatHeap_heapOrdered_iff hfit
  have hlen := hperm.length_eq
  rw [← hlen] at hroot hfit
  obtain ⟨arr', heq', hperm', hsorted⟩ := heapSortLoop_spec b.length b (Nat.le_refl _) hfit
  refine ⟨arr', ?_, hperm'.trans hperm, ?_, fun hnot => ⟨b, heq, mt hiff.mp hnot⟩⟩
  · unfold heapSort
    rw [heq, Option.bind_eq_bind, Option.bind_some, ← hlen, heq']
  · intro hcond
    have hready : Ready b b.length := by
      apply ready_start hroot
      intro p c hc hcl hp
      rcases hcond with hshort | hone
      · -- only the root has a child before the last of four elements
        unfold Child at hc
        omega
      · exact hiff.mpr hone p c hc (by omega)
    rw [List.pairwise_iff_getElem]
    intro i j hi hj hij
    rw [← val_eq_getElem hi, ← val_eq_getElem hj]
    exact hsorted hready i j (Nat.zero_le i) hij hj

/-- Five elements `creat_heap` makes a heap of, and five it does not. -/
theorem heap_sort_sorts_when_five :
    (∃ arr', heapSort [4, 5, 3, 1, 2] 5 = some arr' ∧ arr'.Perm [4, 5, 3, 1, 2] ∧ arr'.Pairwise (· ≤ ·)) ∧
    ∃ b, creatHeap [1, 5, 2, 4, 3] 5 = some b ∧ ¬ HeapOrdered 5 (val b) := by
  constructor
  · obtain ⟨arr', heq, hperm, hsorts, _⟩ := @heap_sort_sorts_when [4, 5, 3, 1, 2] (by decide)
    refine ⟨arr', heq, hperm, hsorts (Or.inr ?_)⟩
    simp [OneGreaterBelow, tree_of_lt, tree_of_le, val, OneGreater, greaterChild, elems, above]
  · obtain ⟨_, _, _, _, hdefect⟩ := @heap_sort_sorts_when [1, 5, 2, 4, 3] (by decide)
    apply hdefect
    simp [OneGreaterBelow, tree_of_lt, tree_of_le, val, OneGreater, greaterChild, elems, above]

/-- The 1 goes down below the 5 in the last exchange of `creat_heap`, and stays above the 4 and the 3. -/
theorem heap_sort_unsorted :
    ¬ ∃ arr', heapSort [1, 5, 2, 4, 3] 5 = some arr' ∧ arr'.Pairwise (· ≤ ·) ∧
      arr'.Perm [1, 5, 2, 4, 3] := by
  have heq : heapSort [1, 5, 2, 4, 3] 5 = some [1, 2, 4, 3, 5] := by decide
  rintro ⟨arr', heq', hsorted, _⟩
  obtain rfl : [1, 2, 4, 3, 5] = arr' := Option.some.inj (heq.symm.trans heq')
  exact absurd hsorted (by decide)

end Sorting
