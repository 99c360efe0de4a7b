import ApueToyCodes.Lib.ArrayHeap
import ApueToyCodes.Sorting.InsertSort

/-!
# `Sorting.Correctness.CreatHeap` — what `creat_heap` builds

`three_max` finds the greatest of a node and its children (`ArrayHeap.Largest`). `creat_heap` makes one
exchange at every node, from the last to the first, and does not follow the element that went down: in the
tree of the array that is `HeapTree.Built`, which brings the greatest element to the root but makes a heap
only where under no node there are two elements above it in its greater child.
-/

namespace Sorting
open CArray HeapTree ArrayHeap

variable {a arr : List Int} {len : Nat}

/-- **`three_max`** stays inside the array where the child indices fit in an `int`. -/
theorem threeMax_spec (arr : List Int) {p : Nat} (hp : p < len) (hlen : len ≤ arr.length)
    (hfit : 2 * len < 2147483648) :
    ∃ m, threeMax arr p len = some m ∧ Largest len (val arr) p m := by
  unfold threeMax lchild rchild int32
  rw [if_pos (by omega), if_pos (by omega)]
  simp only [Option.bind_eq_bind, Option.bind_some]
  by_cases hr : 2 * p + 2 < len
  · rw [if_pos ⟨by omega, hr⟩, read_eq (by omega), read_eq (by omega), read_eq (by omega)]
    simp only [Option.bind_some]
    by_cases hlr : val arr (2 * p + 1) < val arr (2 * p + 2)
    · rw [if_pos hlr]
      by_cases hx : val arr (2 * p + 2) > val arr p
      · rw [if_pos hx]
        exact ⟨_, rfl, .right hr hx hlr⟩
      · rw [if_neg hx]
        have hle := Int.not_lt.mp hx
        exact ⟨p, rfl, .stay (forall_child (fun _ => (Int.le_of_lt hlr).trans hle) fun _ => hle)⟩
    · rw [if_neg hlr]
      by_cases hx : val arr (2 * p + 1) > val arr p
      · rw [if_pos hx]
        exact ⟨_, rfl, .left (by omega) hx fun _ => Int.not_lt.mp hlr⟩
      · rw [if_neg hx]
        have hle := Int.not_lt.mp hx
        exact ⟨p, rfl, .stay (forall_child (fun _ => hle) fun _ => (Int.not_lt.mp hlr).trans hle)⟩
  · rw [if_neg (fun h => hr h.2)]
    by_cases hl : 2 * p + 1 < len
    · rw [if_pos hl, read_eq (by omega), read_eq (by omega)]
      simp only [Option.bind_some]
      by_cases hx : val arr (2 * p + 1) > val arr p
      · rw [if_pos hx]
        exact ⟨_, rfl, .left hl hx fun h => absurd h hr⟩
      · rw [if_neg hx]
        exact ⟨p, rfl, .stay (forall_child (fun _ => Int.not_lt.mp hx) fun hc => absurd hc hr)⟩
    · -- a leaf; there is no right child without a left one
      rw [if_neg hl, if_neg hr]
      exact ⟨p, rfl, .stay (forall_child (fun hc => absurd hc hl) fun hc => absurd hc hr)⟩

/-- **The loop of `creat_heap`**: one exchange at every node, children first. -/
theorem creatHeapLoop_spec (hlen : len ≤ a.length) (hfit : 2 * len < 2147483648) (ll : Nat) :
    ∀ {arr : List Int}, ll ≤ len → arr.Perm a → Stage len (val a) (val arr) ll →
    ∃ b, creatHeapLoop len ll arr = some b ∧ b.Perm a ∧ Built (tree len (val a) 0) (tree len (val b) 0) := by
  induction ll with
  | zero =>
      intro arr _ hperm hstage
      exact ⟨arr, rfl, hperm, hstage.finish⟩
  | succ p ih =>
      intro arr hp hperm hstage
      have hlength := hperm.length_eq
      obtain ⟨m, heq, hm⟩ := threeMax_spec arr hp (by omega) hfit
      have hmlen := hm.lt hp
      rw [creatHeapLoop, heq]
      simp only [Option.bind_eq_bind, Option.bind_some]
      rw [swap_eq (by omega) (by omega), Option.bind_some]
      apply ih
      · omega
      · exact (swapped_perm (by omega) (by omega)).trans hperm
      · exact hstage.next hp hm (val_swapped (by omega) (by omega))

/-- **`creat_heap`** of a whole array. -/
theorem creatHeap_built (hfit : 2 * a.length < 2147483648) :
    ∃ b, creatHeap a a.length = some b ∧ b.Perm a ∧
      Built (tree a.length (val a) 0) (tree a.length (val b) 0) :=
  creatHeapLoop_spec (Nat.le_refl _) hfit a.length (Nat.le_refl _) (List.Perm.refl a) .start

/-- No node has two elements above it under its greater child, the left one where the greatest elements under
    both are equal. -/
def OneGreaterBelow (arr : List Int) : Prop := OneGreater (tree arr.length (val arr) 0)

/-- **`creat_heap` makes a heap** exactly of the arrays in which one exchange a node is enough. -/
theorem creatHeap_heapOrdered_iff (hfit : 2 * a.length < 2147483648) :
    ∃ b, creatHeap a a.length = some b ∧ b.Perm a ∧ (∀ j < a.length, val b j ≤ val b 0) ∧
      (HeapOrdered a.length (val b) ↔ OneGreaterBelow a) := by
  obtain ⟨b, heq, hperm, hbuilt⟩ := creatHeap_built hfit
  refine ⟨b, heq, hperm, ?_, ?_⟩
  · intro j hj
    have hroot : val b 0 ∈ root? (tree a.length (val b) 0) := mem_root?_tree.mpr ⟨by omega, rfl⟩
    exact hbuilt.rootMax _ hroot _ (mem_elems_tree (under_zero j) hj)
  · rw [← isHeap_tree_zero]
    exact hbuilt.isHeap_iff

/-- **`creat_heap` builds a heap** only of the arrays in which one exchange a node is enough. -/
theorem creat_heap_builds_iff (hfit : 2 * a.length < 2147483648) :
    (∃ b, creatHeap a a.length = some b ∧ b.Perm a ∧ HeapOrdered a.length (val b)) ↔ OneGreaterBelow a := by
  obtain ⟨b, heq, hperm, _, hiff⟩ := creatHeap_heapOrdered_iff hfit
  rw [← hiff]
  constructor
  · rintro ⟨b', heq', _, hheap⟩
    obtain rfl := Option.some.inj (heq.symm.trans heq')
    exact hheap
  · exact fun hheap => ⟨b, heq, hperm, hheap⟩

/-- The 3 of the root goes down once, to the 1 and the 2. -/
theorem creat_heap_builds_iff_five :
    ∃ b, creatHeap [3, 5, 4, 1, 2] 5 = some b ∧ b.Perm [3, 5, 4, 1, 2] ∧ HeapOrdered 5 (val b) := by
  apply (creat_heap_builds_iff (a := [3, 5, 4, 1, 2]) (by decide)).mpr
  simp [OneGreaterBelow, tree_of_lt, tree_of_le, val, OneGreater, greaterChild, elems, above]

/-- The 1 of the root goes down once, and stays above the 4. -/
theorem creat_heap_one_exchange :
    creatHeap [1, 5, 2, 4, 3] 5 = some [5, 1, 2, 4, 3] ∧
    ¬ ∃ b, creatHeap [1, 5, 2, 4, 3] 5 = some b ∧ b.Perm [1, 5, 2, 4, 3] ∧ HeapOrdered 5 (val b) := by
  have heq : creatHeap [1, 5, 2, 4, 3] 5 = some [5, 1, 2, 4, 3] := by decide
  refine ⟨heq, ?_⟩
  rintro ⟨b, heq', _, hheap⟩
  obtain rfl := Option.some.inj (heq.symm.trans heq')
  exact absurd (hheap 1 3 (Or.inl rfl) (by decide)) (by decide)

end Sorting
