import Mathlib.Data.List.Basic
import Mathlib.Logic.Equiv.Basic
import Mathlib.Order.Basic

/-!
# `Lib.CArray` — arrays in place

An array is a list whose reads and writes fail outside it. `val` is the array as a function of the index;
`swapped` exchanges two elements; `Rearranged a b lo hi` says that `b` is `a` with the elements of `[lo, hi)`
permuted among themselves, `SortedOn a lo hi` that they are in ascending order. These compose along an
algorithm that works on parts of an array, and give the statements on `slice`s at the end.
-/

namespace CArray

universe u

variable {α : Type u}

/-- `a[i]` -/
def read (a : List α) (i : Nat) : Option α := a[i]?

/-- `a[i] = v` -/
def write (a : List α) (i : Nat) (v : α) : Option (List α) :=
  if i < a.length then some (a.set i v) else none

/-- Exchange two elements. -/
def swap (a : List α) (i j : Nat) : Option (List α) := do
  let x ← read a i
  let y ← read a j
  let a ← write a i y
  write a j x

/-- The elements with index in `[lo, hi)`. -/
def slice (a : List α) (lo hi : Nat) : List α := (a.take hi).drop lo

variable [Inhabited α]

/-- The array as a function of the index. -/
def val (a : List α) (i : Nat) : α := a.getD i default

variable {a b c : List α} {i j k lo hi : Nat} {x : α}

theorem val_eq_getElem (h : i < a.length) : val a i = a[i] := by
  unfold val
  rw [List.getD_eq_getElem?_getD, List.getElem?_eq_getElem h]
  rfl

theorem getElem?_eq_val (h : i < a.length) : a[i]? = some (val a i) := by
  rw [List.getElem?_eq_getElem h, val_eq_getElem h]

theorem read_eq (h : i < a.length) : read a i = some (val a i) := getElem?_eq_val h

omit [Inhabited α] in
theorem write_eq (h : i < a.length) (v : α) : write a i v = some (a.set i v) := if_pos h

omit [Inhabited α] in
/-- An element is as it was where another one is written. -/
theorem getElem?_of_write (h : write a i x = some b) (hne : i ≠ j) : b[j]? = a[j]? := by
  unfold write at h
  split at h
  · obtain rfl := Option.some.inj h
    exact List.getElem?_set_ne hne
  · cases h

theorem val_set_self (h : i < a.length) : val (a.set i x) i = x := by
  rw [val_eq_getElem (by rw [List.length_set]; exact h), List.getElem_set_self]

theorem val_set_ne (h : j ≠ i) : val (a.set i x) j = val a j := by
  unfold val
  rw [List.getD_eq_getElem?_getD, List.getD_eq_getElem?_getD, List.getElem?_set_ne (Ne.symm h)]

/-- Arrays of one length with the same elements are equal. -/
theorem ext_val (hlen : a.length = b.length) (h : ∀ i < a.length, val a i = val b i) : a = b := by
  apply List.ext_getElem hlen
  intro i h₁ h₂
  rw [← val_eq_getElem h₁, ← val_eq_getElem h₂]
  exact h i h₁

/-! ## Exchanging two elements -/

/-- The array with two elements exchanged. -/
def swapped (a : List α) (i j : Nat) : List α := (a.set i (val a j)).set j (val a i)

@[simp] theorem length_swapped : (swapped a i j).length = a.length := by simp [swapped]

theorem swap_eq (hi : i < a.length) (hj : j < a.length) : swap a i j = some (swapped a i j) := by
  unfold swap
  rw [read_eq hi, read_eq hj]
  show (write a i (val a j)).bind (fun a' => write a' j (val a i)) = _
  rw [write_eq hi, Option.bind_some, write_eq (by rw [List.length_set]; exact hj)]
  rfl

theorem swapped_perm (hi : i < a.length) (hj : j < a.length) : (swapped a i j).Perm a := by
  unfold swapped
  rw [val_eq_getElem hi, val_eq_getElem hj]
  exact List.set_set_perm hi hj

theorem val_swapped_right (hj : j < a.length) : val (swapped a i j) j = val a i :=
  val_set_self (by rw [List.length_set]; exact hj)

theorem val_swapped_left (hi : i < a.length) : val (swapped a i j) i = val a j := by
  by_cases h : i = j
  · subst h
    exact val_swapped_right hi
  · unfold swapped
    rw [val_set_ne h, val_set_self hi]

theorem val_swapped_ne (hi : k ≠ i) (hj : k ≠ j) : val (swapped a i j) k = val a k := by
  unfold swapped
  rw [val_set_ne hj, val_set_ne hi]

/-- An exchange is a transposition of the indices. -/
theorem val_swapped (hi : i < a.length) (hj : j < a.length) (k : Nat) :
    val (swapped a i j) k = val a (Equiv.swap i j k) := by
  by_cases hki : k = i
  · subst hki
    rw [Equiv.swap_apply_left, val_swapped_left hi]
  by_cases hkj : k = j
  · subst hkj
    rw [Equiv.swap_apply_right, val_swapped_right hj]
  · rw [Equiv.swap_apply_of_ne_of_ne hki hkj, val_swapped_ne hki hkj]

/-- **Moving a hole.** Where the element at `i` is kept aside as `x`, copying `a[j]` over it and taking `j`
    for the hole is an exchange of the array with its hole filled. -/
theorem fill_move (hi : i < a.length) (hij : i ≠ j) :
    (a.set i (val a j)).set j x = swapped (a.set i x) i j := by
  unfold swapped
  rw [val_set_self hi, val_set_ne (Ne.symm hij), List.set_set]

/-! ## Rearranging a part of an array -/

/-- `b` is `a` with the elements of `[lo, hi)` permuted among themselves. -/
structure Rearranged (a b : List α) (lo hi : Nat) : Prop where
  perm  : b.Perm a
  frame : ∀ i, i < lo ∨ hi ≤ i → val b i = val a i

namespace Rearranged

theorem refl (a : List α) (lo hi : Nat) : Rearranged a a lo hi := ⟨List.Perm.refl a, fun _ _ => rfl⟩

theorem length (h : Rearranged a b lo hi) : b.length = a.length := h.perm.length_eq

theorem trans (h : Rearranged a b lo hi) (h' : Rearranged b c lo hi) : Rearranged a c lo hi :=
  ⟨h'.perm.trans h.perm, fun i hi => (h'.frame i hi).trans (h.frame i hi)⟩

theorem mono {lo' hi' : Nat} (h : Rearranged a b lo hi) (hlo : lo' ≤ lo) (hhi : hi ≤ hi') :
    Rearranged a b lo' hi' := by
  refine ⟨h.perm, fun i hi => h.frame i ?_⟩
  omega

theorem swapped (hi' : i < a.length) (hj' : j < a.length) (h : lo ≤ i ∧ i < hi)
    (h' : lo ≤ j ∧ j < hi) : Rearranged a (CArray.swapped a i j) lo hi := by
  refine ⟨swapped_perm hi' hj', fun k hk => val_swapped_ne ?_ ?_⟩
  · omega
  · omega

end Rearranged

omit [Inhabited α] in
theorem length_slice (lo : Nat) (h : hi ≤ a.length) : (slice a lo hi).length = hi - lo := by
  unfold slice
  rw [List.length_drop, List.length_take, Nat.min_eq_left h]

theorem val_slice (h : hi ≤ a.length) (hk : k < hi - lo) : val (slice a lo hi) k = val a (lo + k) := by
  have hlen := length_slice lo h
  rw [val_eq_getElem (by omega), val_eq_getElem (by omega)]
  simp only [slice, List.getElem_drop, List.getElem_take]

theorem mem_slice (h : hi ≤ a.length) : x ∈ slice a lo hi ↔ ∃ k, lo ≤ k ∧ k < hi ∧ val a k = x := by
  have hlen := length_slice lo h
  rw [List.mem_iff_getElem]
  constructor
  · rintro ⟨k, hk, rfl⟩
    refine ⟨lo + k, Nat.le_add_right _ _, by omega, ?_⟩
    rw [← val_slice h (by omega), val_eq_getElem hk]
  · rintro ⟨k, hlo, hhi, rfl⟩
    refine ⟨k - lo, by omega, ?_⟩
    rw [← val_eq_getElem, val_slice h (by omega), Nat.add_sub_cancel' hlo]

/-- **A rearranged part is a permutation of that part.** -/
theorem Rearranged.slice_perm (h : Rearranged a b lo hi) (hlo : lo ≤ hi) (hhi : hi ≤ a.length) :
    (slice b lo hi).Perm (slice a lo hi) := by
  have hlen := h.length
  have hsplit : ∀ l : List α, l = l.take lo ++ (slice l lo hi ++ l.drop hi) := by
    intro l
    have htake : l.take hi = l.take lo ++ slice l lo hi := by
      conv_lhs => rw [← List.take_append_drop lo (l.take hi), List.take_take, Nat.min_eq_left hlo]
      rfl
    rw [← List.append_assoc, ← htake, List.take_append_drop]
  have htake : b.take lo = a.take lo := by
    apply ext_val (by simp [hlen])
    intro k hk
    rw [List.length_take] at hk
    rw [val_eq_getElem (by rw [List.length_take]; exact hk), List.getElem_take,
      val_eq_getElem (by rw [List.length_take]; omega), List.getElem_take, ← val_eq_getElem (by omega),
      ← val_eq_getElem (by omega)]
    exact h.frame k (Or.inl (by omega))
  have hdrop : b.drop hi = a.drop hi := by
    apply ext_val (by simp [hlen])
    intro k hk
    rw [List.length_drop] at hk
    rw [val_eq_getElem (by rw [List.length_drop]; exact hk), List.getElem_drop,
      val_eq_getElem (by rw [List.length_drop]; omega), List.getElem_drop, ← val_eq_getElem (by omega),
      ← val_eq_getElem (by omega)]
    exact h.frame (hi + k) (Or.inr (Nat.le_add_right _ _))
  have hperm := h.perm
  rw [hsplit a, hsplit b, htake, hdrop] at hperm
  exact (List.perm_append_right_iff _).mp ((List.perm_append_left_iff _).mp hperm)

/-- A bound on the elements of a part survives its rearrangement. -/
theorem Rearranged.forall_val {P : α → Prop} (h : Rearranged a b lo hi) (hlo : lo ≤ hi)
    (hhi : hi ≤ a.length) (ha : ∀ k, lo ≤ k → k < hi → P (val a k)) :
    ∀ k, lo ≤ k → k < hi → P (val b k) := by
  intro k hk1 hk2
  have hmem : val b k ∈ slice b lo hi := (mem_slice (by rw [h.length]; exact hhi)).mpr ⟨k, hk1, hk2, rfl⟩
  obtain ⟨m, hm1, hm2, heq⟩ := (mem_slice hhi).mp ((h.slice_perm hlo hhi).mem_iff.mp hmem)
  rw [← heq]
  exact ha m hm1 hm2

/-! ## Order -/

/-- The elements of `[lo, hi)` are in ascending order. -/
def SortedOn [LE α] (a : List α) (lo hi : Nat) : Prop :=
  ∀ i j, lo ≤ i → i < j → j < hi → val a i ≤ val a j

theorem SortedOn.pairwise [LE α] (h : SortedOn a lo hi) (hhi : hi ≤ a.length) :
    (slice a lo hi).Pairwise (· ≤ ·) := by
  have hlen := length_slice lo hhi
  rw [List.pairwise_iff_getElem]
  intro i j hi hj hij
  rw [← val_eq_getElem hi, ← val_eq_getElem hj, val_slice hhi (by omega), val_slice hhi (by omega)]
  exact h _ _ (Nat.le_add_right _ _) (by omega) (by omega)

/-- The same order in the same elements. -/
theorem SortedOn.congr [LE α] (h : SortedOn a lo hi) (heq : ∀ k, lo ≤ k → k < hi → val b k = val a k) :
    SortedOn b lo hi := by
  intro i j h1 h2 h3
  rw [heq i h1 (by omega), heq j (by omega) h3]
  exact h i j h1 h2 h3

/-- Two sorted parts with a pivot between them. -/
theorem sortedOn_pivot [Preorder α] {p : Nat} (hl : SortedOn a lo p) (hr : SortedOn a (p + 1) hi)
    (hleft : ∀ k, lo ≤ k → k < p → val a k ≤ val a p)
    (hright : ∀ k, p + 1 ≤ k → k < hi → val a p ≤ val a k) : SortedOn a lo hi := by
  intro i j h1 h2 h3
  rcases Nat.lt_trichotomy j p with hj | rfl | hj
  · exact hl i j h1 h2 hj
  · exact hleft i h1 h2
  rcases Nat.lt_trichotomy i p with hi | rfl | hi
  · exact le_trans (hleft i h1 hi) (hright j hj h3)
  · exact hright j hj h3
  · exact hr i j hi h2 h3

/-! ## Sorting a range -/

/-- `b` is `a` with the range `[lo, hi)` sorted and nothing else changed. -/
structure RangeSorted [LE α] (a b : List α) (lo hi : Nat) : Prop where
  sorted : (slice b lo hi).Pairwise (· ≤ ·)
  perm   : (slice b lo hi).Perm (slice a lo hi)
  length : b.length = a.length
  frame  : ∀ i, i < lo ∨ hi ≤ i → b[i]? = a[i]?

theorem Rearranged.getElem?_frame (h : Rearranged a b lo hi) (hi' : i < lo ∨ hi ≤ i) : b[i]? = a[i]? := by
  have hlen := h.length
  by_cases hi : i < a.length
  · rw [getElem?_eq_val hi, getElem?_eq_val (by omega), h.frame i hi']
  · rw [List.getElem?_eq_none (by omega), List.getElem?_eq_none (by omega)]

theorem Rearranged.rangeSorted [LE α] (h : Rearranged a b lo hi) (hs : SortedOn b lo hi) (hlo : lo ≤ hi)
    (hhi : hi ≤ a.length) : RangeSorted a b lo hi :=
  ⟨hs.pairwise (by rw [h.length]; exact hhi), h.slice_perm hlo hhi, h.length,
    fun _ hi => h.getElem?_frame hi⟩

/-! ## An array cut into pieces -/

omit [Inhabited α]

theorem read_append (pre post : List α) (x : α) : read (pre ++ x :: post) pre.length = some x := by
  unfold read
  rw [List.getElem?_append_right (Nat.le_refl _), Nat.sub_self]
  rfl

theorem write_append (pre post : List α) (x v : α) :
    write (pre ++ x :: post) pre.length v = some (pre ++ v :: post) := by
  unfold write
  rw [if_pos (by simp), List.set_append_right _ _ (Nat.le_refl _), Nat.sub_self]
  rfl

theorem slice_append (pre mid post : List α) :
    slice (pre ++ (mid ++ post)) pre.length (pre.length + mid.length) = mid := by
  unfold slice
  rw [← List.append_assoc, ← List.length_append, List.take_left, List.drop_left]

/-- Sorting the piece in the middle sorts its range. -/
theorem rangeSorted_append [LE α] {pre mid mid' post : List α} (hp : mid'.Perm mid)
    (hs : mid'.Pairwise (· ≤ ·)) :
    RangeSorted (pre ++ (mid ++ post)) (pre ++ (mid' ++ post)) pre.length (pre.length + mid.length) := by
  have hlen := hp.length_eq
  have hslice := slice_append pre mid' post
  rw [hlen] at hslice
  refine ⟨?_, ?_, by simp [hlen], ?_⟩
  · rw [hslice]
    exact hs
  · rw [hslice, slice_append]
    exact hp
  · intro i hi
    rcases hi with hi | hi
    · rw [List.getElem?_append_left hi, List.getElem?_append_left hi]
    · rw [List.getElem?_append_right (by omega), List.getElem?_append_right (by omega),
        List.getElem?_append_right (by omega), List.getElem?_append_right (by omega), hlen]

/-- An array is cut at the ends of any range. -/
theorem exists_pieces {lo hi : Nat} {a : List α} (hlo : lo ≤ hi) (hhi : hi ≤ a.length) :
    ∃ pre mid post, a = pre ++ (mid ++ post) ∧ pre.length = lo ∧ pre.length + mid.length = hi := by
  refine ⟨a.take lo, (a.drop lo).take (hi - lo), (a.drop lo).drop (hi - lo), ?_, ?_, ?_⟩
  · rw [List.take_append_drop, List.take_append_drop]
  · rw [List.length_take, Nat.min_eq_left (by omega)]
  · rw [List.length_take, List.length_take, List.length_drop]
    omega

end CArray
