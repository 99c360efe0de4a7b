import ApueToyCodes.Sorting.InsertSort

/-!
# `Sorting.Correctness.MergeSort` — merge sort, and how far its midpoint reaches

`merge` copies the left half away and reads the right half in place. In between lies a gap of as many cells
as elements of the left half are left (`mergeLoop_eq`), so a write never reaches an unread element of the
right half. What comes out is `List.merge`.

The midpoint `(lo+hi)/2` of the recursion on the right halves overflows an `int` for ranges that end beyond
2^30, even where `lo + hi` itself does not.
-/

namespace Sorting
open CArray

/-! ## merge -/

theorem copyLoop_eq (L : List Int) : ∀ pre post : List Int,
    copyLoop (pre ++ (L ++ post)) L.length pre.length = some L := by
  induction L with
  | nil => exact fun _ _ => rfl
  | cons x L ih =>
      intro pre post
      have hrec := ih (pre ++ [x]) post
      rw [List.length_append, List.append_assoc] at hrec
      rw [List.length_cons, copyLoop, List.cons_append, read_append]
      simp only [Option.bind_eq_bind, Option.bind_some]
      rw [show pre ++ x :: (L ++ post) = pre ++ ([x] ++ (L ++ post)) from rfl]
      rw [show pre.length + 1 = pre.length + [x].length from rfl, hrec]
      rfl

/-- What is left of an array from the place of its first element on. -/
theorem read_of_drop {l rest : List Int} {k : Nat} {x : Int} (h : l.drop k = x :: rest) :
    read l k = some x ∧ l.drop (k + 1) = rest := by
  constructor
  · have := congrArg List.head? h
    rwa [List.head?_drop] at this
  · rw [← List.tail_drop, h]
    rfl

/-- The first cell behind a gap. -/
theorem read_behind_gap (pre gap post : List Int) (y : Int) :
    read (pre ++ (gap ++ y :: post)) (pre.length + gap.length) = some y := by
  rw [← List.append_assoc, ← List.length_append]
  exact read_append (pre ++ gap) post y

/-- **The last loop** fills the gap with what is left of `tmpa`. -/
theorem drainLoop_eq {tmpa : List Int} {mi : Nat} (L : List Int) :
    ∀ (fuel lo k : Nat) (pre gap post : List Int), tmpa.drop k = L → lo + L.length = mi →
      gap.length = L.length → L.length < fuel →
      drainLoop tmpa mi fuel (pre ++ (gap ++ post)) pre.length lo k = some (pre ++ (L ++ post)) := by
  induction L with
  | nil =>
      intro fuel lo k pre gap post _ hlo hgap hf
      obtain ⟨f, rfl⟩ : ∃ f, fuel = f + 1 := ⟨fuel - 1, by omega⟩
      obtain rfl := List.length_eq_zero_iff.mp hgap
      simp only [List.length_nil] at hlo
      rw [drainLoop, if_neg (by omega)]
  | cons x L ih =>
      intro fuel lo k pre gap post hdrop hlo hgap hf
      obtain ⟨f, rfl⟩ : ∃ f, fuel = f + 1 := ⟨fuel - 1, by omega⟩
      obtain ⟨g, gap, rfl⟩ := List.exists_cons_of_length_eq_add_one hgap
      obtain ⟨hread, hdrop⟩ := read_of_drop hdrop
      simp only [List.length_cons] at hlo hgap hf
      rw [drainLoop, if_pos (by omega), hread, List.cons_append]
      simp only [Option.bind_eq_bind, Option.bind_some, write_append]
      have hrec := ih f (lo + 1) (k + 1) (pre ++ [x]) gap post hdrop (by omega) (by omega) (by omega)
      rw [List.length_append, List.append_assoc, List.append_assoc] at hrec
      exact hrec

/-- Between two turns of the main loop: `pre` is written, `gap` may be, `R` still stands, and `L` is left of
    `tmpa`. -/
structure Merging (tmpa : List Int) (mi hi : Nat) (L R pre gap : List Int) (lo mid k b : Nat) : Prop where
  copied  : tmpa.drop k = L
  stop    : lo + L.length = mi
  room    : gap.length = L.length
  written : pre.length + gap.length = mid
  rest    : mid + R.length = hi
  next    : mi + b = mid

section Merging

variable {tmpa L R pre gap : List Int} {mi hi lo mid k b : Nat} {x y g : Int}

/-- **The head of the right half goes out**, and its cell joins the gap. -/
theorem Merging.takeRight (h : Merging tmpa mi hi L (y :: R) pre (g :: gap) lo mid k b) :
    Merging tmpa mi hi L R (pre ++ [y]) (gap ++ [y]) lo (mid + 1) k (b + 1) := by
  obtain ⟨hdrop, hlo, hgap, hmid, hhi, hb⟩ := h
  simp only [List.length_cons] at hgap hmid hhi
  refine ⟨hdrop, hlo, ?_, ?_, by omega, by omega⟩
  · rw [List.length_append, List.length_singleton, hgap]
  · rw [List.length_append, List.length_append, List.length_singleton]
    omega

/-- **The head of the left half goes out**, into the gap. -/
theorem Merging.takeLeft (h : Merging tmpa mi hi (x :: L) R pre (g :: gap) lo mid k b) :
    Merging tmpa mi hi L R (pre ++ [x]) gap (lo + 1) mid (k + 1) b := by
  obtain ⟨hdrop, hlo, hgap, hmid, hhi, hb⟩ := h
  simp only [List.length_cons] at hlo hgap hmid
  refine ⟨(read_of_drop hdrop).2, by omega, by omega, ?_, hhi, hb⟩
  rw [List.length_append, List.length_singleton]
  omega

/-- The head of the right half is behind the gap. -/
theorem Merging.read_right (h : Merging tmpa mi hi L (y :: R) pre gap lo mid k b) (post : List Int) :
    CArray.read (pre ++ (gap ++ (y :: R ++ post))) (mi + b) = some y := by
  rw [h.next, ← h.written]
  exact read_behind_gap pre gap (R ++ post) y

end Merging

/-- **The main loop** merges. -/
theorem mergeLoop_eq {tmpa : List Int} {mi hi : Nat} (post : List Int) (fuel : Nat) :
    ∀ {L R pre gap : List Int} {lo mid k b : Nat}, Merging tmpa mi hi L R pre gap lo mid k b →
      L.length + R.length < fuel →
      mergeLoop tmpa mi hi fuel (pre ++ (gap ++ (R ++ post))) pre.length lo mid k b
        = some (pre ++ (List.merge L R ++ post)) := by
  induction fuel with
  | zero =>
      intro L R _ _ _ _ _ _ _ hf
      exact absurd hf (Nat.not_lt_zero _)
  | succ fuel ih =>
      intro L R pre gap lo mid k b h hf
      have hlo := h.stop
      have hright := h.rest
      rw [mergeLoop]
      cases L with
      | nil =>
          -- the left half is used up, and so is the gap
          rw [List.length_nil] at hlo
          rw [if_neg (by omega), List.nil_merge]
          exact drainLoop_eq [] _ lo k pre gap (R ++ post) h.copied h.stop h.room (Nat.succ_pos _)
      | cons x L =>
          simp only [List.length_cons] at hlo hf
          cases R with
          | nil =>
              rw [List.length_nil] at hright
              rw [if_neg (by omega), List.merge_right]
              exact drainLoop_eq (x :: L) _ lo k pre gap post h.copied h.stop h.room
                (by simp only [List.length_cons]; omega)
          | cons y R =>
              obtain ⟨g, gap, rfl⟩ := List.exists_cons_of_length_eq_add_one h.room
              simp only [List.length_cons] at hright hf
              rw [if_pos (by omega), (read_of_drop h.copied).1]
              simp only [Option.bind_eq_bind, Option.bind_some, h.read_right]
              by_cases hxy : x > y
              · rw [if_pos hxy, List.cons_append, write_append, Option.bind_some, List.merge,
                  if_neg (by simpa using hxy)]
                have hrec := ih h.takeRight (by simp only [List.length_cons]; omega)
                simpa only [List.append_assoc, List.length_append, List.length_singleton, List.cons_append,
                  List.nil_append] using hrec
              · rw [if_neg hxy, List.cons_append, write_append, Option.bind_some, List.merge,
                  if_pos (by simpa using hxy)]
                have hrec := ih h.takeLeft (by simp only [List.length_cons]; omega)
                simpa only [List.append_assoc, List.length_append, List.length_singleton, List.cons_append,
                  List.nil_append] using hrec

/-- **`merge`** of two adjacent pieces of an array. -/
theorem merge_eq (pre L R post : List Int) :
    merge (pre ++ (L ++ (R ++ post))) pre.length (pre.length + L.length) (pre.length + L.length + R.length)
      = some (pre ++ (List.merge L R ++ post)) := by
  unfold merge
  rw [Nat.add_sub_cancel_left, copyLoop_eq]
  simp only [Option.bind_eq_bind, Option.bind_some]
  exact mergeLoop_eq post _ ⟨rfl, rfl, rfl, rfl, rfl, rfl⟩ (by omega)

theorem pairwise_merge_le {L R : List Int} (hL : L.Pairwise (· ≤ ·)) (hR : R.Pairwise (· ≤ ·)) :
    (List.merge L R).Pairwise (· ≤ ·) := by
  have hbool : ∀ {l : List Int}, l.Pairwise (fun x y => decide (x ≤ y) = true) ↔ l.Pairwise (· ≤ ·) := by
    simp only [decide_eq_true_eq, implies_true]
  rw [← hbool] at hL hR ⊢
  apply List.pairwise_merge
  · intro x y z hxy hyz
    simp only [decide_eq_true_eq] at hxy hyz ⊢
    exact Int.le_trans hxy hyz
  · intro x y
    simpa using Int.le_total x y
  · exact hL
  · exact hR

/-! ## merge_sort -/

/-- The midpoint of the range of a piece lies in the piece, both halves are shorter. -/
theorem mid_eq {p n : Nat} (h : ¬ n ≤ 1) : (p + (p + n)) / 2 = p + n / 2 ∧ 0 < n / 2 ∧ n / 2 < n := by
  omega

/-- **Merge sort of a piece** of an array. -/
theorem mergeSort_pieces (fuel : Nat) : ∀ pre X post : List Int, X.length < fuel →
    X.length ≤ 1 ∨ pre.length + X.length ≤ 1073741824 →
    ∃ Y, mergeSort fuel (pre ++ (X ++ post)) pre.length (pre.length + X.length) = some (pre ++ (Y ++ post)) ∧
      Y.Perm X ∧ Y.Pairwise (· ≤ ·) := by
  induction fuel with
  | zero =>
      intro pre X post hf
      exact absurd hf (Nat.not_lt_zero _)
  | succ fuel ih =>
      intro pre X post hf hfit
      rw [mergeSort, Nat.add_sub_cancel_left]
      by_cases hshort : X.length ≤ 1
      · rw [if_pos hshort]
        refine ⟨X, rfl, List.Perm.refl X, ?_⟩
        rw [List.pairwise_iff_getElem]
        intro i j hi hj hij
        omega
      · obtain ⟨hmid, hpos, hless⟩ := mid_eq (p := pre.length) hshort
        rw [if_neg hshort, int32, if_pos (by omega)]
        simp only [Option.bind_eq_bind, Option.bind_some, hmid]
        obtain ⟨A, B, hX, hA⟩ : ∃ A B, X = A ++ B ∧ A.length = X.length / 2 :=
          ⟨X.take (X.length / 2), X.drop (X.length / 2), (List.take_append_drop _ _).symm,
            List.length_take_of_le (Nat.le_of_lt hless)⟩
        have hlen : X.length = A.length + B.length := by rw [hX, List.length_append]
        -- the left half, with the right half behind it
        obtain ⟨Y, heqY, hpY, hsY⟩ := ih pre A (B ++ post) (by omega) (by omega)
        have hlenY := hpY.length_eq
        -- the right half, with the sorted left half before it
        obtain ⟨Z, heqZ, hpZ, hsZ⟩ := ih (pre ++ Y) B post (by omega)
          (by rw [List.length_append]; omega)
        have hlenZ := hpZ.length_eq
        rw [List.length_append, List.append_assoc, List.append_assoc, hlenY] at heqZ
        have hmerge := merge_eq pre Y Z post
        rw [hlenY, hlenZ] at hmerge
        refine ⟨List.merge Y Z, ?_, ?_, pairwise_merge_le hsY hsZ⟩
        · rw [← hA, hX, List.append_assoc, heqY, List.length_append, ← Nat.add_assoc]
          simp only [Option.bind_some]
          rw [heqZ]
          exact hmerge
        · rw [hX]
          exact List.Perm.trans (List.merge_perm_append _) (hpY.append hpZ)

/-- **Where the midpoint overflows**: the recursion on the right halves comes down to a range of two elements
    whose ends do not add up in an `int`. -/
theorem mergeSort_overflow (fuel : Nat) : ∀ {arr : List Int} {lo hi : Nat}, 2 ≤ hi - lo →
    2147483648 ≤ hi + hi - 2 → mergeSort fuel arr lo hi = none := by
  induction fuel with
  | zero => exact fun _ _ => rfl
  | succ fuel ih =>
      intro arr lo hi hlong hhi
      rw [mergeSort, if_neg (by omega), int32]
      by_cases hsum : lo + hi < 2147483648
      · rw [if_pos hsum]
        simp only [Option.bind_eq_bind, Option.bind_some]
        cases hl : mergeSort fuel arr lo ((lo + hi) / 2) with
        | none => rfl
        | some arr₁ =>
            -- the sum is below 2^31, so the range has three elements and its right half two
            rw [Option.bind_some, ih (by omega) hhi]
            rfl
      · rw [if_neg hsum]
        rfl

/-- **`merge_sort` sorts exactly where every midpoint fits in an `int`**: the range ends at 2^30 or before,
    or there is nothing to do. -/
theorem merge_sort_sorts_iff {arr : List Int} {lo hi : Nat} (hlo : lo ≤ hi) (hhi : hi ≤ arr.length) :
    (∃ fuel arr', mergeSort fuel arr lo hi = some arr' ∧ RangeSorted arr arr' lo hi)
      ↔ hi ≤ 1073741824 ∨ hi - lo ≤ 1 := by
  constructor
  · rintro ⟨fuel, arr', heq, _⟩
    by_cases hfit : hi ≤ 1073741824 ∨ hi - lo ≤ 1
    · exact hfit
    · rw [mergeSort_overflow fuel (by omega) (by omega)] at heq
      contradiction
  · intro hfit
    obtain ⟨pre, X, post, rfl, hpre, hX⟩ := exists_pieces hlo hhi
    obtain ⟨Y, heq, hp, hs⟩ := mergeSort_pieces (X.length + 1) pre X post (Nat.lt_succ_self _) (by omega)
    refine ⟨X.length + 1, pre ++ (Y ++ post), ?_, ?_⟩
    · rw [← hX, ← hpre]
      exact heq
    · rw [← hX, ← hpre]
      exact rangeSorted_append hp hs

/-- The middle of an array with equal elements. -/
theorem merge_sort_sorts_iff_middle :
    (∃ fuel arr', mergeSort fuel [9, 3, 1, 3, 2, 0] 1 5 = some arr' ∧
      RangeSorted [9, 3, 1, 3, 2, 0] arr' 1 5)
      ↔ 5 ≤ 1073741824 ∨ 5 - 1 ≤ 1 := by
  apply merge_sort_sorts_iff <;> decide

/-- An array of 2^31 − 1 elements is not sorted: below the call on all of it, the call on its right half adds
    up 1073741823 and 2147483647. -/
theorem merge_sort_overflows :
    2147483647 ≤ (List.replicate 2147483647 (0 : Int)).length ∧ 0 + 2147483647 < 2147483648 ∧
      ¬ ∃ fuel arr', mergeSort fuel (List.replicate 2147483647 0) 0 2147483647 = some arr' ∧
        RangeSorted (List.replicate 2147483647 0) arr' 0 2147483647 := by
  refine ⟨Nat.le_of_eq List.length_replicate.symm, by decide, ?_⟩
  rintro ⟨fuel, arr', heq, _⟩
  rw [mergeSort_overflow fuel (by decide) (by decide)] at heq
  contradiction

/-- The array of `main`. -/
example : mergeSort 11 [5, 4, 6, 8, 3, 1, 5, 7, 0, 9] 0 10 = some [0, 1, 3, 4, 5, 5, 6, 7, 8, 9] := by
  decide

end Sorting
