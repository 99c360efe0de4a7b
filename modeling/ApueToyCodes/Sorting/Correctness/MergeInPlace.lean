import ApueToyCodes.Lib.Runs
import ApueToyCodes.Sorting.Correctness.MergeSort

/-!
# `Sorting.Correctness.MergeInPlace` — the cursors of `merge`

`merge` writes into the region it still has to read. Its two loops are a run of turns (`Turn`), each of which
writes one element at `i`. In all states of a run `i` is `lo + b`, the elements read from both halves, and a
turn is taken only while `lo` is below the end of the left half: so what is written is before the first unread
element of the right half, which is at `mi + b`.
-/

namespace Sorting
open CArray Runs

variable {tmpa arr arr' : List Int} {lo mid mi hi i a b : Nat}

/-- The variables of `merge` between two turns of its loops. -/
structure Cursors where
  arr : List Int
  i   : Nat
  lo  : Nat
  mid : Nat
  a   : Nat
  b   : Nat

/-- One turn of the loops of `merge`, which writes `arr[i]`. -/
inductive Turn (tmpa : List Int) (mi hi : Nat) : Cursors → Nat → Cursors → Prop
  | right {arr arr' : List Int} {i lo mid a b : Nat} {x y : Int} : lo < mi → mid < hi →
      read tmpa a = some x → read arr (mi + b) = some y → x > y → write arr i y = some arr' →
      Turn tmpa mi hi ⟨arr, i, lo, mid, a, b⟩ i ⟨arr', i + 1, lo, mid + 1, a, b + 1⟩
  | left {arr arr' : List Int} {i lo mid a b : Nat} {x y : Int} : lo < mi → mid < hi →
      read tmpa a = some x → read arr (mi + b) = some y → ¬ x > y → write arr i x = some arr' →
      Turn tmpa mi hi ⟨arr, i, lo, mid, a, b⟩ i ⟨arr', i + 1, lo + 1, mid, a + 1, b⟩
  | drain {arr arr' : List Int} {i lo mid a b : Nat} {x : Int} : lo < mi → ¬ mid < hi →
      read tmpa a = some x → write arr i x = some arr' →
      Turn tmpa mi hi ⟨arr, i, lo, mid, a, b⟩ i ⟨arr', i + 1, lo + 1, mid, a + 1, b⟩

/-! ## The loops are a run -/

/-- **The last loop** is a run of turns. -/
theorem drainLoop_run (hmid : ¬ mid < hi) (fuel : Nat) : ∀ {arr : List Int} {i lo a : Nat},
    drainLoop tmpa mi fuel arr i lo a = some arr' →
    ∃ ws s, Run (Turn tmpa mi hi) ⟨arr, i, lo, mid, a, b⟩ ws s ∧ s.arr = arr' ∧ mi ≤ s.lo := by
  induction fuel with
  | zero => exact fun h => nomatch h
  | succ fuel ih =>
      intro arr i lo a h
      rw [drainLoop] at h
      by_cases hlo : lo < mi
      · rw [if_pos hlo] at h
        obtain ⟨x, hx, h⟩ := Option.bind_eq_some_iff.mp h
        obtain ⟨arr₁, hw, h⟩ := Option.bind_eq_some_iff.mp h
        obtain ⟨ws, s, hrun, harr, hs⟩ := ih h
        exact ⟨i :: ws, s, .cons (.drain hlo hmid hx hw) hrun, harr, hs⟩
      · rw [if_neg hlo] at h
        exact ⟨[], _, .refl, Option.some.inj h, Nat.le_of_not_lt hlo⟩

/-- **The loops of `merge`** are a run of turns, until the left half is used up. -/
theorem mergeLoop_run (fuel : Nat) : ∀ {arr : List Int} {i lo mid a b : Nat},
    mergeLoop tmpa mi hi fuel arr i lo mid a b = some arr' →
    ∃ ws s, Run (Turn tmpa mi hi) ⟨arr, i, lo, mid, a, b⟩ ws s ∧ s.arr = arr' ∧ mi ≤ s.lo := by
  induction fuel with
  | zero => exact fun h => nomatch h
  | succ fuel ih =>
      intro arr i lo mid a b h
      rw [mergeLoop] at h
      by_cases hboth : lo < mi ∧ mid < hi
      · rw [if_pos hboth] at h
        obtain ⟨x, hx, h⟩ := Option.bind_eq_some_iff.mp h
        obtain ⟨y, hy, h⟩ := Option.bind_eq_some_iff.mp h
        by_cases hxy : x > y
        · rw [if_pos hxy] at h
          obtain ⟨arr₁, hw, h⟩ := Option.bind_eq_some_iff.mp h
          obtain ⟨ws, s, hrun, harr, hs⟩ := ih h
          exact ⟨i :: ws, s, .cons (.right hboth.1 hboth.2 hx hy hxy hw) hrun, harr, hs⟩
        · rw [if_neg hxy] at h
          obtain ⟨arr₁, hw, h⟩ := Option.bind_eq_some_iff.mp h
          obtain ⟨ws, s, hrun, harr, hs⟩ := ih h
          exact ⟨i :: ws, s, .cons (.left hboth.1 hboth.2 hx hy hxy hw) hrun, harr, hs⟩
      · rw [if_neg hboth] at h
        by_cases hlo : lo < mi
        · exact drainLoop_run (fun hmid => hboth ⟨hlo, hmid⟩) _ h
        · -- the right half is where it belongs
          rw [drainLoop, if_neg hlo] at h
          exact ⟨[], _, .refl, Option.some.inj h, Nat.le_of_not_lt hlo⟩

/-! ## The cursors -/

/-- Between two turns: as many elements are written as are read, and the unread ones of the right half are
    those of the old array `arr`. -/
structure Behind (arr : List Int) (mi : Nat) (s : Cursors) : Prop where
  written : s.i = s.lo + s.b
  unread  : ∀ x, mi + s.b ≤ x → s.arr[x]? = arr[x]?

/-- A turn writes before the unread elements of the right half. -/
theorem Turn.write_before {s s' : Cursors} {w : Nat} (h : Turn tmpa mi hi s w s') (hs : s.i = s.lo + s.b) :
    w < mi + s.b := by
  cases h with
  | right hlo | left hlo | drain hlo =>
      dsimp only at hs ⊢
      omega

/-- **One turn** keeps the cursors in step. -/
theorem Behind.turn {s s' : Cursors} {w : Nat} (h : Behind arr mi s) (ht : Turn tmpa mi hi s w s') :
    Behind arr mi s' := by
  obtain ⟨hwritten, hunread⟩ := h
  have hbefore := ht.write_before hwritten
  cases ht with
  | right _ _ _ _ _ hw =>
      dsimp only at hwritten hunread hbefore
      refine ⟨by dsimp only; omega, fun x hx => ?_⟩
      dsimp only at hx
      exact (getElem?_of_write hw (by omega)).trans (hunread x (by omega))
  | left _ _ _ _ _ hw | drain _ _ _ hw =>
      dsimp only at hwritten hunread hbefore
      refine ⟨by dsimp only; omega, fun x hx => ?_⟩
      dsimp only at hx
      exact (getElem?_of_write hw (by omega)).trans (hunread x hx)

/-- **A run** keeps the cursors in step. -/
theorem behind_run {ws : List Nat} {s : Cursors}
    (h : Run (Turn tmpa mi hi) ⟨arr, lo, lo, mi, 0, 0⟩ ws s) : Behind arr mi s := by
  have hstart : Behind arr mi ⟨arr, lo, lo, mi, 0, 0⟩ := ⟨rfl, fun _ _ => rfl⟩
  exact h.invariant (fun _ _ _ hs ht => hs.turn ht) hstart

/-! ## merge -/

/-- What `merge` returns comes from a run of its loops on a copy of the left half. -/
theorem merge_run (h : merge arr lo mid hi = some arr') :
    ∃ tmpa ws s, copyLoop arr (mid - lo) lo = some tmpa ∧
      Run (Turn tmpa mid hi) ⟨arr, lo, lo, mid, 0, 0⟩ ws s ∧ s.arr = arr' ∧ mid ≤ s.lo := by
  obtain ⟨tmpa, hcopy, h⟩ := Option.bind_eq_some_iff.mp h
  obtain ⟨ws, s, hrun, harr, hs⟩ := mergeLoop_run _ h
  exact ⟨tmpa, ws, s, hcopy, hrun, harr, hs⟩

/-- Two sorted ranges in a row are merged. -/
theorem merge_rangeSorted (hlo : lo ≤ mid) (hhi : mid ≤ hi) (hlen : hi ≤ arr.length)
    (hl : SortedOn arr lo mid) (hr : SortedOn arr mid hi) :
    ∃ arr', merge arr lo mid hi = some arr' ∧ RangeSorted arr arr' lo hi := by
  obtain ⟨pre, L, rest, rfl, rfl, rfl⟩ := exists_pieces hlo (Nat.le_trans hhi hlen)
  simp only [List.length_append] at hlen
  obtain ⟨R, post, rfl, hR⟩ : ∃ R post, rest = R ++ post ∧ pre.length + L.length + R.length = hi := by
    refine ⟨rest.take (hi - (pre.length + L.length)), rest.drop (hi - (pre.length + L.length)),
      (List.take_append_drop _ _).symm, ?_⟩
    rw [List.length_take_of_le (by omega)]
    omega
  subst hR
  have hsL : L.Pairwise (· ≤ ·) := by
    have hs := hl.pairwise (by simp only [List.length_append]; omega)
    rwa [slice_append] at hs
  have hsR : R.Pairwise (· ≤ ·) := by
    have hs := hr.pairwise (by simp only [List.length_append]; omega)
    rwa [← List.append_assoc pre, ← List.length_append, slice_append] at hs
  have hsorted : RangeSorted (pre ++ ((L ++ R) ++ post)) (pre ++ (List.merge L R ++ post)) pre.length
      (pre.length + (L ++ R).length) :=
    rangeSorted_append (List.merge_perm_append _) (pairwise_merge_le hsL hsR)
  rw [List.append_assoc, List.length_append, ← Nat.add_assoc] at hsorted
  exact ⟨_, merge_eq pre L R post, hsorted⟩

/-- **`merge` in place loses nothing**: two sorted ranges in a row become one, nothing else is changed, and
    between any two turns of its loops the unread elements of the right half stand where they stood, behind
    the one that is written next. -/
theorem merge_in_place_lossless (hlo : lo ≤ mid) (hhi : mid ≤ hi) (hlen : hi ≤ arr.length)
    (hl : SortedOn arr lo mid) (hr : SortedOn arr mid hi) :
    ∃ arr' tmpa ws s, merge arr lo mid hi = some arr' ∧ RangeSorted arr arr' lo hi ∧
      copyLoop arr (mid - lo) lo = some tmpa ∧
      Run (Turn tmpa mid hi) ⟨arr, lo, lo, mid, 0, 0⟩ ws s ∧ s.arr = arr' ∧
      (∀ w s', ¬ Turn tmpa mid hi s w s') ∧
      ∀ ws s, Run (Turn tmpa mid hi) ⟨arr, lo, lo, mid, 0, 0⟩ ws s →
        (∀ x, mid + s.b ≤ x → s.arr[x]? = arr[x]?) ∧ ∀ w s', Turn tmpa mid hi s w s' → w < mid + s.b := by
  obtain ⟨arr', heq, hsorted⟩ := merge_rangeSorted hlo hhi hlen hl hr
  obtain ⟨tmpa, ws, s, hcopy, hrun, harr, hs⟩ := merge_run heq
  refine ⟨arr', tmpa, ws, s, heq, hsorted, hcopy, hrun, harr, ?_, fun ws s h => ?_⟩
  · intro w s' ht
    cases ht with
    | right hlt | left hlt | drain hlt => exact absurd hlt (Nat.not_lt.mpr hs)
  · have hbehind := behind_run h
    exact ⟨hbehind.unread, fun w s' ht => ht.write_before hbehind.written⟩

/-- The middle of an array with equal elements. -/
theorem merge_in_place_lossless_middle :
    ∃ arr' tmpa ws s, merge [9, 2, 5, 1, 5, 0] 1 3 5 = some arr' ∧
      RangeSorted [9, 2, 5, 1, 5, 0] arr' 1 5 ∧ copyLoop [9, 2, 5, 1, 5, 0] 2 1 = some tmpa ∧
      Run (Turn tmpa 3 5) ⟨[9, 2, 5, 1, 5, 0], 1, 1, 3, 0, 0⟩ ws s ∧ s.arr = arr' := by
  have hl : SortedOn ([9, 2, 5, 1, 5, 0] : List Int) 1 3 := by
    intro i j h1 h2 h3
    obtain ⟨rfl, rfl⟩ : i = 1 ∧ j = 2 := by omega
    decide
  have hr : SortedOn ([9, 2, 5, 1, 5, 0] : List Int) 3 5 := by
    intro i j h1 h2 h3
    obtain ⟨rfl, rfl⟩ : i = 3 ∧ j = 4 := by omega
    decide
  obtain ⟨arr', tmpa, ws, s, heq, hsorted, hcopy, hrun, harr, _⟩ :=
    merge_in_place_lossless (by decide) (by decide) (by decide) hl hr
  exact ⟨arr', tmpa, ws, s, heq, hsorted, hcopy, hrun, harr⟩

end Sorting
