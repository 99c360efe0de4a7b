import Mathlib.Algebra.BigOperators.Group.Finset.Basic
import Mathlib.Algebra.Order.BigOperators.Group.Finset
import Mathlib.Data.Fintype.Basic

/-!
# `Lib.SemSet` — sets of semaphores with adjustments

A set of semaphores with indices `ι`, used by processes `P`: the value of each semaphore and, for each process,
what is to be added to it when the process ends (`adj`, for the operations with `undo`). `semop` does a list of
operations or, where one of them would have to wait, none. It also does none where a value or an adjustment
would get too large (`outOfRange`), which is an error and not a reason to wait.

The value and all adjustments of a semaphore together are its `total`. No operation with `undo` changes it, nor
does the end of a process that leaves the value between zero and its limit; only `setval` does.
-/

namespace SemSet

universe u v

/-- `SEMVMX`, the largest value; `SEMAEM`, the largest adjustment, is the same. -/
abbrev semvmx : Int := 32767

/-- `struct sembuf` -/
structure Sembuf (ι : Type v) where
  num  : ι
  op   : Int
  undo : Bool

/-- The values and the adjustments. -/
structure Vals (P : Type u) (ι : Type v) where
  val : ι → Int
  adj : P → ι → Int

section

variable {P : Type u} {ι : Type v} [DecidableEq P] [DecidableEq ι]

/-- All values zero. -/
def zero : Vals P ι := { val := fun _ => 0, adj := fun _ _ => 0 }

/-- One operation of process `p`; `none` when it has to wait. -/
def applyOp (p : P) (s : Vals P ι) (b : Sembuf ι) : Option (Vals P ι) :=
  if b.op = 0 then
    if s.val b.num = 0 then some s else none
  else if s.val b.num + b.op < 0 then none
  else some
    { val := Function.update s.val b.num (s.val b.num + b.op)
      adj := if b.undo then
          Function.update s.adj p (Function.update (s.adj p) b.num (s.adj p b.num - b.op))
        else s.adj }

/-- `semop`: all operations, or none. -/
def semop (p : P) (bs : List (Sembuf ι)) (s : Vals P ι) : Option (Vals P ι) := bs.foldlM (applyOp p) s

/-- A value or an adjustment beyond the limits is met (`ERANGE`), before an operation that has to wait. -/
def outOfRange (p : P) : List (Sembuf ι) → Vals P ι → Bool
  | [],      _ => false
  | b :: bs, s =>
    match applyOp p s b with
    | none   => false
    | some t =>
      decide (semvmx < t.val b.num ∨ t.adj p b.num < -semvmx - 1 ∨ semvmx < t.adj p b.num) || outOfRange p bs t

/-- `SETVAL`, which also clears the adjustments of this semaphore. -/
def setval (k : ι) (v : Int) (s : Vals P ι) : Vals P ι :=
  { val := Function.update s.val k v, adj := fun p => Function.update (s.adj p) k 0 }

/-- The end of process `p`: its adjustments are made, but no value goes below zero or above its limit. -/
def undo (p : P) (s : Vals P ι) : Vals P ι :=
  { val := fun k => min semvmx (max 0 (s.val k + s.adj p k)), adj := Function.update s.adj p fun _ => 0 }

/-! ## Totals -/

variable {p : P} {s s' : Vals P ι} {k : ι} {b : Sembuf ι} {bs : List (Sembuf ι)}

section

variable [Fintype P]

/-- The value with all adjustments made. -/
def total (s : Vals P ι) (k : ι) : Int := s.val k + ∑ p, s.adj p k

/-- A sum over the processes, when one of them changes. -/
theorem sum_update (f : P → Int) (p : P) (x : Int) : ∑ q, Function.update f p x q = ∑ q, f q - f p + x := by
  have hrest : ∑ q ∈ Finset.univ.erase p, Function.update f p x q = ∑ q ∈ Finset.univ.erase p, f q :=
    Finset.sum_congr rfl fun q hq => Function.update_of_ne (Finset.ne_of_mem_erase hq) _ _
  rw [← Finset.add_sum_erase _ _ (Finset.mem_univ p), ← Finset.add_sum_erase _ f (Finset.mem_univ p), hrest,
    Function.update_self]
  omega

omit [DecidableEq ι] in
/-- The adjustments of one semaphore, when those of one process change. -/
theorem sum_adj_update (adj : P → ι → Int) (p : P) (f : ι → Int) (k : ι) :
    ∑ q, Function.update adj p f q k = ∑ q, adj q k - adj p k + f k := by
  have happ : ∀ q, Function.update adj p f q k = Function.update (fun q => adj q k) p (f k) q := fun q => by
    by_cases hq : q = p
    · subst hq
      simp
    · simp [Function.update_of_ne hq]
  rw [Finset.sum_congr rfl fun q _ => happ q, sum_update]

theorem applyOp_total (h : applyOp p s b = some s') (hu : b.undo = true ∨ b.op = 0) (k : ι) :
    total s' k = total s k := by
  unfold applyOp at h
  split_ifs at h with h0 hz hw hun
  · rw [Option.some.inj h]
  · obtain rfl := Option.some.inj h
    unfold total
    rw [sum_adj_update]
    by_cases hk : k = b.num
    · subst hk
      simp only [Function.update_self]
      omega
    · simp only [Function.update_of_ne hk]
      omega
  · exact absurd (hu.resolve_right h0) hun

/-- **`semop`** with `undo` keeps every total. -/
theorem semop_total (h : semop p bs s = some s') (hu : ∀ b ∈ bs, b.undo = true ∨ b.op = 0) (k : ι) :
    total s' k = total s k := by
  induction bs generalizing s with
  | nil => rw [Option.some.inj h]
  | cons b bs ih =>
      rw [semop, List.foldlM_cons] at h
      obtain ⟨t, ht, hbs⟩ := Option.bind_eq_some_iff.mp h
      rw [ih hbs fun c hc => hu c (List.mem_cons_of_mem _ hc), applyOp_total ht (hu b List.mem_cons_self)]

omit [DecidableEq ι] in
/-- **The end of a process** keeps a total, when nothing is cut off. -/
theorem undo_total (h : 0 ≤ s.val k + s.adj p k) (h' : s.val k + s.adj p k ≤ semvmx) :
    total (undo p s) k = total s k := by
  unfold total undo
  rw [sum_adj_update]
  simp only [max_eq_right h, min_eq_right h']
  omega

omit [DecidableEq P] in
theorem setval_total_self (s : Vals P ι) (k : ι) (v : Int) : total (setval k v s) k = v := by
  simp [total, setval]

omit [DecidableEq P] in
theorem setval_total_ne (s : Vals P ι) {j : ι} (h : j ≠ k) (v : Int) : total (setval k v s) j = total s j := by
  simp [total, setval, Function.update_of_ne h]

omit [DecidableEq P] [DecidableEq ι] in
theorem zero_total (k : ι) : total (zero : Vals P ι) k = 0 := by simp [total, zero]

end

/-! ## Adjustments -/

/-- What the operations with `undo` do to semaphore `k`. -/
def amount : List (Sembuf ι) → ι → Int
  | [],      _ => 0
  | b :: bs, k => (if b.num = k ∧ b.undo then b.op else 0) + amount bs k

theorem applyOp_adj_ne (h : applyOp p s b = some s') {q : P} (hq : q ≠ p) : s'.adj q = s.adj q := by
  unfold applyOp at h
  split_ifs at h <;> obtain rfl := Option.some.inj h
  · rfl
  · exact Function.update_of_ne hq _ _
  · rfl

theorem applyOp_adj_self (h : applyOp p s b = some s') (k : ι) :
    s'.adj p k = s.adj p k - (if b.num = k ∧ b.undo then b.op else 0) := by
  unfold applyOp at h
  split_ifs at h with h0 hz hw hun <;> obtain rfl := Option.some.inj h
  · split_ifs <;> omega
  · by_cases hk : k = b.num
    · subst hk
      simp [hun]
    · simp [hk, Ne.symm hk]
  · simp [hun]

theorem semop_adj_ne (h : semop p bs s = some s') {q : P} (hq : q ≠ p) : s'.adj q = s.adj q := by
  induction bs generalizing s with
  | nil => rw [Option.some.inj h]
  | cons b bs ih =>
      rw [semop, List.foldlM_cons] at h
      obtain ⟨t, ht, hbs⟩ := Option.bind_eq_some_iff.mp h
      rw [ih hbs, applyOp_adj_ne ht hq]

theorem semop_adj_self (h : semop p bs s = some s') (k : ι) : s'.adj p k = s.adj p k - amount bs k := by
  induction bs generalizing s with
  | nil =>
      obtain rfl := Option.some.inj h
      simp [amount]
  | cons b bs ih =>
      rw [semop, List.foldlM_cons] at h
      obtain ⟨t, ht, hbs⟩ := Option.bind_eq_some_iff.mp h
      rw [ih hbs, applyOp_adj_self ht, amount]
      omega

/-! ## Values -/

/-- A first operation that waits for zero. -/
theorem val_of_semop_zero {bs : List (Sembuf ι)} {u : Bool} (h : semop p (⟨k, 0, u⟩ :: bs) s = some s') :
    s.val k = 0 ∧ semop p bs s = some s' := by
  rw [semop, List.foldlM_cons] at h
  obtain ⟨t, ht, hbs⟩ := Option.bind_eq_some_iff.mp h
  unfold applyOp at ht
  rw [if_pos rfl] at ht
  split_ifs at ht with hz
  obtain rfl := Option.some.inj ht
  exact ⟨hz, hbs⟩

theorem applyOp_val (h : applyOp p s b = some s') (k : ι) :
    s'.val k = s.val k + (if b.num = k then b.op else 0) := by
  unfold applyOp at h
  split_ifs at h with h0 hz hw hun <;> obtain rfl := Option.some.inj h
  · split_ifs <;> omega
  all_goals
    by_cases hk : k = b.num
    · subst hk
      simp
    · simp [hk, Ne.symm hk]

theorem semop_val (h : semop p bs s = some s') (hu : ∀ b ∈ bs, b.undo = true ∨ b.op = 0) (k : ι) :
    s'.val k = s.val k + amount bs k := by
  induction bs generalizing s with
  | nil =>
      obtain rfl := Option.some.inj h
      simp [amount]
  | cons b bs ih =>
      rw [semop, List.foldlM_cons] at h
      obtain ⟨t, ht, hbs⟩ := Option.bind_eq_some_iff.mp h
      have hb : (if b.num = k ∧ b.undo = true then b.op else 0) = if b.num = k then b.op else 0 := by
        rcases hu b List.mem_cons_self with hu | h0
        · simp [hu]
        · simp [h0]
      rw [ih hbs fun c hc => hu c (List.mem_cons_of_mem _ hc), applyOp_val ht, amount, hb]
      omega

theorem applyOp_nonneg (h : applyOp p s b = some s') (hs : ∀ k, 0 ≤ s.val k) (k : ι) : 0 ≤ s'.val k := by
  unfold applyOp at h
  split_ifs at h with h0 hz hw hun
  · rw [← Option.some.inj h]
    exact hs k
  all_goals
    obtain rfl := Option.some.inj h
    by_cases hk : k = b.num
    · subst hk
      simp only [Function.update_self]
      omega
    · simp only [Function.update_of_ne hk]
      exact hs k

theorem semop_nonneg (h : semop p bs s = some s') (hs : ∀ k, 0 ≤ s.val k) : ∀ k, 0 ≤ s'.val k := by
  induction bs generalizing s with
  | nil =>
      rw [← Option.some.inj h]
      exact hs
  | cons b bs ih =>
      rw [semop, List.foldlM_cons] at h
      obtain ⟨t, ht, hbs⟩ := Option.bind_eq_some_iff.mp h
      exact ih hbs (applyOp_nonneg ht hs)

omit [DecidableEq ι] in
theorem undo_nonneg (p : P) (s : Vals P ι) (k : ι) : 0 ≤ (undo p s).val k :=
  le_min (by decide) (le_max_left _ _)

omit [DecidableEq P] in
theorem setval_nonneg {v : Int} (hv : 0 ≤ v) (hs : ∀ k, 0 ≤ s.val k) (j : ι) : 0 ≤ (setval k v s).val j := by
  unfold setval
  by_cases hj : j = k
  · subst hj
    simpa using hv
  · simpa [Function.update_of_ne hj] using hs j

/-! ## Limits -/

/-- **Small operations** on small values and adjustments stay within the limits. -/
theorem outOfRange_of_small (hops : ∀ b ∈ bs, -1 ≤ b.op ∧ b.op ≤ 1)
    (hval : ∀ b ∈ bs, s.val b.num + bs.length ≤ semvmx)
    (hadj : ∀ b ∈ bs, bs.length - semvmx - 1 ≤ s.adj p b.num ∧ s.adj p b.num + bs.length ≤ semvmx) :
    outOfRange p bs s = false := by
  induction bs generalizing s with
  | nil => rfl
  | cons b bs ih =>
      rw [outOfRange]
      cases ht : applyOp p s b with
      | none => rfl
      | some t =>
          have hv : ∀ k, t.val k ≤ s.val k + 1 := fun k => by
            have hop := hops b List.mem_cons_self
            rw [applyOp_val ht]
            split <;> omega
          have ha : ∀ k, s.adj p k - 1 ≤ t.adj p k ∧ t.adj p k ≤ s.adj p k + 1 := fun k => by
            have hop := hops b List.mem_cons_self
            rw [applyOp_adj_self ht]
            split <;> omega
          simp only [List.length_cons] at hval hadj
          dsimp only
          rw [ih (fun c hc => hops c (List.mem_cons_of_mem _ hc)) (fun c hc => ?_) fun c hc => ?_, Bool.or_false,
            decide_eq_false_iff_not]
          · have hv0 := hv b.num
            have ha0 := ha b.num
            have hval0 := hval b List.mem_cons_self
            have hadj0 := hadj b List.mem_cons_self
            omega
          · have hvc := hv c.num
            have hvalc := hval c (List.mem_cons_of_mem _ hc)
            omega
          · have hac := ha c.num
            have hadjc := hadj c (List.mem_cons_of_mem _ hc)
            omega

end

end SemSet
