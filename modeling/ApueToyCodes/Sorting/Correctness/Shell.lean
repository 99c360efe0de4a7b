import ApueToyCodes.Lib.Gap
import ApueToyCodes.Lib.Runs
import ApueToyCodes.Sorting.InsertSort

/-!
# `Sorting.Correctness.Shell` — Shell sort

`per_insert_sort` sorts each residue class modulo the gap by insertion. The array with the saved element
put back into its hole is always the old one with elements exchanged within a class (`Classed`), and a step
of the insertion moves the one place where the class may be out of order down by one gap (`Inserting`). So
a pass leaves the array ordered for its gap, and by `Gap.GapOrdered.of_classes` for every gap it was
ordered for.

Where a pass does not return, an index has overflowed (`perInsertSort_spec`): nothing is read or written
outside the array. A pass that returns has visited every index of its loops, so the bounds on the gap and the
length are exact (`perInsertSort_returns_iff`, `shellInsert_returns_iff`).
-/

namespace Sorting
open CArray Gap Runs

variable {a b arr arr' : List Int} {d k i j len hole : Nat} {tmp : Int}

/-- `b` is `a` with elements exchanged within the residue classes modulo `d`. -/
structure Classed (a b : List Int) (d : Nat) : Prop where
  perm    : b.Perm a
  classes : ∃ s, WithinClasses a.length d s ∧ ∀ i, val b i = val a (s i)

namespace Classed

theorem refl (a : List Int) (d : Nat) : Classed a a d :=
  ⟨List.Perm.refl a, Equiv.refl Nat, WithinClasses.refl a.length d, fun _ => rfl⟩

theorem length (h : Classed a b d) : b.length = a.length := h.perm.length_eq

theorem trans {c : List Int} (h : Classed a b d) (h' : Classed b c d) : Classed a c d := by
  obtain ⟨s, hs, hb⟩ := h.classes
  obtain ⟨t, ht, hc⟩ := h'.classes
  rw [h.length] at ht
  refine ⟨h'.perm.trans h.perm, t.trans s, ht.trans hs, ?_⟩
  intro i
  rw [hc, hb, Equiv.trans_apply]

theorem swapped {j : Nat} (hi : i < a.length) (hj : j < a.length) (hmod : i % d = j % d) :
    Classed a (CArray.swapped a i j) d :=
  ⟨swapped_perm hi hj, Equiv.swap i j, WithinClasses.swap hi hj hmod, val_swapped hi hj⟩

/-- **A sorted pass keeps the order for any gap.** -/
theorem gapOrdered {h : Nat} (hc : Classed a b d) (hd : GapOrdered a.length d (val b))
    (ha : GapOrdered a.length h (val a)) : GapOrdered a.length h (val b) := by
  obtain ⟨s, hs, hb⟩ := hc.classes
  exact ha.of_classes hd hs hb

end Classed

/-! ## The insertion of one element -/

/-- `b` is `a` with the elements up to `i` in the class of `i` in order, the others untouched. -/
structure Inserted (a b : List Int) (d i : Nat) : Prop where
  classed : Classed a b d
  others  : ∀ p, p % d ≠ i % d → val b p = val a p
  ordered : ∀ p, p % d = i % d → p + d ≤ i → val b p ≤ val b (p + d)

/-- The insertion has come down to `hole`: of the elements up to `i` in its class, only the one at `hole` may
    be smaller than the one a gap before it. -/
structure Inserting (a b : List Int) (d i hole : Nat) : Prop where
  classed : Classed a b d
  others  : ∀ p, p % d ≠ i % d → val b p = val a p
  range   : hole % d = i % d ∧ hole ≤ i ∧ i < a.length
  ordered : ∀ p, p % d = i % d → p + d ≤ i → p + d ≠ hole → val b p ≤ val b (p + d)
  across  : d ≤ hole → hole + d ≤ i → val b (hole - d) ≤ val b (hole + d)

/-- **One step down** of an element smaller than the one a gap before it. -/
theorem Inserting.down (h : Inserting a b d i hole) (hd : 0 < d) (hle : d ≤ hole)
    (hgt : val b hole < val b (hole - d)) : Inserting a (swapped b hole (hole - d)) d i (hole - d) := by
  obtain ⟨hmod, hholei, hi⟩ := h.range
  have hlen := h.classed.length
  have hmod' : (hole - d) % d = i % d := by rw [← Nat.mod_eq_sub_mod hle, hmod]
  have hold : ∀ {p}, p ≠ hole → p ≠ hole - d → val (swapped b hole (hole - d)) p = val b p :=
    fun h1 h2 => val_swapped_ne h1 h2
  have hhole : val (swapped b hole (hole - d)) hole = val b (hole - d) := val_swapped_left (by omega)
  have hnew : val (swapped b hole (hole - d)) (hole - d) = val b hole := val_swapped_right (by omega)
  refine ⟨h.classed.trans (.swapped (by omega) (by omega) (by rw [hmod, hmod'])), ?_, by omega, ?_, ?_⟩
  · intro p hp
    rw [hold (by rintro rfl; exact hp hmod) (by rintro rfl; exact hp hmod')]
    exact h.others p hp
  · intro p hp hpi hne
    by_cases hup : p + d = hole
    · -- the pair that was out of order
      obtain rfl : p = hole - d := by omega
      rw [hup, hhole, hnew]
      exact Int.le_of_lt hgt
    by_cases hover : p = hole
    · subst hover
      rw [hhole, hold (by omega) (by omega)]
      exact h.across hle hpi
    · rw [hold hover (by omega), hold hup (by omega)]
      exact h.ordered p hp hpi hup
  · intro h1 h2
    rw [Nat.sub_add_cancel hle, hhole, hold (by omega) (by omega)]
    have hpair := h.ordered (hole - d - d) (by rw [← Nat.mod_eq_sub_mod h1, hmod']) (by omega) (by omega)
    rwa [Nat.sub_add_cancel h1] at hpair

/-- The insertion ends where the element a gap before is not greater, or there is none. -/
theorem Inserting.done (h : Inserting a b d i hole)
    (hle : d ≤ hole → val b (hole - d) ≤ val b hole) : Inserted a b d i := by
  refine ⟨h.classed, h.others, ?_⟩
  intro p hp hpi
  by_cases hup : p + d = hole
  · have := hle (by omega)
    rwa [← hup, Nat.add_sub_cancel] at this
  · exact h.ordered p hp hpi hup

/-- **The loop over `j`** inserts the saved element, at `k` where `j` steps below zero. -/
theorem insertDown_spec (hd : 0 < d) (hk : k = i % d) (fuel : Nat) : ∀ {arr : List Int} {hole : Nat},
    Inserting a (arr.set hole tmp) d i hole → hole < fuel →
    ∃ arr', insertDown d k tmp fuel arr ((hole : Int) - d) = some arr' ∧ Inserted a arr' d i := by
  induction fuel with
  | zero =>
      intro arr hole _ hf
      exact absurd hf (Nat.not_lt_zero _)
  | succ fuel ih =>
      intro arr hole h hf
      obtain ⟨hmod, hholei, hi⟩ := h.range
      have hlen := h.classed.length
      rw [List.length_set] at hlen
      have hfill : val (arr.set hole tmp) hole = tmp := val_set_self (by omega)
      rw [insertDown]
      by_cases hle : d ≤ hole
      · have hkeep : val (arr.set hole tmp) (hole - d) = val arr (hole - d) := val_set_ne (by omega)
        rw [if_pos (by omega), show ((hole : Int) - d).toNat = hole - d by omega, Nat.sub_add_cancel hle,
          read_eq (by omega)]
        simp only [Option.bind_eq_bind, Option.bind_some]
        by_cases hgt : val arr (hole - d) > tmp
        · rw [if_pos hgt, write_eq (by omega), Option.bind_some,
            show (hole : Int) - d - d = ((hole - d : Nat) : Int) - d by omega]
          apply ih
          · rw [fill_move (by omega) (by omega)]
            exact h.down hd hle (by rw [hfill, hkeep]; exact hgt)
          · omega
        · rw [if_neg hgt, write_eq (by omega)]
          refine ⟨_, rfl, h.done ?_⟩
          intro _
          rw [hfill, hkeep]
          exact Int.not_lt.mp hgt
      · have hstart : k = hole := by rw [hk, ← hmod, Nat.mod_eq_of_lt (Nat.not_le.mp hle)]
        rw [if_neg (by omega), hstart, write_eq (by omega)]
        exact ⟨_, rfl, h.done fun h' => absurd h' hle⟩

/-! ## A residue class, a pass -/

/-- `b` is `a` with the elements before `i` in the class of `k` in order, the other classes untouched. -/
structure ClassDone (a b : List Int) (d k i : Nat) : Prop where
  classed : Classed a b d
  others  : ∀ p, p % d ≠ k → val b p = val a p
  ordered : ∀ p, p % d = k → p + d < i → val b p ≤ val b (p + d)

/-- Different indices of a class are a gap apart. -/
theorem add_le_of_mod {p : Nat} (hmod : p % d = i % d) (hlt : p < i) : p + d ≤ i := by
  have hdvd : d ∣ i - p := (Nat.modEq_iff_dvd' (Nat.le_of_lt hlt)).mp hmod
  have := Nat.le_of_dvd (by omega) hdvd
  omega

theorem ClassDone.next (h : ClassDone a arr d k i) (hk : i % d = k) (h' : Inserted arr arr' d i) :
    ClassDone a arr' d k (i + d) := by
  subst hk
  refine ⟨h.classed.trans h'.classed, ?_, ?_⟩
  · intro p hp
    rw [h'.others p hp, h.others p hp]
  · intro p hp hpi
    exact h'.ordered p hp (add_le_of_mod hp (by omega))

/-- **One turn of the loop over `i`** inserts one more element of the class. -/
theorem ClassDone.insert (h : ClassDone a arr d k i) (hd : 0 < d) (hk : i % d = k) (hi : i < a.length) :
    ∃ arr', insertDown d k (val arr i) (i + 1) arr ((i : Int) - d) = some arr' ∧
      ClassDone a arr' d k (i + d) := by
  have hlen := h.classed.length
  have hself : arr.set i (val arr i) = arr := by
    rw [val_eq_getElem (by omega), List.set_getElem_self]
  have hstart : Inserting arr (arr.set i (val arr i)) d i i := by
    rw [hself]
    refine ⟨.refl arr d, fun _ _ => rfl, ⟨rfl, Nat.le_refl i, by omega⟩, ?_, ?_⟩
    · intro p hp hpi hne
      exact h.ordered p (hp.trans hk) (by omega)
    · intro _ hover
      omega
  obtain ⟨arr', heq, hins⟩ := insertDown_spec hd hk.symm (i + 1) hstart (Nat.lt_succ_self i)
  exact ⟨arr', heq, h.next hk hins⟩

/-- **The loop over `i`** puts the class of `k` in order, or `i + d` overflows. -/
theorem perInsertClass_spec {len : Nat} (hd : 0 < d) (hlen : a.length = len) (fuel : Nat) :
    ∀ {arr : List Int} {i : Nat}, ClassDone a arr d k i → i % d = k → len - i < fuel →
    (∃ arr', perInsertClass d k len fuel arr i = some arr' ∧ ClassDone a arr' d k len) ∨
      (perInsertClass d k len fuel arr i = none ∧ 2147483648 < len + d) := by
  induction fuel with
  | zero =>
      intro arr i _ _ hf
      exact absurd hf (Nat.not_lt_zero _)
  | succ fuel ih =>
      intro arr i h hk hf
      rw [perInsertClass]
      by_cases hi : i < len
      · have hlen' := h.classed.length
        obtain ⟨arr', heq, hdone⟩ := h.insert hd hk (by omega)
        rw [if_pos hi, read_eq (by omega)]
        simp only [Option.bind_eq_bind, Option.bind_some, heq, int32]
        by_cases hfit : i + d < 2147483648
        · rw [if_pos hfit, Option.bind_some]
          exact ih hdone (by rw [Nat.add_mod_right, hk]) (by omega)
        · rw [if_neg hfit]
          exact Or.inr ⟨rfl, by omega⟩
      · rw [if_neg hi]
        refine Or.inl ⟨arr, rfl, h.classed, h.others, ?_⟩
        intro p hp hpl
        exact h.ordered p hp (by omega)

/-- `b` is `a` with the classes before that of `k` in order. -/
structure PassDone (a b : List Int) (d k : Nat) : Prop where
  classed : Classed a b d
  ordered : ∀ p, p % d < k → p + d < a.length → val b p ≤ val b (p + d)

theorem PassDone.next (h : PassDone a arr d k) (h' : ClassDone arr arr' d k a.length) :
    PassDone a arr' d (k + 1) := by
  refine ⟨h.classed.trans h'.classed, ?_⟩
  intro p hp hpl
  by_cases hpk : p % d = k
  · exact h'.ordered p hpk hpl
  · rw [h'.others p hpk, h'.others (p + d) (by rwa [Nat.add_mod_right])]
    exact h.ordered p (by omega) hpl

/-- **The loop over `k`** goes through the classes, or `k + d` or `i + d` overflows. -/
theorem perInsertLoop_spec (hd : 0 < d) (n : Nat) : ∀ {arr : List Int} {k : Nat},
    PassDone a arr d k → k + n = d →
    (∃ arr', perInsertLoop d a.length n arr k = some arr' ∧ PassDone a arr' d d) ∨
      (perInsertLoop d a.length n arr k = none ∧ (2147483648 < d + d ∨ 2147483648 < a.length + d)) := by
  induction n with
  | zero =>
      intro arr k h hk
      obtain rfl : k = d := hk
      exact Or.inl ⟨arr, rfl, h⟩
  | succ n ih =>
      intro arr k h hk
      rw [perInsertLoop, int32]
      by_cases hfit : k + d < 2147483648
      · have hmod : (k + d) % d = k := by rw [Nat.add_mod_right, Nat.mod_eq_of_lt (by omega)]
        have hstart : ClassDone arr arr d k (k + d) := by
          refine ⟨.refl arr d, fun _ _ => rfl, ?_⟩
          intro p hp hpk
          have hple := Nat.mod_le p d
          omega
        rw [if_pos hfit]
        simp only [Option.bind_eq_bind, Option.bind_some]
        rcases perInsertClass_spec hd h.classed.length (a.length + 1) hstart hmod (by omega) with
          ⟨arr', heq, hdone⟩ | ⟨heq, hover⟩
        · rw [heq, Option.bind_some]
          exact ih (h.next hdone) (by omega)
        · rw [heq]
          exact Or.inr ⟨rfl, Or.inr hover⟩
      · rw [if_neg hfit]
        exact Or.inr ⟨rfl, Or.inl (by omega)⟩

/-- **`per_insert_sort`** sorts the classes, or an index overflows. -/
theorem perInsertSort_spec (arr : List Int) (hd : 0 < d) :
    (∃ arr', perInsertSort arr d arr.length = some arr' ∧ Classed arr arr' d ∧
      GapOrdered arr.length d (val arr')) ∨
      (perInsertSort arr d arr.length = none ∧ (2147483648 < d + d ∨ 2147483648 < arr.length + d)) := by
  have hstart : PassDone arr arr d 0 := ⟨.refl arr d, fun p hp _ => absurd hp (Nat.not_lt_zero _)⟩
  unfold perInsertSort
  rcases perInsertLoop_spec hd d hstart (Nat.zero_add d) with ⟨arr', heq, hdone⟩ | hover
  · refine Or.inl ⟨arr', heq, hdone.classed, ?_⟩
    intro p hp
    exact hdone.ordered p (Nat.mod_lt p hd) hp
  · exact Or.inr hover

theorem perInsertSort_classed (hd : 0 < d) (h : perInsertSort arr d arr.length = some arr') :
    Classed arr arr' d ∧ GapOrdered arr.length d (val arr') := by
  rcases perInsertSort_spec arr hd with ⟨b, heq, hb⟩ | ⟨heq, _⟩
  · obtain rfl : b = arr' := Option.some.inj (heq.symm.trans h)
    exact hb
  · rw [heq] at h
    contradiction

/-! ## Where the indices fit -/

theorem lt_of_int32 {n m : Nat} (h : int32 n = some m) : n < 2147483648 ∧ m = n := by
  unfold int32 at h
  by_cases hn : n < 2147483648
  · rw [if_pos hn] at h
    exact ⟨hn, (Option.some.inj h).symm⟩
  · rw [if_neg hn] at h
    contradiction

/-- **The loop over `i`** comes to every later index of its class, and steps beyond it. -/
theorem perInsertClass_steps (fuel : Nat) : ∀ {arr : List Int} {i : Nat},
    perInsertClass d k len fuel arr i = some arr' → i ≤ j → j % d = i % d → j < len →
    j + d < 2147483648 := by
  induction fuel with
  | zero => exact fun h => nomatch h
  | succ fuel ih =>
      intro arr i h hij hmod hj
      rw [perInsertClass, if_pos (by omega)] at h
      obtain ⟨x, _, h⟩ := Option.bind_eq_some_iff.mp h
      obtain ⟨arr₁, _, h⟩ := Option.bind_eq_some_iff.mp h
      obtain ⟨i', hi', h⟩ := Option.bind_eq_some_iff.mp h
      obtain ⟨hfit, rfl⟩ := lt_of_int32 hi'
      by_cases heq : i = j
      · rwa [heq] at hfit
      · apply ih h
        · exact add_le_of_mod hmod.symm (by omega)
        · rw [Nat.add_mod_right, hmod]
        · exact hj

/-- **The loop over `k`** comes to every class, and so to every index from the gap on. -/
theorem perInsertLoop_steps (hd : 0 < d) (n : Nat) : ∀ {arr : List Int} {k : Nat},
    perInsertLoop d len n arr k = some arr' → k + n = d → k ≤ j % d → d ≤ j → j < len →
    j + d < 2147483648 := by
  induction n with
  | zero =>
      intro arr k _ hk hclass _ _
      have hless := Nat.mod_lt j hd
      omega
  | succ n ih =>
      intro arr k h hk hclass hdj hj
      rw [perInsertLoop] at h
      obtain ⟨i, hi, h₁⟩ := Option.bind_eq_some_iff.mp h
      obtain ⟨arr₁, hpass, h₂⟩ := Option.bind_eq_some_iff.mp h₁
      obtain ⟨_, rfl⟩ := lt_of_int32 hi
      by_cases hkj : k = j % d
      · subst hkj
        apply perInsertClass_steps _ hpass
        · have hless := Nat.mod_le (j - d) d
          rw [← Nat.mod_eq_sub_mod hdj] at hless
          omega
        · rw [Nat.add_mod_right, Nat.mod_mod]
        · exact hj
      · exact ih h₂ (by omega) (by omega) hdj hj

/-- **The loop over `k`** computes the first index of every class, that of the last one too. -/
theorem perInsertLoop_starts (n : Nat) : ∀ {arr : List Int} {k : Nat},
    perInsertLoop d len n arr k = some arr' → k + n = d → 0 < n → d + d ≤ 2147483648 := by
  induction n with
  | zero => exact fun _ _ h => absurd h (Nat.lt_irrefl 0)
  | succ n ih =>
      intro arr k h hk _
      rw [perInsertLoop] at h
      obtain ⟨i, hi, h₁⟩ := Option.bind_eq_some_iff.mp h
      obtain ⟨arr₁, _, h₂⟩ := Option.bind_eq_some_iff.mp h₁
      obtain ⟨hfit, rfl⟩ := lt_of_int32 hi
      by_cases hn : n = 0
      · omega
      · exact ih h₂ (by omega) (Nat.pos_of_ne_zero hn)

/-- **`per_insert_sort` returns** exactly where the indices it steps to fit in an `int`. -/
theorem perInsertSort_returns_iff (arr : List Int) (hd : 0 < d) :
    (∃ arr', perInsertSort arr d arr.length = some arr') ↔
      d + d ≤ 2147483648 ∧ arr.length + d ≤ 2147483648 := by
  constructor
  · rintro ⟨arr', heq⟩
    have hstart := perInsertLoop_starts d heq (Nat.zero_add d) hd
    refine ⟨hstart, ?_⟩
    by_cases hlong : d < arr.length
    · -- the last element is one of its class, and the loop steps beyond it
      have hlast := perInsertLoop_steps (j := arr.length - 1) hd d heq (Nat.zero_add d) (Nat.zero_le _)
        (by omega) (by omega)
      omega
    · omega
  · rintro ⟨h, h'⟩
    rcases perInsertSort_spec arr hd with ⟨arr', heq, _⟩ | ⟨_, hover⟩
    · exact ⟨arr', heq⟩
    · omega

/-! ## The passes of shell_insert -/

/-- One turn of the loop of `shell_insert`, from an array and its gap to the next. -/
inductive Pass (len : Nat) : List Int × Nat → Nat → List Int × Nat → Prop
  | mk {arr arr' : List Int} {d : Nat} : d ≠ 0 → perInsertSort arr d len = some arr' →
      Pass len (arr, d) d (arr', d / 2)

/-- **`shell_insert` is a run of passes** down to the gap 0, the last of them with the gap 1. -/
theorem shellLoop_run {len : Nat} (fuel : Nat) : ∀ {arr : List Int} {d : Nat},
    shellLoop len fuel arr d = some arr' →
    ∃ gaps, Run (Pass len) (arr, d) gaps (arr', 0) ∧ (d ≠ 0 → 1 ∈ gaps) := by
  induction fuel with
  | zero => exact fun h => nomatch h
  | succ fuel ih =>
      intro arr d h
      rw [shellLoop] at h
      by_cases hd : d ≠ 0
      · rw [if_pos hd] at h
        obtain ⟨arr₁, hpass, h⟩ := Option.bind_eq_some_iff.mp h
        obtain ⟨gaps, hrun, hone⟩ := ih h
        refine ⟨d :: gaps, .cons (.mk hd hpass) hrun, ?_⟩
        intro _
        by_cases hd1 : d = 1
        · rw [hd1]
          exact List.mem_cons_self
        · exact List.mem_cons_of_mem d (hone (by omega))
      · rw [if_neg hd] at h
        obtain rfl := Option.some.inj h
        obtain rfl : d = 0 := not_ne_iff.mp hd
        exact ⟨[], .refl, fun h0 => absurd rfl h0⟩

/-- The gaps end: each is at most half the one before. -/
theorem shellLoop_returns {len : Nat} (hfit : len + len / 2 ≤ 2147483648) (fuel : Nat) :
    ∀ {arr : List Int} {d : Nat}, arr.length = len → d ≤ len / 2 → d < fuel →
    ∃ arr', shellLoop len fuel arr d = some arr' := by
  induction fuel with
  | zero =>
      intro arr d _ _ hf
      exact absurd hf (Nat.not_lt_zero _)
  | succ fuel ih =>
      intro arr d hlen hle hf
      rw [shellLoop]
      by_cases hd : d ≠ 0
      · obtain ⟨arr₁, heq⟩ := (perInsertSort_returns_iff arr (d := d) (by omega)).mpr ⟨by omega, by omega⟩
        obtain ⟨hclassed, _⟩ := perInsertSort_classed (Nat.pos_of_ne_zero hd) heq
        rw [hlen] at heq
        rw [if_pos hd, heq]
        exact ih (hclassed.length.trans hlen) (by omega) (by omega)
      · rw [if_neg hd]
        exact ⟨arr, rfl⟩

/-- **`shell_insert` returns** exactly where its first gap, the largest, leaves room behind the array. -/
theorem shellInsert_returns_iff (arr : List Int) :
    (∃ arr', shellInsert arr arr.length = some arr') ↔ arr.length + arr.length / 2 ≤ 2147483648 := by
  constructor
  · rintro ⟨arr', heq⟩
    by_cases hd : arr.length / 2 ≠ 0
    · unfold shellInsert at heq
      rw [shellLoop, if_pos hd] at heq
      obtain ⟨arr₁, hpass, _⟩ := Option.bind_eq_some_iff.mp heq
      exact ((perInsertSort_returns_iff arr (Nat.pos_of_ne_zero hd)).mp ⟨arr₁, hpass⟩).2
    · omega
  · intro hfit
    exact shellLoop_returns hfit (arr.length + 1) rfl (Nat.le_refl _)
      (Nat.lt_succ_of_le (Nat.div_le_self _ _))

/-- The array after passes with the gaps `gaps`: a permutation, ordered for each of them. -/
structure GapsDone (a : List Int) (gaps : List Nat) (b : List Int) : Prop where
  perm    : b.Perm a
  ordered : ∀ g ∈ gaps, GapOrdered a.length g (val b)

/-- **One pass** adds its gap and loses none. -/
theorem GapsDone.pass {gaps : List Nat} (h : GapsDone a gaps arr) (hd : d ≠ 0)
    (heq : perInsertSort arr d a.length = some arr') : GapsDone a (gaps ++ [d]) arr' := by
  have hlen := h.perm.length_eq
  rw [← hlen] at heq
  obtain ⟨hclassed, hnew⟩ := perInsertSort_classed (Nat.pos_of_ne_zero hd) heq
  rw [hlen] at hnew
  refine ⟨hclassed.perm.trans h.perm, ?_⟩
  intro g hg
  rcases List.mem_append.mp hg with hg | hg
  · have hold := h.ordered g hg
    rw [← hlen] at hold hnew ⊢
    exact hclassed.gapOrdered hnew hold
  · rw [List.mem_singleton.mp hg]
    exact hnew

theorem gapsDone_run {gaps : List Nat} (h : Run (Pass a.length) (a, d) gaps (arr, k)) :
    GapsDone a gaps arr := by
  have hstart : GapsDone a [] a := ⟨List.Perm.refl a, fun g hg => nomatch hg⟩
  have hstep : ∀ past s d s', GapsDone a past (Prod.fst s) → Pass a.length s d s' →
      GapsDone a (past ++ [d]) (Prod.fst s') := by
    intro past s d s' hinv hpass
    cases hpass with
    | mk hd heq => exact hinv.pass hd heq
  exact h.invariant_trace hstep hstart

/-- **Gap passes do not undo each other.** A pass keeps the order for every gap; so after each pass of
    `shell_insert` the array is ordered for the gaps of all its passes up to then. The
    passes return where their indices fit. -/
theorem gap_passes_keep_order (arr : List Int) :
    (∀ h d arr', 1 ≤ h → 1 ≤ d → perInsertSort arr d arr.length = some arr' →
      GapOrdered arr.length h (val arr) → arr'.length = arr.length ∧ GapOrdered arr.length h (val arr')) ∧
    (∀ d, 1 ≤ d → d + d ≤ 2147483648 → arr.length + d ≤ 2147483648 →
      ∃ arr', perInsertSort arr d arr.length = some arr') ∧
    (∀ gaps arr' d, Run (Pass arr.length) (arr, arr.length / 2) gaps (arr', d) →
      ∀ g ∈ gaps, GapOrdered arr.length g (val arr')) ∧
    ∀ arr', shellInsert arr arr.length = some arr' →
      ∃ gaps, Run (Pass arr.length) (arr, arr.length / 2) gaps (arr', 0) := by
  refine ⟨?_, ?_, ?_, ?_⟩
  · intro h d arr' _ hd heq hord
    obtain ⟨hclassed, hnew⟩ := perInsertSort_classed hd heq
    exact ⟨hclassed.length, hclassed.gapOrdered hnew hord⟩
  · intro d hd h h'
    exact (perInsertSort_returns_iff arr hd).mpr ⟨h, h'⟩
  · intro gaps arr' d hrun
    exact (gapsDone_run hrun).ordered
  · intro arr' heq
    obtain ⟨gaps, hrun, _⟩ := shellLoop_run _ heq
    exact ⟨gaps, hrun⟩

/-- `per_insert_sort(arr, d, len)` returns, with every order by a gap that the array had before. -/
def PassKeepsOrder (arr : List Int) (d : Nat) : Prop :=
  ∃ arr', perInsertSort arr d arr.length = some arr' ∧ arr'.length = arr.length ∧
    ∀ h, 1 ≤ h → GapOrdered arr.length h (val arr) → GapOrdered arr.length h (val arr')

/-- `shell_insert` makes its passes down to the gap 0, and after each of them the array is ordered for its
    gap and for every earlier one. -/
def PassesKeepOrder (arr : List Int) : Prop :=
  (∃ arr' gaps, shellInsert arr arr.length = some arr' ∧
    Run (Pass arr.length) (arr, arr.length / 2) gaps (arr', 0)) ∧
  ∀ gaps arr' d, Run (Pass arr.length) (arr, arr.length / 2) gaps (arr', d) →
    ∀ g ∈ gaps, GapOrdered arr.length g (val arr')

/-- **Gap passes do not undo each other**, exactly where their indices fit: the first index of the last
    class, and the index one gap behind the last element. -/
theorem gap_passes_keep_order_iff (arr : List Int) (hd : 1 ≤ d) :
    (PassKeepsOrder arr d ↔ d ≤ 1073741824 ∧ arr.length + d ≤ 2147483648) ∧
    (PassesKeepOrder arr ↔ arr.length + arr.length / 2 ≤ 2147483648) := by
  obtain ⟨hkeep, hreturns, hgaps, hshell⟩ := gap_passes_keep_order arr
  constructor
  · constructor
    · rintro ⟨arr', heq, _⟩
      have hfits := (perInsertSort_returns_iff arr hd).mp ⟨arr', heq⟩
      omega
    · rintro ⟨hgap, hlen⟩
      obtain ⟨arr', heq⟩ := hreturns d hd (by omega) hlen
      obtain ⟨hclassed, _⟩ := perInsertSort_classed hd heq
      exact ⟨arr', heq, hclassed.length, fun h hh hord => (hkeep h d arr' hh hd heq hord).2⟩
  · constructor
    · rintro ⟨⟨arr', _, heq, _⟩, _⟩
      exact (shellInsert_returns_iff arr).mp ⟨arr', heq⟩
    · intro hfit
      obtain ⟨arr', heq⟩ := (shellInsert_returns_iff arr).mpr hfit
      obtain ⟨gaps, hrun⟩ := hshell arr' heq
      exact ⟨⟨arr', gaps, heq, hrun⟩, hgaps⟩

/-- A pass with the gap 3 over an array ordered for the gap 2 leaves it so. -/
theorem gap_passes_keep_order_iff_five :
    PassKeepsOrder [4, 1, 6, 2, 7] 3 ∧ PassesKeepOrder [4, 1, 6, 2, 7] ∧
      perInsertSort [4, 1, 6, 2, 7] 3 5 = some [2, 1, 6, 4, 7] ∧
      GapOrdered 5 2 (val ([4, 1, 6, 2, 7] : List Int)) := by
  have hpairs : ∀ i < 3, val ([4, 1, 6, 2, 7] : List Int) i ≤ val [4, 1, 6, 2, 7] (i + 2) := by decide
  obtain ⟨hpass, hpasses⟩ := gap_passes_keep_order_iff [4, 1, 6, 2, 7] (show 1 ≤ 3 by decide)
  exact ⟨hpass.mpr (by decide), hpasses.mpr (by decide), by decide, fun i hi => hpairs i (by omega)⟩

/-- Three elements and the gap 2^31 − 1: the class of the index 1 has no first index an `int` can hold. -/
theorem gap_passes_overflow :
    GapOrdered 3 1 (val ([1, 2, 3] : List Int)) ∧ int32 (1 + 2147483647) = none ∧
      ¬ PassKeepsOrder [1, 2, 3] 2147483647 := by
  have hpairs : ∀ i < 2, val ([1, 2, 3] : List Int) i ≤ val [1, 2, 3] (i + 1) := by decide
  refine ⟨fun i hi => hpairs i (by omega), by decide, ?_⟩
  rintro ⟨arr', heq, _⟩
  have hfits := (perInsertSort_returns_iff [1, 2, 3] (show 0 < 2147483647 by decide)).mp ⟨arr', heq⟩
  omega

/-! ## shell_insert -/

/-- An array ordered for the gap 1 is in ascending order. -/
theorem pairwise_of_gapOrdered_one (h : GapOrdered arr.length 1 (val arr)) : arr.Pairwise (· ≤ ·) := by
  rw [List.pairwise_iff_getElem]
  intro i j hi hj hij
  rw [← val_eq_getElem hi, ← val_eq_getElem hj]
  exact h.ascending (Nat.le_of_lt hij) hj

/-- **`shell_insert` sorts**: the gaps end, nothing outside the array is touched, and the last pass, with the
    gap 1, leaves a permutation in ascending order. -/
theorem shell_insert_sorts {arr : List Int} (hfit : arr.length + arr.length / 2 ≤ 2147483648) :
    ∃ arr', shellInsert arr arr.length = some arr' ∧ arr'.Pairwise (· ≤ ·) ∧ arr'.Perm arr := by
  obtain ⟨arr', heq⟩ := (shellInsert_returns_iff arr).mpr hfit
  obtain ⟨gaps, hrun, hone⟩ := shellLoop_run _ heq
  have hdone := gapsDone_run hrun
  refine ⟨arr', heq, ?_, hdone.perm⟩
  by_cases hlong : arr.length / 2 ≠ 0
  · have hlast := hdone.ordered 1 (hone hlong)
    rw [← hdone.perm.length_eq] at hlast
    exact pairwise_of_gapOrdered_one hlast
  · -- without a pass there are not two elements
    refine List.pairwise_iff_getElem.mpr fun i j hi hj hij => ?_
    rw [hdone.perm.length_eq] at hj
    omega

/-- The array of `main`. -/
theorem shell_insert_sorts_main : ∃ arr', shellInsert [5, 4, 6, 8, 3, 1, 5, 7, 0, 9] 10 = some arr' ∧
    arr'.Pairwise (· ≤ ·) ∧ arr'.Perm [5, 4, 6, 8, 3, 1, 5, 7, 0, 9] :=
  @shell_insert_sorts [5, 4, 6, 8, 3, 1, 5, 7, 0, 9] (by decide)

end Sorting
