import ApueToyCodes.Semaph.Correctness.Moves

/-!
# `Semaph.Correctness.Safety` — a semaphore in use stays

With fewer than `BIGCOUNT` processes, each of which may end anywhere, every step keeps the invariant. So the
set of a process that has the semaphore is never removed.
-/

namespace Semaph

open SemSet

section

variable {P : Type} [DecidableEq P] [Fintype P]

variable {s s' : State P} {ss : Sems P} {p q : P} {id : Nat} {pc : Pc} {v : Vals P (Fin 3)}
  {bs : List (Sembuf (Fin 3))}

omit [Fintype P] in
theorem goto_pc_self (s : State P) (p : P) (pc : Pc) : (s.goto p pc).pc p = pc := Function.update_self _ _ _

omit [Fintype P] in
theorem goto_pc_ne (s : State P) (pc : Pc) (h : q ≠ p) : (s.goto p pc).pc q = s.pc q := Function.update_of_ne h _ _

omit [Fintype P] in
/-- The set after a change of its values. -/
theorem sems_of_mapVals {f : Vals P (Fin 3) → Vals P (Fin 3)} {tt : Sems P} (hs : s.sems = some ss)
    (ht : ((s.mapVals f).goto p pc).sems = some tt) : tt = ⟨ss.id, f ss.vals⟩ := by
  simpa [State.mapVals, State.goto, hs, eq_comm] using ht

omit [Fintype P] in
theorem exists_sems_of_mapVals {f : Vals P (Fin 3) → Vals P (Fin 3)} {tt : Sems P}
    (ht : ((s.mapVals f).goto p pc).sems = some tt) : ∃ ss, s.sems = some ss ∧ tt = ⟨ss.id, f ss.vals⟩ := by
  cases hs : s.sems with
  | none => simp [State.mapVals, State.goto, hs] at ht
  | some ss => exact ⟨ss, rfl, sems_of_mapVals hs ht⟩

theorem Pc.fits_of_not_uses {c : Int} (h : ¬ pc.uses id) : pc.Fits id c := by
  cases pc <;> simp only [Pc.Fits, Pc.uses, Pc.holds] at h ⊢ <;> intro hid <;> simp [hid] at h

theorem Pc.uses_of_closeRm (h : pc = .closeRm id) : pc.uses id := .inl (by simp [h, Pc.holds])

/-- `semop`, and on to `pc`. -/
theorem SetOk.semop (h : SetOk s ss) (hv : semop p bs ss.vals = some v)
    (hu : ∀ b ∈ bs, b.undo = true ∨ b.op = 0)
    (h1 : (if s.pc p = .opened ss.id then 1 else 0) - amount bs 1 = if pc = .opened ss.id then 1 else 0)
    (h2 : (if (s.pc p).holds ss.id then -1 else 0) - amount bs 2 = if pc.holds ss.id then -1 else 0)
    (hone : ss.vals.val 2 + amount bs 2 ≤ 1) (hfits : pc.Fits ss.id (total ss.vals 1))
    (hlast : pc = .closeRm ss.id → ∀ q, s.pc q ≠ .opened ss.id)
    (hopen : pc = .opened ss.id → ∀ q, q ≠ p → s.pc q ≠ .closeRm ss.id) :
    SetOk ((s.mapVals fun _ => v).goto p pc) ⟨ss.id, v⟩ where
  nonneg := semop_nonneg hv h.nonneg
  adj1 q := by
    by_cases hq : q = p
    · subst hq
      rw [goto_pc_self, semop_adj_self hv, h.adj1, h1]
    · rw [goto_pc_ne _ _ hq, semop_adj_ne hv hq, h.adj1]
      rfl
  adj2 q := by
    by_cases hq : q = p
    · subst hq
      rw [goto_pc_self, semop_adj_self hv, h.adj2, h2]
    · rw [goto_pc_ne _ _ hq, semop_adj_ne hv hq, h.adj2]
      rfl
  lock := (semop_total hv hu 2).trans h.lock
  one := by rwa [semop_val hv hu]
  count := by
    rw [semop_total hv hu]
    exact h.count
  fits q := by
    rw [semop_total hv hu]
    by_cases hq : q = p
    · subst hq
      rwa [goto_pc_self]
    · rw [goto_pc_ne _ _ hq]
      exact h.fits q
  last r hr q hq := by
    by_cases hrp : r = p
    · subst hrp
      rw [goto_pc_self] at hr
      by_cases hqr : q = r
      · subst hqr
        rw [goto_pc_self, hr] at hq
        cases hq
      · rw [goto_pc_ne _ _ hqr] at hq
        exact hlast hr q hq
    · rw [goto_pc_ne _ _ hrp] at hr
      by_cases hqp : q = p
      · subst hqp
        rw [goto_pc_self] at hq
        exact hopen hq r hrp hr
      · rw [goto_pc_ne _ _ hqp] at hq
        exact h.last r hr q hq

/-- The set is still there for all that rely on it. -/
theorem Inv.of_setOk (h : Inv s) (hs : s.sems = some ss) {f : Vals P (Fin 3) → Vals P (Fin 3)}
    (huses : ∀ id, pc.uses id → id = ss.id) (hset : SetOk ((s.mapVals f).goto p pc) ⟨ss.id, f ss.vals⟩) :
    Inv ((s.mapVals f).goto p pc) := by
  have hsems : ((s.mapVals f).goto p pc).sems = some ⟨ss.id, f ss.vals⟩ := by
    simp [State.mapVals, State.goto, hs]
  refine ⟨fun tt ht => ?_, fun q id hq => ⟨_, hsems, ?_⟩⟩
  · rw [hsems] at ht
    obtain rfl := Option.some.inj ht
    exact hset
  · by_cases hqp : q = p
    · subst hqp
      rw [goto_pc_self] at hq
      exact (huses id hq).symm
    · rw [goto_pc_ne _ _ hqp] at hq
      obtain ⟨tt, ht, rfl⟩ := h.there q id hq
      rw [hs] at ht
      rw [Option.some.inj ht]

/-- A step that changes no value, of a process that has to do with the set. -/
theorem Inv.goto_of_uses (h : Inv s) (hs : s.sems = some ss)
    (huses : ∀ id, pc.uses id → id = ss.id) (h1 : s.pc p = .opened ss.id ↔ pc = .opened ss.id)
    (h2 : (s.pc p).holds ss.id = pc.holds ss.id) (hfits : pc.Fits ss.id (total ss.vals 1))
    (hlast : pc = .closeRm ss.id → ∀ q, s.pc q ≠ .opened ss.id) : Inv (s.goto p pc) := by
  have hsame : s.mapVals (fun v => v) = s := by
    cases s
    simp [State.mapVals]
  have hset := h.set ss hs
  rw [← hsame]
  refine h.of_setOk hs huses ?_
  have hnothing : semop p [] ss.vals = some ss.vals := rfl
  have hok : SetOk ((s.mapVals fun _ => ss.vals).goto p pc) ⟨ss.id, ss.vals⟩ :=
    hset.semop hnothing (by simp) (by simp [amount, h1]) (by simp [amount, h2])
      (by simpa [amount] using hset.one) hfits hlast fun hpc q _ hq => hset.last q hq p (h1.mpr hpc)
  have heq : s.mapVals (fun _ => ss.vals) = s.mapVals fun v => v := by
    simp [State.mapVals, hs]
  rwa [heq] at hok

/-- A step of a process that has nothing to do with the set. -/
theorem Inv.goto_idle (h : Inv s) (hold : ∀ id, ¬ (s.pc p).uses id) (hnew : ∀ id, ¬ pc.uses id) :
    Inv (s.goto p pc) := by
  cases hs : s.sems with
  | some ss =>
      have hclose : pc ≠ .closeRm ss.id := fun hpc => hnew ss.id (Pc.uses_of_closeRm hpc)
      refine h.goto_of_uses hs (fun id hu => absurd hu (hnew id)) ?_ ?_ (Pc.fits_of_not_uses (hnew _))
        fun hpc => absurd hpc hclose
      · exact iff_of_false (fun hp => hold _ (.inr hp)) fun hp => hnew _ (.inr hp)
      · have ho : ¬ (s.pc p).holds ss.id = true := fun hp => hold _ (.inl hp)
        have hn : ¬ pc.holds ss.id = true := fun hp => hnew _ (.inl hp)
        rw [Bool.not_eq_true] at ho hn
        rw [ho, hn]
  | none =>
      refine ⟨fun ss hss => ?_, fun q id hq => ?_⟩
      · exact absurd (hs.symm.trans hss) (by simp)
      · by_cases hqp : q = p
        · subst hqp
          rw [goto_pc_self] at hq
          exact absurd hq (hnew id)
        · rw [goto_pc_ne _ _ hqp] at hq
          exact h.there q id hq

/-- The initial value. -/
theorem SetOk.setval0 (h : SetOk s ss) (hpc : s.pc p = .setval0 ss.id) {initval : Int} (hinit : 0 ≤ initval) :
    SetOk ((s.mapVals (setval 0 initval)).goto p (.setval1 ss.id)) ⟨ss.id, setval 0 initval ss.vals⟩ := by
  have hne1 : (1 : Fin 3) ≠ 0 := by decide
  have hne2 : (2 : Fin 3) ≠ 0 := by decide
  have hadj : ∀ q k, k ≠ (0 : Fin 3) → (setval 0 initval ss.vals).adj q k = ss.vals.adj q k :=
    fun q k hk => Function.update_of_ne hk _ _
  have hcount : total ss.vals 1 = 0 := by simpa [hpc, Pc.Fits] using h.fits p
  refine ⟨setval_nonneg hinit h.nonneg, fun q => ?_, fun q => ?_, ?_, ?_, ?_, fun q => ?_, fun r hr q hq => ?_⟩
  · rw [hadj q 1 hne1, h.adj1]
    by_cases hq : q = p
    · subst hq
      simp [goto_pc_self, hpc]
    · rw [goto_pc_ne _ _ hq]
      rfl
  · rw [hadj q 2 hne2, h.adj2]
    by_cases hq : q = p
    · subst hq
      simp [goto_pc_self, hpc, Pc.holds]
    · rw [goto_pc_ne _ _ hq]
      rfl
  · exact (setval_total_ne _ hne2 _).trans h.lock
  · exact h.one
  · rw [setval_total_ne _ hne1]
    exact h.count
  · rw [setval_total_ne _ hne1]
    by_cases hq : q = p
    · subst hq
      rw [goto_pc_self]
      exact fun _ => hcount
    · rw [goto_pc_ne _ _ hq]
      exact h.fits q
  · by_cases hqp : q = p
    · subst hqp
      simp [goto_pc_self] at hq
    · rw [goto_pc_ne _ _ hqp] at hq
      exact h.not_opened hcount q hq

/-- The counter set up. -/
theorem SetOk.setval1 (h : SetOk s ss) (hpc : s.pc p = .setval1 ss.id) :
    SetOk ((s.mapVals (setval 1 bigcount)).goto p (.endcreate ss.id)) ⟨ss.id, setval 1 bigcount ss.vals⟩ := by
  have hne2 : (2 : Fin 3) ≠ 1 := by decide
  have hcount : total ss.vals 1 = 0 := by simpa [hpc, Pc.Fits] using h.fits p
  have hholds : (s.pc p).holds ss.id = true := by simp [hpc, Pc.holds]
  have hnone := h.not_opened hcount
  -- nobody has the semaphore, and `p` has the lock: nobody else is in a place that relies on the set
  have hother : ∀ q, q ≠ p → ¬ (s.pc q).uses ss.id := fun q hq hu =>
    hu.elim (fun hh => hq (h.holder_unique hh hholds)) fun ho => hnone q ho
  refine ⟨setval_nonneg (by decide) h.nonneg, fun q => ?_, fun q => ?_, ?_, ?_, ?_, fun q => ?_, fun r hr => ?_⟩
  · have hzero : (setval 1 bigcount ss.vals).adj q 1 = 0 := by simp [SemSet.setval]
    rw [hzero]
    by_cases hq : q = p
    · subst hq
      simp [goto_pc_self]
    · rw [goto_pc_ne _ _ hq]
      exact (if_neg (hnone q)).symm
  · have hsame : (setval 1 bigcount ss.vals).adj q 2 = ss.vals.adj q 2 := by simp [SemSet.setval]
    rw [hsame, h.adj2]
    by_cases hq : q = p
    · subst hq
      simp [goto_pc_self, hpc, Pc.holds]
    · rw [goto_pc_ne _ _ hq]
      rfl
  · exact (setval_total_ne _ hne2 _).trans h.lock
  · exact h.one
  · exact .inr (setval_total_self _ _ _)
  · rw [setval_total_self]
    by_cases hq : q = p
    · subst hq
      rw [goto_pc_self]
      exact fun _ => rfl
    · rw [goto_pc_ne _ _ hq]
      exact Pc.fits_of_not_uses (hother q hq)
  · exfalso
    by_cases hrp : r = p
    · subst hrp
      simp [goto_pc_self] at hr
    · rw [goto_pc_ne _ _ hrp] at hr
      exact hother r hrp (Pc.uses_of_closeRm hr)

/-- The end of a process. -/
theorem SetOk.leave (h : SetOk s ss) (hnew : ∀ id, ¬ pc.uses id) :
    SetOk (s.leave p pc) ⟨ss.id, undo p ss.vals⟩ := by
  have hnnp : 0 ≤ ss.vals.val 1 + ss.vals.adj p 1 := by
    have := h.nonneg 1
    rw [h.adj1]
    split <;> omega
  have hnn2 : 0 ≤ ss.vals.val 2 + ss.vals.adj p 2 := by
    have hv := h.nonneg 2
    rw [h.adj2]
    split
    · rename_i hp
      rw [h.val2_of_holds hp]
      decide
    · omega
  have hle1 : ss.vals.val 1 + ss.vals.adj p 1 ≤ semvmx := by
    have hv := h.val1_le
    rw [h.adj1]
    simp only [bigcount, semvmx] at hv ⊢
    split <;> omega
  have hle2 : ss.vals.val 2 + ss.vals.adj p 2 ≤ semvmx := by
    have hv := h.one
    rw [h.adj2]
    simp only [semvmx]
    split <;> omega
  have hself : ∀ k, (undo p ss.vals).adj p k = 0 := fun k => by simp [undo]
  have hne : ∀ q k, q ≠ p → (undo p ss.vals).adj q k = ss.vals.adj q k := fun q k hq => by
    simp [undo, Function.update_of_ne hq]
  unfold State.leave
  refine ⟨fun k => undo_nonneg _ _ k, fun q => ?_, fun q => ?_, ?_, ?_, ?_, fun q => ?_, fun r hr q hq => ?_⟩
  · by_cases hq : q = p
    · subst hq
      rw [goto_pc_self, hself, if_neg fun ho => hnew _ (.inr ho)]
    · rw [goto_pc_ne _ _ hq, hne q 1 hq, h.adj1]
      rfl
  · by_cases hq : q = p
    · subst hq
      rw [goto_pc_self, hself, if_neg fun ho => hnew _ (.inl ho)]
    · rw [goto_pc_ne _ _ hq, hne q 2 hq, h.adj2]
      rfl
  · exact (undo_total hnn2 hle2).trans h.lock
  · have hv : (undo p ss.vals).val 2 = min semvmx (max 0 (ss.vals.val 2 + ss.vals.adj p 2)) := rfl
    have hone := h.one
    rw [hv, h.adj2]
    split <;> omega
  · rw [undo_total hnnp hle1]
    exact h.count
  · rw [undo_total hnnp hle1]
    by_cases hq : q = p
    · subst hq
      rw [goto_pc_self]
      exact Pc.fits_of_not_uses (hnew _)
    · rw [goto_pc_ne _ _ hq]
      exact h.fits q
  · by_cases hrp : r = p
    · subst hrp
      rw [goto_pc_self] at hr
      exact hnew _ (Pc.uses_of_closeRm hr)
    · rw [goto_pc_ne _ _ hrp] at hr
      by_cases hqp : q = p
      · subst hqp
        rw [goto_pc_self] at hq
        exact hnew _ (.inr hq)
      · rw [goto_pc_ne _ _ hqp] at hq
        exact h.last r hr q hq

theorem Inv.leave (h : Inv s) (hnew : ∀ id, ¬ pc.uses id) : Inv (s.leave p pc) := by
  cases hs : s.sems with
  | some ss => exact h.of_setOk hs (fun id hu => absurd hu (hnew id)) ((h.set ss hs).leave hnew)
  | none =>
      have hsame : s.mapVals (undo p) = s := by
        cases s
        simp_all [State.mapVals]
      unfold State.leave
      rw [hsame]
      refine ⟨fun ss hss => absurd (hs.symm.trans hss) (by simp), fun q id hq => ?_⟩
      by_cases hqp : q = p
      · subst hqp
        rw [goto_pc_self] at hq
        exact absurd hq (hnew id)
      · rw [goto_pc_ne _ _ hqp] at hq
        exact h.there q id hq

/-- The set made. -/
theorem Inv.make (h : Inv s) (hs : s.sems = none) (hnew : ∀ id, ¬ pc.uses id) :
    Inv ({ s with sems := some ⟨s.nextId, zero⟩, nextId := s.nextId + 1 }.goto p pc) := by
  have hnone : ∀ q id, ¬ (s.pc q).uses id := fun q id hu => by
    obtain ⟨ss, hss, _⟩ := h.there q id hu
    simp [hs] at hss
  have hall : ∀ q id, ¬ (({ s with sems := some ⟨s.nextId, zero⟩, nextId := s.nextId + 1 } : State P).goto p pc
      |>.pc q).uses id := fun q id => by
    by_cases hq : q = p
    · subst hq
      rw [goto_pc_self]
      exact hnew id
    · rw [goto_pc_ne _ _ hq]
      exact hnone q id
  refine ⟨fun ss hss => ?_, fun q id hq => absurd hq (hall q id)⟩
  obtain rfl := Option.some.inj hss
  exact
    { nonneg := fun _ => Int.le_refl 0
      adj1 := fun q => (if_neg fun ho => hall q _ (.inr ho)).symm
      adj2 := fun q => (if_neg fun ho => hall q _ (.inl ho)).symm
      lock := zero_total 2
      one := by simp [zero]
      count := .inl (zero_total 1)
      fits := fun q => Pc.fits_of_not_uses (hall q _)
      last := fun r hr => absurd (Pc.uses_of_closeRm hr) (hall r _) }

/-- The set removed. -/
theorem Inv.remove (h : Inv s) (hs : s.sems = some ss) (hpc : s.pc p = .closeRm ss.id) :
    Inv ({ s with sems := none }.goto p .out) := by
  have hset := h.set ss hs
  have hholds : (s.pc p).holds ss.id = true := by simp [hpc, Pc.holds]
  refine ⟨fun tt ht => absurd ht (by simp [State.goto]), fun q id hq => ?_⟩
  exfalso
  by_cases hqp : q = p
  · subst hqp
    simp [goto_pc_self, Pc.uses, Pc.holds] at hq
  · rw [goto_pc_ne _ _ hqp] at hq
    obtain ⟨tt, ht, rfl⟩ := h.there q id hq
    rw [hs] at ht
    obtain rfl := Option.some.inj ht
    rcases hq with hh | ho
    · exact hqp (hset.holder_unique hh hholds)
    · exact hset.last p hpc q ho

/-! ## Every step -/

omit [DecidableEq P] in
/-- The counter is set up, or nobody has counted yet. -/
theorem SetOk.total1 (h : SetOk s ss) (hcard : (Fintype.card P : Int) < bigcount) :
    if ss.vals.val 1 = 0 then total ss.vals 1 = 0 else total ss.vals 1 = bigcount := by
  have hsum := h.sum_adj1
  have hle : (Finset.univ.filter fun p => s.pc p = .opened ss.id).card ≤ Fintype.card P := Finset.card_le_univ _
  have hnn := h.nonneg 1
  have htot : total ss.vals 1 = ss.vals.val 1 + ∑ p, ss.vals.adj p 1 := rfl
  rw [hsum] at htot
  have hcount := h.count
  split
  · rcases hcount with h0 | hbig
    · exact h0
    · omega
  · rcases hcount with h0 | hbig
    · omega
    · exact hbig

/-- **One step** keeps the invariant. -/
theorem inv_move {initval : Int} {e : Event P} (hcard : (Fintype.card P : Int) < bigcount) (h : Inv s)
    (hm : Move initval s e s') : Inv s' := by
  cases hm with
  | create p hpc => exact h.goto_idle (by simp [hpc, Pc.uses, Pc.holds]) (by simp [Pc.uses, Pc.holds])
  | make p hpc hs => exact h.make hs (by simp [Pc.uses, Pc.holds])
  | found p hpc ss hs => exact h.goto_idle (by simp [hpc, Pc.uses, Pc.holds]) (by simp [Pc.uses, Pc.holds])
  | retry p id hpc => exact h.goto_idle (by simp [hpc, Pc.uses, Pc.holds]) (by simp [Pc.uses, Pc.holds])
  | sleep p ss hs hpc => exact h.goto_idle (by simp [hpc, Pc.uses, Pc.holds]) (by simp [Pc.uses, Pc.holds])
  | lock p ss hs hpc v hv =>
      obtain ⟨hzero, _⟩ := val_of_semop_zero hv
      have hnot : (s.pc p).holds ss.id = false ∧ s.pc p ≠ .opened ss.id := by
        rcases hpc with hpc | hpc <;> simp [hpc, Pc.holds]
      refine h.of_setOk hs (by simp [Pc.uses, Pc.holds, eq_comm]) ((h.set ss hs).semop hv (by simp [opLock])
        ?_ ?_ ?_ trivial (by simp) (by simp))
      · simp [hnot.2, amount, opLock]
      · rw [hnot.1]
        simp [amount, opLock, Pc.holds]
      · simp [hzero, amount, opLock]
  | getval p ss hs hpc =>
      have htot := (h.set ss hs).total1 hcard
      split
      · rename_i h0
        rw [if_pos h0] at htot
        exact h.goto_of_uses hs (by simp [Pc.uses, Pc.holds, eq_comm]) (by simp [hpc]) (by simp [hpc, Pc.holds])
          (fun _ => htot) (by simp)
      · rename_i h0
        rw [if_neg h0] at htot
        exact h.goto_of_uses hs (by simp [Pc.uses, Pc.holds, eq_comm]) (by simp [hpc]) (by simp [hpc, Pc.holds])
          (fun _ => htot) (by simp)
  | setval0 p ss hs hpc hlo =>
      exact h.of_setOk hs (by simp [Pc.uses, Pc.holds, eq_comm]) ((h.set ss hs).setval0 hpc hlo)
  | setval1 p ss hs hpc =>
      exact h.of_setOk hs (by simp [Pc.uses, Pc.holds, eq_comm]) ((h.set ss hs).setval1 hpc)
  | endcreate p ss hs hpc v hv =>
      have hset := h.set ss hs
      have hbig : total ss.vals 1 = bigcount := by simpa [hpc, Pc.Fits] using hset.fits p
      have hholds : (s.pc p).holds ss.id = true := by simp [hpc, Pc.holds]
      refine h.of_setOk hs (by simp [Pc.uses, Pc.holds, eq_comm]) (hset.semop hv (by simp [opEndcreate])
        ?_ ?_ ?_ (fun _ => hbig) (by simp) fun _ q hq hqc => hq ?_)
      · simp [hpc, amount, opEndcreate]
      · simp [hpc, amount, opEndcreate, Pc.holds]
      · have hone := hset.one
        simp [amount, opEndcreate]
        omega
      · exact hset.holder_unique (by simp [hqc, Pc.holds]) hholds
  | op p ss hs hpc value h0 v hv =>
      have hset := h.set ss hs
      have hbig : total ss.vals 1 = bigcount := by simpa [hpc, Pc.Fits] using hset.fits p
      refine h.of_setOk hs (by simp [Pc.uses, Pc.holds, eq_comm]) (hset.semop hv (by simp [opOp])
        ?_ ?_ ?_ (fun _ => hbig) (by simp) fun _ q _ hqc => hset.last q hqc p hpc)
      · simp [hpc, amount, opOp]
      · simp [hpc, amount, opOp, Pc.holds]
      · simpa [amount, opOp] using hset.one
  | close p ss hs hpc v hv =>
      have hset := h.set ss hs
      obtain ⟨hzero, _⟩ := val_of_semop_zero hv
      have hbig : total ss.vals 1 = bigcount := by simpa [hpc, Pc.Fits] using hset.fits p
      refine h.of_setOk hs (by simp [Pc.uses, Pc.holds, eq_comm]) (hset.semop hv (by simp [opClose])
        ?_ ?_ ?_ (fun _ => hbig) (by simp) (by simp))
      · simp [hpc, amount, opClose]
      · simp [hpc, amount, opClose, Pc.holds]
      · simp [hzero, amount, opClose]
  | closeGet p ss hs hpc =>
      have hset := h.set ss hs
      have hbig : total ss.vals 1 = bigcount := by simpa [hpc, Pc.Fits] using hset.fits p
      split
      · exact h.goto_of_uses hs (by simp [Pc.uses, Pc.holds, eq_comm]) (by simp [hpc]) (by simp [hpc, Pc.holds])
          (fun _ => hbig) fun _ => hset.none_opened hbig ‹_›
      · exact h.goto_of_uses hs (by simp [Pc.uses, Pc.holds, eq_comm]) (by simp [hpc]) (by simp [hpc, Pc.holds])
          (fun _ => hbig) (by simp)
  | closeRm p ss hs hpc => exact h.remove hs hpc
  | unlock p ss hs hpc v hv =>
      have hset := h.set ss hs
      have hone := hset.one
      refine h.of_setOk hs (by simp [Pc.uses, Pc.holds]) (hset.semop hv (by simp [opUnlock])
        ?_ ?_ ?_ trivial (by simp) (by simp))
      · simp [hpc, amount, opUnlock]
      · simp [hpc, amount, opUnlock, Pc.holds]
      · simp [amount, opUnlock]
        omega
  | exit p => exact h.leave (by simp [Pc.uses, Pc.holds])
  | zero p | range p | badInit p => exact h.leave (by simp [Pc.uses, Pc.holds])
  | gone p => exact h.leave (by simp [Pc.uses, Pc.holds])

end

end Semaph
