import ApueToyCodes.Semaph.Correctness.Results

/-!
# `Semaph.Correctness.Units` — the units of the semaphore

The processes of these runs give back no more units than they have taken, and all of them before they close the
semaphore; they may end with units in their hands. The value and the units taken are together the initial value:
it is set once, before anyone has the semaphore, and a process that ends gives its units back. With initial value 1
the semaphore excludes, and is never lost.
-/

namespace Semaph

open CInt SemSet

section

variable {P : Type} [DecidableEq P] [Fintype P] {initval : Int}

variable {s s' : State P} {ss : Sems P} {p q : P} {id : Nat} {tr : List (Event P)} {e : Event P} {pc : Pc}
  {v : Vals P (Fin 3)} {bs : List (Sembuf (Fin 3))}

/-- Runs of such processes. -/
def FairRuns (initval : Int) : State P → List (Event P) → State P → Prop :=
  Runs.Run fun s e s' => step s initval e = some s' ∧ Fair s e

/-- A step of such a run, computed. -/
def fairStep (initval : Int) (s : State P) (e : Event P) : Option (State P) :=
  if Fair s e then step s initval e else none

/-- One process takes a unit, gives it back and takes it again. -/
def takes : List (Event Bool) :=
  opens ++ [.call true (.op (-1)), .call true (.op 1), .call true (.op (-1))]

/-- The units taken are with processes that have the semaphore. -/
structure UnitsOk (initval : Int) (s : State P) (ss : Sems P) : Prop where
  nonneg : ∀ p, 0 ≤ ss.vals.adj p 0
  le     : total ss.vals 0 ≤ semvmx
  owner  : ∀ p, ss.vals.adj p 0 ≠ 0 → s.pc p = .opened ss.id
  begun  : ∀ p, s.pc p = .setval1 ss.id → total ss.vals 0 = initval
  all    : total ss.vals 1 = bigcount → total ss.vals 0 = initval

omit [DecidableEq P] [Fintype P] in
theorem Fair.noOpen (h : Fair s e) : e.NoOpen := by
  cases e with
  | call p c => cases c <;> simp [Fair, Event.NoOpen] at h ⊢
  | run p => trivial
  | exit p => trivial

omit [DecidableEq P] in
theorem UnitsOk.adj_zero (h : UnitsOk initval s ss) (hp : s.pc p ≠ .opened ss.id) : ss.vals.adj p 0 = 0 :=
  by_contra fun hne => hp (h.owner p hne)

/-- `semop`, and on to `pc`. -/
theorem UnitsOk.semop (h : UnitsOk initval s ss) (hv : semop p bs ss.vals = some v)
    (hu : ∀ b ∈ bs, b.undo = true ∨ b.op = 0) (hle : amount bs 0 ≤ ss.vals.adj p 0)
    (hpc : pc = .opened ss.id ∨ amount bs 0 = 0 ∧ ss.vals.adj p 0 = 0) (hnew : pc ≠ .setval1 ss.id) :
    UnitsOk initval ((s.mapVals fun _ => v).goto p pc) ⟨ss.id, v⟩ where
  nonneg q := by
    by_cases hq : q = p
    · subst hq
      have hself := semop_adj_self hv 0
      rw [hself]
      omega
    · rw [semop_adj_ne hv hq]
      exact h.nonneg q
  le := by
    rw [semop_total hv hu]
    exact h.le
  owner q hne := by
    by_cases hq : q = p
    · subst hq
      rw [goto_pc_self]
      refine hpc.resolve_right fun ⟨h0, hadj⟩ => hne ?_
      rw [semop_adj_self hv, h0, hadj]
      rfl
    · rw [goto_pc_ne _ _ hq]
      exact h.owner q (by rwa [semop_adj_ne hv hq] at hne)
  begun q hq := by
    by_cases hqp : q = p
    · subst hqp
      rw [goto_pc_self] at hq
      exact absurd hq hnew
    · rw [goto_pc_ne _ _ hqp] at hq
      exact (semop_total hv hu 0).trans (h.begun q hq)
  all hbig := by
    rw [semop_total hv hu] at hbig ⊢
    exact h.all hbig

/-- A step that changes no value, of a process without units. -/
theorem UnitsOk.goto (h : UnitsOk initval s ss) (hp : s.pc p ≠ .opened ss.id) (hnew : pc ≠ .setval1 ss.id) :
    UnitsOk initval (s.goto p pc) ss where
  nonneg := h.nonneg
  le := h.le
  owner q hne := by
    have hq : q ≠ p := fun hq => hp (hq ▸ h.owner q hne)
    rw [goto_pc_ne _ _ hq]
    exact h.owner q hne
  begun q hq := by
    by_cases hqp : q = p
    · subst hqp
      rw [goto_pc_self] at hq
      exact absurd hq hnew
    · rw [goto_pc_ne _ _ hqp] at hq
      exact h.begun q hq
  all := h.all

omit [DecidableEq P] in
/-- The initial value. -/
theorem unitsOk_setval0 (hinit : initval ≤ semvmx) (s : State P) (ss : Sems P) :
    UnitsOk initval s ⟨ss.id, setval 0 initval ss.vals⟩ where
  nonneg q := by simp [SemSet.setval]
  le := (setval_total_self _ _ _).trans_le hinit
  owner q hne := by simp [SemSet.setval] at hne
  begun _ _ := setval_total_self _ _ _
  all _ := setval_total_self _ _ _

/-- The counter. -/
theorem UnitsOk.setval1 (h : UnitsOk initval s ss) (hpc : s.pc p = .setval1 ss.id) :
    UnitsOk initval ((s.mapVals (setval 1 bigcount)).goto p (.endcreate ss.id))
      ⟨ss.id, setval 1 bigcount ss.vals⟩ := by
  have hne : (0 : Fin 3) ≠ 1 := by decide
  have hadj : ∀ q, (setval 1 bigcount ss.vals).adj q 0 = ss.vals.adj q 0 := fun q => by simp [SemSet.setval]
  have htot : total (setval 1 bigcount ss.vals) 0 = initval := (setval_total_ne _ hne _).trans (h.begun p hpc)
  refine ⟨fun q => ?_, (setval_total_ne _ hne _).trans_le h.le, fun q hq => ?_, fun q _ => htot, fun _ => htot⟩
  · rw [hadj]
    exact h.nonneg q
  · rw [hadj] at hq
    have hqp : q ≠ p := fun hqp => by
      have := h.owner q hq
      rw [hqp, hpc] at this
      cases this
    rw [goto_pc_ne _ _ hqp]
    exact h.owner q hq

/-- A process that ends gives its units back. -/
theorem UnitsOk.leave (h : UnitsOk initval s ss) (hset : SetOk s ss) (hnew : ∀ id, ¬ pc.uses id) :
    UnitsOk initval (s.leave p pc) ⟨ss.id, undo p ss.vals⟩ := by
  have hnn0 : 0 ≤ ss.vals.val 0 + ss.vals.adj p 0 := Int.add_nonneg (hset.nonneg 0) (h.nonneg p)
  have hnn1 : 0 ≤ ss.vals.val 1 + ss.vals.adj p 1 := by
    have := hset.nonneg 1
    rw [hset.adj1]
    split <;> omega
  have hle0 : ss.vals.val 0 + ss.vals.adj p 0 ≤ semvmx := by
    have hsum := Finset.single_le_sum (fun q _ => h.nonneg q) (Finset.mem_univ p)
    have htot := h.le
    unfold total at htot
    omega
  have hle1 : ss.vals.val 1 + ss.vals.adj p 1 ≤ semvmx := by
    have hv := hset.val1_le
    rw [hset.adj1]
    simp only [bigcount, semvmx] at hv ⊢
    split <;> omega
  have hself : (undo p ss.vals).adj p 0 = 0 := by simp [undo]
  have hne : ∀ q, q ≠ p → (undo p ss.vals).adj q 0 = ss.vals.adj q 0 := fun q hq => by
    simp [undo, Function.update_of_ne hq]
  unfold State.leave
  refine ⟨fun q => ?_, ?_, fun q hq => ?_, fun q hq => ?_, fun hbig => ?_⟩
  · by_cases hqp : q = p
    · subst hqp
      exact Int.le_of_eq hself.symm
    · rw [hne q hqp]
      exact h.nonneg q
  · exact (undo_total hnn0 hle0).trans_le h.le
  · by_cases hqp : q = p
    · subst hqp
      exact absurd hself hq
    · rw [goto_pc_ne _ _ hqp]
      exact h.owner q (by rwa [hne q hqp] at hq)
  · by_cases hqp : q = p
    · subst hqp
      rw [goto_pc_self] at hq
      exact absurd (.inl (by simp [hq, Pc.holds])) (hnew ss.id)
    · rw [goto_pc_ne _ _ hqp] at hq
      exact (undo_total hnn0 hle0).trans (h.begun q hq)
  · rw [undo_total hnn1 hle1] at hbig
    exact (undo_total hnn0 hle0).trans (h.all hbig)

/-- A reachable state of such processes. -/
structure FairReached (initval : Int) (s : State P) : Prop where
  reached : Reached s
  units   : ∀ ss, s.sems = some ss → UnitsOk initval s ss

theorem units_move (h : FairReached initval s) (hm : Move initval s e s') (hf : Fair s e) {tt : Sems P}
    (ht : s'.sems = some tt) : UnitsOk initval s' tt := by
  cases hm with
  | create p hpc | retry p i hpc => exact (h.units tt ht).goto (by simp [hpc]) (by simp)
  | found p hpc ss hs | sleep p ss hs hpc => exact (h.units tt ht).goto (by simp [hpc]) (by simp)
  | make p hpc hs =>
      obtain rfl := Option.some.inj ht
      have hzero : total (zero : Vals P (Fin 3)) 0 ≤ semvmx := (zero_total 0).trans_le (by decide)
      refine ⟨fun _ => Int.le_refl 0, hzero, fun _ hne => absurd rfl hne, fun q hq => ?_, fun hbig => ?_⟩
      · -- nobody is so far with a set that was not there
        exfalso
        by_cases hqp : q = p
        · subst hqp
          simp [goto_pc_self] at hq
        · rw [goto_pc_ne _ _ hqp] at hq
          obtain ⟨ss, hss, _⟩ := h.reached.inv.there q _ (.inl (by simp [show s.pc q = _ from hq, Pc.holds]; rfl))
          simp [hs] at hss
      · exact absurd ((zero_total 1).symm.trans hbig) (by decide)
  | lock p ss hs hpc v hv =>
      obtain rfl := sems_of_mapVals hs ht
      have hu := h.units ss hs
      have h0 : ss.vals.adj p 0 = 0 := hu.adj_zero (by rcases hpc with hpc | hpc <;> simp [hpc])
      exact hu.semop hv (by simp [opLock]) (by simp [amount, opLock, h0]) (.inr ⟨by simp [amount, opLock], h0⟩)
        (by simp)
  | getval p ss hs hpc => exact (h.units tt ht).goto (by simp [hpc]) (by split <;> simp)
  | closeGet p ss hs hpc => exact (h.units tt ht).goto (by simp [hpc]) (by split <;> simp)
  | setval0 p ss hs hpc hlo hhi =>
      obtain rfl := sems_of_mapVals hs ht
      exact unitsOk_setval0 hhi _ ss
  | setval1 p ss hs hpc =>
      obtain rfl := sems_of_mapVals hs ht
      exact (h.units ss hs).setval1 hpc
  | endcreate p ss hs hpc v hv =>
      obtain rfl := sems_of_mapVals hs ht
      exact (h.units ss hs).semop hv (by simp [opEndcreate])
        (by simpa [amount, opEndcreate] using (h.units ss hs).nonneg p) (.inl rfl) (by simp)
  | op p ss hs hpc value h0 v hv =>
      obtain rfl := sems_of_mapVals hs ht
      exact (h.units ss hs).semop hv (by simp [opOp]) (by simpa [amount, opOp] using hf ss hs) (.inl rfl) (by simp)
  | close p ss hs hpc v hv =>
      obtain rfl := sems_of_mapVals hs ht
      have h0 := hf ss hs
      exact (h.units ss hs).semop hv (by simp [opClose]) (by simp [amount, opClose, h0])
        (.inr ⟨by simp [amount, opClose], h0⟩) (by simp)
  | closeRm => simp [State.goto] at ht
  | unlock p ss hs hpc v hv =>
      obtain rfl := sems_of_mapVals hs ht
      have hu := h.units ss hs
      have h0 : ss.vals.adj p 0 = 0 := hu.adj_zero (by simp [hpc])
      exact hu.semop hv (by simp [opUnlock]) (by simp [amount, opUnlock, h0]) (.inr ⟨by simp [amount, opUnlock], h0⟩)
        (by simp)
  | exit p =>
      obtain ⟨ss, hs, rfl⟩ := exists_sems_of_mapVals ht
      exact (h.units ss hs).leave (h.reached.inv.set ss hs) (by simp [Pc.uses, Pc.holds])
  | zero p | range p | badInit p =>
      obtain ⟨ss, hs, rfl⟩ := exists_sems_of_mapVals ht
      exact (h.units ss hs).leave (h.reached.inv.set ss hs) (by simp [Pc.uses, Pc.holds])
  | gone p =>
      obtain ⟨ss, hs, rfl⟩ := exists_sems_of_mapVals ht
      exact (h.units ss hs).leave (h.reached.inv.set ss hs) (by simp [Pc.uses, Pc.holds])

variable (hcard : (Fintype.card P : Int) < bigcount)

include hcard

theorem fairReached (h : FairRuns initval (init P) tr s) : FairReached initval s := by
  have hstep : ∀ s e s', FairReached initval s → (step s initval e = some s' ∧ Fair s e) →
      FairReached initval s' := fun s e s' hr hs =>
    have hm := hr.reached.move hs.1 hs.2.noOpen
    ⟨hr.reached.step hcard hs.1 hs.2.noOpen, fun _ ht => units_move hr hm hs.2 ht⟩
  exact h.invariant hstep ⟨reached_init, fun ss hs => by simp [init] at hs⟩

/-- **The units are kept.** While a process has the semaphore, the value and the units taken are together the
    initial value, and only processes that have the semaphore have taken any. -/
theorem units_kept (h : FairRuns initval (init P) tr s) (hp : s.pc p = .opened id) :
    ∃ ss, s.sems = some ss ∧ ss.id = id ∧ ss.vals.val 0 + ∑ q, ss.vals.adj q 0 = initval ∧
      0 ≤ ss.vals.val 0 ∧ ∀ q, 0 ≤ ss.vals.adj q 0 ∧ (ss.vals.adj q 0 ≠ 0 → s.pc q = .opened id) := by
  have hr := fairReached hcard h
  obtain ⟨ss, hs, rfl⟩ := hr.reached.inv.there p id (.inr hp)
  have hset := hr.reached.inv.set ss hs
  have hu := hr.units ss hs
  have hbig : total ss.vals 1 = bigcount := by simpa [hp, Pc.Fits] using hset.fits p
  exact ⟨ss, hs, rfl, hu.all hbig, hset.nonneg 0, fun q => ⟨hu.nonneg q, hu.owner q⟩⟩

omit hcard in
theorem takes_example : ∃ s ss, FairRuns 1 (init Bool) takes s ∧ s.pc true = .opened 0 ∧ s.sems = some ss := by
  have hrun : (takes.foldlM (fairStep 1) (init Bool)).map
        (fun s => (s.pc true, s.sems.isSome)) = some (.opened 0, true) := by decide +kernel
  obtain ⟨s, hs, heq⟩ := Option.map_eq_some_iff.mp hrun
  obtain ⟨ss, hss⟩ := Option.isSome_iff_exists.mp (congrArg Prod.snd heq)
  refine ⟨s, ss, Runs.Run.of_foldlM (fun s e s' he => ?_) hs, congrArg Prod.fst heq, hss⟩
  unfold fairStep at he
  split at he
  · exact ⟨he, ‹_›⟩
  · cases he

omit hcard in
theorem units_kept_example : ∃ s : State Bool, ∃ ss, s.sems = some ss ∧ ss.id = 0 ∧
    ss.vals.val 0 + ∑ q, ss.vals.adj q 0 = 1 ∧ 0 ≤ ss.vals.val 0 ∧
      ∀ q, 0 ≤ ss.vals.adj q 0 ∧ (ss.vals.adj q 0 ≠ 0 → s.pc q = .opened 0) := by
  obtain ⟨s, _, hruns, hpc, _⟩ := takes_example
  exact ⟨s, units_kept (by decide) hruns hpc⟩

/-- **Mutual exclusion.** With initial value 1, at most one process has the unit; and when none has it, the
    `sem_wait` of a process that has the semaphore succeeds at once. -/
theorem mutual_exclusion (h : FairRuns 1 (init P) tr s) (hs : s.sems = some ss) :
    (∀ p q, ss.vals.adj p 0 ≠ 0 → ss.vals.adj q 0 ≠ 0 → p = q) ∧
    ((∀ q, ss.vals.adj q 0 = 0) → ∀ p, s.pc p = .opened ss.id →
      ∃ s' v, step s 1 (.call p (.op (-1))) = some s' ∧ s'.sems = some ⟨ss.id, v⟩ ∧ v.adj p 0 = 1) := by
  have hr := fairReached hcard h
  have hset := hr.reached.inv.set ss hs
  have hu := hr.units ss hs
  have hall : ∀ p, s.pc p = .opened ss.id → ss.vals.val 0 + ∑ q, ss.vals.adj q 0 = 1 := fun p hp => by
    have hbig : total ss.vals 1 = bigcount := by simpa [hp, Pc.Fits] using hset.fits p
    exact hu.all hbig
  refine ⟨fun p q hp hq => ?_, fun hnone p hp => ?_⟩
  · by_contra hne
    have hqmem : q ∈ Finset.univ.erase p := Finset.mem_erase.mpr ⟨Ne.symm hne, Finset.mem_univ q⟩
    have hrest : 0 ≤ ∑ r ∈ (Finset.univ.erase p).erase q, ss.vals.adj r 0 :=
      Finset.sum_nonneg fun r _ => hu.nonneg r
    have hsum := hall p (hu.owner p hp)
    rw [← Finset.add_sum_erase _ _ (Finset.mem_univ p), ← Finset.add_sum_erase _ _ hqmem] at hsum
    have hv := hset.nonneg 0
    have hp0 := hu.nonneg p
    have hq0 := hu.nonneg q
    omega
  · have hsum := hall p hp
    rw [Finset.sum_eq_zero fun q _ => hnone q] at hsum
    have hval : ss.vals.val 0 = 1 := by omega
    have hwait : opOp (-1) = [⟨0, -1, true⟩] := rfl
    obtain ⟨v, hsem, hadj⟩ : ∃ v, semop p (opOp (-1)) ss.vals = some v ∧ v.adj p 0 = 1 :=
      ⟨{ val := Function.update ss.vals.val 0 0
         adj := Function.update ss.vals.adj p (Function.update (ss.vals.adj p) 0 1) },
        by rw [hwait]; simp [semop, applyOp, hval, hnone p], by simp⟩
    have hrange : outOfRange p (opOp (-1)) ss.vals = false := by
      rw [hwait]
      exact outOfRange_of_small (by simp) (by simp [hval, semvmx]) (by simp [hnone p, semvmx])
    have hv : s.vals ss.id = some ss.vals := by simp [State.vals, hs]
    refine ⟨(s.mapVals fun _ => v).goto p (.opened ss.id), v, ?_, ?_, hadj⟩
    · simp only [step, callStep, hp]
      rw [if_neg (by decide), semopThen_some hv hrange hsem]
    · simp only [State.goto, State.mapVals, hs, Option.map_some]

omit hcard in
theorem mutual_exclusion_example : ∃ (s : State Bool) (ss : Sems Bool), s.sems = some ss ∧
    ∀ p q, ss.vals.adj p 0 ≠ 0 → ss.vals.adj q 0 ≠ 0 → p = q := by
  obtain ⟨s, ss, hruns, _, hs⟩ := takes_example
  exact ⟨s, ss, hs, (mutual_exclusion (by decide) hruns hs).1⟩

end

end Semaph
