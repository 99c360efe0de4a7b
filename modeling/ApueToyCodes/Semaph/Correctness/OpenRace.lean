import ApueToyCodes.Semaph.Correctness.Results

/-!
# `Semaph.Correctness.OpenRace` — `sem_open` while the set is removed

`sem_open` takes no lock, so it may be given a set that the last process is about to remove. A set that is gone
stays gone, since numbers are not given twice (`step_sems`): what the process got is of no use to it any more.
-/

namespace Semaph

open CInt SemSet

section

variable {P : Type} [DecidableEq P] {initval : Int}

variable {s s' : State P} {p q : P} {id : Nat} {tr : List (Event P)} {e : Event P}

/-- The set is the same one, or it is gone. -/
def SameSet (s s' : State P) : Prop :=
  s'.nextId = s.nextId ∧ ∀ ss', s'.sems = some ss' → ∃ ss, s.sems = some ss ∧ ss.id = ss'.id

/-- No set has a number that is yet to be given. -/
def Numbered (s : State P) : Prop := ∀ ss, s.sems = some ss → ss.id < s.nextId

/-- The set `id` is gone for good. -/
def Gone (id : Nat) (s : State P) : Prop := id < s.nextId ∧ ∀ ss, s.sems = some ss → ss.id ≠ id

theorem sameSet_goto (s : State P) (p : P) (pc : Pc) : SameSet s (s.goto p pc) := ⟨rfl, fun ss' hs => ⟨ss', hs, rfl⟩⟩

theorem sameSet_mapVals (s : State P) (f : Vals P (Fin 3) → Vals P (Fin 3)) (p : P) (pc : Pc) :
    SameSet s ((s.mapVals f).goto p pc) := by
  refine ⟨rfl, fun ss' hs => ?_⟩
  obtain ⟨ss, hss, rfl⟩ := exists_sems_of_mapVals hs
  exact ⟨ss, hss, rfl⟩

theorem sameSet_err (s : State P) (p : P) (msg : String) : SameSet s (s.err p msg) := sameSet_mapVals s _ p _

theorem sameSet_semopThen {bs : List (Sembuf (Fin 3))} {msg : String} {gone : State P} {wait : Option (State P)}
    {pc : Pc} (hgone : SameSet s gone) (hwait : ∀ t, wait = some t → SameSet s t)
    (h : semopThen s p id bs msg gone wait pc = some s') : SameSet s s' := by
  unfold semopThen at h
  split at h
  · exact Option.some.inj h ▸ hgone
  · split at h
    · exact Option.some.inj h ▸ sameSet_err s p msg
    · split at h
      · exact hwait s' h
      · exact Option.some.inj h ▸ sameSet_mapVals s _ p pc

omit [DecidableEq P] in
theorem sameSet_of_none (s t : State P) (h : none = some t) : SameSet s t := absurd h (Option.some_ne_none t).symm

theorem sameSet_semctlThen {msg : String} {k : Vals P (Fin 3) → State P} (hk : ∀ v, SameSet s (k v))
    (h : semctlThen s p id msg k = some s') : SameSet s s' := by
  unfold semctlThen at h
  split at h
  · exact Option.some.inj h ▸ sameSet_err s p msg
  · exact Option.some.inj h ▸ hk _

theorem sameSet_callStep {c : Call} (h : callStep s p c = some s') : SameSet s s' := by
  cases c with
  | create =>
      simp only [callStep] at h
      split at h
      · exact Option.some.inj h ▸ sameSet_goto s p _
      · cases h
  | openSem =>
      simp only [callStep] at h
      split at h
      · split at h
        · exact Option.some.inj h ▸ ⟨rfl, fun ss' hs => ⟨ss', hs, rfl⟩⟩
        · exact Option.some.inj h ▸ sameSet_goto s p _
      · cases h
  | op value =>
      simp only [callStep] at h
      split at h
      · split at h
        · exact Option.some.inj h ▸ sameSet_err s p _
        · exact sameSet_semopThen (sameSet_err s p _) (sameSet_of_none s) h
      · cases h
  | close =>
      simp only [callStep] at h
      split at h
      · exact sameSet_semopThen (sameSet_err s p _) (sameSet_of_none s) h
      · cases h

/-- **A step makes one new set at most**, and gives it the next number. -/
theorem step_sems (h : step s initval e = some s') :
    SameSet s s' ∨ (s'.nextId = s.nextId + 1 ∧ ∀ ss', s'.sems = some ss' → ss'.id = s.nextId) := by
  cases e with
  | call p c => exact .inl (sameSet_callStep h)
  | exit p =>
      simp only [step] at h
      split at h
      · cases h
      · exact .inl (Option.some.inj h ▸ sameSet_mapVals s _ p _)
  | run p =>
      have herr := fun msg => sameSet_err s p msg
      cases hpc : s.pc p <;> simp only [step, runStep, hpc] at h
      case again =>
        split at h
        · exact .inl (Option.some.inj h ▸ sameSet_goto s p _)
        · obtain rfl := Option.some.inj h
          exact .inr ⟨rfl, fun ss' hs => Option.some.inj hs ▸ rfl⟩
      case lock id =>
        exact .inl (sameSet_semopThen (sameSet_goto s p _) (fun _ ht => Option.some.inj ht ▸ sameSet_goto s p _) h)
      case asleep id | endcreate id | opening id | unlock id => exact .inl (sameSet_semopThen (herr _) (sameSet_of_none s) h)
      case getval id => exact .inl (sameSet_semctlThen (fun _ => sameSet_goto s p _) h)
      case setval0 id =>
        refine .inl (sameSet_semctlThen (fun _ => ?_) h)
        split
        · exact herr _
        · exact sameSet_mapVals s _ p _
      case setval1 id => exact .inl (sameSet_semctlThen (fun _ => sameSet_mapVals s _ p _) h)
      case closeGet id =>
        refine .inl (sameSet_semctlThen (fun _ => ?_) h)
        split
        · exact herr _
        · exact sameSet_goto s p _
      case closeRm id =>
        have hrm : SameSet s ({ s with sems := none }.goto p .out) :=
          ⟨rfl, fun ss' hs => absurd hs (by simp [State.goto])⟩
        exact .inl (sameSet_semctlThen (fun _ => hrm) h)
      all_goals cases h

theorem Numbered.step (h : Numbered s) (hs : Semaph.step s initval e = some s') : Numbered s' := by
  intro ss' hss'
  rcases step_sems hs with ⟨hnext, hsame⟩ | ⟨hnext, hnew⟩
  · obtain ⟨ss, hss, hid⟩ := hsame ss' hss'
    rw [hnext, ← hid]
    exact h ss hss
  · rw [hnext, hnew ss' hss']
    exact Nat.lt_succ_self _

theorem Gone.step (h : Gone id s) (hs : Semaph.step s initval e = some s') : Gone id s' := by
  rcases step_sems hs with ⟨hnext, hsame⟩ | ⟨hnext, hnew⟩
  · refine ⟨hnext ▸ h.1, fun ss' hss' => ?_⟩
    obtain ⟨ss, hss, hid⟩ := hsame ss' hss'
    exact hid ▸ h.2 ss hss
  · refine ⟨hnext ▸ Nat.lt_succ_of_lt h.1, fun ss' hss' => ?_⟩
    rw [hnew ss' hss']
    exact Nat.ne_of_gt h.1

omit [DecidableEq P] in
theorem Gone.vals (h : Gone id s) : s.vals id = none := by
  unfold State.vals
  split
  · exact if_neg (h.2 _ ‹_›)
  · rfl

/-- What is left to a process whose set is gone. -/
theorem Gone.op (h : Gone id s) (hp : s.pc p = .opened id) (value : Int) :
    Semaph.step s initval (.call p (.op value))
      = some (s.err p (if toInt16 value = 0 then "can't have value == 0" else "sem_op error")) := by
  simp only [Semaph.step, callStep, hp, semopThen, h.vals]
  split <;> rfl

/-- **The race of `sem_open`.** Between the last process's look at the counter and its `IPC_RMID` another one may
    open the semaphore: it gets an identifier, and no set. Whatever happens afterwards, a `sem_op` with it
    fails. -/
theorem open_races [Fintype P] (hcard : (Fintype.card P : Int) < bigcount)
    (h : ProperRuns initval (init P) tr s) (hp : s.pc p = .closeRm id) (hq : s.pc q = .out) :
    ∃ s', Runs.Run (fun s e s' => step s initval e = some s') s [.call q .openSem, .run q, .run p] s' ∧
      s'.pc q = .opened id ∧ s'.sems = none ∧
      ∀ tr' s'', Runs.Run (fun s e s' => step s initval e = some s') s' tr' s'' → s''.pc q = .opened id →
        ∀ value, step s'' initval (.call q (.op value))
          = some (s''.err q (if toInt16 value = 0 then "can't have value == 0" else "sem_op error")) := by
  have hr := reached hcard h
  obtain ⟨ss, hs, rfl⟩ := hr.inv.there p id (Pc.uses_of_closeRm hp)
  have hset := hr.inv.set ss hs
  have hbig : total ss.vals 1 = bigcount := by simpa [hp, Pc.Fits] using hset.fits p
  have hval := hset.val1_pos hcard hbig
  have hpq : p ≠ q := fun heq => by simp [heq, hq] at hp
  have hv : s.vals ss.id = some ss.vals := by simp [State.vals, hs]
  have hnum : Numbered s :=
    h.invariant (fun _ _ _ hn hs => hn.step hs.1) fun ss hs => by simp [init] at hs
  obtain ⟨v, hsem⟩ : ∃ v, semop q opOpen ss.vals = some v := by
    refine Option.isSome_iff_exists.mp ?_
    simp [semop, opOpen, applyOp, hval]
  have h1 : step s initval (.call q .openSem) = some (s.goto q (.opening ss.id)) := by
    simp [step, callStep, hq, hs]
  have h2 : step (s.goto q (.opening ss.id)) initval (.run q)
      = some (((s.goto q (.opening ss.id)).mapVals fun _ => v).goto q (.opened ss.id)) := by
    simp only [step, runStep, goto_pc_self]
    exact semopThen_some hv (hset.inRange (by decide) (by decide)) hsem
  have hpc2 : (((s.goto q (.opening ss.id)).mapVals fun _ => v).goto q (.opened ss.id)).pc p = .closeRm ss.id := by
    rw [goto_pc_ne _ _ hpq]
    exact (goto_pc_ne s _ hpq).trans hp
  have hv2 : (((s.goto q (.opening ss.id)).mapVals fun _ => v).goto q (.opened ss.id)).vals ss.id = some v := by
    simp [State.vals, State.goto, State.mapVals, hs]
  have h3 : ∀ t : State P, t.pc p = .closeRm ss.id → t.vals ss.id = some v →
      step t initval (.run p) = some ({ t with sems := none }.goto p .out) := fun t htp htv => by
    simp [step, runStep, htp, semctlThen, htv]
  refine ⟨_, .cons h1 (.cons h2 (.cons (h3 _ hpc2 hv2) .refl)), ?_, rfl, fun tr' s'' hrun hq'' value => ?_⟩
  · rw [goto_pc_ne _ _ (Ne.symm hpq)]
    exact goto_pc_self _ _ _
  · have hgone : Gone ss.id s'' :=
      hrun.invariant (fun _ _ _ hg hs => hg.step hs) ⟨hnum ss hs, fun tt ht => by simp [State.goto] at ht⟩
    exact hgone.op hq'' value

theorem open_races_example : ∃ s s' : State Bool, s.pc true = .closeRm 0 ∧ s'.pc false = .opened 0 ∧ s'.sems = none ∧
    step s' 1 (.call false (.op (-1))) = some (s'.err false "sem_op error") := by
  obtain ⟨s, hruns, hpc, hout⟩ := removes_example
  obtain ⟨s', _, hpc', hs', hafter⟩ := open_races (by decide) hruns.proper hpc hout
  exact ⟨s, s', hpc, hpc', hs', hafter [] s' .refl hpc' (-1)⟩

end

end Semaph
