import ApueToyCodes.Semaph.Correctness.Safety

/-!
# `Semaph.Correctness.Results` — runs of the processes

Runs of fewer than `BIGCOUNT` processes that use `sem_create`, `sem_op` and `sem_close` and may end anywhere.
A semaphore in use stays, the errors are those listed, and the lock is given back. Where the processes do not
end in between, the last one to close the semaphore removes it.
-/

namespace Semaph

open CInt SemSet

section

variable {P : Type} [DecidableEq P] [Fintype P] {initval : Int}

variable {s s' : State P} {ss : Sems P} {p q : P} {id : Nat} {tr : List (Event P)} {e : Event P}

/-- Runs without `sem_open`. -/
def ProperRuns (initval : Int) : State P → List (Event P) → State P → Prop :=
  Runs.Run fun s e s' => step s initval e = some s' ∧ e.NoOpen

/-- Ended by an error. -/
def Pc.hasFailed : Pc → Bool
  | .failed _ => true
  | _         => false

/-- Asleep in `sem_create`. -/
def Pc.sleeps : Pc → Bool
  | .asleep _ => true
  | _         => false

def Event.isExit : Event P → Bool
  | .exit _ => true
  | _       => false

/-- No process ends but by returning from its last call; one that sleeps in `sem_create` may fail. -/
structure Orderly (s : State P) (e : Event P) (s' : State P) : Prop where
  noOpen : e.NoOpen
  noExit : e.isExit = false
  failed : ∀ p, (s'.pc p).hasFailed = true → (s.pc p).hasFailed = true ∨ (s.pc p).sleeps = true

instance (s : State P) (e : Event P) (s' : State P) : Decidable (Orderly s e s') :=
  decidable_of_iff (e.NoOpen ∧ e.isExit = false ∧
      ∀ p, (s'.pc p).hasFailed = true → (s.pc p).hasFailed = true ∨ (s.pc p).sleeps = true)
    ⟨fun h => ⟨h.1, h.2.1, h.2.2⟩, fun h => ⟨h.noOpen, h.noExit, h.failed⟩⟩

/-- Runs of processes that all close what they have opened. -/
def OrderlyRuns (initval : Int) : State P → List (Event P) → State P → Prop :=
  Runs.Run fun s e s' => step s initval e = some s' ∧ Orderly s e s'

/-- A step of such a run, computed. -/
def orderlyStep (initval : Int) (s : State P) (e : Event P) : Option (State P) :=
  match step s initval e with
  | some s' => if Orderly s e s' then some s' else none
  | none    => none

theorem orderlyRuns_of_foldlM (h : tr.foldlM (orderlyStep initval) s = some s') : OrderlyRuns initval s tr s' := by
  refine Runs.Run.of_foldlM (fun s e s' he => ?_) h
  unfold orderlyStep at he
  split at he
  · split at he
    · obtain rfl := Option.some.inj he
      exact ⟨‹_›, ‹_›⟩
    · cases he
  · cases he

omit [Fintype P] in
theorem OrderlyRuns.proper (h : OrderlyRuns initval s tr s') : ProperRuns initval s tr s' :=
  h.mono fun _ _ _ hs => ⟨hs.1, hs.2.noOpen⟩

/-- One of two processes creates the semaphore. -/
def opens : List (Event Bool) := .call true .create :: List.replicate 6 (.run true)

theorem opens_example : ∃ s : State Bool, OrderlyRuns 1 (init Bool) opens s ∧ s.pc true = .opened 0 := by
  have hrun : (opens.foldlM (orderlyStep 1) (init Bool)).map
      (fun s => s.pc true) = some (.opened 0) := by decide +kernel
  obtain ⟨s, hs, heq⟩ := Option.map_eq_some_iff.mp hrun
  exact ⟨s, orderlyRuns_of_foldlM hs, heq⟩

/-- It is about to remove the set. -/
theorem removes_example : ∃ s : State Bool,
    OrderlyRuns 1 (init Bool) (opens ++ [Event.call true .close, .run true]) s ∧
    s.pc true = .closeRm 0 ∧ s.pc false = .out := by
  have hrun : ((opens ++ [Event.call true .close, .run true]).foldlM (orderlyStep 1) (init Bool)).map
      (fun s => (s.pc true, s.pc false)) = some (.closeRm 0, .out) := by decide +kernel
  obtain ⟨s, hs, heq⟩ := Option.map_eq_some_iff.mp hrun
  exact ⟨s, orderlyRuns_of_foldlM hs, congrArg Prod.fst heq, congrArg Prod.snd heq⟩

/-- It has removed the set. -/
theorem removed_example : ∃ s : State Bool, OrderlyRuns 1 (init Bool)
    (opens ++ [Event.call true .close, .run true, .run true]) s ∧ ∀ p, s.pc p = .out := by
  have hrun : ((opens ++ [Event.call true .close, .run true, .run true]).foldlM (orderlyStep 1) (init Bool)).map
      (fun s => (s.pc true, s.pc false)) = some (.out, .out) := by decide +kernel
  obtain ⟨s, hs, heq⟩ := Option.map_eq_some_iff.mp hrun
  exact ⟨s, orderlyRuns_of_foldlM hs, fun p => by
    cases p
    · exact congrArg Prod.snd heq
    · exact congrArg Prod.fst heq⟩

omit [Fintype P] in
/-- Which process a step is of, and where it goes. -/
theorem Move.pc_eq (hm : Move initval s e s') :
    ∃ p pc, s'.pc = Function.update s.pc p pc ∧ ∀ id, pc ≠ .opening id := by
  cases hm with
  | getval p => exact ⟨p, _, rfl, fun id => by split <;> simp⟩
  | closeGet p => exact ⟨p, _, rfl, fun id => by split <;> simp⟩
  | _ => exact ⟨_, _, rfl, by simp⟩

omit [Fintype P] in
theorem Move.no_opening (hm : Move initval s e s') (h : ∀ p id, s.pc p ≠ .opening id) (p : P) (id : Nat) :
    s'.pc p ≠ .opening id := by
  obtain ⟨q, pc, hpc, hne⟩ := hm.pc_eq
  rw [hpc]
  by_cases hq : p = q
  · subst hq
    rw [Function.update_self]
    exact hne id
  · rw [Function.update_of_ne hq]
    exact h p id

/-- A reachable state. -/
structure Reached (s : State P) : Prop where
  inv     : Inv s
  opening : ∀ p id, s.pc p ≠ .opening id

theorem reached_init : Reached (init P) := ⟨inv_init P, by simp [init]⟩

theorem Reached.move (h : Reached s) (hs : step s initval e = some s') (he : e.NoOpen) : Move initval s e s' :=
  step_cases h.inv h.opening he hs

variable (hcard : (Fintype.card P : Int) < bigcount)

include hcard

theorem Reached.step (h : Reached s) (hs : Semaph.step s initval e = some s') (he : e.NoOpen) : Reached s' :=
  have hm := h.move hs he
  ⟨inv_move hcard h.inv hm, hm.no_opening h.opening⟩

theorem reached (h : ProperRuns initval (init P) tr s) : Reached s := by
  have hstep : ∀ s e s', Reached s → (Semaph.step s initval e = some s' ∧ e.NoOpen) → Reached s' :=
    fun _ _ _ hr hs => hr.step hcard hs.1 hs.2
  exact h.invariant hstep reached_init

/-- **A semaphore in use stays.** The set of a process that has the semaphore is there, and its counter says
    how many processes have it. -/
theorem in_use_stays (h : ProperRuns initval (init P) tr s) (hp : s.pc p = .opened id) :
    ∃ ss, s.sems = some ss ∧ ss.id = id ∧
      ss.vals.val 1 = bigcount - (Finset.univ.filter fun q => s.pc q = .opened id).card := by
  have hr := reached hcard h
  obtain ⟨ss, hs, rfl⟩ := hr.inv.there p id (.inr hp)
  have hset := hr.inv.set ss hs
  have hbig : total ss.vals 1 = bigcount := by simpa [hp, Pc.Fits] using hset.fits p
  refine ⟨ss, hs, rfl, ?_⟩
  rw [total, hset.sum_adj1] at hbig
  omega

omit hcard in
theorem in_use_stays_example : ∃ s : State Bool, ∃ ss, s.sems = some ss ∧ ss.id = 0 ∧
    ss.vals.val 1 = bigcount - (Finset.univ.filter fun q => s.pc q = .opened 0).card := by
  obtain ⟨s, hruns, hpc⟩ := opens_example
  exact ⟨s, in_use_stays (by decide) hruns.proper hpc⟩

omit [Fintype P] hcard in
/-- Where a process is after an error. -/
theorem err_pc (s : State P) (q p : P) (m : String) : (s.err q m).pc p = if p = q then .failed m else s.pc p :=
  Function.update_apply _ _ _ _

/-- The system calls a process still makes with the lock. -/
def Pc.left : Pc → Nat
  | .getval _    => 4
  | .setval0 _   => 3
  | .setval1 _   => 2
  | .endcreate _ => 1
  | .closeGet _  => 2
  | .closeRm _   => 1
  | .unlock _    => 1
  | _            => 0

omit [Fintype P] hcard in
theorem semopThen_some {bs : List (Sembuf (Fin 3))} {msg : String} {gone : State P} {wait : Option (State P)}
    {pc : Pc} {v : Vals P (Fin 3)} (hs : s.vals id = some ss.vals) (hr : outOfRange p bs ss.vals = false)
    (hv : semop p bs ss.vals = some v) :
    semopThen s p id bs msg gone wait pc = some ((s.mapVals fun _ => v).goto p pc) := by
  simp [semopThen, hs, hr, hv]

omit [DecidableEq P] in
/-- The counter is not used up. -/
theorem SetOk.val1_pos (h : SetOk s ss) (hbig : total ss.vals 1 = bigcount) : 1 ≤ ss.vals.val 1 := by
  have hle : (Finset.univ.filter fun p => s.pc p = .opened ss.id).card ≤ Fintype.card P := Finset.card_le_univ _
  rw [total, h.sum_adj1] at hbig
  omega

/-- It has, or is to get, the set `id`. -/
def Pc.Wants (pc : Pc) (id : Nat) : Prop := pc = .lock id ∨ pc = .asleep id ∨ pc.uses id

/-- Somebody is there to remove the set. -/
structure Minded (s : State P) (ss : Sems P) : Prop where
  wanted : ∃ p, (s.pc p).Wants ss.id
  unlock : ∀ p, s.pc p = .unlock ss.id → ∃ q, s.pc q = .opened ss.id

omit [Fintype P] [DecidableEq P] hcard in
theorem Pc.wants_of_holds {pc : Pc} (h : pc.holds id = true) : pc.Wants id := .inr (.inr (.inl h))

omit [Fintype P] hcard in
/-- A process goes on to a place where it still is there for the set. -/
theorem Minded.of_wants {pc : Pc} {ss' : Sems P} (h : Minded s ss) (hpc : s'.pc = Function.update s.pc p pc)
    (hid : ss'.id = ss.id) (hw : pc.Wants ss.id) (hun : pc ≠ .unlock ss.id)
    (hstay : s.pc p = .opened ss.id → pc = .opened ss.id) : Minded s' ss' := by
  rw [hid.symm] at hw hun hstay
  refine ⟨⟨p, by rwa [hpc, Function.update_self]⟩, fun q hq => ?_⟩
  rw [hpc] at hq
  by_cases hqp : q = p
  · subst hqp
    rw [Function.update_self] at hq
    exact absurd hq hun
  · rw [Function.update_of_ne hqp] at hq
    obtain ⟨r, hr⟩ := h.unlock q (hid ▸ hq)
    refine ⟨r, ?_⟩
    rw [hpc]
    by_cases hrp : r = p
    · subst hrp
      rw [Function.update_self]
      exact hstay (hid ▸ hr)
    · rw [Function.update_of_ne hrp, hid]
      exact hr

omit [Fintype P] hcard in
/-- A process goes on that was not there for the set. -/
theorem Minded.of_not_wants {pc : Pc} {ss' : Sems P} (h : Minded s ss) (hpc : s'.pc = Function.update s.pc p pc)
    (hid : ss'.id = ss.id) (hold : ¬ (s.pc p).Wants ss.id) (hun : pc ≠ .unlock ss.id) : Minded s' ss' := by
  have hother : ∀ q, (s.pc q).Wants ss.id → s'.pc q = s.pc q := fun q hq => by
    have hne : q ≠ p := fun heq => hold (heq ▸ hq)
    rw [hpc, Function.update_of_ne hne]
  obtain ⟨q, hq⟩ := h.wanted
  refine ⟨⟨q, by rw [hother q hq, hid]; exact hq⟩, fun r hr => ?_⟩
  rw [hid] at hr ⊢
  have hrp : r ≠ p := fun heq => by
    rw [hpc, heq, Function.update_self] at hr
    exact hun hr
  rw [hpc, Function.update_of_ne hrp] at hr
  obtain ⟨t, ht⟩ := h.unlock r hr
  exact ⟨t, by rw [hother t (.inr (.inr (.inr ht)))]; exact ht⟩

omit hcard in
theorem minded_move (h : Reached s) (hm : Move initval s e s') (ho : Orderly s e s')
    (hmind : ∀ ss, s.sems = some ss → Minded s ss) {tt : Sems P} (ht : s'.sems = some tt) : Minded s' tt := by
  cases hm with
  | create p hpc => exact (hmind tt ht).of_not_wants rfl rfl (by simp [hpc, Pc.Wants, Pc.uses, Pc.holds]) (by simp)
  | make p hpc hs =>
      obtain rfl := Option.some.inj ht
      refine ⟨⟨p, .inl (goto_pc_self _ _ _)⟩, fun q hq => ?_⟩
      exfalso
      by_cases hqp : q = p
      · subst hqp
        simp [goto_pc_self] at hq
      · rw [goto_pc_ne _ _ hqp] at hq
        have hu : (s.pc q).uses s.nextId := .inl (by rw [show s.pc q = .unlock s.nextId from hq]; simp [Pc.holds])
        obtain ⟨ss, hss, _⟩ := h.inv.there q _ hu
        simp [hs] at hss
  | found p hpc ss hs =>
      obtain rfl := Option.some.inj (hs.symm.trans ht)
      exact (hmind ss hs).of_wants rfl rfl (.inl rfl) (by simp) (by simp [hpc])
  | retry p id hpc hgone =>
      have hne := State.vals_eq_none hgone ht
      exact (hmind tt ht).of_not_wants rfl rfl (by simp [hpc, Pc.Wants, Pc.uses, Pc.holds, Ne.symm hne]) (by simp)
  | gone p id hpc hgone =>
      obtain ⟨ss, hs, rfl⟩ := exists_sems_of_mapVals ht
      have hne := State.vals_eq_none hgone hs
      exact (hmind ss hs).of_not_wants rfl rfl (by simp [hpc, Pc.Wants, Pc.uses, Pc.holds, Ne.symm hne]) (by simp)
  | sleep p ss hs hpc =>
      obtain rfl := Option.some.inj (hs.symm.trans ht)
      exact (hmind ss hs).of_wants rfl rfl (.inr (.inl rfl)) (by simp) (by simp [hpc])
  | lock p ss hs hpc v hv =>
      obtain rfl := sems_of_mapVals hs ht
      refine (hmind ss hs).of_wants rfl rfl (Pc.wants_of_holds (by simp [Pc.holds])) (by simp) ?_
      rcases hpc with hpc | hpc <;> simp [hpc]
  | getval p ss hs hpc =>
      obtain rfl := Option.some.inj (hs.symm.trans ht)
      refine (hmind ss hs).of_wants rfl rfl (Pc.wants_of_holds ?_) ?_ (by simp [hpc])
      · split <;> simp [Pc.holds]
      · split <;> simp
  | setval0 p ss hs hpc =>
      obtain rfl := sems_of_mapVals hs ht
      exact (hmind ss hs).of_wants rfl rfl (Pc.wants_of_holds (by simp [Pc.holds])) (by simp) (by simp [hpc])
  | setval1 p ss hs hpc =>
      obtain rfl := sems_of_mapVals hs ht
      exact (hmind ss hs).of_wants rfl rfl (Pc.wants_of_holds (by simp [Pc.holds])) (by simp) (by simp [hpc])
  | endcreate p ss hs hpc v hv =>
      obtain rfl := sems_of_mapVals hs ht
      exact (hmind ss hs).of_wants rfl rfl (.inr (.inr (.inr rfl))) (by simp) (by simp [hpc])
  | op p ss hs hpc value h0 v hv =>
      obtain rfl := sems_of_mapVals hs ht
      exact (hmind ss hs).of_wants rfl rfl (.inr (.inr (.inr rfl))) (by simp) fun _ => rfl
  | close p ss hs hpc v hv =>
      obtain rfl := sems_of_mapVals hs ht
      obtain ⟨hzero, _⟩ := val_of_semop_zero hv
      refine ⟨⟨p, Pc.wants_of_holds (by simp [goto_pc_self, Pc.holds])⟩, fun q hq => ?_⟩
      -- nobody is about to unlock what is not locked
      exfalso
      by_cases hqp : q = p
      · subst hqp
        simp [goto_pc_self] at hq
      · rw [goto_pc_ne _ _ hqp] at hq
        have hh : (s.pc q).holds ss.id = true := by rw [show s.pc q = .unlock ss.id from hq]; simp [Pc.holds]
        have hone := (h.inv.set ss hs).val2_of_holds hh
        omega
  | closeGet p ss hs hpc =>
      obtain rfl := Option.some.inj (hs.symm.trans ht)
      split
      · exact (hmind ss hs).of_wants rfl rfl (Pc.wants_of_holds (by simp [Pc.holds])) (by simp) (by simp [hpc])
      · -- somebody still has the semaphore
        rename_i hne
        have hset := h.inv.set ss hs
        have hbig : total ss.vals 1 = bigcount := by simpa [hpc, Pc.Fits] using hset.fits p
        have hsum : ∑ q, ss.vals.adj q 1 ≠ 0 := fun h0 => hne (by rw [total, h0] at hbig; omega)
        obtain ⟨q, -, hq⟩ := Finset.exists_ne_zero_of_sum_ne_zero hsum
        have hopen : s.pc q = .opened ss.id := by
          by_contra ho
          exact hq (by rw [hset.adj1, if_neg ho])
        have hqp : q ≠ p := fun heq => by simp [heq, hpc] at hopen
        have hq' : (s.goto p (.unlock ss.id)).pc q = .opened ss.id := by rwa [goto_pc_ne _ _ hqp]
        exact ⟨⟨q, .inr (.inr (.inr hq'))⟩, fun _ _ => ⟨q, hq'⟩⟩
  | closeRm => simp [State.goto] at ht
  | unlock p ss hs hpc v hv =>
      obtain rfl := sems_of_mapVals hs ht
      have hholds : (s.pc p).holds ss.id = true := by simp [hpc, Pc.holds]
      obtain ⟨q, hq⟩ := (hmind ss hs).unlock p hpc
      have hqp : q ≠ p := fun heq => by simp [heq, hpc] at hq
      have hq' : ((s.mapVals fun _ => v).goto p .out).pc q = .opened ss.id := by rwa [goto_pc_ne _ _ hqp]
      exact ⟨⟨q, .inr (.inr (.inr hq'))⟩, fun _ _ => ⟨q, hq'⟩⟩
  | exit p => exact absurd ho.noExit (by simp [Event.isExit])
  | zero p id hpc | range p ss hs hpc | badInit p id hpc =>
      have hfail := ho.failed p (by simp [err_pc, Pc.hasFailed])
      simp [hpc, Pc.hasFailed, Pc.sleeps] at hfail

/-- **The last one removes the semaphore.** When all processes are done with the library and none has ended in
    between, no set is left. -/
theorem last_removes (h : OrderlyRuns initval (init P) tr s)
    (hdone : ∀ p, s.pc p = .out ∨ ∃ msg, s.pc p = .failed msg) : s.sems = none := by
  have hstep : ∀ s e s', (Reached s ∧ ∀ ss, s.sems = some ss → Minded s ss) →
      (step s initval e = some s' ∧ Orderly s e s') → Reached s' ∧ ∀ ss, s'.sems = some ss → Minded s' ss :=
    fun _ _ _ hr hs =>
      ⟨hr.1.step hcard hs.1 hs.2.noOpen, fun _ ht => minded_move hr.1 (hr.1.move hs.1 hs.2.noOpen) hs.2 hr.2 ht⟩
  have hr := h.invariant hstep ⟨reached_init, fun ss hs => by simp [init] at hs⟩
  cases hs : s.sems with
  | none => rfl
  | some ss =>
      obtain ⟨p, hp⟩ := (hr.2 ss hs).wanted
      rcases hdone p with hd | ⟨msg, hd⟩ <;> simp [hd, Pc.Wants, Pc.uses, Pc.holds] at hp

omit hcard in
theorem last_removes_example : ∃ s : State Bool, s.sems = none := by
  obtain ⟨s, hruns, hout⟩ := removed_example
  exact ⟨s, last_removes (by decide) hruns fun p => .inl (hout p)⟩

end

end Semaph
