import Mathlib.Algebra.BigOperators.Ring.Finset
import ApueToyCodes.Semaph.Protocol

/-!
# `Semaph.Correctness.Moves` — the invariant, and what a step can do where it holds

`Inv` says of the set of the key that the lock and the counter are what the places of the processes make
them: an adjustment of the counter for each process that has the semaphore, one of the lock for the process
that holds it. `step_cases` then lists the steps of processes that use `sem_create` and `sem_close`, but not
`sem_open`; of the errors of the library four are left, two of them of `sem_op`.
-/

namespace Semaph

open CInt SemSet

/-- In `sem_create` or `sem_close`, with the lock of the set `id`. -/
def Pc.holds : Pc → Nat → Bool
  | .getval i, id | .setval0 i, id | .setval1 i, id | .endcreate i, id | .closeGet i, id | .closeRm i, id
  | .unlock i, id => i = id
  | _, _ => false

/-- It relies on the set `id`. -/
def Pc.uses (pc : Pc) (id : Nat) : Prop := pc.holds id = true ∨ pc = .opened id

/-- The counter is set up, or it is not yet. -/
def Pc.Fits (id : Nat) (count : Int) : Pc → Prop
  | .setval0 i | .setval1 i => i = id → count = 0
  | .endcreate i | .opened i | .closeGet i | .closeRm i | .unlock i => i = id → count = bigcount
  | _ => True

section

variable {P : Type} [DecidableEq P] [Fintype P]

/-- The set of the key. -/
structure SetOk (s : State P) (ss : Sems P) : Prop where
  nonneg : ∀ k, 0 ≤ ss.vals.val k
  adj1   : ∀ p, ss.vals.adj p 1 = if s.pc p = .opened ss.id then 1 else 0
  adj2   : ∀ p, ss.vals.adj p 2 = if (s.pc p).holds ss.id then -1 else 0
  lock   : total ss.vals 2 = 0
  one    : ss.vals.val 2 ≤ 1
  count  : total ss.vals 1 = 0 ∨ total ss.vals 1 = bigcount
  fits   : ∀ p, (s.pc p).Fits ss.id (total ss.vals 1)
  last   : ∀ p, s.pc p = .closeRm ss.id → ∀ q, s.pc q ≠ .opened ss.id

structure Inv (s : State P) : Prop where
  set   : ∀ ss, s.sems = some ss → SetOk s ss
  there : ∀ p id, (s.pc p).uses id → ∃ ss, s.sems = some ss ∧ ss.id = id

variable {s s' : State P} {ss : Sems P} {p q : P} {id : Nat}

theorem inv_init (P : Type) [DecidableEq P] [Fintype P] : Inv (init P) where
  set ss h := by simp [init] at h
  there p id h := by simp [init, Pc.uses, Pc.holds] at h

/-! ## What the invariant says -/

/-- The lock is held by one process at most. -/
theorem SetOk.holder_unique (h : SetOk s ss) (hp : (s.pc p).holds ss.id = true) (hq : (s.pc q).holds ss.id = true) :
    p = q := by
  by_contra hne
  have hle : ∀ r, ss.vals.adj r 2 ≤ 0 := fun r => by
    rw [h.adj2]
    split <;> omega
  have hrest : ∑ r ∈ (Finset.univ.erase p).erase q, ss.vals.adj r 2 ≤ 0 := Finset.sum_nonpos fun r _ => hle r
  have hqmem : q ∈ Finset.univ.erase p := Finset.mem_erase.mpr ⟨Ne.symm hne, Finset.mem_univ q⟩
  have hsum : ∑ r, ss.vals.adj r 2 ≤ -2 := by
    rw [← Finset.add_sum_erase _ _ (Finset.mem_univ p), ← Finset.add_sum_erase _ _ hqmem, h.adj2 p, h.adj2 q,
      if_pos hp, if_pos hq]
    omega
  have hone := h.one
  have htot := h.lock
  unfold total at htot
  omega

/-- While the lock is held its value is one. -/
theorem SetOk.val2_of_holds (h : SetOk s ss) (hp : (s.pc p).holds ss.id = true) : ss.vals.val 2 = 1 := by
  have hle : ∀ r ∈ Finset.univ.erase p, ss.vals.adj r 2 ≤ 0 := fun r _ => by
    rw [h.adj2]
    split <;> omega
  have hsum : ∑ r, ss.vals.adj r 2 ≤ -1 := by
    have hrest := Finset.sum_nonpos hle
    rw [← Finset.add_sum_erase _ _ (Finset.mem_univ p), h.adj2 p, if_pos hp]
    omega
  have hone := h.one
  have htot := h.lock
  unfold total at htot
  omega

omit [DecidableEq P] in
/-- How many processes have the semaphore. -/
theorem SetOk.sum_adj1 (h : SetOk s ss) :
    ∑ p, ss.vals.adj p 1 = (Finset.univ.filter fun p => s.pc p = .opened ss.id).card := by
  rw [Finset.sum_congr rfl fun p _ => h.adj1 p, Finset.sum_boole]

omit [DecidableEq P] in
/-- Nobody has the semaphore before the counter is set up. -/
theorem SetOk.not_opened (h : SetOk s ss) (h0 : total ss.vals 1 = 0) (q : P) : s.pc q ≠ .opened ss.id := by
  intro hq
  have := h.fits q
  rw [hq] at this
  exact absurd (h0.symm.trans (this rfl)) (by decide)

omit [DecidableEq P] in
/-- The last one. -/
theorem SetOk.none_opened (h : SetOk s ss) (hbig : total ss.vals 1 = bigcount) (hval : ss.vals.val 1 = bigcount)
    (q : P) : s.pc q ≠ .opened ss.id := by
  intro hq
  have hnn : ∀ p ∈ Finset.univ, 0 ≤ ss.vals.adj p 1 := fun p _ => by
    rw [h.adj1]
    split <;> omega
  have hle := Finset.single_le_sum hnn (Finset.mem_univ q)
  rw [h.adj1 q, if_pos hq] at hle
  unfold total at hbig
  omega

omit [DecidableEq P] [Fintype P] in
theorem State.vals_eq_none (h : s.vals id = none) (hs : s.sems = some ss) : ss.id ≠ id := by
  simpa [State.vals, hs] using h

/-! ## The steps -/

/-- A step where the invariant holds, of a process that does not call `sem_open`. -/
inductive Move (initval : Int) (s : State P) : Event P → State P → Prop
  | create (p : P) (hpc : s.pc p = .out) : Move initval s (.call p .create) (s.goto p .again)
  | make (p : P) (hpc : s.pc p = .again) (hs : s.sems = none) :
      Move initval s (.run p)
        ({ s with sems := some ⟨s.nextId, zero⟩, nextId := s.nextId + 1 }.goto p (.lock s.nextId))
  | found (p : P) (hpc : s.pc p = .again) (ss : Sems P) (hs : s.sems = some ss) :
      Move initval s (.run p) (s.goto p (.lock ss.id))
  | retry (p : P) (id : Nat) (hpc : s.pc p = .lock id) (hgone : s.vals id = none) :
      Move initval s (.run p) (s.goto p .again)
  | sleep (p : P) (ss : Sems P) (hs : s.sems = some ss) (hpc : s.pc p = .lock ss.id)
      (hwait : semop p opLock ss.vals = none) : Move initval s (.run p) (s.goto p (.asleep ss.id))
  | lock (p : P) (ss : Sems P) (hs : s.sems = some ss) (hpc : s.pc p = .lock ss.id ∨ s.pc p = .asleep ss.id)
      (v : Vals P (Fin 3)) (hv : semop p opLock ss.vals = some v) :
      Move initval s (.run p) ((s.mapVals fun _ => v).goto p (.getval ss.id))
  | getval (p : P) (ss : Sems P) (hs : s.sems = some ss) (hpc : s.pc p = .getval ss.id) :
      Move initval s (.run p) (s.goto p (if ss.vals.val 1 = 0 then .setval0 ss.id else .endcreate ss.id))
  | setval0 (p : P) (ss : Sems P) (hs : s.sems = some ss) (hpc : s.pc p = .setval0 ss.id)
      (hlo : 0 ≤ initval) (hhi : initval ≤ semvmx) :
      Move initval s (.run p) ((s.mapVals (setval 0 initval)).goto p (.setval1 ss.id))
  | setval1 (p : P) (ss : Sems P) (hs : s.sems = some ss) (hpc : s.pc p = .setval1 ss.id) :
      Move initval s (.run p) ((s.mapVals (setval 1 bigcount)).goto p (.endcreate ss.id))
  | endcreate (p : P) (ss : Sems P) (hs : s.sems = some ss) (hpc : s.pc p = .endcreate ss.id)
      (v : Vals P (Fin 3)) (hv : semop p opEndcreate ss.vals = some v) :
      Move initval s (.run p) ((s.mapVals fun _ => v).goto p (.opened ss.id))
  | op (p : P) (ss : Sems P) (hs : s.sems = some ss) (hpc : s.pc p = .opened ss.id) (value : Int)
      (h0 : toInt16 value ≠ 0) (v : Vals P (Fin 3)) (hv : semop p (opOp value) ss.vals = some v) :
      Move initval s (.call p (.op value)) ((s.mapVals fun _ => v).goto p (.opened ss.id))
  | close (p : P) (ss : Sems P) (hs : s.sems = some ss) (hpc : s.pc p = .opened ss.id)
      (v : Vals P (Fin 3)) (hv : semop p opClose ss.vals = some v) :
      Move initval s (.call p .close) ((s.mapVals fun _ => v).goto p (.closeGet ss.id))
  | closeGet (p : P) (ss : Sems P) (hs : s.sems = some ss) (hpc : s.pc p = .closeGet ss.id) :
      Move initval s (.run p) (s.goto p (if ss.vals.val 1 = bigcount then .closeRm ss.id else .unlock ss.id))
  | closeRm (p : P) (ss : Sems P) (hs : s.sems = some ss) (hpc : s.pc p = .closeRm ss.id) :
      Move initval s (.run p) ({ s with sems := none }.goto p .out)
  | unlock (p : P) (ss : Sems P) (hs : s.sems = some ss) (hpc : s.pc p = .unlock ss.id)
      (v : Vals P (Fin 3)) (hv : semop p opUnlock ss.vals = some v) :
      Move initval s (.run p) ((s.mapVals fun _ => v).goto p .out)
  | exit (p : P) (hpc : ∀ msg, s.pc p ≠ .failed msg) : Move initval s (.exit p) (s.leave p .out)
  /-- an amount that is 0 as a `short` -/
  | zero (p : P) (id : Nat) (hpc : s.pc p = .opened id) (value : Int) (h0 : toInt16 value = 0) :
      Move initval s (.call p (.op value)) (s.err p "can't have value == 0")
  /-- an amount that is too large -/
  | range (p : P) (ss : Sems P) (hs : s.sems = some ss) (hpc : s.pc p = .opened ss.id) (value : Int)
      (h0 : toInt16 value ≠ 0) (hr : outOfRange p (opOp value) ss.vals = true) :
      Move initval s (.call p (.op value)) (s.err p "sem_op error")
  /-- an initial value that is no value of a semaphore -/
  | badInit (p : P) (id : Nat) (hpc : s.pc p = .setval0 id) (hbad : initval < 0 ∨ semvmx < initval) :
      Move initval s (.run p) (s.err p "can SETVAL[0]")
  /-- the set was removed while the process waited for the lock -/
  | gone (p : P) (id : Nat) (hpc : s.pc p = .asleep id) (hgone : s.vals id = none) :
      Move initval s (.run p) (s.err p "can't lock")

omit [Fintype P] in
/-- A `semop` on a set that is there. -/
theorem semopThen_cases {bs : List (Sembuf (Fin 3))} {msg : String} {gone : State P} {wait : Option (State P)}
    {pc : Pc} (hs : s.vals id = some ss.vals) (h : semopThen s p id bs msg gone wait pc = some s') :
    (outOfRange p bs ss.vals = true ∧ s' = s.err p msg) ∨ (semop p bs ss.vals = none ∧ wait = some s') ∨
      ∃ v, semop p bs ss.vals = some v ∧ s' = (s.mapVals fun _ => v).goto p pc := by
  simp only [semopThen, hs] at h
  by_cases hr : outOfRange p bs ss.vals = true
  · rw [if_pos hr] at h
    exact .inl ⟨hr, (Option.some.inj h).symm⟩
  · rw [if_neg hr] at h
    cases hv : semop p bs ss.vals with
    | none => exact .inr (.inl ⟨rfl, by simpa [hv] using h⟩)
    | some v =>
        refine .inr (.inr ⟨v, rfl, ?_⟩)
        simpa [hv, eq_comm] using h

omit [DecidableEq P] [Fintype P] in
theorem State.exists_of_vals {v : Vals P (Fin 3)} (h : s.vals id = some v) :
    ∃ ss, s.sems = some ss ∧ ss.id = id ∧ ss.vals = v := by
  unfold State.vals at h
  split at h
  · split at h
    · exact ⟨_, ‹_›, ‹_›, Option.some.inj h⟩
    · cases h
  · cases h

omit [DecidableEq P] in
theorem State.vals_of_uses (h : Inv s) (hp : (s.pc p).uses id) :
    ∃ ss, s.sems = some ss ∧ ss.id = id ∧ s.vals id = some ss.vals := by
  obtain ⟨ss, hs, rfl⟩ := h.there p id hp
  exact ⟨ss, hs, rfl, by simp [State.vals, hs]⟩

omit [DecidableEq P] in
/-- The counter never exceeds its start. -/
theorem SetOk.val1_le (h : SetOk s ss) : ss.vals.val 1 ≤ bigcount := by
  have hnn : 0 ≤ ∑ p, ss.vals.adj p 1 := Finset.sum_nonneg fun p _ => by
    rw [h.adj1]
    split <;> omega
  have hpos : 0 ≤ bigcount := by decide
  rcases h.count with h0 | hbig
  · unfold total at h0
    omega
  · unfold total at hbig
    omega

/-- The counter and the lock stay far from the limits. -/
theorem SetOk.inRange (h : SetOk s ss) {bs : List (Sembuf (Fin 3))} (hlen : bs.length ≤ 3)
    (hbs : ∀ b ∈ bs, b.num ≠ 0 ∧ -1 ≤ b.op ∧ b.op ≤ 1) : outOfRange p bs ss.vals = false := by
  have hcases : ∀ k : Fin 3, k ≠ 0 → k = 1 ∨ k = 2 := by decide
  have hval : ∀ k : Fin 3, k ≠ 0 → ss.vals.val k ≤ bigcount := fun k hk => by
    rcases hcases k hk with rfl | rfl
    · exact h.val1_le
    · exact Int.le_trans h.one (by decide)
  have hadj : ∀ k : Fin 3, k ≠ 0 → -1 ≤ ss.vals.adj p k ∧ ss.vals.adj p k ≤ 1 := fun k hk => by
    rcases hcases k hk with rfl | rfl
    · rw [h.adj1]
      split <;> decide
    · rw [h.adj2]
      split <;> decide
  refine outOfRange_of_small (fun b hb => (hbs b hb).2) (fun b hb => ?_) fun b hb => ?_
  · have hle := hval b.num (hbs b hb).1
    simp only [bigcount, semvmx] at hle ⊢
    omega
  · have hle := hadj b.num (hbs b hb).1
    simp only [semvmx]
    omega

/-- The operations, on the counter and the lock, of a process that relies on the set. -/
theorem semopThen_uses (h : Inv s) (hp : (s.pc p).uses id) {bs : List (Sembuf (Fin 3))} {msg : String}
    {gone : State P} {pc : Pc} (hlen : bs.length ≤ 3) (hbs : ∀ b ∈ bs, b.num ≠ 0 ∧ -1 ≤ b.op ∧ b.op ≤ 1)
    (hs : semopThen s p id bs msg gone none pc = some s') :
    ∃ ss v, s.sems = some ss ∧ ss.id = id ∧ semop p bs ss.vals = some v ∧
      s' = (s.mapVals fun _ => v).goto p pc := by
  obtain ⟨ss, hss, hid, hv⟩ := State.vals_of_uses h hp
  rcases semopThen_cases hv hs with ⟨hr, _⟩ | ⟨_, hw⟩ | ⟨v, hv', rfl⟩
  · rw [(h.set ss hss).inRange hlen hbs] at hr
    cases hr
  · cases hw
  · exact ⟨ss, v, hss, hid, hv', rfl⟩

theorem semctlThen_uses (h : Inv s) (hp : (s.pc p).uses id) {msg : String} {k : Vals P (Fin 3) → State P}
    (hs : semctlThen s p id msg k = some s') : ∃ ss, s.sems = some ss ∧ ss.id = id ∧ s' = k ss.vals := by
  obtain ⟨ss, hss, hid, hv⟩ := State.vals_of_uses h hp
  simp only [semctlThen, hv, Option.some.injEq] at hs
  exact ⟨ss, hss, hid, hs.symm⟩

theorem callStep_cases {initval : Int} (h : Inv s) {c : Call} (hc : c ≠ .openSem) (hs : callStep s p c = some s') :
    Move initval s (.call p c) s' := by
  cases c with
  | openSem => exact absurd rfl hc
  | create =>
      simp only [callStep] at hs
      split at hs
      · obtain rfl := Option.some.inj hs
        exact .create p ‹_›
      · cases hs
  | op value =>
      simp only [callStep] at hs
      split at hs
      · rename_i id hpc
        split at hs
        · obtain rfl := Option.some.inj hs
          exact .zero p id hpc value ‹_›
        · obtain ⟨ss, hss, rfl, hv⟩ := State.vals_of_uses h (.inr hpc)
          rcases semopThen_cases hv hs with ⟨hr, rfl⟩ | ⟨_, hw⟩ | ⟨v, hv', rfl⟩
          · exact .range p ss hss hpc value ‹_› hr
          · cases hw
          · exact .op p ss hss hpc value ‹_› v hv'
      · cases hs
  | close =>
      simp only [callStep] at hs
      split at hs
      · rename_i id hpc
        obtain ⟨ss, v, hss, rfl, hv, rfl⟩ := semopThen_uses h (.inr hpc) (by decide) (by decide) hs
        exact .close p ss hss hpc v hv
      · cases hs

/-- The lock, for a process that may have slept. -/
theorem lock_cases {initval : Int} {gone : State P} {wait : Option (State P)} (h : Inv s)
    (hpc : s.pc p = .lock id ∨ s.pc p = .asleep id)
    (hs : semopThen s p id opLock "can't lock" gone wait (.getval id) = some s')
    (hgone : s.vals id = none → Move initval s (.run p) gone)
    (hwait : ∀ ss, s.sems = some ss → ss.id = id → semop p opLock ss.vals = none → wait = some s' →
      Move initval s (.run p) s') : Move initval s (.run p) s' := by
  cases hv : s.vals id with
  | none =>
      simp only [semopThen, hv, Option.some.injEq] at hs
      exact hs ▸ hgone hv
  | some vals =>
      obtain ⟨ss, hss, rfl, rfl⟩ := State.exists_of_vals hv
      rcases semopThen_cases hv hs with ⟨hr, _⟩ | ⟨hn, hw⟩ | ⟨v, hv', rfl⟩
      · rw [(h.set ss hss).inRange (by decide) (by decide)] at hr
        cases hr
      · exact hwait ss hss rfl hn hw
      · exact .lock p ss hss hpc v hv'

theorem runStep_cases {initval : Int} (h : Inv s) (hno : ∀ id, s.pc p ≠ .opening id)
    (hs : runStep s p initval = some s') : Move initval s (.run p) s' := by
  cases hpc : s.pc p <;> simp only [runStep, hpc] at hs
  case again =>
    split at hs <;> obtain rfl := Option.some.inj hs
    · exact .found p hpc _ ‹_›
    · exact .make p hpc ‹_›
  case lock id =>
    refine lock_cases h (.inl hpc) hs (fun hg => .retry p id hpc hg) fun ss hss hid hn hw => ?_
    subst hid
    exact Option.some.inj hw ▸ .sleep p ss hss hpc hn
  case asleep id =>
    exact lock_cases h (.inr hpc) hs (fun hg => .gone p id hpc hg) fun _ _ _ _ hw => nomatch hw
  case getval id =>
    obtain ⟨ss, hss, rfl, rfl⟩ := semctlThen_uses h (.inl (by simp [hpc, Pc.holds])) hs
    exact .getval p ss hss hpc
  case setval0 id =>
    obtain ⟨ss, hss, rfl, rfl⟩ := semctlThen_uses h (.inl (by simp [hpc, Pc.holds])) hs
    split
    · exact .badInit p ss.id hpc ‹_›
    · exact .setval0 p ss hss hpc (by omega) (by omega)
  case setval1 id =>
    obtain ⟨ss, hss, rfl, rfl⟩ := semctlThen_uses h (.inl (by simp [hpc, Pc.holds])) hs
    exact .setval1 p ss hss hpc
  case endcreate id =>
    obtain ⟨ss, v, hss, rfl, hv, rfl⟩ := semopThen_uses h (.inl (by simp [hpc, Pc.holds])) (by decide) (by decide) hs
    exact .endcreate p ss hss hpc v hv
  case closeGet id =>
    obtain ⟨ss, hss, rfl, rfl⟩ := semctlThen_uses h (.inl (by simp [hpc, Pc.holds])) hs
    rw [if_neg (Int.not_lt.mpr (h.set ss hss).val1_le)]
    exact .closeGet p ss hss hpc
  case closeRm id =>
    obtain ⟨ss, hss, rfl, rfl⟩ := semctlThen_uses h (.inl (by simp [hpc, Pc.holds])) hs
    exact .closeRm p ss hss hpc
  case unlock id =>
    obtain ⟨ss, v, hss, rfl, hv, rfl⟩ := semopThen_uses h (.inl (by simp [hpc, Pc.holds])) (by decide) (by decide) hs
    exact .unlock p ss hss hpc v hv
  case opening id => exact absurd hpc (hno id)
  all_goals cases hs

/-- No call of `sem_open`. -/
def Event.NoOpen : Event P → Prop
  | .call _ c => c ≠ .openSem
  | _         => True

instance : (e : Event P) → Decidable e.NoOpen
  | .call _ c => inferInstanceAs (Decidable (c ≠ .openSem))
  | .run _    => .isTrue trivial
  | .exit _   => .isTrue trivial

/-- **Every step** is one of these. -/
theorem step_cases {initval : Int} {e : Event P} (h : Inv s) (hno : ∀ p id, s.pc p ≠ .opening id) (he : e.NoOpen)
    (hs : step s initval e = some s') : Move initval s e s' := by
  cases e with
  | call p c => exact callStep_cases h he hs
  | run p => exact runStep_cases h (hno p) hs
  | exit p =>
      simp only [step] at hs
      split at hs
      · cases hs
      · obtain rfl := Option.some.inj hs
        exact .exit p fun msg => ‹∀ msg, s.pc p = .failed msg → False› msg

end

end Semaph
