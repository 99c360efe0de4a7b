import ApueToyCodes.FooHash.Correctness.Safety

/-!
# `FooHash.Correctness.Results` — what the users of the table get

In every run of any number of threads: no step is a fault, and an object with references exists and counts
them (`reached_safe`); `foo_find` returns an object of the id with a reference, or `NULL` when there is none to
find (`find_returns`); with the last reference everything is freed (`reached_freed`); and the two kinds of
locks never make all threads wait (`reached_live`).
-/

namespace FooHash
open Links

theorem next_ne_blocked {σ : Type} (s' : σ) : Outcome.next s' ≠ .blocked := fun h => by cases h

theorem fault_ne_blocked {σ : Type} : (Outcome.fault : Outcome σ) ≠ .blocked := fun h => by cases h

variable {T : Type} [DecidableEq T] {s : State T} {loose : List Cell} {lists : Fin nhash → List Cell} {t : T}
  {fp : Nat} {id : Int}

/-! ## Waiting -/

/-- A thread that waits holds no object, and somebody has what it waits for. -/
def Waits (s : State T) (t : T) : Prop :=
  (s.pc t).obj = none ∧ ((s.pc t).hash = false ∧ s.hashlock ≠ none ∨
    ∃ fp foo t', s.heap fp = some foo ∧ foo.lock = some t')

theorem lockHash_blocked {pc' : Pc} (h : lockHash t s pc' = .blocked) : s.hashlock ≠ none := by
  unfold lockHash at h
  split at h
  · cases h
  · assumption

theorem lockObj_blocked {pc' : Pc} (h : lockObj t s fp pc' = .blocked) :
    ∃ fp foo t', s.heap fp = some foo ∧ foo.lock = some t' := by
  unfold lockObj at h
  split at h
  · cases h
  · rename_i foo hfoo
    split at h
    · cases h
    · rename_i hlk
      obtain ⟨t', ht'⟩ := Option.ne_none_iff_exists'.mp hlk
      exact ⟨fp, foo, t', hfoo, ht'⟩

theorem unlockHash_ne_blocked {pc' : Pc} : unlockHash t s pc' ≠ .blocked := by
  unfold unlockHash
  split <;> first | exact next_ne_blocked _ | exact fault_ne_blocked

theorem unlockObj_ne_blocked {pc' : Pc} : unlockObj t s fp pc' ≠ .blocked := by
  unfold unlockObj
  split
  · exact fault_ne_blocked
  · split <;> first | exact next_ne_blocked _ | exact fault_ne_blocked

theorem counted_ne_blocked {k : Foo T → Outcome (State T)} (hk : ∀ foo, k foo ≠ .blocked) :
    counted t s fp k ≠ .blocked := by
  unfold counted
  split
  · exact fault_ne_blocked
  · split
    · exact hk _
    · exact fault_ne_blocked

theorem linked_ne_blocked {k : Foo T → Outcome (State T)} (hk : ∀ foo, k foo ≠ .blocked) :
    linked t s fp k ≠ .blocked := by
  unfold linked
  split
  · exact fault_ne_blocked
  · split
    · exact hk _
    · exact fault_ne_blocked

theorem increment_ne_blocked {foo : Foo T} {pc' : Pc} : increment t s fp foo pc' ≠ .blocked := by
  unfold increment
  split <;> first | exact next_ne_blocked _ | exact fault_ne_blocked

/-- A thread stands still between two calls, or when it waits. -/
theorem step_blocked (h : step t s = .blocked) : s.pc t = .idle ∨ Waits s t := by
  unfold step at h
  unfold Waits
  cases hpc : s.pc t with
  | idle => exact Or.inl rfl
  | allocHash | releHash =>
      rw [hpc] at h
      exact Or.inr ⟨rfl, Or.inl ⟨rfl, lockHash_blocked h⟩⟩
  | findHash =>
      rw [hpc] at h
      dsimp only at h
      split at h
      · cases h
      · rename_i hlk
        exact Or.inr ⟨rfl, Or.inl ⟨rfl, hlk⟩⟩
  | allocObj | holdObj | findObj | releObj | releObjAgain =>
      rw [hpc] at h
      exact Or.inr ⟨rfl, Or.inr (lockObj_blocked h)⟩
  | allocUnhash | findUnhash | releKept | releRemoved =>
      rw [hpc] at h
      exact absurd h unlockHash_ne_blocked
  | allocUnobj | holdUnobj | findUnobj | releUnobj | releRetry | releKeep | releUnlock =>
      rw [hpc] at h
      exact absurd h unlockObj_ne_blocked
  | holdCount | findCount =>
      rw [hpc] at h
      exact absurd h (counted_ne_blocked fun _ => increment_ne_blocked)
  | allocInsert =>
      rw [hpc] at h
      exact absurd h (linked_ne_blocked fun _ => next_ne_blocked _)
  | findWalk =>
      rw [hpc] at h
      dsimp only at h
      split at h
      · cases h
      · exact absurd h (linked_ne_blocked fun _ => next_ne_blocked _)
  | releCheck =>
      rw [hpc] at h
      refine absurd h (counted_ne_blocked fun foo => ?_)
      split <;> exact next_ne_blocked _
  | releRecheck =>
      rw [hpc] at h
      refine absurd h (counted_ne_blocked fun foo => ?_)
      split
      · exact next_ne_blocked _
      · refine linked_ne_blocked fun foo => ?_
        split <;> exact next_ne_blocked _
  | releWalk =>
      rw [hpc] at h
      refine absurd h (linked_ne_blocked fun foo => linked_ne_blocked fun tfoo => ?_)
      split <;> exact next_ne_blocked _
  | releFree =>
      rw [hpc] at h
      dsimp only at h
      split at h
      · cases h
      · split at h <;> cases h

theorem Inv.step_next (h : Inv s loose lists) (hc : Countable s) (hidle : s.pc t ≠ .idle) (hw : ¬ Waits s t) :
    ∃ s', step t s = .next s' := by
  have hfine : Fine (step t s) := step_fine h hc
  cases hs : step t s with
  | next s' => exact ⟨s', rfl⟩
  | blocked => exact absurd (step_blocked hs) (not_or.mpr ⟨hidle, hw⟩)
  | fault =>
      rw [hs] at hfine
      exact hfine.elim

/-- Who holds an object goes on. -/
theorem Inv.holder_next (h : Inv s loose lists) (hc : Countable s) {foo : Foo T} (hfoo : s.heap fp = some foo)
    (hlk : foo.lock = some t) : s.pc t ≠ .idle ∧ ∃ s', step t s = .next s' := by
  have hobj := (h.control.lock fp foo t hfoo).mp hlk
  have hidle : s.pc t ≠ .idle := fun hpc => by
    rw [hpc] at hobj
    exact absurd hobj.symm (Option.some_ne_none fp)
  exact ⟨hidle, h.step_next hc hidle fun hw => absurd (hw.1.symm.trans hobj).symm (Option.some_ne_none fp)⟩

/-! ## A run -/

/-- `n` steps of a thread. -/
def steps [Fintype T] (t : T) : Nat → State T → Option (State T)
  | 0, s => some s
  | n + 1, s =>
    match step t s with
    | .next s' => if Countable s' then steps t n s' else none
    | _ => none

theorem Reached.cons {a : Act T} {s' : State T} (h : Reached s) (hs : Step s a s') (hc : Countable s') :
    Reached s' := by
  obtain ⟨acts, hrun⟩ := h
  exact ⟨acts ++ [a], hrun.append (.cons ⟨hs, hc⟩ .refl)⟩

theorem Reached.steps [Fintype T] {n : Nat} {s s' : State T} (h : Reached s)
    (hs : FooHash.steps t n s = some s') : Reached s' := by
  induction n generalizing s with
  | zero => exact Option.some.inj hs ▸ h
  | succ n ih =>
      rw [FooHash.steps] at hs
      split at hs
      · rename_i s₁ hstep
        split at hs
        · exact ih (h.cons (.go hstep) ‹_›) hs
        · exact absurd hs.symm (Option.some_ne_none s')
      · exact absurd hs.symm (Option.some_ne_none s')

/-- The object 8 of one of two threads, just allocated. -/
def newObj : State Bool :=
  { (init Bool).setFoo 8 { count := 1, lock := none, id := 5, next := 0 } with
    refs := [(false, 8)] }.goto false (.allocHash 8)

theorem reached_newObj : Reached newObj := 
  ⟨[.alloc false 5 8], .cons ⟨.alloc 5 0 rfl (by decide) rfl, by decide⟩ .refl⟩

/-! ## The results -/

/-- **Safety**: no step of any thread is a fault, and an object somebody has a reference to is there and counts
    its references. -/
theorem reached_safe (h : Reached s) : (∀ t, step t s ≠ .fault) ∧
    ∀ t fp, (t, fp) ∈ s.refs → ∃ foo, s.heap fp = some foo ∧ foo.count = s.refCount fp := by
  obtain ⟨loose, lists, hinv⟩ := h.inv
  refine ⟨fun t hs => ?_, fun t fp hmem => ?_⟩
  · have hfine : Fine (step t s) := step_fine hinv h.countable
    rw [hs] at hfine
    exact hfine
  · obtain ⟨foo, hfoo⟩ := hinv.memory.alive t fp hmem
    exact ⟨foo, hfoo, hinv.memory.count fp foo hfoo⟩

theorem reached_safe_example : (∀ t, step t newObj ≠ .fault) ∧
    ∀ t fp, (t, fp) ∈ newObj.refs → ∃ foo, newObj.heap fp = some foo ∧ foo.count = newObj.refCount fp :=
  reached_safe reached_newObj

/-- **No deadlock**: while some thread is in a call, some thread in a call can go on. -/
theorem reached_live (h : Reached s) (hcall : s.pc t ≠ .idle) :
    ∃ t' s', s.pc t' ≠ .idle ∧ step t' s = .next s' := by
  obtain ⟨loose, lists, hinv⟩ := h.inv
  have hgo : ∀ t', s.pc t' ≠ .idle → (s.pc t').hash = true ∨ ¬ Waits s t' →
      ∃ t' s', s.pc t' ≠ .idle ∧ step t' s = .next s' := by
    intro t' hidle hor
    by_cases hw : Waits s t'
    · rcases hw.2 with ⟨hhash, -⟩ | ⟨fp, foo, t₂, hfoo, hlk⟩
      · rcases hor with hh | hn
        · exact absurd (hhash.symm.trans hh) Bool.false_ne_true
        · exact absurd hw hn
      · obtain ⟨hidle₂, s', hs'⟩ := hinv.holder_next h.countable hfoo hlk
        exact ⟨t₂, s', hidle₂, hs'⟩
    · obtain ⟨s', hs'⟩ := hinv.step_next h.countable hidle hw
      exact ⟨t', s', hidle, hs'⟩
  by_cases hw : Waits s t
  · rcases hw.2 with ⟨-, hlk⟩ | ⟨fp, foo, t₂, hfoo, hlk⟩
    · -- the thread that has `hashlock`
      obtain ⟨t', ht'⟩ := Option.ne_none_iff_exists'.mp hlk
      have hhash := (hinv.control.hash t').mp ht'
      refine hgo t' (fun hpc => ?_) (Or.inl hhash)
      rw [hpc] at hhash
      exact absurd hhash Bool.false_ne_true
    · obtain ⟨hidle₂, s', hs'⟩ := hinv.holder_next h.countable hfoo hlk
      exact ⟨t₂, s', hidle₂, hs'⟩
  · exact hgo t hcall (Or.inr hw)

theorem reached_live_example : ∃ t' s', newObj.pc t' ≠ .idle ∧ step t' newObj = .next s' :=
  reached_live (t := false) reached_newObj (by decide)

/-- **`foo_find`** returns an object of the id, with a reference to it; or `NULL`, when the only objects of the
    id are those a thread has not put in the table yet, or has taken out. -/
theorem find_returns (h : Reached s) (hpc : s.pc t = .findUnhash id fp) :
    (fp ≠ 0 → (t, fp) ∈ s.refs ∧ ∃ foo, s.heap fp = some foo ∧ foo.id = id) ∧
    (fp = 0 → ∀ q foo, s.heap q = some foo → foo.id = id → ∃ t', (s.pc t').loose = some q) := by
  obtain ⟨loose, lists, hinv⟩ := h.inv
  have hplace : Place s lists (s.pc t) := hinv.control.place t
  rw [hpc] at hplace
  constructor
  · intro hne
    rcases hplace with ⟨h0, -⟩ | ⟨-, hmem, hid⟩
    · exact absurd h0 hne
    · obtain ⟨foo, hfoo⟩ := hinv.obj_of_mem hmem
      refine ⟨hinv.control.ref t fp ?_, foo, hfoo, Option.some.inj ((idAt_eq hfoo).symm.trans hid)⟩
      rw [hpc, Pc.ref, if_neg hne]
  · rintro h0 q foo hfoo rfl
    rcases hplace with ⟨-, hno⟩ | ⟨hne, -⟩
    · rcases (hinv.memory.family.covers (.inr q)).mp (isObj_inr.mpr ⟨foo, hfoo⟩) with hmem | ⟨i, hi⟩
      · exact (hinv.control.loose q).mp hmem
      · rw [← hinv.memory.home i _ _ hi (idAt_eq hfoo)] at hi
        exact absurd (idAt_eq hfoo) (hno _ hi)
    · exact absurd h0 hne

theorem find_returns_example : ∃ s : State Bool, s.pc true = .findUnhash 5 8 ∧
    (8 ≠ 0 → (true, 8) ∈ s.refs ∧ ∃ foo, s.heap 8 = some foo ∧ foo.id = 5) ∧
    (8 = 0 → ∀ q foo, s.heap q = some foo → foo.id = 5 → ∃ t', (s.pc t').loose = some q) := by
  obtain ⟨s₁, s₂, hs₁, hidle, hc, hs₂, hpc⟩ : ∃ s₁ s₂, steps false 5 newObj = some s₁ ∧ s₁.pc true = .idle ∧
      Countable (s₁.goto true (.findHash 5)) ∧
      steps true 5 (s₁.goto true (.findHash 5)) = some s₂ ∧ s₂.pc true = .findUnhash 5 8 :=
    ⟨_, _, rfl, rfl, by decide, rfl, rfl⟩
  have h₂ := ((reached_newObj.steps hs₁).cons (.find 5 hidle) hc).steps hs₂
  exact ⟨s₂, hpc, find_returns h₂ hpc⟩

/-- **No leak**: when no references are left, there are no objects and the table is empty. -/
theorem reached_freed (h : Reached s) (hrefs : s.refs = []) :
    (∀ fp, s.heap fp = none) ∧ ∀ i, s.fh i = 0 := by
  obtain ⟨loose, lists, hinv⟩ := h.inv
  have hheap : ∀ fp, s.heap fp = none := by
    intro fp
    cases hfoo : s.heap fp with
    | none => rfl
    | some foo =>
        obtain ⟨t, ht⟩ := refCount_pos.mp (hinv.memory.owned fp foo hfoo)
        rw [hrefs] at ht
        exact absurd ht List.not_mem_nil
  refine ⟨hheap, fun i => ?_⟩
  have hlink := hinv.memory.family.linked i
  cases hl : lists i with
  | nil =>
      rw [hl] at hlink
      exact Sum.inr.inj hlink
  | cons c l =>
      have hmem : c ∈ lists i := by rw [hl]; exact List.mem_cons_self
      obtain ⟨fp, foo, -, hfoo⟩ := hinv.memory.family.record_of_mem hmem
      exact absurd ((hheap fp).symm.trans hfoo).symm (Option.some_ne_none foo)

theorem reached_freed_example : ∃ s : State Bool, Reached s ∧ (∀ fp, s.heap fp = none) ∧ ∀ i, s.fh i = 0 := by
  obtain ⟨s₁, s₂, hs₁, hidle, hmem, hc, hs₂, hrefs⟩ : ∃ s₁ s₂, steps false 5 newObj = some s₁ ∧
      s₁.pc false = .idle ∧ (false, 8) ∈ s₁.refs ∧ Countable (s₁.goto false (.releObj 8)) ∧
      steps false 9 (s₁.goto false (.releObj 8)) = some s₂ ∧ s₂.refs = [] :=
    ⟨_, _, rfl, rfl, List.mem_cons_self, by decide, rfl, rfl⟩
  have h₂ := ((reached_newObj.steps hs₁).cons (.rele hidle hmem) hc).steps hs₂
  exact ⟨s₂, h₂, reached_freed h₂ hrefs⟩

end FooHash
