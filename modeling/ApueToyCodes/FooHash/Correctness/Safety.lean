import ApueToyCodes.FooHash.Correctness.Lists

/-!
# `FooHash.Correctness.Safety` — every step keeps the invariant

The step of a thread at each place is `Fine`: it is no fault, and the invariant holds after it. So in no run
does a thread touch an object that has been freed, or a field without its lock, unlock a mutex it does not
hold or destroy one that is held (`reached_safe`).
-/

namespace FooHash
open Links

variable {T : Type} [DecidableEq T] {s : State T} {loose : List Cell} {lists : Fin nhash → List Cell} {t : T}
  {fp tfp : Nat} {pc pc' : Pc} {foo : Foo T} {id : Int}

/-- No fault, and the invariant afterwards. -/
def Fine : Outcome (State T) → Prop
  | .next s' => ∃ loose lists, Inv s' loose lists
  | .blocked => True
  | .fault => False

/-! ## The operations -/

section

variable (h : Inv s loose lists) (hpc : s.pc t = pc)

include h hpc

theorem lockHash_fine (hhash : pc.hash = false) (hhash' : pc'.hash = true) (hobj : pc'.obj = pc.obj)
    (hloose : pc'.loose = pc.loose) (href : ∀ q, pc'.ref = some q → pc.ref = some q)
    (hsole : ∀ q, pc'.sole = some q → pc.sole = some q) (hplace : Place s lists pc') :
    Fine (lockHash t s pc') := by
  subst hpc
  unfold lockHash
  by_cases hlk : s.hashlock = none
  · rw [if_pos hlk]
    refine ⟨loose, lists, h.move (some t) (fun t' => ?_) hobj hloose (fun q hq => h.control.ref t q (href q hq))
      (fun q hq => h.control.sole t q (hsole q hq)) hplace ?_⟩
    · by_cases ht : t' = t
      · rw [ht, Function.update_self, hhash']
        exact ⟨fun _ => rfl, fun _ => rfl⟩
      · rw [Function.update_of_ne ht, ← h.control.hash t', hlk]
        exact ⟨fun heq => absurd (Option.some.inj heq).symm ht, fun heq => absurd heq.symm (Option.some_ne_none t')⟩
    · rintro q rfl
      exact absurd hhash' (by simp [Pc.hash])
  · rw [if_neg hlk]
    trivial

theorem unlockHash_fine (hhash : pc.hash = true) (hhash' : pc'.hash = false) (hobj : pc'.obj = pc.obj)
    (hloose : pc'.loose = pc.loose) (href : ∀ q, pc'.ref = some q → pc.ref = some q)
    (hsole : ∀ q, pc'.sole = some q → pc.sole = some q) (hfree : ∀ q, pc' ≠ .releFree q) :
    Fine (unlockHash t s pc') := by
  subst hpc
  unfold unlockHash
  rw [if_pos ((h.control.hash t).mpr hhash)]
  refine ⟨loose, lists, h.move none (fun t' => ?_) hobj hloose (fun q hq => h.control.ref t q (href q hq))
    (fun q hq => h.control.sole t q (hsole q hq)) (place_of_not_hash hhash') hfree⟩
  by_cases ht : t' = t
  · rw [ht, Function.update_self, hhash']
    exact ⟨fun heq => absurd heq.symm (Option.some_ne_none t), fun heq => absurd heq Bool.false_ne_true⟩
  · rw [Function.update_of_ne ht]
    exact ⟨fun heq => absurd heq.symm (Option.some_ne_none t'), fun heq => absurd (h.hash_unique heq hhash) ht⟩

theorem lockObj_fine (huse : (t, fp) ∈ s.refs ∨ ∃ i, .inr fp ∈ lists i) (hobj : pc.obj = none)
    (hobj' : pc'.obj = some fp) (hhash : pc'.hash = pc.hash) (hloose : pc'.loose = pc.loose)
    (href : ∀ q, pc'.ref = some q → pc.ref = some q) (hsole : ∀ q, pc'.sole = some q → pc.sole = some q)
    (hplace : Place s lists pc') (hnot : pc ≠ .releFree fp) : Fine (lockObj t s fp pc') := by
  subst hpc
  obtain ⟨foo, hfoo⟩ : ∃ foo, s.heap fp = some foo := by
    rcases huse with hmem | ⟨i, hi⟩
    · exact h.memory.alive t fp hmem
    · exact isObj_inr.mp (h.memory.family.record_of_mem hi)
  have hfreed : ∀ q, pc' ≠ .releFree q := by
    rintro q rfl
    exact absurd hobj'.symm (Option.some_ne_none fp)
  unfold lockObj
  rw [hfoo]
  dsimp only
  by_cases hlk : foo.lock = none
  · rw [if_pos hlk]
    refine ⟨loose, lists, h.relock hfoo (some t) (fun t' => ?_) (fun q hq => ?_) hhash hloose
      (fun q hq => h.control.ref t q (href q hq)) (fun q hq => h.control.sole t q (hsole q hq)) hplace
      (fun t₁ ht₁ => ?_) fun q _ => hfreed q⟩
    · by_cases ht : t' = t
      · rw [ht, Function.update_self, hobj']
        exact ⟨fun _ => rfl, fun _ => rfl⟩
      · rw [Function.update_of_ne ht, ← h.control.lock fp foo t' hfoo, hlk]
        exact ⟨fun heq => absurd (Option.some.inj heq).symm ht, fun heq => absurd heq.symm (Option.some_ne_none t')⟩
    · rw [hobj, hobj']
      exact ⟨fun heq => absurd (Option.some.inj heq).symm hq, fun heq => absurd heq.symm (Option.some_ne_none q)⟩
    · by_cases ht : t₁ = t
      · rw [ht, Function.update_self] at ht₁
        exact absurd ht₁ (hfreed fp)
      · rw [Function.update_of_ne ht] at ht₁
        exact absurd ht₁ (h.not_freeing hnot huse t₁)
  · rw [if_neg hlk]
    trivial

theorem unlockObj_fine (hobj : pc.obj = some fp) (hobj' : pc'.obj = none) (hhash : pc'.hash = pc.hash)
    (hloose : pc'.loose = pc.loose) (href : ∀ q, pc'.ref = some q → pc.ref = some q)
    (hsole : ∀ q, pc'.sole = some q → pc.sole = some q) (hplace : Place s lists pc')
    (hfree : ∀ q ≠ fp, pc' ≠ .releFree q) : Fine (unlockObj t s fp pc') := by
  subst hpc
  obtain ⟨foo, hfoo⟩ := h.control.held t fp hobj
  have hlk : foo.lock = some t := (h.control.lock fp foo t hfoo).mpr hobj
  unfold unlockObj
  rw [hfoo]
  dsimp only
  rw [if_pos hlk]
  refine ⟨loose, lists, h.relock hfoo none (fun t' => ?_) (fun q hq => ?_) hhash hloose
    (fun q hq => h.control.ref t q (href q hq)) (fun q hq => h.control.sole t q (hsole q hq)) hplace
    (fun _ _ => rfl) hfree⟩
  · refine ⟨fun heq => absurd heq.symm (Option.some_ne_none t'), fun heq => ?_⟩
    by_cases ht : t' = t
    · rw [ht, Function.update_self, hobj'] at heq
      exact absurd heq.symm (Option.some_ne_none fp)
    · rw [Function.update_of_ne ht, ← h.control.lock fp foo t' hfoo, hlk] at heq
      exact absurd (Option.some.inj heq).symm ht
  · rw [hobj, hobj']
    exact ⟨fun heq => absurd heq.symm (Option.some_ne_none q), fun heq => absurd (Option.some.inj heq).symm hq⟩

/-- The thread goes on with the same locks. -/
theorem goto_fine (hhash : pc'.hash = pc.hash) (hobj : pc'.obj = pc.obj) (hloose : pc'.loose = pc.loose)
    (href : ∀ q, pc'.ref = some q → (t, q) ∈ s.refs) (hsole : ∀ q, pc'.sole = some q → s.refCount q = 1)
    (hplace : Place s lists pc') (hfree : ∀ q, pc' ≠ .releFree q) : Inv (s.goto t pc') loose lists := by
  subst hpc
  refine h.move s.hashlock (fun t' => ?_) hobj hloose href hsole hplace hfree
  rw [apply_update_eq Pc.hash hhash]
  exact h.control.hash t'

theorem counted_eq (hobj : pc.obj = some fp) (k : Foo T → Outcome (State T)) :
    ∃ foo, s.heap fp = some foo ∧ counted t s fp k = k foo := by
  subst hpc
  obtain ⟨foo, hfoo⟩ := h.control.held t fp hobj
  refine ⟨foo, hfoo, ?_⟩
  unfold counted
  rw [hfoo]
  exact if_pos ((h.control.lock fp foo t hfoo).mpr hobj)

theorem linked_eq (hhash : pc.hash = true) (hfoo : s.heap fp = some foo) (k : Foo T → Outcome (State T)) :
    linked t s fp k = k foo := by
  subst hpc
  unfold linked
  rw [hfoo]
  exact if_pos ((h.control.hash t).mpr hhash)

end

/-! ## Along a list -/

omit [DecidableEq T] in
/-- Where a pointer to the rest of a list leads. -/
theorem rest_of_link {c : Cell} {l : List Cell} (hl : Linked s.link (.inr 0) c l) (hc : s.link c = .inr fp) :
    l = [] ∧ fp = 0 ∨ ∃ l', l = .inr fp :: l' := by
  cases l with
  | nil => exact Or.inl ⟨rfl, Sum.inr.inj (hc.symm.trans hl)⟩
  | cons d l =>
      rw [← hc.symm.trans hl.1]
      exact Or.inr ⟨l, rfl⟩

omit [DecidableEq T] in
theorem link_inr (hfoo : s.heap fp = some foo) : s.link (.inr fp) = .inr foo.next := by
  show Sum.inr ((s.heap fp).elim 0 Foo.next) = _
  rw [hfoo]
  rfl

omit [DecidableEq T] in
theorem Inv.obj_of_mem (h : Inv s loose lists) {i : Fin nhash} (hmem : .inr fp ∈ lists i) :
    ∃ foo, s.heap fp = some foo := isObj_inr.mp (h.memory.family.record_of_mem hmem)

omit [DecidableEq T] in
theorem Inv.ne_zero (h : Inv s loose lists) {i : Fin nhash} (hmem : .inr fp ∈ lists i) : fp ≠ 0 := by
  rintro rfl
  exact (h.memory.family.plain _ (h.memory.family.record_of_mem hmem)).1 rfl

omit [DecidableEq T] in
/-- An object on a list is not the only one's, unless the thread that holds `hashlock` has it. -/
theorem Inv.not_sole (h : Inv s loose lists) {i : Fin nhash} (hmem : .inr fp ∈ lists i)
    (hhash : (s.pc t).hash = true) (t' : T) (ht : t' ≠ t) : (s.pc t').sole ≠ some fp := by
  intro hs
  have hl := h.not_loose hmem t'
  have hh : (s.pc t').hash = true ∨ (s.pc t').loose = some fp := by
    revert hs
    cases s.pc t' with
    | releWalk => exact fun _ => Or.inl rfl
    | _ => exact fun hs => Or.inr hs
  rcases hh with hh | hh
  · exact ht (h.hash_unique hh hhash)
  · exact hl hh

theorem findWalk_fine (h : Inv s loose lists) (hpc : s.pc t = .findWalk id fp) : Fine (step t s) := by
  have hplace : Place s lists (s.pc t) := h.control.place t
  rw [hpc] at hplace
  obtain ⟨l₁, l₂, hlist, hl₂, hne⟩ := hplace
  have hlink := h.memory.family.linked (hash id)
  unfold step
  rw [hpc]
  dsimp only
  by_cases h0 : fp = 0
  · -- the end of the list
    rw [if_pos h0]
    have hnil : l₂ = [] := by
      rcases hl₂ with ⟨hnil, -⟩ | ⟨l, rfl⟩
      · exact hnil
      · exact absurd h0 (h.ne_zero (i := hash id) (by rw [hlist]; simp))
    refine ⟨loose, lists, goto_fine h hpc rfl rfl rfl (fun q hq => ?_) (fun q hq => ?_) (Or.inl ⟨rfl, ?_⟩) ?_⟩
    · exact absurd hq.symm (Option.some_ne_none q)
    · exact absurd hq.symm (Option.some_ne_none q)
    · rw [hlist, hnil, List.append_nil]
      exact hne
    · exact fun q heq => Pc.noConfusion heq
  · rw [if_neg h0]
    obtain ⟨l, rfl⟩ := hl₂.resolve_left fun hr => h0 hr.2
    have hmem : .inr fp ∈ lists (hash id) := by rw [hlist]; simp
    obtain ⟨foo, hfoo⟩ := h.obj_of_mem hmem
    rw [linked_eq h hpc rfl hfoo]
    by_cases hid : foo.id = id
    · rw [if_pos hid]
      refine ⟨loose, lists, goto_fine h hpc rfl rfl rfl (fun q hq => ?_) (fun q hq => ?_) ⟨hmem, ?_⟩ ?_⟩
      · exact absurd hq.symm (Option.some_ne_none q)
      · exact absurd hq.symm (Option.some_ne_none q)
      · rw [idAt_eq hfoo, hid]
      · exact fun q heq => Pc.noConfusion heq
    · rw [if_neg hid]
      rw [hlist] at hlink
      refine ⟨loose, lists, goto_fine h hpc rfl rfl rfl (fun q hq => ?_) (fun q hq => ?_)
        ⟨l₁ ++ [.inr fp], l, ?_, rest_of_link hlink.suffix (link_inr hfoo), fun c hc => ?_⟩ ?_⟩
      · exact absurd hq.symm (Option.some_ne_none q)
      · exact absurd hq.symm (Option.some_ne_none q)
      · rw [hlist, List.append_assoc]
        rfl
      · rcases List.mem_append.mp hc with hc | hc
        · exact hne c hc
        · rw [List.mem_singleton.mp hc, idAt_eq hfoo]
          exact fun heq => hid (Option.some.inj heq)
      · exact fun q heq => Pc.noConfusion heq

/-- The object is the first one of its list, or behind another one. -/
theorem releRecheck_fine (h : Inv s loose lists) (hpc : s.pc t = .releRecheck fp) : Fine (step t s) := by
  have href : (t, fp) ∈ s.refs := h.control.ref t fp (by rw [hpc]; rfl)
  unfold step
  rw [hpc]
  dsimp only
  obtain ⟨foo, hfoo, heq⟩ := counted_eq h hpc rfl _
  rw [heq]
  by_cases hcount : foo.count ≠ 1
  · rw [if_pos hcount]
    exact ⟨loose, lists, h.decrement hfoo href hcount (by rw [hpc]; rfl) (by rw [hpc]; rfl) (by rw [hpc]; rfl) rfl rfl
      trivial⟩
  rw [if_neg hcount, linked_eq h hpc rfl hfoo]
  have hone : s.refCount fp = 1 := by
    have hc := h.memory.count fp foo hfoo
    rw [not_not.mp hcount] at hc
    omega
  have hmem := h.on_list href (by rw [hpc]; exact (Option.some_ne_none fp).symm) hfoo
  obtain ⟨l₁, l₂, hlist⟩ := List.append_of_mem hmem
  have hlink := h.memory.family.linked (hash foo.id)
  have hnodup := (List.nodup_cons.mp hlink.nodup).2
  rw [hlist] at hlink hnodup
  have hout := (List.nodup_middle.mp hnodup).notMem
  by_cases hfirst : s.fh (hash foo.id) = fp
  · rw [if_pos hfirst]
    obtain rfl : l₁ = [] := by
      cases l₁ with
      | nil => rfl
      | cons c l₁ =>
          have hc : c = .inr fp := (hlink.1.symm.trans (congrArg Sum.inr hfirst))
          exact absurd (by rw [hc]; simp) hout
    refine h.unlink (fun _ => rfl) rfl rfl rfl (by rw [hpc]; rfl) (by rw [hpc]; rfl) href hone (by rw [hpc]; rfl) hfoo
      hlist ?_ fun c hc => ?_
    · exact congrArg Sum.inr (Function.update_self _ _ _)
    · cases c with
      | inl i => exact congrArg Sum.inr (Function.update_of_ne (fun heq => hc (congrArg Sum.inl heq)) _ _)
      | inr q => rfl
  · rw [if_neg hfirst]
    cases l₁ with
    | nil => exact absurd (Sum.inr.inj hlink.1) hfirst
    | cons c l₁ =>
        have hc : c = .inr (s.fh (hash foo.id)) := hlink.1.symm
        refine ⟨loose, lists, goto_fine h hpc rfl rfl rfl (fun q hq => ?_) (fun q hq => ?_)
          ⟨foo.id, [], l₁, l₂, idAt_eq hfoo, ?_⟩ ?_⟩
        · rw [← Option.some.inj hq]
          exact href
        · rw [← Option.some.inj hq]
          exact hone
        · rw [hlist, hc]
          rfl
        · exact fun q heq => Pc.noConfusion heq

theorem releWalk_fine (h : Inv s loose lists) (hpc : s.pc t = .releWalk fp tfp) : Fine (step t s) := by
  have href : (t, fp) ∈ s.refs := h.control.ref t fp (by rw [hpc]; rfl)
  have hone : s.refCount fp = 1 := h.control.sole t fp (by rw [hpc]; rfl)
  have hplace : Place s lists (s.pc t) := h.control.place t
  rw [hpc] at hplace
  obtain ⟨id, l₁, l₂, l₃, hid, hlist⟩ := hplace
  obtain ⟨foo, hfoo⟩ := h.memory.alive t fp href
  obtain rfl : foo.id = id := Option.some.inj ((idAt_eq hfoo).symm.trans hid)
  have hmem : .inr tfp ∈ lists (hash foo.id) := by rw [hlist]; simp
  obtain ⟨tfoo, htfoo⟩ := h.obj_of_mem hmem
  have hlink := h.memory.family.linked (hash foo.id)
  have hnodup := (List.nodup_cons.mp hlink.nodup).2
  rw [hlist] at hlink hnodup
  have hnext : s.link (.inr tfp) = .inr tfoo.next := link_inr htfoo
  unfold step
  rw [hpc]
  dsimp only
  rw [linked_eq h hpc rfl hfoo, linked_eq h hpc rfl htfoo]
  have hrest := hlink.suffix
  cases l₂ with
  | nil =>
      -- the object is the next one
      have hfp : tfoo.next = fp := Sum.inr.inj (hnext.symm.trans hrest.1)
      rw [if_pos hfp]
      have hlist' : lists (hash foo.id) = (l₁ ++ [.inr tfp]) ++ .inr fp :: l₃ := by
        rw [hlist, List.append_assoc]
        rfl
      have hheap := setFoo_heap s tfp { tfoo with next := foo.next }
      refine h.unlink (fun q => ?_) rfl rfl rfl (by rw [hpc]; rfl) (by rw [hpc]; rfl) href hone (by rw [hpc]; rfl) hfoo
        hlist' ?_ fun c hc => ?_
      · show ((s.setFoo tfp { tfoo with next := foo.next }).heap q).map Foo.core = _
        rw [hheap]
        by_cases hq : q = tfp
        · rw [if_pos hq, hq, htfoo]
          rfl
        · rw [if_neg hq]
      · rw [before_concat]
        show Sum.inr (((s.setFoo tfp { tfoo with next := foo.next }).heap tfp).elim 0 Foo.next) = _
        rw [hheap, if_pos rfl]
        rfl
      · rw [before_concat] at hc
        cases c with
        | inl i => rfl
        | inr q =>
            show Sum.inr (((s.setFoo tfp { tfoo with next := foo.next }).heap q).elim 0 Foo.next) = _
            rw [hheap, if_neg fun heq => hc (congrArg Sum.inr heq)]
            rfl
  | cons c l₂ =>
      have hc : c = .inr tfoo.next := hrest.1.symm.trans hnext
      have hfp : tfoo.next ≠ fp := by
        intro heq
        rw [heq] at hc
        have hrestnodup : (Sum.inr tfp :: (c :: l₂ ++ .inr fp :: l₃)).Nodup :=
          (List.nodup_append.mp hnodup).2.1
        have hmem : c ∈ l₂ ++ .inr fp :: l₃ := by rw [hc]; simp
        exact (List.nodup_cons.mp (List.nodup_cons.mp hrestnodup).2).1 hmem
      rw [if_neg hfp]
      refine ⟨loose, lists, goto_fine h hpc rfl rfl rfl (fun q hq => ?_) (fun q hq => ?_)
        ⟨foo.id, l₁ ++ [.inr tfp], l₂, l₃, idAt_eq hfoo, ?_⟩ ?_⟩
      · rw [← Option.some.inj hq]
        exact href
      · rw [← Option.some.inj hq]
        exact hone
      · rw [hlist, hc, List.append_assoc]
        rfl
      · exact fun q heq => Pc.noConfusion heq

/-! ## Every step -/

theorem findHash_fine (h : Inv s loose lists) (hpc : s.pc t = .findHash id) : Fine (step t s) := by
  have hstep : step t s = lockHash t s (.findWalk id (s.fh (hash id))) := by
    unfold step
    rw [hpc]
    rfl
  have hlink := h.memory.family.linked (hash id)
  rw [hstep]
  exact lockHash_fine h hpc rfl rfl rfl rfl (fun _ hq => hq) (fun _ hq => hq)
    ⟨[], lists (hash id), rfl, rest_of_link hlink rfl, fun c hc => absurd hc List.not_mem_nil⟩

theorem releCheck_fine (h : Inv s loose lists) (hpc : s.pc t = .releCheck fp) : Fine (step t s) := by
  have href : (t, fp) ∈ s.refs := h.control.ref t fp (by rw [hpc]; rfl)
  unfold step
  rw [hpc]
  dsimp only
  obtain ⟨foo, hfoo, heq⟩ := counted_eq h hpc rfl _
  rw [heq]
  by_cases hone : foo.count = 1
  · rw [if_pos hone]
    refine ⟨loose, lists, goto_fine h hpc rfl rfl rfl (fun q hq => ?_) (fun q hq => ?_) trivial ?_⟩
    · rw [← Option.some.inj hq]
      exact href
    · exact absurd hq.symm (Option.some_ne_none q)
    · exact fun q heq => Pc.noConfusion heq
  · rw [if_neg hone]
    exact ⟨loose, lists, h.decrement hfoo href hone (by rw [hpc]; rfl) (by rw [hpc]; rfl) (by rw [hpc]; rfl) rfl rfl
      trivial⟩

theorem releFree_fine (h : Inv s loose lists) (hpc : s.pc t = .releFree fp) : Fine (step t s) := by
  obtain ⟨foo, hfoo⟩ := h.memory.alive t fp (h.control.ref t fp (by rw [hpc]; rfl))
  have hlk : foo.lock = none := by
    cases hlk : foo.lock with
    | none => rfl
    | some t' => exact absurd ((h.control.lock fp foo t' hfoo).mp hlk) (h.control.freed t t' fp hpc)
  unfold step
  rw [hpc]
  dsimp only
  rw [hfoo]
  dsimp only
  rw [if_pos hlk]
  exact h.free hpc

/-- **The step of a thread**, at each of its places. -/
theorem step_fine (h : Inv s loose lists) (hc : Countable s) : Fine (step t s) := by
  have href : ∀ {fp}, (s.pc t).ref = some fp → (t, fp) ∈ s.refs := fun hr => h.control.ref t _ hr
  have hplace := h.control.place t
  cases hpc : s.pc t with
  | idle =>
      unfold step
      rw [hpc]
      trivial
  | allocHash fp =>
      unfold step
      rw [hpc]
      exact lockHash_fine h hpc rfl rfl rfl rfl (fun _ hq => hq) (fun _ hq => hq) trivial
  | allocInsert fp =>
      obtain ⟨foo, hfoo⟩ := h.memory.alive t fp (href (by rw [hpc]; rfl))
      unfold step
      rw [hpc]
      dsimp only
      rw [linked_eq h hpc rfl hfoo]
      exact h.insert hpc hfoo
  | allocObj fp =>
      unfold step
      rw [hpc]
      exact lockObj_fine h hpc (Or.inl (href (by rw [hpc]; rfl))) rfl rfl rfl rfl (fun _ hq => hq) (fun _ hq => hq)
        trivial Pc.noConfusion
  | allocUnhash fp =>
      unfold step
      rw [hpc]
      exact unlockHash_fine h hpc rfl rfl rfl rfl (fun _ hq => hq) (fun _ hq => hq) fun q => Pc.noConfusion
  | allocUnobj fp =>
      unfold step
      rw [hpc]
      exact unlockObj_fine h hpc rfl rfl rfl rfl (fun q hq => absurd hq.symm (Option.some_ne_none q))
        (fun _ hq => hq) trivial fun q _ => Pc.noConfusion
  | holdObj fp =>
      unfold step
      rw [hpc]
      exact lockObj_fine h hpc (Or.inl (href (by rw [hpc]; rfl))) rfl rfl rfl rfl (fun _ hq => hq) (fun _ hq => hq)
        trivial Pc.noConfusion
  | holdCount fp =>
      have hmine := href (show (s.pc t).ref = some fp by rw [hpc]; rfl)
      unfold step
      rw [hpc]
      dsimp only
      obtain ⟨foo, hfoo, heq⟩ := counted_eq h hpc rfl _
      rw [heq]
      have hbound := hc t fp (by rw [hpc]; rfl)
      rw [← h.memory.count fp foo hfoo] at hbound
      unfold FooHash.increment
      rw [if_pos hbound]
      refine ⟨loose, lists, h.increment hfoo (by rw [hpc]; rfl) (by rw [hpc]; rfl) (by rw [hpc]; rfl) (fun q hq => ?_)
        rfl (fun t' ht hs => ht (h.sole_unique hs hmine).symm) trivial⟩
      rw [← Option.some.inj hq]
      exact List.mem_cons_self
  | holdUnobj fp =>
      unfold step
      rw [hpc]
      exact unlockObj_fine h hpc rfl rfl rfl rfl (fun q hq => absurd hq.symm (Option.some_ne_none q))
        (fun _ hq => hq) trivial fun q _ => Pc.noConfusion
  | findHash id => exact findHash_fine h hpc
  | findWalk id fp => exact findWalk_fine h hpc
  | findObj id fp =>
      rw [hpc] at hplace
      unfold step
      rw [hpc]
      exact lockObj_fine h hpc (Or.inr ⟨_, hplace.1⟩) rfl rfl rfl rfl (fun _ hq => hq) (fun _ hq => hq) hplace
        Pc.noConfusion
  | findCount id fp =>
      rw [hpc] at hplace
      unfold step
      rw [hpc]
      dsimp only
      obtain ⟨foo, hfoo, heq⟩ := counted_eq h hpc rfl _
      rw [heq]
      have hbound := hc t fp (by rw [hpc]; rfl)
      rw [← h.memory.count fp foo hfoo] at hbound
      unfold FooHash.increment
      rw [if_pos hbound]
      refine ⟨loose, lists, h.increment hfoo (by rw [hpc]; rfl) (by rw [hpc]; rfl) (by rw [hpc]; rfl) (fun q hq => ?_)
        rfl (h.not_sole hplace.1 (by rw [hpc]; rfl)) hplace⟩
      rw [← Option.some.inj hq]
      exact List.mem_cons_self
  | findUnobj id fp =>
      rw [hpc] at hplace
      have hne := h.ne_zero hplace.1
      unfold step
      rw [hpc]
      refine unlockObj_fine h hpc rfl rfl rfl rfl (fun q hq => ?_) (fun _ hq => hq) (Or.inr ⟨hne, hplace⟩)
        fun q _ => Pc.noConfusion
      rw [Pc.ref, if_neg hne] at hq
      exact hq
  | findUnhash id fp =>
      unfold step
      rw [hpc]
      exact unlockHash_fine h hpc rfl rfl rfl rfl (fun q hq => absurd hq.symm (Option.some_ne_none q))
        (fun _ hq => hq) fun q => Pc.noConfusion
  | releObj fp =>
      unfold step
      rw [hpc]
      exact lockObj_fine h hpc (Or.inl (href (by rw [hpc]; rfl))) rfl rfl rfl rfl (fun _ hq => hq) (fun _ hq => hq)
        trivial Pc.noConfusion
  | releCheck fp => exact releCheck_fine h hpc
  | releUnobj fp =>
      unfold step
      rw [hpc]
      exact unlockObj_fine h hpc rfl rfl rfl rfl (fun _ hq => hq) (fun _ hq => hq) trivial fun q _ => Pc.noConfusion
  | releRetry fp =>
      unfold step
      rw [hpc]
      exact unlockObj_fine h hpc rfl rfl rfl rfl (fun _ hq => hq) (fun _ hq => hq) trivial fun q _ => Pc.noConfusion
  | releHash fp =>
      unfold step
      rw [hpc]
      exact lockHash_fine h hpc rfl rfl rfl rfl (fun _ hq => hq) (fun _ hq => hq) trivial
  | releObjAgain fp =>
      unfold step
      rw [hpc]
      exact lockObj_fine h hpc (Or.inl (href (by rw [hpc]; rfl))) rfl rfl rfl rfl (fun _ hq => hq) (fun _ hq => hq)
        trivial Pc.noConfusion
  | releRecheck fp => exact releRecheck_fine h hpc
  | releKeep fp =>
      unfold step
      rw [hpc]
      exact unlockObj_fine h hpc rfl rfl rfl rfl (fun _ hq => hq) (fun _ hq => hq) trivial fun q _ => Pc.noConfusion
  | releKept =>
      unfold step
      rw [hpc]
      exact unlockHash_fine h hpc rfl rfl rfl rfl (fun _ hq => hq) (fun _ hq => hq) fun q => Pc.noConfusion
  | releWalk fp tfp => exact releWalk_fine h hpc
  | releRemoved fp =>
      unfold step
      rw [hpc]
      exact unlockHash_fine h hpc rfl rfl rfl rfl (fun _ hq => hq) (fun _ hq => hq) fun q => Pc.noConfusion
  | releUnlock fp =>
      unfold step
      rw [hpc]
      exact unlockObj_fine h hpc rfl rfl rfl rfl (fun _ hq => hq) (fun _ hq => hq) trivial
        fun q hq heq => hq (Pc.releFree.inj heq).symm
  | releFree fp => exact releFree_fine h hpc

/-- **Every step of every thread keeps the invariant.** -/
theorem step_inv {s' : State T} {a : Act T} (hinv : ∃ loose lists, Inv s loose lists) (hc : Countable s)
    (hs : Step s a s') :
    ∃ loose lists, Inv s' loose lists := by
  obtain ⟨loose, lists, h⟩ := hinv
  -- a call starts with a place that holds no lock
  have hstart : ∀ {t : T} {pc' : Pc}, s.pc t = .idle → pc'.hash = false → pc'.obj = none → pc'.loose = none →
      (∀ q, pc'.ref = some q → (t, q) ∈ s.refs) → pc'.sole = none → (∀ q, pc' ≠ .releFree q) →
      ∃ loose lists, Inv (s.goto t pc') loose lists := by
    intro t pc' hpc hhash hobj hloose href hsole hfree
    refine ⟨loose, lists, goto_fine h hpc hhash hobj hloose href (fun q hq => ?_) (place_of_not_hash hhash) hfree⟩
    exact absurd (hsole.symm.trans hq).symm (Option.some_ne_none q)
  cases hs with
  | alloc id garbage hpc hne hfree => exact h.alloc hpc hne hfree id garbage
  | allocNull id hpc => exact ⟨loose, lists, h⟩
  | hold hpc href =>
      refine hstart hpc rfl rfl rfl (fun q hq => ?_) rfl fun q => Pc.noConfusion
      rw [← Option.some.inj hq]
      exact href
  | find id hpc =>
      exact hstart hpc rfl rfl rfl (fun q hq => absurd hq.symm (Option.some_ne_none q)) rfl fun q => Pc.noConfusion
  | rele hpc href =>
      refine hstart hpc rfl rfl rfl (fun q hq => ?_) rfl fun q => Pc.noConfusion
      rw [← Option.some.inj hq]
      exact href
  | give t' hpc hmine => exact ⟨loose, lists, h.give hpc hmine t'⟩
  | @go _ t hstep =>
      have hfine : Fine (step t s) := step_fine h hc
      rw [hstep] at hfine
      exact hfine

omit [DecidableEq T] in
theorem countable_init : Countable (init T) := fun _ _ hfp => absurd hfp (Option.not_mem_none _)

theorem Reached.both (h : Reached s) : (∃ loose lists, Inv s loose lists) ∧ Countable s := by
  obtain ⟨acts, hrun⟩ := h
  have hstep : ∀ (s : State T) a s', ((∃ loose lists, Inv s loose lists) ∧ Countable s) →
      Step s a s' ∧ Countable s' → (∃ loose lists, Inv s' loose lists) ∧ Countable s' := fun _ _ _ hinv hs =>
    ⟨step_inv hinv.1 hinv.2 hs.1, hs.2⟩
  exact hrun.invariant hstep ⟨⟨[], fun _ => [], inv_init⟩, countable_init⟩

theorem Reached.inv (h : Reached s) : ∃ loose lists, Inv s loose lists := h.both.1

theorem Reached.countable (h : Reached s) : Countable s := h.both.2

end FooHash
