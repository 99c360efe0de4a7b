import ApueToyCodes.FooHash.Invariant

/-!
# `FooHash.Correctness.Locks` — steps that only lock, unlock and count

Steps that leave the lists and the set of objects as they are: a thread moves on and may take or leave
`hashlock` (`Inv.move`), an object's `f_lock` (`Inv.relock`), or a reference (`Inv.increment`,
`Inv.decrement`).
-/

namespace FooHash
open Links

variable {T : Type} [DecidableEq T] {s : State T} {loose : List Cell} {lists : Fin nhash → List Cell} {t : T}
  {fp : Nat} {pc' : Pc} {foo foo' : Foo T}

/-! ## A changed object -/

omit [DecidableEq T] in
theorem setFoo_heap (s : State T) (fp : Nat) (foo : Foo T) (q : Nat) :
    (s.setFoo fp foo).heap q = if q = fp then some foo else s.heap q := Function.update_apply _ _ _ _

omit [DecidableEq T] in
theorem setFoo_link (hfoo : s.heap fp = some foo) (hnext : foo'.next = foo.next) :
    (s.setFoo fp foo').link = s.link := by
  funext c
  cases c with
  | inl i => rfl
  | inr q =>
      show Sum.inr (((s.setFoo fp foo').heap q).elim 0 Foo.next) = Sum.inr ((s.heap q).elim 0 Foo.next)
      rw [setFoo_heap]
      by_cases hq : q = fp
      · rw [if_pos hq, hq, hfoo]
        exact congrArg Sum.inr hnext
      · rw [if_neg hq]

omit [DecidableEq T] in
theorem setFoo_idAt (hfoo : s.heap fp = some foo) (hid : foo'.id = foo.id) :
    (s.setFoo fp foo').idAt = s.idAt := by
  funext c
  cases c with
  | inl i => rfl
  | inr q =>
      show ((s.setFoo fp foo').heap q).map Foo.id = (s.heap q).map Foo.id
      rw [setFoo_heap]
      by_cases hq : q = fp
      · rw [if_pos hq, hq, hfoo]
        exact congrArg some hid
      · rw [if_neg hq]

omit [DecidableEq T] in
theorem setFoo_isObj (hfoo : s.heap fp = some foo) : (s.setFoo fp foo').IsObj = s.IsObj := by
  funext c
  refine propext (exists_congr fun q => ?_)
  rw [setFoo_heap]
  by_cases hq : q = fp
  · rw [if_pos hq, hq, hfoo]
    exact ⟨fun ⟨_, hc, _⟩ => ⟨foo, hc, rfl⟩, fun ⟨_, hc, _⟩ => ⟨foo', hc, rfl⟩⟩
  · rw [if_neg hq]

omit [DecidableEq T] in
/-- An object changed in its lock and its count. -/
theorem Memory.recount (h : Memory s loose lists) (hfoo : s.heap fp = some foo) (foo' : Foo T)
    (hnext : foo'.next = foo.next)
    (hid : foo'.id = foo.id) {refs : List (T × Nat)} (hcount : foo'.count = refs.countP (·.2 = fp))
    (hother : ∀ q ≠ fp, refs.countP (·.2 = q) = s.refCount q) (hpos : 0 < refs.countP (·.2 = fp)) :
    Memory { s.setFoo fp foo' with refs := refs } loose lists := by
  have hheap : ∀ q, (s.setFoo fp foo').heap q = if q = fp then some foo' else s.heap q := setFoo_heap s fp foo'
  refine ⟨?_, fun i c id hc hi => ?_, fun q f hf => ?_, fun t q hmem => ?_, fun q f hf => ?_⟩
  · have hlink : ({ s.setFoo fp foo' with refs := refs } : State T).link = s.link := setFoo_link hfoo hnext
    have hobj : ({ s.setFoo fp foo' with refs := refs } : State T).IsObj = s.IsObj := setFoo_isObj hfoo
    rw [hlink, hobj]
    exact h.family
  · have hidAt : ({ s.setFoo fp foo' with refs := refs } : State T).idAt = s.idAt := setFoo_idAt hfoo hid
    rw [hidAt] at hi
    exact h.home i c id hc hi
  · have hf' : (if q = fp then some foo' else s.heap q) = some f := (hheap q).symm.trans hf
    by_cases hq : q = fp
    · rw [if_pos hq] at hf'
      rw [← Option.some.inj hf', hcount, hq]
      rfl
    · rw [if_neg hq] at hf'
      rw [h.count q f hf', ← hother q hq]
      rfl
  · show ∃ f, (s.setFoo fp foo').heap q = some f
    rw [hheap]
    by_cases hq : q = fp
    · rw [if_pos hq]
      exact ⟨foo', rfl⟩
    · rw [if_neg hq]
      have hcountq : 0 < s.refCount q := by
        rw [← hother q hq]
        exact List.countP_pos_iff.mpr ⟨_, hmem, by simp⟩
      obtain ⟨t', ht'⟩ := refCount_pos.mp hcountq
      exact h.alive t' q ht'
  · show 0 < refs.countP (·.2 = q)
    by_cases hq : q = fp
    · rw [hq]
      exact hpos
    · have hf' : (if q = fp then some foo' else s.heap q) = some f := (hheap q).symm.trans hf
      rw [if_neg hq] at hf'
      rw [hother q hq]
      exact h.owned q f hf'

/-! ## Moving on -/

/-- What is the same at the old and the new place of `t` is the same for every thread. -/
theorem apply_update_eq {β : Type} (f : Pc → β) (heq : f pc' = f (s.pc t)) (t' : T) :
    f (Function.update s.pc t pc' t') = f (s.pc t') := by
  rw [Function.apply_update (fun _ => f), heq]
  exact congrFun (Function.update_eq_self t fun t => f (s.pc t)) t'

/-- **A thread moves on**, and may take or leave `hashlock`. -/
theorem Inv.move (h : Inv s loose lists) (lk : Option T)
    (hhash : ∀ t', lk = some t' ↔ (Function.update s.pc t pc' t').hash = true)
    (hobj : pc'.obj = (s.pc t).obj) (hloose : pc'.loose = (s.pc t).loose)
    (href : ∀ q, pc'.ref = some q → (t, q) ∈ s.refs) (hsole : ∀ q, pc'.sole = some q → s.refCount q = 1)
    (hplace : Place s lists pc') (hfree : ∀ q, pc' ≠ .releFree q) :
    Inv ({ s with hashlock := lk }.goto t pc') loose lists := by
  have hc := h.control
  refine ⟨⟨h.memory.family, h.memory.home, h.memory.count, h.memory.alive, h.memory.owned⟩, hhash,
    fun q f t' hf => ?_, fun t' q hq => ?_, ?_, ?_, fun q => ?_, ?_, fun t₁ t₂ q hq => ?_⟩
  · show f.lock = some t' ↔ (Function.update s.pc t pc' t').obj = some q
    rw [apply_update_eq Pc.obj hobj]
    exact hc.lock q f t' hf
  · exact hc.held t' q ((apply_update_eq Pc.obj hobj t').symm.trans hq)
  · exact (Function.forall_update_iff s.pc fun t' pc => ∀ q, pc.ref = some q → (t', q) ∈ s.refs).mpr
      ⟨href, fun t' _ => hc.ref t'⟩
  · exact (Function.forall_update_iff s.pc fun _ pc => ∀ q, pc.sole = some q → s.refCount q = 1).mpr
      ⟨hsole, fun t' _ => hc.sole t'⟩
  · rw [hc.loose q]
    refine exists_congr fun t' => ?_
    show _ ↔ (Function.update s.pc t pc' t').loose = some q
    rw [apply_update_eq Pc.loose hloose]
  · exact (Function.forall_update_iff s.pc fun _ pc => Place s lists pc).mpr ⟨hplace, fun t' _ => hc.place t'⟩
  · show (Function.update s.pc t pc' t₂).obj ≠ some q
    rw [apply_update_eq Pc.obj hobj]
    by_cases ht : t₁ = t
    · subst ht
      exact absurd ((Function.update_self _ _ _).symm.trans hq) (hfree q)
    · exact hc.freed t₁ t₂ q ((Function.update_of_ne ht _ _).symm.trans hq)

/-- **A thread takes or leaves the `f_lock`** of the object `fp`. -/
theorem Inv.relock (h : Inv s loose lists) (hfoo : s.heap fp = some foo) (lk : Option T)
    (hlock : ∀ t', lk = some t' ↔ (Function.update s.pc t pc' t').obj = some fp)
    (hobj : ∀ q ≠ fp, pc'.obj = some q ↔ (s.pc t).obj = some q) (hhash : pc'.hash = (s.pc t).hash)
    (hloose : pc'.loose = (s.pc t).loose) (href : ∀ q, pc'.ref = some q → (t, q) ∈ s.refs)
    (hsole : ∀ q, pc'.sole = some q → s.refCount q = 1) (hplace : Place s lists pc')
    (hfreed : ∀ t₁, Function.update s.pc t pc' t₁ = .releFree fp → lk = none)
    (hfree : ∀ q ≠ fp, pc' ≠ .releFree q) :
    Inv ((s.setFoo fp { foo with lock := lk }).goto t pc') loose lists := by
  have hc := h.control
  have hheap := setFoo_heap s fp { foo with lock := lk }
  have hid : ((s.setFoo fp { foo with lock := lk }).goto t pc').idAt = s.idAt := setFoo_idAt hfoo rfl
  have hmem := h.memory.recount hfoo { foo with lock := lk } rfl rfl (h.memory.count fp foo hfoo)
    (fun q _ => rfl) (h.memory.owned fp foo hfoo)
  -- the other objects are held as before
  have hobjs : ∀ t' q, q ≠ fp → ((Function.update s.pc t pc' t').obj = some q ↔ (s.pc t').obj = some q) := by
    intro t' q hq
    by_cases ht : t' = t
    · subst ht
      rw [Function.update_self]
      exact hobj q hq
    · rw [Function.update_of_ne ht]
  refine ⟨⟨hmem.family, hmem.home, hmem.count, hmem.alive, hmem.owned⟩, fun t' => ?_, fun q f t' hf => ?_,
    fun t' q hq => ?_, ?_, ?_, fun q => ?_, ?_, fun t₁ t₂ q hq => ?_⟩
  · show s.hashlock = some t' ↔ (Function.update s.pc t pc' t').hash = true
    rw [apply_update_eq Pc.hash hhash]
    exact hc.hash t'
  · have hf' : (if q = fp then some { foo with lock := lk } else s.heap q) = some f := (hheap q).symm.trans hf
    show f.lock = some t' ↔ (Function.update s.pc t pc' t').obj = some q
    by_cases hqf : q = fp
    · rw [if_pos hqf] at hf'
      rw [← Option.some.inj hf', hqf]
      exact hlock t'
    · rw [if_neg hqf] at hf'
      rw [hobjs t' q hqf]
      exact hc.lock q f t' hf'
  · show ∃ f, (s.setFoo fp { foo with lock := lk }).heap q = some f
    rw [hheap]
    by_cases hqf : q = fp
    · rw [if_pos hqf]
      exact ⟨_, rfl⟩
    · rw [if_neg hqf]
      exact hc.held t' q ((hobjs t' q hqf).mp hq)
  · exact (Function.forall_update_iff s.pc fun t' pc => ∀ q, pc.ref = some q → (t', q) ∈ s.refs).mpr
      ⟨href, fun t' _ => hc.ref t'⟩
  · exact (Function.forall_update_iff s.pc fun _ pc => ∀ q, pc.sole = some q → s.refCount q = 1).mpr
      ⟨hsole, fun t' _ => hc.sole t'⟩
  · rw [hc.loose q]
    refine exists_congr fun t' => ?_
    show _ ↔ (Function.update s.pc t pc' t').loose = some q
    rw [apply_update_eq Pc.loose hloose]
  · refine (Function.forall_update_iff s.pc fun _ pc => Place _ lists pc).mpr ⟨?_, fun t' _ => ?_⟩
    · exact hplace.congr fun _ c _ => congrFun hid c
    · exact (hc.place t').congr fun _ c _ => congrFun hid c
  · show (Function.update s.pc t pc' t₂).obj ≠ some q
    by_cases hqf : q = fp
    · subst hqf
      intro hobj'
      have hnone := hfreed t₁ hq
      exact absurd ((hlock t₂).mpr hobj') (by rw [hnone]; exact (Option.some_ne_none _).symm)
    · rw [Ne, hobjs t₂ q hqf]
      by_cases ht : t₁ = t
      · subst ht
        exact absurd ((Function.update_self _ _ _).symm.trans hq) (hfree q hqf)
      · exact hc.freed t₁ t₂ q ((Function.update_of_ne ht _ _).symm.trans hq)

/-- **A thread takes or gives back a reference** to `fp`. -/
theorem Inv.recount (h : Inv s loose lists) (hfoo : s.heap fp = some foo) {n : Int} {refs : List (T × Nat)}
    (hcount : n = refs.countP (·.2 = fp)) (hother : ∀ q ≠ fp, refs.countP (·.2 = q) = s.refCount q)
    (hpos : 0 < refs.countP (·.2 = fp)) (hrefs : ∀ t' ≠ t, ∀ q, (t', q) ∈ s.refs → (t', q) ∈ refs)
    (hhash : pc'.hash = (s.pc t).hash) (hobj : pc'.obj = (s.pc t).obj) (hloose : pc'.loose = (s.pc t).loose)
    (href : ∀ q, pc'.ref = some q → (t, q) ∈ refs) (hsole : pc'.sole = none)
    (hnot : ∀ t' ≠ t, (s.pc t').sole ≠ some fp) (hplace : Place s lists pc') :
    Inv ({ s.setFoo fp { foo with count := n } with refs := refs }.goto t pc') loose lists := by
  have hc := h.control
  have hheap := setFoo_heap s fp { foo with count := n }
  have hid : ({ s.setFoo fp { foo with count := n } with refs := refs }.goto t pc').idAt = s.idAt :=
    setFoo_idAt hfoo rfl
  have hmem := h.memory.recount hfoo { foo with count := n } rfl rfl hcount hother hpos
  have hfree : ∀ q, pc' ≠ .releFree q := by
    rintro q rfl
    exact absurd hsole (by simp [Pc.sole, Pc.loose])
  refine ⟨⟨hmem.family, hmem.home, hmem.count, hmem.alive, hmem.owned⟩, fun t' => ?_, fun q f t' hf => ?_,
    fun t' q hq => ?_, ?_, ?_, fun q => ?_, ?_, fun t₁ t₂ q hq => ?_⟩
  · show s.hashlock = some t' ↔ (Function.update s.pc t pc' t').hash = true
    rw [apply_update_eq Pc.hash hhash]
    exact hc.hash t'
  · have hf' : (if q = fp then some { foo with count := n } else s.heap q) = some f := (hheap q).symm.trans hf
    show f.lock = some t' ↔ (Function.update s.pc t pc' t').obj = some q
    rw [apply_update_eq Pc.obj hobj]
    by_cases hqf : q = fp
    · rw [if_pos hqf] at hf'
      rw [← Option.some.inj hf', hqf]
      exact hc.lock fp foo t' hfoo
    · rw [if_neg hqf] at hf'
      exact hc.lock q f t' hf'
  · show ∃ f, (s.setFoo fp { foo with count := n }).heap q = some f
    rw [hheap]
    by_cases hqf : q = fp
    · rw [if_pos hqf]
      exact ⟨_, rfl⟩
    · rw [if_neg hqf]
      exact hc.held t' q ((apply_update_eq Pc.obj hobj t').symm.trans hq)
  · exact (Function.forall_update_iff s.pc fun t' pc => ∀ q, pc.ref = some q → (t', q) ∈ refs).mpr
      ⟨href, fun t' ht' q hq => hrefs t' ht' q (hc.ref t' q hq)⟩
  · refine (Function.forall_update_iff s.pc fun _ pc => ∀ q, pc.sole = some q → refs.countP (·.2 = q) = 1).mpr
      ⟨fun q hq => ?_, fun t' ht' q hq => ?_⟩
    · exact absurd (hsole.symm.trans hq).symm (Option.some_ne_none q)
    · have hqf : q ≠ fp := by
        rintro rfl
        exact hnot t' ht' hq
      rw [hother q hqf]
      exact hc.sole t' q hq
  · rw [hc.loose q]
    refine exists_congr fun t' => ?_
    show _ ↔ (Function.update s.pc t pc' t').loose = some q
    rw [apply_update_eq Pc.loose hloose]
  · refine (Function.forall_update_iff s.pc fun _ pc => Place _ lists pc).mpr ⟨?_, fun t' _ => ?_⟩
    · exact hplace.congr fun _ c _ => congrFun hid c
    · exact (hc.place t').congr fun _ c _ => congrFun hid c
  · show (Function.update s.pc t pc' t₂).obj ≠ some q
    rw [apply_update_eq Pc.obj hobj]
    by_cases ht : t₁ = t
    · subst ht
      exact absurd ((Function.update_self _ _ _).symm.trans hq) (hfree q)
    · exact hc.freed t₁ t₂ q ((Function.update_of_ne ht _ _).symm.trans hq)

/-- A reference more. -/
theorem Inv.increment (h : Inv s loose lists) (hfoo : s.heap fp = some foo) (hhash : pc'.hash = (s.pc t).hash)
    (hobj : pc'.obj = (s.pc t).obj) (hloose : pc'.loose = (s.pc t).loose)
    (href : ∀ q, pc'.ref = some q → (t, q) ∈ (t, fp) :: s.refs) (hsole : pc'.sole = none)
    (hnot : ∀ t' ≠ t, (s.pc t').sole ≠ some fp) (hplace : Place s lists pc') :
    Inv ({ s.setFoo fp { foo with count := foo.count + 1 } with refs := (t, fp) :: s.refs }.goto t pc')
      loose lists := by
  refine h.recount hfoo ?_ (fun q hq => ?_) ?_ (fun t' _ q hq => List.mem_cons_of_mem _ hq) hhash hobj hloose href
    hsole hnot hplace
  · rw [h.memory.count fp foo hfoo, List.countP_cons_of_pos (by simp)]
    rfl
  · rw [List.countP_cons_of_neg (by simpa using fun heq : fp = q => hq heq.symm)]
    rfl
  · rw [List.countP_cons_of_pos (by simp)]
    exact Nat.succ_pos _

/-- A reference less, which was not the last one. -/
theorem Inv.decrement (h : Inv s loose lists) (hfoo : s.heap fp = some foo) (hmem : (t, fp) ∈ s.refs)
    (hne : foo.count ≠ 1) (hhash : pc'.hash = (s.pc t).hash)
    (hobj : pc'.obj = (s.pc t).obj) (hloose : pc'.loose = (s.pc t).loose) (href : pc'.ref = none)
    (hsole : pc'.sole = none) (hplace : Place s lists pc') :
    Inv ({ s.setFoo fp { foo with count := foo.count - 1 } with refs := s.refs.erase (t, fp) }.goto t pc')
      loose lists := by
  have hcount := h.memory.count fp foo hfoo
  have hpos := h.memory.owned fp foo hfoo
  have hperm := List.perm_cons_erase hmem
  have hthis : s.refCount fp = (s.refs.erase (t, fp)).countP (·.2 = fp) + 1 := by
    unfold State.refCount
    rw [hperm.countP_eq, List.countP_cons_of_pos (by simp)]
  refine h.recount hfoo ?_ (fun q hq => ?_) ?_ (fun t' ht' q hq => ?_) hhash hobj hloose ?_ hsole
    (fun t' ht' hs => ?_) hplace
  · rw [hcount, hthis]
    omega
  · unfold State.refCount
    rw [hperm.countP_eq, List.countP_cons_of_neg (by simpa using fun heq : fp = q => hq heq.symm)]
  · omega
  · exact (List.mem_erase_of_ne fun heq => ht' (Prod.mk.inj heq).1).mpr hq
  · exact fun q hq => absurd (href.symm.trans hq).symm (Option.some_ne_none q)
  · exact ht' (h.sole_unique hs hmem).symm

end FooHash
