import ApueToyCodes.FooHash.Correctness.Locks

/-!
# `FooHash.Correctness.Lists` — steps that change the lists or the objects

An object is made (`Inv.alloc`), put on its list (`Inv.insert`), taken off (`Inv.unlink`) and freed
(`Inv.free`). The two in the middle are made by the thread that holds `hashlock`, so no other one is on its way
along a list.
-/

namespace FooHash
open Links

variable {T : Type} [DecidableEq T] {s s' : State T} {loose loose' : List Cell}
  {lists lists' : Fin nhash → List Cell} {t : T} {fp tfp : Nat} {pc' : Pc} {foo tfoo : Foo T}

/-- What an object is apart from its place on a list. -/
def Foo.core (foo : Foo T) : Int × Option T × Int := (foo.count, foo.lock, foo.id)

theorem Inv.relist (h : Inv s loose lists) (hheap : ∀ q, (s'.heap q).map Foo.core = (s.heap q).map Foo.core)
    (hlk : s'.hashlock = s.hashlock) (hrefs : s'.refs = s.refs) (hpc : s'.pc = Function.update s.pc t pc')
    (hfamily : Family s'.link (.inr 0) .inl s.IsObj loose' lists')
    (hhome : ∀ i c id, c ∈ lists' i → s.idAt c = some id → hash id = i) (hhash : (s.pc t).hash = true)
    (hhash' : pc'.hash = true) (hobj : pc'.obj = (s.pc t).obj) (href : ∀ q, pc'.ref = some q → (t, q) ∈ s.refs)
    (hsole : ∀ q, pc'.sole = some q → s.refCount q = 1)
    (hloose : ∀ q, .inr q ∈ loose' ↔ ∃ t', (Function.update s.pc t pc' t').loose = some q)
    (hplace : ∀ lists'' : Fin nhash → List Cell, ∀ s'' : State T, Place s'' lists'' pc') :
    Inv s' loose' lists' := by
  have hc := h.control
  have hm := h.memory
  have hfind : ∀ {q f}, s'.heap q = some f → ∃ f₀, s.heap q = some f₀ ∧ f₀.core = f.core := by
    intro q f hf
    have heq := hheap q
    rw [hf] at heq
    exact Option.map_eq_some_iff.mp heq.symm
  have hfind' : ∀ {q f₀}, s.heap q = some f₀ → ∃ f, s'.heap q = some f := by
    intro q f₀ hf
    have heq := hheap q
    rw [hf] at heq
    obtain ⟨f, hf', -⟩ := Option.map_eq_some_iff.mp heq
    exact ⟨f, hf'⟩
  have hisObj : s'.IsObj = s.IsObj := by
    funext c
    refine propext ⟨?_, ?_⟩
    · rintro ⟨q, f, rfl, hf⟩
      obtain ⟨f₀, hf₀, -⟩ := hfind hf
      exact ⟨q, f₀, rfl, hf₀⟩
    · rintro ⟨q, f, rfl, hf⟩
      obtain ⟨f', hf'⟩ := hfind' hf
      exact ⟨q, f', rfl, hf'⟩
  have hidAt : s'.idAt = s.idAt := by
    funext c
    cases c with
    | inl i => rfl
    | inr q =>
        show (s'.heap q).map Foo.id = (s.heap q).map Foo.id
        have heq := congrArg (Option.map fun c : Int × Option T × Int => c.2.2) (hheap q)
        rw [Option.map_map, Option.map_map] at heq
        exact heq
  have hcount : ∀ q, s'.refCount q = s.refCount q := fun q => by unfold State.refCount; rw [hrefs]
  have hfree : ∀ q, pc' ≠ .releFree q := by
    rintro q rfl
    exact absurd hhash' (by simp [Pc.hash])
  refine ⟨⟨?_, ?_, fun q f hf => ?_, fun t' q hq => ?_, fun q f hf => ?_⟩, ⟨fun t' => ?_, fun q f t' hf => ?_,
    fun t' q hq => ?_, fun t' q hq => ?_, fun t' q hq => ?_, fun q => ?_, fun t' => ?_, fun t₁ t₂ q hq => ?_⟩⟩
  · rw [hisObj]
    exact hfamily
  · rw [hidAt]
    exact hhome
  · obtain ⟨f₀, hf₀, hcore⟩ := hfind hf
    rw [hcount, ← hm.count q f₀ hf₀]
    exact (congrArg Prod.fst hcore).symm
  · rw [hrefs] at hq
    obtain ⟨f₀, hf₀⟩ := hm.alive t' q hq
    exact hfind' hf₀
  · obtain ⟨f₀, hf₀, -⟩ := hfind hf
    rw [hcount]
    exact hm.owned q f₀ hf₀
  · rw [hlk, hpc, hc.hash t', apply_update_eq Pc.hash (hhash'.trans hhash.symm)]
  · obtain ⟨f₀, hf₀, hcore⟩ := hfind hf
    have hlock : f₀.lock = f.lock := congrArg (fun c => c.2.1) hcore
    rw [← hlock, hc.lock q f₀ t' hf₀, hpc, apply_update_eq Pc.obj hobj]
  · rw [hpc, apply_update_eq Pc.obj hobj] at hq
    obtain ⟨f₀, hf₀⟩ := hc.held t' q hq
    exact hfind' hf₀
  · rw [hrefs]
    rw [hpc] at hq
    by_cases ht : t' = t
    · rw [ht, Function.update_self] at hq
      rw [ht]
      exact href q hq
    · rw [Function.update_of_ne ht] at hq
      exact hc.ref t' q hq
  · rw [hcount]
    rw [hpc] at hq
    by_cases ht : t' = t
    · rw [ht, Function.update_self] at hq
      exact hsole q hq
    · rw [Function.update_of_ne ht] at hq
      exact hc.sole t' q hq
  · rw [hpc]
    exact hloose q
  · rw [hpc]
    by_cases ht : t' = t
    · rw [ht, Function.update_self]
      exact hplace _ _
    · -- nobody else walks along a list
      rw [Function.update_of_ne ht]
      refine place_of_not_hash (Bool.eq_false_iff.mpr fun hh => ?_)
      exact ht (h.hash_unique hh hhash)
  · rw [hpc] at hq ⊢
    rw [apply_update_eq Pc.obj hobj]
    by_cases ht : t₁ = t
    · rw [ht, Function.update_self] at hq
      exact absurd hq (hfree q)
    · rw [Function.update_of_ne ht] at hq
      exact hc.freed t₁ t₂ q hq

/-- A thread has its object loose no more. -/
theorem Inv.loose_removed (h : Inv s loose lists) (hloose : (s.pc t).loose = some fp) (hpc' : pc'.loose = none)
    (hperm : loose.Perm (.inr fp :: loose')) (q : Nat) :
    .inr q ∈ loose' ↔ ∃ t', (Function.update s.pc t pc' t').loose = some q := by
  have hnodup := List.nodup_cons.mp (hperm.nodup_iff.mp h.memory.family.once)
  constructor
  · intro hq
    obtain ⟨t', ht'⟩ := (h.control.loose q).mp (hperm.mem_iff.mpr (List.mem_cons_of_mem _ hq))
    refine ⟨t', ?_⟩
    rw [Function.update_of_ne]
    · exact ht'
    · rintro rfl
      rw [Option.some.inj (ht'.symm.trans hloose)] at hq
      exact hnodup.1 hq
  · rintro ⟨t', ht'⟩
    by_cases ht : t' = t
    · rw [ht, Function.update_self, hpc'] at ht'
      exact absurd ht'.symm (Option.some_ne_none q)
    · rw [Function.update_of_ne ht] at ht'
      rcases List.mem_cons.mp (hperm.mem_iff.mp ((h.control.loose q).mpr ⟨t', ht'⟩)) with heq | hq
      · obtain rfl := Sum.inr.inj heq
        have href := h.control.ref t' q (Pc.ref_of_sole (Pc.sole_of_loose ht'))
        exact absurd (h.sole_unique (Pc.sole_of_loose hloose) href) ht
      · exact hq

/-- **The object put in front of its list.** -/
theorem Inv.insert (h : Inv s loose lists) (hpc : s.pc t = .allocInsert fp) (hfoo : s.heap fp = some foo) :
    ∃ loose' lists', Inv (({ s.setFoo fp { foo with next := s.fh (hash foo.id) } with
      fh := Function.update s.fh (hash foo.id) fp }).goto t (.allocObj fp)) loose' lists' := by
  have hloose : (s.pc t).loose = some fp := by rw [hpc]; rfl
  obtain ⟨a, b, hab⟩ := List.append_of_mem ((h.control.loose fp).mpr ⟨t, hloose⟩)
  have hperm : loose.Perm (.inr fp :: (a ++ b)) := by
    rw [hab]
    exact List.perm_middle
  have hheap := setFoo_heap s fp { foo with next := s.fh (hash foo.id) }
  let s' := ({ s.setFoo fp { foo with next := s.fh (hash foo.id) } with
    fh := Function.update s.fh (hash foo.id) fp }).goto t (.allocObj fp)
  have hlink : ∀ q, s'.link (.inr q) = if q = fp then .inr (s.fh (hash foo.id)) else s.link (.inr q) := by
    intro q
    show Sum.inr (((s.setFoo fp { foo with next := s.fh (hash foo.id) }).heap q).elim 0 Foo.next) = _
    rw [hheap]
    by_cases hq : q = fp
    · rw [if_pos hq, if_pos hq]
      rfl
    · rw [if_neg hq, if_neg hq]
      rfl
  have hfamily : Family s'.link (.inr 0) .inl s.IsObj (a ++ b)
      (Function.update lists (hash foo.id) (.inr fp :: lists (hash foo.id))) := by
    refine (h.memory.family.perm hperm).push ?_ ?_ fun c hcell hne hnefp => ?_
    · exact congrArg Sum.inr (Function.update_self _ _ _)
    · rw [hlink, if_pos rfl]
      rfl
    · cases c with
      | inl i => exact congrArg Sum.inr (Function.update_of_ne (fun heq => hne (congrArg Sum.inl heq)) _ _)
      | inr q => rw [hlink, if_neg fun heq => hnefp (congrArg Sum.inr heq)]
  refine ⟨a ++ b, _, h.relist (fun q => ?_) rfl rfl rfl hfamily (fun i c id hmem hid => ?_) ?_ rfl ?_ (fun q hq => ?_)
    (fun q hq => ?_) (h.loose_removed hloose rfl hperm) fun _ _ => trivial⟩
  · show ((s.setFoo fp { foo with next := s.fh (hash foo.id) }).heap q).map Foo.core = _
    rw [hheap]
    by_cases hq : q = fp
    · rw [if_pos hq, hq, hfoo]
      rfl
    · rw [if_neg hq]
  · by_cases hi : i = hash foo.id
    · rw [hi, Function.update_self] at hmem
      rcases List.mem_cons.mp hmem with rfl | hmem
      · rw [idAt_eq hfoo] at hid
        rw [← Option.some.inj hid, hi]
      · rw [hi]
        exact h.memory.home _ c id hmem hid
    · rw [Function.update_of_ne hi] at hmem
      exact h.memory.home i c id hmem hid
  · rw [hpc]; rfl
  · rw [hpc]; rfl
  · refine h.control.ref t q ?_
    rw [hpc]
    exact hq
  · exact absurd hq.symm (Option.some_ne_none q)

/-- **The object taken off its list.** The cell before it, `c`, has its pointer afterwards. -/
theorem Inv.unlink (h : Inv s loose lists) (hheap : ∀ q, (s'.heap q).map Foo.core = (s.heap q).map Foo.core)
    (hlk : s'.hashlock = s.hashlock) (hrefs : s'.refs = s.refs)
    (hpc : s'.pc = Function.update s.pc t (.releRemoved fp)) (hhash : (s.pc t).hash = true)
    (hobj : (s.pc t).obj = some fp) (href : (t, fp) ∈ s.refs) (hsole : s.refCount fp = 1)
    (hloose : (s.pc t).loose = none) (hfoo : s.heap fp = some foo) {l₁ l₂ : List Cell}
    (hlist : lists (hash foo.id) = l₁ ++ .inr fp :: l₂)
    (hcell : s'.link (before (.inl (hash foo.id)) l₁) = .inr foo.next)
    (hother : ∀ c, c ≠ before (.inl (hash foo.id)) l₁ → s'.link c = s.link c) :
    ∃ loose' lists', Inv s' loose' lists' := by
  have hnext : s.link (.inr fp) = .inr foo.next := by
    show Sum.inr ((s.heap fp).elim 0 Foo.next) = _
    rw [hfoo]
    rfl
  have hfamily := h.memory.family.unlink hlist (hcell.trans hnext.symm) fun c _ hne => hother c hne
  refine ⟨_, _, h.relist hheap hlk hrefs hpc hfamily (fun i c id hmem hid => ?_) hhash rfl hobj.symm
    (fun q hq => ?_) (fun q hq => ?_) (fun q => ?_) fun _ _ => trivial⟩
  · by_cases hi : i = hash foo.id
    · rw [hi, Function.update_self] at hmem
      rw [hi]
      refine h.memory.home _ c id ?_ hid
      rw [hlist]
      exact ((List.sublist_cons_self _ l₂).append_left l₁).subset hmem
    · rw [Function.update_of_ne hi] at hmem
      exact h.memory.home i c id hmem hid
  · rw [← Option.some.inj hq]
    exact href
  · rw [← Option.some.inj hq]
    exact hsole
  · rw [List.mem_cons, h.control.loose q]
    constructor
    · rintro (heq | ⟨t', ht'⟩)
      · rw [Sum.inr.inj heq]
        exact ⟨t, by rw [Function.update_self]; rfl⟩
      · refine ⟨t', ?_⟩
        rw [Function.update_of_ne]
        · exact ht'
        · rintro rfl
          exact absurd (hloose.symm.trans ht').symm (Option.some_ne_none q)
    · rintro ⟨t', ht'⟩
      by_cases ht : t' = t
      · rw [ht, Function.update_self] at ht'
        exact Or.inl (congrArg Sum.inr (Option.some.inj ht').symm)
      · rw [Function.update_of_ne ht] at ht'
        exact Or.inr ⟨t', ht'⟩

/-- **A new object.** -/
theorem Inv.alloc (h : Inv s loose lists) (hpc : s.pc t = .idle) (hne : fp ≠ 0) (hfree : s.heap fp = none)
    (id : Int) (garbage : Nat) :
    ∃ loose' lists', Inv ({ s.setFoo fp { count := 1, lock := none, id := id, next := garbage } with
      refs := (t, fp) :: s.refs }.goto t (.allocHash fp)) loose' lists' := by
  have hm := h.memory
  have hc := h.control
  let foo : Foo T := { count := 1, lock := none, id := id, next := garbage }
  let s' := { s.setFoo fp foo with refs := (t, fp) :: s.refs }.goto t (.allocHash fp)
  have hheap : ∀ q, s'.heap q = if q = fp then some foo else s.heap q := setFoo_heap s fp foo
  have hpc' : s'.pc = Function.update s.pc t (.allocHash fp) := rfl
  -- nobody knows the address
  have hnoref : ∀ t', (t', fp) ∉ s.refs := fun t' hmem => by
    obtain ⟨f, hf⟩ := hm.alive t' fp hmem
    exact absurd (hfree.symm.trans hf).symm (Option.some_ne_none f)
  have hnoobj : ∀ {c}, s.IsObj c → c ≠ .inr fp := by
    rintro c ⟨q, f, rfl, hf⟩ heq
    rw [Sum.inr.inj heq, hfree] at hf
    exact absurd hf.symm (Option.some_ne_none f)
  have hnolist : ∀ {i c}, c ∈ lists i → c ≠ .inr fp := fun hmem => hnoobj (hm.family.record_of_mem hmem)
  have hcount : ∀ q ≠ fp, s'.refCount q = s.refCount q := fun q hq =>
    List.countP_cons_of_neg (by simpa using fun heq : fp = q => hq heq.symm)
  have hcountfp : s'.refCount fp = 1 := by
    have hzero : s.refCount fp = 0 := Nat.eq_zero_of_not_pos fun hpos =>
      (refCount_pos.mp hpos).elim hnoref
    show ((t, fp) :: s.refs).countP (·.2 = fp) = 1
    rw [List.countP_cons_of_pos (by simp)]
    exact congrArg (· + 1) hzero
  have hobj : (Pc.allocHash fp).obj = (s.pc t).obj := by rw [hpc]; rfl
  have hhash : (Pc.allocHash fp).hash = (s.pc t).hash := by rw [hpc]; rfl
  have hloose : (s.pc t).loose = none := by rw [hpc]; rfl
  have hidAt : ∀ c, c ≠ .inr fp → s'.idAt c = s.idAt c := by
    intro c hcfp
    cases c with
    | inl i => rfl
    | inr q =>
        show (s'.heap q).map Foo.id = _
        rw [hheap, if_neg fun heq => hcfp (congrArg Sum.inr heq)]
        rfl
  have hfamily : Family s'.link (.inr 0) .inl s'.IsObj (.inr fp :: loose) lists := by
    refine hm.family.grow (fun hobj => hnoobj hobj rfl) (fun c => ?_) ⟨fun heq => hne (Sum.inr.inj heq), fun i => ?_⟩
      fun c hcell => ?_
    · constructor
      · rintro ⟨q, f, rfl, hf⟩
        by_cases hq : q = fp
        · exact Or.inl (congrArg Sum.inr hq)
        · rw [hheap, if_neg hq] at hf
          exact Or.inr ⟨q, f, rfl, hf⟩
      · rintro (rfl | ⟨q, f, rfl, hf⟩)
        · exact ⟨fp, foo, rfl, by rw [hheap, if_pos rfl]⟩
        · refine ⟨q, f, rfl, ?_⟩
          rw [hheap, if_neg fun heq => hnoobj ⟨q, f, rfl, hf⟩ (congrArg Sum.inr heq)]
          exact hf
    · exact Sum.inr_ne_inl
    · cases c with
      | inl i => rfl
      | inr q =>
          have hq : q ≠ fp := by
            rintro rfl
            rcases hcell with ⟨i, hi⟩ | hobj
            · exact absurd hi Sum.inr_ne_inl
            · exact hnoobj hobj rfl
          show Sum.inr ((s'.heap q).elim 0 Foo.next) = _
          rw [hheap, if_neg hq]
          rfl
  refine ⟨.inr fp :: loose, lists, ⟨hfamily, fun i c i' hmem hid => ?_, fun q f hf => ?_, fun t' q hmem => ?_,
    fun q f hf => ?_⟩, ⟨fun t' => ?_, fun q f t' hf => ?_, fun t' q hq => ?_, fun t' q hq => ?_, fun t' q hq => ?_,
    fun q => ?_, fun t' => ?_, fun t₁ t₂ q hq => ?_⟩⟩
  · rw [hidAt c (hnolist hmem)] at hid
    exact hm.home i c i' hmem hid
  · rw [hheap] at hf
    by_cases hq : q = fp
    · rw [if_pos hq] at hf
      rw [← Option.some.inj hf, hq, hcountfp]
      rfl
    · rw [if_neg hq] at hf
      rw [hcount q hq]
      exact hm.count q f hf
  · rw [hheap]
    by_cases hq : q = fp
    · rw [if_pos hq]
      exact ⟨foo, rfl⟩
    · rw [if_neg hq]
      refine hm.alive t' q ((List.mem_cons.mp hmem).resolve_left fun heq => hq (Prod.mk.inj heq).2)
  · by_cases hq : q = fp
    · rw [hq, hcountfp]
      exact Nat.one_pos
    · rw [hheap, if_neg hq] at hf
      rw [hcount q hq]
      exact hm.owned q f hf
  · rw [hpc', apply_update_eq Pc.hash hhash]
    exact hc.hash t'
  · rw [hpc', apply_update_eq Pc.obj hobj]
    rw [hheap] at hf
    by_cases hq : q = fp
    · rw [if_pos hq] at hf
      rw [← Option.some.inj hf, hq]
      refine ⟨fun heq => absurd heq.symm (Option.some_ne_none t'), fun heq => ?_⟩
      obtain ⟨f', hf'⟩ := hc.held t' fp heq
      exact absurd (hfree.symm.trans hf').symm (Option.some_ne_none f')
    · rw [if_neg hq] at hf
      exact hc.lock q f t' hf
  · rw [hpc', apply_update_eq Pc.obj hobj] at hq
    obtain ⟨f, hf⟩ := hc.held t' q hq
    refine ⟨f, ?_⟩
    rw [hheap, if_neg fun heq : q = fp => absurd (hfree.symm.trans (heq ▸ hf)).symm (Option.some_ne_none f)]
    exact hf
  · show (t', q) ∈ (t, fp) :: s.refs
    rw [hpc'] at hq
    by_cases ht : t' = t
    · rw [ht, Function.update_self] at hq
      rw [ht, ← Option.some.inj hq]
      exact List.mem_cons_self
    · rw [Function.update_of_ne ht] at hq
      exact List.mem_cons_of_mem _ (hc.ref t' q hq)
  · rw [hpc'] at hq
    by_cases ht : t' = t
    · rw [ht, Function.update_self] at hq
      rw [← Option.some.inj hq]
      exact hcountfp
    · rw [Function.update_of_ne ht] at hq
      rw [hcount q]
      · exact hc.sole t' q hq
      · rintro rfl
        exact hnoref t' (hc.ref t' q (Pc.ref_of_sole hq))
  · rw [hpc', List.mem_cons, hc.loose q]
    constructor
    · rintro (heq | ⟨t', ht'⟩)
      · rw [Sum.inr.inj heq]
        exact ⟨t, by rw [Function.update_self]; rfl⟩
      · refine ⟨t', ?_⟩
        rw [Function.update_of_ne]
        · exact ht'
        · rintro rfl
          exact absurd (hloose.symm.trans ht').symm (Option.some_ne_none q)
    · rintro ⟨t', ht'⟩
      by_cases ht : t' = t
      · rw [ht, Function.update_self] at ht'
        exact Or.inl (congrArg Sum.inr (Option.some.inj ht').symm)
      · rw [Function.update_of_ne ht] at ht'
        exact Or.inr ⟨t', ht'⟩
  · rw [hpc']
    by_cases ht : t' = t
    · rw [ht, Function.update_self]
      trivial
    · rw [Function.update_of_ne ht]
      exact (hc.place t').congr fun i c hmem => hidAt c (hnolist hmem)
  · rw [hpc'] at hq ⊢
    rw [apply_update_eq Pc.obj hobj]
    by_cases ht : t₁ = t
    · rw [ht, Function.update_self] at hq
      exact absurd hq (by simp)
    · rw [Function.update_of_ne ht] at hq
      exact hc.freed t₁ t₂ q hq

/-- **The object freed**, with the last reference. -/
theorem Inv.free (h : Inv s loose lists) (hpc : s.pc t = .releFree fp) :
    ∃ loose' lists', Inv ({ s with
      heap := Function.update s.heap fp none, refs := s.refs.erase (t, fp) }.goto t .idle) loose' lists' := by
  have hm := h.memory
  have hc := h.control
  let s' := { s with heap := Function.update s.heap fp none, refs := s.refs.erase (t, fp) }.goto t .idle
  have hheap : ∀ q, s'.heap q = if q = fp then none else s.heap q := fun q => Function.update_apply _ _ _ _
  have hpc' : s'.pc = Function.update s.pc t .idle := rfl
  have hobj : Pc.idle.obj = (s.pc t).obj := by rw [hpc]; rfl
  have hhash : Pc.idle.hash = (s.pc t).hash := by rw [hpc]; rfl
  have hloose : (s.pc t).loose = some fp := by rw [hpc]; rfl
  have hsole := Pc.sole_of_loose hloose
  have hmine : (t, fp) ∈ s.refs := hc.ref t fp (Pc.ref_of_sole hsole)
  have hperm := List.perm_cons_erase hmine
  obtain ⟨a, b, hab⟩ := List.append_of_mem ((hc.loose fp).mpr ⟨t, hloose⟩)
  have hpermloose : loose.Perm (.inr fp :: (a ++ b)) := by
    rw [hab]
    exact List.perm_middle
  have hnolist : ∀ {i c}, c ∈ lists i → c ≠ .inr fp := fun hmem heq => h.not_loose (heq ▸ hmem) t hloose
  -- the references to other objects stay
  have hcount : ∀ q ≠ fp, s'.refCount q = s.refCount q := by
    intro q hq
    unfold State.refCount
    rw [hperm.countP_eq, List.countP_cons_of_neg (by simpa using fun heq : fp = q => hq heq.symm)]
    rfl
  have hcountfp : s'.refCount fp = 0 := by
    have hone := hc.sole t fp hsole
    unfold State.refCount at hone
    rw [hperm.countP_eq, List.countP_cons_of_pos (by simp)] at hone
    exact Nat.succ.inj hone
  have hnoref : ∀ t', (t', fp) ∉ s.refs.erase (t, fp) := fun t' hmem =>
    absurd (refCount_pos (s := s').mpr ⟨t', hmem⟩) (by rw [hcountfp]; exact Nat.lt_irrefl 0)
  have hkept : ∀ t' q, t' ≠ t → (t', q) ∈ s.refs → (t', q) ∈ s.refs.erase (t, fp) := fun t' q ht hmem =>
    (List.mem_erase_of_ne fun heq => ht (Prod.mk.inj heq).1).mpr hmem
  have hidAt : ∀ c, c ≠ .inr fp → s'.idAt c = s.idAt c := by
    intro c hcfp
    cases c with
    | inl i => rfl
    | inr q =>
        show (s'.heap q).map Foo.id = _
        rw [hheap, if_neg fun heq => hcfp (congrArg Sum.inr heq)]
        rfl
  have hfamily : Family s'.link (.inr 0) .inl s'.IsObj (a ++ b) lists := by
    refine (hm.family.perm hpermloose).drop (fun c => ?_) fun c hcfp => ?_
    · constructor
      · rintro ⟨q, f, rfl, hf⟩
        rw [hheap] at hf
        by_cases hq : q = fp
        · rw [if_pos hq] at hf
          exact absurd hf.symm (Option.some_ne_none f)
        · rw [if_neg hq] at hf
          exact ⟨⟨q, f, rfl, hf⟩, fun heq => hq (Sum.inr.inj heq)⟩
      · rintro ⟨⟨q, f, rfl, hf⟩, hne⟩
        refine ⟨q, f, rfl, ?_⟩
        rw [hheap, if_neg fun heq => hne (congrArg Sum.inr heq)]
        exact hf
    · cases c with
      | inl i => rfl
      | inr q =>
          show Sum.inr ((s'.heap q).elim 0 Foo.next) = _
          rw [hheap, if_neg fun heq => hcfp (congrArg Sum.inr heq)]
          rfl
  refine ⟨a ++ b, lists, ⟨hfamily, fun i c id hmem hid => ?_, fun q f hf => ?_, fun t' q hmem => ?_,
    fun q f hf => ?_⟩, ⟨fun t' => ?_, fun q f t' hf => ?_, fun t' q hq => ?_, fun t' q hq => ?_, fun t' q hq => ?_,
    h.loose_removed hloose rfl hpermloose, fun t' => ?_, fun t₁ t₂ q hq => ?_⟩⟩
  · rw [hidAt c (hnolist hmem)] at hid
    exact hm.home i c id hmem hid
  · rw [hheap] at hf
    by_cases hq : q = fp
    · rw [if_pos hq] at hf
      exact absurd hf.symm (Option.some_ne_none f)
    · rw [if_neg hq] at hf
      rw [hcount q hq]
      exact hm.count q f hf
  · have hq : q ≠ fp := by
      rintro rfl
      exact hnoref t' hmem
    rw [hheap, if_neg hq]
    exact hm.alive t' q (List.mem_of_mem_erase hmem)
  · rw [hheap] at hf
    by_cases hq : q = fp
    · rw [if_pos hq] at hf
      exact absurd hf.symm (Option.some_ne_none f)
    · rw [if_neg hq] at hf
      rw [hcount q hq]
      exact hm.owned q f hf
  · rw [hpc', apply_update_eq Pc.hash hhash]
    exact hc.hash t'
  · rw [hpc', apply_update_eq Pc.obj hobj]
    rw [hheap] at hf
    by_cases hq : q = fp
    · rw [if_pos hq] at hf
      exact absurd hf.symm (Option.some_ne_none f)
    · rw [if_neg hq] at hf
      exact hc.lock q f t' hf
  · rw [hpc', apply_update_eq Pc.obj hobj] at hq
    have hne : q ≠ fp := by
      rintro rfl
      exact hc.freed t t' q hpc hq
    rw [hheap, if_neg hne]
    exact hc.held t' q hq
  · rw [hpc'] at hq
    by_cases ht : t' = t
    · rw [ht, Function.update_self] at hq
      exact absurd hq.symm (Option.some_ne_none q)
    · rw [Function.update_of_ne ht] at hq
      exact hkept t' q ht (hc.ref t' q hq)
  · rw [hpc'] at hq
    by_cases ht : t' = t
    · rw [ht, Function.update_self] at hq
      exact absurd hq.symm (Option.some_ne_none q)
    · rw [Function.update_of_ne ht] at hq
      rw [hcount q]
      · exact hc.sole t' q hq
      · rintro rfl
        exact ht (h.sole_unique hsole (hc.ref t' q (Pc.ref_of_sole hq)))
  · rw [hpc']
    by_cases ht : t' = t
    · rw [ht, Function.update_self]
      trivial
    · rw [Function.update_of_ne ht]
      exact (hc.place t').congr fun i c hmem => hidAt c (hnolist hmem)
  · rw [hpc'] at hq ⊢
    rw [apply_update_eq Pc.obj hobj]
    by_cases ht : t₁ = t
    · rw [ht, Function.update_self] at hq
      exact absurd hq (by simp)
    · rw [Function.update_of_ne ht] at hq
      exact hc.freed t₁ t₂ q hq

/-- **A reference handed over.** -/
theorem Inv.give (h : Inv s loose lists) (hpc : s.pc t = .idle) (hmine : (t, fp) ∈ s.refs) (t' : T) :
    Inv { s with refs := (t', fp) :: s.refs.erase (t, fp) } loose lists := by
  have hm := h.memory
  have hc := h.control
  have hperm := List.perm_cons_erase hmine
  have hcount : ∀ q, ((t', fp) :: s.refs.erase (t, fp)).countP (·.2 = q) = s.refCount q := by
    intro q
    unfold State.refCount
    rw [hperm.countP_eq, List.countP_cons, List.countP_cons]
  refine ⟨⟨hm.family, hm.home, fun q f hf => ?_, fun t₁ q hmem => ?_, fun q f hf => ?_⟩,
    ⟨hc.hash, hc.lock, hc.held, fun t₁ q hq => ?_, fun t₁ q hq => ?_, hc.loose, hc.place, hc.freed⟩⟩
  · show f.count = (((t', fp) :: s.refs.erase (t, fp)).countP (·.2 = q) : Nat)
    rw [hcount]
    exact hm.count q f hf
  · rcases List.mem_cons.mp hmem with heq | hmem
    · rw [(Prod.mk.inj heq).2]
      exact hm.alive t fp hmine
    · exact hm.alive t₁ q (List.mem_of_mem_erase hmem)
  · show 0 < ((t', fp) :: s.refs.erase (t, fp)).countP (·.2 = q)
    rw [hcount]
    exact hm.owned q f hf
  · have ht : t₁ ≠ t := by
      rintro rfl
      rw [hpc] at hq
      exact absurd hq.symm (Option.some_ne_none q)
    exact List.mem_cons_of_mem _ ((List.mem_erase_of_ne fun heq => ht (Prod.mk.inj heq).1).mpr (hc.ref t₁ q hq))
  · show ((t', fp) :: s.refs.erase (t, fp)).countP (·.2 = q) = 1
    rw [hcount]
    exact hc.sole t₁ q hq

end FooHash
