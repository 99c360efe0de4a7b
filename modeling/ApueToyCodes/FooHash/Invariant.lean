import ApueToyCodes.FooHash.Objects
import ApueToyCodes.Lib.Links

/-!
# `FooHash.Invariant` — what holds between any two steps

The hash table is a family of linked lists; `fh[i]` and `fp->f_next` are its cells. `Memory` is about the objects:
each is on its list or `loose`, and counts its references. `Control` is about the threads: which locks each
holds at its place, which reference it goes on, and whose reference is the only one. An object is loose from
`foo_alloc`'s `malloc` to its insertion, and from its removal in `foo_rele` to its `free`.
-/

namespace FooHash
open Links

variable {T : Type}

/-- `fh[i]`, or `fp->f_next`. -/
abbrev Cell : Type := Fin nhash ⊕ Nat

def State.link (s : State T) : Cell → Cell
  | .inl i => .inr (s.fh i)
  | .inr fp => .inr ((s.heap fp).elim 0 Foo.next)

/-- An object in use. -/
def State.IsObj (s : State T) (c : Cell) : Prop := ∃ fp foo, c = .inr fp ∧ s.heap fp = some foo

def State.idAt (s : State T) : Cell → Option Int
  | .inl _ => none
  | .inr fp => (s.heap fp).map Foo.id

/-! ## The places in the program -/

namespace Pc

/-- The thread holds `hashlock`. -/
def hash : Pc → Bool
  | allocInsert _ | allocObj _ | allocUnhash _ | findWalk _ _ | findObj _ _ | findCount _ _ | findUnobj _ _
  | findUnhash _ _ | releObjAgain _ | releRecheck _ | releKeep _ | releKept | releWalk _ _ | releRemoved _ => true
  | _ => false

/-- The object whose `f_lock` the thread holds. -/
def obj : Pc → Option Nat
  | allocUnhash fp | allocUnobj fp | holdCount fp | holdUnobj fp | findCount _ fp | findUnobj _ fp | releCheck fp
  | releUnobj fp | releRetry fp | releRecheck fp | releKeep fp | releWalk fp _ | releRemoved fp
  | releUnlock fp => some fp
  | _ => none

/-- The object the thread has a reference to. -/
def ref : Pc → Option Nat
  | allocHash fp | allocInsert fp | allocObj fp | allocUnhash fp | allocUnobj fp | holdObj fp | holdCount fp
  | holdUnobj fp | findUnobj _ fp | releObj fp | releCheck fp | releRetry fp | releHash fp | releObjAgain fp
  | releRecheck fp | releWalk fp _ | releRemoved fp | releUnlock fp | releFree fp => some fp
  | findUnhash _ fp => if fp = 0 then none else some fp
  | _ => none

/-- The object that is on no list. -/
def loose : Pc → Option Nat
  | allocHash fp | allocInsert fp | releRemoved fp | releUnlock fp | releFree fp => some fp
  | _ => none

/-- The object the thread has the only reference to. -/
def sole : Pc → Option Nat
  | releWalk fp _ => some fp
  | pc => pc.loose

end Pc

/-- What a thread on its way along a list knows of the list. -/
def Place (s : State T) (lists : Fin nhash → List Cell) : Pc → Prop
  | .findWalk id fp => ∃ l₁ l₂, lists (hash id) = l₁ ++ l₂ ∧ (l₂ = [] ∧ fp = 0 ∨ ∃ l, l₂ = .inr fp :: l) ∧
      ∀ c ∈ l₁, s.idAt c ≠ some id
  | .findObj id fp | .findCount id fp | .findUnobj id fp =>
      .inr fp ∈ lists (hash id) ∧ s.idAt (.inr fp) = some id
  | .findUnhash id fp => fp = 0 ∧ (∀ c ∈ lists (hash id), s.idAt c ≠ some id) ∨
      fp ≠ 0 ∧ .inr fp ∈ lists (hash id) ∧ s.idAt (.inr fp) = some id
  | .releWalk fp tfp => ∃ id l₁ l₂ l₃, s.idAt (.inr fp) = some id ∧
      lists (hash id) = l₁ ++ .inr tfp :: (l₂ ++ .inr fp :: l₃)
  | _ => True

/-- The objects. -/
structure Memory (s : State T) (loose : List Cell) (lists : Fin nhash → List Cell) : Prop where
  family : Family s.link (.inr 0) .inl s.IsObj loose lists
  home   : ∀ i c id, c ∈ lists i → s.idAt c = some id → hash id = i
  count  : ∀ fp foo, s.heap fp = some foo → foo.count = s.refCount fp
  alive  : ∀ t fp, (t, fp) ∈ s.refs → ∃ foo, s.heap fp = some foo
  owned  : ∀ fp foo, s.heap fp = some foo → 0 < s.refCount fp

/-- The threads. -/
structure Control (s : State T) (loose : List Cell) (lists : Fin nhash → List Cell) : Prop where
  hash  : ∀ t, s.hashlock = some t ↔ (s.pc t).hash = true
  lock  : ∀ fp foo t, s.heap fp = some foo → (foo.lock = some t ↔ (s.pc t).obj = some fp)
  held  : ∀ t fp, (s.pc t).obj = some fp → ∃ foo, s.heap fp = some foo
  ref   : ∀ t fp, (s.pc t).ref = some fp → (t, fp) ∈ s.refs
  sole  : ∀ t fp, (s.pc t).sole = some fp → s.refCount fp = 1
  loose : ∀ fp, .inr fp ∈ loose ↔ ∃ t, (s.pc t).loose = some fp
  place : ∀ t, Place s lists (s.pc t)
  freed : ∀ t t' fp, s.pc t = .releFree fp → (s.pc t').obj ≠ some fp

structure Inv (s : State T) (loose : List Cell) (lists : Fin nhash → List Cell) : Prop where
  memory  : Memory s loose lists
  control : Control s loose lists

variable {s s' : State T} {loose : List Cell} {lists : Fin nhash → List Cell} {t t' : T} {fp : Nat} {pc pc' : Pc}
  {foo : Foo T}

theorem idAt_eq (h : s.heap fp = some foo) : s.idAt (.inr fp) = some foo.id := by
  show (s.heap fp).map Foo.id = some foo.id
  rw [h]
  rfl

theorem isObj_inr : s.IsObj (.inr fp) ↔ ∃ foo, s.heap fp = some foo := by
  constructor
  · rintro ⟨fp', foo, heq, h⟩
    obtain rfl := Sum.inr.inj heq
    exact ⟨foo, h⟩
  · rintro ⟨foo, h⟩
    exact ⟨fp, foo, rfl, h⟩

/-- What a place says depends on the cells of the lists alone. -/
theorem Place.congr (h : Place s lists pc) (hid : ∀ i, ∀ c ∈ lists i, s'.idAt c = s.idAt c) : Place s' lists pc := by
  cases pc with
  | findWalk id fp =>
      obtain ⟨l₁, l₂, hl, hfp, hne⟩ := h
      refine ⟨l₁, l₂, hl, hfp, fun c hc => ?_⟩
      rw [hid _ c (hl ▸ List.mem_append_left _ hc)]
      exact hne c hc
  | findObj id fp => exact ⟨h.1, (hid _ _ h.1).trans h.2⟩
  | findCount id fp => exact ⟨h.1, (hid _ _ h.1).trans h.2⟩
  | findUnobj id fp => exact ⟨h.1, (hid _ _ h.1).trans h.2⟩
  | findUnhash id fp =>
      rcases h with ⟨h0, hne⟩ | ⟨h0, hmem, hfp⟩
      · refine Or.inl ⟨h0, fun c hc => ?_⟩
        rw [hid _ c hc]
        exact hne c hc
      · exact Or.inr ⟨h0, hmem, (hid _ _ hmem).trans hfp⟩
  | releWalk fp tfp =>
      obtain ⟨id, l₁, l₂, l₃, hfp, hl⟩ := h
      refine ⟨id, l₁, l₂, l₃, (hid (hash id) _ ?_).trans hfp, hl⟩
      rw [hl]
      simp
  | _ => trivial

/-- Who walks along a list holds `hashlock`. -/
theorem place_of_not_hash (h : pc.hash = false) : Place s lists pc := by
  cases pc with
  | findWalk | findObj | findCount | findUnobj | findUnhash | releWalk => exact absurd h Bool.noConfusion
  | _ => trivial

/-- A thread that has the only reference goes on it. -/
theorem Pc.ref_of_sole (h : pc.sole = some fp) : pc.ref = some fp := by
  cases pc <;> first | exact h | exact absurd h (by simp [Pc.sole, Pc.loose])

theorem Pc.sole_of_loose (h : pc.loose = some fp) : pc.sole = some fp := by
  cases pc <;> first | exact h | exact absurd h (by simp [Pc.loose])

/-! ## Counting references -/

theorem refCount_pos : 0 < s.refCount fp ↔ ∃ t, (t, fp) ∈ s.refs := by
  unfold State.refCount
  rw [List.countP_pos_iff]
  constructor
  · rintro ⟨⟨t, q⟩, hmem, hq⟩
    obtain rfl : q = fp := by simpa using hq
    exact ⟨t, hmem⟩
  · rintro ⟨t, hmem⟩
    exact ⟨_, hmem, by simp⟩

section

variable [DecidableEq T]

/-- Two threads with references count for two. -/
theorem two_le_refCount (h : (t, fp) ∈ s.refs) (h' : (t', fp) ∈ s.refs) (hne : t ≠ t') : 2 ≤ s.refCount fp := by
  have hmem : (t', fp) ∈ s.refs.erase (t, fp) :=
    (List.mem_erase_of_ne fun heq => hne (Prod.mk.inj heq).1.symm).mpr h'
  have hpos : 0 < (s.refs.erase (t, fp)).countP (·.2 = fp) := List.countP_pos_iff.mpr ⟨_, hmem, by simp⟩
  unfold State.refCount
  rw [(List.perm_cons_erase h).countP_eq, List.countP_cons_of_pos (by simp)]
  omega

/-- Nobody else has a reference to the object of a thread with the only one. -/
theorem Inv.sole_unique (h : Inv s loose lists) (hsole : (s.pc t).sole = some fp) (href : (t', fp) ∈ s.refs) :
    t' = t := by
  by_contra hne
  have htwo := two_le_refCount href (h.control.ref t fp (Pc.ref_of_sole hsole)) hne
  rw [h.control.sole t fp hsole] at htwo
  omega

omit [DecidableEq T] in
/-- A loose object is on no list. -/
theorem Inv.not_loose (h : Inv s loose lists) {i : Fin nhash} (hmem : .inr fp ∈ lists i) (t : T) :
    (s.pc t).loose ≠ some fp := fun hl =>
  h.memory.family.free _ ((h.control.loose fp).mpr ⟨t, hl⟩) i hmem

/-- An object of a thread with a reference is on its list, unless the thread has it loose. -/
theorem Inv.on_list (h : Inv s loose lists) (href : (t, fp) ∈ s.refs) (hl : (s.pc t).loose ≠ some fp)
    (hfoo : s.heap fp = some foo) : .inr fp ∈ lists (hash foo.id) := by
  rcases (h.memory.family.covers (.inr fp)).mp (isObj_inr.mpr ⟨foo, hfoo⟩) with hmem | ⟨i, hi⟩
  · obtain ⟨t', ht'⟩ := (h.control.loose fp).mp hmem
    obtain rfl := h.sole_unique (Pc.sole_of_loose ht') href
    exact absurd ht' hl
  · rwa [h.memory.home i _ _ hi (idAt_eq hfoo)]

omit [DecidableEq T] in
/-- The thread that holds `hashlock`. -/
theorem Inv.hash_unique (h : Inv s loose lists) (ht : (s.pc t).hash = true) (ht' : (s.pc t').hash = true) :
    t = t' := by
  have h₁ := (h.control.hash t).mpr ht
  have h₂ := (h.control.hash t').mpr ht'
  exact Option.some.inj (h₁.symm.trans h₂)

/-- No thread is about to free an object that another one may lock. -/
theorem Inv.not_freeing (h : Inv s loose lists) (hpc : s.pc t ≠ .releFree fp)
    (huse : (t, fp) ∈ s.refs ∨ ∃ i, .inr fp ∈ lists i) (t' : T) : s.pc t' ≠ .releFree fp := by
  intro hfree
  have hloose : (s.pc t').loose = some fp := by rw [hfree]; rfl
  rcases huse with href | ⟨i, hi⟩
  · obtain rfl := h.sole_unique (Pc.sole_of_loose hloose) href
    exact hpc hfree
  · exact h.not_loose hi t' hloose

end

theorem inv_init : Inv (init T) [] fun _ => [] := by
  refine ⟨⟨⟨fun _ _ => Sum.inl.inj, ?_, fun i => rfl, fun c => ?_, ?_, ?_, List.nodup_nil⟩, ?_, ?_, ?_, ?_⟩, ?_⟩
  · rintro c ⟨fp, foo, -, hfoo⟩
    exact absurd hfoo (by simp [init])
  · constructor
    · rintro ⟨fp, foo, -, hfoo⟩
      exact absurd hfoo (by simp [init])
    · rintro (hc | ⟨i, hc⟩) <;> exact absurd hc List.not_mem_nil
  · exact fun i j c hc => absurd hc List.not_mem_nil
  · exact fun c hc => absurd hc List.not_mem_nil
  · exact fun i c id hc => absurd hc List.not_mem_nil
  · exact fun fp foo hfoo => absurd hfoo (by simp [init])
  · exact fun t fp hmem => absurd hmem List.not_mem_nil
  · exact fun fp foo hfoo => absurd hfoo (by simp [init])
  · refine ⟨fun t => ?_, fun fp foo t hfoo => ?_, fun t fp hobj => ?_, fun t fp href => ?_, fun t fp hs => ?_,
      fun fp => ?_, fun t => trivial, fun t t' fp hfree => ?_⟩
    · simp [init, Pc.hash]
    · exact absurd hfoo (by simp [init])
    · exact absurd hobj (by simp [init, Pc.obj])
    · exact absurd href (by simp [init, Pc.ref])
    · exact absurd hs (by simp [init, Pc.sole, Pc.loose])
    · simp [init, Pc.loose]
    · exact absurd hfree (by simp [init])

end FooHash
