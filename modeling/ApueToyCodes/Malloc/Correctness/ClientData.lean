import ApueToyCodes.Malloc.Correctness.Safety

/-!
# `Malloc.Correctness.ClientData` — the allocator never looks at client data

Two runs that make the same calls, on regions with different contents and with clients that write different
bytes at different moments, stay on one and the same layout (`SameLayout`): a write is invisible to the
layout, and a call does to both heaps what `Layout.act` says. So every call returns the same pointer in
both.
-/

namespace Malloc
open ByteMem Blocks Runs

/-- Client writes may differ between the two runs. -/
def Act.IsWrite : Act → Prop
  | .write _ _ => True
  | _          => False

/-- The calls of the allocator, with what they return. -/
def Act.call : Act → Option Act
  | .write _ _ => none
  | a          => some a

/-- The pair of pointers two corresponding `mm_malloc` calls returned. -/
def corresponding : Option Nat → Option Nat → Finset (Nat × Nat)
  | some p, some q => {(p, q)}
  | _,      _      => ∅

/-- Corresponding calls: equal requests, whatever they return, and frees of pointers that corresponding
    requests returned. The context holds the pairs returned and not yet freed. -/
inductive Paired : Finset (Nat × Nat) → Act → Act → Finset (Nat × Nat) → Prop
  | malloc {k : Finset (Nat × Nat)} {n : Nat} {r₁ r₂ : Option Nat} :
      Paired k (.malloc n r₁) (.malloc n r₂) (k ∪ corresponding r₁ r₂)
  | free {k : Finset (Nat × Nat)} {p q : Nat} :
      (p, q) ∈ k → Paired k (.free p) (.free q) (k.erase (p, q))

/-- Two states on one layout, with corresponding pointers equal. -/
def SameLayout (k : Finset (Nat × Nat)) (s₁ s₂ : Sys) : Prop :=
  ∃ L, SysRel s₁ L ∧ SysRel s₂ L ∧ s₁.heap.memHeap = s₂.heap.memHeap ∧ ∀ x ∈ k, x.1 = x.2

variable {k k' : Finset (Nat × Nat)} {s₁ s₂ s₁' s₂' : Sys}

/-- Pointers of corresponding calls with equal results are equal. -/
theorem eq_of_mem_corresponding {r : Option Nat} {x : Nat × Nat} (hx : x ∈ corresponding r r) :
    x.1 = x.2 := by
  cases r with
  | none => exact absurd hx (Finset.notMem_empty x)
  | some p => rw [Finset.mem_singleton.mp hx]

/-- `mm_init` on two regions at one address. -/
theorem sameLayout_initial {base : Nat} (h₁ : Initial base s₁) (h₂ : Initial base s₂) :
    SameLayout ∅ s₁ s₂ := by
  obtain ⟨hS₁, hb₁⟩ := initial_rel h₁
  obtain ⟨hS₂, hb₂⟩ := initial_rel h₂
  exact ⟨initLayout base, hS₁, hS₂, hb₁.trans hb₂.symm, fun x hx => absurd hx (Finset.notMem_empty x)⟩

/-- A client write leaves the layout where it is. -/
theorem rel_of_write {L : Layout} {s s' : Sys} {a : Act} (hS : SysRel s L) (ha : a.IsWrite)
    (hst : Step s a s') : SysRel s' L ∧ s'.heap.memHeap = s.heap.memHeap := by
  cases a with
  | write x v => exact ⟨(step_sim hS hst).1, (step_sim hS hst).2.1⟩
  | malloc n r => exact absurd ha id
  | free p => exact absurd ha id

theorem sameLayout_write_left {a : Act} (hR : SameLayout k s₁ s₂) (ha : a.IsWrite)
    (hst : Step s₁ a s₁') : SameLayout k s₁' s₂ := by
  obtain ⟨L, hS₁, hS₂, hb, hk⟩ := hR
  obtain ⟨hS₁', hb'⟩ := rel_of_write hS₁ ha hst
  exact ⟨L, hS₁', hS₂, hb'.trans hb, hk⟩

theorem sameLayout_write_right {a : Act} (hR : SameLayout k s₁ s₂) (ha : a.IsWrite)
    (hst : Step s₂ a s₂') : SameLayout k s₁ s₂' := by
  obtain ⟨L, hS₁, hS₂, hb, hk⟩ := hR
  obtain ⟨hS₂', hb'⟩ := rel_of_write hS₂ ha hst
  exact ⟨L, hS₁, hS₂', hb.trans hb'.symm, hk⟩

/-- **Corresponding calls** return the same pointer and move both heaps to the same layout. -/
theorem sameLayout_call {a b : Act} (hR : SameLayout k s₁ s₂) (hp : Paired k a b k')
    (h₁ : Step s₁ a s₁') (h₂ : Step s₂ b s₂') : SameLayout k' s₁' s₂' ∧ a.call = b.call := by
  obtain ⟨L, hS₁, hS₂, hb, hk⟩ := hR
  obtain ⟨hS₁', hb₁, hr₁⟩ := step_sim hS₁ h₁
  obtain ⟨hS₂', hb₂, hr₂⟩ := step_sim hS₂ h₂
  have hbase : s₁'.heap.memHeap = s₂'.heap.memHeap := by rw [hb₁, hb₂, hb]
  cases hp with
  | @malloc n r₁ r₂ =>
      -- both results are the abstract allocator's
      have hr : r₁ = r₂ := (hr₁ n r₁ rfl).trans (hr₂ n r₂ rfl).symm
      subst hr
      refine ⟨⟨_, hS₁', hS₂', hbase, fun x hx => ?_⟩, rfl⟩
      rcases Finset.mem_union.mp hx with hx | hx
      · exact hk x hx
      · exact eq_of_mem_corresponding hx
  | @free p q hpq =>
      -- the pointers come from calls that returned the same
      have heq : p = q := hk (p, q) hpq
      subst heq
      exact ⟨⟨_, hS₁', hS₂', hbase, fun x hx => hk x (Finset.mem_of_mem_erase hx)⟩, rfl⟩

/-- **Allocator decisions do not depend on client data.** Two runs from `mm_init` at one address, over
    regions with any contents, making corresponding calls with any client writes in between: the calls
    return the same pointers, and at every moment up to which the runs correspond the heaps have the same
    block list. -/
theorem decisions_independent_of_data {base : Nat} {t₁ t₂ : List Act} (h₁ : Initial base s₁)
    (h₂ : Initial base s₂) (hm : Lockstep Act.IsWrite Paired ∅ t₁ t₂) (r₁ : Run Step s₁ t₁ s₁')
    (r₂ : Run Step s₂ t₂ s₂') :
    t₁.filterMap Act.call = t₂.filterMap Act.call ∧ blockList s₁'.heap = blockList s₂'.heap := by
  have hsil : ∀ a : Act, a.IsWrite → a.call = none := by
    intro a ha
    cases a with
    | write x v => rfl
    | malloc n r => exact absurd ha id
    | free p => exact absurd ha id
  have hl : ∀ k s₁ s₂ a s', SameLayout k s₁ s₂ → Act.IsWrite a → Step s₁ a s' → SameLayout k s' s₂ :=
    fun _ _ _ _ _ hR ha hst => sameLayout_write_left hR ha hst
  have hr : ∀ k s₁ s₂ a s', SameLayout k s₁ s₂ → Act.IsWrite a → Step s₂ a s' → SameLayout k s₁ s' :=
    fun _ _ _ _ _ hR ha hst => sameLayout_write_right hR ha hst
  have hb : ∀ k k' s₁ s₂ a b s₁' s₂', SameLayout k s₁ s₂ → Paired k a b k' → Step s₁ a s₁' →
      Step s₂ b s₂' → SameLayout k' s₁' s₂' ∧ a.call = b.call :=
    fun _ _ _ _ _ _ _ _ hR hp hst₁ hst₂ => sameLayout_call hR hp hst₁ hst₂
  obtain ⟨⟨k, L, hS₁, hS₂, hbase, _⟩, hobs⟩ :=
    hm.unwind Act.call hsil hl hr hb r₁ r₂ (sameLayout_initial h₁ h₂)
  exact ⟨hobs, by rw [hS₁.heap.blockList, hS₂.heap.blockList, hbase]⟩

/-- Two runs that write different bytes into the block they allocate and free. -/
theorem decisions_independent_of_data_two_writes : ∃ s₁ s₂ s₁' s₂',
    Run Step s₁ [.malloc 20 (some 4112), .write 4112 7, .free 4112] s₁' ∧
    Run Step s₂ [.malloc 20 (some 4112), .write 4112 9, .free 4112] s₂' ∧
    blockList s₁'.heap = blockList s₂'.heap := by
  obtain ⟨s₁, s₁', h₁, r₁⟩ := exists_malloc_write_free 7
  obtain ⟨s₂, s₂', h₂, r₂⟩ := exists_malloc_write_free 9
  have hm : Lockstep Act.IsWrite Paired ∅ [.malloc 20 (some 4112), .write 4112 7, .free 4112]
      [.malloc 20 (some 4112), .write 4112 9, .free 4112] :=
    .both .malloc (.left trivial (.right trivial (.both (.free (by decide)) .nil)))
  exact ⟨s₁, s₂, s₁', s₂', r₁, r₂, (decisions_independent_of_data h₁ h₂ hm r₁ r₂).2⟩

end Malloc
