import ApueToyCodes.Malloc.Correctness.Runs

/-!
# `Malloc.Correctness.Safety` — the heap invariant over whole runs, and live blocks are never touched

The two safety results about every reachable heap: the invariant `WellFormed` holds after any sequence of
client actions, and a further `mm_malloc` or `mm_free` leaves every byte of every other live block as it was
and changes the set of live blocks by exactly the block concerned.
-/

namespace Malloc
open ByteMem Blocks Runs

/-! ## Runs exist -/

/-- `mm_init` can always be run. -/
theorem exists_initial {base : Nat} (hb : base % 8 = 0) (junk : Mem) :
    ∃ s, Initial base s ∧ mmInit (memInit base junk) = some s.heap := by
  obtain ⟨h, hm, _⟩ := mmInit_rel hb junk
  exact ⟨⟨h, ∅⟩, ⟨hb, junk, hm, rfl⟩, hm⟩

/-- A request in range is always answered, as the abstract allocator answers it. -/
theorem exists_malloc_step {s : Sys} {L : Layout} (hS : SysRel s L) {n : Nat} (hfit : roundUp n < 2 ^ 31) :
    ∃ s', Step s (.malloc n (L.result n)) s' := by
  by_cases hn : n = 0
  · subst hn
    exact ⟨_, .malloc hfit (mmMalloc_zero s.heap)⟩
  · obtain ⟨h', hm, _⟩ := mmMalloc_rel hS.heap (by omega) hfit
    have hres : L.result n = (L.malloc (blockSize n)).1 := if_neg hn
    rw [← hres] at hm
    exact ⟨_, .malloc hfit hm⟩

/-! ## The invariant -/

/-- **The heap invariant holds after every run**, and the next request is always answered. -/
theorem heap_invariant {base : Nat} {s₀ s : Sys} {tr : List Act} (hi : Initial base s₀)
    (hr : Run Step s₀ tr s) :
    WellFormed s.heap ∧ ∀ n, roundUp n < 2 ^ 31 → ∃ r h', mmMalloc s.heap n = some (r, h') := by
  obtain ⟨L, hS⟩ := run_sim (initial_rel hi).1 hr
  refine ⟨wellFormed_of_rel hS.heap, fun n hn => ?_⟩
  obtain ⟨s', hst⟩ := exists_malloc_step hS hn
  cases hst with
  | malloc _ hm => exact ⟨_, _, hm⟩

/-- A run that allocates, writes a byte into the block and frees it again. -/
theorem exists_malloc_write_free (v : UInt8) : ∃ s₀ s, Initial 4096 s₀ ∧
    Run Step s₀ [.malloc 20 (some 4112), .write 4112 v, .free 4112] s := by
  obtain ⟨s₀, hi, _⟩ := exists_initial (show 4096 % 8 = 0 by decide) (fun _ => 0)
  have hS₀ := (initial_rel hi).1
  have hres : (initLayout 4096).result 20 = some 4112 := by decide
  obtain ⟨s₁, hs₁⟩ := exists_malloc_step hS₀ (n := 20) (by decide)
  rw [hres] at hs₁
  have hS₁ := (step_sim hS₀ hs₁).1
  have hbl : ((initLayout 4096).act (.malloc 20 (some 4112))).blocks
      = [⟨4112, 32, true⟩, ⟨4144, 4064, false⟩] := by decide
  have hlive : 4112 ∈ s₁.live := (hS₁.live 4112).mpr ⟨⟨4112, 32, true⟩, by rw [hbl]; simp, rfl, rfl⟩
  have hsize : getSize s₁.heap.mem (hdrp 4112) = 32 :=
    (hS₁.heap.tagged ⟨4112, 32, true⟩ (by rw [hbl]; simp)).getSize
  have hs₂ : Step s₁ (.write 4112 v) _ := .write hlive ⟨Nat.le_refl _, by rw [hsize]; decide⟩
  exact ⟨s₀, _, hi, .cons hs₁ (.cons hs₂ (.cons (.free hlive) .refl))⟩

/-- The invariant after allocating, writing and freeing. -/
theorem heap_invariant_malloc_write_free : ∃ s₀ s, Initial 4096 s₀ ∧
    Run Step s₀ [.malloc 20 (some 4112), .write 4112 7, .free 4112] s ∧ WellFormed s.heap := by
  obtain ⟨s₀, s, hi, hr⟩ := exists_malloc_write_free 7
  exact ⟨s₀, s, hi, hr, (heap_invariant hi hr).1⟩

/-! ## Live blocks -/

/-- `mm_malloc` keeps every live block and adds the one it returns. -/
theorem malloc_frame {s : Sys} {L : Layout} (hS : SysRel s L) {n : Nat} {r : Option Nat} {h' : Heap}
    (hfit : roundUp n < 2 ^ 31) (hm : mmMalloc s.heap n = some (r, h')) :
    (∀ c ∈ liveBlocks s.heap, Agree s.heap.mem h'.mem (lo c) (hi c)) ∧
    (r = none → ∀ c, c ∈ liveBlocks h' ↔ c ∈ liveBlocks s.heap) ∧
    ∀ p, r = some p → ∃ j, j.addr = p ∧
      (∀ c ∈ liveBlocks s.heap, c.addr ≠ p ∧ (p + (j.size - 8) ≤ c.addr ∨ c.addr + (c.size - 8) ≤ p)) ∧
      ∀ c, c ∈ liveBlocks h' ↔ c ∈ liveBlocks s.heap ∨ c = j := by
  have hR := hS.heap
  by_cases hn : n = 0
  · rw [hn, mmMalloc_zero, Option.some.injEq, Prod.mk.injEq] at hm
    obtain ⟨rfl, rfl⟩ := hm
    exact ⟨fun c _ => Agree.refl, fun _ c => Iff.rfl, fun p hp => absurd hp (by simp)⟩
  obtain ⟨h₁, hm', hR', hheap, hkept, _⟩ := mmMalloc_rel hR (by omega) hfit
  rw [hm', Option.some.injEq, Prod.mk.injEq] at hm
  obtain ⟨hr, rfl⟩ := hm
  have hmem : ∀ c, c ∈ liveBlocks s.heap ↔ c ∈ L.blocks ∧ c.alloc = true := fun c => hR.mem_liveBlocks
  have hmem' : ∀ c, c ∈ liveBlocks h₁ ↔ c ∈ (L.malloc (blockSize n)).2.blocks ∧ c.alloc = true :=
    fun c => hR'.mem_liveBlocks
  refine ⟨fun c hc => hkept c ((hmem c).mp hc).1 ((hmem c).mp hc).2, ?_, ?_⟩
  · intro hnone c
    rcases L.mem_malloc_of_alloc (blockSize n) with ⟨_, h2⟩ | ⟨q, j, h1, _⟩
    · rw [hmem, hmem', h2]
    · rw [← hr, h1] at hnone; exact absurd hnone (by simp)
  · -- the result is the one allocated block that was not there before
    intro p hp
    rcases L.mem_malloc_of_alloc (blockSize n) with ⟨h1, _⟩ | ⟨q, j, h1, hj, hjq, _, hjm, hfresh, hiff⟩
    · rw [← hr, h1] at hp; exact absurd hp (by simp)
    rw [← hr, h1, Option.some.injEq] at hp
    subst hp
    refine ⟨j, hjq, fun c hc => ?_, fun c => ?_⟩
    · obtain ⟨hcL, hca⟩ := (hmem c).mp hc
      have hcq := hfresh c hcL hca
      have hd := (L.malloc (blockSize n)).2.contig.disjoint hjm ((hiff c hca).mpr (Or.inl hcL))
        (fun heq => hcq (by rw [heq, hjq]))
      simp only [Block.next] at hd
      exact ⟨hcq, by omega⟩
    · rw [hmem, hmem']
      constructor
      · rintro ⟨h2, h3⟩
        exact ((hiff c h3).mp h2).imp (fun h => ⟨h, h3⟩) id
      · rintro (⟨h2, h3⟩ | rfl)
        · exact ⟨(hiff c h3).mpr (Or.inl h2), h3⟩
        · exact ⟨hjm, hj⟩

/-- `mm_free` keeps every other live block and drops its argument. -/
theorem free_frame {s : Sys} {L : Layout} (hS : SysRel s L) {p : Nat} (hp : p ∈ s.live) :
    (∀ c ∈ liveBlocks s.heap, c.addr ≠ p → Agree s.heap.mem (mmFree s.heap p).mem (lo c) (hi c)) ∧
    ∀ c, c ∈ liveBlocks (mmFree s.heap p) ↔ c ∈ liveBlocks s.heap ∧ c.addr ≠ p := by
  have hR := hS.heap
  obtain ⟨b, hb, hba, rfl⟩ := (hS.live p).mp hp
  obtain ⟨hR', hkept⟩ := mmFree_rel hR hb
  refine ⟨fun c hc hne => ?_, fun c => ?_⟩
  · obtain ⟨hcL, hca⟩ := hR.mem_liveBlocks.mp hc
    exact hkept c hcL hca fun heq => hne (by rw [heq])
  · rw [hR.mem_liveBlocks, hR'.mem_liveBlocks]
    constructor
    · rintro ⟨h1, h2⟩
      have := (Layout.mem_free_of_alloc h2).mp h1
      exact ⟨⟨this.1, h2⟩, this.2⟩
    · rintro ⟨⟨h1, h2⟩, h3⟩
      exact ⟨(Layout.mem_free_of_alloc h2).mpr ⟨h1, h3⟩, h2⟩

/-- **Live blocks are never corrupted**: over every reachable heap, `mm_malloc` and `mm_free` leave header,
    payload and footer of every other live block alone and change the set of live blocks by exactly the
    block returned or freed. -/
theorem live_blocks_kept {s : Sys} (hs : Reachable s) :
    (∀ p, p ∈ s.live ↔ ∃ c ∈ liveBlocks s.heap, c.addr = p) ∧
    (∀ n r h', roundUp n < 2 ^ 31 → mmMalloc s.heap n = some (r, h') →
      (∀ c ∈ liveBlocks s.heap, Agree s.heap.mem h'.mem (lo c) (hi c)) ∧
      (r = none → ∀ c, c ∈ liveBlocks h' ↔ c ∈ liveBlocks s.heap) ∧
      ∀ p, r = some p → ∃ j, j.addr = p ∧
        (∀ c ∈ liveBlocks s.heap,
          c.addr ≠ p ∧ (p + (j.size - 8) ≤ c.addr ∨ c.addr + (c.size - 8) ≤ p)) ∧
        ∀ c, c ∈ liveBlocks h' ↔ c ∈ liveBlocks s.heap ∨ c = j) ∧
    (∀ p ∈ s.live,
      (∀ c ∈ liveBlocks s.heap, c.addr ≠ p → Agree s.heap.mem (mmFree s.heap p).mem (lo c) (hi c)) ∧
      ∀ c, c ∈ liveBlocks (mmFree s.heap p) ↔ c ∈ liveBlocks s.heap ∧ c.addr ≠ p) := by
  obtain ⟨L, hS⟩ := reachable_rel hs
  refine ⟨fun p => ?_, fun n r h' hfit hm => malloc_frame hS hfit hm, fun p hp => free_frame hS hp⟩
  rw [hS.live p]
  constructor
  · rintro ⟨b, hb, hba, rfl⟩
    exact ⟨b, hS.heap.mem_liveBlocks.mpr ⟨hb, hba⟩, rfl⟩
  · rintro ⟨c, hc, rfl⟩
    obtain ⟨h1, h2⟩ := hS.heap.mem_liveBlocks.mp hc
    exact ⟨c, h1, h2, rfl⟩

/-- The frame at a heap with one live block, freed next. -/
theorem live_blocks_kept_after_malloc : ∃ s : Sys, 4112 ∈ s.live ∧
    ∀ c, c ∈ liveBlocks (mmFree s.heap 4112) ↔ c ∈ liveBlocks s.heap ∧ c.addr ≠ 4112 := by
  obtain ⟨s₀, s, hi, hr⟩ := exists_malloc_write_free 7
  have hr' : Run Step s₀ ([.malloc 20 (some 4112), .write 4112 7] ++ [.free 4112]) s := hr
  obtain ⟨s₁, h1, h2⟩ := hr'.split
  have hlive : 4112 ∈ s₁.live := by
    cases h2 with
    | cons hst _ => cases hst with | free hp => exact hp
  exact ⟨s₁, hlive, ((live_blocks_kept ⟨4096, s₀, _, hi, h1⟩).2.2 4112 hlive).2⟩

end Malloc
