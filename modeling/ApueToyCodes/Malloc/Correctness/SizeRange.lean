import ApueToyCodes.Malloc.Correctness.Safety

/-!
# `Malloc.Correctness.SizeRange` — `mm_malloc` over the whole range of `size_t`

A request goes through a rounding addition in `size_t` and, when the heap has to grow, through the `int`
parameter of `mem_sbrk`. Both can wrap, and the caller then gets a block smaller than what it asked for.
`SizeOk` is the exact condition under which `mm_malloc` answers as it should (`malloc_safe_iff`).
-/

namespace Malloc
open ByteMem Blocks Runs

/-- `mm_malloc` answers a request for `n` bytes as it should: the heap is well formed afterwards and the
    result is `NULL` or an 8-aligned block of `n` bytes below the epilogue, clear of every byte of the other
    blocks. -/
def MallocSafe (h : Heap) (n : Nat) : Prop :=
  ∃ r h', mmMalloc h n = some (r, h') ∧ WellFormed h' ∧ ∀ p, r = some p →
    p % 8 = 0 ∧ h'.memHeap ≤ p ∧ p + n ≤ h'.memBrk - 4 ∧
      ∀ c ∈ blockList h', c.addr ≠ p → p + n ≤ lo c ∨ hi c ≤ p

/-- The requests `mm_malloc` answers as it should. Where `n + 15` does not wrap: the block size fits in a
    positive `int`, or its low 32 bits are a negative `int` or more than the room left. Where `n + 15`
    wraps: no block is free and there is no room for `CHUNKSIZE` bytes. -/
def SizeOk (h : Heap) (n : Nat) : Prop :=
  if n + 15 < 2 ^ 64 then
    roundUp n < 2 ^ 31 ∨ 2 ^ 31 ≤ roundUp n % 2 ^ 32 ∨ h.memMaxAddr < h.memBrk + roundUp n % 2 ^ 32
  else (∀ b ∈ blockList h, b.alloc = true) ∧ h.memMaxAddr < h.memBrk + chunksize

variable {h : Heap} {L : Layout} {n : Nat}

/-! ## Requests whose block size fits in a positive `int` -/

theorem safe_of_small (hR : HeapRel h L) (hn : 0 < n) (hfit : roundUp n < 2 ^ 31) : MallocSafe h n := by
  obtain ⟨h', hm, hR', _, _, _⟩ := mmMalloc_rel hR hn hfit
  refine ⟨_, h', hm, wellFormed_of_rel hR', fun p hp => ?_⟩
  rcases L.mem_malloc_of_alloc (blockSize n) with ⟨h1, _⟩ | ⟨q, j, h1, _, hjq, hjs, hjm, _, _⟩
  · rw [h1] at hp; exact absurd hp (by simp)
  rw [h1, Option.some.injEq] at hp
  subst hp
  subst hjq
  have hpay : n + 8 ≤ j.size := Nat.le_trans (le_roundUp n) hjs
  have hge := hR'.addr_ge hjm
  have hle := hR'.next_le hjm
  refine ⟨hR'.addr_dvd hjm, by omega, ?_, fun c hc hne => ?_⟩
  · simp only [Block.next] at hle; omega
  · rw [hR'.blockList] at hc
    have hd := hR'.contig.disjoint (List.mem_cons_of_mem _ hjm) hc (fun heq => hne (by rw [heq]))
    simp only [lo, hi, Block.next] at *
    omega

/-! ## Larger requests -/

/-- No block of `n` bytes fits into the heap, so no pointer is a right answer. -/
theorem not_safe_of_some {p : Nat} {h' : Heap} (hbig : maxHeap ≤ n)
    (hm : mmMalloc h n = some (some p, h')) :
    ¬ MallocSafe h n := by
  rintro ⟨r, h₁, hm', hw, hsafe⟩
  rw [hm, Option.some.injEq, Prod.mk.injEq] at hm'
  obtain ⟨_, hge, hle, _⟩ := hsafe p hm'.1.symm
  have htop := hw.region
  have hbrk := hw.range.2
  have hbase : h₁.memHeap + 4 ≤ h₁.memBrk := by
    obtain ⟨K, hK⟩ := rel_of_wellFormed hw
    have := hK.le_brk
    omega
  omega

/-- `NULL` with the heap as it was is a right answer. -/
theorem safe_of_none (hw : WellFormed h) (hm : mmMalloc h n = some (none, h)) : MallocSafe h n :=
  ⟨none, h, hm, hw, fun _ hp => absurd hp (by simp)⟩

/-- `mem_sbrk` grants what `extend_heap` asks for when the narrowed size is not negative and there is
    room. -/
theorem extendHeap_some {size : Nat} (h8 : size % 8 = 0) (hlt : size < 2 ^ 64)
    (hpos : size % 2 ^ 32 < 2 ^ 31) (hroom : h.memBrk + size % 2 ^ 32 ≤ h.memMaxAddr) :
    ∃ r, extendHeap h (size / wsize) = some r := by
  have hint : toInt size = ((size % 2 ^ 32 : Nat) : Int) := if_pos hpos
  unfold extendHeap
  simp only [words_size h8 hlt, hint, memSbrk_some hroom]
  exact ⟨_, rfl⟩

/-- Whether the narrowed size is refused. -/
theorem extendHeap_none_of {size : Nat} (h8 : size % 8 = 0) (hlt : size < 2 ^ 64)
    (hno : 2 ^ 31 ≤ size % 2 ^ 32 ∨ h.memMaxAddr < h.memBrk + size % 2 ^ 32) :
    extendHeap h (size / wsize) = none := by
  refine extendHeap_none h8 hlt ?_
  unfold toInt
  split <;> omega

/-- No block has room for a size of `2^31` or more. -/
theorem findFit_large (hR : HeapRel h L) {size : Nat} (hbig : 2 ^ 31 ≤ size) :
    findFit h size = some none := by
  refine findFit_none hR fun b hb hfit => ?_
  have h1 := hfit.2
  have h2 := hR.next_le hb
  have h3 := hR.addr_ge hb
  have h4 := hR.brk_le
  simp only [maxHeap, Block.next] at *
  omega

/-- The size after the wrap of `n + 15` is at most eight. -/
theorem adjust_wrapped (hwrap : 2 ^ 64 ≤ n + 15) (hlt : n < 2 ^ 64) : adjust n ≤ 8 := by
  unfold adjust
  simp only [dsize]
  rw [if_neg (by omega)]
  omega

/-- A wrapped request takes the first free block, whatever its size. -/
theorem findFit_wrapped (hR : HeapRel h L) {size : Nat} (hsmall : size ≤ 8) :
    (∃ p, findFit h size = some (some p)) ↔ ∃ b ∈ blockList h, b.alloc = false := by
  rw [findFit_rel hR, hR.blockList]
  constructor
  · rintro ⟨p, hp⟩
    obtain ⟨b, hb, _⟩ := Option.map_eq_some_iff.mp (Option.some.inj hp)
    have hfit : Fits size b := by simpa using List.find?_some hb
    exact ⟨b, List.mem_cons_of_mem _ (List.mem_of_find?_eq_some hb), hfit.1⟩
  · rintro ⟨b, hb, hfree⟩
    rcases List.mem_cons.mp hb with rfl | hb
    · exact absurd hfree (by simp [prologue])
    have hfit : Fits size b := ⟨hfree, by have := (L.sizes b hb).2; omega⟩
    cases hf : L.blocks.find? fun b => decide (Fits size b) with
    | none => exact absurd hfit (by simpa using List.find?_eq_none.mp hf b hb)
    | some c => exact ⟨c.addr, by rw [Option.map_some]⟩

/-! ## The exact condition -/

/-- A request of `2^31` bytes or more, before the wrap of the rounding. -/
theorem safe_iff_of_large (hw : WellFormed h) (hR : HeapRel h L) (hno : n + 15 < 2 ^ 64)
    (hbig : 2 ^ 31 ≤ roundUp n) :
    MallocSafe h n ↔ 2 ^ 31 ≤ roundUp n % 2 ^ 32 ∨ h.memMaxAddr < h.memBrk + roundUp n % 2 ^ 32 := by
  have hn : ¬ n ≤ 8 := by
    intro h
    unfold roundUp at hbig
    rw [if_pos h] at hbig
    omega
  have hru : roundUp n = (n + 15) / 8 * 8 := if_neg hn
  have hn : 0 < n := by omega
  have hadj : adjust n = roundUp n := adjust_eq hno
  have h8 : roundUp n % 8 = 0 := (roundUp_legal n).1
  have hf : findFit h (adjust n) = some none := by rw [hadj]; exact findFit_large hR hbig
  have hmax : max (adjust n) chunksize = roundUp n := by rw [hadj]; simp only [chunksize]; omega
  constructor
  · -- were the narrowed size granted, the block returned would be too small
    intro hsafe
    by_contra hgrant
    push Not at hgrant
    obtain ⟨r, hr⟩ := extendHeap_some h8 (by omega) hgrant.1 hgrant.2
    rw [← hmax] at hr
    exact not_safe_of_some (by simp only [maxHeap]; omega) (mmMalloc_of_grow hn hf hr) hsafe
  · intro hrefused
    have hr := extendHeap_none_of h8 (by omega : roundUp n < 2 ^ 64) hrefused
    rw [← hmax] at hr
    exact safe_of_none hw (mmMalloc_of_full hn hf hr)

/-- A request so close to `2^64` that the rounding wraps. -/
theorem safe_iff_of_wrapped (hw : WellFormed h) (hR : HeapRel h L) (hwrap : 2 ^ 64 ≤ n + 15)
    (hlt : n < 2 ^ 64) :
    MallocSafe h n ↔ (∀ b ∈ blockList h, b.alloc = true) ∧ h.memMaxAddr < h.memBrk + chunksize := by
  have hadj := adjust_wrapped hwrap hlt
  have hn : 0 < n := by omega
  have hbig : maxHeap ≤ n := by simp only [maxHeap]; omega
  have hmax : max (adjust n) chunksize = chunksize := by simp only [chunksize]; omega
  by_cases hfree : ∃ b ∈ blockList h, b.alloc = false
  · -- a free block is handed out
    obtain ⟨p, hp⟩ := (findFit_wrapped hR hadj).mpr hfree
    obtain ⟨b, hb, hbf⟩ := hfree
    refine iff_of_false (not_safe_of_some hbig (mmMalloc_of_fit hn hp)) fun hall => ?_
    rw [hall.1 b hb] at hbf
    exact absurd hbf (by simp)
  · -- every block is allocated, so the heap grows by `CHUNKSIZE` if it can
    have hf : findFit h (adjust n) = some none := by
      have hnone := mt (findFit_wrapped hR hadj).mp hfree
      rw [findFit_rel hR] at hnone ⊢
      cases hb : (L.blocks.find? fun b => decide (Fits (adjust n) b)).map Block.addr with
      | none => rfl
      | some p => exact absurd ⟨p, by rw [hb]⟩ hnone
    have hall : ∀ b ∈ blockList h, b.alloc = true := by
      intro b hb
      cases hba : b.alloc with
      | true => rfl
      | false => exact absurd ⟨b, hb, hba⟩ hfree
    have h4 : chunksize % 2 ^ 32 = chunksize := by decide
    constructor
    · intro hsafe
      refine ⟨hall, ?_⟩
      by_contra hroom
      have hgrant : h.memBrk + chunksize % 2 ^ 32 ≤ h.memMaxAddr := by rw [h4]; omega
      obtain ⟨r, hr⟩ := extendHeap_some (by decide) (by decide) (by decide) hgrant
      rw [← hmax] at hr
      exact not_safe_of_some hbig (mmMalloc_of_grow hn hf hr) hsafe
    · rintro ⟨_, hroom⟩
      have hrefused : 2 ^ 31 ≤ chunksize % 2 ^ 32 ∨ h.memMaxAddr < h.memBrk + chunksize % 2 ^ 32 :=
        Or.inr (by rw [h4]; exact hroom)
      have hr := extendHeap_none_of (by decide) (by decide) hrefused
      rw [← hmax] at hr
      exact safe_of_none hw (mmMalloc_of_full hn hf hr)

/-- **`mm_malloc` over the whole range of `size_t`**: it answers as it should exactly under `SizeOk`. -/
theorem malloc_safe_iff (hw : WellFormed h) (hn : 0 < n) (hlt : n < 2 ^ 64) :
    MallocSafe h n ↔ SizeOk h n := by
  obtain ⟨L, hR⟩ := rel_of_wellFormed hw
  unfold SizeOk
  split
  · rename_i hno
    by_cases hfit : roundUp n < 2 ^ 31
    · exact iff_of_true (safe_of_small hR hn hfit) (Or.inl hfit)
    · rw [safe_iff_of_large hw hR hno (by omega), or_iff_right hfit]
  · rename_i hwrap
    exact safe_iff_of_wrapped hw hR (by omega) hlt

/-- A request of 20 bytes right after `mm_init`. -/
theorem malloc_safe_iff_twenty : ∃ h, mmInit (memInit 4096 fun _ => 0) = some h ∧ MallocSafe h 20 := by
  obtain ⟨h, hm, hR, _⟩ := mmInit_rel (show 4096 % 8 = 0 by decide) fun _ => 0
  have hok : SizeOk h 20 := by
    unfold SizeOk
    rw [if_pos (by decide)]
    exact Or.inl (by decide)
  exact ⟨h, hm, (malloc_safe_iff (wellFormed_of_rel hR) (by decide) (by decide)).mpr hok⟩

/-- Right after `mm_init`, a request of `2^32 - 8` bytes asks `mem_sbrk` for 0 bytes, and one of `2^64 - 1`
    bytes asks for a block of 8: both are answered with a pointer. -/
theorem malloc_unsafe_after_init : ∃ s, Reachable s ∧ mmInit (memInit 4096 fun _ => 0) = some s.heap ∧
    WellFormed s.heap ∧ ¬ MallocSafe s.heap (2 ^ 32 - 8) ∧ ¬ MallocSafe s.heap (2 ^ 64 - 1) := by
  obtain ⟨s, hi, hm⟩ := exists_initial (show 4096 % 8 = 0 by decide) fun _ => 0
  obtain ⟨hS, _⟩ := initial_rel hi
  have hR := hS.heap
  have hw := wellFormed_of_rel hR
  refine ⟨s, ⟨4096, s, [], hi, .refl⟩, hm, hw, ?_, ?_⟩
  · have h0 : roundUp (2 ^ 32 - 8) % 2 ^ 32 = 0 := by decide
    rw [safe_iff_of_large hw hR (by decide) (by decide), h0]
    have := hw.range.2
    omega
  · rw [safe_iff_of_wrapped hw hR (by decide) (by decide), hR.blockList]
    rintro ⟨hall, _⟩
    exact absurd (hall ⟨4112, 4096, false⟩ (List.mem_cons_of_mem _ (by decide))) (by decide)

end Malloc
