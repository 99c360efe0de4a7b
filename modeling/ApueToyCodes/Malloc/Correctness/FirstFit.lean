import ApueToyCodes.Malloc.Correctness.Safety

/-!
# `Malloc.Correctness.FirstFit` — which block `mm_malloc` returns

Over every reachable heap a request whose block size fits in a positive `int` ends in one of three ways: it
gets the lowest block it fits in; or, when it fits nowhere, the heap grows and it gets the last block, old
trailing free space included; or, when the heap cannot grow either, it gets `NULL` and nothing has changed.
-/

namespace Malloc
open ByteMem Blocks Runs

/-- `b` is the lowest-addressed block of `bs` with room for `a` bytes. -/
structure LowestFit (a : Nat) (bs : List Block) (b : Block) : Prop where
  mem   : b ∈ bs
  fits  : Fits a b
  least : ∀ c ∈ bs, Fits a c → b.addr ≤ c.addr

/-- In a tiling the first fit is the lowest one. -/
theorem lowestFit_of_split {a p e : Nat} {X Y : List Block} {b : Block} (hc : Contig p (X ++ b :: Y) e)
    (hX : ∀ c ∈ X, ¬ Fits a c) (hb : Fits a b) : LowestFit a (X ++ b :: Y) b := by
  refine ⟨by simp, hb, ?_⟩
  intro c hcm hcf
  rcases List.mem_append.mp hcm with h1 | h1
  · exact absurd hcf (hX c h1)
  rcases List.mem_cons.mp h1 with rfl | h1
  · exact Nat.le_refl _
  · have := hc.sides.2 c h1
    unfold Block.next at this
    omega

/-- The prologue takes no part in the search. -/
theorem fits_blockList {h : Heap} {L : Layout} (hR : HeapRel h L) {a : Nat} {b : Block}
    (hb : b ∈ blockList h) (hf : Fits a b) : b ∈ L.blocks := by
  rw [hR.blockList] at hb
  rcases List.mem_cons.mp hb with rfl | hb
  · exact absurd hf.1 (by simp [prologue])
  · exact hb

/-- The grown layout, seen from the memory. -/
theorem extendLast_blockList {h : Heap} {L : Layout} (hR : HeapRel h L) {size : BlockSize}
    (hroom : L.stop + size ≤ L.limit) :
    extendLast h.memBrk size (blockList h) = prologue h.memHeap :: (L.grow size hroom).blocks := by
  rw [hR.blockList, ← coalesced_extend (apart_prologue h.memHeap L), ← hR.stop, List.cons_append,
    coalesced_cons, join_of_alloc (prologue_alloc _)]
  rfl

/-- An allocation without growing takes the lowest block with room. -/
theorem lowestFit_of_alloc {h : Heap} {L L' : Layout} (hR : HeapRel h L) {size : BlockSize} {p : Nat}
    (hal : L.alloc size = some (p, L')) : ∃ b, LowestFit size (blockList h) b ∧ p = b.addr := by
  obtain ⟨X, b, Y, hbs, hX, hb, rfl, _⟩ := Layout.alloc_eq_some hal
  have hcon := hR.contig
  rw [hR.blockList, hbs]
  rw [hbs] at hcon
  refine ⟨b, lowestFit_of_split (X := prologue h.memHeap :: X) hcon ?_ hb, rfl⟩
  intro c hc
  rcases List.mem_cons.mp hc with rfl | hc
  · intro hf
    exact absurd hf.1 (by simp [prologue])
  · exact hX c hc

/-- An allocation after growing is carved out of the last block. -/
theorem carved_of_grow {h h' : Heap} {L L' : Layout} (hR : HeapRel h L) (hR' : HeapRel h' L')
    (hheap : h'.memHeap = h.memHeap) {size : BlockSize} {p : Nat} (hno : ∀ b ∈ L.blocks, ¬ Fits size b)
    (hroom : L.stop + growth size ≤ L.limit) (hal : (L.grow (growth size) hroom).alloc size = some (p, L')) :
    h'.memBrk = h.memBrk + growth size ∧
      ∃ X j, extendLast h.memBrk (growth size) (blockList h) = X ++ [j] ∧ p = j.addr ∧
        blockList h' = X ++ carve 16 size j := by
  obtain ⟨X, j, hg, hX, hj⟩ := Layout.alloc_grow hno hroom
  obtain ⟨L₁, hal₁, _, hstop₁, _, hbl₁⟩ := Layout.alloc_of_split hg hX hj
  rw [hal, Option.some.injEq, Prod.mk.injEq] at hal₁
  obtain ⟨rfl, rfl⟩ := hal₁
  refine ⟨?_, prologue h.memHeap :: X, j, ?_, rfl, ?_⟩
  · rw [← hR'.stop, hstop₁, ← hR.stop]
    rfl
  · rw [extendLast_blockList hR hroom, hg]
    rfl
  · rw [hR'.blockList, hheap, hbl₁, List.append_nil]
    rfl

/-- **First-fit completeness and failure atomicity.** -/
theorem first_fit_complete {s : Sys} (hs : Reachable s) {n : Nat} (hn : 0 < n)
    (hfit : roundUp n < 2 ^ 31) :
    ∃ r h', mmMalloc s.heap n = some (r, h') ∧
      ((∃ b ∈ blockList s.heap, Fits (roundUp n) b) →
        ∃ b, LowestFit (roundUp n) (blockList s.heap) b ∧ r = some b.addr) ∧
      ((∀ b ∈ blockList s.heap, ¬ Fits (roundUp n) b) →
        (s.heap.memBrk + max (roundUp n) 4096 ≤ s.heap.memMaxAddr →
          h'.memBrk = s.heap.memBrk + max (roundUp n) 4096 ∧
          ∃ X j, extendLast s.heap.memBrk (max (roundUp n) 4096) (blockList s.heap) = X ++ [j] ∧
            r = some j.addr ∧ blockList h' = X ++ carve 16 (roundUp n) j) ∧
        (¬ s.heap.memBrk + max (roundUp n) 4096 ≤ s.heap.memMaxAddr → r = none ∧ h' = s.heap)) := by
  obtain ⟨L, hL⟩ := reachable_rel hs
  have hR := hL.heap
  obtain ⟨h', hm, hR', hheap, _, hnone⟩ := mmMalloc_rel hR hn hfit
  refine ⟨(L.malloc (blockSize n)).1, h', hm, ?_⟩
  have hroom_iff : L.stop + growth (blockSize n) ≤ L.limit ↔
      s.heap.memBrk + max (roundUp n) 4096 ≤ s.heap.memMaxAddr := by
    rw [hR.stop, hR.limit]
    rfl
  rcases L.malloc_cases (blockSize n) with ⟨p, L', hal, hmal⟩ | ⟨hno, hroom, p, L', hal, hmal⟩ |
    ⟨hno, hroom, hmal⟩
  · -- served by `find_fit`
    obtain ⟨b, hb, rfl⟩ := lowestFit_of_alloc hR hal
    rw [hmal]
    exact ⟨fun _ => ⟨b, hb, rfl⟩, fun hnofit => absurd hb.fits (hnofit b hb.mem)⟩
  · -- the heap grows, and the request is served by its last block
    have hnofit := Layout.alloc_eq_none.mp hno
    rw [hmal] at hR' ⊢
    obtain ⟨hbrk, X, j, hX, rfl, hbl⟩ := carved_of_grow hR hR' hheap hnofit hroom hal
    refine ⟨?_, fun _ => ⟨fun _ => ⟨hbrk, X, j, hX, rfl, hbl⟩, ?_⟩⟩
    · rintro ⟨b, hb, hbf⟩
      exact absurd hbf (hnofit b (fits_blockList hR hb hbf))
    · intro hfull
      exact absurd (hroom_iff.mp hroom) hfull
  · -- no room: `NULL`
    have hnofit := Layout.alloc_eq_none.mp hno
    rw [hmal] at hnone ⊢
    refine ⟨?_, fun _ => ⟨?_, fun _ => ⟨rfl, hnone rfl⟩⟩⟩
    · rintro ⟨b, hb, hbf⟩
      exact absurd hbf (hnofit b (fits_blockList hR hb hbf))
    · intro hgrow
      exact absurd (hroom_iff.mpr hgrow) hroom

/-- On a fresh heap of 4096 bytes a request of 5000 grows the heap and takes the old free block in. -/
theorem first_fit_complete_grow : ∃ (s : Sys) (h' : Heap),
    mmMalloc s.heap 5000 = some (some 4112, h') ∧ h'.memBrk = 13216 ∧
    blockList h' = [⟨4104, 8, true⟩, ⟨4112, 5008, true⟩, ⟨9120, 4096, false⟩] := by
  obtain ⟨s, hi, _⟩ := exists_initial (show 4096 % 8 = 0 by decide) (fun _ => 0)
  obtain ⟨hS, hheap⟩ := initial_rel hi
  have hbl : blockList s.heap = [⟨4104, 8, true⟩, ⟨4112, 4096, false⟩] := by
    rw [hS.heap.blockList, hheap]
    rfl
  have hbrk : s.heap.memBrk = 8208 := by rw [← hS.heap.stop]; rfl
  have hmax : s.heap.memMaxAddr = 1052672 := by rw [← hS.heap.limit]; rfl
  have hno : ∀ b ∈ blockList s.heap, ¬ Fits (roundUp 5000) b := by rw [hbl]; decide
  have hroom : s.heap.memBrk + max (roundUp 5000) 4096 ≤ s.heap.memMaxAddr := by rw [hbrk, hmax]; decide
  obtain ⟨r, h', hm, _, hgrow⟩ := first_fit_complete (s := s) ⟨4096, s, [], hi, .refl⟩
    (n := 5000) (by decide) (by decide)
  obtain ⟨hbrk', X, j, hX, rfl, hbl'⟩ := (hgrow hno).1 hroom
  have hlast : [⟨4104, 8, true⟩] ++ [⟨4112, 9104, false⟩] = X ++ [j] := by
    rw [← hX, hbl, hbrk]
    decide
  obtain ⟨rfl, hj⟩ := List.append_inj' hlast rfl
  obtain rfl := List.singleton_inj.mp hj
  refine ⟨s, h', hm, ?_, hbl'⟩
  rw [hbrk', hbrk]
  decide

end Malloc
