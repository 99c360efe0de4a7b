import ApueToyCodes.Malloc.Correctness.FirstFit

/-!
# `Malloc.Correctness.AllocFree` — a block freed right after it was allocated

Carving a block out of free space and giving it back merges the pieces again: `Layout.free` undoes
`Layout.alloc`. Over the memory, `mm_free` right after `mm_malloc` restores the block list, lengthened at its
end by the bytes the heap grew by if the request was not served by `find_fit`.
-/

namespace Malloc
open ByteMem Blocks Runs

/-- **`free` undoes `alloc`.** -/
theorem Layout.free_alloc {L L' : Layout} {a : BlockSize} {p : Nat} (h : L.alloc a = some (p, L')) :
    (L'.free p).blocks = L.blocks := by
  obtain ⟨X, b, Y, hbs, _, hb, rfl, _, _, hbl⟩ := alloc_eq_some h
  obtain ⟨sz, rest, hcarve⟩ := carve_head 16 a b
  have hcon := L'.contig
  have hsizes := L'.sizes
  rw [hbl, hcarve, List.cons_append] at hcon hsizes
  have hne := hcon.addr_ne fun c hc => by
    have := hsizes c hc
    omega
  -- the remainder of a split is free already
  have hrest : rest.map Block.freed = rest := by
    unfold carve at hcarve
    split at hcarve
    · obtain ⟨_, rfl⟩ := List.cons.inj hcarve
      rfl
    · obtain ⟨_, rfl⟩ := List.cons.inj hcarve
      rfl
  have hmap : L'.blocks.map (release [b.addr]) = X ++ ((carve 16 a b).map Block.freed ++ Y) := by
    rw [hbl, hcarve, List.cons_append, map_release_append (b := ⟨b.addr, sz, true⟩) hne.1 hne.2,
      List.map_cons, hrest]
    rfl
  show coalesced (L'.blocks.map (release [b.addr])) = L.blocks
  rw [hmap, coalesced_carve_freed hb, ← hbs]
  exact coalesced_of_noAdjFree L.apart

/-- The block just allocated can be freed, and the memory follows the layout. -/
theorem mmFree_alloc_rel {h' : Heap} {K L' : Layout} {a : BlockSize} {p : Nat} (hR : HeapRel h' L')
    (hal : K.alloc a = some (p, L')) :
    blockList (mmFree h' p) = prologue h'.memHeap :: K.blocks := by
  obtain ⟨j, _, rfl, _, hj, _⟩ := Layout.mem_alloc_of_alloc hal
  have hF := (mmFree_rel hR hj).1
  rw [hF.blockList, Layout.free_alloc hal]
  rfl

/-- **Allocate, then free.** -/
theorem free_after_malloc {s : Sys} (hs : Reachable s) {n p : Nat} {h' : Heap} (hn : 0 < n)
    (hfit : roundUp n < 2 ^ 31) (hm : mmMalloc s.heap n = some (some p, h')) :
    (findFit s.heap (adjust n) = some (some p) ∧ h'.memBrk = s.heap.memBrk ∧
      blockList (mmFree h' p) = blockList s.heap) ∨
    (findFit s.heap (adjust n) = some none ∧ h'.memBrk = s.heap.memBrk + max (adjust n) chunksize ∧
      blockList (mmFree h' p)
        = extendLast s.heap.memBrk (h'.memBrk - s.heap.memBrk) (blockList s.heap)) := by
  obtain ⟨L, hL⟩ := reachable_rel hs
  have hR := hL.heap
  have hle := le_roundUp n
  have hadj : adjust n = (blockSize n).1 := adjust_eq (by omega)
  obtain ⟨h₁, hm₁, hR', hheap, _, _⟩ := mmMalloc_rel hR hn hfit
  rw [hm, Option.some.injEq, Prod.mk.injEq] at hm₁
  obtain ⟨hp, rfl⟩ := hm₁
  rcases L.malloc_cases (blockSize n) with ⟨q, L', hal, hmal⟩ | ⟨hno, hroom, q, L', hal, hmal⟩ | ⟨_, _, hmal⟩
  · rw [hmal] at hp hR'
    obtain rfl : p = q := Option.some.inj hp
    left
    refine ⟨?_, ?_, ?_⟩
    · obtain ⟨X, b, Y, hbs, hX, hb, rfl, _⟩ := Layout.alloc_eq_some hal
      rw [hadj]
      exact findFit_some hR hbs hX hb
    · obtain ⟨_, _, _, _, _, _, _, _, hst, _⟩ := Layout.alloc_eq_some hal
      rw [← hR'.stop, hst, hR.stop]
    · rw [mmFree_alloc_rel hR' hal, hR.blockList, hheap]
  · rw [hmal] at hp hR'
    obtain rfl : p = q := Option.some.inj hp
    right
    have hbrk : h'.memBrk = s.heap.memBrk + max (adjust n) chunksize := by
      obtain ⟨_, _, _, _, _, _, _, _, hst, _⟩ := Layout.alloc_eq_some hal
      rw [← hR'.stop, hst, ← hR.stop, hadj]
      rfl
    refine ⟨?_, hbrk, ?_⟩
    · rw [hadj]
      exact findFit_none hR (Layout.alloc_eq_none.mp hno)
    · have hgrown : h'.memBrk - s.heap.memBrk = (growth (blockSize n)).1 := by
        rw [hbrk, hadj, Nat.add_sub_cancel_left]
        rfl
      rw [mmFree_alloc_rel hR' hal, hheap, hgrown, extendLast_blockList hR hroom]
  · rw [hmal] at hp
    exact absurd hp (by simp)

/-- The block that made a fresh heap grow, freed: the free block of 4096 bytes has grown by 5008. -/
theorem free_after_malloc_grow : ∃ (s : Sys) (h' : Heap),
    mmMalloc s.heap 5000 = some (some 4112, h') ∧ blockList s.heap = [⟨4104, 8, true⟩, ⟨4112, 4096, false⟩] ∧
    blockList (mmFree h' 4112) = [⟨4104, 8, true⟩, ⟨4112, 9104, false⟩] := by
  obtain ⟨s, hi, _⟩ := exists_initial (show 4096 % 8 = 0 by decide) (fun _ => 0)
  obtain ⟨hS, hheap⟩ := initial_rel hi
  have hbl : blockList s.heap = [⟨4104, 8, true⟩, ⟨4112, 4096, false⟩] := by
    rw [hS.heap.blockList, hheap]
    rfl
  have hbrk : s.heap.memBrk = 8208 := by rw [← hS.heap.stop]; rfl
  obtain ⟨h', hm, _⟩ := mmMalloc_rel hS.heap (n := 5000) (by decide) (by decide)
  have hres : ((initLayout 4096).malloc (blockSize 5000)).1 = some 4112 := by decide
  rw [hres] at hm
  refine ⟨s, h', hm, hbl, ?_⟩
  have hno : findFit s.heap (adjust 5000) = some none :=
    findFit_none hS.heap (show ∀ b ∈ (initLayout 4096).blocks, ¬ Fits (adjust 5000) b by decide)
  rcases free_after_malloc (s := s) ⟨4096, s, [], hi, .refl⟩ (n := 5000) (by decide) (by decide) hm with
    ⟨hf, _⟩ | ⟨_, hgrown, hlist⟩
  · rw [hno] at hf
    exact absurd hf (by simp)
  · rw [hlist, hgrown, hbl, hbrk]
    decide

end Malloc
