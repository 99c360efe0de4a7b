import Mathlib.Data.Finset.Dedup
import ApueToyCodes.Malloc.Correctness.Safety

/-!
# `Malloc.Correctness.FreeOrder` — the order of frees does not matter

Freeing a list of live blocks one after the other, each `mm_free` merging at once, reaches the normal form
of the layout with all of them released. The normal form depends on the set of blocks only.
-/

namespace Malloc
open ByteMem Blocks Runs

/-- Free the blocks at `ps`, in order. -/
def mmFreeAll (h : Heap) (ps : List Nat) : Heap := ps.foldl mmFree h

/-- The abstract counterpart. -/
def Layout.freeAll (L : Layout) (ps : List Nat) : Layout := ps.foldl Layout.free L

namespace Layout

/-- **Freeing in sequence is releasing at once and merging.** -/
theorem freeAll_blocks (L : Layout) (ps : List Nat) :
    (L.freeAll ps).blocks = coalesced (L.blocks.map (release ps)) := by
  induction ps generalizing L with
  | nil =>
      have hid : L.blocks.map (release []) = L.blocks := by
        rw [show (release [] : Block → Block) = id from funext release_nil, List.map_id]
      rw [hid, coalesced_of_noAdjFree L.apart]; rfl
  | cons p ps ih =>
      have hstep : (L.free p).blocks = coalesced (L.blocks.map (release [p])) := rfl
      change ((L.free p).freeAll ps).blocks = _
      rw [ih, hstep, coalesced_map_release, List.map_map]
      congr 2
      exact funext fun b => release_release [p] ps b

/-- Release depends on the set of addresses only. -/
theorem release_congr {ps qs : List Nat} (h : ∀ p, p ∈ ps ↔ p ∈ qs) : release ps = release qs := by
  funext b
  unfold release
  simp only [h b.addr]

/-- A tiling of a non-empty range by free blocks merges into one block. -/
theorem coalesced_all_free {bs : List Block} {s e : Nat} (hc : Contig s bs e) (hne : bs ≠ [])
    (hf : ∀ b ∈ bs, b.alloc = false) : coalesced bs = [⟨s, e - s, false⟩] := by
  induction bs generalizing s with
  | nil => exact absurd rfl hne
  | cons b bs ih =>
      have hb := hf b List.mem_cons_self
      obtain ⟨ha, hrest⟩ := hc
      have hle := hrest.le
      have hbeta : b = ⟨s, b.size, false⟩ := by cases b; simp_all
      cases bs with
      | nil =>
          have hsz : b.size = e - s := by
            have : b.next = e := hrest
            simp only [Block.next] at this
            omega
          rw [coalesced_cons, coalesced_nil, hbeta, hsz]; rfl
      | cons c cs =>
          have hcf := fun d hd => hf d (List.mem_cons_of_mem b hd)
          rw [coalesced_cons, ih hrest (by simp) hcf, join_of_free hb rfl, ha]
          simp only [Block.next] at *
          congr 2
          omega

end Layout

/-- Freeing distinct live blocks in sequence follows the abstract allocator. -/
theorem mmFreeAll_rel {h : Heap} {L : Layout} {ps : List Nat} (hR : HeapRel h L) (hnd : ps.Nodup)
    (hlive : ∀ p ∈ ps, ∃ b ∈ L.blocks, b.alloc = true ∧ b.addr = p) :
    HeapRel (mmFreeAll h ps) (L.freeAll ps) ∧ (mmFreeAll h ps).memHeap = h.memHeap ∧
      (mmFreeAll h ps).memBrk = h.memBrk := by
  induction ps generalizing h L with
  | nil => exact ⟨hR, rfl, rfl⟩
  | cons p ps ih =>
      obtain ⟨hp, hnd'⟩ := List.nodup_cons.mp hnd
      obtain ⟨b, hb, hba, rfl⟩ := hlive p List.mem_cons_self
      have hR' := (mmFree_rel hR hb).1
      refine ih hR' hnd' fun q hq => ?_
      obtain ⟨c, hc, hca, rfl⟩ := hlive q (List.mem_cons_of_mem _ hq)
      -- `c` is another block, so it is still allocated
      exact ⟨c, (Layout.mem_free_of_alloc hca).mpr ⟨hc, fun heq => hp (heq ▸ hq)⟩, hca, rfl⟩

/-- **Free-order independence.** Over every reachable heap, freeing a set of live blocks in any two orders
    gives the same block list; freeing all of them leaves one free block between prologue and epilogue. -/
theorem free_order_independent {s : Sys} (hs : Reachable s) (S : Finset Nat) (hS : S ⊆ s.live)
    {ps qs : List Nat} (hps : ps.Nodup) (hqs : qs.Nodup) (hp : ps.toFinset = S) (hq : qs.toFinset = S) :
    blockList (mmFreeAll s.heap ps) = blockList (mmFreeAll s.heap qs) ∧
    (S = s.live → blockList (mmFreeAll s.heap ps)
      = [⟨s.heap.memHeap + 8, 8, true⟩,
         ⟨s.heap.memHeap + 16, s.heap.memBrk - (s.heap.memHeap + 16), false⟩]) := by
  obtain ⟨L, hL⟩ := reachable_rel hs
  have hlive : ∀ ps : List Nat, ps.toFinset = S → ∀ p ∈ ps, ∃ b ∈ L.blocks, b.alloc = true ∧ b.addr = p :=
    fun ps h p hpm => (hL.live p).mp (hS (h ▸ List.mem_toFinset.mpr hpm))
  obtain ⟨hRp, hhp, _⟩ := mmFreeAll_rel hL.heap hps (hlive ps hp)
  obtain ⟨hRq, hhq, _⟩ := mmFreeAll_rel hL.heap hqs (hlive qs hq)
  have hmem : ∀ x, x ∈ ps ↔ x ∈ qs := fun x => by
    rw [← List.mem_toFinset, ← List.mem_toFinset, hp, hq]
  refine ⟨?_, fun hall => ?_⟩
  · rw [hRp.blockList, hRq.blockList, hhp, hhq, Layout.freeAll_blocks, Layout.freeAll_blocks,
      Layout.release_congr hmem]
  · have hfree : ∀ b ∈ L.blocks.map (release ps), b.alloc = false := by
      intro b hb
      obtain ⟨c, hc, rfl⟩ := List.mem_map.mp hb
      cases hca : c.alloc with
      | false => rw [release_of_free hca]; exact hca
      | true =>
          have : c.addr ∈ ps := by
            rw [← List.mem_toFinset, hp, hall, hL.live]
            exact ⟨c, hc, hca, rfl⟩
          rw [release_of_mem this]; rfl
    -- `mm_init` left at least one block
    have hne : L.blocks.map (release ps) ≠ [] := by
      intro hnil
      have hc := L.contig
      rw [List.map_eq_nil_iff.mp hnil] at hc
      have : L.start = L.stop := hc
      have := hL.grown
      omega
    rw [hRp.blockList, hhp, Layout.freeAll_blocks,
      Layout.coalesced_all_free (contig_map_release L.contig) hne hfree, hL.heap.start, hL.heap.stop]
    rfl

/-- Two blocks freed in both orders, and the heap left as one free block. -/
theorem free_order_independent_two : ∃ s : Sys,
    blockList (mmFreeAll s.heap [4112, 4144]) = blockList (mmFreeAll s.heap [4144, 4112]) ∧
    blockList (mmFreeAll s.heap [4112, 4144]) = [⟨4104, 8, true⟩, ⟨4112, 4096, false⟩] := by
  obtain ⟨s₀, hi, _⟩ := exists_initial (show 4096 % 8 = 0 by decide) (fun _ => 0)
  obtain ⟨hS₀, hb₀⟩ := initial_rel hi
  obtain ⟨s₁, hs₁⟩ := exists_malloc_step hS₀ (n := 20) (by decide)
  obtain ⟨hS₁, hb₁, _⟩ := step_sim hS₀ hs₁
  obtain ⟨s₂, hs₂⟩ := exists_malloc_step hS₁ (n := 20) (by decide)
  obtain ⟨hS₂, hb₂, _⟩ := step_sim hS₁ hs₂
  set L := ((initLayout 4096).act (.malloc 20 ((initLayout 4096).result 20))).act
    (.malloc 20 (((initLayout 4096).act (.malloc 20 ((initLayout 4096).result 20))).result 20)) with hL
  have hbl : L.blocks = [⟨4112, 32, true⟩, ⟨4144, 32, true⟩, ⟨4176, 4032, false⟩] := by decide
  have hstop : L.stop = 8208 := by decide
  have hlive : s₂.live = {4112, 4144} := by
    ext p
    rw [hS₂.live p, hbl, Finset.mem_insert, Finset.mem_singleton]
    constructor
    · rintro ⟨b, hb, hba, rfl⟩
      simp only [List.mem_cons, List.not_mem_nil, or_false] at hb
      rcases hb with rfl | rfl | rfl
      · exact Or.inl rfl
      · exact Or.inr rfl
      · exact absurd hba (by decide)
    · rintro (rfl | rfl)
      · exact ⟨⟨4112, 32, true⟩, List.mem_cons_self, rfl, rfl⟩
      · exact ⟨⟨4144, 32, true⟩, List.mem_cons_of_mem _ List.mem_cons_self, rfl, rfl⟩
  have hheap : s₂.heap.memHeap = 4096 := by rw [hb₂, hb₁, hb₀]
  have hbrk : s₂.heap.memBrk = 8208 := by rw [← hS₂.heap.stop, hstop]
  have hp : [4112, 4144].toFinset = ({4112, 4144} : Finset Nat) := by decide
  have hq : [4144, 4112].toFinset = ({4112, 4144} : Finset Nat) := by decide
  have h := free_order_independent (s := s₂) ⟨4096, s₀, _, hi, .cons hs₁ (.cons hs₂ .refl)⟩
    {4112, 4144} (by rw [hlive]) (by decide) (by decide) hp hq
  refine ⟨s₂, h.1, ?_⟩
  rw [h.2 hlive.symm, hheap, hbrk]

end Malloc
