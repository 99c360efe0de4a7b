import ApueToyCodes.Malloc.Correctness.Refine

/-!
# `Malloc.Correctness.MallocSim` — search, placement, heap growth and `mm_malloc`

`findFit_rel` follows the walk of `find_fit` along the tagged blocks, `place_rel` the two branches of
`place`, `extendHeap_rel` the growth over the old epilogue and the merge with a free last block.
`mmMalloc_rel` puts them together: for a request whose block size fits in a positive `int`, `mm_malloc`
returns what `Layout.malloc` returns and leaves a heap that spells out its layout.
-/

namespace Malloc
open ByteMem Blocks

section Rel

variable {h : Heap} {L : Layout}

/-! ## `find_fit` -/

/-- The walk over tagged blocks up to the epilogue finds the first fit. -/
theorem findFitLoop_eq {m : Mem} {size e : Nat} (he : get m (hdrp e) = 1) :
    ∀ (bs : List Block) (fuel p : Nat), Contig p bs e → (∀ b ∈ bs, Tagged m b) → bs.length < fuel →
      findFitLoop m size fuel p = some ((bs.find? fun b => decide (Fits size b)).map Block.addr) := by
  intro bs
  induction bs with
  | nil =>
      intro fuel p hc _ hf
      obtain ⟨k, rfl⟩ : ∃ k, fuel = k + 1 := ⟨fuel - 1, by simp only [List.length_nil] at hf; omega⟩
      have hp : p = e := hc
      have h0 : getSize m (hdrp p) = 0 := by rw [getSize_eq, hp, he]
      simp [findFitLoop, h0]
  | cons b bs ih =>
      intro fuel p hc ht hf
      obtain ⟨k, rfl⟩ : ∃ k, fuel = k + 1 := ⟨fuel - 1, by simp only [List.length_cons] at hf; omega⟩
      have htb := ht b List.mem_cons_self
      have hsz := htb.size_ge
      have hrec := ih k b.next hc.2 (fun c hcm => ht c (List.mem_cons_of_mem _ hcm))
        (by simp only [List.length_cons] at hf; omega)
      rw [findFitLoop, ← hc.1]
      simp only [htb.getSize, htb.getAlloc, htb.nextBlkp, hrec]
      rw [if_pos (by omega)]
      by_cases hfit : Fits size b
      · have : b.alloc.toNat = 0 ∧ b.size ≥ size := ⟨by rw [hfit.1]; rfl, hfit.2⟩
        rw [if_pos this, List.find?_cons_of_pos (by simpa using hfit)]
        rfl
      · have : ¬ (b.alloc.toNat = 0 ∧ b.size ≥ size) := by
          rintro ⟨h1, h2⟩
          refine hfit ⟨?_, h2⟩
          cases hb : b.alloc <;> simp_all
        rw [if_neg this, List.find?_cons_of_neg (by simpa using hfit)]

/-- The fuel of `findFit` is enough for every heap. -/
theorem HeapRel.length_lt (hR : HeapRel h L) : (prologue h.memHeap :: L.blocks).length < maxHeap := by
  have h1 := hR.contig.length_le (k := 8) fun b hb => (hR.tagged b hb).size_ge
  have h2 := hR.brk_le
  simp only [maxHeap] at *
  omega

/-- **`find_fit` finds the first fit**, for any `size_t` value. -/
theorem findFit_rel (hR : HeapRel h L) (size : Nat) :
    findFit h size = some ((L.blocks.find? fun b => decide (Fits size b)).map Block.addr) := by
  -- the walk starts at the prologue, which is allocated
  have hpro : ¬ Fits size (prologue h.memHeap) := fun hf => absurd hf.1 (by simp [prologue])
  unfold findFit
  rw [hR.listp, findFitLoop_eq hR.epilogue _ _ _ hR.contig hR.tagged hR.length_lt,
    List.find?_cons_of_neg (by simpa using hpro)]

theorem findFit_none (hR : HeapRel h L) {size : Nat} (hno : ∀ b ∈ L.blocks, ¬ Fits size b) :
    findFit h size = some none := by
  rw [findFit_rel hR, List.find?_eq_none.mpr (by simpa using hno)]
  rfl

theorem findFit_some (hR : HeapRel h L) {size : Nat} {X Y : List Block} {b : Block}
    (hbs : L.blocks = X ++ b :: Y) (hX : ∀ c ∈ X, ¬ Fits size c) (hb : Fits size b) :
    findFit h size = some (some b.addr) := by
  have hXn : (X.find? fun c => decide (Fits size c)) = none :=
    List.find?_eq_none.mpr (by simpa using hX)
  rw [findFit_rel hR, hbs, List.find?_append, hXn, Option.none_or,
    List.find?_cons_of_pos (by simpa using hb)]
  rfl

/-! ## `place` -/

/-- The unsigned subtraction of `place` does not wrap where the block is large enough. -/
theorem sub_size {a n : Nat} (hab : a ≤ n) (hlt : n < 2 ^ 32) : (n + 2 ^ 64 - a) % 2 ^ 64 = n - a := by
  omega

/-- `place` with a remainder of 16 bytes or more: the block is split. -/
theorem place_split {m : Mem} {b : Block} {a : Nat} (htb : Tagged m b) (ha8 : a % 8 = 0) (ha16 : 16 ≤ a)
    (hs : 16 ≤ b.size - a) :
    place m b.addr a = setTags (setTags m ⟨b.addr, a, true⟩) ⟨b.addr + a, b.size - a, false⟩ := by
  have hlt := htb.size_lt
  have hdv := htb.size_dvd
  have had := htb.addr_ge
  set j : Block := ⟨b.addr, a, true⟩ with hj
  set k : Block := ⟨b.addr + a, b.size - a, false⟩ with hk
  have hjt : tagOf j < 2 ^ 32 := by simp only [hj, tagOf_alloc]; omega
  have hkt : tagOf k < 2 ^ 32 := by simp only [hk, tagOf_free]; omega
  have h1 := put_hdrp_ftrp (m := m) (b := j) hjt ha8
  have h2 := nextBlkp_setTags (m := m) (b := j) hjt ha8 (by simp only [hj]; omega) had
  have h3 := put_hdrp_ftrp (m := setTags m j) (b := k) hkt (by simp only [hk]; omega)
  have hja : j.addr = b.addr := rfl
  have hkn : k.addr = j.next := rfl
  have hkt' : tagOf k = b.size - a := rfl
  rw [hja] at h1 h2
  unfold place
  simp only [htb.getSize, sub_size (by omega : a ≤ b.size) hlt, pack_one ha8, pack_zero]
  rw [if_pos (by simpa [dsize] using hs), ← tagOf_alloc (a := b.addr) (s := a), ← hj, h1, h2, ← hkn,
    ← hkt', h3]

/-- `place` with a smaller remainder: the whole block is taken. -/
theorem place_whole {m : Mem} {b : Block} {a : Nat} (htb : Tagged m b) (hab : a ≤ b.size)
    (hs : ¬ 16 ≤ b.size - a) : place m b.addr a = setTags m ⟨b.addr, b.size, true⟩ := by
  have hlt := htb.size_lt
  have hdv := htb.size_dvd
  unfold place
  simp only [htb.getSize, sub_size hab hlt, pack_one hdv]
  rw [if_neg (by simpa [dsize] using hs), ← tagOf_alloc (a := b.addr) (s := b.size)]
  exact put_hdrp_ftrp (b := ⟨b.addr, b.size, true⟩) (by simp only [tagOf_alloc]; omega) hdv

/-- What `place` leaves in a tagged tiling: the carved list, only `b`'s bytes changed. -/
theorem place_tags {m : Mem} {s e a : Nat} {X Y : List Block} {b : Block}
    (hc : Contig s (X ++ b :: Y) e) (ht : ∀ c ∈ X ++ b :: Y, Tagged m c)
    (ha8 : a % 8 = 0) (ha16 : 16 ≤ a) (hab : a ≤ b.size) :
    (∀ c ∈ X ++ (carve 16 a b ++ Y), Tagged (place m b.addr a) c) ∧ Frame m (place m b.addr a) b := by
  have htb : Tagged m b := ht b (by simp)
  have hlt := htb.size_lt
  have hdv := htb.size_dvd
  have had := htb.addr_ge
  -- the blocks beside `b` need the frame only
  suffices hcarved : (∀ c ∈ carve 16 a b, Tagged (place m b.addr a) c) ∧ Frame m (place m b.addr a) b by
    obtain ⟨hin, hfr⟩ := hcarved
    refine ⟨fun c hcm => ?_, hfr⟩
    have hside := hfr.tagged_beside hc ht
    simp only [List.mem_append] at hcm
    rcases hcm with h1 | h1 | h1
    · exact hside c (List.mem_append_left _ h1)
    · exact hin c h1
    · exact hside c (List.mem_append_right _ h1)
  by_cases hs : 16 ≤ b.size - a
  · -- split: `j` is allocated, `k` is the remainder
    set j : Block := ⟨b.addr, a, true⟩ with hj
    set k : Block := ⟨b.addr + a, b.size - a, false⟩ with hk
    have hjt : tagOf j < 2 ^ 32 := by simp only [hj, tagOf_alloc]; omega
    have hkt : tagOf k < 2 ^ 32 := by simp only [hk, tagOf_free]; omega
    have hk8 : 8 ≤ k.size := by simp only [hk]; omega
    have hka : 8 ≤ k.addr := by simp only [hk]; omega
    have hkd : k.size % 8 = 0 := by simp only [hk]; omega
    rw [place_split htb ha8 ha16 hs, show carve 16 a b = [j, k] from if_pos hs]
    refine ⟨fun c hcm => ?_, fun x hx => ?_⟩
    · rcases List.mem_cons.mp hcm with rfl | hcm
      · have hjb : Tagged (setTags m j) j := tagged_setTags hjt ha8 (by simp only [hj]; omega) had
        refine hjb.congr (agree_setTags hk8 hka (Or.inl ?_))
        simp only [hj, lo, hi, Block.next]; omega
      · rw [List.mem_singleton.mp hcm]
        exact tagged_setTags hkt hkd hk8 hka
    · have h1 := frame_setTags (m := m) (j := j) (by simp only [hj]; omega) had x
        (by simp only [hj, lo, hi, Block.next] at *; omega)
      have h2 := frame_setTags (m := setTags m j) (j := k) hk8 hka x
        (by simp only [hk, lo, hi, Block.next] at *; omega)
      rw [h2, h1]
  · -- no split: the whole block is allocated
    set j : Block := ⟨b.addr, b.size, true⟩ with hj
    have hjt : tagOf j < 2 ^ 32 := by simp only [hj, tagOf_alloc]; omega
    rw [place_whole htb hab hs, show carve 16 a b = [j] from if_neg hs]
    refine ⟨fun c hcm => ?_, frame_setTags (j := j) htb.size_ge had⟩
    rw [List.mem_singleton.mp hcm]
    exact tagged_setTags hjt hdv htb.size_ge had

/-- **`place` at the first fit is `alloc`.** -/
theorem place_rel (hR : HeapRel h L) {a : BlockSize} {X Y : List Block} {b : Block}
    (hbs : L.blocks = X ++ b :: Y) (hX : ∀ c ∈ X, ¬ Fits a c) (hb : Fits a b) :
    ∃ L', L.alloc a = some (b.addr, L') ∧ HeapRel { h with mem := place h.mem b.addr a } L' ∧
      Kept h.mem (place h.mem b.addr a) L.blocks := by
  obtain ⟨L', hal, hst, hsp, hlm, hbl⟩ := Layout.alloc_of_split hbs hX hb
  have hall : prologue h.memHeap :: L.blocks = (prologue h.memHeap :: X) ++ b :: Y := by
    rw [hbs]; rfl
  have hcon := hR.contig
  have htag := hR.tagged
  rw [hall] at hcon htag
  obtain ⟨hT, hF⟩ := place_tags hcon htag a.2.1 a.2.2 hb.2
  refine ⟨L', hal, ⟨hR.base, hR.listp, hR.top, hst.trans hR.start, hsp.trans hR.stop,
    hlm.trans hR.limit, ?_, ?_⟩, ?_⟩
  · rw [hbl]; exact hT
  · change get (place h.mem b.addr a) (hdrp h.memBrk) = 1
    rw [← hR.epilogue]
    refine load32_congr (hF.agree (Or.inr ?_))
    have := hR.next_le (b := b) (by rw [hbs]; simp)
    simp only [hi, hdrp, wsize]; omega
  · intro c hc hca
    have hne : c ≠ b := fun heq => by rw [heq, hb.1] at hca; exact absurd hca (by simp)
    exact hF.kept L.contig (by rw [hbs]; simp) c hc hne

/-! ## `extend_heap` -/

theorem toInt_small {x : Nat} (h : x < 2 ^ 31) : toInt x = x := by
  unfold toInt
  rw [Nat.mod_eq_of_lt (by omega), if_pos h]

theorem memSbrk_some {incr : Nat} (h' : h.memBrk + incr ≤ h.memMaxAddr) :
    memSbrk h incr = some (h.memBrk, { h with memBrk := h.memBrk + incr }) := by
  unfold memSbrk
  rw [if_neg (by omega)]
  rfl

theorem memSbrk_none {incr : Int} (h' : incr < 0 ∨ h.memMaxAddr < h.memBrk + incr) :
    memSbrk h incr = none := by
  unfold memSbrk
  rw [if_pos (by omega)]

/-- The argument `extend_heap` passes to `mem_sbrk` for a block size. -/
theorem words_size {size : Nat} (h8 : size % 8 = 0) (hlt : size < 2 ^ 64) :
    (if size / wsize % 2 ≠ 0 then (size / wsize + 1) * wsize % 2 ^ 64
      else size / wsize * wsize % 2 ^ 64) = size := by
  simp only [wsize]
  rw [if_neg (by omega)]
  omega

/-- The free block `extend_heap` puts at the old break. -/
def newBlock (h : Heap) (size : Nat) : Block := ⟨h.memBrk, size, false⟩

/-- The memory with its tags and the new epilogue. -/
def grownMem (h : Heap) (size : Nat) : Mem :=
  put (setTags h.mem (newBlock h size)) (hdrp (h.memBrk + size)) 1

/-- `extend_heap` writes these tags and merges. -/
theorem extendHeap_eq {size : BlockSize} (hbrk : 8 ≤ h.memBrk) (hlt : size.1 < 2 ^ 31)
    (hroom : h.memBrk + size ≤ h.memMaxAddr) :
    extendHeap h (size / wsize) = some ((coalesce (grownMem h size) h.memBrk).1,
      { h with memBrk := h.memBrk + size, mem := (coalesce (grownMem h size) h.memBrk).2 }) := by
  have hs := size.2
  have hnt : tagOf (newBlock h size) < 2 ^ 32 := by simp only [newBlock, tagOf_free]; omega
  have h1 := put_hdrp_ftrp (m := h.mem) (b := newBlock h size) hnt hs.1
  have h2 := nextBlkp_setTags (m := h.mem) (b := newBlock h size) hnt hs.1
    (by simp only [newBlock]; omega) hbrk
  have ht : tagOf (newBlock h size) = size.1 := rfl
  have hna : (newBlock h size).addr = h.memBrk := rfl
  have hnx : (newBlock h size).next = h.memBrk + size := rfl
  rw [ht, hna] at h1
  rw [hna, hnx] at h2
  unfold extendHeap
  simp only [words_size hs.1 (by omega : size.1 < 2 ^ 64), toInt_small hlt, memSbrk_some hroom,
    pack_zero, h1, h2]
  rfl

/-- The tiling as `coalesce` finds it in `extend_heap`. -/
theorem extend_around (hR : HeapRel h L) {size : BlockSize} (hroom : h.memBrk + size ≤ h.memMaxAddr)
    {X : List Block} {a : Block} (hXa : prologue h.memHeap :: L.blocks = X ++ [a]) :
    Around (grownMem h size) (h.memHeap + 8) (h.memBrk + size) X a (newBlock h size) [] := by
  have hcon := hR.contig
  have htag := hR.tagged
  rw [hXa] at hcon htag
  have hs := size.2
  have htop := hR.top
  have hle := hR.le_brk
  simp only [maxHeap] at htop
  have hcon' : Contig (h.memHeap + 8) ((X ++ [a]) ++ newBlock h size :: []) (h.memBrk + size) :=
    contig_append.mpr ⟨h.memBrk, hcon, rfl, rfl⟩
  refine ⟨by rw [List.append_assoc] at hcon'; exact hcon', fun c hc => ?_, ?_, by omega⟩
  · have hc' : c ∈ (X ++ [a]) ++ newBlock h size :: [] := by simpa using hc
    have ht := merged_setTags hcon' (fun c hc => htag c (by simpa using hc)) (j := newBlock h size)
      (by simp only [newBlock]; omega) (by simp only [newBlock]; omega) hs.1
      (by simp only [newBlock, tagOf_free]; omega) c hc'
    refine ht.congr (agree_put (Or.inl ?_))
    have := (hcon'.bounds hc').2
    simp only [hi, hdrp, wsize]; omega
  · exact get_put_self (by omega)

/-- The list `coalesce` makes of it is the abstract one. -/
theorem grow_blocks_eq (hR : HeapRel h L) {size : BlockSize} (hroom : L.stop + size ≤ L.limit)
    {X : List Block} {a : Block} (hXa : prologue h.memHeap :: L.blocks = X ++ [a]) :
    prologue h.memHeap :: (L.grow size hroom).blocks = X ++ join a (join (newBlock h size) []) := by
  have hap : NoAdjFree (X ++ [a]) := hXa ▸ apart_prologue h.memHeap L
  have hnew : newBlock h size = ⟨L.stop, size, false⟩ := by rw [hR.stop]; rfl
  rw [← coalesced_mid (newBlock h size) hap List.IsChain.nil,
    show X ++ a :: [newBlock h size] = (X ++ [a]) ++ [newBlock h size] by simp, ← hXa,
    List.cons_append, coalesced_cons, join_of_alloc (prologue_alloc _), hnew]
  rfl

/-- **`extend_heap` grows the heap and merges**; the returned block is the last one. -/
theorem extendHeap_rel (hR : HeapRel h L) {size : BlockSize} (hlt : size.1 < 2 ^ 31)
    (hroom : L.stop + size ≤ L.limit) :
    ∃ h' X j, extendHeap h (size / wsize) = some (j.addr, h') ∧
      (L.grow size hroom).blocks = X ++ [j] ∧ HeapRel h' (L.grow size hroom) ∧
      h'.memMaxAddr = h.memMaxAddr ∧ h'.memHeap = h.memHeap ∧ Kept h.mem h'.mem L.blocks := by
  have hroom' : h.memBrk + size ≤ h.memMaxAddr := by rw [← hR.stop, ← hR.limit]; exact hroom
  have hle := hR.le_brk
  obtain ⟨X, a, hXa⟩ := exists_last (prologue h.memHeap) L.blocks
  have hAr := extend_around hR hroom' hXa
  have hM : Merged _ _ _ X a (newBlock h size) [] (coalesce (grownMem h size) h.memBrk) :=
    coalesce_merged hAr rfl
  have hgrow := grow_blocks_eq hR hroom hXa
  obtain ⟨X', j', hg, _, hjs, _⟩ := Layout.grow_split (L := L) hroom
  -- the block `coalesce` returns ends at the new break, and so does the last block of the layout
  have hj : (coalesce (grownMem h size) h.memBrk).1 = j'.addr := by
    obtain ⟨L₁, j, R₁, hl, _, hjp, _, _, hjhi⟩ := hM.pieces
    have hcon : Contig (h.memHeap + 8) (L₁ ++ j :: R₁) (h.memBrk + size) := hl ▸ contig_mid hAr.contig
    have hend : j'.next = h.memBrk + size := by
      have hc := (L.grow size hroom).contig
      rw [hg] at hc
      obtain ⟨q, _, _, hq⟩ := contig_append.mp hc
      rw [← hR.stop]; exact hq
    have hjend : j.next = h.memBrk + size := by
      have := (hcon.bounds (b := j) (by simp)).2
      simp only [lo, hi, newBlock, Block.next] at *
      omega
    have hmem : j' ∈ L₁ ++ j :: R₁ := by rw [← hl, ← hgrow, hg]; simp
    have hs := size.2
    have hj0 : 0 < j.size := by simp only [lo, hi, newBlock, Block.next] at *; omega
    rw [hjp, hcon.next_inj (b := j) (by simp) hmem hj0 (by omega) (hend.trans hjend.symm)]
  refine ⟨{ h with memBrk := h.memBrk + size, mem := (coalesce (grownMem h size) h.memBrk).2 }, X', j',
    by rw [extendHeap_eq (by omega) hlt hroom', hj], hg,
    ⟨hR.base, hR.listp, hR.top, hR.start, congrArg (· + size.1) hR.stop, hR.limit, ?_, hM.epilogue⟩,
    rfl, rfl, fun c hc hca => ?_⟩
  · change ∀ c ∈ prologue h.memHeap :: (L.grow size hroom).blocks, _
    rw [hgrow]; exact hM.tagged
  · have hcm : c ∈ X ++ join a (join (newBlock h size) []) := by
      rw [← hgrow]
      exact List.mem_cons_of_mem _ ((Layout.mem_grow_of_alloc hca).mpr hc)
    have hcn := hR.next_le hc
    have hs := size.2
    have hself : Agree h.mem (grownMem h size) (lo c) (hi c) := by
      refine (agree_setTags (b := newBlock h size) (by simp only [newBlock]; omega)
        (by simp only [newBlock]; omega) (Or.inl ?_)).trans (agree_put (Or.inl ?_))
      · simp only [lo, hi, newBlock]; omega
      · simp only [hi, hdrp, wsize]; omega
    exact hself.trans (hM.kept hAr.contig c hcm hca)

/-- A refused growth changes nothing. -/
theorem extendHeap_none {size : Nat} (h8 : size % 8 = 0) (hlt : size < 2 ^ 64)
    (hno : toInt size < 0 ∨ (h.memMaxAddr : Int) < h.memBrk + toInt size) :
    extendHeap h (size / wsize) = none := by
  unfold extendHeap
  simp only [words_size h8 hlt, memSbrk_none hno]

/-! ## `mm_malloc` -/

/-- In range, the code's rounding is the mathematical one. -/
theorem adjust_eq {n : Nat} (hn : n + 15 < 2 ^ 64) : adjust n = roundUp n := by
  unfold adjust roundUp
  simp only [dsize]
  split
  · rfl
  · rw [show n + 8 + 8 - 1 = n + 15 by omega, Nat.mod_eq_of_lt hn, Nat.mul_comm]

theorem mmMalloc_zero (h : Heap) : mmMalloc h 0 = some (none, h) := rfl

/-- A block is found. -/
theorem mmMalloc_of_fit {n p : Nat} (hn : 0 < n) (hf : findFit h (adjust n) = some (some p)) :
    mmMalloc h n = some (some p, { h with mem := place h.mem p (adjust n) }) := by
  unfold mmMalloc
  simp only [if_neg (Nat.not_le.mpr hn), hf]

/-- No block is found, and the heap grows. -/
theorem mmMalloc_of_grow {n bp : Nat} {h₁ : Heap} (hn : 0 < n) (hf : findFit h (adjust n) = some none)
    (he : extendHeap h (max (adjust n) chunksize / wsize) = some (bp, h₁)) :
    mmMalloc h n = some (some bp, { h₁ with mem := place h₁.mem bp (adjust n) }) := by
  unfold mmMalloc
  simp only [if_neg (Nat.not_le.mpr hn), hf, he]

/-- No block is found, and the heap cannot grow. -/
theorem mmMalloc_of_full {n : Nat} (hn : 0 < n) (hf : findFit h (adjust n) = some none)
    (he : extendHeap h (max (adjust n) chunksize / wsize) = none) : mmMalloc h n = some (none, h) := by
  unfold mmMalloc
  simp only [if_neg (Nat.not_le.mpr hn), hf, he]

/-- **`mm_malloc` implements `Layout.malloc`** when the block size fits in a positive `int`. -/
theorem mmMalloc_rel (hR : HeapRel h L) {n : Nat} (hn : 0 < n) (hfit : roundUp n < 2 ^ 31) :
    ∃ h', mmMalloc h n = some ((L.malloc (blockSize n)).1, h') ∧
      HeapRel h' (L.malloc (blockSize n)).2 ∧ h'.memHeap = h.memHeap ∧
      Kept h.mem h'.mem L.blocks ∧ ((L.malloc (blockSize n)).1 = none → h' = h) := by
  have hle := le_roundUp n
  have hadj : adjust n = (blockSize n).1 := adjust_eq (by omega)
  have hgrow : max (adjust n) chunksize = (growth (blockSize n)).1 := by rw [hadj]; rfl
  have hgrowlt : (growth (blockSize n)).1 < 2 ^ 31 := by
    show max (roundUp n) 4096 < 2 ^ 31
    omega
  rcases L.alloc_cases (blockSize n) with ⟨hnone, hno⟩ | ⟨X, b, Y, hbs, hX, hb⟩
  · have hff : findFit h (adjust n) = some none := hadj ▸ findFit_none hR hno
    by_cases hroom : L.stop + growth (blockSize n) ≤ L.limit
    · -- grow, then place at the new last block
      obtain ⟨h₁, X', j, hext, hg, hR₁, hmax, hheap, hk₁⟩ := extendHeap_rel hR hgrowlt hroom
      obtain ⟨X'', j'', hg', hX', hj'⟩ := Layout.alloc_grow hno hroom
      obtain ⟨rfl, hjj⟩ : X'' = X' ∧ j'' = j := by
        have := hg'.symm.trans hg
        simpa using List.append_inj' this rfl
      subst hjj
      obtain ⟨L', hal, hR', hk₂⟩ := place_rel hR₁ hg hX' hj'
      rw [Layout.malloc_of_grow hnone hroom hal]
      refine ⟨{ h₁ with mem := place h₁.mem j''.addr (blockSize n) }, ?_, hR', hheap, ?_, by simp⟩
      · rw [← hadj]
        exact mmMalloc_of_grow hn hff (hgrow ▸ hext)
      · exact hk₁.trans hk₂ fun c hc hca => (Layout.mem_grow_of_alloc hca).mpr hc
    · -- no room: `NULL`, nothing written
      rw [Layout.malloc_of_full hnone hroom]
      refine ⟨h, ?_, hR, rfl, fun c _ _ => Agree.refl, fun _ => rfl⟩
      have hext : extendHeap h ((growth (blockSize n)).1 / wsize) = none := by
        refine extendHeap_none (growth (blockSize n)).2.1 (by omega) (Or.inr ?_)
        rw [toInt_small hgrowlt]
        rw [hR.stop, hR.limit] at hroom
        omega
      exact mmMalloc_of_full hn hff (hgrow ▸ hext)
  · obtain ⟨L', hal, hR', hk⟩ := place_rel hR hbs hX hb
    rw [Layout.malloc_of_fit hal]
    refine ⟨{ h with mem := place h.mem b.addr (blockSize n) }, ?_, hR', rfl, hk, by simp⟩
    rw [← hadj]
    exact mmMalloc_of_fit hn (hadj ▸ findFit_some hR hbs hX hb)

/-! ## `mm_init` -/

/-- The heap `mm_init` hands to its `extend_heap`: prologue and epilogue only. -/
def initHeap (base : Nat) (m : Mem) : Heap where
  mem := put (put (put (put m base 0) (base + 1 * wsize) (pack dsize 1)) (base + 2 * wsize)
    (pack dsize 1)) (base + 3 * wsize) (pack 0 1)
  memHeap := base
  memBrk := base + 16
  memMaxAddr := base + maxHeap
  heapListp := base + 2 * wsize

/-- The layout of `initHeap`. -/
def emptyLayout (base : Nat) : Layout :=
  Layout.empty (base + 16) (base + maxHeap) (by simp only [maxHeap]; omega)

theorem initHeap_rel {base : Nat} (hb : base % 8 = 0) (m : Mem) :
    HeapRel (initHeap base m) (emptyLayout base) := by
  refine ⟨hb, rfl, rfl, rfl, rfl, rfl, ?_, ?_⟩
  · intro c hc
    rw [List.mem_singleton.mp hc]
    have hp : pack dsize 1 = 9 := pack_one (Nat.mod_self 8)
    have h1 : get (initHeap base m).mem (base + 1 * wsize) = 9 := by
      simp only [initHeap, hp, wsize]
      rw [get_put_ne (by omega), get_put_ne (by omega), get_put_self (by omega)]
    have h2 : get (initHeap base m).mem (base + 2 * wsize) = 9 := by
      simp only [initHeap, hp, wsize]
      rw [get_put_ne (by omega), get_put_self (by omega)]
    exact ⟨h1, h2, Nat.mod_self 8, Nat.le_refl 8, Nat.le_add_left _ _⟩
  · exact get_put_self (v := pack 0 1) (by decide)

/-- The layout `mm_init` builds: one free block of `CHUNKSIZE` bytes. -/
def initLayout (base : Nat) : Layout :=
  (emptyLayout base).grow ⟨4096, by decide⟩ (by simp only [emptyLayout, Layout.empty, maxHeap]; omega)

/-- `mm_init` after its `mem_sbrk`. Stated for any heap, so that the kernel never computes with
    addresses. -/
theorem mmInit_of_sbrk {h h₁ h₂ h₃ : Heap} {p q : Nat} (hs : memSbrk h (4 * wsize) = some (p, h₁))
    (h₂eq : h₂ = { h₁ with
      mem := put (put (put (put h₁.mem p 0) (p + 1 * wsize) (pack dsize 1)) (p + 2 * wsize)
        (pack dsize 1)) (p + 3 * wsize) (pack 0 1)
      heapListp := p + 2 * wsize })
    (hext : extendHeap h₂ (chunksize / wsize) = some (q, h₃)) : mmInit h = some h₃ := by
  subst h₂eq
  simp only [mmInit, hs, hext]

/-- **`mm_init` succeeds** on a fresh 8-aligned heap and leaves one free block. -/
theorem mmInit_rel {base : Nat} (hb : base % 8 = 0) (m : Mem) :
    ∃ h, mmInit (memInit base m) = some h ∧ HeapRel h (initLayout base) ∧ h.memHeap = base := by
  have hroom : (emptyLayout base).stop + 4096 ≤ (emptyLayout base).limit := by
    simp only [emptyLayout, Layout.empty, maxHeap]; omega
  have hchunk : (⟨4096, by decide⟩ : BlockSize).1 < 2 ^ 31 := by decide
  obtain ⟨h, X, j, hext, _, hR, _, hheap, _⟩ := extendHeap_rel (initHeap_rel hb m) hchunk hroom
  refine ⟨h, ?_, hR, hheap⟩
  have hs : memSbrk (memInit base m) (4 * wsize)
      = some (base, { memInit base m with memBrk := base + 16 }) := by
    have h16 : (memInit base m).memBrk + 16 ≤ (memInit base m).memMaxAddr := by
      simp only [memInit, maxHeap]; omega
    exact memSbrk_some h16
  exact mmInit_of_sbrk hs rfl hext

end Rel

end Malloc
