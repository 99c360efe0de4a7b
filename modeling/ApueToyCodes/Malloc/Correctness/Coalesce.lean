import ApueToyCodes.Malloc.Tags

/-!
# `Malloc.Correctness.Coalesce` — `coalesce` merges a free block with its free neighbours

Around a free block `b` with left neighbour `a` in a tagged tiling `L ++ a :: b :: R`, the four branches of
`coalesce` all do the same thing on the block list: it becomes `L ++ join a (join b R)`. On the memory they
write the tags of the merged block and nothing else. The four equations `coalesce_eq_*` follow the source;
`Merged` collects what they have in common, and is all that the refinement uses.
-/

namespace Malloc
open ByteMem Blocks

/-- `m'` is `m` with only bytes of `j` changed. -/
def Frame (m m' : Mem) (j : Block) : Prop := ∀ x, ¬(lo j ≤ x ∧ x < hi j) → m' x = m x

theorem Frame.refl (m : Mem) (j : Block) : Frame m m j := fun _ _ => rfl

/-- What lies beside `j` keeps its bytes. -/
theorem Frame.agree {m m' : Mem} {j : Block} (h : Frame m m' j) {lo' hi' : Nat}
    (hd : hi' ≤ lo j ∨ hi j ≤ lo') : Agree m m' lo' hi' :=
  fun x h1 h2 => h x (by omega)

theorem frame_setTags {m : Mem} {j : Block} (hs : 8 ≤ j.size) (ha : 8 ≤ j.addr) :
    Frame m (setTags m j) j := by
  intro x hx
  -- one byte is a range of its own
  by_cases h : x < lo j
  · have hd : x + 1 ≤ lo j ∨ hi j ≤ x := Or.inl (by omega)
    exact agree_setTags hs ha hd x (by omega) (by omega)
  · have hd : x + 1 ≤ lo j ∨ hi j ≤ x := Or.inr (by omega)
    exact agree_setTags hs ha hd x (by omega) (by omega)

/-- The pieces of a tagged tiling around `a` and `b`, with the epilogue at its end. -/
structure Around (m : Mem) (s e : Nat) (L : List Block) (a b : Block) (R : List Block) : Prop where
  contig   : Contig s (L ++ a :: b :: R) e
  tagged   : ∀ c ∈ L ++ a :: b :: R, Tagged m c
  epilogue : get m (hdrp e) = 1
  small    : e - s < 2 ^ 32

/-- What `coalesce` leaves: the merged list with the free block `j` it returns, only `j`'s bytes changed. -/
structure Merged (m : Mem) (s e : Nat) (L : List Block) (a b : Block) (R : List Block)
    (r : Nat × Mem) : Prop where
  pieces   : ∃ L₁ j R₁, L ++ join a (join b R) = L₁ ++ j :: R₁ ∧ j.alloc = false ∧ r.1 = j.addr ∧
               Frame m r.2 j ∧ (lo j ≤ lo b ∧ hi b ≤ hi j)
  tagged   : ∀ c ∈ L ++ join a (join b R), Tagged r.2 c
  epilogue : get r.2 (hdrp e) = 1

section Cases

variable {m : Mem} {s e : Nat} {L R : List Block} {a b : Block}

theorem Around.tagged_left (h : Around m s e L a b R) : Tagged m a := h.tagged a (by simp)

theorem Around.tagged_mid (h : Around m s e L a b R) : Tagged m b := h.tagged b (by simp)

theorem Around.adjacent (h : Around m s e L a b R) : b.addr = a.next := by
  obtain ⟨q, _, _, hb, _⟩ := contig_append.mp h.contig
  exact hb

/-- `PREV_BLKP` finds the left neighbour. -/
theorem Around.prevBlkp (h : Around m s e L a b R) : prevBlkp m b.addr = a.addr := by
  rw [h.adjacent, h.tagged_left.prevBlkp]

/-- The header after `b` is the epilogue or the next block's. -/
theorem Around.next_header (h : Around m s e L a b R) :
    (R = [] ∧ getAlloc m (hdrp b.next) = 1) ∨
    ∃ n R', R = n :: R' ∧ n.addr = b.next ∧ Tagged m n := by
  obtain ⟨q, _, _, _, hR⟩ := contig_append.mp h.contig
  cases R with
  | nil =>
      have he : b.next = e := hR
      rw [getAlloc_eq, he, h.epilogue]
      exact Or.inl ⟨rfl, rfl⟩
  | cons n R' => exact Or.inr ⟨n, R', rfl, hR.1, h.tagged n (by simp)⟩

/-- Writing the tags of a merged block keeps the rest of the tiling tagged. -/
theorem merged_setTags {L₁ R₁ : List Block} {j : Block} (hc : Contig s (L₁ ++ j :: R₁) e)
    (ht : ∀ c ∈ L₁ ++ R₁, Tagged m c) (hsz : 8 ≤ j.size) (had : 8 ≤ j.addr) (hdv : j.size % 8 = 0)
    (hlt : tagOf j < 2 ^ 32) : ∀ c ∈ L₁ ++ j :: R₁, Tagged (setTags m j) c := by
  obtain ⟨hL, hR⟩ := hc.sides
  intro c hmem
  rcases List.mem_append.mp hmem with hcL | hcR
  · refine (ht c (List.mem_append_left _ hcL)).congr (agree_setTags hsz had (Or.inl ?_))
    have := hL c hcL
    simp only [lo, hi]; omega
  · rcases List.mem_cons.mp hcR with rfl | hcR
    · exact tagged_setTags hlt hdv hsz had
    · refine (ht c (List.mem_append_right _ hcR)).congr (agree_setTags hsz had (Or.inr ?_))
      have := hR c hcR
      simp only [lo, hi]; omega

/-- The epilogue word is not one of a block's tags. -/
theorem epilogue_setTags {j : Block} (he : get m (hdrp e) = 1) (hj : j.next ≤ e) (hsz : 8 ≤ j.size)
    (had : 8 ≤ j.addr) : get (setTags m j) (hdrp e) = 1 := by
  rw [← he]
  refine load32_congr (agree_setTags hsz had (Or.inr ?_))
  simp only [hdrp, wsize, hi]; omega

/-- The three merging branches: their result is `setTags` of the merged block `j`. -/
theorem merged_of_setTags (h : Around m s e L a b R) {L₁ R₁ : List Block} {j : Block} {p : Nat}
    (hl : L ++ join a (join b R) = L₁ ++ j :: R₁) (hsub : ∀ c ∈ L₁ ++ R₁, c ∈ L ++ a :: b :: R)
    (hfree : j.alloc = false) (hp : p = j.addr) (hlo : j.addr ≤ b.addr) (hhi : b.next ≤ j.next)
    (had : 8 ≤ j.addr) (hdv : j.size % 8 = 0) : Merged m s e L a b R (p, setTags m j) := by
  have hcon : Contig s (L₁ ++ j :: R₁) e := by
    rw [← hl]; exact contig_mid h.contig
  have hbd := hcon.bounds (b := j) (by simp)
  have hsmall := h.small
  have hb8 := h.tagged_mid.size_ge
  have hsz : 8 ≤ j.size := by simp only [Block.next] at *; omega
  have hlt : tagOf j < 2 ^ 32 := by
    simp only [tagOf, hfree, Bool.toNat_false, Block.next] at *; omega
  refine ⟨⟨L₁, j, R₁, hl, hfree, hp, frame_setTags hsz had, ?_⟩, ?_, ?_⟩
  · simp only [lo, hi]; omega
  · rw [hl]
    exact merged_setTags hcon (fun c hc => h.tagged c (hsub c hc)) hsz had hdv hlt
  · exact epilogue_setTags h.epilogue hbd.2 hsz had

/-- No merge to the right of `b` unless its neighbour there is free. -/
theorem join_of_next_alloc (hR : ∀ n ∈ R.head?, n.alloc = true) : join b R = b :: R := by
  cases R with
  | nil => rfl
  | cons n R' => exact join_of_apart (Or.inr (hR n rfl))

/-- A header is read as before when another word was written. -/
theorem Tagged.getSize_put {c : Block} (ht : Tagged m c) {p v : Nat}
    (hp : hdrp c.addr + 4 ≤ p ∨ p + 4 ≤ hdrp c.addr) : Malloc.getSize (put m p v) (hdrp c.addr) = c.size :=
  getSize_of_get ((get_put_ne hp).trans ht.header) ht.size_dvd

/-- The two writes of a merge with the left neighbour are the tags of the merged block. -/
theorem put_put_eq_setTags {j : Block} {q v : Nat} (hq : j.next = q) (hv : tagOf j = v) :
    put (put m (hdrp j.addr) v) (q - 8) v = setTags m j := by
  subst hq hv
  rfl

/-- After the two writes of a merge with `a`, `PREV_BLKP` still finds `a`: neither is its footer. -/
theorem Around.prevBlkp_merge (h : Around m s e L a b R) {p v w : Nat} (hp : b.addr ≤ p) :
    Malloc.prevBlkp (put (put m (hdrp a.addr) v) p w) b.addr = a.addr := by
  have hta := h.tagged_left
  have hadj := h.adjacent
  have ha8 := hta.size_ge
  have haa := hta.addr_ge
  have hfoot : getSize (put (put m (hdrp a.addr) v) p w) (b.addr - dsize) = a.size := by
    refine getSize_of_get (b := a) ?_ hta.size_dvd
    rw [get_put_ne (by simp only [dsize, Block.next] at *; omega),
      get_put_ne (by simp only [hdrp, wsize, dsize, Block.next] at *; omega), hadj]
    exact hta.footer
  unfold Malloc.prevBlkp
  rw [hfoot, hadj]; exact Nat.add_sub_cancel _ _

/-! ## The four branches

Each is an equation first: what `coalesce` returns and what it writes. -/

/-- Branch 1: both neighbours allocated, nothing is written. -/
theorem coalesce_eq_alloc_alloc (h : Around m s e L a b R) (ha : a.alloc = true)
    (hn : getAlloc m (hdrp b.next) = 1) : coalesce m b.addr = (b.addr, m) := by
  unfold coalesce
  simp only [h.prevBlkp, h.tagged_left.getAlloc, h.tagged_mid.nextBlkp, hn, ha, Bool.toNat_true]
  rfl

/-- Branch 2: the left neighbour is free. -/
theorem coalesce_eq_free_alloc (h : Around m s e L a b R) (ha : a.alloc = false)
    (hn : getAlloc m (hdrp b.next) = 1) :
    coalesce m b.addr = (a.addr, setTags m ⟨a.addr, a.size + b.size, false⟩) := by
  have hta := h.tagged_left
  have htb := h.tagged_mid
  have hadj := h.adjacent
  have ha8 := hta.size_ge
  have hb8 := htb.size_ge
  set v := b.size + a.size with hv
  set m₁ := put m (hdrp a.addr) v with hm₁
  -- `p`'s header is not the word just written
  have hhb : getSize m₁ (hdrp b.addr) = b.size := by
    rw [hm₁, htb.getSize_put (by simp only [hdrp, wsize, Block.next] at *; omega)]
  have hftr : ftrp m₁ b.addr = b.next - 8 := by
    unfold ftrp; rw [hhb]; rfl
  set m₂ := put m₁ (b.next - 8) v with hm₂
  -- nor is the left footer, so the last `PREV_BLKP` still finds `a`
  have hprev : prevBlkp m₂ b.addr = a.addr := h.prevBlkp_merge (by simp only [Block.next] at *; omega)
  have hc : coalesce m b.addr = (a.addr, m₂) := by
    unfold coalesce
    simp only [h.prevBlkp, hta.getAlloc, htb.nextBlkp, hn, ha, Bool.toNat_false, htb.getSize,
      hta.getSize, pack_zero, ← hv, ← hm₁, hftr, ← hm₂, hprev]
    simp
  have hjn : Block.next ⟨a.addr, a.size + b.size, false⟩ = b.next := by simp only [Block.next] at *; omega
  have htag : tagOf ⟨a.addr, a.size + b.size, false⟩ = v := by rw [tagOf_free, hv, Nat.add_comm]
  have hset : m₂ = setTags m ⟨a.addr, a.size + b.size, false⟩ := put_put_eq_setTags hjn htag
  rw [hc, hset]

/-- Branch 3: the right neighbour `n` is free. The footer is found through the header just written. -/
theorem coalesce_eq_alloc_free {n : Block} {R' : List Block} (h : Around m s e L a b (n :: R'))
    (ha : a.alloc = true) (hn : n.alloc = false) (hna : n.addr = b.next) :
    coalesce m b.addr = (b.addr, setTags m ⟨b.addr, b.size + n.size, false⟩) := by
  have hta := h.tagged_left
  have htb := h.tagged_mid
  have htn : Tagged m n := h.tagged n (by simp)
  have hdvb := htb.size_dvd
  have hdvn := htn.size_dvd
  set j : Block := ⟨b.addr, b.size + n.size, false⟩ with hjdef
  have htag : tagOf j = b.size + n.size := rfl
  have hdvj : j.size % 8 = 0 := by simp only [hjdef]; omega
  -- the header is written first, so the footer address is that of the merged block
  have hlt : tagOf j < 2 ^ 32 := by
    have hcn := h.contig.bounds (b := n) (by simp)
    have hcb := h.contig.bounds (b := b) (by simp)
    have := h.small
    simp only [htag, Block.next] at *; omega
  unfold coalesce
  simp only [h.prevBlkp, hta.getAlloc, htb.nextBlkp, ← hna, htn.getAlloc, hn, ha, Bool.toNat_false,
    Bool.toNat_true, htb.getSize, htn.getSize, pack_zero, ← htag]
  have := put_hdrp_ftrp (m := m) (b := j) hlt hdvj
  simpa [hjdef] using this

/-- Branch 4: both neighbours are free. -/
theorem coalesce_eq_free_free {n : Block} {R' : List Block} (h : Around m s e L a b (n :: R'))
    (ha : a.alloc = false) (hn : n.alloc = false) (hna : n.addr = b.next) :
    coalesce m b.addr = (a.addr, setTags m ⟨a.addr, a.size + (b.size + n.size), false⟩) := by
  have hta := h.tagged_left
  have htb := h.tagged_mid
  have htn : Tagged m n := h.tagged n (by simp)
  have hadj := h.adjacent
  have ha8 := hta.size_ge
  have hb8 := htb.size_ge
  have hn8 := htn.size_ge
  set v := b.size + (a.size + n.size) with hv
  set m₁ := put m (hdrp a.addr) v with hm₁
  -- the headers of `p` and of the next block are not the word just written
  have hnb : nextBlkp m₁ b.addr = n.addr := by
    unfold nextBlkp
    rw [hm₁, htb.getSize_put (by simp only [hdrp, wsize, Block.next] at *; omega), hna]; rfl
  have hftr : ftrp m₁ n.addr = n.next - 8 := by
    unfold ftrp
    rw [hm₁, htn.getSize_put (by simp only [hdrp, wsize, Block.next] at *; omega)]; rfl
  set m₂ := put m₁ (n.next - 8) v with hm₂
  have hprev : prevBlkp m₂ b.addr = a.addr := h.prevBlkp_merge (by simp only [Block.next] at *; omega)
  have hc : coalesce m b.addr = (a.addr, m₂) := by
    unfold coalesce
    simp only [h.prevBlkp, hta.getAlloc, htb.nextBlkp, ← hna, htn.getAlloc, hn, ha, Bool.toNat_false,
      htb.getSize, hta.getSize, htn.getSize, pack_zero, ← hv, ← hm₁, hnb, hftr, ← hm₂, hprev]
    simp
  have hjn : Block.next ⟨a.addr, a.size + (b.size + n.size), false⟩ = n.next := by
    simp only [Block.next] at *; omega
  have htag : tagOf ⟨a.addr, a.size + (b.size + n.size), false⟩ = v := by rw [tagOf_free, hv]; omega
  have hset : m₂ = setTags m ⟨a.addr, a.size + (b.size + n.size), false⟩ := put_put_eq_setTags hjn htag
  rw [hc, hset]

/-! ## What they have in common -/

theorem coalesce_alloc_alloc (h : Around m s e L a b R) (hb : b.alloc = false) (ha : a.alloc = true)
    (hn : getAlloc m (hdrp b.next) = 1) (hR : ∀ n ∈ R.head?, n.alloc = true) :
    Merged m s e L a b R (coalesce m b.addr) := by
  have hl : L ++ join a (join b R) = (L ++ [a]) ++ b :: R := by
    rw [join_of_next_alloc hR, join_of_alloc ha, List.append_assoc]; rfl
  rw [coalesce_eq_alloc_alloc h ha hn]
  refine ⟨⟨L ++ [a], b, R, hl, hb, rfl, Frame.refl m b, Nat.le_refl _, Nat.le_refl _⟩, ?_, h.epilogue⟩
  rw [hl]
  intro c hcm
  exact h.tagged c (by simpa using hcm)

theorem coalesce_free_alloc (h : Around m s e L a b R) (hb : b.alloc = false) (ha : a.alloc = false)
    (hn : getAlloc m (hdrp b.next) = 1) (hR : ∀ n ∈ R.head?, n.alloc = true) :
    Merged m s e L a b R (coalesce m b.addr) := by
  have hdva := h.tagged_left.size_dvd
  have hdvb := h.tagged_mid.size_dvd
  have hadj := h.adjacent
  have hl : L ++ join a (join b R) = L ++ ⟨a.addr, a.size + b.size, false⟩ :: R := by
    rw [join_of_next_alloc hR, join_of_free ha hb]
  rw [coalesce_eq_free_alloc h ha hn]
  refine merged_of_setTags h hl ?_ rfl rfl ?_ ?_ h.tagged_left.addr_ge ?_
  · intro c hcm
    rcases List.mem_append.mp hcm with h1 | h1
    · exact List.mem_append_left _ h1
    · exact List.mem_append_right _ (List.mem_cons_of_mem _ (List.mem_cons_of_mem _ h1))
  · rw [hadj]; exact Nat.le_add_right _ _
  · simp only [Block.next] at *; omega
  · dsimp only; omega

theorem coalesce_alloc_free {n : Block} {R' : List Block} (h : Around m s e L a b (n :: R'))
    (hb : b.alloc = false) (ha : a.alloc = true) (hn : n.alloc = false) (hna : n.addr = b.next) :
    Merged m s e L a b (n :: R') (coalesce m b.addr) := by
  have hdvb := h.tagged_mid.size_dvd
  have hdvn := (h.tagged n (by simp)).size_dvd
  have hl : L ++ join a (join b (n :: R')) = (L ++ [a]) ++ ⟨b.addr, b.size + n.size, false⟩ :: R' := by
    rw [join_of_free hb hn, join_of_alloc ha, List.append_assoc]; rfl
  rw [coalesce_eq_alloc_free h ha hn hna]
  refine merged_of_setTags h hl ?_ rfl rfl (Nat.le_refl _) ?_ h.tagged_mid.addr_ge ?_
  · intro c hcm
    simp only [List.mem_append, List.mem_cons] at hcm ⊢
    tauto
  · simp only [Block.next]; omega
  · dsimp only; omega

theorem coalesce_free_free {n : Block} {R' : List Block} (h : Around m s e L a b (n :: R'))
    (hb : b.alloc = false) (ha : a.alloc = false) (hn : n.alloc = false) (hna : n.addr = b.next) :
    Merged m s e L a b (n :: R') (coalesce m b.addr) := by
  have hdva := h.tagged_left.size_dvd
  have hdvb := h.tagged_mid.size_dvd
  have hdvn := (h.tagged n (by simp)).size_dvd
  have hadj := h.adjacent
  have hl : L ++ join a (join b (n :: R')) = L ++ ⟨a.addr, a.size + (b.size + n.size), false⟩ :: R' := by
    rw [join_of_free hb hn, join_of_free ha rfl]
  rw [coalesce_eq_free_free h ha hn hna]
  refine merged_of_setTags h hl ?_ rfl rfl ?_ ?_ h.tagged_left.addr_ge ?_
  · intro c hcm
    simp only [List.mem_append, List.mem_cons] at hcm ⊢
    tauto
  · rw [hadj]; exact Nat.le_add_right _ _
  · simp only [Block.next] at *; omega
  · dsimp only; omega

/-- **`coalesce` merges.** Around a free block, whatever its neighbours are. -/
theorem coalesce_merged (h : Around m s e L a b R) (hb : b.alloc = false) :
    Merged m s e L a b R (coalesce m b.addr) := by
  rcases h.next_header with ⟨rfl, hn⟩ | ⟨n, R', rfl, hna, htn⟩
  · cases ha : a.alloc with
    | true => exact coalesce_alloc_alloc h hb ha hn (by simp)
    | false => exact coalesce_free_alloc h hb ha hn (by simp)
  · cases hnf : n.alloc with
    | true =>
        have hn : getAlloc m (hdrp b.next) = 1 := by rw [← hna, htn.getAlloc, hnf]; rfl
        cases ha : a.alloc with
        | true => exact coalesce_alloc_alloc h hb ha hn (by simpa using hnf)
        | false => exact coalesce_free_alloc h hb ha hn (by simpa using hnf)
    | false =>
        cases ha : a.alloc with
        | true => exact coalesce_alloc_free h hb ha hnf hna
        | false => exact coalesce_free_free h hb ha hnf hna

end Cases

end Malloc
