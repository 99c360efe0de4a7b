import ApueToyCodes.Lib.BlockList

/-!
# `Malloc.Layout` — the abstract allocator

What the allocator is for, without memory: a `Layout` is a division of the heap into blocks that is well
formed by construction (it tiles, sizes are legal, no two free blocks are neighbours), `malloc` takes the
first block that fits and grows the heap when there is none, `free` gives a block back and merges.

The concrete `mmMalloc`/`mmFree` are shown to implement these in `Malloc.Correctness.Refine`; everything
said here about block lists then holds of the C code.
-/

namespace Malloc
open Blocks

/-- A legal block size: a multiple of eight of at least `2*DSIZE`. -/
abbrev BlockSize := { a : Nat // a % 8 = 0 ∧ 16 ≤ a }

/-- The block size that serves a request of `n` bytes: payload and tags, rounded up. -/
def roundUp (n : Nat) : Nat := if n ≤ 8 then 16 else (n + 15) / 8 * 8

theorem roundUp_legal (n : Nat) : roundUp n % 8 = 0 ∧ 16 ≤ roundUp n := by
  unfold roundUp; split <;> omega

/-- The payload and both tags fit. -/
theorem le_roundUp (n : Nat) : n + 8 ≤ roundUp n := by
  unfold roundUp; split <;> omega

def blockSize (n : Nat) : BlockSize := ⟨roundUp n, roundUp_legal n⟩

/-- How far the heap grows for a block of size `a`. -/
def growth (a : BlockSize) : BlockSize := ⟨max a.1 4096, by
  have := a.2
  rcases Nat.le_total a.1 4096 with h | h
  · rw [Nat.max_eq_right h]; decide
  · rw [Nat.max_eq_left h]; exact this⟩

/-- A division of `[start, stop)` into blocks. -/
@[ext] structure Layout where
  start  : Nat
  stop   : Nat
  limit  : Nat
  blocks : List Block
  contig : Contig start blocks stop
  sizes  : ∀ b ∈ blocks, b.size % 8 = 0 ∧ 16 ≤ b.size
  apart  : NoAdjFree blocks
  stop_le : stop ≤ limit

namespace Layout

/-- Legal sizes add up to legal sizes. -/
theorem legal_add (a b : Nat) (ha : a % 8 = 0 ∧ 16 ≤ a) (hb : b % 8 = 0 ∧ 16 ≤ b) :
    (a + b) % 8 = 0 ∧ 16 ≤ a + b := by omega

/-- No block yet. -/
def empty (start limit : Nat) (h : start ≤ limit) : Layout where
  start := start
  stop := start
  limit := limit
  blocks := []
  contig := rfl
  sizes := by simp
  apart := List.IsChain.nil
  stop_le := h

/-- Give back the block at `p`. -/
def free (L : Layout) (p : Nat) : Layout where
  start := L.start
  stop := L.stop
  limit := L.limit
  blocks := coalesced (L.blocks.map (release [p]))
  contig := contig_coalesced (contig_map_release L.contig)
  sizes := by
    refine forall_size_coalesced legal_add fun b hb => ?_
    obtain ⟨c, hc, rfl⟩ := List.mem_map.mp hb
    rw [release_size]; exact L.sizes c hc
  apart := noAdjFree_coalesced _
  stop_le := L.stop_le

/-- Add `size` bytes of free space at the end. -/
def grow (L : Layout) (size : BlockSize) (h : L.stop + size ≤ L.limit) : Layout where
  start := L.start
  stop := L.stop + size
  limit := L.limit
  blocks := coalesced (L.blocks ++ [⟨L.stop, size, false⟩])
  contig := by
    have hnew : Contig L.stop [⟨L.stop, size, false⟩] (L.stop + size) := ⟨rfl, rfl⟩
    exact contig_coalesced (contig_append.mpr ⟨L.stop, L.contig, hnew⟩)
  sizes := by
    refine forall_size_coalesced legal_add fun b hb => ?_
    rcases List.mem_append.mp hb with hb | hb
    · exact L.sizes b hb
    · rw [List.mem_singleton.mp hb]; exact size.2
  apart := noAdjFree_coalesced _
  stop_le := h

/-- The layout after carving `a` bytes out of the first fit. -/
def afterFit (L : Layout) (a : BlockSize) (r : Nat × List Block)
    (h : firstFit 16 a L.blocks = some r) : Layout where
  start := L.start
  stop := L.stop
  limit := L.limit
  blocks := r.2
  contig := by
    obtain ⟨X, b, Y, hbs, _, hb, _, hr⟩ := firstFit_eq_some (h : firstFit 16 a.1 L.blocks = some (r.1, r.2))
    rw [hr]; exact contig_append_carve hb.2 (hbs ▸ L.contig)
  sizes := by
    obtain ⟨X, b, Y, hbs, _, hb, _, hr⟩ := firstFit_eq_some (h : firstFit 16 a.1 L.blocks = some (r.1, r.2))
    have hsb := L.sizes b (by simp [hbs])
    have hsa := a.2
    rw [hr]
    intro c hc
    rcases List.mem_append.mp hc with hc | hc
    · exact L.sizes c (by simp [hbs, hc])
    rcases List.mem_append.mp hc with hc | hc
    · unfold carve at hc
      split at hc
      · simp only [List.mem_cons, List.not_mem_nil, or_false] at hc
        rcases hc with rfl | rfl
        · exact hsa
        · have := hb.2
          dsimp only; omega
      · rw [List.mem_singleton.mp hc]; exact hsb
    · exact L.sizes c (by simp [hbs, hc])
  apart := by
    obtain ⟨X, b, Y, hbs, _, hb, _, hr⟩ := firstFit_eq_some (h : firstFit 16 a.1 L.blocks = some (r.1, r.2))
    rw [hr]; exact noAdjFree_carve hb.1 (hbs ▸ L.apart)
  stop_le := L.stop_le

/-- Allocate `a` bytes in the first free block they fit in. -/
def alloc (L : Layout) (a : BlockSize) : Option (Nat × Layout) :=
  match h : firstFit 16 a L.blocks with
  | none   => none
  | some r => some (r.1, L.afterFit a r h)

/-- Allocate `a` bytes, growing the heap if no free block fits. -/
def malloc (L : Layout) (a : BlockSize) : Option Nat × Layout :=
  match L.alloc a with
  | some (p, L') => (some p, L')
  | none =>
    if h : L.stop + growth a ≤ L.limit then
      match (L.grow (growth a) h).alloc a with
      | some (p, L') => (some p, L')
      | none         => (none, L) -- cannot happen: the new space fits (`alloc_grow`)
    else (none, L)

/-! ## `alloc` -/

/-- What `alloc` returns is read off any split of the blocks at the first fit. -/
theorem alloc_of_split {L : Layout} {a : BlockSize} {X Y : List Block} {b : Block}
    (hbs : L.blocks = X ++ b :: Y) (hX : ∀ c ∈ X, ¬ Fits a c) (hb : Fits a b) :
    ∃ L', L.alloc a = some (b.addr, L') ∧ L'.start = L.start ∧ L'.stop = L.stop ∧
      L'.limit = L.limit ∧ L'.blocks = X ++ (carve 16 a b ++ Y) := by
  have hf : firstFit 16 a L.blocks = some (b.addr, X ++ (carve 16 a b ++ Y)) := by
    rw [hbs]; exact firstFit_append hX hb
  refine ⟨L.afterFit a _ hf, ?_, rfl, rfl, rfl, rfl⟩
  unfold alloc
  split
  · rename_i h; rw [hf] at h; exact absurd h (by simp)
  · rename_i r h
    have hr : r = (b.addr, X ++ (carve 16 a b ++ Y)) := Option.some.inj (h.symm.trans hf)
    subst hr; rfl

theorem alloc_eq_none {L : Layout} {a : BlockSize} :
    L.alloc a = none ↔ ∀ b ∈ L.blocks, ¬ Fits a b := by
  rw [← firstFit_eq_none (q := 16)]
  unfold alloc
  split
  · rename_i h; simp [h]
  · rename_i r h; simp [h]

/-- A layout has no room for `a`, or splits at its first fit. -/
theorem alloc_cases (L : Layout) (a : BlockSize) :
    (L.alloc a = none ∧ ∀ b ∈ L.blocks, ¬ Fits a b) ∨
    ∃ X b Y, L.blocks = X ++ b :: Y ∧ (∀ c ∈ X, ¬ Fits a c) ∧ Fits a b := by
  rcases firstFit_cases a.1 L.blocks with h | h
  · exact Or.inl ⟨alloc_eq_none.mpr h, h⟩
  · exact Or.inr h

/-- An allocation names its first fit. -/
theorem alloc_eq_some {L L' : Layout} {a : BlockSize} {p : Nat} (h : L.alloc a = some (p, L')) :
    ∃ X b Y, L.blocks = X ++ b :: Y ∧ (∀ c ∈ X, ¬ Fits a c) ∧ Fits a b ∧ p = b.addr ∧
      L'.start = L.start ∧ L'.stop = L.stop ∧ L'.blocks = X ++ (carve 16 a b ++ Y) := by
  rcases L.alloc_cases a with ⟨hn, _⟩ | ⟨X, b, Y, hbs, hX, hb⟩
  · rw [hn] at h; exact absurd h (by simp)
  obtain ⟨L₁, hal, hst, hsp, _, hbl⟩ := alloc_of_split hbs hX hb
  rw [h, Option.some.injEq, Prod.mk.injEq] at hal
  obtain ⟨rfl, rfl⟩ := hal
  exact ⟨X, b, Y, hbs, hX, hb, rfl, hst, hsp, hbl⟩

/-! ## Growing -/

/-- Growing lengthens the trailing free region. -/
theorem grow_blocks {L : Layout} {size : BlockSize} (h : L.stop + size ≤ L.limit) :
    (L.grow size h).blocks = extendLast L.stop size L.blocks := coalesced_extend L.apart

/-- After growing, the new space (with the old trailing free block, if any) is the first and only fit, and
    lies at the end. -/
theorem grow_split {L : Layout} {size : BlockSize} (h : L.stop + size ≤ L.limit) :
    ∃ X j, (L.grow size h).blocks = X ++ [j] ∧ j.alloc = false ∧ size.1 ≤ j.size ∧
      (∀ c ∈ X, c ∈ L.blocks) := by
  rw [grow_blocks]
  rcases List.eq_nil_or_concat L.blocks with hn | ⟨X, a, hX⟩
  · rw [hn]
    exact ⟨[], ⟨L.stop, size, false⟩, rfl, rfl, Nat.le_refl _, fun c hc => nomatch hc⟩
  · rw [List.concat_eq_append] at hX
    rw [hX, extendLast_concat, extendLast]
    cases ha : a.alloc with
    | true =>
        -- the last block is allocated and stays apart from the new space
        rw [if_neg (by decide)]
        refine ⟨X ++ [a], ⟨L.stop, size, false⟩, ?_, rfl, Nat.le_refl _, fun c hc => hc⟩
        rw [List.append_assoc]
        rfl
    | false =>
        -- the last block is free and takes the new space in
        rw [if_pos rfl]
        refine ⟨X, ⟨a.addr, a.size + size, false⟩, rfl, rfl, Nat.le_add_left _ _, ?_⟩
        intro c hc
        exact List.mem_append_left _ hc

/-- With no fit before, a grown layout has its fit at the end, so `malloc` succeeds. -/
theorem alloc_grow {L : Layout} {a : BlockSize} (hno : ∀ b ∈ L.blocks, ¬ Fits a b)
    (h : L.stop + growth a ≤ L.limit) :
    ∃ X j, (L.grow (growth a) h).blocks = X ++ [j] ∧ (∀ c ∈ X, ¬ Fits a c) ∧ Fits a j := by
  obtain ⟨X, j, hg, hj, hs, hX⟩ := grow_split h
  have ha : a.1 ≤ (growth a).1 := Nat.le_max_left _ _
  exact ⟨X, j, hg, fun c hc => hno c (hX c hc), hj, Nat.le_trans ha hs⟩

/-! ## The three outcomes of `malloc` -/

theorem malloc_of_fit {L L' : Layout} {a : BlockSize} {p : Nat} (h : L.alloc a = some (p, L')) :
    L.malloc a = (some p, L') := by
  unfold malloc; rw [h]

theorem malloc_of_grow {L L' : Layout} {a : BlockSize} {p : Nat} (h0 : L.alloc a = none)
    (h : L.stop + growth a ≤ L.limit) (h1 : (L.grow (growth a) h).alloc a = some (p, L')) :
    L.malloc a = (some p, L') := by
  unfold malloc; rw [h0]
  simp only [dif_pos h, h1]

theorem malloc_of_full {L : Layout} {a : BlockSize} (h0 : L.alloc a = none)
    (h : ¬ L.stop + growth a ≤ L.limit) : L.malloc a = (none, L) := by
  unfold malloc; rw [h0]
  simp only [dif_neg h]

theorem malloc_cases (L : Layout) (a : BlockSize) :
    (∃ p L', L.alloc a = some (p, L') ∧ L.malloc a = (some p, L')) ∨
    (L.alloc a = none ∧ ∃ h p L', (L.grow (growth a) h).alloc a = some (p, L') ∧
      L.malloc a = (some p, L')) ∨
    (L.alloc a = none ∧ ¬ L.stop + growth a ≤ L.limit ∧ L.malloc a = (none, L)) := by
  rcases hal : L.alloc a with _ | ⟨p, L'⟩
  · by_cases h : L.stop + growth a ≤ L.limit
    · obtain ⟨X, j, hg, hX, hj⟩ := alloc_grow (alloc_eq_none.mp hal) h
      obtain ⟨L', hL', _⟩ := alloc_of_split hg hX hj
      exact Or.inr (Or.inl ⟨rfl, h, j.addr, L', hL', malloc_of_grow hal h hL'⟩)
    · exact Or.inr (Or.inr ⟨rfl, h, malloc_of_full hal h⟩)
  · exact Or.inl ⟨p, L', rfl, malloc_of_fit hal⟩

/-! ## Allocated blocks -/

/-- Different blocks of a layout have different addresses. -/
theorem addr_inj (L : Layout) {b c : Block} (hb : b ∈ L.blocks) (hc : c ∈ L.blocks)
    (h : c.addr = b.addr) : c = b :=
  L.contig.addr_inj (fun d hd => by have := (L.sizes d hd).2; omega) hb hc h

/-- `free p` drops the block at `p` from the allocated ones and keeps the others. -/
theorem mem_free_of_alloc {L : Layout} {p : Nat} {c : Block} (hc : c.alloc = true) :
    c ∈ (L.free p).blocks ↔ c ∈ L.blocks ∧ c.addr ≠ p := by
  change c ∈ coalesced _ ↔ _
  rw [mem_coalesced_of_alloc hc, List.mem_map]
  constructor
  · rintro ⟨b, hb, rfl⟩
    by_cases hp : b.addr ∈ [p]
    · rw [release_of_mem hp] at hc; exact absurd hc Bool.false_ne_true
    · rw [release_of_not_mem hp]; exact ⟨hb, by simpa using hp⟩
  · rintro ⟨hb, hp⟩
    exact ⟨c, hb, release_of_not_mem (by simpa using hp)⟩

/-- Growing keeps the allocated blocks. -/
theorem mem_grow_of_alloc {L : Layout} {size : BlockSize} {h : L.stop + size ≤ L.limit} {c : Block}
    (hc : c.alloc = true) : c ∈ (L.grow size h).blocks ↔ c ∈ L.blocks := by
  change c ∈ coalesced _ ↔ _
  rw [mem_coalesced_of_alloc hc, List.mem_append, List.mem_singleton]
  refine or_iff_left fun h => ?_
  rw [h] at hc; exact absurd hc (by simp)

/-- `alloc` adds one allocated block, at the address it returns, where no allocated block was. -/
theorem mem_alloc_of_alloc {L L' : Layout} {a : BlockSize} {p : Nat} (h : L.alloc a = some (p, L')) :
    ∃ j, j.alloc = true ∧ j.addr = p ∧ a.1 ≤ j.size ∧ j ∈ L'.blocks ∧
      (∀ c ∈ L.blocks, c.alloc = true → c.addr ≠ p) ∧
      ∀ c, c.alloc = true → (c ∈ L'.blocks ↔ c ∈ L.blocks ∨ c = j) := by
  obtain ⟨X, b, Y, hbs, hX, hb, rfl, _, _, hbl⟩ := alloc_eq_some h
  have hmem : ∀ c, c.alloc = true →
      (c ∈ L'.blocks ↔ c ∈ L.blocks ∨ some c = (carve 16 a b).head?) := by
    intro c hc
    rw [hbl, hbs]; exact mem_append_carve_of_alloc hb.1 hc
  obtain ⟨j, hj, hja, hjp, hjs⟩ : ∃ j, (carve 16 a b).head? = some j ∧ j.alloc = true ∧
      j.addr = b.addr ∧ a.1 ≤ j.size := by
    unfold carve
    split
    · exact ⟨_, rfl, rfl, rfl, Nat.le_refl _⟩
    · exact ⟨_, rfl, rfl, rfl, hb.2⟩
  refine ⟨j, hja, hjp, hjs, (hmem j hja).mpr (Or.inr hj.symm), fun c hc hca hcp => ?_, fun c hc => ?_⟩
  · have := L.addr_inj (by rw [hbs]; simp) hc hcp
    rw [this, hb.1] at hca; exact absurd hca (by simp)
  · rw [hmem c hc, hj, Option.some.injEq]

/-- `malloc` keeps every allocated block; on success it adds exactly one, fresh and large enough. -/
theorem mem_malloc_of_alloc (L : Layout) (a : BlockSize) :
    ((L.malloc a).1 = none ∧ (L.malloc a).2 = L) ∨
    ∃ p j, (L.malloc a).1 = some p ∧ j.alloc = true ∧ j.addr = p ∧ a.1 ≤ j.size ∧
      j ∈ (L.malloc a).2.blocks ∧ (∀ c ∈ L.blocks, c.alloc = true → c.addr ≠ p) ∧
      ∀ c, c.alloc = true → (c ∈ (L.malloc a).2.blocks ↔ c ∈ L.blocks ∨ c = j) := by
  rcases L.malloc_cases a with ⟨p, L', hal, hm⟩ | ⟨_, hroom, p, L', hal, hm⟩ | ⟨_, _, hm⟩
  · rw [hm]
    obtain ⟨j, hj, hjp, hjs, hjm, hfresh, hiff⟩ := mem_alloc_of_alloc hal
    exact Or.inr ⟨p, j, rfl, hj, hjp, hjs, hjm, hfresh, hiff⟩
  · rw [hm]
    obtain ⟨k, hk, hkp, hks, hkm, hfresh, hiff⟩ := mem_alloc_of_alloc hal
    refine Or.inr ⟨_, k, rfl, hk, hkp, hks, hkm, fun c hc hca => ?_, fun c hc => ?_⟩
    · exact hfresh c ((mem_grow_of_alloc hca).mpr hc) hca
    · rw [hiff c hc, mem_grow_of_alloc hc]
  · rw [hm]
    exact Or.inl ⟨rfl, rfl⟩

end Layout

end Malloc
