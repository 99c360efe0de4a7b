import ApueToyCodes.Malloc.Client
import ApueToyCodes.Malloc.Correctness.MallocSim

/-!
# `Malloc.Correctness.Runs` — runs of the allocator and its clients

Every client action is simulated by an action on the layout (`step_sim`), so every run is (`run_sim`), and
the heap invariant `WellFormed`, which is `HeapRel` to some layout in other words (`wellFormed_of_rel`,
`rel_of_wellFormed`), holds after any run.
-/

namespace Malloc
open ByteMem Blocks Runs

/-! ## Reading the block list off a related heap -/

theorem blocksFrom_eq {m : Mem} {e : Nat} (he : get m (hdrp e) = 1) :
    ∀ (bs : List Block) (fuel p : Nat), Contig p bs e → (∀ b ∈ bs, Tagged m b) → bs.length < fuel →
      blocksFrom m fuel p = bs := by
  intro bs
  induction bs with
  | nil =>
      intro fuel p hc _ hf
      obtain ⟨k, rfl⟩ : ∃ k, fuel = k + 1 := ⟨fuel - 1, by simp only [List.length_nil] at hf; omega⟩
      have hp : p = e := hc
      have h0 : getSize m (hdrp p) = 0 := by rw [getSize_eq, hp, he]
      rw [blocksFrom, if_pos h0]
  | cons b bs ih =>
      intro fuel p hc ht hf
      obtain ⟨k, rfl⟩ : ∃ k, fuel = k + 1 := ⟨fuel - 1, by simp only [List.length_cons] at hf; omega⟩
      have htb := ht b List.mem_cons_self
      have hsz := htb.size_ge
      have hrec := ih k b.next hc.2 (fun c hcm => ht c (List.mem_cons_of_mem _ hcm))
        (by simp only [List.length_cons] at hf; omega)
      rw [blocksFrom, ← hc.1, htb.getSize, if_neg (by omega), htb.getAlloc, htb.nextBlkp, hrec]
      cases b with
      | mk a s al => cases al <;> rfl

variable {h h' : Heap} {L L' : Layout}

/-- A related heap reads back as its layout behind the prologue. -/
theorem HeapRel.blockList (hR : HeapRel h L) :
    Malloc.blockList h = Malloc.prologue h.memHeap :: L.blocks := by
  unfold Malloc.blockList
  rw [hR.listp]
  exact blocksFrom_eq hR.epilogue _ _ _ hR.contig hR.tagged hR.length_lt

theorem HeapRel.mem_liveBlocks (hR : HeapRel h L) {c : Block} :
    c ∈ liveBlocks h ↔ c ∈ L.blocks ∧ c.alloc = true := by
  unfold liveBlocks
  rw [hR.blockList, List.tail_cons, List.mem_filter]

theorem tagOf_eq_pack {b : Block} (h8 : b.size % 8 = 0) : tagOf b = pack b.size b.alloc.toNat := by
  unfold tagOf
  cases b.alloc with
  | true => exact (pack_one h8).symm
  | false => exact (pack_zero _).symm

theorem wellFormed_of_rel (hR : HeapRel h L) : WellFormed h := by
  have hbl := hR.blockList
  refine ⟨hR.base, hR.top, hR.listp, ?_, ?_, ?_, ?_, ?_, hR.epilogue, ?_, ?_⟩
  · rw [hbl, hR.listp]; rfl
  · rw [hbl, hR.listp]; exact hR.contig
  · rw [hbl]; exact L.sizes
  · rw [hbl]
    exact fun b hb => (hR.tagged b hb).header.trans (tagOf_eq_pack (hR.tagged b hb).size_dvd)
  · rw [hbl]
    intro b hb
    rw [(hR.tagged b hb).ftrp, (hR.tagged b hb).footer, (hR.tagged b hb).header]
  · rw [hbl]; exact apart_prologue _ L
  · have h1 := hR.le_brk
    have h2 := hR.brk_le
    rw [hR.top]
    exact ⟨by omega, h2⟩

/-- The invariant determines a layout. -/
theorem rel_of_wellFormed (hw : WellFormed h) : ∃ L, HeapRel h L := by
  obtain ⟨rest, hbl⟩ : ∃ rest, Malloc.blockList h = Malloc.prologue h.memHeap :: rest := by
    have hp := hw.prologue
    cases hb : Malloc.blockList h with
    | nil => rw [hb] at hp; exact absurd hp (by simp)
    | cons b rest =>
        rw [hb, List.head?_cons, Option.some.injEq] at hp
        exact ⟨rest, by rw [hp, hw.listp]; rfl⟩
  have htl := hw.tiles
  have hsz := hw.sizes
  have hap := hw.apart
  rw [hbl] at htl hsz hap
  have hcon : Contig (h.memHeap + 16) rest h.memBrk := htl.2
  refine ⟨⟨h.memHeap + 16, h.memBrk, h.memMaxAddr, rest, hcon, hsz, hap.tail, hw.range.2⟩,
    ⟨hw.aligned, hw.listp, hw.region, rfl, rfl, rfl, ?_, hw.epilogue⟩⟩
  intro b hb
  -- the prologue is the one block of eight bytes
  have hdv : b.size % 8 = 0 ∧ 8 ≤ b.size ∧ 8 ≤ b.addr := by
    rcases List.mem_cons.mp hb with rfl | hr
    · exact ⟨Nat.mod_self 8, Nat.le_refl 8, Nat.le_add_left _ _⟩
    · have h1 := hsz b hr
      have h2 := (hcon.bounds hr).1
      exact ⟨h1.1, by omega, by omega⟩
  have hh : get h.mem (hdrp b.addr) = tagOf b := by
    rw [hw.headers b (by rw [hbl]; exact hb), tagOf_eq_pack hdv.1]
  have hf := hw.footers b (by rw [hbl]; exact hb)
  have hft : ftrp h.mem b.addr = b.next - 8 := by
    unfold ftrp Block.next
    rw [getSize_of_get hh hdv.1]
  rw [hft, hh] at hf
  exact ⟨hh, hf, hdv.1, hdv.2.1, hdv.2.2⟩

/-! ## Simulation -/

/-- The state `s` realises the layout `L`: its heap spells it out and the live pointers are the addresses of
    its allocated blocks. -/
structure SysRel (s : Sys) (L : Layout) : Prop where
  heap  : HeapRel s.heap L
  live  : ∀ p, p ∈ s.live ↔ ∃ b ∈ L.blocks, b.alloc = true ∧ b.addr = p
  grown : L.start < L.stop

/-- What an action does to the layout. -/
def Layout.act (L : Layout) : Act → Layout
  | .malloc n _ => if n = 0 then L else (L.malloc (blockSize n)).2
  | .free p     => L.free p
  | .write _ _  => L

/-- What a `malloc` of the abstract allocator returns. -/
def Layout.result (L : Layout) (n : Nat) : Option Nat :=
  if n = 0 then none else (L.malloc (blockSize n)).1

theorem Layout.start_stop_malloc (L : Layout) (a : BlockSize) :
    (L.malloc a).2.start = L.start ∧ L.stop ≤ (L.malloc a).2.stop := by
  rcases L.malloc_cases a with ⟨p, L', hal, hm⟩ | ⟨_, hroom, p, L', hal, hm⟩ | ⟨_, _, hm⟩
  · obtain ⟨_, _, _, _, _, _, _, hst, hsp, _⟩ := alloc_eq_some hal
    rw [hm]
    exact ⟨hst, Nat.le_of_eq hsp.symm⟩
  · obtain ⟨_, _, _, _, _, _, _, hst, hsp, _⟩ := alloc_eq_some hal
    rw [hm]
    refine ⟨hst, ?_⟩
    rw [hsp]; exact Nat.le_add_right _ _
  · rw [hm]
    exact ⟨rfl, Nat.le_refl _⟩

/-- A client write into a payload misses every tag. -/
theorem write_rel (hR : HeapRel h L) {b : Block} (hb : b ∈ L.blocks) {a : Nat} {v : UInt8}
    (hin : InPayload h b.addr a) : HeapRel { h with mem := store8 h.mem a v } L := by
  obtain ⟨hlo, hhi⟩ := hin
  have htb := hR.tagged b (List.mem_cons_of_mem _ hb)
  rw [htb.getSize] at hhi
  have hb8 := htb.size_ge
  have hbn := hR.next_le hb
  -- a word outside the payload of `b` is read as before
  have hword : ∀ q, q + 4 ≤ b.addr ∨ b.next - 8 ≤ q → get (store8 h.mem a v) q = get h.mem q := by
    intro q hq
    refine load32_congr (agree_store8 ?_)
    simp only [Block.next] at hq
    omega
  have hbm : b ∈ Malloc.prologue h.memHeap :: L.blocks := List.mem_cons_of_mem _ hb
  refine ⟨hR.base, hR.listp, hR.top, hR.start, hR.stop, hR.limit, fun c hc => ?_, ?_⟩
  · have htc := hR.tagged c hc
    have hc8 := htc.size_ge
    have hca := htc.addr_ge
    refine ⟨?_, ?_, htc.size_dvd, htc.size_ge, htc.addr_ge⟩
    · rw [← htc.header]
      refine hword _ ?_
      by_cases hcb : c = b
      · rw [hcb]; left; rw [hdrp_add (by have := htb.addr_ge; omega)]
      · have hd := hR.contig.disjoint hbm hc hcb
        simp only [hdrp, wsize, Block.next] at *
        omega
    · rw [← htc.footer]
      refine hword _ ?_
      by_cases hcb : c = b
      · rw [hcb]; exact Or.inr (Nat.le_refl _)
      · have hd := hR.contig.disjoint hbm hc hcb
        simp only [Block.next] at *
        omega
  · change get (store8 h.mem a v) (hdrp h.memBrk) = 1
    rw [← hR.epilogue]
    refine hword _ (Or.inr ?_)
    simp only [hdrp, wsize]; omega

/-- `live` are the addresses of the allocated blocks of `L`. -/
def Layout.Holds (L : Layout) (live : Finset Nat) : Prop :=
  ∀ p, p ∈ live ↔ ∃ b ∈ L.blocks, b.alloc = true ∧ b.addr = p

/-- A `malloc` adds its result to the live addresses. -/
theorem Layout.Holds.malloc {live : Finset Nat} (hL : L.Holds live) (a : BlockSize) :
    (L.malloc a).2.Holds (live ∪ (L.malloc a).1.toFinset) := by
  intro p
  rcases L.mem_malloc_of_alloc a with ⟨h1, h2⟩ | ⟨q, j, h1, hj, hjq, _, hjm, _, hiff⟩
  · rw [h1, h2, Option.toFinset_none, Finset.union_empty]
    exact hL p
  rw [h1, Option.toFinset_some, Finset.mem_union, Finset.mem_singleton, hL p]
  constructor
  · rintro (⟨b, hb, hba, rfl⟩ | rfl)
    · exact ⟨b, (hiff b hba).mpr (Or.inl hb), hba, rfl⟩
    · exact ⟨j, hjm, hj, hjq⟩
  · rintro ⟨b, hb, hba, rfl⟩
    rcases (hiff b hba).mp hb with h3 | rfl
    · exact Or.inl ⟨b, h3, hba, rfl⟩
    · exact Or.inr hjq

/-- A `free` takes its argument away. -/
theorem Layout.Holds.free {live : Finset Nat} (hL : L.Holds live) (p : Nat) :
    (L.free p).Holds (live.erase p) := by
  intro q
  rw [Finset.mem_erase, hL q]
  constructor
  · rintro ⟨hq, c, hc, hca, rfl⟩
    exact ⟨c, (Layout.mem_free_of_alloc hca).mpr ⟨hc, hq⟩, hca, rfl⟩
  · rintro ⟨c, hc, hca, rfl⟩
    have hcf := (Layout.mem_free_of_alloc hca).mp hc
    exact ⟨hcf.2, c, hcf.1, hca, rfl⟩

/-- **One client action** does to the layout what `Layout.act` says, and a `malloc` returns the abstract
    allocator's result. -/
theorem step_sim {s s' : Sys} {a : Act} (hS : SysRel s L) (hst : Step s a s') :
    SysRel s' (L.act a) ∧ s'.heap.memHeap = s.heap.memHeap ∧
      ∀ n r, a = .malloc n r → r = L.result n := by
  cases hst with
  | @malloc n r h' hfit hm =>
      by_cases hn : n = 0
      · -- `mm_malloc(0)` returns at once
        subst hn
        rw [mmMalloc_zero, Option.some.injEq, Prod.mk.injEq] at hm
        obtain ⟨rfl, rfl⟩ := hm
        refine ⟨⟨hS.heap, fun p => ?_, hS.grown⟩, rfl, fun n r heq => ?_⟩
        · rw [Option.toFinset_none, Finset.union_empty]
          exact hS.live p
        · cases heq
          rfl
      · obtain ⟨h₁, hm', hR', hheap, _, _⟩ := mmMalloc_rel hS.heap (by omega) hfit
        rw [hm', Option.some.injEq, Prod.mk.injEq] at hm
        obtain ⟨rfl, rfl⟩ := hm
        have hact : ∀ r, L.act (.malloc n r) = (L.malloc (blockSize n)).2 := fun _ => if_neg hn
        have hgr := L.start_stop_malloc (blockSize n)
        have hgrown := hS.grown
        rw [hact]
        refine ⟨⟨hR', Layout.Holds.malloc hS.live (blockSize n), by omega⟩, hheap, fun n r heq => ?_⟩
        cases heq
        exact (if_neg hn).symm
  | @free p hp =>
      obtain ⟨b, hb, _, rfl⟩ := (hS.live p).mp hp
      have hlive := Layout.Holds.free hS.live b.addr
      refine ⟨⟨(mmFree_rel hS.heap hb).1, hlive, hS.grown⟩, rfl, fun n r heq => ?_⟩
      cases heq
  | @write p a v hp hin =>
      obtain ⟨b, hb, _, rfl⟩ := (hS.live p).mp hp
      refine ⟨⟨write_rel hS.heap hb hin, hS.live, hS.grown⟩, rfl, fun n r heq => ?_⟩
      cases heq

/-- **A whole run** ends in a state realising some layout. -/
theorem run_sim {s s' : Sys} {tr : List Act} (hS : SysRel s L) (hr : Run Step s tr s') :
    ∃ L', SysRel s' L' := by
  have hstep : ∀ s a s', (∃ L, SysRel s L) → Step s a s' → ∃ L, SysRel s' L := by
    rintro s a s' ⟨L, hS⟩ hst
    exact ⟨L.act a, (step_sim hS hst).1⟩
  exact hr.invariant hstep ⟨L, hS⟩

/-- `mm_init` establishes the simulation. -/
theorem initial_rel {base : Nat} {s : Sys} (hi : Initial base s) :
    SysRel s (initLayout base) ∧ s.heap.memHeap = base := by
  obtain ⟨hb, junk, hinit, hl⟩ := hi
  obtain ⟨h, hm, hR, hheap⟩ := mmInit_rel hb junk
  rw [hinit, Option.some.injEq] at hm
  rw [hm]
  refine ⟨⟨by rw [hm]; exact hR, ?_, ?_⟩, hheap⟩
  · intro p
    rw [hl]
    have hbl : (initLayout base).blocks = [⟨base + 16, 4096, false⟩] := rfl
    simp [hbl]
  · change base + 16 < base + 16 + 4096
    omega

theorem reachable_rel {s : Sys} (hs : Reachable s) : ∃ L, SysRel s L := by
  obtain ⟨base, s₀, tr, hi, hr⟩ := hs
  exact run_sim (initial_rel hi).1 hr

end Malloc
