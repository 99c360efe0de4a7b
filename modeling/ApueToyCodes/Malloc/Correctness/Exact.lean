import Mathlib.Algebra.GroupWithZero.Nat
import ApueToyCodes.Malloc.Correctness.Refine

/-!
# `Malloc.Correctness.Exact` — what `coalesce` merges, to the byte

The block `coalesce` returns has the sizes of the blocks it merges, in header and footer, and the bytes
written are among the tags of these blocks. The heap needs no more than its tags: neighbours may be free
anywhere, so the block freed last may have free blocks on both sides.
-/

namespace Malloc
open ByteMem Blocks

variable {h : Heap} {m : Mem} {s e x : Nat} {L R bs : List Block} {a b j n : Block} {r : Nat × Mem}

/-- The blocks of a heap from its prologue on, each with its tags; two neighbours may both be free. -/
structure HeapBlocks (h : Heap) (bs : List Block) : Prop where
  contig   : Contig (h.memHeap + 8) bs h.memBrk
  prologue : bs.head? = some (prologue h.memHeap)
  tagged   : ∀ c ∈ bs, Tagged h.mem c
  epilogue : get h.mem (hdrp h.memBrk) = 1
  inside   : h.memBrk ≤ h.memHeap + maxHeap

theorem HeapBlocks.around (hh : HeapBlocks h (L ++ a :: b :: R)) :
    Around h.mem (h.memHeap + 8) h.memBrk L a b R := by
  refine ⟨hh.contig, hh.tagged, hh.epilogue, ?_⟩
  have hinside := hh.inside
  simp only [maxHeap] at hinside
  omega

/-- The free ones of `b` and its neighbours. -/
def mergedWith (a b : Block) (R : List Block) : List Block :=
  [a].filter (fun c => !c.alloc) ++ b :: R.head?.toList.filter fun c => !c.alloc

/-- A byte of the header or the footer of `c`. -/
def InTags (c : Block) (x : Nat) : Prop :=
  hdrp c.addr ≤ x ∧ x < hdrp c.addr + 4 ∨ c.next - 8 ≤ x ∧ x < c.next - 8 + 4

/-- What a merge of `b` with its free neighbours is to leave: where it starts, its size, its tags, and all
    other bytes. -/
structure MergesExactly (m : Mem) (a b : Block) (R : List Block) (r : Nat × Mem) : Prop where
  start : r.1 = if a.alloc = false then a.addr else b.addr
  free  : getAlloc r.2 (hdrp r.1) = 0
  size  : getSize r.2 (hdrp r.1) = ((mergedWith a b R).map Block.size).sum
  agree : get r.2 (ftrp r.2 r.1) = get r.2 (hdrp r.1)
  frame : ∀ x, (∀ c ∈ mergedWith a b R, ¬ InTags c x) → r.2 x = m x

theorem setTags_apply (hx : ¬ InTags j x) : setTags m j x = m x := by
  obtain ⟨hhead, hfoot⟩ := not_or.mp hx
  have h1 : Agree m (put m (hdrp j.addr) (tagOf j)) x (x + 1) := agree_put (by omega)
  have h2 : Agree (put m (hdrp j.addr) (tagOf j)) (setTags m j) x (x + 1) := agree_put (by omega)
  exact (h1.trans h2) x (Nat.le_refl x) (Nat.lt_succ_self x)

/-- The tags say what the block is. -/
theorem MergesExactly.of_tagged (ht : Tagged m j) (hfree : j.alloc = false) {m₀ : Mem}
    (hstart : j.addr = if a.alloc = false then a.addr else b.addr)
    (hsize : j.size = ((mergedWith a b R).map Block.size).sum)
    (hframe : ∀ x, (∀ c ∈ mergedWith a b R, ¬ InTags c x) → m x = m₀ x) :
    MergesExactly m₀ a b R (j.addr, m) := by
  refine ⟨hstart, ?_, ?_, ?_, hframe⟩
  · rw [ht.getAlloc, hfree]
    rfl
  · rw [ht.getSize, hsize]
  · rw [ht.ftrp, ht.footer, ht.header]

/-- A merge that writes the tags of the merged block, which are tags of the first and the last one. -/
theorem MergesExactly.of_setTags (ht : Tagged (setTags m j) j) (hfree : j.alloc = false)
    (hstart : j.addr = if a.alloc = false then a.addr else b.addr) (hwith : mergedWith a b R = bs)
    (hsize : j.size = (bs.map Block.size).sum) {c d : Block} (hc : c ∈ bs) (hd : d ∈ bs)
    (hfirst : c.addr = j.addr) (hlast : d.next = j.next) :
    MergesExactly m a b R (j.addr, setTags m j) := by
  subst hwith
  refine .of_tagged ht hfree hstart hsize fun x hx => setTags_apply ?_
  rintro (hhead | hfoot)
  · rw [← hfirst] at hhead
    exact hx c hc (Or.inl hhead)
  · rw [← hlast] at hfoot
    exact hx d hd (Or.inr hfoot)

/-- The branches where the right neighbour is allocated. -/
theorem Around.mergesExactly_of_next_alloc (h : Around m s e L a b R) (hb : b.alloc = false)
    (hn : getAlloc m (hdrp b.next) = 1) (hR : ∀ n ∈ R.head?, n.alloc = true) :
    MergesExactly m a b R (coalesce m b.addr) := by
  have hright : (R.head?.toList.filter fun c => !c.alloc) = [] := by
    rw [List.filter_eq_nil_iff]
    intro n hnR
    rw [hR n (Option.mem_toList.mp hnR)]
    decide
  have htagged := (coalesce_merged h hb).tagged
  cases ha : a.alloc with
  | true =>
      have hwith : mergedWith a b R = [b] := by
        unfold mergedWith
        rw [hright, List.filter_cons_of_neg (by simp [ha])]
        rfl
      rw [coalesce_eq_alloc_alloc h ha hn]
      refine .of_tagged h.tagged_mid hb ?_ ?_ fun _ _ => rfl
      · rw [ha]
        rfl
      · rw [hwith]
        rfl
  | false =>
      have hwith : mergedWith a b R = [a, b] := by
        unfold mergedWith
        rw [hright, List.filter_cons_of_pos (by simp [ha])]
        rfl
      rw [coalesce_eq_free_alloc h ha hn] at htagged ⊢
      have hj := htagged ⟨a.addr, a.size + b.size, false⟩ (by
        rw [join_of_next_alloc hR, join_of_free ha hb]
        simp)
      refine .of_setTags hj rfl (if_pos ha).symm hwith rfl (c := a) (d := b) ?_ ?_ rfl ?_
      · exact List.mem_cons_self
      · exact List.mem_cons_of_mem _ List.mem_cons_self
      · rw [Block.next, h.adjacent]
        exact Nat.add_assoc _ _ _

/-- The branches where the right neighbour is free. -/
theorem Around.mergesExactly_of_next_free {R' : List Block} (h : Around m s e L a b (n :: R'))
    (hb : b.alloc = false) (hn : n.alloc = false) (hna : n.addr = b.next) :
    MergesExactly m a b (n :: R') (coalesce m b.addr) := by
  have hright : ((n :: R').head?.toList.filter fun c => !c.alloc) = [n] :=
    List.filter_cons_of_pos (by simp [hn])
  have htagged := (coalesce_merged h hb).tagged
  cases ha : a.alloc with
  | true =>
      have hwith : mergedWith a b (n :: R') = [b, n] := by
        unfold mergedWith
        rw [hright, List.filter_cons_of_neg (by simp [ha])]
        rfl
      rw [coalesce_eq_alloc_free h ha hn hna] at htagged ⊢
      have hj := htagged ⟨b.addr, b.size + n.size, false⟩ (by
        rw [join_of_free hb hn, join_of_alloc ha]
        simp)
      refine .of_setTags hj rfl (if_neg (by simp [ha])).symm hwith rfl (c := b) (d := n) ?_ ?_ rfl ?_
      · exact List.mem_cons_self
      · exact List.mem_cons_of_mem _ List.mem_cons_self
      · rw [Block.next, hna]
        exact Nat.add_assoc _ _ _
  | false =>
      have hwith : mergedWith a b (n :: R') = [a, b, n] := by
        unfold mergedWith
        rw [hright, List.filter_cons_of_pos (by simp [ha])]
        rfl
      rw [coalesce_eq_free_free h ha hn hna] at htagged ⊢
      have hj := htagged ⟨a.addr, a.size + (b.size + n.size), false⟩ (by
        rw [join_of_free hb hn, join_of_free ha rfl]
        simp)
      refine .of_setTags hj rfl (if_pos ha).symm hwith rfl (c := a) (d := n) ?_ ?_ rfl ?_
      · exact List.mem_cons_self
      · exact List.mem_cons_of_mem _ (List.mem_cons_of_mem _ List.mem_cons_self)
      · rw [Block.next, hna, Block.next, h.adjacent, Block.next, Block.next]
        dsimp only
        omega

/-- **`coalesce` merges exactly**, in all four cases. -/
theorem coalesce_exact (hh : HeapBlocks h (L ++ a :: b :: R)) (hb : b.alloc = false) :
    MergesExactly h.mem a b R (coalesce h.mem b.addr) := by
  have hAr := hh.around
  rcases hAr.next_header with ⟨rfl, hn⟩ | ⟨n, R', rfl, hna, htn⟩
  · exact hAr.mergesExactly_of_next_alloc hb hn fun n hn => nomatch hn
  · cases hnf : n.alloc with
    | true =>
        have hn : getAlloc h.mem (hdrp b.next) = 1 := by
          rw [← hna, htn.getAlloc, hnf]
          rfl
        exact hAr.mergesExactly_of_next_alloc hb hn (by simpa using hnf)
    | false => exact hAr.mergesExactly_of_next_free hb hnf hna

/-- A heap of three free blocks. -/
def threeFree : Heap where
  mem := setTags (setTags (setTags (setTags (put (fun _ => 0) 4156 1) (prologue 4096)) ⟨4112, 16, false⟩)
    ⟨4128, 16, false⟩) ⟨4144, 16, false⟩
  memHeap := 4096
  memBrk := 4160
  memMaxAddr := 4096 + maxHeap
  heapListp := 4104

/-- The one in the middle is merged with both others. -/
theorem coalesce_exact_three :
    MergesExactly threeFree.mem ⟨4112, 16, false⟩ ⟨4128, 16, false⟩ [⟨4144, 16, false⟩]
      (coalesce threeFree.mem 4128) := by
  have htagged : ∀ c ∈ [prologue 4096] ++ ⟨4112, 16, false⟩ :: ⟨4128, 16, false⟩ :: [⟨4144, 16, false⟩],
      Tagged threeFree.mem c := by
    intro c hc
    rcases List.mem_cons.mp hc with rfl | hc
    · exact ⟨by decide, by decide, rfl, by decide, by decide⟩
    rcases List.mem_cons.mp hc with rfl | hc
    · exact ⟨by decide, by decide, rfl, by decide, by decide⟩
    rcases List.mem_cons.mp hc with rfl | hc
    · exact ⟨by decide, by decide, rfl, by decide, by decide⟩
    · rw [List.mem_singleton.mp hc]
      exact ⟨by decide, by decide, rfl, by decide, by decide⟩
  have hh : HeapBlocks threeFree
      ([prologue 4096] ++ ⟨4112, 16, false⟩ :: ⟨4128, 16, false⟩ :: [⟨4144, 16, false⟩]) :=
    ⟨by decide, rfl, htagged, by decide, by decide⟩
  exact coalesce_exact (b := ⟨4128, 16, false⟩) hh rfl

end Malloc
