import Mathlib.Data.List.Chain
import Mathlib.Algebra.BigOperators.Group.List.Basic

/-!
# `Lib.BlockList` — tilings of an address range by free and allocated blocks

The mathematics of a memory region cut into consecutive blocks, each free or allocated, with no allocator in
sight:

* `Contig p bs e`: the blocks `bs` tile `[p, e)`;
* `NoAdjFree bs`: no two neighbours are both free;
* `coalesced bs`: the normal form of `bs`, every maximal run of free blocks merged into one. It is built
  from `join`, the merge of one block with the head of an already merged list;
* `release ps`, `firstFit` and `extendLast`: the edits of an allocator, freeing the blocks at `ps`, carving
  an allocation out of the first free block it fits in, and adding free space at the end.

The algebra that clients rest on is `coalesced_map_release` (merging early or late makes no difference to a
later release), from which any order of releases with immediate merging reaches one normal form.
-/

namespace Blocks

/-- A block: where it starts, how long it is, whether it is allocated. -/
structure Block where
  addr  : Nat
  size  : Nat
  alloc : Bool
deriving DecidableEq, Repr

/-- The address right after a block. -/
def Block.next (b : Block) : Nat := b.addr + b.size

/-! ## Tilings -/

/-- The blocks tile `[p, e)` in order. -/
def Contig : Nat → List Block → Nat → Prop
  | p, [],      e => p = e
  | p, b :: bs, e => b.addr = p ∧ Contig b.next bs e

instance Contig.decidable : ∀ p bs e, Decidable (Contig p bs e)
  | p, [],      e => inferInstanceAs (Decidable (p = e))
  | p, b :: bs, e =>
    have := Contig.decidable b.next bs e
    inferInstanceAs (Decidable (b.addr = p ∧ Contig b.next bs e))

theorem contig_cons {p e : Nat} {b : Block} {bs : List Block} :
    Contig p (b :: bs) e ↔ b.addr = p ∧ Contig b.next bs e := Iff.rfl

theorem contig_append {p e : Nat} {L R : List Block} :
    Contig p (L ++ R) e ↔ ∃ q, Contig p L q ∧ Contig q R e := by
  induction L generalizing p with
  | nil => simp [Contig]
  | cons b L ih => simp only [List.cons_append, contig_cons, ih]; aesop

theorem Contig.le {p e : Nat} {bs : List Block} (h : Contig p bs e) : p ≤ e := by
  induction bs generalizing p with
  | nil => exact Nat.le_of_eq h
  | cons b bs ih =>
      have := ih h.2
      have := h.1
      unfold Block.next at *
      omega

/-- Every block of a tiling lies inside the tiled range. -/
theorem Contig.bounds {p e : Nat} {bs : List Block} (h : Contig p bs e) {b : Block} (hb : b ∈ bs) :
    p ≤ b.addr ∧ b.next ≤ e := by
  obtain ⟨L, R, rfl⟩ := List.append_of_mem hb
  obtain ⟨q, hL, hq, hR⟩ := contig_append.mp h
  exact ⟨hq ▸ hL.le, hR.le⟩

/-- Blocks before `b` end at or below it, blocks after `b` start at or above its end. -/
theorem Contig.sides {p e : Nat} {L R : List Block} {b : Block} (h : Contig p (L ++ b :: R) e) :
    (∀ c ∈ L, c.next ≤ b.addr) ∧ (∀ c ∈ R, b.next ≤ c.addr) := by
  obtain ⟨q, hL, hq, hR⟩ := contig_append.mp h
  exact ⟨fun c hc => hq ▸ (hL.bounds hc).2, fun c hc => (hR.bounds hc).1⟩

/-- Two different blocks of a tiling do not overlap. -/
theorem Contig.disjoint {p e : Nat} {bs : List Block} (h : Contig p bs e) {b c : Block}
    (hb : b ∈ bs) (hc : c ∈ bs) (hne : c ≠ b) : c.next ≤ b.addr ∨ b.next ≤ c.addr := by
  obtain ⟨L, R, rfl⟩ := List.append_of_mem hb
  rcases List.mem_append.mp hc with hL | hR
  · exact Or.inl (h.sides.1 c hL)
  · exact Or.inr (h.sides.2 c ((List.mem_cons.mp hR).resolve_left hne))

/-- Non-empty blocks of a tiling are told apart by their ends. -/
theorem Contig.next_inj {p e : Nat} {bs : List Block} (h : Contig p bs e) {b c : Block} (hb : b ∈ bs)
    (hc : c ∈ bs) (hb0 : 0 < b.size) (hc0 : 0 < c.size) (heq : c.next = b.next) : c = b := by
  by_contra hne
  rcases h.disjoint hb hc hne with hd | hd
  · simp only [Block.next] at *; omega
  · simp only [Block.next] at *; omega

/-- Non-empty blocks of a tiling are told apart by their addresses. -/
theorem Contig.addr_inj {p e : Nat} {bs : List Block} (h : Contig p bs e)
    (hpos : ∀ b ∈ bs, 0 < b.size) {b c : Block} (hb : b ∈ bs) (hc : c ∈ bs)
    (ha : c.addr = b.addr) : c = b := by
  by_contra hne
  have h1 := hpos b hb
  have h2 := hpos c hc
  have hd := h.disjoint hb hc hne
  unfold Block.next at hd
  omega

/-- A tiling by blocks of at least `k` bytes has few blocks. -/
theorem Contig.length_le {p e k : Nat} {bs : List Block} (h : Contig p bs e)
    (hk : ∀ b ∈ bs, k ≤ b.size) : p + k * bs.length ≤ e := by
  induction bs generalizing p with
  | nil => exact Nat.le_of_eq h
  | cons b bs ih =>
      have h1 := ih h.2 (fun c hc => hk c (List.mem_cons_of_mem _ hc))
      have h2 := hk b List.mem_cons_self
      have h3 := h.1
      unfold Block.next at h1
      rw [List.length_cons, Nat.mul_succ]
      omega

/-- In the tiling around a non-empty `b` no other block starts where `b` does. -/
theorem Contig.addr_ne {p e : Nat} {L R : List Block} {b : Block} (h : Contig p (L ++ b :: R) e)
    (hpos : ∀ c ∈ L ++ b :: R, 0 < c.size) :
    (∀ c ∈ L, c.addr ≠ b.addr) ∧ (∀ c ∈ R, c.addr ≠ b.addr) := by
  obtain ⟨hL, hR⟩ := h.sides
  unfold Block.next at hL hR
  refine ⟨fun c hc => ?_, fun c hc => ?_⟩
  · have := hL c hc
    have := hpos c (by simp [hc])
    omega
  · have := hR c hc
    have := hpos b (by simp)
    omega

/-! ## No two free neighbours -/

/-- One of two neighbours is allocated. -/
def Apart (a b : Block) : Prop := a.alloc = true ∨ b.alloc = true

instance : DecidableRel Apart := fun a b => inferInstanceAs (Decidable (a.alloc = true ∨ b.alloc = true))

/-- No two neighbouring blocks are both free. -/
def NoAdjFree (bs : List Block) : Prop := bs.IsChain Apart

instance (bs : List Block) : Decidable (NoAdjFree bs) :=
  inferInstanceAs (Decidable (bs.IsChain Apart))

/-! ## Merging -/

/-- Put `b` in front of a list, merging it with the head when both are free. -/
def join : Block → List Block → List Block
  | b, []      => [b]
  | b, c :: cs =>
    if b.alloc = false ∧ c.alloc = false then ⟨b.addr, b.size + c.size, false⟩ :: cs else b :: c :: cs

/-- The normal form of a block list: every run of free blocks merged into one. -/
def coalesced : List Block → List Block := List.foldr join []

@[simp] theorem coalesced_nil : coalesced [] = [] := rfl

@[simp] theorem coalesced_cons (b : Block) (bs : List Block) :
    coalesced (b :: bs) = join b (coalesced bs) := rfl

theorem coalesced_append (L R : List Block) :
    coalesced (L ++ R) = L.foldr join (coalesced R) := List.foldr_append

theorem join_of_free {b c : Block} {cs : List Block} (hb : b.alloc = false) (hc : c.alloc = false) :
    join b (c :: cs) = ⟨b.addr, b.size + c.size, false⟩ :: cs := if_pos ⟨hb, hc⟩

theorem join_of_apart {b c : Block} {cs : List Block} (h : Apart b c) :
    join b (c :: cs) = b :: c :: cs := by
  refine if_neg ?_
  rintro ⟨hb, hc⟩
  rcases h with h | h
  · rw [hb] at h; exact absurd h (by simp)
  · rw [hc] at h; exact absurd h (by simp)

theorem join_of_alloc {b : Block} (hb : b.alloc = true) (cs : List Block) : join b cs = b :: cs := by
  cases cs with
  | nil => rfl
  | cons c cs => exact join_of_apart (Or.inl hb)

/-- Either the merge does nothing, or both `b` and the head are free and become one block. -/
theorem join_cases (b : Block) (bs : List Block) :
    (join b bs = b :: bs ∧ ∀ c ∈ bs.head?, Apart b c) ∨
    ∃ c cs, bs = c :: cs ∧ b.alloc = false ∧ c.alloc = false ∧
      join b bs = ⟨b.addr, b.size + c.size, false⟩ :: cs := by
  cases bs with
  | nil => exact Or.inl ⟨rfl, by simp⟩
  | cons c cs =>
      by_cases h : b.alloc = false ∧ c.alloc = false
      · exact Or.inr ⟨c, cs, rfl, h.1, h.2, join_of_free h.1 h.2⟩
      · have ha : Apart b c := by
          unfold Apart
          cases hb : b.alloc <;> cases hc : c.alloc <;> simp_all
        exact Or.inl ⟨join_of_apart ha, by simpa using ha⟩

/-- The merged list starts like `b`: same address, same allocation bit. -/
theorem join_head (b : Block) (bs : List Block) :
    ∃ c cs, join b bs = c :: cs ∧ c.addr = b.addr ∧ c.alloc = b.alloc := by
  rcases join_cases b bs with ⟨h, _⟩ | ⟨c, cs, _, hb, _, h⟩
  · exact ⟨b, bs, h, rfl, rfl⟩
  · exact ⟨_, cs, h, rfl, hb.symm⟩

/-- Merging keeps the tiling. -/
theorem contig_join {p e : Nat} {b : Block} {bs : List Block} (h : Contig p (b :: bs) e) :
    Contig p (join b bs) e := by
  rcases join_cases b bs with ⟨hj, _⟩ | ⟨c, cs, rfl, _, _, hj⟩
  · rw [hj]; exact h
  · obtain ⟨hb, hc, hcs⟩ := h
    rw [hj]
    refine ⟨hb, ?_⟩
    have : (⟨b.addr, b.size + c.size, false⟩ : Block).next = c.next := by
      simp only [Block.next] at hc ⊢; omega
    rw [this]; exact hcs

/-- Merging around `b` keeps the tiling. -/
theorem contig_mid {p e : Nat} {X Y : List Block} {a b : Block} (h : Contig p (X ++ a :: b :: Y) e) :
    Contig p (X ++ join a (join b Y)) e := by
  obtain ⟨q, hX, ha, hb⟩ := contig_append.mp h
  exact contig_append.mpr ⟨q, hX, contig_join ⟨ha, contig_join hb⟩⟩

theorem contig_coalesced {p e : Nat} {bs : List Block} (h : Contig p bs e) :
    Contig p (coalesced bs) e := by
  induction bs generalizing p with
  | nil => exact h
  | cons b bs ih => exact contig_join ⟨h.1, ih h.2⟩

/-- Merging one block into a merged list keeps neighbours apart, also behind a prefix that `b` fitted. -/
theorem noAdjFree_append_join {L : List Block} {b : Block} {bs : List Block}
    (hL : NoAdjFree (L ++ [b])) (h : NoAdjFree bs) : NoAdjFree (L ++ join b bs) := by
  obtain ⟨hL1, _, hlast⟩ := List.isChain_append.mp hL
  refine List.isChain_append.mpr ⟨hL1, ?_, ?_⟩
  · rcases join_cases b bs with ⟨hj, hb⟩ | ⟨c, cs, rfl, _, hc, hj⟩
    · rw [hj]; exact h.cons hb
    · rw [hj]
      refine List.IsChain.cons h.tail (fun d hd => ?_)
      -- the block after the free `c` was allocated
      have := h.rel_head? hd
      exact Or.inr (this.resolve_left (by simp [hc]))
  · obtain ⟨c, cs, hj, _, hc⟩ := join_head b bs
    intro x hx y hy
    rw [hj] at hy
    have := hlast x hx b (by simp)
    simp only [List.head?_cons, Option.mem_def, Option.some.injEq] at hy
    unfold Apart at *
    rw [← hy, hc]; exact this

theorem noAdjFree_coalesced (bs : List Block) : NoAdjFree (coalesced bs) := by
  induction bs with
  | nil => exact List.IsChain.nil
  | cons b bs ih => exact noAdjFree_append_join (L := []) (List.IsChain.singleton b) ih

/-- A prefix whose neighbours are apart from the rest is left as it is. -/
theorem foldr_join_of_noAdjFree {L R : List Block} (h : NoAdjFree (L ++ R)) :
    L.foldr join R = L ++ R := by
  induction L with
  | nil => rfl
  | cons b L ih =>
      rw [List.foldr_cons, ih h.tail]
      rcases join_cases b (L ++ R) with ⟨hj, _⟩ | ⟨c, cs, heq, hb, hc, _⟩
      · exact hj
      · exfalso
        have hbc : Apart b c := by
          rw [List.cons_append, heq] at h
          exact h.rel_head? rfl
        rcases hbc with h1 | h1
        · rw [hb] at h1; exact absurd h1 (by simp)
        · rw [hc] at h1; exact absurd h1 (by simp)

/-- A list without free neighbours is its own normal form. -/
theorem coalesced_of_noAdjFree {bs : List Block} (h : NoAdjFree bs) : coalesced bs = bs := by
  have := foldr_join_of_noAdjFree (L := bs) (R := []) (by simpa using h)
  simpa [coalesced] using this

/-- Between two normal forms, merging happens around `b` only. -/
theorem coalesced_mid {X Y : List Block} {a : Block} (b : Block) (hX : NoAdjFree (X ++ [a]))
    (hY : NoAdjFree Y) : coalesced (X ++ a :: b :: Y) = X ++ join a (join b Y) := by
  have hb : NoAdjFree (join b Y) := noAdjFree_append_join (L := []) (List.IsChain.singleton b) hY
  -- `X` and `a` meet a list that is merged already, so only `a` can merge with it
  rw [coalesced_append, coalesced_cons, coalesced_cons, coalesced_of_noAdjFree hY]
  exact foldr_join_of_noAdjFree (noAdjFree_append_join hX hb)

/-- Merging three free neighbours pairwise in either order gives the same block. -/
theorem join_join {b c : Block} (hb : b.alloc = false) (hc : c.alloc = false) (bs : List Block) :
    join ⟨b.addr, b.size + c.size, false⟩ bs = join b (join c bs) := by
  rcases join_cases c bs with ⟨hj, hcb⟩ | ⟨d, ds, rfl, _, hd, hj⟩
  · rw [hj, join_of_free hb hc]
    cases bs with
    | nil => rfl
    | cons d ds =>
        refine join_of_apart (Or.inr ((hcb d (by simp)).resolve_left (by simp [hc])))
  · rw [hj, join_of_free rfl hd, join_of_free hb rfl, Nat.add_assoc]

/-- Merging neither adds nor drops allocated blocks. -/
theorem mem_coalesced_of_alloc {bs : List Block} {c : Block} (hc : c.alloc = true) :
    c ∈ coalesced bs ↔ c ∈ bs := by
  induction bs with
  | nil => simp
  | cons b bs ih =>
      rw [coalesced_cons, List.mem_cons, ← ih]
      rcases join_cases b (coalesced bs) with ⟨hj, _⟩ | ⟨d, ds, heq, hb, hd, hj⟩
      · rw [hj, List.mem_cons]
      · -- neither the two blocks merged nor the result is allocated
        have hcb : c ≠ b := fun h => by rw [h, hb] at hc; exact absurd hc (by simp)
        have hcd : c ≠ d := fun h => by rw [h, hd] at hc; exact absurd hc (by simp)
        have hcm : c ≠ ⟨b.addr, b.size + d.size, false⟩ := fun h => by rw [h] at hc; simp at hc
        rw [hj, heq, List.mem_cons, List.mem_cons]
        simp [hcb, hcd, hcm]

/-- A property of sizes closed under addition survives merging. -/
theorem forall_size_coalesced {P : Nat → Prop} (hadd : ∀ a b, P a → P b → P (a + b)) {bs : List Block}
    (h : ∀ b ∈ bs, P b.size) : ∀ b ∈ coalesced bs, P b.size := by
  induction bs with
  | nil => simp
  | cons b bs ih =>
      have hb := h b List.mem_cons_self
      have ih := ih (fun c hc => h c (List.mem_cons_of_mem _ hc))
      rw [coalesced_cons]
      rcases join_cases b (coalesced bs) with ⟨hj, _⟩ | ⟨d, ds, heq, _, _, hj⟩
      · rw [hj]; exact List.forall_mem_cons.mpr ⟨hb, ih⟩
      · rw [heq] at ih
        rw [hj]
        refine List.forall_mem_cons.mpr ⟨hadd _ _ hb (ih d List.mem_cons_self), fun c hc => ?_⟩
        exact ih c (List.mem_cons_of_mem _ hc)

/-! ## Releasing blocks -/

/-- The block, free. -/
def Block.freed (b : Block) : Block := { b with alloc := false }

/-- Free the block if its address is among `ps`. -/
def release (ps : List Nat) (b : Block) : Block :=
  if b.addr ∈ ps then { b with alloc := false } else b

@[simp] theorem release_addr (ps : List Nat) (b : Block) : (release ps b).addr = b.addr := by
  unfold release; split <;> rfl

@[simp] theorem release_size (ps : List Nat) (b : Block) : (release ps b).size = b.size := by
  unfold release; split <;> rfl

@[simp] theorem release_next (ps : List Nat) (b : Block) : (release ps b).next = b.next := by
  simp [Block.next]

theorem release_of_mem {ps : List Nat} {b : Block} (h : b.addr ∈ ps) :
    release ps b = b.freed := if_pos h

theorem release_of_not_mem {ps : List Nat} {b : Block} (h : b.addr ∉ ps) : release ps b = b := if_neg h

/-- A free block stays as it is. -/
theorem release_of_free {ps : List Nat} {b : Block} (h : b.alloc = false) : release ps b = b := by
  unfold release
  split
  · cases b; simp_all
  · rfl

@[simp] theorem release_nil (b : Block) : release [] b = b := release_of_not_mem (by simp)

/-- Releasing `ps` and then `qs` is releasing both. -/
theorem release_release (ps qs : List Nat) (b : Block) :
    release qs (release ps b) = release (ps ++ qs) b := by
  by_cases hp : b.addr ∈ ps
  · rw [release_of_mem hp, release_of_free rfl, release_of_mem (List.mem_append_left _ hp)]
  · rw [release_of_not_mem hp]
    by_cases hq : b.addr ∈ qs
    · rw [release_of_mem hq, release_of_mem (List.mem_append_right _ hq)]
    · rw [release_of_not_mem hq, release_of_not_mem (by simp [hp, hq])]

theorem contig_map_release {ps : List Nat} {p e : Nat} {bs : List Block} (h : Contig p bs e) :
    Contig p (bs.map (release ps)) e := by
  induction bs generalizing p with
  | nil => exact h
  | cons b bs ih =>
      refine ⟨(release_addr ps b).trans h.1, ?_⟩
      rw [release_next]; exact ih h.2

/-- Releasing after a merge of one block gives the same normal form as releasing before it. -/
theorem coalesced_map_release_join (ps : List Nat) (b : Block) (bs : List Block) :
    coalesced ((join b bs).map (release ps)) = coalesced ((b :: bs).map (release ps)) := by
  rcases join_cases b bs with ⟨hj, _⟩ | ⟨c, cs, rfl, hb, hc, hj⟩
  · rw [hj]
  · -- the merged blocks are free, so `release` passes them by
    rw [hj]
    simp only [List.map_cons, coalesced_cons]
    rw [release_of_free (b := ⟨b.addr, b.size + c.size, false⟩) rfl, release_of_free hb,
      release_of_free hc, join_join hb hc]

/-- **Merging early or late makes no difference to a later release.** -/
theorem coalesced_map_release (ps : List Nat) (bs : List Block) :
    coalesced ((coalesced bs).map (release ps)) = coalesced (bs.map (release ps)) := by
  induction bs with
  | nil => rfl
  | cons b bs ih =>
      rw [coalesced_cons, coalesced_map_release_join, List.map_cons, coalesced_cons, ih,
        List.map_cons, coalesced_cons]

/-- Releasing where only `b` starts changes only `b`. -/
theorem map_release_append {L R : List Block} {b : Block}
    (hL : ∀ c ∈ L, c.addr ≠ b.addr) (hR : ∀ c ∈ R, c.addr ≠ b.addr) :
    (L ++ b :: R).map (release [b.addr]) = L ++ b.freed :: R := by
  have hid : ∀ X : List Block, (∀ c ∈ X, c.addr ≠ b.addr) → X.map (release [b.addr]) = X := by
    intro X hX
    conv_rhs => rw [← List.map_id X]
    exact List.map_congr_left fun c hc => release_of_not_mem (by simpa using hX c hc)
  rw [List.map_append, List.map_cons, hid L hL, hid R hR, release_of_mem (by simp)]

/-! ## First fit -/

/-- A free block of at least `a` bytes. -/
def Fits (a : Nat) (b : Block) : Prop := b.alloc = false ∧ a ≤ b.size

instance (a : Nat) (b : Block) : Decidable (Fits a b) :=
  inferInstanceAs (Decidable (b.alloc = false ∧ a ≤ b.size))

/-- Allocate the first `a` bytes of `b`, splitting off the rest when at least `q` bytes remain. -/
def carve (q a : Nat) (b : Block) : List Block :=
  if q ≤ b.size - a then [⟨b.addr, a, true⟩, ⟨b.addr + a, b.size - a, false⟩]
  else [⟨b.addr, b.size, true⟩]

/-- Carve `a` bytes out of the first block they fit in; also its address. -/
def firstFit (q a : Nat) : List Block → Option (Nat × List Block)
  | []      => none
  | b :: bs =>
    if Fits a b then some (b.addr, carve q a b ++ bs)
    else (firstFit q a bs).map fun r => (r.1, b :: r.2)

theorem firstFit_eq_none {q a : Nat} {bs : List Block} :
    firstFit q a bs = none ↔ ∀ b ∈ bs, ¬ Fits a b := by
  induction bs with
  | nil => simp [firstFit]
  | cons b bs ih =>
      by_cases hb : Fits a b
      · simp [firstFit, hb]
      · simp [firstFit, hb, ih]

/-- Where the first fit is known, so is the result. -/
theorem firstFit_append {q a : Nat} {L R : List Block} {b : Block} (hL : ∀ c ∈ L, ¬ Fits a c)
    (hb : Fits a b) : firstFit q a (L ++ b :: R) = some (b.addr, L ++ (carve q a b ++ R)) := by
  induction L with
  | nil => simp [firstFit, hb]
  | cons c L ih =>
      have hc := hL c List.mem_cons_self
      rw [List.cons_append, firstFit, if_neg hc, ih (fun d hd => hL d (List.mem_cons_of_mem _ hd))]
      rfl

/-- A list either fits nowhere or splits at its first fit. -/
theorem firstFit_cases (a : Nat) (bs : List Block) :
    (∀ b ∈ bs, ¬ Fits a b) ∨ ∃ L b R, bs = L ++ b :: R ∧ (∀ c ∈ L, ¬ Fits a c) ∧ Fits a b := by
  induction bs with
  | nil => exact Or.inl (by simp)
  | cons b bs ih =>
      by_cases hb : Fits a b
      · exact Or.inr ⟨[], b, bs, rfl, by simp, hb⟩
      · rcases ih with h | ⟨L, c, R, rfl, hL, hc⟩
        · exact Or.inl (List.forall_mem_cons.mpr ⟨hb, h⟩)
        · exact Or.inr ⟨b :: L, c, R, rfl, List.forall_mem_cons.mpr ⟨hb, hL⟩, hc⟩

theorem firstFit_eq_some {q a p : Nat} {bs bs' : List Block} (h : firstFit q a bs = some (p, bs')) :
    ∃ L b R, bs = L ++ b :: R ∧ (∀ c ∈ L, ¬ Fits a c) ∧ Fits a b ∧ p = b.addr ∧
      bs' = L ++ (carve q a b ++ R) := by
  rcases firstFit_cases a bs with hn | ⟨L, b, R, rfl, hL, hb⟩
  · rw [firstFit_eq_none.mpr hn] at h; exact absurd h (by simp)
  · rw [firstFit_append hL hb, Option.some.injEq, Prod.mk.injEq] at h
    exact ⟨L, b, R, rfl, hL, hb, h.1.symm, h.2.symm⟩

theorem contig_carve {q a : Nat} {b : Block} (ha : a ≤ b.size) :
    Contig b.addr (carve q a b) b.next := by
  unfold carve
  split
  · refine ⟨rfl, rfl, ?_⟩
    simp only [Block.next, Contig]; omega
  · exact ⟨rfl, rfl⟩

/-- Carving replaces a block that starts at the same address and is now allocated. -/
theorem carve_head (q a : Nat) (b : Block) :
    ∃ s bs, carve q a b = ⟨b.addr, s, true⟩ :: bs := by
  unfold carve
  split
  · exact ⟨_, _, rfl⟩
  · exact ⟨_, _, rfl⟩

theorem contig_append_carve {p e q a : Nat} {L R : List Block} {b : Block} (ha : a ≤ b.size)
    (h : Contig p (L ++ b :: R) e) : Contig p (L ++ (carve q a b ++ R)) e := by
  obtain ⟨x, hL, hb, hR⟩ := contig_append.mp h
  exact contig_append.mpr ⟨x, hL, contig_append.mpr ⟨b.next, hb ▸ contig_carve ha, hR⟩⟩

/-- Carving a free block between allocated ones keeps neighbours apart. -/
theorem noAdjFree_carve {q a : Nat} {L R : List Block} {b : Block} (hb : b.alloc = false)
    (h : NoAdjFree (L ++ b :: R)) : NoAdjFree (L ++ (carve q a b ++ R)) := by
  obtain ⟨hL, hbR, _⟩ := List.isChain_append.mp h
  have hR : ∀ c ∈ R.head?, c.alloc = true := fun c hc =>
    (hbR.rel_head? hc).resolve_left (by simp [hb])
  have hcR : NoAdjFree (carve q a b ++ R) := by
    unfold carve
    split
    · -- the remainder is free; what follows it is not
      refine List.IsChain.cons (List.IsChain.cons hbR.tail fun c hc => Or.inr (hR c hc)) ?_
      exact fun c _ => Or.inl rfl
    · exact List.IsChain.cons hbR.tail fun c _ => Or.inl rfl
  refine List.isChain_append.mpr ⟨hL, hcR, fun x _ y hy => ?_⟩
  obtain ⟨s, bs, hc⟩ := carve_head q a b
  rw [hc] at hy
  simp only [List.cons_append, List.head?_cons, Option.mem_def, Option.some.injEq] at hy
  exact Or.inr (by rw [← hy])

/-- Carving allocates exactly one block, the one at `b`'s address. -/
theorem mem_append_carve_of_alloc {q a : Nat} {L R : List Block} {b c : Block} (hb : b.alloc = false)
    (hc : c.alloc = true) :
    c ∈ L ++ (carve q a b ++ R) ↔ c ∈ L ++ b :: R ∨ some c = (carve q a b).head? := by
  have hcb : c ≠ b := fun h => by rw [h, hb] at hc; exact absurd hc (by simp)
  unfold carve
  split
  · have hcr : c ≠ ⟨b.addr + a, b.size - a, false⟩ := fun h => by rw [h] at hc; simp at hc
    simp only [List.mem_append, List.mem_cons, List.head?_cons, Option.some.injEq, hcb, hcr,
      List.not_mem_nil, false_or, or_false]
    tauto
  · simp only [List.mem_append, List.mem_cons, List.head?_cons, Option.some.injEq, hcb,
      List.not_mem_nil, false_or, or_false]
    tauto

/-- What is carved out of a free block and released again merges back into it. -/
theorem coalesced_carve_freed {q a : Nat} {L R : List Block} {b : Block} (hb : Fits a b) :
    coalesced (L ++ ((carve q a b).map Block.freed ++ R)) = coalesced (L ++ b :: R) := by
  have hself : b = ⟨b.addr, b.size, false⟩ := by
    rw [← hb.1]
  unfold carve
  split
  · -- the two pieces are neighbours, and merging them first makes no difference
    have hpieces : coalesced (⟨b.addr, a, false⟩ :: ⟨b.addr + a, b.size - a, false⟩ :: R)
        = coalesced (b :: R) := by
      rw [coalesced_cons, coalesced_cons, coalesced_cons, ← join_join rfl rfl]
      conv_rhs => rw [hself]
      rw [show a + (b.size - a) = b.size from Nat.add_sub_cancel' hb.2]
    rw [coalesced_append L (b :: R), ← hpieces]
    exact coalesced_append L _
  · have hwhole : ([⟨b.addr, b.size, true⟩] : List Block).map Block.freed = [b] := by
      conv_rhs => rw [hself]
      rfl
    rw [hwhole]
    rfl

/-! ## Space added at the end -/

/-- `bs` with `g` more free bytes at its end `stop`: a free last block takes them in, otherwise they are a
    block of their own. -/
def extendLast (stop g : Nat) : List Block → List Block
  | []           => [⟨stop, g, false⟩]
  | [b]          => if b.alloc = false then [⟨b.addr, b.size + g, false⟩] else [b, ⟨stop, g, false⟩]
  | b :: c :: bs => b :: extendLast stop g (c :: bs)

theorem extendLast_concat (stop g : Nat) (X : List Block) (a : Block) :
    extendLast stop g (X ++ [a]) = X ++ extendLast stop g [a] := by
  induction X with
  | nil => rfl
  | cons b X ih =>
      cases X with
      | nil => rfl
      | cons c X => exact congrArg (b :: ·) ih

/-- Merging the new space into a normal form touches the last block only. -/
theorem coalesced_extend {stop g : Nat} {bs : List Block} (h : NoAdjFree bs) :
    coalesced (bs ++ [⟨stop, g, false⟩]) = extendLast stop g bs := by
  rcases List.eq_nil_or_concat bs with rfl | ⟨X, a, rfl⟩
  · rfl
  · rw [List.concat_eq_append] at h ⊢
    rw [extendLast_concat, List.append_assoc]
    show coalesced (X ++ a :: ⟨stop, g, false⟩ :: []) = _
    rw [coalesced_mid _ h List.IsChain.nil]
    congr 1
    unfold extendLast
    cases ha : a.alloc with
    | false => exact join_of_free ha rfl
    | true => exact join_of_alloc ha _

end Blocks
