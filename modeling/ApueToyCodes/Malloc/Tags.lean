import ApueToyCodes.Malloc.Mm

/-!
# `Malloc.Tags` — boundary tags in memory and the blocks they describe

The bridge between the words `PUT`/`GET` move and the abstract `Block`s:

* `Tagged m b`: header and footer of `b` both hold `b`'s size and allocation bit;
* `setTags m b`: the two `PUT`s that write them;
* what the macros of mm.h compute on a tagged block, and the frame of a `setTags` (`Agree` outside the
  bytes `[b.lo, b.hi)` the block owns, header included).
-/

namespace Malloc
open ByteMem Blocks

/-- The first byte a block owns: its header. -/
abbrev lo (b : Block) : Nat := b.addr - 4

/-- One past the last byte a block owns: its footer is the word below. -/
abbrev hi (b : Block) : Nat := b.next - 4

/-- The contents of `b`'s tags. -/
def tagOf (b : Block) : Nat := b.size + b.alloc.toNat

/-- Header and footer of `b` agree and say what `b` is. -/
structure Tagged (m : Mem) (b : Block) : Prop where
  header   : get m (hdrp b.addr) = tagOf b
  footer   : get m (b.next - 8) = tagOf b
  size_dvd : b.size % 8 = 0
  size_ge  : 8 ≤ b.size
  addr_ge  : 8 ≤ b.addr

/-- Write `b`'s tags. -/
def setTags (m : Mem) (b : Block) : Mem := put (put m (hdrp b.addr) (tagOf b)) (b.next - 8) (tagOf b)

/-! ## Words -/

theorem pack_zero (size : Nat) : pack size 0 = size := Nat.or_zero size

theorem pack_one {size : Nat} (h : size % 8 = 0) : pack size 1 = size + 1 := by
  have h8 : 2 ^ 3 * (size / 8) = size := by omega
  have := Nat.two_pow_add_eq_or_of_lt (i := 3) (b := 1) (by decide) (size / 8)
  rw [h8] at this
  exact this.symm

/-- The mask `~0x7` drops the low three bits. -/
theorem mask_size {x : Nat} (h : x < 2 ^ 32) : x &&& 0xFFFFFFF8 = x / 8 * 8 := by
  have hmask : (0xFFFFFFF8 : Nat) = (2 ^ 29 - 1) * 2 ^ 3 := rfl
  apply Nat.eq_of_testBit_eq
  intro i
  rw [Nat.testBit_and, hmask, Nat.testBit_mul_two_pow, Nat.testBit_two_pow_sub_one,
    show x / 8 * 8 = x / 2 ^ 3 * 2 ^ 3 from rfl, Nat.testBit_mul_two_pow, Nat.testBit_div_two_pow]
  by_cases hi : 3 ≤ i
  · simp only [hi, decide_true, Bool.true_and, Nat.sub_add_cancel]
    by_cases hi' : i - 3 < 29
    · simp [hi']
    · have hx : x < 2 ^ i := Nat.lt_of_lt_of_le h (Nat.pow_le_pow_right (by decide) (by omega))
      simp [hi', Nat.testBit_lt_two_pow hx]
  · simp [hi]

theorem getSize_eq (m : Mem) (p : Nat) : getSize m p = get m p / 8 * 8 := mask_size (load32_lt m p)

theorem getAlloc_eq (m : Mem) (p : Nat) : getAlloc m p = get m p % 2 := Nat.and_one_is_mod _

theorem getSize_of_get {m : Mem} {p : Nat} {b : Block} (h : get m p = tagOf b) (hd : b.size % 8 = 0) :
    getSize m p = b.size := by
  rw [getSize_eq, h, tagOf]
  have := b.alloc.toNat_le
  omega

theorem getAlloc_of_get {m : Mem} {p : Nat} {b : Block} (h : get m p = tagOf b) (hd : b.size % 8 = 0) :
    getAlloc m p = b.alloc.toNat := by
  rw [getAlloc_eq, h, tagOf]
  have := b.alloc.toNat_le
  omega

theorem get_put_self {m : Mem} {p v : Nat} (h : v < 2 ^ 32) : get (put m p v) p = v :=
  (load32_store32_self m p v).trans (Nat.mod_eq_of_lt h)

theorem get_put_ne {m : Mem} {p q v : Nat} (h : q + 4 ≤ p ∨ p + 4 ≤ q) : get (put m p v) q = get m q :=
  load32_store32_ne h

theorem agree_put {m : Mem} {p v lo hi : Nat} (h : hi ≤ p ∨ p + 4 ≤ lo) : Agree m (put m p v) lo hi :=
  agree_store32 h

/-! ## The macros of mm.h on a tagged block -/

variable {m m' : Mem} {b c : Block}

theorem Tagged.getSize (h : Tagged m b) : Malloc.getSize m (hdrp b.addr) = b.size :=
  getSize_of_get h.header h.size_dvd

theorem Tagged.getAlloc (h : Tagged m b) : Malloc.getAlloc m (hdrp b.addr) = b.alloc.toNat :=
  getAlloc_of_get h.header h.size_dvd

theorem Tagged.ftrp (h : Tagged m b) : Malloc.ftrp m b.addr = b.next - 8 := by
  unfold Malloc.ftrp Block.next; rw [h.getSize]

theorem Tagged.nextBlkp (h : Tagged m b) : Malloc.nextBlkp m b.addr = b.next := by
  unfold Malloc.nextBlkp Block.next; rw [h.getSize]

/-- The footer leads back from the following block. -/
theorem Tagged.prevBlkp (h : Tagged m b) : Malloc.prevBlkp m b.next = b.addr := by
  unfold Malloc.prevBlkp
  rw [getSize_of_get h.footer h.size_dvd]
  exact Nat.add_sub_cancel _ _

theorem Tagged.tag_lt (h : Tagged m b) : tagOf b < 2 ^ 32 := h.header ▸ load32_lt _ _

theorem Tagged.size_lt (h : Tagged m b) : b.size < 2 ^ 32 := by
  have := h.tag_lt
  unfold tagOf at this
  omega

/-- The word `HDRP` points at. -/
theorem hdrp_add {p : Nat} (h : 4 ≤ p) : hdrp p + 4 = p := by unfold hdrp wsize; omega

/-- A block's tags depend on its own bytes only. -/
theorem Tagged.congr (h : Tagged m b) (ha : Agree m m' (lo b) (hi b)) : Tagged m' b := by
  have h1 := h.size_ge
  have h2 := h.addr_ge
  refine ⟨?_, ?_, h.size_dvd, h.size_ge, h.addr_ge⟩
  · -- the header lies in front of the payload, the footer at its end
    rw [← h.header]
    exact load32_congr (ha.mono (Nat.le_refl _) (by simp only [hdrp, wsize, hi, Block.next]; omega))
  · rw [← h.footer]
    exact load32_congr (ha.mono (by simp only [lo, Block.next]; omega)
      (by simp only [hi, Block.next]; omega))

/-! ## Writing tags -/

/-- Writing a block's tags touches only the block's own bytes. -/
theorem agree_setTags {lo' hi' : Nat} (hb : 8 ≤ b.size) (hd : 8 ≤ b.addr)
    (h : hi' ≤ lo b ∨ hi b ≤ lo') : Agree m (setTags m b) lo' hi' := by
  refine (agree_put ?_).trans (agree_put ?_)
  · simp only [hdrp, wsize, lo, hi, Block.next] at *; omega
  · simp only [lo, hi, Block.next] at *; omega

/-- After `setTags` the block is tagged. -/
theorem tagged_setTags (hs : tagOf b < 2 ^ 32) (hd : b.size % 8 = 0) (hb : 8 ≤ b.size)
    (ha : 8 ≤ b.addr) : Tagged (setTags m b) b := by
  refine ⟨?_, get_put_self hs, hd, hb, ha⟩
  unfold setTags
  rw [get_put_ne (by simp only [hdrp, wsize, Block.next]; omega), get_put_self hs]

/-- The tag of a free block is its size. -/
theorem tagOf_free {a s : Nat} : tagOf ⟨a, s, false⟩ = s := rfl

theorem tagOf_alloc {a s : Nat} : tagOf ⟨a, s, true⟩ = s + 1 := rfl

/-- `FTRP` of a header that was just written. -/
theorem ftrp_put_hdrp {p : Nat} {b : Block} (hs : tagOf b < 2 ^ 32) (hd : b.size % 8 = 0)
    (hp : p = b.addr) : ftrp (put m (hdrp p) (tagOf b)) p = b.next - 8 := by
  subst hp
  unfold ftrp Block.next
  rw [getSize_of_get (get_put_self hs) hd]

/-- `NEXT_BLKP` after the block's tags were written. -/
theorem nextBlkp_setTags {b : Block} (hs : tagOf b < 2 ^ 32) (hd : b.size % 8 = 0) (hb : 8 ≤ b.size)
    (ha : 8 ≤ b.addr) : nextBlkp (setTags m b) b.addr = b.next :=
  (tagged_setTags hs hd hb ha).nextBlkp

/-- **The tag-writing idiom of mm.c**: `PUT(HDRP(bp),v); PUT(FTRP(bp),v)` is `setTags`. -/
theorem put_hdrp_ftrp {b : Block} (hs : tagOf b < 2 ^ 32) (hd : b.size % 8 = 0) :
    put (put m (hdrp b.addr) (tagOf b)) (ftrp (put m (hdrp b.addr) (tagOf b)) b.addr) (tagOf b)
      = setTags m b := by
  rw [ftrp_put_hdrp hs hd rfl]; rfl

end Malloc
