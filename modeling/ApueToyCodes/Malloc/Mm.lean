import ApueToyCodes.Lib.ByteMem
import ApueToyCodes.Lib.BlockList

/-!
# `Malloc.Mm` — the allocator of `lab_7` (memlib.c, mm.h, mm.c)

The implicit-free-list allocator with boundary tags, function by function. The C globals are the fields of
`Heap`; the heap bytes are a byte memory, and every tag access goes through `get`/`put` as through
`GET`/`PUT`.

Pointers and `size_t` values are natural numbers; where the C arithmetic can wrap (`size_t` is 64 bits, the
parameter of `mem_sbrk` is a 32-bit `int`, a stored tag is a 32-bit `unsigned int`) the reduction is written
out. `NULL`, `(void*)-1` and the error code of `mm_init` are `none`. The debugging `printf`s and `errno` are
left out: nothing reads them.
-/

namespace Malloc
open ByteMem Blocks

/-! ## mm.h -/

/-- `WSIZE` -/
abbrev wsize : Nat := 4

/-- `DSIZE` -/
abbrev dsize : Nat := 8

/-- `CHUNKSIZE` -/
abbrev chunksize : Nat := 4096

/-- `MAX_HEAP` of memlib.h -/
abbrev maxHeap : Nat := 1024 * 1024

/-- `PACK(size,alloc)` -/
def pack (size alloc : Nat) : Nat := size ||| alloc

/-- `GET(p)` -/
def get (m : Mem) (p : Nat) : Nat := load32 m p

/-- `PUT(p,val)`: the value is narrowed to `unsigned int` by the store. -/
def put (m : Mem) (p val : Nat) : Mem := store32 m p val

/-- `GET_SIZE(p)`: the word and `~0x7` as an `unsigned int`. -/
def getSize (m : Mem) (p : Nat) : Nat := get m p &&& 0xFFFFFFF8

/-- `GET_ALLOC(p)` -/
def getAlloc (m : Mem) (p : Nat) : Nat := get m p &&& 0x1

/-- `HDRP(bp)` -/
def hdrp (bp : Nat) : Nat := bp - wsize

/-- `FTRP(bp)` -/
def ftrp (m : Mem) (bp : Nat) : Nat := bp + getSize m (hdrp bp) - dsize

/-- `NEXT_BLKP(bp)` -/
def nextBlkp (m : Mem) (bp : Nat) : Nat := bp + getSize m (hdrp bp)

/-- `PREV_BLKP(bp)` -/
def prevBlkp (m : Mem) (bp : Nat) : Nat := bp - getSize m (bp - dsize)

/-! ## memlib.c -/

/-- The globals of memlib.c and mm.c with the memory they point into. -/
structure Heap where
  mem        : Mem
  memHeap    : Nat
  memBrk     : Nat
  memMaxAddr : Nat
  heapListp  : Nat

/-- `mem_init`, where `malloc(MAX_HEAP)` returned `base`; `junk` is what the memory held. -/
def memInit (base : Nat) (junk : Mem) : Heap where
  mem := junk
  memHeap := base
  memBrk := base
  memMaxAddr := base + maxHeap
  heapListp := 0

/-- The conversion of a `size_t` argument to an `int` parameter. -/
def toInt (x : Nat) : Int :=
  if x % 2 ^ 32 < 2 ^ 31 then ((x % 2 ^ 32 : Nat) : Int) else ((x % 2 ^ 32 : Nat) : Int) - 2 ^ 32

/-- `mem_sbrk` -/
def memSbrk (h : Heap) (incr : Int) : Option (Nat × Heap) :=
  if incr < 0 ∨ incr + h.memBrk > h.memMaxAddr then none
  else some (h.memBrk, { h with memBrk := (h.memBrk + incr).toNat })

/-! ## mm.c -/

/-- `coalesce`: the returned pointer and the memory after it. The `size_t` sums of at most three 32-bit
    sizes do not wrap. -/
def coalesce (m : Mem) (p : Nat) : Nat × Mem :=
  let prevAlloc := getAlloc m (hdrp (prevBlkp m p))
  let nextAlloc := getAlloc m (hdrp (nextBlkp m p))
  let size := getSize m (hdrp p)
  if prevAlloc ≠ 0 ∧ nextAlloc ≠ 0 then
    (p, m)
  else if prevAlloc = 0 ∧ nextAlloc ≠ 0 then
    let size := size + getSize m (hdrp (prevBlkp m p))
    let m := put m (hdrp (prevBlkp m p)) (pack size 0)
    -- the header of `p` still holds its old size
    let m := put m (ftrp m p) (pack size 0)
    (prevBlkp m p, m)
  else if prevAlloc ≠ 0 ∧ nextAlloc = 0 then
    let size := size + getSize m (hdrp (nextBlkp m p))
    let m := put m (hdrp p) (pack size 0)
    -- the header of `p` already holds the sum
    let m := put m (ftrp m p) (pack size 0)
    (p, m)
  else
    let size := size + (getSize m (hdrp (prevBlkp m p)) + getSize m (hdrp (nextBlkp m p)))
    let m := put m (hdrp (prevBlkp m p)) (pack size 0)
    let m := put m (ftrp m (nextBlkp m p)) (pack size 0)
    (prevBlkp m p, m)

/-- `extend_heap`: `none` is the `NULL` of a failed `mem_sbrk`. -/
def extendHeap (h : Heap) (words : Nat) : Option (Nat × Heap) :=
  let size := if words % 2 ≠ 0 then (words + 1) * wsize % 2 ^ 64 else words * wsize % 2 ^ 64
  match memSbrk h (toInt size) with
  | none => none
  | some (bp, h) =>
    let m := put h.mem (hdrp bp) (pack size 0)
    let m := put m (ftrp m bp) (pack size 0)
    -- the new epilogue; the old one is the header just written
    let m := put m (hdrp (nextBlkp m bp)) (pack 0 1)
    let r := coalesce m bp
    some (r.1, { h with mem := r.2 })

/-- `mm_init`: `none` is the return value -1. -/
def mmInit (h : Heap) : Option Heap :=
  match memSbrk h (4 * wsize) with
  | none => none
  | some (listp, h) =>
    -- padding, prologue, epilogue
    let m := put h.mem listp 0
    let m := put m (listp + 1 * wsize) (pack dsize 1)
    let m := put m (listp + 2 * wsize) (pack dsize 1)
    let m := put m (listp + 3 * wsize) (pack 0 1)
    match extendHeap { h with mem := m, heapListp := listp + 2 * wsize } (chunksize / wsize) with
    | none => none
    | some (_, h) => some h

/-- `mm_free` -/
def mmFree (h : Heap) (bp : Nat) : Heap :=
  let size := getSize h.mem (hdrp bp)
  let m := put h.mem (hdrp bp) (pack size 0)
  let m := put m (ftrp m bp) (pack size 0)
  { h with mem := (coalesce m bp).2 }

/-- The loop of `find_fit` from `ptr` on. The outer `none` is a walk that outlives its fuel, the inner one
    the `NULL` after the epilogue. -/
def findFitLoop (m : Mem) (size : Nat) : Nat → Nat → Option (Option Nat)
  | 0,        _   => none
  | fuel + 1, ptr =>
    let rsize := getSize m (hdrp ptr)
    if rsize ≠ 0 then
      if getAlloc m (hdrp ptr) = 0 ∧ rsize ≥ size then some (some ptr)
      else findFitLoop m size fuel (nextBlkp m ptr)
    else some none -- only the epilogue has size 0

/-- `find_fit`. Every turn of the loop moves the pointer up by at least eight bytes, so a walk that takes
    `maxHeap` turns has left the heap. -/
def findFit (h : Heap) (size : Nat) : Option (Option Nat) := findFitLoop h.mem size maxHeap h.heapListp

/-- `place`; the subtraction is one of `size_t` values. -/
def place (m : Mem) (bp size : Nat) : Mem :=
  let rsize := getSize m (hdrp bp)
  let rest := (rsize + 2 ^ 64 - size) % 2 ^ 64
  if rest ≥ 2 * dsize then
    let m := put m (hdrp bp) (pack size 1)
    let m := put m (ftrp m bp) (pack size 1)
    let bp := nextBlkp m bp
    let m := put m (hdrp bp) (pack rest 0)
    put m (ftrp m bp) (pack rest 0)
  else
    let m := put m (hdrp bp) (pack rsize 1)
    put m (ftrp m bp) (pack rsize 1)

/-- The block size `mm_malloc` computes for a request of `size` bytes. -/
def adjust (size : Nat) : Nat :=
  if size ≤ dsize then 2 * dsize else dsize * ((size + dsize + dsize - 1) % 2 ^ 64 / dsize)

/-- `mm_malloc`: the outer `none` is a call that does not return, the inner one `NULL`. -/
def mmMalloc (h : Heap) (size : Nat) : Option (Option Nat × Heap) :=
  if size ≤ 0 then some (none, h)
  else
    let rsize := adjust size
    match findFit h rsize with
    | none => none
    | some (some bp) => some (some bp, { h with mem := place h.mem bp rsize })
    | some none =>
      let extendsize := max rsize chunksize
      match extendHeap h (extendsize / wsize) with
      | none => some (none, h)
      | some (bp, h) => some (some bp, { h with mem := place h.mem bp rsize })

/-! ## Reading the block list off the memory -/

/-- The blocks met from `bp` on by `NEXT_BLKP`, up to a header of size 0. -/
def blocksFrom (m : Mem) : Nat → Nat → List Block
  | 0,        _  => []
  | fuel + 1, bp =>
    if getSize m (hdrp bp) = 0 then []
    else ⟨bp, getSize m (hdrp bp), getAlloc m (hdrp bp) != 0⟩ :: blocksFrom m fuel (nextBlkp m bp)

/-- The block list of a heap, prologue first. -/
def blockList (h : Heap) : List Block := blocksFrom h.mem maxHeap h.heapListp

end Malloc
