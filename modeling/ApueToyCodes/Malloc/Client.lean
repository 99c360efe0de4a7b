import Mathlib.Data.Finset.Insert
import Mathlib.Data.Finset.Option
import Mathlib.Data.Finset.Lattice.Basic
import ApueToyCodes.Lib.Runs
import ApueToyCodes.Malloc.Layout
import ApueToyCodes.Malloc.Tags

/-!
# `Malloc.Client` — the allocator with its clients, and the heap invariant as read off the memory

A client calls `mm_malloc` with requests whose block size fits in a positive `int`, calls `mm_free` on
blocks it owns, and writes bytes into the payloads of blocks it owns. `Sys` adds to the heap the pointers
currently owned; `Step` is one such action.

`WellFormed` is the invariant of the heap, stated on the block list that a walk by `NEXT_BLKP` reads off the
memory, with no reference to the abstract allocator.
-/

namespace Malloc
open ByteMem Blocks

/-- The heap and the pointers handed out and not yet freed. -/
structure Sys where
  heap : Heap
  live : Finset Nat

/-- A client action; a `malloc` carries its result. -/
inductive Act where
  | malloc (n : Nat) (r : Option Nat)
  | free (p : Nat)
  | write (a : Nat) (v : UInt8)
deriving DecidableEq

/-- `a` is a payload byte of the block at `p`: the block without its two tags. -/
def InPayload (h : Heap) (p a : Nat) : Prop := p ≤ a ∧ a < p + (getSize h.mem (hdrp p) - 8)

/-- One client action. -/
inductive Step : Sys → Act → Sys → Prop
  | malloc {s : Sys} {n : Nat} {r : Option Nat} {h' : Heap} :
      roundUp n < 2 ^ 31 → mmMalloc s.heap n = some (r, h') →
      Step s (.malloc n r) ⟨h', s.live ∪ r.toFinset⟩
  | free {s : Sys} {p : Nat} :
      p ∈ s.live → Step s (.free p) ⟨mmFree s.heap p, s.live.erase p⟩
  | write {s : Sys} {p a : Nat} {v : UInt8} :
      p ∈ s.live → InPayload s.heap p a →
      Step s (.write a v) ⟨{ s.heap with mem := store8 s.heap.mem a v }, s.live⟩

/-- A successful `mem_init` and `mm_init` on an 8-aligned region, nothing handed out yet. -/
def Initial (base : Nat) (s : Sys) : Prop :=
  base % 8 = 0 ∧ ∃ junk, mmInit (memInit base junk) = some s.heap ∧ s.live = ∅

/-- States reached from `mm_init` by any sequence of client actions. -/
def Reachable (s : Sys) : Prop := ∃ base s₀ tr, Initial base s₀ ∧ Runs.Run Step s₀ tr s

/-- The heap invariant. -/
structure WellFormed (h : Heap) : Prop where
  aligned  : h.memHeap % 8 = 0
  region   : h.memMaxAddr = h.memHeap + maxHeap
  listp    : h.heapListp = h.memHeap + 8
  prologue : (blockList h).head? = some ⟨h.heapListp, 8, true⟩
  tiles    : Contig h.heapListp (blockList h) h.memBrk
  sizes    : ∀ b ∈ (blockList h).tail, b.size % 8 = 0 ∧ 16 ≤ b.size
  headers  : ∀ b ∈ blockList h, get h.mem (hdrp b.addr) = pack b.size b.alloc.toNat
  footers  : ∀ b ∈ blockList h, get h.mem (ftrp h.mem b.addr) = get h.mem (hdrp b.addr)
  epilogue : get h.mem (hdrp h.memBrk) = pack 0 1
  apart    : NoAdjFree (blockList h)
  range    : h.memHeap ≤ h.memBrk ∧ h.memBrk ≤ h.memMaxAddr

/-- The allocated blocks after the prologue. -/
def liveBlocks (h : Heap) : List Block := (blockList h).tail.filter Block.alloc

end Malloc
