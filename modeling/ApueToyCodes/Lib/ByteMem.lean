import Mathlib.Algebra.Group.Nat.Defs
import Mathlib.Tactic.Common

/-!
# `Lib.ByteMem` — a byte-addressed memory with 32-bit little-endian words

A total memory `Mem = Nat → UInt8`, the word accesses `load32`/`store32`, the accesses
`loadBytes`/`storeBytes` of a stretch of bytes, and the facts every client needs about them: what a store
makes a load return (`load32_store32_self`, `load32_store32_ne`) and which bytes a store leaves alone (`Agree`,
the frame predicate, with its composition rules).
-/

namespace ByteMem

/-- A byte-addressed memory. -/
abbrev Mem := Nat → UInt8

/-- The `k`-th byte of `v`, least significant first. -/
def byteOf (v k : Nat) : UInt8 := UInt8.ofNat (v / 256 ^ k)

/-- Read the 32-bit word at `a`. -/
def load32 (m : Mem) (a : Nat) : Nat :=
  (m a).toNat + 256 * (m (a + 1)).toNat + 65536 * (m (a + 2)).toNat + 16777216 * (m (a + 3)).toNat

/-- Write the low 32 bits of `v` at `a`. -/
def store32 (m : Mem) (a v : Nat) : Mem := fun x =>
  if a ≤ x ∧ x < a + 4 then byteOf v (x - a) else m x

/-- Write one byte. -/
def store8 (m : Mem) (a : Nat) (v : UInt8) : Mem := fun x => if x = a then v else m x

/-- Read the `n` bytes from `a` on. -/
def loadBytes (m : Mem) (a n : Nat) : List UInt8 := (List.range n).map fun i => m (a + i)

/-- Write the bytes `bs` from `a` on. -/
def storeBytes (m : Mem) (a : Nat) (bs : List UInt8) : Mem := fun x =>
  if a ≤ x ∧ x < a + bs.length then bs.getD (x - a) 0 else m x

/-! ## Frames -/

/-- `m'` holds the same bytes as `m` on `[lo, hi)`. -/
def Agree (m m' : Mem) (lo hi : Nat) : Prop := ∀ x, lo ≤ x → x < hi → m' x = m x

variable {m m' m'' : Mem} {a b lo hi v : Nat}

theorem Agree.refl : Agree m m lo hi := fun _ _ _ => rfl

theorem Agree.trans (h₁ : Agree m m' lo hi) (h₂ : Agree m' m'' lo hi) : Agree m m'' lo hi :=
  fun x hlo hhi => (h₂ x hlo hhi).trans (h₁ x hlo hhi)

theorem Agree.mono {lo' hi' : Nat} (h : Agree m m' lo hi) (hl : lo ≤ lo') (hh : hi' ≤ hi) :
    Agree m m' lo' hi' :=
  fun x hlo hhi => h x (Nat.le_trans hl hlo) (Nat.lt_of_lt_of_le hhi hh)

/-- A word store touches only its own four bytes. -/
theorem agree_store32 (h : hi ≤ a ∨ a + 4 ≤ lo) : Agree m (store32 m a v) lo hi := by
  intro x hlo hhi
  unfold store32
  rw [if_neg (by omega)]

/-- A byte store touches only its own byte. -/
theorem agree_store8 {c : UInt8} (h : hi ≤ a ∨ a < lo) : Agree m (store8 m a c) lo hi := by
  intro x hlo hhi
  unfold store8
  rw [if_neg (by omega)]

/-- A store of bytes touches only their places. -/
theorem agree_storeBytes {bs : List UInt8} (h : hi ≤ a ∨ a + bs.length ≤ lo) :
    Agree m (storeBytes m a bs) lo hi := by
  intro x hlo hhi
  unfold storeBytes
  rw [if_neg (by omega)]

/-! ## Loads after stores -/

theorem load32_lt (m : Mem) (a : Nat) : load32 m a < 2 ^ 32 := by
  unfold load32
  have h0 := (m a).toNat_lt
  have h1 := (m (a + 1)).toNat_lt
  have h2 := (m (a + 2)).toNat_lt
  have h3 := (m (a + 3)).toNat_lt
  omega

/-- A word depends on its four bytes only. -/
theorem load32_congr (h : Agree m m' a (a + 4)) : load32 m' a = load32 m a := by
  unfold load32
  rw [h a (by omega) (by omega), h (a + 1) (by omega) (by omega), h (a + 2) (by omega) (by omega),
    h (a + 3) (by omega) (by omega)]

theorem byteOf_toNat (v k : Nat) : (byteOf v k).toNat = v / 256 ^ k % 256 := by
  simp [byteOf]

theorem store32_byte {k : Nat} (h : k < 4) : store32 m a v (a + k) = byteOf v k := by
  unfold store32
  rw [if_pos (by omega), Nat.add_sub_cancel_left]

/-- Reading back a stored word gives its low 32 bits. -/
theorem load32_store32_self (m : Mem) (a v : Nat) : load32 (store32 m a v) a = v % 2 ^ 32 := by
  have h0 : store32 m a v a = byteOf v 0 := store32_byte (k := 0) (by omega)
  unfold load32
  rw [h0, store32_byte (by omega), store32_byte (by omega), store32_byte (by omega)]
  simp only [byteOf_toNat]
  omega

/-- A store elsewhere does not change a word. -/
theorem load32_store32_ne (h : b + 4 ≤ a ∨ a + 4 ≤ b) : load32 (store32 m a v) b = load32 m b :=
  load32_congr (agree_store32 h)

@[simp] theorem length_loadBytes (m : Mem) (a n : Nat) : (loadBytes m a n).length = n := by
  simp [loadBytes]

theorem loadBytes_getElem? {n i : Nat} (h : i < n) : (loadBytes m a n)[i]? = some (m (a + i)) := by
  unfold loadBytes
  rw [List.getElem?_map, List.getElem?_range h, Option.map_some]

/-- Reading back stored bytes. -/
theorem loadBytes_storeBytes_self (m : Mem) (a : Nat) (bs : List UInt8) :
    loadBytes (storeBytes m a bs) a bs.length = bs := by
  apply List.ext_getElem?
  intro i
  by_cases hi : i < bs.length
  · rw [loadBytes_getElem? hi]
    unfold storeBytes
    rw [if_pos (by omega), Nat.add_sub_cancel_left, List.getD_eq_getElem?_getD, List.getElem?_eq_getElem hi,
      Option.getD_some]
  · rw [List.getElem?_eq_none (by rw [length_loadBytes]; omega), List.getElem?_eq_none (by omega)]

/-- A stretch depends on its bytes only. -/
theorem loadBytes_congr {n : Nat} (h : Agree m m' a (a + n)) : loadBytes m' a n = loadBytes m a n := by
  apply List.ext_getElem?
  intro i
  by_cases hi : i < n
  · rw [loadBytes_getElem? hi, loadBytes_getElem? hi, h (a + i) (by omega) (by omega)]
  · rw [List.getElem?_eq_none (by rw [length_loadBytes]; omega),
      List.getElem?_eq_none (by rw [length_loadBytes]; omega)]

/-- Two stretches in a row. -/
theorem loadBytes_add (m : Mem) (a n k : Nat) :
    loadBytes m a (n + k) = loadBytes m a n ++ loadBytes m (a + n) k := by
  unfold loadBytes
  rw [List.range_add, List.map_append, List.map_map]
  simp only [Function.comp_def, Nat.add_assoc]

end ByteMem
