import Mathlib.Algebra.Group.Nat.Defs
import Mathlib.Data.List.TakeWhile
import Mathlib.Tactic.Common

/-!
# `Lib.Decimal` — decimal numbers as text

`dec` and `pad` are what `printf` makes of `%ld` and `%*ld` for a number that is not negative, `atol` reads a
number off the front of a text. The rule for clients is `atol_pad`: a printed number reads back, whatever
comes behind it, unless that starts with a digit.
-/

namespace Decimal

/-- `isdigit` -/
def isDigit (c : UInt8) : Bool := decide (48 ≤ c ∧ c ≤ 57)

/-- `isspace` -/
def isSpace (c : UInt8) : Bool := decide (c = 32 ∨ 9 ≤ c ∧ c ≤ 13)

/-- `%ld` -/
def dec (n : Nat) : List UInt8 := (Nat.toDigits 10 n).map fun c => UInt8.ofNat c.toNat

/-- `%*ld`: at least `w` wide, with blanks in front. -/
def pad (w n : Nat) : List UInt8 := List.replicate (w - (dec n).length) 32 ++ dec n

/-- The number a row of digits stands for. -/
def value (s : List UInt8) : Nat := s.foldl (fun n c => 10 * n + (c.toNat - 48)) 0

/-- `atol` -/
def atol (s : List UInt8) : Int :=
  match s.dropWhile isSpace with
  | [] => 0
  | c :: s =>
    if c = 45 then -value (s.takeWhile isDigit)
    else if c = 43 then value (s.takeWhile isDigit)
    else value ((c :: s).takeWhile isDigit)

variable {n w : Nat} {c : UInt8} {s rest : List UInt8}

/-! ## The digits of a number -/

theorem dec_ne_nil (n : Nat) : dec n ≠ [] := by
  unfold dec
  rw [Ne, List.map_eq_nil_iff]
  exact Nat.toDigits_ne_nil

theorem length_dec_pos (n : Nat) : 0 < (dec n).length := List.length_pos_iff.mpr (dec_ne_nil n)

theorem length_dec_le (hw : 0 < w) (h : n < 10 ^ w) : (dec n).length ≤ w := by
  unfold dec
  rw [List.length_map]
  exact (Nat.length_toDigits_le_iff (by decide) hw).mpr h

theorem length_pad (hw : 0 < w) (h : n < 10 ^ w) : (pad w n).length = w := by
  have hle := length_dec_le hw h
  unfold pad
  rw [List.length_append, List.length_replicate]
  omega

/-- What a character that is a digit becomes as a byte. -/
theorem toNat_of_isDigit {c : Char} (h : c.isDigit) : (UInt8.ofNat c.toNat).toNat = c.toNat := by
  have hle : c.toNat ≤ 57 := by
    unfold Char.isDigit at h
    simp only [Bool.and_eq_true, decide_eq_true_eq] at h
    exact h.2
  rw [UInt8.toNat_ofNat']
  omega

theorem isDigit_of_mem_dec (h : c ∈ dec n) : isDigit c = true := by
  obtain ⟨d, hd, rfl⟩ := List.mem_map.mp h
  have hdig : d.isDigit := Nat.isDigit_of_mem_toDigits (by decide) (by decide) hd
  have hnat := toNat_of_isDigit hdig
  unfold Char.isDigit at hdig
  simp only [Bool.and_eq_true, decide_eq_true_eq] at hdig
  have hlo : 48 ≤ d.toNat := hdig.1
  have hhi : d.toNat ≤ 57 := hdig.2
  unfold isDigit
  rw [decide_eq_true_eq, UInt8.le_iff_toNat_le, UInt8.le_iff_toNat_le, hnat]
  exact ⟨hlo, hhi⟩

/-- A byte that is no digit is not in a printed number. -/
theorem notMem_dec (h : isDigit c = false) : c ∉ dec n := by
  intro hc
  rw [isDigit_of_mem_dec hc] at h
  exact absurd h (by decide)

/-! ## Reading a number back -/

theorem value_dec (n : Nat) : value (dec n) = n := by
  have hfold : ∀ (l : List Char) (k : Nat), (∀ c ∈ l, c.isDigit) →
      (l.map fun c => UInt8.ofNat c.toNat).foldl (fun n c => 10 * n + (c.toNat - 48)) k
        = Nat.ofDigitChars 10 l k := by
    intro l
    induction l with
    | nil => exact fun _ _ => (Nat.ofDigitChars_nil).symm
    | cons c l ih =>
        intro k h
        rw [Nat.ofDigitChars_cons, ← ih _ fun d hd => h d (List.mem_cons_of_mem _ hd), List.map_cons,
          List.foldl_cons, toNat_of_isDigit (h c List.mem_cons_self)]
        rfl
  have hdig : ∀ c ∈ Nat.toDigits 10 n, c.isDigit := fun c =>
    Nat.isDigit_of_mem_toDigits (by decide) (by decide)
  exact (hfold _ 0 hdig).trans (Nat.ofDigitChars_toDigits (by decide) (by decide))

/-- The digits in front of something that does not start with a digit. -/
theorem takeWhile_dec (h : ∀ c ∈ rest.head?, isDigit c = false) :
    (dec n ++ rest).takeWhile isDigit = dec n := by
  rw [List.takeWhile_append_of_pos fun c => isDigit_of_mem_dec]
  cases rest with
  | nil => exact List.append_nil _
  | cons c rest => rw [List.takeWhile_cons_of_neg (by simp [h c rfl]), List.append_nil]

/-- A digit is no white space and no sign. -/
theorem of_isDigit (h : isDigit c = true) : isSpace c = false ∧ c ≠ 45 ∧ c ≠ 43 := by
  unfold isDigit at h
  unfold isSpace
  simp only [decide_eq_true_eq, UInt8.le_iff_toNat_le] at h
  have h48 : (48 : UInt8).toNat = 48 := rfl
  refine ⟨?_, ?_, ?_⟩
  · rw [decide_eq_false_iff_not]
    rintro (rfl | ⟨_, hle⟩)
    · exact absurd h.1 (by decide)
    · rw [UInt8.le_iff_toNat_le] at hle
      have h13 : (13 : UInt8).toNat = 13 := rfl
      omega
  · rintro rfl
    exact absurd h.1 (by decide)
  · rintro rfl
    exact absurd h.1 (by decide)

/-- **A printed number reads back.** -/
theorem atol_pad (h : ∀ c ∈ rest.head?, isDigit c = false) : atol (pad w n ++ rest) = n := by
  obtain ⟨d, ds, hd⟩ := List.exists_cons_of_ne_nil (dec_ne_nil n)
  have hdig : isDigit d = true := isDigit_of_mem_dec (n := n) (by rw [hd]; exact List.mem_cons_self)
  obtain ⟨hspace, hminus, hplus⟩ := of_isDigit hdig
  -- the blanks in front are skipped
  have hskip : (pad w n ++ rest).dropWhile isSpace = d :: (ds ++ rest) := by
    unfold pad
    rw [List.append_assoc, List.dropWhile_append_of_pos, hd, List.cons_append, List.dropWhile_cons_of_neg]
    · simp [hspace]
    · intro c hc
      rw [List.eq_of_mem_replicate hc]
      rfl
  have htake : (d :: (ds ++ rest)).takeWhile isDigit = dec n := by
    rw [← List.cons_append, ← hd, takeWhile_dec h]
  unfold atol
  rw [hskip]
  dsimp only
  rw [if_neg hminus, if_neg hplus, htake, value_dec]

/-- A number printed alone. -/
theorem atol_pad_self (w n : Nat) : atol (pad w n) = n := by
  have hrest : ∀ c ∈ ([] : List UInt8).head?, isDigit c = false := fun c hc => absurd hc (Option.not_mem_none c)
  have h := atol_pad (w := w) (n := n) hrest
  rwa [List.append_nil] at h

theorem atol_dec (n : Nat) : atol (dec n) = n := by
  have hpad : pad 0 n = dec n := by
    unfold pad
    rw [Nat.zero_sub]
    rfl
  rw [← hpad]
  exact atol_pad_self 0 n

end Decimal
