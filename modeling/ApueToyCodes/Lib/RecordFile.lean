import Mathlib.Data.List.Basic
import Mathlib.Tactic.Common

/-!
# `Lib.RecordFile` — files of records

A file is a list of bytes, read and written at an offset (`pread`, `pwrite`). A file of records is a head
followed by the codes of its records, one after the other; a record is known by the offset it starts at
(`rowAt`). Records have codes of different lengths, so an offset says more than a number of a record, and it
stays with its record: the rules for a record replaced by one of the same length (`rowAt_replace`) and for a
record appended (`rowAt_append`) leave every other record where it is. `pread_middle`, `pwrite_middle` and
`pwrite_end` say the same of the bytes.
-/

namespace RecordFile

universe u

/-! ## Bytes at an offset -/

/-- `lseek` and `read`: at most `n` bytes from `o` on. -/
def pread (f : List UInt8) (o n : Nat) : List UInt8 := (f.drop o).take n

/-- `lseek` and `write`: a gap behind the end is filled with zeros. -/
def pwrite (f : List UInt8) (o : Nat) (bs : List UInt8) : List UInt8 :=
  f.take o ++ List.replicate (o - f.length) 0 ++ bs ++ f.drop (o + bs.length)

variable {a b b' c f : List UInt8}

theorem pread_middle (a b c : List UInt8) : pread (a ++ (b ++ c)) a.length b.length = b := by
  unfold pread
  rw [List.drop_left, List.take_left]

theorem pwrite_middle (a c : List UInt8) (h : b'.length = b.length) :
    pwrite (a ++ (b ++ c)) a.length b' = a ++ (b' ++ c) := by
  unfold pwrite
  rw [List.take_left, h, ← List.append_assoc a b c, ← List.length_append, List.drop_left,
    List.length_append, Nat.sub_eq_zero_of_le (by simp only [List.length_append]; omega),
    List.replicate_zero, List.append_nil, List.append_assoc]

theorem pwrite_end (f bs : List UInt8) : pwrite f f.length bs = f ++ bs := by
  unfold pwrite
  rw [List.take_length, Nat.sub_self, List.replicate_zero, List.append_nil,
    List.drop_eq_nil_of_le (Nat.le_add_right _ _), List.append_nil]

theorem pread_end (f : List UInt8) (n : Nat) : pread f f.length n = [] := by
  unfold pread
  rw [List.drop_length, List.take_nil]

/-! ## Records by their offsets -/

section Rows

variable {α : Type u} (enc : α → List UInt8)

/-- The codes of `xs`. -/
def codes (xs : List α) : List UInt8 := xs.flatMap enc

/-- The record that starts at `o`, when the first one starts at `base`. -/
def rowAt : Nat → List α → Nat → Option α
  | _,    [],      _ => none
  | base, x :: xs, o => if o = base then some x else rowAt (base + (enc x).length) xs o

/-- `y` in place of the record at `o`. -/
def replaceAt : Nat → List α → Nat → α → List α
  | _,    [],      _, _ => []
  | base, x :: xs, o, y => if o = base then y :: xs else x :: replaceAt (base + (enc x).length) xs o y

variable {enc} {x y : α} {xs ys zs : List α} {base o : Nat}

@[simp] theorem codes_nil : codes enc [] = [] := rfl

@[simp] theorem codes_cons (x : α) (xs : List α) : codes enc (x :: xs) = enc x ++ codes enc xs :=
  List.flatMap_cons

@[simp] theorem codes_append (xs ys : List α) : codes enc (xs ++ ys) = codes enc xs ++ codes enc ys :=
  List.flatMap_append

/-- A record is where the codes before it end. -/
theorem exists_of_rowAt (h : rowAt enc base xs o = some x) :
    ∃ ys zs, xs = ys ++ x :: zs ∧ o = base + (codes enc ys).length := by
  induction xs generalizing base with
  | nil => exact absurd h (by simp [rowAt])
  | cons z xs ih =>
      rw [rowAt] at h
      split at h
      · rename_i heq
        obtain rfl := Option.some.inj h
        exact ⟨[], xs, rfl, heq⟩
      · obtain ⟨ys, zs, rfl, ho⟩ := ih h
        refine ⟨z :: ys, zs, rfl, ?_⟩
        rw [ho, codes_cons, List.length_append, Nat.add_assoc]

theorem rowAt_lt (h : rowAt enc base xs o = some x) :
    base ≤ o ∧ o + (enc x).length ≤ base + (codes enc xs).length := by
  obtain ⟨ys, zs, rfl, rfl⟩ := exists_of_rowAt h
  rw [codes_append, codes_cons, List.length_append, List.length_append]
  omega

section

variable (hpos : ∀ x, 0 < (enc x).length)

include hpos

theorem rowAt_split (base : Nat) (ys zs : List α) (x : α) :
    rowAt enc base (ys ++ x :: zs) (base + (codes enc ys).length) = some x := by
  induction ys generalizing base with
  | nil => exact if_pos rfl
  | cons y ys ih =>
      have hy := hpos y
      rw [List.cons_append, rowAt, codes_cons, List.length_append, if_neg (by omega),
        ← Nat.add_assoc]
      exact ih _

/-- **Replacing** a record by one of the same length. -/
theorem rowAt_replace (h : (enc y).length = (enc x).length) (base : Nat) (ys zs : List α) (o : Nat) :
    rowAt enc base (ys ++ y :: zs) o =
      if o = base + (codes enc ys).length then some y else rowAt enc base (ys ++ x :: zs) o := by
  induction ys generalizing base with
  | nil =>
      rw [List.nil_append, List.nil_append, rowAt, rowAt, h, codes_nil, List.length_nil, Nat.add_zero]
      by_cases ho : o = base
      · rw [if_pos ho, if_pos ho]
      · rw [if_neg ho, if_neg ho, if_neg ho]
  | cons z ys ih =>
      have hz := hpos z
      rw [List.cons_append, List.cons_append, rowAt, rowAt, ih, codes_cons,
        List.length_append, Nat.add_assoc]
      by_cases ho : o = base
      · rw [if_pos ho, if_neg (by omega), if_pos ho]
      · rw [if_neg ho, if_neg ho]

/-- The records around the one replaced. -/
theorem replaceAt_split (base : Nat) (ys zs : List α) (x y : α) :
    replaceAt enc base (ys ++ x :: zs) (base + (codes enc ys).length) y = ys ++ y :: zs := by
  induction ys generalizing base with
  | nil => exact if_pos rfl
  | cons z ys ih =>
      have hz := hpos z
      rw [List.cons_append, replaceAt, codes_cons, List.length_append, if_neg (by omega), ← Nat.add_assoc, ih]
      rfl

theorem rowAt_replaceAt (h : rowAt enc base xs o = some x) (hlen : (enc y).length = (enc x).length)
    (p : Nat) : rowAt enc base (replaceAt enc base xs o y) p = if p = o then some y else rowAt enc base xs p := by
  obtain ⟨ys, zs, rfl, rfl⟩ := exists_of_rowAt h
  rw [replaceAt_split hpos, rowAt_replace hpos hlen]

/-- **Appending** a record. -/
theorem rowAt_append (base : Nat) (xs : List α) (y : α) (o : Nat) :
    rowAt enc base (xs ++ [y]) o =
      if o = base + (codes enc xs).length then some y else rowAt enc base xs o := by
  induction xs generalizing base with
  | nil => rfl
  | cons z xs ih =>
      have hz := hpos z
      rw [List.cons_append, rowAt, rowAt, ih, codes_cons, List.length_append, Nat.add_assoc]
      by_cases ho : o = base
      · rw [if_pos ho, if_neg (by omega), if_pos ho]
      · rw [if_neg ho, if_neg ho]

/-- Every record has an offset. -/
theorem exists_rowAt_of_mem (h : x ∈ xs) (base : Nat) : ∃ o, rowAt enc base xs o = some x := by
  obtain ⟨ys, zs, rfl⟩ := List.append_of_mem h
  exact ⟨_, rowAt_split hpos base ys zs x⟩

end

end Rows

end RecordFile
