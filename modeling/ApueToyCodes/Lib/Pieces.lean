import ApueToyCodes.Lib.RecordFile

/-!
# `Lib.Pieces` — a file written in pieces, in any order

`Agrees tgt f o n`: in the `n` bytes from `o` on, the file `f` is what it is to become (`tgt`). Writing a piece of `tgt`
makes the file agree there (`agrees_fill`), writing elsewhere changes nothing (`Agrees.fill`), and a file that
agrees with `tgt` block by block up to its end is the beginning of `tgt` (`eq_take`).
-/

namespace Pieces

open RecordFile

variable {f tgt bs : List UInt8} {o n p m b : Nat}

/-- Writing `bs` at `o`; nothing is done where there is nothing to write. -/
def fill (f : List UInt8) (o : Nat) (bs : List UInt8) : List UInt8 := if bs = [] then f else pwrite f o bs

@[simp] theorem fill_nil (f : List UInt8) (o : Nat) : fill f o [] = f := if_pos rfl

theorem length_pwrite (f : List UInt8) (o : Nat) (bs : List UInt8) :
    (pwrite f o bs).length = max f.length (o + bs.length) := by
  simp only [pwrite, List.length_append, List.length_take, List.length_replicate, List.length_drop]
  omega

theorem length_fill_le (f : List UInt8) (o : Nat) (bs : List UInt8) :
    (fill f o bs).length ≤ max f.length (o + bs.length) := by
  unfold fill
  split
  · omega
  · exact Nat.le_of_eq (length_pwrite f o bs)

/-- What was written is there. -/
theorem getElem?_fill_mem (hp : o ≤ p) (h : p < o + bs.length) : (fill f o bs)[p]? = bs[p - o]? := by
  have hne : bs ≠ [] := by
    rintro rfl
    simp at h
    omega
  have hlen : (f.take o ++ List.replicate (o - f.length) 0).length = o := by
    simp only [List.length_append, List.length_take, List.length_replicate]
    omega
  rw [fill, if_neg hne, pwrite, List.append_assoc,
    List.getElem?_append_right (by omega), hlen, List.getElem?_append_left (by omega)]

/-- What is elsewhere in the file stays. -/
theorem getElem?_fill_ne (hlen : p < f.length) (h : p < o ∨ o + bs.length ≤ p) :
    (fill f o bs)[p]? = f[p]? := by
  unfold fill
  split
  · rfl
  · rcases h with h | h
    · rw [pwrite, List.append_assoc, List.append_assoc, List.getElem?_append_left (by simp; omega),
        List.getElem?_take_of_lt h]
    · have h' : (f.take o ++ List.replicate (o - f.length) 0 ++ bs).length = o + bs.length := by
        simp only [List.length_append, List.length_take, List.length_replicate]
        omega
      rw [pwrite, List.getElem?_append_right (by omega), h', List.getElem?_drop]
      congr 1
      omega

/-! ## Pieces that are as they are to be -/

/-- `f` is `tgt` in the `n` bytes from `o` on. -/
def Agrees (tgt f : List UInt8) (o n : Nat) : Prop :=
  o + n ≤ f.length ∧ ∀ p, o ≤ p → p < o + n → f[p]? = tgt[p]?

/-- **Writing** a piece of `tgt`. -/
theorem agrees_fill (h : bs = pread tgt o n) (hn : n ≤ tgt.length - o) (hn0 : n ≠ 0) :
    Agrees tgt (fill f o bs) o n := by
  have hlen : bs.length = n := by
    rw [h, pread, List.length_take, List.length_drop]
    omega
  refine ⟨?_, fun p hp hpn => ?_⟩
  · have hne : bs ≠ [] := List.ne_nil_of_length_pos (by omega)
    rw [fill, if_neg hne, length_pwrite]
    omega
  · rw [getElem?_fill_mem hp (by omega), h, pread, List.getElem?_take_of_lt (by omega),
      List.getElem?_drop]
    congr 1
    omega

/-- **Writing elsewhere.** -/
theorem Agrees.fill (h : Agrees tgt f o n) (hd : p + bs.length ≤ o ∨ o + n ≤ p) :
    Agrees tgt (fill f p bs) o n := by
  refine ⟨?_, fun q hq hqn => ?_⟩
  · refine Nat.le_trans h.1 ?_
    unfold Pieces.fill
    split
    · exact Nat.le_refl _
    · rw [length_pwrite]
      exact Nat.le_max_left _ _
  · rw [getElem?_fill_ne (by have := h.1; omega) (by omega)]
    exact h.2 q hq hqn

/-- Two pieces side by side. -/
theorem Agrees.append (h : Agrees tgt f o n) (h' : Agrees tgt f (o + n) m) : Agrees tgt f o (n + m) := by
  refine ⟨by have := h'.1; omega, fun p hp hpn => ?_⟩
  by_cases hlt : p < o + n
  · exact h.2 p hp hlt
  · exact h'.2 p (by omega) (by omega)

/-- Blocks of `b` bytes, one after the other. -/
theorem agrees_blocks (k : Nat) (h : ∀ j < k, Agrees tgt f (j * b) b) : Agrees tgt f 0 (k * b) := by
  induction k with
  | zero => exact ⟨by simp, fun p _ hp => absurd hp (by simp)⟩
  | succ k ih =>
      rw [Nat.succ_mul]
      refine (ih fun j hj => h j (by omega)).append ?_
      rw [Nat.zero_add]
      exact h k (by omega)

/-- **The whole file.** -/
theorem eq_take (h : Agrees tgt f 0 n) (hlen : f.length ≤ n) : f = tgt.take n := by
  refine List.ext_getElem? fun p => ?_
  by_cases hp : p < n
  · rw [h.2 p (Nat.zero_le _) (by omega), List.getElem?_take_of_lt hp]
  · rw [List.getElem?_eq_none (by omega), List.getElem?_eq_none (by simp; omega)]

end Pieces
