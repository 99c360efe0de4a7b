import ApueToyCodes.Lib.Pieces
import ApueToyCodes.Lib.Runs

/-!
# `Rot13.Translate` — `translate` and the plain copying loop (`apue.3e/advio`, rot13a.c)

`fixup.awk` puts the `translate` of rot13a.c into rot13c2.c.in, so both programs have the same one. The loop of
`main` in rot13a.c reads a block, translates it and writes it before it reads the next one. What `read` and
`write` return is the label of a turn: between one byte and all that was asked for, 0 at the end of the file, −1
for an error.
-/

namespace Rot13

open RecordFile Pieces

/-- `BSZ` -/
abbrev bsz : Nat := 4096

/-- `isalpha` in the locale a program starts in. -/
def isalpha (c : UInt8) : Bool :=
  ('A'.toUInt8 ≤ c && c ≤ 'Z'.toUInt8) || ('a'.toUInt8 ≤ c && c ≤ 'z'.toUInt8)

def translate (c : UInt8) : UInt8 :=
  if isalpha c then
    if c ≥ 'n'.toUInt8 then c - 13
    else if c ≥ 'a'.toUInt8 then c + 13
    else if c ≥ 'N'.toUInt8 then c - 13
    else c + 13
  else c

/-- The first half of the alphabet is exchanged with the second. -/
theorem toNat_translate (c : UInt8) : (translate c).toNat =
    if (65 ≤ c.toNat ∧ c.toNat ≤ 77) ∨ (97 ≤ c.toNat ∧ c.toNat ≤ 109) then c.toNat + 13
    else if (78 ≤ c.toNat ∧ c.toNat ≤ 90) ∨ (110 ≤ c.toNat ∧ c.toNat ≤ 122) then c.toNat - 13
    else c.toNat := by
  have hc := c.toNat_lt
  have hadd : (c + 13).toNat = (c.toNat + 13) % 256 := UInt8.toNat_add c 13
  have hsub : 13 ≤ c.toNat → (c - 13).toNat = c.toNat - 13 := fun h => UInt8.toNat_sub_of_le c 13 h
  have hA : 'A'.toUInt8.toNat = 65 := rfl
  have hN : 'N'.toUInt8.toNat = 78 := rfl
  have hZ : 'Z'.toUInt8.toNat = 90 := rfl
  have ha : 'a'.toUInt8.toNat = 97 := rfl
  have hn : 'n'.toUInt8.toNat = 110 := rfl
  have hz : 'z'.toUInt8.toNat = 122 := rfl
  simp only [translate, isalpha, UInt8.le_iff_toNat_le, ge_iff_le, Bool.or_eq_true, Bool.and_eq_true,
    decide_eq_true_eq, hA, hN, hZ, ha, hn, hz]
  split_ifs <;> omega

@[simp] theorem translate_translate (c : UInt8) : translate (translate c) = c := by
  rw [← UInt8.toNat_inj, toNat_translate, toNat_translate]
  split_ifs <;> omega

/-- The output both programs are to write. -/
def rot13 (inp : List UInt8) : List UInt8 := inp.map translate

@[simp] theorem length_rot13 (inp : List UInt8) : (rot13 inp).length = inp.length := List.length_map _

@[simp] theorem rot13_rot13 (inp : List UInt8) : rot13 (rot13 inp) = inp := by
  simp [rot13, Function.comp_def]

/-- `buf[j] = translate(buf[j])` for the `j` below `n`. -/
def translateFirst (n : Nat) (data : List UInt8) : List UInt8 := (data.take n).map translate ++ data.drop n

/-- How a program ends: `exit(0)`, or one of the error functions with its text and numbers. -/
inductive Exit where
  | ok
  | errSys (msg : String)
  | errExit (err : Int) (msg : String)
  | errQuit (msg : String) (args : List Int)
deriving DecidableEq

/-! ## `main` of rot13a.c -/

/-- The positions in the two files and how `main` ended, when it has. -/
structure Plain where
  pos  : Nat
  out  : List UInt8
  exit : Option Exit
deriving DecidableEq

def Plain.init : Plain := { pos := 0, out := [], exit := none }

/-- What `read` may return for `n` bytes at `pos`: fewer than there are, but none only at the end. -/
def ReadReturns (inp : List UInt8) (pos n : Nat) (r : Int) : Prop :=
  r = -1 ∨ 0 ≤ r ∧ r.toNat ≤ (pread inp pos n).length ∧ (r = 0 → pread inp pos n = [])

instance (inp : List UInt8) (pos n : Nat) (r : Int) : Decidable (ReadReturns inp pos n r) :=
  inferInstanceAs (Decidable (_ ∨ _))

/-- What `write` may return for `n` bytes. -/
def WriteReturns (n : Nat) (r : Int) : Prop := r = -1 ∨ 0 ≤ r ∧ r.toNat ≤ n

instance (n : Nat) (r : Int) : Decidable (WriteReturns n r) := inferInstanceAs (Decidable (_ ∨ _))

/-- One turn of the loop, when `read` returns `n` and `write` returns `nw`. -/
def turn (inp : List UInt8) (s : Plain) (r : Int × Int) : Option Plain :=
  let (n, nw) := r
  if s.exit = none ∧ ReadReturns inp s.pos bsz n then
    -- an error of `read` ends the loop like the end of the file
    if n ≤ 0 then some { s with exit := some .ok }
    else
      let buf := translateFirst n.toNat (pread inp s.pos n.toNat)
      if WriteReturns n.toNat nw then
        let s' := { s with pos := s.pos + n.toNat, out := s.out ++ buf.take nw.toNat }
        if nw ≠ n then
          some { s' with exit := some (if nw < 0 then .errSys "write failed" else .errQuit "short write (%d/%d)" [nw, n]) }
        else some s'
      else none
  else none

end Rot13
