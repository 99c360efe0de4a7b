import ApueToyCodes.Rot13.Correctness.Termination

/-!
# `Rot13.Correctness.Agree` — the two programs write the same file

The loop of rot13a.c writes a beginning of the translated input, whatever `read` and `write` return, and all of
it when it ends without an error. So does rot13c2.c, by `full_output`; and either of them, run on what the
other wrote, gives the input back.
-/

namespace Rot13

open RecordFile Pieces

/-- Runs of the loop of rot13a.c. -/
def PlainRuns (inp : List UInt8) : Plain → List (Int × Int) → Plain → Prop :=
  Runs.Run fun s r s' => turn inp s r = some s'

variable {inp : List UInt8}

/-- `past` are the returns so far. -/
structure PlainInv (inp : List UInt8) (past : List (Int × Int)) (s : Plain) : Prop where
  part : s.out <+: rot13 inp
  pos  : s.pos ≤ inp.length
  out  : s.exit = none ∨ s.exit = some .ok → s.out = (rot13 inp).take s.pos
  done : s.exit = some .ok → (∀ r ∈ past, r.1 ≠ -1) → s.pos = inp.length

theorem plainInv_init (inp : List UInt8) : PlainInv inp [] .init where
  part := List.nil_prefix
  pos := Nat.zero_le _
  out _ := (List.take_zero).symm
  done h := by simp [Plain.init] at h

/-- What `translateFirst` leaves in a buffer just read. -/
theorem translateFirst_pread (inp : List UInt8) (o n : Nat) :
    translateFirst n (pread inp o n) = pread (rot13 inp) o n := by
  have hlen : (pread inp o n).length ≤ n := by
    rw [length_pread]
    exact Nat.min_le_left _ _
  rw [translateFirst, List.take_of_length_le hlen, List.drop_of_length_le hlen, List.append_nil, pread_rot13]

/-- The next piece of the output. -/
theorem take_append_pread (f : List UInt8) (o n : Nat) : f.take o ++ pread f o n = f.take (o + n) := by
  rw [List.take_add, pread]

theorem plainInv_step {past : List (Int × Int)} {s s' : Plain} {r : Int × Int} (h : PlainInv inp past s)
    (hs : turn inp s r = some s') : PlainInv inp (past ++ [r]) s' := by
  obtain ⟨n, nw⟩ := r
  simp only [turn] at hs
  split at hs
  · rename_i hread
    obtain ⟨hrun, hret⟩ := hread
    have hout := h.out (.inl hrun)
    split at hs
    · -- the end of the file, or an error
      obtain rfl := Option.some.inj hs
      refine ⟨h.part, h.pos, fun _ => hout, fun _ hok => ?_⟩
      have hne : n ≠ -1 := hok (n, nw) (by simp)
      rcases hret with hneg | ⟨h0, _, hend⟩
      · exact absurd hneg hne
      · have hnil := congrArg List.length (hend (by omega))
        have hb : 0 < bsz := by decide
        have hpos := h.pos
        rw [length_pread, List.length_nil] at hnil
        show s.pos = inp.length
        omega
    · split at hs
      · rename_i hn hwrite
        have hroom : s.pos + n.toNat ≤ inp.length := by
          have hpos := h.pos
          rcases hret with hneg | ⟨_, hle, _⟩
          · omega
          · rw [length_pread] at hle
            omega
        rw [translateFirst_pread] at hs
        split at hs
        · -- not all of it was written
          obtain rfl := Option.some.inj hs
          refine ⟨?_, hroom, fun hx => ?_, fun hx => ?_⟩
          · show s.out ++ (pread (rot13 inp) s.pos n.toNat).take nw.toNat <+: rot13 inp
            rw [hout, pread, List.take_take, ← pread, take_append_pread]
            exact List.take_prefix _ _
          · exfalso
            revert hx
            split <;> simp
          · exfalso
            revert hx
            split <;> simp
        · rename_i heq
          obtain rfl : nw = n := not_not.mp heq
          obtain rfl := Option.some.inj hs
          have hall : s.out ++ (pread (rot13 inp) s.pos nw.toNat).take nw.toNat
              = (rot13 inp).take (s.pos + nw.toNat) := by
            rw [hout, pread, List.take_take, Nat.min_self, ← pread, take_append_pread]
          refine ⟨?_, hroom, fun _ => hall, fun hx => by simp [hrun] at hx⟩
          show s.out ++ (pread (rot13 inp) s.pos nw.toNat).take nw.toNat <+: rot13 inp
          rw [hall]
          exact List.take_prefix _ _
      · cases hs
  · cases hs

/-- **The plain loop.** The output is a beginning of the translated input at any time, and all of it at an
    `exit(0)` without an error of `read`. -/
theorem plain_output {tr : List (Int × Int)} {s : Plain} (h : PlainRuns inp .init tr s) :
    s.out <+: rot13 inp ∧ (s.exit = some .ok → (∀ r ∈ tr, r.1 ≠ -1) → s.out = rot13 inp) := by
  have hinv : PlainInv inp ([] ++ tr) s :=
    h.invariant_trace (fun _ _ _ _ hi hs => plainInv_step hi hs) (plainInv_init inp)
  refine ⟨hinv.part, fun hexit hok => ?_⟩
  rw [hinv.out (.inr hexit), hinv.done hexit (by simpa using hok), ← length_rot13, List.take_length]

/-- A file of one byte, copied by the plain loop. -/
theorem oneTurn (c : UInt8) : PlainRuns [c] .init [(1, 1), (0, 0)] ⟨1, [translate c], some .ok⟩ :=
  .cons rfl (.cons rfl .refl)

/-- **One output, and back.** When both programs copy a file without an error, they write the same, and either
    program run on that gives the file back. -/
theorem same_output {tr tr' : List Event} {rs rs' : List (Int × Int)} {s s' : State} {p p' : Plain}
    (ha : FullRuns inp True init tr s) (hs : s.pc = .exited .ok)
    (hp : PlainRuns inp .init rs p) (hpe : p.exit = some .ok) (hr : ∀ r ∈ rs, r.1 ≠ -1)
    (ha' : FullRuns p.out True init tr' s') (hs' : s'.pc = .exited .ok)
    (hp' : PlainRuns s.out .init rs' p') (hpe' : p'.exit = some .ok) (hr' : ∀ r ∈ rs', r.1 ≠ -1) :
    s.out = p.out ∧ s'.out = inp ∧ p'.out = inp := by
  have hout : s.out = rot13 inp := full_output ha hs
  have hplain : p.out = rot13 inp := (plain_output hp).2 hpe hr
  refine ⟨hout.trans hplain.symm, ?_, ?_⟩
  · rw [full_output ha' hs', hplain, rot13_rot13]
  · rw [(plain_output hp').2 hpe' hr', hout, rot13_rot13]

theorem same_output_example : ∃ s s' : State, s.out = [110] ∧ s'.out = [97] := by
  obtain ⟨s, hruns, hpc, hout⟩ := oneBlock_ends (c := 97) (by decide)
  obtain ⟨s', hruns', hpc', _⟩ := oneBlock_ends (c := 110) (by decide)
  have hback : PlainRuns s.out .init [(1, 1), (0, 0)] ⟨1, [97], some .ok⟩ := hout ▸ oneTurn 110
  have hsame := same_output hruns.readsAll hpc (oneTurn 97) rfl (by decide) hruns'.readsAll hpc' hback rfl (by decide)
  exact ⟨s, s', hout, hsame.2.1⟩

end Rot13
