import ApueToyCodes.GuessGame.Correctness.Decided

/-!
# `GuessGame.Correctness.Score` — what the two counters of a score count

A guess is to be scored by the places where it agrees with the secret, and by the characters of the secret
that it has elsewhere. The loops of `istrue` look for the first place of the guess with the character of the
secret, and stop there: an agreement behind such a place is counted as elsewhere. `main` takes any characters
for a guess, also one character many times.
-/

namespace GuessGame

variable {secret guess : List UInt8}

/-- The places where secret and guess agree. -/
def agreeing (secret guess : List UInt8) : Nat := secret.zipIdx.countP fun p => guess[p.2]? = some p.1

/-- The characters of the secret that occur in the guess. -/
def occurring (secret guess : List UInt8) : Nat := secret.countP (· ∈ guess)

/-- Where secret and guess agree, the guess does not have the character at an earlier place. -/
def AgreedFirst (secret guess : List UInt8) : Prop :=
  ∀ (i : Nat) (c : UInt8), secret[i]? = some c → guess[i]? = some c → ∀ j < i, guess[j]? ≠ some c

/-- The two counters together: every character that occurs is counted once. -/
theorem istrueOuter_sum (inputNum : List UInt8) (cs : List UInt8) :
    ∀ (i : Nat) (ab : Nat × Nat), (istrueOuter inputNum i cs ab).1 + (istrueOuter inputNum i cs ab).2
      = ab.1 + ab.2 + occurring cs inputNum := by
  induction cs with
  | nil => exact fun _ _ => rfl
  | cons c cs ih =>
      intro i ab
      unfold occurring at ih ⊢
      rw [istrueOuter, ih, List.countP_cons, istrueInner_eq]
      cases hc : inputNum.idxOf? c with
      | none =>
          have hno : c ∉ inputNum := List.idxOf?_eq_none_iff.mp hc
          simp [hno]
      | some m =>
          obtain ⟨hm, hget, _⟩ := List.idxOf?_eq_some_iff.mp hc
          have hmem : c ∈ inputNum := hget ▸ List.getElem_mem hm
          have hone : (if decide (c ∈ inputNum) = true then 1 else 0) = 1 := if_pos (decide_eq_true hmem)
          rw [hone]
          dsimp only
          split
          · dsimp only
            omega
          · dsimp only
            omega

/-- The first place of a character. -/
theorem idxOf?_eq_some_iff_first {c : UInt8} {i : Nat} :
    guess.idxOf? c = some i ↔ guess[i]? = some c ∧ ∀ j < i, guess[j]? ≠ some c := by
  rw [List.idxOf?_eq_some_iff]
  constructor
  · rintro ⟨hi, hget, hfirst⟩
    refine ⟨List.getElem?_eq_some_iff.mpr ⟨hi, hget⟩, fun j hj hjc => ?_⟩
    obtain ⟨_, hjget⟩ := List.getElem?_eq_some_iff.mp hjc
    exact hfirst j hj hjget
  · rintro ⟨hget, hfirst⟩
    obtain ⟨hi, hget⟩ := List.getElem?_eq_some_iff.mp hget
    exact ⟨hi, hget, fun j hj hjget =>
      hfirst j hj (List.getElem?_eq_some_iff.mpr ⟨Nat.lt_trans hj hi, hjget⟩)⟩

/-- A count under a stronger condition is the same exactly where that holds of everything counted. -/
theorem countP_eq_iff_of_imp {α : Type} {p q : α → Bool} {l : List α} (himp : ∀ x ∈ l, p x → q x) :
    l.countP p = l.countP q ↔ ∀ x ∈ l, q x → p x := by
  have hp : l.countP p = (l.filter q).countP p := by
    rw [List.countP_filter]
    apply List.countP_congr
    intro x hx
    rw [Bool.and_eq_true]
    exact ⟨fun h => ⟨h, himp x hx h⟩, fun h => h.1⟩
  rw [hp, List.countP_eq_length_filter (p := q), List.countP_eq_length]
  simp only [List.mem_filter, and_imp]

/-- The counter `a` is the number of agreements exactly where none has its character at an earlier place. -/
theorem istrueOuter_fst_eq_agreeing_iff :
    (istrueOuter guess 0 secret (0, 0)).1 = agreeing secret guess ↔ AgreedFirst secret guess := by
  unfold agreeing
  rw [istrueOuter_fst, Nat.zero_add, countP_eq_iff_of_imp]
  · constructor
    · intro h i c hs hg
      have hfirst := h (c, i) (List.mk_mem_zipIdx_iff_getElem?.mpr hs) (decide_eq_true hg)
      exact (idxOf?_eq_some_iff_first.mp (of_decide_eq_true hfirst)).2
    · rintro h ⟨c, i⟩ hmem hg
      have hs : secret[i]? = some c := List.mk_mem_zipIdx_iff_getElem?.mp hmem
      have hg : guess[i]? = some c := of_decide_eq_true hg
      exact decide_eq_true (idxOf?_eq_some_iff_first.mpr ⟨hg, h i c hs hg⟩)
  · rintro ⟨c, i⟩ _ h
    exact decide_eq_true (idxOf?_eq_some_iff_first.mp (of_decide_eq_true h)).1

/-- **The score** counts the agreements, and the characters of the secret that are elsewhere, exactly where no
    agreement has its character at an earlier place of the guess. -/
theorem score_eq_iff (secret guess : List UInt8) :
    istrueOuter guess 0 secret (0, 0)
      = (agreeing secret guess, occurring secret guess - agreeing secret guess) ↔
    AgreedFirst secret guess := by
  have hsum := istrueOuter_sum guess secret 0 (0, 0)
  rw [← istrueOuter_fst_eq_agreeing_iff, Prod.ext_iff]
  dsimp only at hsum ⊢
  constructor
  · exact fun h => h.1
  · intro h
    refine ⟨h, ?_⟩
    omega

/-- 1111 for the secret 0123: the agreement at the second place is counted as elsewhere. -/
theorem score_repeated_guess :
    (chars "0123").Nodup ∧ istrueOuter (chars "1111") 0 (chars "0123") (0, 0) = (0, 1) ∧
      (0, 1) ≠ (agreeing (chars "0123") (chars "1111"),
        occurring (chars "0123") (chars "1111") - agreeing (chars "0123") (chars "1111")) := by
  refine ⟨?_, ?_, ?_⟩
  · decide
  · decide
  · decide

end GuessGame
