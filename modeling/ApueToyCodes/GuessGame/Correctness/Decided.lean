import Mathlib.Data.List.Nodup
import ApueToyCodes.GuessGame.Guess

/-!
# `GuessGame.Correctness.Decided` — the game is won by guessing the secret, and only so

The rejection loop of `CreatNum` keeps `Drawn`: the table records exactly the digits drawn, so the secret has
no digit twice. For such a secret the first match of `istrue` at every place means the guess is the secret
(`istrue_win_iff`), which is what the test of one output character in `main` comes to.
-/

namespace GuessGame

/-! ## The secret -/

/-- The loop of `CreatNum` between two turns: the table holds the digits drawn, all different. -/
structure Drawn (saveNum numList : List UInt8) : Prop where
  table  : saveNum.length = digitNum
  marked : ∀ i < digitNum, (saveNum.getD i 0).toNat = i ↔ UInt8.ofNat (i + 48) ∈ numList
  nodup  : numList.Nodup
  digits : ∀ c ∈ numList, '0'.toUInt8 ≤ c ∧ c ≤ '9'.toUInt8
  length : numList.length ≤ arrLen

theorem drawn_start : Drawn (List.replicate digitNum noPossibleChar) [] := by
  refine ⟨List.length_replicate, ?_, List.nodup_nil, by simp, by simp⟩
  -- the sentinel is no digit
  show ∀ i < 10, _
  decide

theorem digit_range : ∀ i < digitNum,
    '0'.toUInt8 ≤ UInt8.ofNat (i + 48) ∧ UInt8.ofNat (i + 48) ≤ '9'.toUInt8 := by decide

theorem digit_inj {i j : Nat} (hi : i < digitNum) (hj : j < digitNum)
    (h : UInt8.ofNat (i + 48) = UInt8.ofNat (j + 48)) : i = j := by
  have := congrArg UInt8.toNat h
  simp only [digitNum] at hi hj
  simp only [UInt8.toNat_ofNat'] at this
  omega

/-- **One turn** that accepts a digit keeps the invariant. -/
theorem Drawn.accept {saveNum numList : List UInt8} (h : Drawn saveNum numList)
    (hlen : numList.length < arrLen) {inum : Nat} (hi : inum < digitNum)
    (hnew : (saveNum.getD inum 0).toNat ≠ inum) :
    Drawn (saveNum.set inum (UInt8.ofNat inum)) (numList ++ [UInt8.ofNat (inum + 48)]) := by
  have hfresh : UInt8.ofNat (inum + 48) ∉ numList := fun hmem => hnew ((h.marked inum hi).mpr hmem)
  refine ⟨by rw [List.length_set, h.table], ?_, ?_, ?_, ?_⟩
  · intro i hilt
    rw [List.mem_append, List.mem_singleton]
    by_cases heq : i = inum
    · subst heq
      have hcell : (saveNum.set i (UInt8.ofNat i)).getD i 0 = UInt8.ofNat i := by
        rw [List.getD_eq_getElem?_getD, List.getElem?_set_self (by rw [h.table]; exact hi)]
        rfl
      rw [hcell, UInt8.toNat_ofNat']
      refine iff_of_true ?_ (Or.inr rfl)
      simp only [digitNum] at hi
      omega
    · have hcell : (saveNum.set inum (UInt8.ofNat inum)).getD i 0 = saveNum.getD i 0 := by
        rw [List.getD_eq_getElem?_getD, List.getElem?_set_ne (Ne.symm heq), ← List.getD_eq_getElem?_getD]
      rw [hcell, h.marked i hilt]
      exact ⟨Or.inl, fun hor => hor.resolve_right fun hd => heq (digit_inj hilt hi hd)⟩
  · refine List.nodup_append.mpr ⟨h.nodup, List.nodup_singleton _, ?_⟩
    intro a ha b hb hab
    rw [List.mem_singleton.mp hb] at hab
    exact hfresh (hab ▸ ha)
  · intro c hc
    rcases List.mem_append.mp hc with hc | hc
    · exact h.digits c hc
    · rw [List.mem_singleton.mp hc]
      exact digit_range inum hi
  · rw [List.length_append]
    exact hlen

/-- **The loop of `CreatNum`**: where it ends, four different digits have been drawn. -/
theorem creatNumLoop_drawn {rand : Nat → Nat} (fuel : Nat) :
    ∀ {k : Nat} {saveNum numList secret : List UInt8}, Drawn saveNum numList →
      creatNumLoop rand fuel k saveNum numList = some secret →
      ∃ table, Drawn table secret ∧ secret.length = arrLen := by
  induction fuel with
  | zero =>
      intro k saveNum numList secret _ h
      exact absurd h (by simp [creatNumLoop])
  | succ fuel ih =>
      intro k saveNum numList secret hd h
      rw [creatNumLoop] at h
      by_cases hlen : numList.length < arrLen
      · rw [if_pos hlen] at h
        have hinum : rand k % 10 < digitNum := Nat.mod_lt _ (by decide)
        by_cases hseen : (saveNum.getD (rand k % 10) 0).toNat = rand k % 10
        · rw [if_pos hseen] at h
          exact ih hd h
        · rw [if_neg hseen] at h
          exact ih (hd.accept hlen hinum hseen) h
      · rw [if_neg hlen, Option.some.injEq] at h
        subst h
        exact ⟨saveNum, hd, Nat.le_antisymm hd.length (Nat.le_of_not_lt hlen)⟩

/-! ## The score -/

/-- The inner loop of `istrue` stops at the first match. -/
theorem istrueInner_eq (c : UInt8) (i : Nat) (ds : List UInt8) :
    ∀ (j : Nat) (ab : Nat × Nat), istrueInner c i j ds ab
      = match ds.idxOf? c with
        | none => ab
        | some m => if i = j + m then (ab.1 + 1, ab.2) else (ab.1, ab.2 + 1) := by
  induction ds with
  | nil => exact fun j ab => rfl
  | cons d ds ih =>
      intro j ab
      rw [istrueInner, List.idxOf?_cons]
      by_cases hd : c = d
      · subst hd
        simp
      · have hd' : (d == c) = false := by simpa using Ne.symm hd
        rw [if_neg hd, ih, hd']
        cases ds.idxOf? c with
        | none => simp
        | some m =>
            simp only [Bool.false_eq_true, if_false, Option.map_some]
            rw [show j + 1 + m = j + (m + 1) by omega]

/-- The counter `a`: the places whose character is first met at the same place of the guess. -/
theorem istrueOuter_fst (inputNum : List UInt8) (cs : List UInt8) :
    ∀ (i : Nat) (ab : Nat × Nat), (istrueOuter inputNum i cs ab).1
      = ab.1 + (cs.zipIdx i).countP fun p => inputNum.idxOf? p.1 = some p.2 := by
  induction cs with
  | nil => exact fun i ab => rfl
  | cons c cs ih =>
      intro i ab
      rw [istrueOuter, ih, List.zipIdx_cons, List.countP_cons, istrueInner_eq]
      cases hc : inputNum.idxOf? c with
      | none => simp
      | some m =>
          by_cases hi : i = m
          · subst hi
            simp
            omega
          · simp [hi, Ne.symm hi]

/-- With all characters of the secret different, every place is met first at the same place of the guess
    exactly when the guess is the secret. -/
theorem all_placed_iff {secret inputNum : List UInt8} (hnd : secret.Nodup)
    (hlen : inputNum.length = secret.length) :
    (∀ p ∈ secret.zipIdx, inputNum.idxOf? p.1 = some p.2) ↔ inputNum = secret := by
  constructor
  · intro h
    apply List.ext_getElem hlen
    intro i h₁ h₂
    have hmem : (secret[i], i) ∈ secret.zipIdx :=
      List.mk_mem_zipIdx_iff_getElem?.mpr (List.getElem?_eq_getElem h₂)
    obtain ⟨_, heq, _⟩ := List.idxOf?_eq_some_iff.mp (h _ hmem)
    exact heq
  · rintro rfl ⟨c, i⟩ hp
    have hget : inputNum[i]? = some c := List.mk_mem_zipIdx_iff_getElem?.mp hp
    obtain ⟨hi, hc⟩ := List.getElem?_eq_some_iff.mp hget
    refine List.idxOf?_eq_some_iff.mpr ⟨hi, hc, fun j hj heq => ?_⟩
    -- an earlier match would be the same character twice
    have := (List.Nodup.getElem_inj_iff hnd).mp (heq.trans hc.symm)
    omega

/-- **The win test**: the first character of the score is `4` exactly for the secret. -/
theorem istrue_win_iff {secret inputNum : List UInt8} (hnd : secret.Nodup) (hs : secret.length = arrLen)
    (hlen : inputNum.length = arrLen) :
    (istrue secret inputNum).getD 0 0 = '4'.toUInt8 ↔ inputNum = secret := by
  set p : UInt8 × Nat → Bool := fun p => inputNum.idxOf? p.1 = some p.2 with hp
  have hfst : (istrueOuter inputNum 0 secret (0, 0)).1 = secret.zipIdx.countP p := by
    rw [istrueOuter_fst, Nat.zero_add]
  have hle : secret.zipIdx.countP p ≤ arrLen := by
    have := List.countP_le_length (p := p) (l := secret.zipIdx)
    rwa [List.length_zipIdx, hs] at this
  have hchar : (istrue secret inputNum).getD 0 0 = '4'.toUInt8 ↔ secret.zipIdx.countP p = arrLen := by
    show UInt8.ofNat ((istrueOuter inputNum 0 secret (0, 0)).1 + 48) = '4'.toUInt8 ↔ _
    rw [hfst, ← UInt8.toNat_inj, UInt8.toNat_ofNat']
    show (secret.zipIdx.countP p + 48) % 256 = 52 ↔ _
    simp only [arrLen] at hle ⊢
    omega
  rw [hchar, ← all_placed_iff hnd (hlen.trans hs.symm), ← hs, ← List.length_zipIdx, List.countP_eq_length]
  simp only [hp, decide_eq_true_eq]

/-! ## The rounds -/

theorem readGuess_length (input : List UInt8) :
    ∀ stdin : List UInt8, (readGuess input stdin).1.length = input.length := by
  induction input with
  | nil => exact fun _ => rfl
  | cons cell input ih =>
      intro stdin
      rw [readGuess]
      split
      · exact congrArg (· + 1) (ih [])
      · exact congrArg (· + 1) (ih _)

/-- The characters `cin` delivers. -/
def typed (stdin : List UInt8) : List UInt8 := stdin.filter fun c => !isspace c

theorem typed_dropWhile (stdin : List UInt8) : typed (stdin.dropWhile isspace) = typed stdin := by
  induction stdin with
  | nil => rfl
  | cons c cs ih =>
      unfold typed at ih ⊢
      cases hc : isspace c with
      | true => rw [List.dropWhile_cons_of_pos hc, ih, List.filter_cons_of_neg (by simp [hc])]
      | false => rw [List.dropWhile_cons_of_neg (by simp [hc])]

/-- A guess typed in full is read as it was typed. -/
theorem readGuess_typed {input g : List UInt8} (hlen : g.length = input.length) :
    ∀ (stdin rest : List UInt8), typed stdin = g ++ rest →
      (readGuess input stdin).1 = g ∧ typed (readGuess input stdin).2 = rest := by
  induction input generalizing g with
  | nil =>
      intro stdin rest h
      obtain rfl := List.length_eq_zero_iff.mp hlen
      exact ⟨rfl, h⟩
  | cons cell input ih =>
      intro stdin rest h
      obtain ⟨c, g', rfl⟩ := List.exists_cons_of_length_eq_add_one hlen
      rw [← typed_dropWhile] at h
      rw [readGuess]
      cases hd : stdin.dropWhile isspace with
      | nil =>
          rw [hd] at h
          exact absurd h (by simp [typed])
      | cons d ds =>
          -- `dropWhile` stops at a character that is not white space
          have hns : isspace d = false := by
            have := List.head?_dropWhile_not isspace stdin
            rw [hd] at this
            simpa using this
          rw [hd, typed, List.filter_cons_of_pos (by simp [hns])] at h
          obtain ⟨rfl, htail⟩ := List.cons.inj h
          obtain ⟨h1, h2⟩ := ih (Nat.succ.inj hlen) ds rest htail
          exact ⟨congrArg (d :: ·) h1, h2⟩

/-- **The guesses are those typed**: four characters each that are not white space, white space anywhere
    between them. -/
theorem guess_typed (gs : List (List UInt8)) : ∀ {input stdin rest : List UInt8},
    input.length = arrLen → (∀ g ∈ gs, g.length = arrLen) → typed stdin = gs.flatten ++ rest →
    ∀ k (hk : k < gs.length), guess input stdin k = gs[k] := by
  induction gs with
  | nil => exact fun _ _ _ k hk => absurd hk (Nat.not_lt_zero k)
  | cons g gs ih =>
      intro input stdin rest hin hg h k hk
      have hglen := hg g List.mem_cons_self
      rw [List.flatten_cons, List.append_assoc] at h
      obtain ⟨h1, h2⟩ := readGuess_typed (hglen.trans hin.symm) stdin _ h
      cases k with
      | zero => exact h1
      | succ k =>
          rw [guess, h1]
          exact ih hglen (fun g' hg' => hg g' (List.mem_cons_of_mem _ hg')) h2 k (Nat.lt_of_succ_lt_succ hk)

/-- The texts of a round without a win. -/
theorem score_ne (trueNum inputNum : List UInt8) :
    istrue trueNum inputNum ++ chars "\n" ≠ chars "right!\n" ∧
      istrue trueNum inputNum ++ chars "\n" ≠ chars "over\n" := by
  constructor
  · intro h
    have hlen : 5 = 7 := congrArg List.length h
    exact absurd hlen (by decide)
  · intro h
    have hchar : some 'A'.toUInt8 = some 'v'.toUInt8 := congrArg (fun l => l[1]?) h
    exact absurd hchar (by decide)

/-- **The rounds**: `right!` is printed, and `flag` set, exactly when one of the guesses is the secret;
    `over` is not among the texts of a round. -/
theorem rounds_decided {secret : List UInt8} (hnd : secret.Nodup) (hs : secret.length = arrLen) (n : Nat) :
    ∀ (input stdin : List UInt8), input.length = arrLen →
      (chars "right!\n" ∈ (rounds secret n input stdin).1 ↔ ∃ k < n, guess input stdin k = secret) ∧
      ((rounds secret n input stdin).2 = true ↔ ∃ k < n, guess input stdin k = secret) ∧
      chars "over\n" ∉ (rounds secret n input stdin).1 := by
  induction n with
  | zero =>
      intro input stdin _
      simp [rounds]
  | succ n ih =>
      intro input stdin hin
      have hlen : (readGuess input stdin).1.length = arrLen := (readGuess_length input stdin).trans hin
      obtain ⟨hright, hflag, hover⟩ := ih _ (readGuess input stdin).2 hlen
      -- the first of the guesses, or one of those of the remaining rounds
      have hsplit : (∃ k < n + 1, guess input stdin k = secret) ↔ (readGuess input stdin).1 = secret ∨
          ∃ k < n, guess (readGuess input stdin).1 (readGuess input stdin).2 k = secret := by
        constructor
        · rintro ⟨k, hk, heq⟩
          cases k with
          | zero => exact Or.inl heq
          | succ k => exact Or.inr ⟨k, by omega, heq⟩
        · rintro (heq | ⟨k, hk, heq⟩)
          · exact ⟨0, by omega, heq⟩
          · exact ⟨k + 1, by omega, heq⟩
      rw [hsplit, rounds]
      by_cases hwin : (readGuess input stdin).1 = secret
      · simp only [if_pos ((istrue_win_iff hnd hs hlen).mpr hwin)]
        exact ⟨iff_of_true (by simp) (Or.inl hwin), iff_of_true trivial (Or.inl hwin), by decide⟩
      · simp only [if_neg (mt (istrue_win_iff hnd hs hlen).mp hwin), List.mem_cons]
        obtain ⟨hne₁, hne₂⟩ := score_ne secret (readGuess input stdin).1
        refine ⟨?_, ?_, ?_⟩
        · rw [hright]
          constructor
          · rintro (h | h | h)
            · exact absurd h (by decide)
            · exact absurd h.symm hne₁
            · exact Or.inr h
          · intro hor
            exact Or.inr (Or.inr (hor.resolve_left hwin))
        · rw [hflag]
          exact ⟨Or.inr, fun hor => hor.resolve_left hwin⟩
        · rintro (h | h | h)
          · exact absurd h (by decide)
          · exact hne₂ h.symm
          · exact hover h

/-! ## The game -/

/-- The first line shows the secret, four digits. -/
theorem secret_line_ne {secret : List UInt8} (hs : secret.length = arrLen)
    (hd : ∀ c ∈ secret, '0'.toUInt8 ≤ c ∧ c ≤ '9'.toUInt8) :
    secret ++ chars "\n" ≠ chars "right!\n" ∧ secret ++ chars "\n" ≠ chars "over\n" := by
  constructor
  · intro h
    have hlen := congrArg List.length h
    rw [List.length_append, hs] at hlen
    exact absurd hlen (by decide)
  · intro h
    obtain ⟨c, cs, rfl⟩ := List.exists_cons_of_length_eq_add_one hs
    have hc : c = 'o'.toUInt8 := (List.cons.inj h).1
    have := (hd c List.mem_cons_self).2
    rw [hc] at this
    exact absurd this (by decide)

/-- **The game is decided correctly**: where `CreatNum` ends the secret is four different digits, and for
    every input `right!` is printed exactly when one of the ten guesses is the secret, `over` exactly when
    none is. -/
theorem game_decided {rand : Nat → Nat} {fuel : Nat} {secret : List UInt8}
    (hsecret : creatNum rand fuel = some secret) {input : List UInt8} (hin : input.length = arrLen)
    (stdin : List UInt8) :
    (secret.length = arrLen ∧ secret.Nodup ∧ ∀ c ∈ secret, '0'.toUInt8 ≤ c ∧ c ≤ '9'.toUInt8) ∧
    ∃ out, main rand fuel input stdin = some out ∧
      (chars "right!\n" ∈ out ↔ ∃ k < 10, guess input stdin k = secret) ∧
      (chars "over\n" ∈ out ↔ ∀ k < 10, guess input stdin k ≠ secret) := by
  obtain ⟨table, hdrawn, hs⟩ := creatNumLoop_drawn fuel drawn_start hsecret
  refine ⟨⟨hs, hdrawn.nodup, hdrawn.digits⟩, _, by rw [main, hsecret], ?_⟩
  obtain ⟨hright, hflag, hover⟩ := rounds_decided hdrawn.nodup hs 10 input stdin hin
  obtain ⟨hne₁, hne₂⟩ := secret_line_ne hs hdrawn.digits
  by_cases hwon : ∃ k < 10, guess input stdin k = secret
  · rw [if_pos (hflag.mpr hwon), List.append_nil]
    refine ⟨iff_of_true (List.mem_cons_of_mem _ (hright.mpr hwon)) hwon, iff_of_false ?_ ?_⟩
    · intro h
      rcases List.mem_cons.mp h with h | h
      · exact hne₂ h.symm
      · exact hover h
    · intro hall
      obtain ⟨k, hk, heq⟩ := hwon
      exact hall k hk heq
  · rw [if_neg (mt hflag.mp hwon)]
    refine ⟨iff_of_false ?_ hwon, iff_of_true ?_ fun k hk heq => hwon ⟨k, hk, heq⟩⟩
    · intro h
      rcases List.mem_cons.mp h with h | h
      · exact hne₁ h.symm
      rcases List.mem_append.mp h with h | h
      · exact hwon (hright.mp h)
      · exact absurd (List.mem_singleton.mp h) (by decide)
    · simp

/-- The secret 0123, guessed in the second round. -/
theorem game_decided_second :
    ∃ out, main (fun k => k) 5 [0, 0, 0, 0] (chars "9999 0123") = some out ∧ chars "right!\n" ∈ out := by
  have hsecret : creatNum (fun k => k) 5 = some (chars "0123") := by decide
  obtain ⟨_, out, hmain, hright, _⟩ :=
    game_decided hsecret (rfl : ([0, 0, 0, 0] : List UInt8).length = arrLen) (chars "9999 0123")
  exact ⟨out, hmain, hright.mpr ⟨1, by decide, by decide⟩⟩

end GuessGame
