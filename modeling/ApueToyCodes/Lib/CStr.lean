import Mathlib.Data.List.Basic
import Mathlib.Data.List.TakeWhile
import Mathlib.Data.List.Forall2

/-!
# `Lib.CStr` — NUL-terminated strings in a byte buffer, and `strtok`

A buffer is a list of bytes and a pointer into it an offset. `HasStr b p s` says that the NUL-terminated
string `s` stands at `p`; `strtok` is the C function, with its saved position passed explicitly and its
writes visible in the buffer it returns.

`words d s` are the maximal pieces of `s` without a byte of `d`. The rule for clients is `strtok_spec`: a
call takes one word off the string at the saved position, leaves it terminated where it stood, and disturbs
no string that ends at or before that position.
-/

namespace CStr

/-- The C string at `p`. -/
def cstr (b : List UInt8) (p : Nat) : List UInt8 := (b.drop p).takeWhile (· != 0)

/-- `strspn(s, d)` -/
def strspn (d s : List UInt8) : Nat := (s.takeWhile fun c => decide (c ∈ d)).length

/-- `strcspn(s, d)` -/
def strcspn (d s : List UInt8) : Nat := (s.takeWhile fun c => decide (c ≠ 0 ∧ c ∉ d)).length

/-- `strtok`, searching from `p`: the token, the buffer with its end marked, and the position to go on
    from. -/
def strtok (d b : List UInt8) (p : Nat) : Option Nat × List UInt8 × Nat :=
  let q := p + strspn d (b.drop p)
  if b.getD q 0 = 0 then (none, b, q)
  else
    let e := q + strcspn d (b.drop q)
    if b.getD e 0 = 0 then (some q, b, e) else (some q, b.set e 0, e + 1)

/-- The words of `s` between bytes of `d`. -/
def words (d s : List UInt8) : List (List UInt8) :=
  (s.splitOnP fun c => decide (c ∈ d)).filter fun w => !w.isEmpty

/-- The NUL-terminated string `s` stands at `p`. -/
def HasStr (b : List UInt8) (p : Nat) (s : List UInt8) : Prop :=
  0 ∉ s ∧ ∃ post, b.drop p = s ++ 0 :: post

variable {b d s u v w : List UInt8} {p e : Nat} {c x : UInt8}

/-! ## Strings in a buffer -/

theorem takeWhile_append_zero (h : 0 ∉ s) (post : List UInt8) :
    (s ++ 0 :: post).takeWhile (· != 0) = s := by
  rw [List.takeWhile_append_of_pos]
  · simp
  · intro a ha
    simpa using fun h0 : a = 0 => h (h0 ▸ ha)

theorem HasStr.cstr (h : HasStr b p s) : cstr b p = s := by
  obtain ⟨h0, post, hb⟩ := h
  unfold CStr.cstr
  rw [hb, takeWhile_append_zero h0]

/-- A buffer that starts with a terminated request holds its C string, whatever comes after. -/
theorem hasStr_of_mem_zero (tail : List UInt8) (h : 0 ∈ b) :
    HasStr (b ++ tail) 0 (b.takeWhile (· != 0)) := by
  have hne : b.dropWhile (· != 0) ≠ [] := by
    rw [Ne, List.dropWhile_eq_nil_iff]
    intro hall
    exact absurd (hall 0 h) (by simp)
  obtain ⟨y, ys, hy⟩ := List.exists_cons_of_ne_nil hne
  -- what stops the search is a NUL
  have hy0 : y = 0 := by
    have := List.head_dropWhile_not (· != 0) hne
    simpa [hy] using this
  refine ⟨fun h0 => absurd (List.mem_takeWhile_imp h0) (by simp), ys ++ tail, ?_⟩
  rw [hy0] at hy
  rw [List.drop_zero, ← List.cons_append, ← hy, ← List.append_assoc, List.takeWhile_append_dropWhile]

/-- A suffix of a string is a string. -/
theorem HasStr.drop (h : HasStr b p (u ++ v)) : HasStr b (p + u.length) v := by
  obtain ⟨h0, post, hb⟩ := h
  refine ⟨fun hv => h0 (List.mem_append_right _ hv), post, ?_⟩
  rw [← List.drop_drop, hb, List.append_assoc, List.drop_left]

/-- A write behind the end of a string leaves it alone. -/
theorem HasStr.set (h : HasStr b p s) (he : p + s.length < e) : HasStr (b.set e x) p s := by
  obtain ⟨h0, post, hb⟩ := h
  refine ⟨h0, post.set (e - p - s.length - 1) x, ?_⟩
  rw [List.drop_set, if_neg (by omega), hb, List.set_append_right _ _ (by omega)]
  obtain ⟨k, hk⟩ : ∃ k, e - p - s.length = k + 1 := ⟨e - p - s.length - 1, by omega⟩
  rw [hk, List.set_cons_succ, Nat.add_sub_cancel]

/-- Cutting a string: the part before the new NUL. -/
theorem HasStr.cut_left (h : HasStr b p (u ++ c :: v)) : HasStr (b.set (p + u.length) 0) p u := by
  obtain ⟨h0, post, hb⟩ := h
  refine ⟨fun hu => h0 (List.mem_append_left _ hu), v ++ 0 :: post, ?_⟩
  rw [List.drop_set, if_neg (by omega), hb, Nat.add_sub_cancel_left, List.append_assoc,
    List.set_append_right _ _ (Nat.le_refl _), Nat.sub_self]
  rfl

/-- Cutting a string: the part behind the new NUL. -/
theorem HasStr.cut_right (h : HasStr b p (u ++ c :: v)) :
    HasStr (b.set (p + u.length) 0) (p + u.length + 1) v := by
  have h' : HasStr b p ((u ++ [c]) ++ v) := by rwa [List.append_assoc]
  obtain ⟨h0, post, hb⟩ := h'.drop
  rw [List.length_append, List.length_singleton, ← Nat.add_assoc] at hb
  refine ⟨h0, post, ?_⟩
  rw [List.drop_set, if_pos (Nat.lt_succ_self _), hb]

theorem HasStr.getD (h : HasStr b p (u ++ v)) : b.getD (p + u.length) 0 = v.headD 0 := by
  obtain ⟨_, post, hb⟩ := h.drop
  rw [List.getD_eq_getElem?_getD, ← Nat.add_zero (p + u.length), ← List.getElem?_drop, hb]
  cases v <;> rfl

/-! ## Words -/

theorem words_eq_nil (h : ∀ c ∈ s, c ∈ d) : words d s = [] := by
  unfold words
  induction s with
  | nil => rfl
  | cons c s ih =>
      have hc : decide (c ∈ d) = true := by simpa using h c List.mem_cons_self
      rw [List.splitOnP_cons_eq_if_modifyHead, if_pos hc, List.filter_cons_of_neg (by simp)]
      exact ih fun a ha => h a (List.mem_cons_of_mem _ ha)

/-- Leading separators do not count. -/
theorem words_append_left (h : ∀ c ∈ u, c ∈ d) : words d (u ++ v) = words d v := by
  induction u with
  | nil => rfl
  | cons c u ih =>
      have hc : decide (c ∈ d) = true := by simpa using h c List.mem_cons_self
      rw [← ih fun a ha => h a (List.mem_cons_of_mem _ ha)]
      unfold words
      rw [List.cons_append, List.splitOnP_cons_eq_if_modifyHead, if_pos hc,
        List.filter_cons_of_neg (by simp)]

theorem words_single (hne : w ≠ []) (hw : ∀ c ∈ w, c ∉ d) : words d w = [w] := by
  unfold words
  rw [List.splitOnP_eq_singleton fun a ha => by simpa using hw a ha]
  simpa using hne

theorem words_cons (hne : w ≠ []) (hw : ∀ c ∈ w, c ∉ d) (hc : c ∈ d) :
    words d (w ++ c :: v) = w :: words d v := by
  unfold words
  rw [List.splitOnP_append_cons_of_forall_mem (fun a ha => by simpa using hw a ha) c (by simpa using hc),
    List.filter_cons_of_pos (by simpa using hne)]

/-- A string is separators only, or separators and a last word, or separators, a word and more. -/
theorem words_cases (d s : List UInt8) :
    (∀ c ∈ s, c ∈ d) ∨
    ∃ u w r, s = u ++ (w ++ r) ∧ (∀ c ∈ u, c ∈ d) ∧ w ≠ [] ∧ (∀ c ∈ w, c ∉ d) ∧
      (r = [] ∨ ∃ c v, r = c :: v ∧ c ∈ d) := by
  by_cases hall : ∀ c ∈ s, c ∈ d
  · exact Or.inl hall
  -- the separators in front, the first word, and what is left
  set u := s.takeWhile (fun c => decide (c ∈ d)) with hu
  set t := s.dropWhile (fun c => decide (c ∈ d)) with ht
  have hut : u ++ t = s := List.takeWhile_append_dropWhile
  have htne : t ≠ [] := by
    rw [ht, Ne, List.dropWhile_eq_nil_iff]
    simpa using hall
  have hhead : t.head htne ∉ d := by simpa using List.head_dropWhile_not (fun c => decide (c ∈ d)) htne
  set w := t.takeWhile (fun c => decide (c ∉ d)) with hw
  set r := t.dropWhile (fun c => decide (c ∉ d)) with hr
  have hwr : w ++ r = t := List.takeWhile_append_dropWhile
  refine Or.inr ⟨u, w, r, by rw [hwr, hut], fun c hc => ?_, ?_, fun c hc => ?_, ?_⟩
  · simpa using List.mem_takeWhile_imp hc
  · obtain ⟨y, ys, hy⟩ := List.exists_cons_of_ne_nil htne
    have hyd : y ∉ d := by simpa [hy] using hhead
    rw [hw, hy, List.takeWhile_cons_of_pos (by simpa using hyd)]
    simp
  · simpa using List.mem_takeWhile_imp hc
  · by_cases hre : r = []
    · exact Or.inl hre
    · obtain ⟨c, v, hcv⟩ := List.exists_cons_of_ne_nil hre
      have := List.head_dropWhile_not (fun c => decide (c ∉ d)) hre
      refine Or.inr ⟨c, v, hcv, ?_⟩
      have hh : r.head hre = c := by simp [hcv]
      rw [hh] at this
      simpa using this

/-! ## `strtok` -/

theorem strspn_append (hu : ∀ c ∈ u, c ∈ d) (hv : v.headD 0 ∉ d) : strspn d (u ++ v) = u.length := by
  unfold strspn
  rw [List.takeWhile_append_of_pos (by simpa using hu)]
  cases v with
  | nil => simp
  | cons c v => rw [List.takeWhile_cons_of_neg (by simpa using hv), List.append_nil]

theorem strcspn_append (hw : ∀ c ∈ w, c ≠ 0 ∧ c ∉ d) (hv : v.headD 0 = 0 ∨ v.headD 0 ∈ d) :
    strcspn d (w ++ v) = w.length := by
  unfold strcspn
  rw [List.takeWhile_append_of_pos (by simpa using hw)]
  cases v with
  | nil => simp
  | cons c v =>
      rw [List.takeWhile_cons_of_neg, List.append_nil]
      simp only [List.headD_cons] at hv
      simp only [decide_eq_true_eq, not_and_or, not_not]
      exact hv

/-- Nothing but separators left. -/
theorem strtok_none (h0 : 0 ∉ d) (h : HasStr b p u) (hu : ∀ c ∈ u, c ∈ d) :
    strtok d b p = (none, b, p + u.length) := by
  have hspan : strspn d (b.drop p) = u.length := by
    obtain ⟨_, post, hb⟩ := h
    rw [hb]; exact strspn_append hu (by simpa using h0)
  have hget : b.getD (p + u.length) 0 = 0 := by
    have h' : HasStr b p (u ++ []) := by rw [List.append_nil]; exact h
    simpa using h'.getD
  unfold strtok
  simp only [hspan, hget, if_true]

/-- Where a word starts and ends. -/
theorem strtok_word {r : List UInt8} (h : HasStr b p (u ++ (w ++ r))) (hu : ∀ c ∈ u, c ∈ d)
    (hne : w ≠ []) (hw : ∀ c ∈ w, c ∉ d) (hr : r.headD 0 = 0 ∨ r.headD 0 ∈ d) :
    strtok d b p = if r.headD 0 = 0 then (some (p + u.length), b, p + u.length + w.length)
      else (some (p + u.length), b.set (p + u.length + w.length) 0, p + u.length + w.length + 1) := by
  obtain ⟨y, ys, hy⟩ := List.exists_cons_of_ne_nil hne
  have hyd : y ∉ d := hw y (by rw [hy]; exact List.mem_cons_self)
  have hnul : ∀ c ∈ w, c ≠ 0 := fun c hc heq =>
    h.1 (List.mem_append_right _ (List.mem_append_left _ (heq ▸ hc)))
  -- `strspn` stops at the first byte of the word, `strcspn` behind its last
  have hspan : strspn d (b.drop p) = u.length := by
    obtain ⟨_, post, hb⟩ := h
    rw [hb, List.append_assoc]
    exact strspn_append hu (by rw [hy]; exact hyd)
  have hget : b.getD (p + u.length) 0 = y := by rw [h.getD, hy]; rfl
  have hspan' : strcspn d (b.drop (p + u.length)) = w.length := by
    obtain ⟨_, post, hb⟩ := h.drop
    rw [hb, List.append_assoc]
    refine strcspn_append (fun c hc => ⟨hnul c hc, hw c hc⟩) ?_
    cases r with
    | nil => exact Or.inl rfl
    | cons c r => exact hr
  have hget' : b.getD (p + u.length + w.length) 0 = r.headD 0 := h.drop.getD
  have hy0 : y ≠ 0 := hnul y (by rw [hy]; exact List.mem_cons_self)
  unfold strtok
  simp only [hspan, hget, if_neg hy0, hspan', hget']

/-- **One call of `strtok`.** Either no word is left, or one is taken off: it stands terminated at the
    returned pointer, the string from `p` on ends where it ends, the rest stands at the saved position, and
    strings ending at or before `p` are untouched. -/
theorem strtok_spec (h0 : 0 ∉ d) (h : HasStr b p s) :
    (words d s = [] ∧ strtok d b p = (none, b, p + s.length)) ∨
    ∃ q w b' p' s', strtok d b p = (some q, b', p') ∧ words d s = w :: words d s' ∧
      HasStr b' q w ∧ HasStr b' p (s.takeWhile (fun c => decide (c ∈ d)) ++ w) ∧ HasStr b' p' s' ∧
      q = p + (s.takeWhile fun c => decide (c ∈ d)).length ∧ q + w.length ≤ p' ∧
      ∀ r t, r + t.length ≤ p → HasStr b r t → HasStr b' r t := by
  rcases words_cases d s with hall | ⟨u, w, r, rfl, hu, hne, hw, hr⟩
  · exact Or.inl ⟨words_eq_nil hall, strtok_none h0 h hall⟩
  refine Or.inr ⟨p + u.length, w, ?_⟩
  have hlead : (u ++ (w ++ r)).takeWhile (fun c => decide (c ∈ d)) = u := by
    obtain ⟨y, ys, hy⟩ := List.exists_cons_of_ne_nil hne
    have hyd : y ∉ d := hw y (by rw [hy]; exact List.mem_cons_self)
    rw [List.takeWhile_append_of_pos (by simpa using hu), hy, List.cons_append,
      List.takeWhile_cons_of_neg (by simpa using hyd), List.append_nil]
  have hpos : 0 < w.length := List.length_pos_iff.mpr hne
  rw [hlead, words_append_left hu]
  rcases hr with rfl | ⟨c, v, rfl, hc⟩
  · -- the last word: nothing is written
    rw [List.append_nil] at h
    have htok := strtok_word (r := []) (by rwa [List.append_nil]) hu hne hw (Or.inl rfl)
    rw [List.headD_nil, if_pos rfl] at htok
    refine ⟨b, p + u.length + w.length, [], htok, ?_, h.drop, h, ?_, rfl, Nat.le_refl _,
      fun _ _ _ h => h⟩
    · rw [List.append_nil, words_single hne hw]; rfl
    · have h' : HasStr b (p + u.length) (w ++ []) := by rw [List.append_nil]; exact h.drop
      exact h'.drop
  · -- a separator ends the word and is overwritten
    have hc0 : c ≠ 0 := fun h => h0 (h ▸ hc)
    have htok := strtok_word h hu hne hw (Or.inr hc)
    rw [List.headD_cons, if_neg hc0] at htok
    have h' : HasStr b p ((u ++ w) ++ c :: v) := by rwa [List.append_assoc]
    have hlen : p + (u ++ w).length = p + u.length + w.length := by
      rw [List.length_append, Nat.add_assoc]
    have hl := h'.cut_left
    have hr := h'.cut_right
    rw [hlen] at hl hr
    refine ⟨_, _, v, htok, words_cons hne hw hc, h.drop.cut_left, hl, hr, rfl, Nat.le_succ _,
      fun r t hrt ht => ht.set (by omega)⟩

end CStr
