import ApueToyCodes.FullIo.Readn

/-!
# `FullIo.Correctness.FullLength` — what `my_readn` and `my_writen` return

A turn of the loop transfers the bytes behind those transferred before (`Moving.step`), so that whatever the
system calls return, the bytes that went over lie in a row from the start of the buffer, and the loop ends
with all of them, at an error or at a transfer of nothing (`ioLoop_spec`, `Ended`).

The remaining count is kept in an `int`. It is the count asked for as long as that fits; from 2^31 on the
value returned is not the number of bytes, or the loop ends without a call.
-/

namespace FullIo
open ByteMem CInt

variable {io : Syscall} {mem₀ mem mem' : Mem} {calls : List Moved} {bs : List UInt8} {n k ptr count : Nat}
  {m : Int} {r : Done}

/-- The bytes the calls transferred, in order. -/
def transferred (calls : List Moved) : List UInt8 := calls.flatMap fun moved => moved.getD []

theorem transferred_concat (calls : List Moved) (moved : Moved) :
    transferred (calls ++ [moved]) = transferred calls ++ moved.getD [] := by
  unfold transferred
  rw [List.flatMap_append, List.flatMap_singleton]

/-- One call at `ptr` for `count` bytes, as `read` and `write` do it: it transfers at most that many, those at
    its address, and writes nowhere else. -/
inductive Transfers (mem : Mem) (ptr count : Nat) : Moved × Mem → Prop
  | error : Transfers mem ptr count (none, mem)
  | moved {bs : List UInt8} {mem' : Mem} : bs.length ≤ count → loadBytes mem' ptr bs.length = bs →
      (∀ lo hi, hi ≤ ptr ∨ ptr + bs.length ≤ lo → Agree mem mem' lo hi) →
      Transfers mem ptr count (some bs, mem')

/-- A system call that always transfers so. -/
def Conforms (io : Syscall) : Prop := ∀ k ptr count mem, Transfers mem ptr count (io k ptr count mem)

theorem conforms_read {reads : Nat → Nat → Moved}
    (h : ∀ k count bs, reads k count = some bs → bs.length ≤ count) : Conforms (read reads) := by
  intro k ptr count mem
  unfold read
  rcases hk : reads k count with _ | bs
  · exact .error
  · exact .moved (h k count bs hk) (loadBytes_storeBytes_self mem ptr bs) fun _ _ => agree_storeBytes

theorem conforms_write {writes : Nat → Nat → Option Nat}
    (h : ∀ k count w, writes k count = some w → w ≤ count) : Conforms (write writes) := by
  intro k ptr count mem
  unfold write
  rcases hk : writes k count with _ | w
  · exact .error
  · refine .moved ?_ ?_ fun _ _ _ => Agree.refl
    · rw [length_loadBytes]
      exact h k count w hk
    · rw [length_loadBytes]

/-- A call that transfers nothing leaves the memory as it is. -/
theorem eq_of_moved_nil
    (hothers : ∀ lo hi, hi ≤ ptr ∨ ptr + ([] : List UInt8).length ≤ lo → Agree mem mem' lo hi) : mem' = mem := by
  funext x
  apply hothers x (x + 1)
  · rw [List.length_nil]
    omega
  · exact Nat.le_refl x
  · exact Nat.lt_succ_self x

/-! ## The loop -/

/-- The calls so far have transferred something each, and their bytes lie in a row from the start. -/
structure Moving (mem₀ : Mem) (calls : List Moved) (mem : Mem) : Prop where
  full   : ∀ moved ∈ calls, ∃ bs, moved = some bs ∧ bs ≠ []
  placed : loadBytes mem 0 (transferred calls).length = transferred calls
  others : ∀ hi, Agree mem₀ mem (transferred calls).length hi

theorem Moving.start (mem : Mem) : Moving mem [] mem :=
  ⟨fun _ h => absurd h List.not_mem_nil, rfl, fun _ => Agree.refl⟩

/-- **One more call** puts its bytes behind the others. -/
theorem Moving.step (h : Moving mem₀ calls mem) (hne : bs ≠ [])
    (hplaced : loadBytes mem' (transferred calls).length bs.length = bs)
    (hothers : ∀ lo hi, hi ≤ (transferred calls).length ∨ (transferred calls).length + bs.length ≤ lo →
      Agree mem mem' lo hi) : Moving mem₀ (calls ++ [some bs]) mem' := by
  have htotal : transferred (calls ++ [some bs]) = transferred calls ++ bs := transferred_concat calls (some bs)
  refine ⟨?_, ?_, ?_⟩
  · intro moved hm
    rcases List.mem_append.mp hm with hm | hm
    · exact h.full moved hm
    · exact ⟨bs, List.mem_singleton.mp hm, hne⟩
  · rw [htotal, List.length_append, loadBytes_add, Nat.zero_add, hplaced]
    rw [loadBytes_congr (hothers 0 _ (Or.inl (by omega))), h.placed]
  · intro hi
    rw [htotal, List.length_append]
    have hfar := hothers ((transferred calls).length + bs.length) hi (Or.inr (Nat.le_refl _))
    exact ((h.others hi).mono (Nat.le_add_right _ _) (Nat.le_refl _)).trans hfar

/-- The value returned when `nleft` bytes are left of `n`. -/
def returned (n : Nat) (nleft : Int) : Int := toInt64 (n - toSize nleft)

/-- How the loop ends that starts with `nleft` at `m`. -/
inductive Ended (mem₀ : Mem) (n : Nat) (m : Int) : Done → Prop
  /-- nothing is left -/
  | all {calls : List Moved} {mem : Mem} : Moving mem₀ calls mem → (transferred calls).length = m.toNat →
      Ended mem₀ n m ⟨returned n (m - (transferred calls).length), mem, calls⟩
  /-- a call fails -/
  | failed {calls : List Moved} {mem : Mem} : Moving mem₀ calls mem → (transferred calls).length < m.toNat →
      Ended mem₀ n m
        ⟨if toSize (m - (transferred calls).length) = n then -1
          else returned n (m - (transferred calls).length), mem, calls ++ [none]⟩
  /-- a call transfers nothing -/
  | stopped {calls : List Moved} {mem : Mem} : Moving mem₀ calls mem → (transferred calls).length < m.toNat →
      Ended mem₀ n m ⟨returned n (m - (transferred calls).length), mem, calls ++ [some []]⟩

/-- **The loop** ends, whatever the calls return. -/
theorem ioLoop_spec (hio : Conforms io) (hm : m < 2147483648) (fuel : Nat) :
    ∀ {mem : Mem} {calls : List Moved}, Moving mem₀ calls mem → (transferred calls).length ≤ m.toNat →
      m.toNat - (transferred calls).length < fuel →
      ∃ r, ioLoop io n fuel (transferred calls).length (m - (transferred calls).length) mem calls = some r ∧
        Ended mem₀ n m r := by
  induction fuel with
  | zero =>
      intro mem calls _ _ hf
      exact absurd hf (Nat.not_lt_zero _)
  | succ fuel ih =>
      intro mem calls h hle hf
      rw [ioLoop]
      by_cases hleft : m - (transferred calls).length > 0
      · have hlt : (transferred calls).length < m.toNat := by omega
        rw [if_pos hleft]
        have hcount : toSize (m - (transferred calls).length) = (m - (transferred calls).length).toNat :=
          toSize_of_range (by omega) (by omega)
        have hcall := hio calls.length (transferred calls).length (toSize (m - (transferred calls).length)) mem
        generalize io calls.length (transferred calls).length (toSize (m - (transferred calls).length)) mem = step
          at hcall ⊢
        cases hcall with
        | error =>
            dsimp only [result]
            rw [toInt32_of_range (by decide) (by decide), if_pos (by decide)]
            have hend := Ended.failed (n := n) (m := m) h hlt
            by_cases hsame : toSize (m - (transferred calls).length) = n
            · rw [if_pos hsame] at hend ⊢
              exact ⟨_, rfl, hend⟩
            · rw [if_neg hsame] at hend ⊢
              exact ⟨_, rfl, hend⟩
        | @moved bs mem' hshort hplaced hothers =>
            have hresult : toInt32 bs.length = bs.length := toInt32_of_range (by omega) (by omega)
            dsimp only [result]
            rw [hresult, if_neg (by omega)]
            by_cases hne : bs = []
            · subst hne
              obtain rfl := eq_of_moved_nil hothers
              rw [if_pos (by rfl)]
              exact ⟨_, rfl, .stopped h hlt⟩
            · have hpos := List.length_pos_iff.mpr hne
              have hrec := ih (h.step hne hplaced hothers)
              rw [transferred_concat, Option.getD_some, List.length_append, Int.natCast_add] at hrec
              rw [if_neg (by omega), Int.toNat_natCast, Int.sub_sub]
              exact hrec (by omega) (by omega)
      · rw [if_neg hleft]
        refine ⟨_, rfl, ?_⟩
        exact .all h (by omega)

/-! ## What the functions are to do -/

/-- What `my_readn` and `my_writen` are to do with `n` bytes: -1 where the first call fails, else the number
    of bytes transferred; these lie in a row from the start of the buffer; fewer than `n` only where a call
    fails or transfers nothing. -/
structure FullLength (n : Nat) (mem₀ : Mem) (r : Done) : Prop where
  failed : r.ret = -1 ↔ 0 < n ∧ r.calls.head? = some none
  count  : ¬ (0 < n ∧ r.calls.head? = some none) →
    r.ret = (transferred r.calls).length ∧ (transferred r.calls).length ≤ n
  placed : loadBytes r.mem 0 (transferred r.calls).length = transferred r.calls
  others : ∀ hi, Agree mem₀ r.mem (transferred r.calls).length hi
  early  : (transferred r.calls).length < n →
    r.calls.getLast? = some none ∨ r.calls.getLast? = some (some [])

theorem Moving.head?_ne (h : Moving mem₀ calls mem) : calls.head? ≠ some none := by
  intro hnone
  obtain ⟨bs, hbs, _⟩ := h.full none (List.mem_of_mem_head? hnone)
  contradiction

theorem Moving.eq_nil (h : Moving mem₀ calls mem) (h0 : (transferred calls).length = 0) : calls = [] := by
  cases calls with
  | nil => rfl
  | cons moved calls =>
      obtain ⟨bs, rfl, hne⟩ := h.full moved List.mem_cons_self
      have hpos := List.length_pos_iff.mpr hne
      unfold transferred at h0
      rw [List.flatMap_cons, List.length_append, Option.getD_some] at h0
      omega

/-- The first of the calls, with a last one that transfers nothing. -/
theorem Moving.head?_concat (h : Moving mem₀ calls mem) {moved : Moved}
    (hnone : (calls ++ [moved]).head? = some none) : calls = [] ∧ moved = none := by
  cases calls with
  | nil => exact ⟨rfl, Option.some.inj hnone⟩
  | cons c calls => exact absurd hnone h.head?_ne

/-- The value of a loop that has transferred something or met no error. -/
theorem Moving.fullLength (h : Moving mem₀ calls mem) {calls' : List Moved}
    (htotal : transferred calls' = transferred calls) (hle : (transferred calls).length ≤ n)
    (hhead : calls'.head? ≠ some none)
    (hearly : (transferred calls).length < n →
      calls'.getLast? = some none ∨ calls'.getLast? = some (some [])) :
    FullLength n mem₀ ⟨(transferred calls).length, mem, calls'⟩ := by
  refine ⟨?_, ?_, ?_, ?_, ?_⟩
  · constructor
    · intro hret
      dsimp only at hret
      omega
    · exact fun hfail => absurd hfail.2 hhead
  · intro _
    rw [htotal]
    exact ⟨rfl, hle⟩
  · rw [htotal]
    exact h.placed
  · rw [htotal]
    exact h.others
  · rw [htotal]
    exact hearly

/-! ## Counts an int can hold -/

theorem returned_of_range {t : Nat} (hn : n ≤ 2147483647) (ht : t ≤ n) : returned n ((n : Int) - t) = t := by
  unfold returned
  rw [toSize_of_range (by omega) (by omega), toInt64_of_range (by omega) (by omega)]
  omega

theorem Ended.fullLength (hn : n ≤ 2147483647) (h : Ended mem₀ n n r) : FullLength n mem₀ r := by
  cases h with
  | all hmov hlen =>
      rw [Int.toNat_natCast] at hlen
      rw [returned_of_range hn (Nat.le_of_eq hlen)]
      exact hmov.fullLength rfl (Nat.le_of_eq hlen) hmov.head?_ne fun hlt => absurd hlen (Nat.ne_of_lt hlt)
  | @failed calls mem hmov hlen =>
      rw [Int.toNat_natCast] at hlen
      have htotal : transferred (calls ++ [none]) = transferred calls := by
        rw [transferred_concat, Option.getD_none, List.append_nil]
      by_cases h0 : (transferred calls).length = 0
      · -- the first call fails
        obtain rfl := hmov.eq_nil h0
        rw [if_pos (by rw [toSize_of_range (by omega) (by omega), h0]; omega)]
        refine ⟨⟨fun _ => ⟨by omega, rfl⟩, fun _ => rfl⟩, fun hno => absurd ⟨by omega, rfl⟩ hno, ?_, ?_, ?_⟩
        · exact hmov.placed
        · exact hmov.others
        · exact fun _ => Or.inl rfl
      · rw [if_neg (by rw [toSize_of_range (by omega) (by omega)]; omega),
          returned_of_range hn (Nat.le_of_lt hlen)]
        refine hmov.fullLength htotal (Nat.le_of_lt hlen) ?_ fun _ => Or.inl List.getLast?_concat
        intro hnone
        obtain ⟨rfl, _⟩ := hmov.head?_concat hnone
        exact h0 rfl
  | @stopped calls mem hmov hlen =>
      rw [Int.toNat_natCast] at hlen
      have htotal : transferred (calls ++ [some []]) = transferred calls := by
        rw [transferred_concat, Option.getD_some, List.append_nil]
      rw [returned_of_range hn (Nat.le_of_lt hlen)]
      refine hmov.fullLength htotal (Nat.le_of_lt hlen) ?_ fun _ => Or.inr List.getLast?_concat
      intro hnone
      exact absurd (hmov.head?_concat hnone).2 (Option.some_ne_none [])

/-! ## Counts it cannot hold -/

/-- The count and its low 32 bits differ by no multiple of 2^64. -/
theorem returned_wrong {t : Nat} (hn : n < 18446744073709551616) (hbig : 2147483647 < n)
    (ht : (t : Int) ≤ toInt32 n) :
    returned n (toInt32 n - t) ≠ t ∧ returned n (toInt32 n - t) ≠ -1 := by
  obtain ⟨k₁, h₁⟩ := toInt32_eq n
  obtain ⟨_, hrange⟩ := toInt32_range n
  unfold returned
  rw [toSize_of_range (by omega) (by omega)]
  obtain ⟨k₂, h₂⟩ := toInt64_eq ((n : Int) - (toInt32 n - t).toNat)
  omega

theorem Ended.not_fullLength (hn : n < 18446744073709551616) (hbig : 2147483647 < n)
    (h : Ended mem₀ n (toInt32 n) r) : ¬ FullLength n mem₀ r := by
  intro hfull
  have hpos : 0 < n := by omega
  obtain ⟨_, hrange⟩ := toInt32_range n
  cases h with
  | @all calls mem hmov hlen =>
      by_cases hneg : toInt32 n ≤ 0
      · -- the loop is not entered
        obtain rfl := hmov.eq_nil (by omega)
        have hnone : List.getLast? ([] : List Moved) = none := rfl
        rcases hfull.early (by rw [hlen]; omega) with hlast | hlast
        · exact Option.some_ne_none _ (hlast.symm.trans hnone)
        · exact Option.some_ne_none _ (hlast.symm.trans hnone)
      · have hwrong := returned_wrong hn hbig (t := (transferred calls).length) (by omega)
        obtain ⟨hret, _⟩ := hfull.count fun hfail => hmov.head?_ne hfail.2
        dsimp only at hret
        exact hwrong.1 hret
  | @failed calls mem hmov hlen =>
      have hwrong := returned_wrong hn hbig (t := (transferred calls).length) (by omega)
      rw [if_neg (by rw [toSize_of_range (by omega) (by omega)]; omega)] at hfull
      by_cases hhead : (calls ++ [none]).head? = some none
      · have hret := hfull.failed.mpr ⟨hpos, hhead⟩
        dsimp only at hret
        exact hwrong.2 hret
      · obtain ⟨hret, _⟩ := hfull.count fun hfail => hhead hfail.2
        dsimp only at hret
        rw [transferred_concat, Option.getD_none, List.append_nil] at hret
        exact hwrong.1 hret
  | @stopped calls mem hmov hlen =>
      have hwrong := returned_wrong hn hbig (t := (transferred calls).length) (by omega)
      obtain ⟨hret, _⟩ := hfull.count fun hfail =>
        absurd (hmov.head?_concat hfail.2).2 (Option.some_ne_none [])
      dsimp only at hret
      rw [transferred_concat, Option.getD_some, List.append_nil] at hret
      exact hwrong.1 hret

/-! ## my_readn, my_writen -/

/-- A system call that leaves the memory alone leaves it so in the loop. -/
theorem ioLoop_mem (hio : ∀ k ptr count mem, (io k ptr count mem).2 = mem) (fuel : Nat) :
    ∀ {ptr : Nat} {nleft : Int} {mem : Mem} {calls : List Moved},
      ioLoop io n fuel ptr nleft mem calls = some r → r.mem = mem := by
  induction fuel with
  | zero => exact fun h => nomatch h
  | succ fuel ih =>
      intro ptr nleft mem calls h
      rw [ioLoop] at h
      by_cases hleft : nleft > 0
      · rw [if_pos hleft] at h
        have hsame := hio calls.length ptr (toSize nleft) mem
        generalize io calls.length ptr (toSize nleft) mem = step at h hsame
        obtain ⟨moved, mem'⟩ := step
        obtain rfl : mem' = mem := hsame
        dsimp only at h
        split at h
        · split at h
          · rw [← Option.some.inj h]
          · rw [← Option.some.inj h]
        · split at h
          · rw [← Option.some.inj h]
          · exact ih h
      · rw [if_neg hleft] at h
        rw [← Option.some.inj h]

/-- **The loop and the count**: the functions do what they are to do exactly for counts an `int` can hold. -/
theorem fullIo_iff (hio : Conforms io) (hn : n < 18446744073709551616) (mem : Mem) :
    ∃ r, fullIo io n mem = some r ∧ (FullLength n mem r ↔ n ≤ 2147483647) := by
  obtain ⟨r, heq, hend⟩ := ioLoop_spec (n := n) hio (toInt32_range n).2 ((toInt32 n).toNat + 1)
    (Moving.start mem) (Nat.zero_le _) (by omega)
  rw [show transferred [] = [] from rfl, List.length_nil, Int.natCast_zero, Int.sub_zero] at heq
  refine ⟨r, heq, ?_, ?_⟩
  · intro hfull
    by_cases hbig : 2147483647 < n
    · exact absurd hfull (hend.not_fullLength hn hbig)
    · exact Nat.not_lt.mp hbig
  · intro hfit
    rw [toInt32_of_range (by omega) (by omega)] at hend
    exact hend.fullLength hfit

/-- **`my_readn` and `my_writen` transfer in full** exactly up to `INT_MAX` bytes, whatever short counts, ends
    and errors come back. -/
theorem full_length_io_iff {reads : Nat → Nat → Moved} {writes : Nat → Nat → Option Nat} {n : Nat}
    (hr : ∀ k count bs, reads k count = some bs → bs.length ≤ count)
    (hw : ∀ k count w, writes k count = some w → w ≤ count) (hn : n < 18446744073709551616) (mem : Mem) :
    ((∃ r, myReadn reads n mem = some r ∧ FullLength n mem r) ↔ n ≤ 2147483647) ∧
    ((∃ r, myWriten writes n mem = some r ∧ FullLength n mem r ∧ r.mem = mem) ↔ n ≤ 2147483647) := by
  constructor
  · obtain ⟨r, heq, hiff⟩ := fullIo_iff (conforms_read hr) hn mem
    rw [← hiff]
    constructor
    · rintro ⟨r', heq', hfull⟩
      obtain rfl := Option.some.inj (heq.symm.trans heq')
      exact hfull
    · exact fun hfull => ⟨r, heq, hfull⟩
  · obtain ⟨r, heq, hiff⟩ := fullIo_iff (conforms_write hw) hn mem
    rw [← hiff]
    constructor
    · rintro ⟨r', heq', hfull, _⟩
      obtain rfl := Option.some.inj (heq.symm.trans heq')
      exact hfull
    · exact fun hfull => ⟨r, heq, hfull, ioLoop_mem (fun _ _ _ _ => rfl) _ heq⟩

/-- Three bytes read one at a time, and three written in two calls. -/
theorem full_length_io_iff_three :
    ((∃ r, myReadn (fun k count => some (List.replicate (min 1 count) (UInt8.ofNat k))) 3 (fun _ => 7) = some r ∧
        FullLength 3 (fun _ => 7) r) ↔ 3 ≤ 2147483647) ∧
    ((∃ r, myWriten (fun _ count => some (min 2 count)) 3 (fun _ => 7) = some r ∧
        FullLength 3 (fun _ => 7) r ∧ r.mem = fun _ => 7) ↔ 3 ≤ 2147483647) := by
  apply full_length_io_iff
  · intro k count bs h
    rw [← Option.some.inj h, List.length_replicate]
    exact Nat.min_le_right 1 count
  · intro k count w h
    rw [← Option.some.inj h]
    exact Nat.min_le_right 2 count
  · decide

/-- A count of 2^31 is the `int` -2^31: no call is made, and 2^32 is returned. -/
theorem full_length_io_fails :
    myReadn (fun _ count => some (List.replicate (min 1 count) 1)) 2147483648 (fun _ => 0)
      = some ⟨4294967296, fun _ => 0, []⟩ ∧
      ¬ FullLength 2147483648 (fun _ => 0) ⟨4294967296, fun _ => 0, []⟩ := by
  constructor
  · rfl
  · intro h
    rcases h.early (by decide) with hlast | hlast
    · contradiction
    · contradiction

end FullIo
