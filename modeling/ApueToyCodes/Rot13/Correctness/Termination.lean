import ApueToyCodes.Rot13.Correctness.Pipeline

/-!
# `Rot13.Correctness.Termination` — the copy comes to its end

Every step, of the program or of the system, makes `rank` smaller: a request begun or over is work done, and
a walk over the buffers that does no work ends in `aio_suspend`, which returns only when there is work. So no
run is longer than the rank it starts with. And a run that has not reached `exit` can go on: a request in
flight can be finished. When the system does all that it is asked to, `main` ends in `exit(0)`.
-/

namespace Rot13

open RecordFile Pieces

variable {inp : List UInt8} {full : Prop} {s s' : State} {i : Fin nbuf}

/-! ## The rank of a state -/

/-- The steps that a buffer still has in front of it. -/
def work (b : Buf) : Nat :=
  match b.op, b.req with
  | .unused,       _        => 0
  | .readPending,  .done .. => 3
  | .readPending,  _        => 4
  | .writePending, .done .. => 1
  | .writePending, _        => 2

/-- The blocks not begun. -/
def blocksLeft (inp : List UInt8) (off : Nat) : Nat := (inp.length - off + (bsz - 1)) / bsz

def todo (inp : List UInt8) (s : State) : Nat := 5 * blocksLeft inp s.off + ∑ i, work (s.bufs i)

/-- How far it is to the next work, or to `exit`. -/
def distance (inp : List UInt8) (s : State) : Nat :=
  match s.pc with
  | .scan i    => if ∃ j, i ≤ j ∧ Ready inp s j then nbuf - i else 2 * nbuf + 3 - i
  | .suspended => nbuf + 1
  | .check     => nbuf + 2
  | .sync      => 1
  | .exited _  => 0

def rank (inp : List UInt8) (s : State) : Nat := (2 * nbuf + 4) * todo inp s + distance inp s

theorem distance_lt (inp : List UInt8) (s : State) : distance inp s < 2 * nbuf + 4 := by
  unfold distance
  split
  · split <;> omega
  all_goals omega

theorem distance_pos (hpc : ∀ e, s.pc ≠ .exited e) : 0 < distance inp s := by
  unfold distance
  split
  · rename_i i _
    have := i.isLt
    split <;> omega
  · omega
  · omega
  · omega
  · exact absurd ‹_› (hpc _)

theorem rank_lt_of_todo (h : todo inp s' < todo inp s) : rank inp s' < rank inp s := by
  have hmul := Nat.mul_le_mul_left (2 * nbuf + 4) (Nat.succ_le_of_lt h)
  have hlt := distance_lt inp s'
  rw [Nat.mul_succ] at hmul
  unfold rank
  omega

theorem rank_lt_of_distance (h : todo inp s' = todo inp s) (hd : distance inp s' < distance inp s) :
    rank inp s' < rank inp s := by
  unfold rank
  rw [h]
  omega

@[simp] theorem todo_goto (inp : List UInt8) (s : State) (pc : Pc) : todo inp (s.goto pc) = todo inp s := rfl

@[simp] theorem todo_next (inp : List UInt8) (s : State) (i : Fin nbuf) : todo inp (s.next i) = todo inp s := rfl

/-- One block begun is one less. -/
theorem blocksLeft_add {off : Nat} (h : off < inp.length) : blocksLeft inp off = blocksLeft inp (off + bsz) + 1 := by
  unfold blocksLeft
  have hb : 0 < bsz := by decide
  rw [← Nat.add_div_right _ hb]
  by_cases hle : off + bsz ≤ inp.length
  · congr 1
    omega
  · rw [Nat.sub_eq_zero_of_le (show inp.length ≤ off + bsz by omega), Nat.zero_add,
      Nat.div_eq_of_lt_le (k := 1) (by omega) (by omega), Nat.div_eq_of_lt_le (k := 1) (by omega) (by omega)]

theorem todo_setBuf {b : Buf} (h : work b < work (s.bufs i)) : todo inp (s.setBuf i b) < todo inp s := by
  have hsum := sum_update work s.bufs i b
  show 5 * blocksLeft inp s.off + ∑ j, work (Function.update s.bufs i b j) < todo inp s
  unfold todo
  omega

theorem distance_goto_scan_zero (h : ∃ j, Ready inp s j) : distance inp (s.goto (.scan 0)) = nbuf := by
  have hready : ∃ j, (0 : Fin nbuf) ≤ j ∧ Ready inp (s.goto (.scan 0)) j :=
    h.imp fun j hj => ⟨Fin.zero_le _, hj⟩
  show (if _ then _ else _) = _
  rw [if_pos hready]
  rfl

/-- Passing by a buffer gets nearer to the next work. -/
theorem distance_next (hpc : s.pc = .scan i) (h : ¬ Ready inp s i) : distance inp (s.next i) < distance inp s := by
  have hlt := i.isLt
  have hs : distance inp s = if ∃ j, i ≤ j ∧ Ready inp s j then nbuf - i else 2 * nbuf + 3 - i := by
    unfold distance
    rw [hpc]
  rw [hs]
  by_cases hn : i.val + 1 < nbuf
  · have hsucc : distance inp (s.next i) = if ∃ j, (⟨i.val + 1, hn⟩ : Fin nbuf) ≤ j ∧ Ready inp s j then
        nbuf - (i.val + 1) else 2 * nbuf + 3 - (i.val + 1) := by
      unfold State.next
      rw [dif_pos hn]
      rfl
    have hiff : (∃ j, (⟨i.val + 1, hn⟩ : Fin nbuf) ≤ j ∧ Ready inp s j) ↔ ∃ j, i ≤ j ∧ Ready inp s j := by
      refine ⟨fun ⟨j, hij, hj⟩ => ⟨j, Nat.le_of_succ_le hij, hj⟩, fun ⟨j, hij, hj⟩ => ⟨j, ?_, hj⟩⟩
      refine Nat.succ_le_of_lt (Nat.lt_of_le_of_ne hij fun heq => h ?_)
      rwa [Fin.eq_of_val_eq heq]
    rw [hsucc]
    simp only [hiff]
    split <;> omega
  · have hend : distance inp (s.next i) = nbuf + 2 := by
      unfold State.next
      rw [dif_neg hn]
      rfl
    have hnone : ¬ ∃ j, i ≤ j ∧ Ready inp s j := by
      rintro ⟨j, hij, hj⟩
      have hjlt := j.isLt
      have heq : i = j := Fin.eq_of_val_eq (by have : i.val ≤ j.val := hij; omega)
      exact h (heq ▸ hj)
    rw [hend, if_neg hnone]
    omega

/-! ## Every step makes the rank smaller -/

theorem Ready.of_listed (h : Inv inp full s) (hl : s.aiolist i = true) (ho : (s.bufs i).req.isOver = true) :
    Ready inp s i :=
  .inr ⟨(h.listed i).mp hl, ho⟩

theorem rank_step {e : Event} (h : Inv inp full s) (hs : step inp s e = some s') : rank inp s' < rank inp s := by
  cases step_cases hs with
  | pass i hpc hr => exact rank_lt_of_distance rfl (distance_next hpc hr)
  | submit i hpc hop hoff =>
      have hsum := sum_update work s.bufs i ((s.bufs i).reading s.off inp.length)
      have hwork : work ((s.bufs i).reading s.off inp.length) = 4 := rfl
      have hblocks := blocksLeft_add hoff
      have htodo : todo inp (s.submitted inp i)
          = 5 * blocksLeft inp (s.off + bsz) + ∑ j, work (Function.update s.bufs i _ j) := rfl
      refine rank_lt_of_todo ?_
      rw [todo_next, htodo, todo]
      omega
  | write i hpc hop n hreq =>
      have hwork : work ((s.bufs i).writing n) < work (s.bufs i) := by simp [work, Buf.writing, hop, hreq]
      refine rank_lt_of_todo ?_
      rw [todo_next]
      exact todo_setBuf hwork
  | release i hpc hop hreq =>
      have hwork : work { s.bufs i with op := .unused } < work (s.bufs i) := by simp [work, hop, hreq]
      have htodo : todo inp (s.released i) = todo inp (s.setBuf i { s.bufs i with op := .unused }) := rfl
      refine rank_lt_of_todo ?_
      rw [todo_next, htodo]
      exact todo_setBuf hwork
  | again hpc hnum hoff =>
      have hready : Ready inp s 0 := .inl ⟨inUse_eq_zero (h.count.symm.trans hnum) 0, hoff⟩
      refine rank_lt_of_distance rfl ?_
      rw [distance_goto_scan_zero ⟨0, hready⟩, distance, hpc]
      simp
  | leave hpc =>
      refine rank_lt_of_distance rfl ?_
      simp [distance, hpc]
  | suspend hpc =>
      refine rank_lt_of_distance rfl ?_
      simp [distance, hpc]
  | wake hpc hover =>
      obtain ⟨i, hl, ho⟩ := hover
      refine rank_lt_of_distance rfl ?_
      rw [distance_goto_scan_zero ⟨i, .of_listed h hl ho⟩, distance, hpc]
      simp
  | exit hpc =>
      refine rank_lt_of_distance rfl ?_
      simp [distance, hpc]
  | fail hpc x =>
      refine rank_lt_of_distance rfl ?_
      have hpos : 0 < distance inp s := distance_pos hpc
      simpa [distance] using hpos
  | ioError hpc i hreq err ret =>
      refine rank_lt_of_todo (todo_setBuf ?_)
      rcases hreq with hreq | hreq
      · simp [work, hreq, (h.buf i).op_of_reading hreq]
      · simp [work, hreq, (h.buf i).op_of_writing hreq]
  | readOver hpc i hreq ret =>
      refine rank_lt_of_todo (todo_setBuf ?_)
      simp [work, hreq, (h.buf i).op_of_reading hreq]
  | writeOver hpc i hreq _ ret =>
      have hwork : work { s.bufs i with req := .done 0 ret } < work (s.bufs i) := by
        simp [work, hreq, (h.buf i).op_of_writing hreq]
      have htodo : todo inp (s.writeOver i ret) = todo inp (s.setBuf i { s.bufs i with req := .done 0 ret }) := rfl
      refine rank_lt_of_todo ?_
      rw [htodo]
      exact todo_setBuf hwork

/-! ## A system that does what it is asked to -/

/-- A request that is over was carried out in full. -/
def Fulfilled (inp : List UInt8) (b : Buf) : Prop :=
  ∀ err ret, b.req = .done err ret → err = 0 ∧ (b.op = .readPending → ret = (pread inp b.offset bsz).length) ∧
    (b.op = .writePending → ret = b.nbytes)

/-- Nothing went wrong, and `aio_suspend` has something to wait for. -/
structure Smooth (inp : List UInt8) (s : State) : Prop where
  inv    : Inv inp True s
  buf    : ∀ i, Fulfilled inp (s.bufs i)
  exit   : ∀ x, s.pc = .exited x → x = .ok
  asleep : s.pc = .suspended → s.numop ≠ 0

/-- Nothing that `main` gives up for. -/
theorem Smooth.no_cause {e : Event} (h : Smooth inp s) (hg : Good inp s e) : ¬ Cause s e := by
  intro hc
  cases hc with
  | call => exact absurd hg (by simp [Good])
  | read i hop err ret hreq hbad =>
      obtain ⟨herr, hret, _⟩ := h.buf i err ret hreq
      have hlast := ((h.inv.buf i).place (by simp [hop])).last
      rw [hret hop, length_pread] at hbad
      rcases hbad with hbad | hbad | ⟨hne, hfalse⟩
      · exact hbad herr
      · omega
      · have hlt : ¬ inp.length ≤ (s.bufs i).offset + bsz := fun hle => by simp [hlast.mpr hle] at hfalse
        omega
  | write i hop err ret hreq hbad =>
      obtain ⟨herr, _, hret⟩ := h.buf i err ret hreq
      rw [hret hop] at hbad
      omega

theorem smooth_init (inp : List UInt8) : Smooth inp init where
  inv := inv_init inp True
  buf i err ret h := by simp [init, Buf.init] at h
  exit x h := by simp [init] at h
  asleep h := by simp [init] at h

/-- One buffer changes. -/
theorem fulfilled_update {bufs : Fin nbuf → Buf} {b : Buf} (h : ∀ j, Fulfilled inp (bufs j)) (hb : Fulfilled inp b)
    (j : Fin nbuf) : Fulfilled inp (Function.update bufs i b j) := by
  by_cases hj : j = i
  · subst hj
    rwa [Function.update_self]
  · rw [Function.update_of_ne hj]
    exact h j

/-- On to the next buffer. -/
theorem Smooth.of_next {t : State} (hinv : Inv inp True (t.next i)) (hbuf : ∀ j, Fulfilled inp (t.bufs j)) :
    Smooth inp (t.next i) := by
  refine ⟨hinv, hbuf, fun x hx => ?_, fun hx => ?_⟩
  · unfold State.next at hx
    split at hx <;> simp at hx
  · unfold State.next at hx
    split at hx <;> simp at hx

/-- **One step** of a system that does what it is asked to. -/
theorem smooth_step {e : Event} (h : Smooth inp s) (hs : step inp s e = some s') (hg : Good inp s e) :
    Smooth inp s' := by
  have hinv := inv_step h.inv hs fun _ => hg.readsAll
  cases step_cases hs with
  | pass i => exact .of_next hinv h.buf
  | submit i =>
      refine .of_next hinv (fulfilled_update h.buf fun err ret hr => ?_)
      simp [Buf.reading] at hr
  | write i =>
      refine .of_next hinv (fulfilled_update h.buf fun err ret hr => ?_)
      simp [Buf.writing] at hr
  | release i =>
      refine .of_next hinv (fulfilled_update h.buf fun err ret hr => ?_)
      exact ⟨(h.buf i err ret hr).1, fun hop => by simp at hop, fun hop => by simp at hop⟩
  | again => exact ⟨hinv, h.buf, by simp, by simp⟩
  | leave => exact ⟨hinv, h.buf, by simp, by simp⟩
  | suspend _ hnum => exact ⟨hinv, h.buf, by simp, fun _ => hnum⟩
  | wake => exact ⟨hinv, h.buf, by simp, by simp⟩
  | exit => exact ⟨hinv, h.buf, fun x hx => by simpa using hx.symm, by simp⟩
  | fail _ x _ e hc => exact absurd hc (h.no_cause hg)
  | ioError _ i hreq err ret herr =>
      obtain ⟨herr0, hret⟩ := hg
      refine absurd herr (not_or.mpr ⟨not_not.mpr herr0, Int.not_lt.mpr ?_⟩)
      rw [hret]
      split <;> exact Int.natCast_nonneg _
  | readOver _ i hreq ret =>
      refine ⟨hinv, fulfilled_update h.buf fun err r hr => ?_, h.exit, h.asleep⟩
      obtain ⟨rfl, rfl⟩ : err = 0 ∧ r = ret := by simpa [eq_comm] using hr
      refine ⟨rfl, fun _ => ?_, fun hw => absurd hw ?_⟩
      · simpa [hreq] using hg.2
      · simp [(h.inv.buf i).op_of_reading hreq]
  | writeOver _ i hreq _ ret =>
      refine ⟨hinv, fulfilled_update h.buf fun err r hr => ?_, h.exit, h.asleep⟩
      obtain ⟨rfl, rfl⟩ : err = 0 ∧ r = ret := by simpa [eq_comm] using hr
      refine ⟨rfl, fun hw => absurd hw ?_, fun _ => ?_⟩
      · simp [(h.inv.buf i).op_of_writing hreq]
      · simpa [hreq] using hg.2

/-- A request in flight can be carried out in full. -/
theorem BufOk.can_complete (h : Inv inp full s) (hpc : s.pc = .suspended) (hop : (s.bufs i).op ≠ .unused)
    (hover : (s.bufs i).req.isOver = false) : ∃ e, (step inp s e).isSome ∧ Good inp s e := by
  cases hreq : (s.bufs i).req with
  | none =>
      cases hop' : (s.bufs i).op with
      | unused => exact absurd hop' hop
      | readPending =>
          have hr := ((h.buf i).read hop').2
          rw [ReadOk, hreq] at hr
          exact hr.elim
      | writePending =>
          have hw := (h.buf i).write hop'
          rw [WriteOk, hreq] at hw
          exact hw.elim
  | reading =>
      have hr := ((h.buf i).read ((h.buf i).op_of_reading hreq)).2
      rw [ReadOk, hreq] at hr
      have hreturn : ReadReturns (s.file inp (s.bufs i).fildes) (s.bufs i).offset (s.bufs i).nbytes
          (pread inp (s.bufs i).offset bsz).length := by
        rw [hr.1, hr.2]
        refine .inr ⟨Int.natCast_nonneg _, Nat.le_of_eq (Int.toNat_natCast _), fun h0 => ?_⟩
        exact List.eq_nil_of_length_eq_zero (by exact_mod_cast h0)
      refine ⟨.complete i 0 (pread inp (s.bufs i).offset bsz).length, ?_, rfl, by simp [hreq]⟩
      simp only [step, completeStep, hpc, hreq]
      rw [if_neg (by simp), if_pos hreturn]
      rfl
  | writing =>
      have hw := (h.buf i).write ((h.buf i).op_of_writing hreq)
      rw [WriteOk, hreq] at hw
      have hreturn : WriteReturns (s.bufs i).nbytes (s.bufs i).nbytes :=
        .inr ⟨Int.natCast_nonneg _, Nat.le_of_eq (Int.toNat_natCast _)⟩
      refine ⟨.complete i 0 (s.bufs i).nbytes, ?_, rfl, by simp [hreq]⟩
      simp only [step, completeStep, hpc, hreq]
      rw [if_neg (by simp), if_pos ⟨hw.1, hreturn⟩]
      rfl
  | done err ret => simp [hreq, Request.isOver] at hover

/-- **No deadlock.** -/
theorem Smooth.progress (h : Smooth inp s) (hrun : ∀ x, s.pc ≠ .exited x) :
    ∃ e, (step inp s e).isSome ∧ Good inp s e := by
  cases hpc : s.pc with
  | scan i => exact ⟨.main true, by simp [step, mainStep, hpc], rfl⟩
  | check =>
      refine ⟨.main true, ?_, rfl⟩
      simp only [step, mainStep, hpc]
      split <;> rfl
  | sync => exact ⟨.main true, by simp [step, mainStep, hpc], rfl⟩
  | suspended =>
      by_cases hover : ∃ i, s.aiolist i = true ∧ (s.bufs i).req.isOver = true
      · exact ⟨.main true, by simp [step, mainStep, hpc, hover], rfl⟩
      · -- a buffer in use, whose request is in flight
        have hsome : ∃ i, (s.bufs i).op ≠ .unused := by
          by_contra hnone
          refine h.asleep hpc (h.inv.count.trans (Finset.sum_eq_zero fun i _ => ?_))
          simp [not_not.mp fun hi => hnone ⟨i, hi⟩]
        obtain ⟨i, hi⟩ := hsome
        refine BufOk.can_complete h.inv hpc hi ?_
        by_contra ho
        exact hover ⟨i, (h.inv.listed i).mpr hi, by simpa using ho⟩
  | exited x => exact absurd hpc (hrun x)

/-- **Any run ends.** Whatever fails and in whatever order the requests are finished, there are only so many
    steps. -/
theorem runs_end {tr : List Event} (h : RunsTo inp init tr s) :
    tr.length ≤ 20 * (5 * ((inp.length + 4095) / 4096)) + 19 := by
  have hstep : ∀ s e s', Inv inp False s → step inp s e = some s' → rank inp s' < rank inp s ∧ Inv inp False s' :=
    fun _ _ _ hinv hs => ⟨rank_step hinv hs, inv_step hinv hs fun hf => hf.elim⟩
  have hwork : ∑ i, work (init.bufs i) = 0 := Finset.sum_eq_zero fun _ _ => rfl
  have htodo : todo inp init = 5 * ((inp.length + 4095) / 4096) := by
    rw [todo, hwork]
    rfl
  have hle : tr.length + rank inp s ≤ 20 * todo inp init + distance inp init :=
    h.length_le (rank inp) hstep (inv_init inp False)
  have hdist : distance inp init < 20 := distance_lt inp init
  rw [htodo] at hle
  omega

theorem runs_end_example : ∃ s : State, s.pc = .exited .ok ∧
    (twoBlocks 1).length ≤ 20 * (5 * ((longFile.length + 4095) / 4096)) + 19 := by
  obtain ⟨s, hruns, hpc⟩ := twoBlocks_ends
  exact ⟨s, hpc, runs_end hruns.runsTo⟩

/-- **The copy is made.** With a system that does what it is asked to, in whatever order, a run either goes on or
    has ended in `exit(0)` with the translated input in the output file. -/
theorem copies {tr : List Event} (h : GoodRuns inp init tr s) :
    (∃ e, (step inp s e).isSome ∧ Good inp s e) ∨ s.pc = .exited .ok ∧ s.out = rot13 inp := by
  have hstep : ∀ s e s', Smooth inp s → (step inp s e = some s' ∧ Good inp s e) → Smooth inp s' :=
    fun _ _ _ hsm hs => smooth_step hsm hs.1 hs.2
  have hsm : Smooth inp s := h.invariant hstep (smooth_init inp)
  by_cases hrun : ∀ x, s.pc ≠ .exited x
  · exact .inl (hsm.progress hrun)
  · obtain ⟨x, hx⟩ := not_forall_not.mp hrun
    obtain rfl := hsm.exit x hx
    exact .inr ⟨hx, full_output h.readsAll hx⟩

theorem copies_example : ∃ s : State, GoodRuns longFile init (twoBlocks 1) s ∧
    ((∃ e, (step longFile s e).isSome ∧ Good longFile s e) ∨ s.pc = .exited .ok ∧ s.out = rot13 longFile) := by
  obtain ⟨s, hruns, _⟩ := twoBlocks_ends
  exact ⟨s, hruns, copies hruns⟩

end Rot13
