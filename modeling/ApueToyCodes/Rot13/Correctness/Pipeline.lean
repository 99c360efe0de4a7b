import Mathlib.Data.Fintype.BigOperators
import ApueToyCodes.Rot13.Correctness.Moves

/-!
# `Rot13.Correctness.Pipeline` — the blocks in flight and the file they make

`Inv` is kept by every step: the buffers in use have different blocks, each block begun is in a buffer or in the
output file, the data of a buffer are the block as read or as translated, and the file does not reach into the
last block before that is written. When `main` is through, all blocks are in the file.

The invariant has a parameter `full`: whether every read returns all there is. Without it the last block may come
short, and `main` takes that for the end of the file.
-/

namespace Rot13

open RecordFile Pieces

/-! ## Pieces of the translation -/

theorem pread_rot13 (inp : List UInt8) (o n : Nat) : pread (rot13 inp) o n = (pread inp o n).map translate := by
  simp [rot13, pread, List.map_take, List.map_drop]

theorem take_translateFirst {data : List UInt8} {inp : List UInt8} {o n : Nat} (h : data.take n = pread inp o n)
    (hn : n ≤ data.length) : (translateFirst n data).take n = pread (rot13 inp) o n := by
  rw [translateFirst, h, pread_rot13, List.take_left' ?_]
  rw [List.length_map, ← h, List.length_take, Nat.min_eq_left hn]

theorem length_pread (f : List UInt8) (o n : Nat) : (pread f o n).length = min n (f.length - o) := by
  simp [pread]

/-- `n` bytes of the block at `o`. -/
structure Part (inp : List UInt8) (full : Prop) (o n : Nat) : Prop where
  pos  : 0 < n
  le   : n ≤ bsz
  room : o + n ≤ inp.length
  full : full → n = min bsz (inp.length - o)

/-- The block at `o` is in the file; only the last one may be short, and the file ends with it. -/
structure Written (inp : List UInt8) (full : Prop) (out : List UInt8) (o n : Nat) : Prop where
  part   : Part inp full o n
  whole  : o + bsz < inp.length → n = bsz
  agrees : Agrees (rot13 inp) out o n
  ends   : inp.length ≤ o + bsz → out.length ≤ o + n

/-- The file does not reach into the block at `o`, when that is the last one. -/
def Fresh (inp out : List UInt8) (o : Nat) : Prop := inp.length ≤ o + bsz → out.length ≤ o

/-- Where the block of a buffer in use is. -/
structure Placed (inp : List UInt8) (off : Nat) (b : Buf) : Prop where
  aligned : bsz ∣ b.offset
  begun   : b.offset < off
  inside  : b.offset < inp.length
  last    : b.last = true ↔ inp.length ≤ b.offset + bsz

theorem Placed.congr {inp : List UInt8} {off : Nat} {b b' : Buf} (h : Placed inp off b) (ho : b'.offset = b.offset)
    (hl : b'.last = b.last) : Placed inp off b' :=
  ⟨ho ▸ h.aligned, ho ▸ h.begun, ho ▸ h.inside, by rw [ho, hl]; exact h.last⟩

def ReadOk (inp : List UInt8) (full : Prop) (b : Buf) : Prop :=
  match b.req with
  | .reading      => b.fildes = .ifd ∧ b.nbytes = bsz
  | .done err ret => err = 0 → 0 ≤ ret →
      Part inp full b.offset ret.toNat ∧ b.data.take ret.toNat = pread inp b.offset ret.toNat
  | _             => False

def WriteOk (inp : List UInt8) (full : Prop) (out : List UInt8) (b : Buf) : Prop :=
  match b.req with
  | .writing      => b.fildes = .ofd ∧ Fresh inp out b.offset ∧ Part inp full b.offset b.nbytes ∧
      (b.offset + bsz < inp.length → b.nbytes = bsz) ∧
      b.data.take b.nbytes = pread (rot13 inp) b.offset b.nbytes
  | .done err ret => err = 0 → ret = b.nbytes → Written inp full out b.offset b.nbytes
  | _             => False

/-- A buffer. -/
structure BufOk (inp : List UInt8) (full : Prop) (off : Nat) (out : List UInt8) (b : Buf) : Prop where
  data  : b.data.length = bsz
  idle  : b.op = .unused → b.req ≠ .reading ∧ b.req ≠ .writing
  last  : b.last = true → inp.length ≤ off
  place : b.op ≠ .unused → Placed inp off b
  read  : b.op = .readPending → Fresh inp out b.offset ∧ ReadOk inp full b
  write : b.op = .writePending → WriteOk inp full out b

/-- How many buffers are in use. -/
def inUse (bufs : Fin nbuf → Buf) : Nat := ∑ i, if (bufs i).op = .unused then 0 else 1

structure Inv (inp : List UInt8) (full : Prop) (s : State) : Prop where
  aligned : bsz ∣ s.off
  edge    : s.off < inp.length + bsz
  buf     : ∀ i, BufOk inp full s.off s.out (s.bufs i)
  apart   : ∀ i j, i ≠ j → (s.bufs i).op ≠ .unused → (s.bufs j).op ≠ .unused →
    (s.bufs i).offset ≠ (s.bufs j).offset
  begun   : ∀ o, bsz ∣ o → o < s.off → o < inp.length →
    (∃ i, (s.bufs i).op ≠ .unused ∧ (s.bufs i).offset = o) ∨ ∃ n, Written inp full s.out o n
  fresh   : ∀ o, bsz ∣ o → s.off ≤ o → Fresh inp s.out o
  listed  : ∀ i, s.aiolist i = true ↔ (s.bufs i).op ≠ .unused
  count   : s.numop = inUse s.bufs
  ended   : s.pc = .sync ∨ s.pc = .exited .ok → s.numop = 0 ∧ inp.length ≤ s.off

variable {inp : List UInt8} {full : Prop} {s : State} {i : Fin nbuf}

/-! ## Blocks -/

/-- Two blocks do not overlap. -/
theorem block_disjoint {o p : Nat} (ho : bsz ∣ o) (hp : bsz ∣ p) (hne : o ≠ p) : o + bsz ≤ p ∨ p + bsz ≤ o := by
  obtain ⟨a, rfl⟩ := ho
  obtain ⟨b, rfl⟩ := hp
  have hab : a ≠ b := fun h => hne (by rw [h])
  rcases Nat.lt_or_gt_of_ne hab with h | h
  · exact .inl (by simpa [Nat.mul_succ] using Nat.mul_le_mul_left bsz (Nat.succ_le_of_lt h))
  · exact .inr (by simpa [Nat.mul_succ] using Nat.mul_le_mul_left bsz (Nat.succ_le_of_lt h))

section

variable {out bs : List UInt8} {o p : Nat} (ho : bsz ∣ o) (hp : bsz ∣ p) (hne : o ≠ p)
  (hlen : bs.length ≤ bsz) (hroom : p + bs.length ≤ inp.length)

include ho hp hne hlen hroom

/-- Writing another block leaves the last one alone. -/
theorem Fresh.fill (h : Fresh inp out o) : Fresh inp (fill out p bs) o := by
  intro hlast
  have hd := block_disjoint ho hp hne
  have hle := length_fill_le out p bs
  have := h hlast
  by_cases hnil : bs = []
  · rw [hnil, fill_nil]
    exact this
  · have hpos : 0 < bs.length := List.length_pos_iff.mpr hnil
    omega

theorem Written.fill {n : Nat} (h : Written inp full out o n) : Written inp full (fill out p bs) o n := by
  have hd := block_disjoint ho hp hne
  have hn := h.part.le
  refine ⟨h.part, h.whole, h.agrees.fill (by omega), fun hlast => ?_⟩
  have hle := length_fill_le out p bs
  have := h.ends hlast
  by_cases hnil : bs = []
  · rw [hnil, fill_nil]
    exact this
  · have hpos : 0 < bs.length := List.length_pos_iff.mpr hnil
    omega

theorem BufOk.fill {off : Nat} {b : Buf} (h : BufOk inp full off out b) (hb : b.op ≠ .unused → b.offset = o) :
    BufOk inp full off (fill out p bs) b where
  data := h.data
  idle := h.idle
  last := h.last
  place := h.place
  read hop := by
    obtain ⟨hf, hr⟩ := h.read hop
    have hbo := hb (by simp [hop])
    subst hbo
    exact ⟨hf.fill ho hp hne hlen hroom, hr⟩
  write hop := by
    have hw := h.write hop
    have hbo := hb (by simp [hop])
    subst hbo
    unfold WriteOk at hw ⊢
    split at hw
    · exact ⟨hw.1, hw.2.1.fill ho hp hne hlen hroom, hw.2.2⟩
    · exact fun h0 hr => (hw h0 hr).fill ho hp hne hlen hroom
    · exact hw

end

/-- Going on in the input file. -/
theorem BufOk.mono {off off' : Nat} {out : List UInt8} {b : Buf} (h : BufOk inp full off out b) (hle : off ≤ off') :
    BufOk inp full off' out b where
  data := h.data
  idle := h.idle
  last hl := Nat.le_trans (h.last hl) hle
  place hop := { h.place hop with begun := Nat.lt_of_lt_of_le (h.place hop).begun hle }
  read := h.read
  write := h.write

/-! ## One buffer replaced -/

/-- A sum over the buffers, when one of them changes. -/
theorem sum_update (g : Buf → Nat) (bufs : Fin nbuf → Buf) (i : Fin nbuf) (b : Buf) :
    ∑ j, g (Function.update bufs i b j) + g (bufs i) = ∑ j, g (bufs j) + g b := by
  have hrest : ∑ j ∈ Finset.univ.erase i, g (Function.update bufs i b j) = ∑ j ∈ Finset.univ.erase i, g (bufs j) :=
    Finset.sum_congr rfl fun j hj => by rw [Function.update_of_ne (Finset.ne_of_mem_erase hj)]
  rw [← Finset.add_sum_erase _ _ (Finset.mem_univ i),
    ← Finset.add_sum_erase _ (fun j => g (bufs j)) (Finset.mem_univ i),
    hrest, Function.update_self]
  omega

theorem inUse_update (bufs : Fin nbuf → Buf) (i : Fin nbuf) (b : Buf) :
    inUse (Function.update bufs i b) + (if (bufs i).op = .unused then 0 else 1)
      = inUse bufs + (if b.op = .unused then 0 else 1) :=
  sum_update (fun b => if b.op = .unused then 0 else 1) bufs i b

theorem inUse_eq_zero {bufs : Fin nbuf → Buf} (h : inUse bufs = 0) (i : Fin nbuf) : (bufs i).op = .unused := by
  have hi := Finset.sum_eq_zero_iff.mp h i (Finset.mem_univ i)
  by_contra hop
  simp [hop] at hi

theorem Inv.goto (h : Inv inp full s) {pc : Pc}
    (hpc : pc = .sync ∨ pc = .exited .ok → s.numop = 0 ∧ inp.length ≤ s.off) : Inv inp full (s.goto pc) :=
  { h with ended := hpc }

theorem Inv.next (h : Inv inp full s) (i : Fin nbuf) : Inv inp full (s.next i) := by
  refine h.goto fun hpc => ?_
  split at hpc <;> simp at hpc

/-- A buffer that stays in use, with its block. -/
theorem Inv.setBuf (h : Inv inp full s) (hrun : s.pc ≠ .sync ∧ s.pc ≠ .exited .ok) {b : Buf}
    (hin : (s.bufs i).op ≠ .unused) (hop : b.op ≠ .unused) (hoff : b.offset = (s.bufs i).offset)
    (hb : BufOk inp full s.off s.out b) : Inv inp full (s.setBuf i b) := by
  have hops : ∀ j, (Function.update s.bufs i b j).op ≠ .unused ↔ (s.bufs j).op ≠ .unused := fun j => by
    by_cases hj : j = i
    · subst hj
      simp [hin, hop]
    · rw [Function.update_of_ne hj]
  have hoffs : ∀ j, (Function.update s.bufs i b j).offset = (s.bufs j).offset := fun j => by
    by_cases hj : j = i
    · subst hj
      simp [hoff]
    · rw [Function.update_of_ne hj]
  exact
    { aligned := h.aligned
      edge := h.edge
      buf := fun j => by
        by_cases hj : j = i
        · subst hj
          simpa [State.setBuf] using hb
        · simpa [State.setBuf, Function.update_of_ne hj] using h.buf j
      apart := fun j k hjk hj hk => by
        simp only [State.setBuf, hops, hoffs] at hj hk ⊢
        exact h.apart j k hjk hj hk
      begun := fun o ho ho1 ho2 => by
        simp only [State.setBuf, hops, hoffs]
        exact h.begun o ho ho1 ho2
      fresh := h.fresh
      listed := fun j => by
        simp only [State.setBuf, hops]
        exact h.listed j
      count := by
        have hu := inUse_update s.bufs i b
        rw [if_neg hin, if_neg hop] at hu
        exact h.count.trans (Nat.add_right_cancel hu).symm
      ended := fun hpc => absurd hpc (by simpa [State.setBuf] using hrun) }

/-! ## The moves of the program -/

/-- A block begun. -/
theorem Inv.submitted (h : Inv inp full s) (hrun : s.pc ≠ .sync ∧ s.pc ≠ .exited .ok)
    (hop : (s.bufs i).op = .unused) (hoff : s.off < inp.length) : Inv inp full (s.submitted inp i) := by
  have hlast : (s.bufs i).last = false := by
    by_contra hl
    have := (h.buf i).last (by simpa using hl)
    omega
  have hother : ∀ j, j ≠ i → (s.submitted inp i).bufs j = s.bufs j := fun j hj => Function.update_of_ne hj _ _
  have hself : (s.submitted inp i).bufs i = (s.bufs i).reading s.off inp.length := Function.update_self _ _ _
  have huse : ∀ j, (s.bufs j).op ≠ .unused → j ≠ i := fun j hj heq => hj (heq ▸ hop)
  refine ⟨Nat.dvd_add h.aligned (Nat.dvd_refl _), Nat.add_lt_add_right hoff _, fun j => ?_,
    fun j k hjk hj hk => ?_, fun o ho ho1 ho2 => ?_,
    fun o ho ho1 => h.fresh o ho (Nat.le_trans (Nat.le_add_right _ _) ho1), fun j => ?_, ?_,
    fun hpc => absurd hpc (by simpa [State.submitted, State.setBuf] using hrun)⟩
  · by_cases hj : j = i
    · subst hj
      rw [hself]
      exact
        { data := (h.buf j).data
          idle := fun hu => by simp [Buf.reading] at hu
          last := fun hl => show inp.length ≤ s.off + bsz by simpa [Buf.reading, hlast] using hl
          place := fun _ => ⟨h.aligned, Nat.lt_add_of_pos_right (by decide), hoff, by simp [Buf.reading, hlast]⟩
          read := fun _ => ⟨h.fresh s.off h.aligned (Nat.le_refl _), rfl, rfl⟩
          write := fun hw => by simp [Buf.reading] at hw }
    · rw [hother j hj]
      exact (h.buf j).mono (Nat.le_add_right _ _)
  · -- the new block lies behind those in use
    by_cases hji : j = i
    · subst hji
      rw [hself, hother k (Ne.symm hjk)]
      rw [hother k (Ne.symm hjk)] at hk
      exact Nat.ne_of_gt ((h.buf k).place hk).begun
    · rw [hother j hji] at hj ⊢
      by_cases hki : k = i
      · subst hki
        rw [hself]
        exact Nat.ne_of_lt ((h.buf j).place hj).begun
      · rw [hother k hki] at hk ⊢
        exact h.apart j k hjk hj hk
  · by_cases heq : o = s.off
    · subst heq
      refine .inl ⟨i, ?_⟩
      rw [hself]
      exact ⟨by simp [Buf.reading], rfl⟩
    · have hlt : o < s.off := by
        rcases block_disjoint ho h.aligned heq with hd | hd
        · exact Nat.lt_of_lt_of_le (Nat.lt_add_of_pos_right (by decide)) hd
        · exact absurd ho1 (Nat.not_lt.mpr hd)
      refine (h.begun o ho hlt ho2).imp (fun ⟨j, hj, hjo⟩ => ⟨j, ?_⟩) fun hw => hw
      rw [hother j (huse j hj)]
      exact ⟨hj, hjo⟩
  · by_cases hj : j = i
    · subst hj
      rw [hself]
      simp [State.submitted, Buf.reading]
    · rw [hother j hj]
      simpa [State.submitted, Function.update_of_ne hj] using h.listed j
  · have hu := inUse_update s.bufs i ((s.bufs i).reading s.off inp.length)
    rw [if_pos hop, if_neg (by simp [Buf.reading])] at hu
    exact (congrArg (· + 1) h.count).trans hu.symm

/-- A block translated. -/
theorem Inv.writing (h : Inv inp full s) (hrun : s.pc ≠ .sync ∧ s.pc ≠ .exited .ok)
    (hop : (s.bufs i).op = .readPending) {n : Nat} (hreq : (s.bufs i).req = .done 0 n)
    (hn : n = bsz ∨ (s.bufs i).last = true) : Inv inp full (s.setBuf i ((s.bufs i).writing n)) := by
  have hin : (s.bufs i).op ≠ .unused := by simp [hop]
  have hplace := (h.buf i).place hin
  obtain ⟨hfresh, hread⟩ := (h.buf i).read hop
  rw [ReadOk, hreq] at hread
  obtain ⟨hpart, hdata⟩ := hread rfl (Int.natCast_nonneg n)
  rw [Int.toNat_natCast] at hpart hdata
  have hlen : n ≤ (s.bufs i).data.length := (h.buf i).data ▸ hpart.le
  refine h.setBuf hrun hin (by simp [Buf.writing]) rfl ?_
  exact
    { data := by simp [Buf.writing, translateFirst, (h.buf i).data, hpart.le]
      idle := fun hu => by simp [Buf.writing] at hu
      last := (h.buf i).last
      place := fun _ => hplace.congr rfl rfl
      read := fun hr => by simp [Buf.writing] at hr
      write := fun _ => ⟨rfl, hfresh, hpart, fun hlt => hn.resolve_right fun hl => by
        have hle := hplace.last.mp hl
        exact absurd hlt (Nat.not_lt.mpr hle), take_translateFirst hdata hlen⟩ }

/-- A block in the file. -/
theorem Inv.released (h : Inv inp full s) (hrun : s.pc ≠ .sync ∧ s.pc ≠ .exited .ok)
    (hop : (s.bufs i).op = .writePending) (hreq : (s.bufs i).req = .done 0 (s.bufs i).nbytes) :
    Inv inp full (s.released i) := by
  have hin : (s.bufs i).op ≠ .unused := by simp [hop]
  have hw := (h.buf i).write hop
  rw [WriteOk, hreq] at hw
  have hwritten := hw rfl rfl
  have hother : ∀ j, j ≠ i → (s.released i).bufs j = s.bufs j := fun j hj => Function.update_of_ne hj _ _
  have hself : (s.released i).bufs i = { s.bufs i with op := .unused } := Function.update_self _ _ _
  have hstill : ∀ j, ((s.released i).bufs j).op ≠ .unused → j ≠ i := fun j hj heq => hj (by rw [heq, hself])
  refine ⟨h.aligned, h.edge, fun j => ?_, fun j k hjk hj hk => ?_, fun o ho ho1 ho2 => ?_, h.fresh, fun j => ?_, ?_,
    fun hpc => absurd hpc (by simpa [State.released, State.setBuf] using hrun)⟩
  · by_cases hj : j = i
    · subst hj
      rw [hself]
      exact
        { data := (h.buf j).data
          idle := fun _ => by simp [hreq]
          last := (h.buf j).last
          place := fun hu => absurd rfl hu
          read := fun hr => by simp at hr
          write := fun hr => by simp at hr }
    · rw [hother j hj]
      exact h.buf j
  · have hji := hstill j hj
    have hki := hstill k hk
    rw [hother j hji] at hj ⊢
    rw [hother k hki] at hk ⊢
    exact h.apart j k hjk hj hk
  · rcases h.begun o ho ho1 ho2 with ⟨j, hj, hjo⟩ | hdone
    · by_cases hji : j = i
      · subst hji
        exact .inr ⟨_, hjo ▸ hwritten⟩
      · refine .inl ⟨j, ?_⟩
        rw [hother j hji]
        exact ⟨hj, hjo⟩
    · exact .inr hdone
  · by_cases hj : j = i
    · subst hj
      rw [hself]
      simp [State.released]
    · rw [hother j hj]
      simpa [State.released, Function.update_of_ne hj] using h.listed j
  · have hu := inUse_update s.bufs i { s.bufs i with op := .unused }
    rw [if_neg hin, if_pos rfl] at hu
    have hc := h.count
    show s.numop - 1 = inUse (Function.update s.bufs i _)
    omega

/-! ## The moves of the system -/

theorem BufOk.op_of_reading {off : Nat} {out : List UInt8} {b : Buf} (h : BufOk inp full off out b)
    (hreq : b.req = .reading) : b.op = .readPending := by
  cases hop : b.op with
  | unused => exact absurd hreq (h.idle hop).1
  | readPending => rfl
  | writePending =>
      have hw := h.write hop
      rw [WriteOk, hreq] at hw
      exact hw.elim

theorem BufOk.op_of_writing {off : Nat} {out : List UInt8} {b : Buf} (h : BufOk inp full off out b)
    (hreq : b.req = .writing) : b.op = .writePending := by
  cases hop : b.op with
  | unused => exact absurd hreq (h.idle hop).2
  | readPending =>
      have hr := (h.read hop).2
      rw [ReadOk, hreq] at hr
      exact hr.elim
  | writePending => rfl

/-- A request that failed. -/
theorem Inv.ioError (h : Inv inp full s) (hrun : s.pc ≠ .sync ∧ s.pc ≠ .exited .ok)
    (hreq : (s.bufs i).req = .reading ∨ (s.bufs i).req = .writing) {err ret : Int} (herr : err ≠ 0 ∨ ret < 0) :
    Inv inp full (s.setBuf i { s.bufs i with req := .done err ret }) := by
  have hbad : err = 0 → ¬ 0 ≤ ret := fun h0 => by omega
  have hin : (s.bufs i).op ≠ .unused := by
    rcases hreq with hreq | hreq
    · simp [(h.buf i).op_of_reading hreq]
    · simp [(h.buf i).op_of_writing hreq]
  refine h.setBuf hrun hin hin rfl ?_
  exact
    { data := (h.buf i).data
      idle := fun hu => absurd hu hin
      last := (h.buf i).last
      place := fun hu => ((h.buf i).place hu).congr rfl rfl
      read := fun hr => ⟨((h.buf i).read hr).1, fun h0 h1 => absurd h1 (hbad h0)⟩
      write := fun _ h0 h1 => absurd (h1 ▸ Int.natCast_nonneg _) (hbad h0) }

/-- A block read. -/
theorem Inv.readOver (h : Inv inp full s) (hrun : s.pc ≠ .sync ∧ s.pc ≠ .exited .ok)
    (hreq : (s.bufs i).req = .reading) {ret : Nat}
    (hret : ReadReturns (s.file inp (s.bufs i).fildes) (s.bufs i).offset (s.bufs i).nbytes ret)
    (hfull : full → ret = (pread inp (s.bufs i).offset bsz).length) : Inv inp full (s.readOver inp i ret) := by
  have hop := (h.buf i).op_of_reading hreq
  have hin : (s.bufs i).op ≠ .unused := by simp [hop]
  obtain ⟨hfresh, hread⟩ := (h.buf i).read hop
  rw [ReadOk, hreq] at hread
  obtain ⟨hifd, hnb⟩ := hread
  have hinside := ((h.buf i).place hin).inside
  have hfile : s.file inp (s.bufs i).fildes = inp := by rw [hifd]; rfl
  rw [hfile, hnb] at hret
  have hlen := length_pread inp (s.bufs i).offset bsz
  obtain ⟨hle, hend⟩ : ret ≤ (pread inp (s.bufs i).offset bsz).length ∧
      ((ret : Int) = 0 → pread inp (s.bufs i).offset bsz = []) := by
    rcases hret with hneg | ⟨_, hle, hend⟩
    · omega
    · exact ⟨by simpa using hle, hend⟩
  have hpos : 0 < ret := Nat.pos_of_ne_zero fun h0 => by
    have hnil := congrArg List.length (hend (by omega))
    have hb : 0 < bsz := by decide
    rw [hlen, List.length_nil] at hnil
    omega
  have hget : (pread inp (s.bufs i).offset ret).length = ret := by
    rw [length_pread]
    omega
  unfold State.readOver
  rw [hfile]
  refine h.setBuf hrun hin hin rfl ?_
  exact
    { data := by
        have hd := (h.buf i).data
        simp only [List.length_append, List.length_drop, hget, hd]
        omega
      idle := fun hu => absurd hu hin
      last := (h.buf i).last
      place := fun hu => ((h.buf i).place hu).congr rfl rfl
      read := fun _ => ⟨hfresh, fun _ _ => by
        rw [Int.toNat_natCast]
        refine ⟨⟨hpos, by omega, by simp only; omega, fun hf => ?_⟩, List.take_left' hget⟩
        rw [hfull hf, hlen]⟩
      write := fun hw => absurd hw (by simp [hop]) }

/-- A block written. -/
theorem Inv.writeOver (h : Inv inp full s) (hrun : s.pc ≠ .sync ∧ s.pc ≠ .exited .ok)
    (hreq : (s.bufs i).req = .writing) {ret : Nat} (hret : WriteReturns (s.bufs i).nbytes ret) :
    Inv inp full (s.writeOver i ret) := by
  have hop := (h.buf i).op_of_writing hreq
  have hin : (s.bufs i).op ≠ .unused := by simp [hop]
  have hplace := (h.buf i).place hin
  have hw := (h.buf i).write hop
  rw [WriteOk, hreq] at hw
  obtain ⟨_, hfresh, hpart, hwhole, hdata⟩ := hw
  have hle : ret ≤ (s.bufs i).nbytes := by
    rcases hret with hneg | ⟨_, hle⟩
    · omega
    · simpa using hle
  have hd := (h.buf i).data
  have hlen : ((s.bufs i).data.take ret).length = ret := by
    have := hpart.le
    rw [List.length_take]
    omega
  have hbsz : ((s.bufs i).data.take ret).length ≤ bsz := by
    have := hpart.le
    omega
  have hroom : (s.bufs i).offset + ((s.bufs i).data.take ret).length ≤ inp.length := by
    have := hpart.room
    omega
  have hother : ∀ j, j ≠ i → (s.writeOver i ret).bufs j = s.bufs j := fun j hj => Function.update_of_ne hj _ _
  have hself : (s.writeOver i ret).bufs i = { s.bufs i with req := .done 0 ret } := Function.update_self _ _ _
  have hops : ∀ j, ((s.writeOver i ret).bufs j).op = (s.bufs j).op := fun j => by
    by_cases hj : j = i
    · subst hj
      rw [hself]
    · rw [hother j hj]
  have hoffs : ∀ j, ((s.writeOver i ret).bufs j).offset = (s.bufs j).offset := fun j => by
    by_cases hj : j = i
    · subst hj
      rw [hself]
    · rw [hother j hj]
  refine ⟨h.aligned, h.edge, fun j => ?_, fun j k hjk hj hk => ?_, fun o ho ho1 ho2 => ?_,
    fun o ho ho1 => ?_, fun j => ?_,
    ?_, fun hpc => absurd hpc (by simpa [State.writeOver, State.setBuf] using hrun)⟩
  · by_cases hj : j = i
    · subst hj
      rw [hself]
      exact
        { data := hd
          idle := fun hu => absurd hu hin
          last := (h.buf j).last
          place := fun hu => ((h.buf j).place hu).congr rfl rfl
          read := fun hr => absurd hr (by simp [hop])
          write := fun _ _ heq => by
            -- all of it is in the file
            obtain rfl : ret = (s.bufs j).nbytes := by exact_mod_cast heq
            have hroom' := hpart.room
            refine ⟨hpart, hwhole, agrees_fill hdata (by rw [length_rot13]; omega) (Nat.ne_of_gt hpart.pos),
              fun hlast => ?_⟩
            have hle := length_fill_le s.out (s.bufs j).offset ((s.bufs j).data.take (s.bufs j).nbytes)
            have hbegin := hfresh hlast
            rw [hlen] at hle
            exact Nat.le_trans hle (Nat.max_le.mpr ⟨Nat.le_trans hbegin (Nat.le_add_right _ _), Nat.le_refl _⟩) }
    · rw [hother j hj]
      -- the other blocks are elsewhere in the file
      by_cases hu : (s.bufs j).op = .unused
      · exact
          { data := (h.buf j).data
            idle := (h.buf j).idle
            last := (h.buf j).last
            place := (h.buf j).place
            read := fun hr => absurd hr (by simp [hu])
            write := fun hr => absurd hr (by simp [hu]) }
      · exact (h.buf j).fill ((h.buf j).place hu).aligned hplace.aligned (h.apart j i hj hu hin) hbsz hroom
          fun _ => rfl
  · simp only [hops, hoffs] at hj hk ⊢
    exact h.apart j k hjk hj hk
  · simp only [hops, hoffs]
    by_cases heq : o = (s.bufs i).offset
    · exact .inl ⟨i, hin, heq.symm⟩
    · exact (h.begun o ho ho1 ho2).imp id fun ⟨n, hn⟩ =>
        ⟨n, hn.fill ho hplace.aligned heq hbsz hroom⟩
  · refine (h.fresh o ho ho1).fill ho hplace.aligned (fun heq => ?_) hbsz hroom
    have hlt := hplace.begun
    have hle' : s.off ≤ o := ho1
    omega
  · rw [hops]
    exact h.listed j
  · have hu := inUse_update s.bufs i { s.bufs i with req := .done 0 ret }
    exact h.count.trans (Nat.add_right_cancel hu).symm

/-! ## Whole runs -/

/-- A completed read returned the whole block, or what is left of the file. -/
def ReadsAll (inp : List UInt8) (s : State) (e : Event) : Prop :=
  ∀ i ret, e = .complete i 0 ret → (s.bufs i).req = .reading → 0 ≤ ret →
    ret = (pread inp (s.bufs i).offset bsz).length

theorem inv_init (inp : List UInt8) (full : Prop) : Inv inp full init where
  aligned := Nat.dvd_zero _
  edge := Nat.lt_of_lt_of_le (by decide) (Nat.le_add_left _ _)
  buf i :=
    { data := List.length_replicate
      idle := fun _ => by simp [init, Buf.init]
      last := fun h => by simp [init, Buf.init] at h
      place := fun h => absurd rfl h
      read := fun h => by simp [init, Buf.init] at h
      write := fun h => by simp [init, Buf.init] at h }
  apart i j _ hi _ := absurd rfl hi
  begun o _ ho _ := absurd ho (Nat.not_lt_zero _)
  fresh o _ _ _ := Nat.zero_le _
  listed i := by simp [init, Buf.init]
  count := by simp [init, inUse, Buf.init]
  ended h := by simp [init] at h

/-- **One step.** -/
theorem inv_step {e : Event} {s' : State} (h : Inv inp full s) (hs : step inp s e = some s')
    (hfull : full → ReadsAll inp s e) : Inv inp full s' := by
  cases step_cases hs with
  | pass i => exact h.next i
  | submit i hpc hop hoff => exact (h.submitted (by simp [hpc]) hop hoff).next i
  | write i hpc hop n hreq hn => exact (h.writing (by simp [hpc]) hop hreq hn).next i
  | release i hpc hop hreq => exact (h.released (by simp [hpc]) hop hreq).next i
  | again => exact h.goto (by simp)
  | leave _ hnum hoff => exact h.goto fun _ => ⟨hnum, hoff⟩
  | suspend => exact h.goto (by simp)
  | wake => exact h.goto (by simp)
  | exit hpc => exact h.goto fun _ => h.ended (.inl hpc)
  | fail _ x hx => exact h.goto (by simp [hx])
  | ioError hpc i hreq err ret herr =>
      by_cases hsync : s.pc = .sync
      · -- nothing is in flight any more
        have hu := inUse_eq_zero (h.count.symm.trans (h.ended (.inl hsync)).1) i
        have hidle := (h.buf i).idle hu
        exact (hreq.elim hidle.1 hidle.2).elim
      · exact h.ioError ⟨hsync, hpc _⟩ hreq herr
  | readOver hpc i hreq ret hret =>
      by_cases hsync : s.pc = .sync
      · have hu := inUse_eq_zero (h.count.symm.trans (h.ended (.inl hsync)).1) i
        exact absurd hreq ((h.buf i).idle hu).1
      · refine h.readOver ⟨hsync, hpc _⟩ hreq hret fun hf => ?_
        exact_mod_cast hfull hf i ret rfl hreq (Int.natCast_nonneg _)
  | writeOver hpc i hreq _ ret hret =>
      by_cases hsync : s.pc = .sync
      · have hu := inUse_eq_zero (h.count.symm.trans (h.ended (.inl hsync)).1) i
        exact absurd hreq ((h.buf i).idle hu).2
      · exact h.writeOver ⟨hsync, hpc _⟩ hreq hret

/-- Runs in which, where `full` holds, every completed read returns all there is. -/
def FullRuns (inp : List UInt8) (full : Prop) : State → List Event → State → Prop :=
  Runs.Run fun s e s' => step inp s e = some s' ∧ (full → ReadsAll inp s e)

theorem inv_runs {tr : List Event} (h : FullRuns inp full init tr s) : Inv inp full s := by
  have hstep : ∀ s e s', Inv inp full s → (step inp s e = some s' ∧ (full → ReadsAll inp s e)) → Inv inp full s' :=
    fun _ _ _ hinv hs => inv_step hinv hs.1 hs.2
  exact h.invariant hstep (inv_init inp full)

/-- All blocks are in the file. -/
theorem Inv.out_eq (h : Inv inp full s) (hnum : s.numop = 0) (hoff : inp.length ≤ s.off) :
    ∃ m, s.out = (rot13 inp).take m ∧ m ≤ inp.length ∧ inp.length < m + bsz ∧ (full → m = inp.length) := by
  have hunused : ∀ i, (s.bufs i).op = .unused := inUse_eq_zero (h.count.symm.trans hnum)
  have hwritten : ∀ o, bsz ∣ o → o < inp.length → ∃ n, Written inp full s.out o n := fun o ho hlt => by
    refine (h.begun o ho (Nat.lt_of_lt_of_le hlt hoff) hlt).resolve_left ?_
    rintro ⟨i, hi, _⟩
    exact hi (hunused i)
  obtain ⟨k, hk⟩ := h.aligned
  have hb : 0 < bsz := by decide
  have hedge := h.edge
  cases k with
  | zero =>
      -- nothing to copy
      have hout := h.fresh 0 (Nat.dvd_zero _) (Nat.le_of_eq hk) (by omega)
      refine ⟨0, ?_, Nat.zero_le _, by omega, fun _ => by omega⟩
      rw [List.take_zero]
      exact List.eq_nil_of_length_eq_zero (Nat.le_zero.mp hout)
  | succ k =>
      have hlastlt : bsz * k < inp.length := by
        rw [hk, Nat.mul_succ] at hedge
        omega
      obtain ⟨n, hn⟩ := hwritten (bsz * k) (Nat.dvd_mul_right _ _) hlastlt
      have hend : inp.length ≤ bsz * k + bsz := by rwa [hk, Nat.mul_succ] at hoff
      have hfront : Agrees (rot13 inp) s.out 0 (k * bsz) := agrees_blocks k fun j hj => by
        have hjk : bsz * j + bsz ≤ bsz * k := by
          rw [← Nat.mul_succ]
          exact Nat.mul_le_mul_left _ hj
        obtain ⟨m, hm⟩ := hwritten (bsz * j) (Nat.dvd_mul_right _ _) (by omega)
        have hwhole := hm.agrees
        rw [hm.whole (by omega)] at hwhole
        rwa [Nat.mul_comm]
      have hall := hfront.append (by rw [Nat.zero_add, Nat.mul_comm]; exact hn.agrees)
      have hpos := hn.part.pos
      refine ⟨k * bsz + n, eq_take hall ?_, ?_, ?_, fun hf => ?_⟩
      · rw [Nat.mul_comm k]
        exact hn.ends hend
      · rw [Nat.mul_comm k]
        exact hn.part.room
      · rw [Nat.mul_comm k]
        omega
      · have hlen := hn.part.full hf
        rw [Nat.mul_comm k]
        omega

/-! ## A system that does what it is asked to -/

/-- A call that succeeds, or a request carried out in full. -/
def Good (inp : List UInt8) (s : State) : Event → Prop
  | .main ok => ok = true
  | .complete i err ret =>
      err = 0 ∧ ret = match (s.bufs i).req with
        | .reading => ((pread inp (s.bufs i).offset bsz).length : Int)
        | _        => (s.bufs i).nbytes

instance (inp : List UInt8) (s : State) : (e : Event) → Decidable (Good inp s e)
  | .main _        => inferInstanceAs (Decidable (_ = _))
  | .complete .. => inferInstanceAs (Decidable (_ ∧ _))

theorem Good.readsAll {e : Event} (h : Good inp s e) : ReadsAll inp s e := by
  rintro i ret rfl hreq _
  obtain ⟨_, hret⟩ := h
  simpa [hreq] using hret

/-- Runs with such a system. -/
def GoodRuns (inp : List UInt8) : State → List Event → State → Prop :=
  Runs.Run fun s e s' => step inp s e = some s' ∧ Good inp s e

theorem GoodRuns.readsAll {s' : State} {tr : List Event} (h : GoodRuns inp s tr s') : FullRuns inp full s tr s' :=
  h.mono fun _ _ _ hs => ⟨hs.1, fun _ => hs.2.readsAll⟩

theorem GoodRuns.runsTo {s' : State} {tr : List Event} (h : GoodRuns inp s tr s') : RunsTo inp s tr s' :=
  h.mono fun _ _ _ hs => hs.1

/-- A step of such a run, computed. -/
def goodStep (inp : List UInt8) (s : State) (e : Event) : Option State :=
  if Good inp s e then step inp s e else none

theorem goodRuns_of_foldlM {s' : State} {tr : List Event} (h : tr.foldlM (goodStep inp) s = some s') :
    GoodRuns inp s tr s' := by
  refine Runs.Run.of_foldlM (fun s e s' hs => ?_) h
  unfold goodStep at hs
  split at hs
  · exact ⟨hs, ‹_›⟩
  · cases hs

theorem oneBlock_ends {c : UInt8} (hc : c ∈ ([97, 110] : List UInt8)) :
    ∃ s : State, GoodRuns [c] init (oneBlock 1) s ∧ s.pc = .exited .ok ∧ s.out = [translate c] := by
  have hrun : ∀ c ∈ ([97, 110] : List UInt8),
      ((oneBlock 1).foldlM (goodStep [c]) init).map (fun s => (s.pc, s.out)) =
        some (.exited .ok, [translate c]) := by decide +kernel
  obtain ⟨s, hs, heq⟩ := Option.map_eq_some_iff.mp (hrun c hc)
  exact ⟨s, goodRuns_of_foldlM hs, congrArg Prod.fst heq, congrArg Prod.snd heq⟩

/-- A file of one block and one byte. -/
def longFile : List UInt8 := List.replicate (bsz + 1) 97

theorem twoBlocks_ends : ∃ s : State, GoodRuns longFile init (twoBlocks 1) s ∧ s.pc = .exited .ok := by
  have hrun : ((twoBlocks 1).foldlM (goodStep longFile) init).map (fun s => s.pc) = some (.exited .ok) := by
    decide +kernel
  obtain ⟨s, hs, hpc⟩ := Option.map_eq_some_iff.mp hrun
  exact ⟨s, goodRuns_of_foldlM hs, hpc⟩

/-- The output of reads that all return what there is. -/
theorem full_output {tr : List Event} (h : FullRuns inp True init tr s) (hexit : s.pc = .exited .ok) :
    s.out = rot13 inp := by
  have hinv := inv_runs h
  obtain ⟨hnum, hoff⟩ := hinv.ended (.inr hexit)
  obtain ⟨m, hout, _, _, hall⟩ := hinv.out_eq hnum hoff
  rw [hout, hall trivial, ← length_rot13, List.take_length]

/-- **The output.** However the requests are finished, when `main` calls `exit(0)` the output file is the
    translated input, but for less than a block at its end; nothing is missing when every read returned all it
    could. -/
theorem exit_ok_output {tr : List Event} (h : FullRuns inp full init tr s) (hexit : s.pc = .exited .ok) :
    ∃ m, s.out = (rot13 inp).take m ∧ m ≤ inp.length ∧ inp.length < m + bsz ∧ (full → s.out = rot13 inp) := by
  have hinv := inv_runs h
  obtain ⟨hnum, hoff⟩ := hinv.ended (.inr hexit)
  obtain ⟨m, hout, hle, hlt, hall⟩ := hinv.out_eq hnum hoff
  refine ⟨m, hout, hle, hlt, fun hf => ?_⟩
  rw [hout, hall hf, ← length_rot13, List.take_length]

theorem exit_ok_output_example : ∃ s : State, s.pc = .exited .ok ∧
    ∃ m, s.out = (rot13 longFile).take m ∧ m ≤ longFile.length ∧ longFile.length < m + bsz ∧
      (True → s.out = rot13 longFile) := by
  obtain ⟨s, hruns, hpc⟩ := twoBlocks_ends
  exact ⟨s, hpc, exit_ok_output hruns.readsAll hpc⟩

end Rot13
