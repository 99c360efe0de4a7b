import ApueToyCodes.Rot13.Aio

/-!
# `Rot13.Correctness.Moves` — what one step can do

`step_cases` says once what a step of the program or of the system does (`Move`): a buffer handed on, a buffer
passed by, a call behind the walk, the program given up, a request over.
-/

namespace Rot13

open RecordFile Pieces

/-- The buffer can be moved on. -/
def Ready (inp : List UInt8) (s : State) (i : Fin nbuf) : Prop :=
  (s.bufs i).op = .unused ∧ s.off < inp.length ∨ (s.bufs i).op ≠ .unused ∧ (s.bufs i).req.isOver

instance (inp : List UInt8) (s : State) (i : Fin nbuf) : Decidable (Ready inp s i) :=
  inferInstanceAs (Decidable (_ ∨ _))

variable (inp : List UInt8) (s : State) (i : Fin nbuf)

/-- The buffer with a read begun. -/
def Buf.reading (b : Buf) (off size : Nat) : Buf :=
  { b with op := .readPending, fildes := .ifd, offset := off, last := b.last || decide (off + bsz ≥ size),
           nbytes := bsz, req := .reading }

/-- The buffer translated, with a write begun. -/
def Buf.writing (b : Buf) (n : Nat) : Buf :=
  { b with data := translateFirst n b.data, op := .writePending, fildes := .ofd, nbytes := n, req := .writing }

def State.submitted : State :=
  { s.setBuf i ((s.bufs i).reading s.off inp.length) with
    off := s.off + bsz, aiolist := Function.update s.aiolist i true, numop := s.numop + 1 }

def State.released : State :=
  { s.setBuf i { s.bufs i with op := .unused } with
    aiolist := Function.update s.aiolist i false, numop := s.numop - 1 }

/-- A read over, with `ret` bytes. -/
def State.readOver (ret : Nat) : State :=
  s.setBuf i { s.bufs i with
    req := .done 0 ret
    data := pread (s.file inp (s.bufs i).fildes) (s.bufs i).offset ret ++ (s.bufs i).data.drop ret }

/-- A write over, with `ret` bytes. -/
def State.writeOver (ret : Nat) : State :=
  { s.setBuf i { s.bufs i with req := .done 0 ret } with
    out := fill s.out (s.bufs i).offset ((s.bufs i).data.take ret) }

/-- Why `main` gives up: a call fails, or a request ended in an error or with too few bytes. -/
inductive Cause (s : State) : Event → Prop
  | call : Cause s (.main false)
  | read (i : Fin nbuf) (hop : (s.bufs i).op = .readPending) (err ret : Int)
      (hreq : (s.bufs i).req = .done err ret) (h : err ≠ 0 ∨ ret < 0 ∨ ret ≠ bsz ∧ (s.bufs i).last = false)
      (ok : Bool) : Cause s (.main ok)
  | write (i : Fin nbuf) (hop : (s.bufs i).op = .writePending) (err ret : Int)
      (hreq : (s.bufs i).req = .done err ret) (h : err ≠ 0 ∨ ret < 0 ∨ ret ≠ (s.bufs i).nbytes)
      (ok : Bool) : Cause s (.main ok)

/-- What a step can do. -/
inductive Move (inp : List UInt8) (s : State) : Event → State → Prop
  /-- the buffer of the walk stays as it is -/
  | pass (i : Fin nbuf) (hpc : s.pc = .scan i) (h : ¬ Ready inp s i) (ok : Bool) : Move inp s (.main ok) (s.next i)
  | submit (i : Fin nbuf) (hpc : s.pc = .scan i) (hop : (s.bufs i).op = .unused) (hoff : s.off < inp.length)
      (ok : Bool) : Move inp s (.main ok) ((s.submitted inp i).next i)
  | write (i : Fin nbuf) (hpc : s.pc = .scan i) (hop : (s.bufs i).op = .readPending) (n : Nat)
      (hreq : (s.bufs i).req = .done 0 n) (hn : n = bsz ∨ (s.bufs i).last = true) (ok : Bool) :
      Move inp s (.main ok) ((s.setBuf i ((s.bufs i).writing n)).next i)
  | release (i : Fin nbuf) (hpc : s.pc = .scan i) (hop : (s.bufs i).op = .writePending)
      (hreq : (s.bufs i).req = .done 0 (s.bufs i).nbytes) (ok : Bool) :
      Move inp s (.main ok) ((s.released i).next i)
  | again (hpc : s.pc = .check) (hnum : s.numop = 0) (hoff : s.off < inp.length) (ok : Bool) :
      Move inp s (.main ok) (s.goto (.scan 0))
  | leave (hpc : s.pc = .check) (hnum : s.numop = 0) (hoff : inp.length ≤ s.off) (ok : Bool) :
      Move inp s (.main ok) (s.goto .sync)
  | suspend (hpc : s.pc = .check) (hnum : s.numop ≠ 0) (ok : Bool) : Move inp s (.main ok) (s.goto .suspended)
  | wake (hpc : s.pc = .suspended) (h : ∃ i, s.aiolist i = true ∧ (s.bufs i).req.isOver = true) (ok : Bool) :
      Move inp s (.main ok) (s.goto (.scan 0))
  | exit (hpc : s.pc = .sync) (ok : Bool) : Move inp s (.main ok) (s.goto (.exited .ok))
  | fail (hpc : ∀ e, s.pc ≠ .exited e) (x : Exit) (hx : x ≠ .ok) (e : Event) (hc : Cause s e) :
      Move inp s e (s.goto (.exited x))
  | ioError (hpc : ∀ e, s.pc ≠ .exited e) (i : Fin nbuf)
      (hreq : (s.bufs i).req = .reading ∨ (s.bufs i).req = .writing) (err ret : Int) (herr : err ≠ 0 ∨ ret < 0) :
      Move inp s (.complete i err ret) (s.setBuf i { s.bufs i with req := .done err ret })
  | readOver (hpc : ∀ e, s.pc ≠ .exited e) (i : Fin nbuf) (hreq : (s.bufs i).req = .reading) (ret : Nat)
      (hret : ReadReturns (s.file inp (s.bufs i).fildes) (s.bufs i).offset (s.bufs i).nbytes ret) :
      Move inp s (.complete i 0 ret) (s.readOver inp i ret)
  | writeOver (hpc : ∀ e, s.pc ≠ .exited e) (i : Fin nbuf) (hreq : (s.bufs i).req = .writing)
      (hofd : (s.bufs i).fildes = .ofd) (ret : Nat) (hret : WriteReturns (s.bufs i).nbytes ret) :
      Move inp s (.complete i 0 ret) (s.writeOver i ret)

variable {inp s i} {s' : State}

theorem scan_cases {ok : Bool} (hpc : s.pc = .scan i) : Move inp s (.main ok) (scan inp s i ok) := by
  have hrun : ∀ e, s.pc ≠ .exited e := fun e => by simp [hpc]
  simp only [scan]
  split
  · rename_i hop
    unfold scanUnused
    split
    · split
      · exact .submit i hpc hop ‹_› _
      · obtain rfl : ok = false := by simpa using ‹¬ ok = true›
        exact .fail hrun _ (by simp) _ .call
    · exact .pass i hpc (by simp [Ready, *]) _
  · rename_i err n hop hreq
    have hcause : (err ≠ 0 ∨ n < 0 ∨ n ≠ bsz ∧ (s.bufs i).last = false) → Cause s (.main ok) :=
      fun h => .read i hop err n hreq h ok
    unfold scanRead
    split_ifs with h1 h2 h3 h4 h5
    · exact .fail hrun _ (by simp) _ (hcause (.inl (by omega)))
    · exact .fail hrun _ (by simp) _ (hcause (.inl h2))
    · exact .fail hrun _ (by simp) _ (hcause (.inr (.inl h3)))
    · exact .fail hrun _ (by simp) _ (hcause (.inr (.inr h4)))
    · -- `n` bytes, fewer than a block only in the last one
      obtain ⟨m, rfl⟩ := Int.eq_ofNat_of_zero_le (Int.not_lt.mp h3)
      refine .write i hpc hop m (by simpa using (not_not.mp h2) ▸ hreq) ?_ _
      by_cases hm : m = bsz
      · exact .inl hm
      · exact .inr (by simpa using fun hl => h4 ⟨by exact_mod_cast hm, hl⟩)
    · obtain rfl : ok = false := by simpa using h5
      exact .fail hrun _ (by simp) _ .call
  · rename_i err n hop hreq
    have hcause : (err ≠ 0 ∨ n < 0 ∨ n ≠ (s.bufs i).nbytes) → Cause s (.main ok) :=
      fun h => .write i hop err n hreq h ok
    unfold scanWrite
    split_ifs with h1 h2 h3 h4
    · exact .fail hrun _ (by simp) _ (hcause (.inl (by omega)))
    · exact .fail hrun _ (by simp) _ (hcause (.inl h2))
    · exact .fail hrun _ (by simp) _ (hcause (.inr (.inl h3)))
    · exact .fail hrun _ (by simp) _ (hcause (.inr (.inr h4)))
    · exact .release i hpc hop (by rw [hreq, not_not.mp h2, not_not.mp h4]) _
  · rename_i hu hr hw
    refine .pass i hpc ?_ _
    rintro (⟨hop, _⟩ | ⟨hop, hover⟩)
    · exact hu hop
    · cases hreq : (s.bufs i).req with
      | done err ret =>
          cases h : (s.bufs i).op with
          | unused => exact hop h
          | readPending => exact hr err ret h hreq
          | writePending => exact hw err ret h hreq
      | _ => simp [hreq, Request.isOver] at hover

/-- **Every step** is one of these. -/
theorem step_cases {e : Event} (h : step inp s e = some s') : Move inp s e s' := by
  cases e with
  | main ok =>
      simp only [step, mainStep] at h
      split at h
      · obtain rfl := Option.some.inj h
        exact scan_cases ‹_›
      · rename_i hpc
        split_ifs at h with h1 h2 <;> obtain rfl := Option.some.inj h
        · exact .leave hpc h1 h2 _
        · exact .again hpc h1 (by omega) _
        · exact .suspend hpc h1 _
      · rename_i hpc
        split_ifs at h with h1 h2 <;> obtain rfl := Option.some.inj h
        · exact .fail (fun e => by simp [hpc]) _ (by simp) _ (h1 ▸ .call)
        · exact .wake hpc h2 _
      · rename_i hpc
        obtain rfl := Option.some.inj h
        cases ok with
        | true => exact .exit hpc _
        | false => exact .fail (fun e => by simp [hpc]) _ (by simp) _ .call
      · cases h
  | complete i err ret =>
      simp only [step, completeStep] at h
      split at h
      · cases h
      · rename_i hreq hpc
        split_ifs at h with h1 h2 <;> obtain rfl := Option.some.inj h
        · exact .ioError hpc i (.inl hreq) err ret h1
        · obtain ⟨n, rfl⟩ := Int.eq_ofNat_of_zero_le (show 0 ≤ ret by omega)
          obtain rfl : err = 0 := by omega
          exact .readOver hpc i hreq n h2
      · rename_i hreq hpc
        split_ifs at h with h1 h2 <;> obtain rfl := Option.some.inj h
        · exact .ioError hpc i (.inr hreq) err ret h1
        · obtain ⟨n, rfl⟩ := Int.eq_ofNat_of_zero_le (show 0 ≤ ret by omega)
          obtain rfl : err = 0 := by omega
          exact .writeOver hpc i hreq h2.1 n h2.2
      · cases h

end Rot13
