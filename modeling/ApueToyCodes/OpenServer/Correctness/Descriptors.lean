import Mathlib.Data.Finset.Basic
import ApueToyCodes.OpenServer.Correctness.Split

/-!
# `OpenServer.Correctness.Descriptors` — which requests leave descriptors open

Every debugging `open` that succeeds leaves a descriptor behind, and so does a `send_fd` that fails with the
requested file open. `Grows s s' q` (no descriptor of `s` is closed in `s'`, and none is added exactly when
`q`) composes along the code, so a turn of the server leaves the set of open descriptors alone exactly when
the request is `Quiet`.
-/

namespace OpenServer
open CStr

variable {H : Host} {o : Outcomes} {s s' s'' : Server} {q q' : Prop}

/-! ## Requests that leave nothing open -/

/-- The debugging `open`s of `send_fd` all fail. -/
def QuietSend (o : Outcomes) : Prop :=
  o.debug .yyyy = false ∧ o.debug .xxxxx = false ∧ (o.sent → o.debug .zzzz = false)

/-- `send_err` leaves nothing open: the text is cut short, or the debugging `open`s of `send_fd` fail. -/
def QuietErr (o : Outcomes) (msg : List UInt8) : Prop := o.written msg → QuietSend o

/-- `handler_request` leaves nothing open: every debugging `open` on the way of the request fails, and if
    the requested file is opened, the control message can be had and is sent. -/
def Quiet (H : Host) (s : Server) (call : List UInt8 × Outcomes) : Prop :=
  match judge call.1 with
  | .unterminated => QuietErr call.2 (notTerminated H call.1)
  | .unsplit => call.2.debug .ooooo = false ∧ QuietErr call.2 s.errmsg
  | .usage => call.2.debug .ooooo = false ∧ QuietErr call.2 usage
  | .openPath path =>
    (call.2.debug .ooooo = false ∧ call.2.debug .bbbb = false ∧ call.2.debug .ddddd = false ∧
      call.2.debug .cccc = false ∧ call.2.debug .aaa = false) ∧
    if call.2.requested then
      (s.cmptr = true ∨ call.2.malloc = true) ∧ call.2.sent ∧ QuietSend call.2 ∧ call.2.debug .yyyyy = false
    else call.2.debug .oooooFailed = false ∧ QuietErr call.2 (cannotOpen path)

/-! ## Descriptors along the code -/

/-- No descriptor of `s` is closed in `s'`, and none is added exactly when `q`. -/
def Grows (s s' : Server) (q : Prop) : Prop := s.fds ⊆ s'.fds ∧ (s'.fds = s.fds ↔ q)

theorem Grows.of_eq (h : s'.fds = s.fds) (hq : q) : Grows s s' q :=
  ⟨h ▸ Finset.Subset.refl _, iff_of_true h hq⟩

theorem Grows.trans (h : Grows s s' q) (h' : Grows s' s'' q') : Grows s s'' (q ∧ q') := by
  refine ⟨h.1.trans h'.1, ?_⟩
  rw [← h.2, ← h'.2]
  constructor
  · intro heq
    -- `s'` lies between two equal sets
    have h1 : s'.fds = s.fds := Finset.Subset.antisymm (heq ▸ h'.1) h.1
    exact ⟨h1, heq.trans h1.symm⟩
  · rintro ⟨h1, h2⟩
    exact h2.trans h1

theorem Grows.congr (h : Grows s s' q) (hq : q ↔ q') : Grows s s' q' := ⟨h.1, h.2.trans hq⟩

/-- Closing a descriptor opened before undoes its `open`. -/
theorem Grows.close {fd : Nat} (hfresh : fd ∉ s.fds)
    (h : Grows { s with fds := insert fd s.fds } s' q) :
    Grows s { s' with fds := s'.fds.erase fd } q := by
  have hmem : fd ∈ s'.fds := h.1 (Finset.mem_insert_self fd s.fds)
  refine ⟨fun x hx => ?_, ?_⟩
  · exact Finset.mem_erase.mpr ⟨fun heq => hfresh (heq ▸ hx), h.1 (Finset.mem_insert_of_mem hx)⟩
  rw [← h.2]
  change s'.fds.erase fd = s.fds ↔ s'.fds = insert fd s.fds
  constructor
  · intro heq
    rw [← heq, Finset.insert_erase hmem]
  · intro heq
    rw [heq, Finset.erase_insert hfresh]

theorem debugOpen_grows (site : Site) (s : Server) :
    Grows s (debugOpen H o site s) (o.debug site = false) := by
  unfold debugOpen
  cases hd : o.debug site with
  | false => exact .of_eq rfl rfl
  | true =>
      refine ⟨Finset.subset_insert _ _, iff_of_false (fun heq => H.pick_fresh s.fds ?_) (by simp)⟩
      change insert (H.pick s.fds) s.fds = s.fds at heq
      exact Finset.insert_eq_self.mp heq

theorem sendTrailer_grows {t : List UInt8} (ht : t.length = 2) (rights : Option Nat) (s : Server) :
    Grows s (sendTrailer H o t rights s).2.1
      (o.debug .xxxxx = false ∧ (o.sent → o.debug .zzzz = false)) := by
  rw [sendTrailer_eq ht]
  have hx := debugOpen_grows (H := H) (o := o) .xxxxx s
  by_cases hs : o.sent
  · rw [if_pos hs]
    refine (hx.trans (debugOpen_grows .zzzz _)).congr (and_congr_right fun _ => ?_)
    exact ⟨fun h _ => h, fun h => h hs⟩
  · rw [if_neg hs]
    exact hx.congr ⟨fun h => ⟨h, fun h' => absurd h' hs⟩, And.left⟩

theorem sendFd_neg_grows {e : Int} (he : e < 0) (s : Server) :
    Grows s (sendFd H o e s).2.1 (QuietSend o) := by
  rw [sendFd_neg he]
  exact (debugOpen_grows .yyyy s).trans (sendTrailer_grows rfl none _)

/-- **A refusal** leaves nothing open exactly when `QuietErr` says so. -/
theorem refuse_grows (s : Server) : Grows s (refuse H o s).1 (QuietErr o s.errmsg) := by
  unfold refuse
  rw [sendErr_eq (by decide)]
  by_cases hw : o.written s.errmsg
  · rw [if_pos hw]
    exact (sendFd_neg_grows (by decide) s).congr ⟨fun h _ => h, fun h => h hw⟩
  · rw [if_neg hw]
    exact .of_eq rfl fun h => absurd h hw

/-- `send_fd` of a descriptor. -/
theorem sendFd_nat_grows (fd : Nat) {s : Server} (h : s.cmptr = true ∨ o.malloc = true) :
    Grows s (sendFd H o fd s).2.1 (QuietSend o) := by
  rw [sendFd_nat fd h]
  have hy : Grows s { debugOpen H o .yyyy s with cmptr := true } (o.debug .yyyy = false) :=
    debugOpen_grows .yyyy s
  exact hy.trans (sendTrailer_grows rfl (some fd) _)

/-- `send_fd` fails without a control message, and where `sendmsg` does. -/
theorem sendFd_nat_fails (fd : Nat) (s : Server) :
    (sendFd H o fd s).1 < 0 ↔ ¬ ((s.cmptr = true ∨ o.malloc = true) ∧ o.sent) := by
  by_cases h : s.cmptr = true ∨ o.malloc = true
  · rw [sendFd_nat fd h, sendTrailer_eq rfl, and_iff_right h]
    by_cases hs : o.sent
    · rw [if_pos hs]; simp [hs]
    · rw [if_neg hs]; simp [hs]
  · rw [sendFd_nat_none fd h]
    exact iff_of_true (show (-1 : Int) < 0 by decide) fun hc => h hc.1

/-- `send_fd` closes nothing. -/
theorem sendFd_nat_subset (fd : Nat) (s : Server) : s.fds ⊆ (sendFd H o fd s).2.1.fds := by
  by_cases h : s.cmptr = true ∨ o.malloc = true
  · exact (sendFd_nat_grows fd h).1
  · rw [sendFd_nat_none fd h]
    exact (debugOpen_grows .yyyy s).1

/-- The file is open, and stays open behind the descriptor when `send_fd` fails. -/
theorem opened_grows (hreq : o.requested = true) (s : Server) :
    Grows s (openRequested H o s).1 (o.debug .aaa = false ∧ (s.cmptr = true ∨ o.malloc = true) ∧ o.sent ∧
      QuietSend o ∧ o.debug .yyyyy = false) := by
  refine (debugOpen_grows (H := H) .aaa s).trans ?_
  unfold openRequested
  simp only [hreq, if_true]
  set s₁ := debugOpen H o .aaa s with hs₁
  have hcm : s₁.cmptr = s.cmptr := debugOpen_cmptr _ _
  set fd := H.pick s₁.fds with hfd
  have hfresh : fd ∉ s₁.fds := H.pick_fresh _
  set s₂ : Server := { s₁ with fds := insert fd s₁.fds } with hs₂
  have hfails : (sendFd H o fd s₂).1 < 0 ↔ ¬ ((s.cmptr = true ∨ o.malloc = true) ∧ o.sent) :=
    hcm ▸ sendFd_nat_fails fd s₂
  by_cases hok : (s.cmptr = true ∨ o.malloc = true) ∧ o.sent
  · rw [if_neg (mt hfails.mp (not_not.mpr hok)), and_iff_right hok.1, and_iff_right hok.2]
    have hc : s₂.cmptr = true ∨ o.malloc = true := hcm ▸ hok.1
    exact ((sendFd_nat_grows fd hc).trans (debugOpen_grows .yyyyy _)).close hfresh
  · -- `send_fd` failed: `newfd` is never closed
    rw [if_pos (hfails.mpr hok)]
    have hsub : s₂.fds ⊆ (sendFd H o fd s₂).2.1.fds := sendFd_nat_subset fd s₂
    have hmem : fd ∈ (sendFd H o fd s₂).2.1.fds := hsub (Finset.mem_insert_self _ _)
    refine ⟨fun x hx => hsub (Finset.mem_insert_of_mem hx), iff_of_false ?_ ?_⟩
    · exact fun heq => hfresh (heq ▸ hmem)
    · exact fun h => hok ⟨h.1, h.2.1⟩

/-- The file does not open. -/
theorem notOpened_grows (hreq : o.requested = false) {s : Server} {p : Nat} {path : List UInt8}
    (hp : s.pathname = some p) (hpath : HasStr s.buf p path) :
    Grows s (openRequested H o s).1 (o.debug .aaa = false ∧ o.debug .oooooFailed = false ∧
      QuietErr o (cannotOpen path)) := by
  rw [openRequested_refused hreq hp hpath]
  set s₁ := debugOpen H o .aaa s with hs₁
  have hf : Grows s₁ { debugOpen H o .oooooFailed s₁ with errmsg := cannotOpen path }
      (o.debug .oooooFailed = false) := debugOpen_grows .oooooFailed s₁
  exact (debugOpen_grows .aaa s).trans (hf.trans (refuse_grows _))

theorem accepted_grows (p : Nat) (s : Server) : Grows s (accepted H o p s)
    (o.debug .bbbb = false ∧ o.debug .ddddd = false ∧ o.debug .cccc = false) := by
  have hb : Grows s { debugOpen H o .bbbb s with pathname := some p } (o.debug .bbbb = false) :=
    debugOpen_grows .bbbb s
  set s₁ : Server := { debugOpen H o .bbbb s with pathname := some p } with hs₁
  have hd : Grows s₁ { debugOpen H o .ddddd s₁ with oflags := oRdonly } (o.debug .ddddd = false) :=
    debugOpen_grows .ddddd s₁
  exact hb.trans (hd.trans (debugOpen_grows .cccc _))

/-- **A turn of the server** leaves nothing open exactly when the request is `Quiet`. -/
theorem serve_grows (s : Server) {call : List UInt8 × Outcomes} (hne : call.1 ≠ []) :
    Grows s (serve H s call).1 (Quiet H s call) := by
  obtain ⟨req, o⟩ := call
  have hspec := serve_spec (H := H) (o := o) hne s
  have hset : ∀ buf', Grows s (debugOpen H o .ooooo (s.setBuf buf')) (o.debug .ooooo = false) :=
    fun buf' => debugOpen_grows .ooooo (s.setBuf buf')
  unfold Quiet
  cases hj : judge req with
  | unterminated =>
      rw [hj] at hspec
      obtain ⟨buf', heq⟩ := hspec
      rw [heq]
      exact refuse_grows { s.setBuf buf' with errmsg := notTerminated H req }
  | unsplit =>
      rw [hj] at hspec
      obtain ⟨buf', heq⟩ := hspec
      rw [heq]
      refine ((hset buf').trans (refuse_grows _)).congr ?_
      rw [debugOpen_errmsg]; rfl
  | usage =>
      rw [hj] at hspec
      obtain ⟨buf', heq⟩ := hspec
      rw [heq]
      have hu : Grows s { debugOpen H o .ooooo (s.setBuf buf') with errmsg := usage }
          (o.debug .ooooo = false) := hset buf'
      exact hu.trans (refuse_grows _)
  | openPath path =>
      rw [hj] at hspec
      obtain ⟨p, buf', hp, heq⟩ := hspec
      rw [heq]
      set s₁ := debugOpen H o .ooooo (s.setBuf buf') with hs₁
      have ha := (hset buf').trans (accepted_grows (H := H) (o := o) p s₁)
      cases hreq : o.requested with
      | true =>
          refine (ha.trans (opened_grows hreq _)).congr ?_
          have hcm : (accepted H o p s₁).cmptr = s.cmptr := by
            rw [accepted_cmptr, hs₁, debugOpen_cmptr]; rfl
          rw [hcm]
          simp only [if_true]
          tauto
      | false =>
          have hbuf : HasStr (accepted H o p s₁).buf p path := by
            rw [accepted_buf, hs₁, debugOpen_buf]; exact hp
          refine (ha.trans (notOpened_grows hreq (accepted_pathname p s₁) hbuf)).congr ?_
          simp only [Bool.false_eq_true, if_false]
          tauto

/-! ## Runs -/

/-- **Descriptors over whole runs.** Every request of a run leaves the set of open descriptors as it found
    it if and only if every request of the run is `Quiet`. -/
theorem descriptors_kept_iff (H : Host) (s : Server) (calls : List (List UInt8 × Outcomes))
    (hcalls : ∀ call ∈ calls, Readable call.1) :
    (∀ past call rest, calls = past ++ call :: rest →
      (serve H (serveAll H s past) call).1.fds = (serveAll H s past).fds) ↔
    ∀ past call rest, calls = past ++ call :: rest → Quiet H (serveAll H s past) call := by
  refine forall_congr' fun past => forall_congr' fun call => forall_congr' fun rest =>
    forall_congr' fun heq => ?_
  have hne : call.1 ≠ [] := (hcalls call (by rw [heq]; simp)).1
  exact (serve_grows (serveAll H s past) hne).2

/-- A request that opens a file, with the debugging `open`s failing. -/
theorem descriptors_kept_iff_one_open :
    (serve posix started (ascii "open a 0" ++ [0], { allSucceed with debug := fun _ => false })).1.fds
      = started.fds := by
  set call : List UInt8 × Outcomes := (ascii "open a 0" ++ [0], { allSucceed with debug := fun _ => false })
    with hcall
  have hread : ∀ c ∈ [call], Readable c.1 := by
    intro c hc
    rw [List.mem_singleton.mp hc]
    exact ⟨by decide, by decide⟩
  have hj : judge call.1 = .openPath (ascii "a") := by decide
  have hq : Quiet posix started call := by
    unfold Quiet
    rw [hj]
    exact ⟨⟨rfl, rfl, rfl, rfl, rfl⟩, Or.inr rfl, rfl, ⟨rfl, rfl, fun _ => rfl⟩, rfl⟩
  have hall : ∀ past c rest, [call] = past ++ c :: rest → Quiet posix (serveAll posix started past) c := by
    intro past c rest heq
    cases past with
    | nil =>
        rw [serveAll_nil, ← (List.cons.inj heq).1]
        exact hq
    | cons d past => exact absurd (congrArg List.length heq) (by simp)
  have h := (descriptors_kept_iff posix started [call] hread).mpr hall [] call [] rfl
  rw [serveAll_nil] at h
  exact h

/-- The debugging `open`s leave descriptors behind, and so does a `send_fd` that fails with the file
    open. -/
theorem descriptors_left_open :
    (serve posix started (ascii "open a 0" ++ [0], allSucceed)).1.fds ≠ started.fds ∧
    (serve posix started (ascii "open a 0" ++ [0],
      { allSucceed with debug := fun _ => false, sendmsg := none })).1.fds ≠ started.fds := by
  have hne : ascii "open a 0" ++ [0] ≠ [] := by decide
  have hj : judge (ascii "open a 0" ++ [0]) = .openPath (ascii "a") := by decide
  constructor
  · refine mt (serve_grows started hne).2.mp ?_
    unfold Quiet
    rw [hj]
    exact fun h => absurd h.1.1 (by decide)
  · refine mt (serve_grows started hne).2.mp ?_
    unfold Quiet
    rw [hj]
    exact fun h => absurd (show Outcomes.sent _ from h.2.2.1) (by decide)

end OpenServer
