import ApueToyCodes.OpenServer.Correctness.Send

/-!
# `OpenServer.Correctness.Split` — the tokenizer in the buffer computes the verdict

`bufArgsLoop_spec` follows `strtok` through the buffer: the pointers collected in `argv` point at the words
of the text, each terminated where it stands. With it `serve_spec` reads a whole turn of the server off the
verdict on the request; the stale bytes behind the request do not matter.
-/

namespace OpenServer
open CStr

theorem zero_not_mem_white : (0 : UInt8) ∉ white := by decide

/-- **The loop of `buf_args`** collects pointers to the words of the text at `save`, or gives up when there
    are too many. -/
theorem bufArgsLoop_spec (fuel : Nat) :
    ∀ {buf t : List UInt8} {save : Nat} (argc : Nat) (argv : List (Option Nat)), HasStr buf save t →
      maxargc ≤ fuel + argc → argc < maxargc - 1 →
      (maxargc - 1 ≤ argc + (words white t).length → (bufArgsLoop fuel buf save argc argv).1 = none) ∧
      (argc + (words white t).length < maxargc - 1 → ∃ qs buf',
        bufArgsLoop fuel buf save argc argv
          = (some (argc + (words white t).length, argv ++ qs.map some), buf') ∧
        List.Forall₂ (HasStr buf') qs (words white t) ∧
        ∀ r u, r + u.length ≤ save → HasStr buf r u → HasStr buf' r u) := by
  induction fuel with
  | zero =>
      intro buf t save argc argv _ hfuel hargc
      simp only [maxargc] at hfuel hargc
      omega
  | succ fuel ih =>
      intro buf t save argc argv ht hfuel hargc
      rcases strtok_spec zero_not_mem_white ht with
        ⟨hw, htok⟩ | ⟨q, w, b', p', t', htok, hw, hqw, _, hp't', hq, hle, hfr⟩
      · -- no word left
        rw [bufArgsLoop, htok, hw]
        refine ⟨fun h => absurd h (by simp only [List.length_nil]; omega), fun _ => ?_⟩
        exact ⟨[], buf, by simp, .nil, fun _ _ _ h => h⟩
      · rw [bufArgsLoop, htok, hw, List.length_cons]
        dsimp only
        by_cases hmax : argc + 1 ≥ maxargc - 1
        · rw [if_pos hmax]
          exact ⟨fun _ => rfl, fun h => absurd h (by omega)⟩
        · rw [if_neg hmax]
          obtain ⟨h1, h2⟩ := ih (argc + 1) (argv ++ [some q]) hp't' (by omega) (by omega)
          refine ⟨fun h => h1 (by omega), fun h => ?_⟩
          obtain ⟨qs, buf', heq, hall, hfr'⟩ := h2 (by omega)
          refine ⟨q :: qs, buf', ?_, .cons (hfr' q w hle hqw) hall, fun r u hru hu => ?_⟩
          · rw [heq, Nat.add_assoc, Nat.add_comm 1, List.append_assoc]; rfl
          · exact hfr' r u (by omega) (hfr r u hru hu)

variable {H : Host} {o : Outcomes}

/-- The server with other contents in the buffer of `main`. -/
def Server.setBuf (s : Server) (buf : List UInt8) : Server := { s with buf := buf }

@[simp] theorem setBuf_buf (s : Server) (buf : List UInt8) : (s.setBuf buf).buf = buf := rfl

/-- A debugging `open` and the contents of the buffer have nothing to do with each other. -/
theorem debugOpen_setBuf (site : Site) (s : Server) (buf : List UInt8) :
    debugOpen H o site (s.setBuf buf) = (debugOpen H o site s).setBuf buf := by
  unfold debugOpen Server.setBuf; split <;> rfl

/-- **`buf_args`** on a buffer that starts with the terminated text `t`: too few or too many words, or a
    call of `userfunc` with the start of the buffer, the pointers to the other words, and the last slot lost
    to `NULL`. -/
theorem bufArgs_spec {s : Server} {t : List UInt8} (ht : HasStr s.buf 0 t) :
    ((words white t = [] ∨ maxargc ≤ (words white t).length) ∧
      ∃ buf', ∀ f, bufArgs f s = (-1, s.setBuf buf')) ∨
    ∃ w ws buf' qs, words white t = w :: ws ∧ ws.length + 1 < maxargc ∧
      HasStr buf' 0 (lead t ++ w) ∧ List.Forall₂ (HasStr buf') qs ws ∧
      ∀ f, bufArgs f s
        = f (ws.length + 1) ((some 0 :: qs.map some).set ws.length none) (s.setBuf buf') := by
  rcases strtok_spec zero_not_mem_white ht with
    ⟨hw, htok⟩ | ⟨q, w, b', p', t', htok, hw, hqw, hlead, hp't', hq, hle, _⟩
  · exact Or.inl ⟨Or.inl hw, s.buf, fun f => by unfold bufArgs; rw [htok]; rfl⟩
  obtain ⟨h1, h2⟩ := bufArgsLoop_spec maxargc 0 [some 0] hp't' (Nat.le_refl _) (by decide)
  rw [Nat.zero_add] at h1 h2
  by_cases hmany : maxargc - 1 ≤ (words white t').length
  · have hnone := h1 hmany
    refine Or.inl ⟨Or.inr (by rw [hw, List.length_cons]; simp only [maxargc] at *; omega), ?_⟩
    rcases hl : bufArgsLoop maxargc b' p' 0 [some 0] with ⟨r, buf'⟩
    rw [hl] at hnone
    simp only at hnone
    subst hnone
    refine ⟨buf', ?_⟩
    intro f
    unfold bufArgs
    rw [htok]
    simp only [hl]
    rfl
  · obtain ⟨qs, buf', heq, hall, hfr⟩ := h2 (by omega)
    refine Or.inr ⟨w, words white t', buf', qs, hw, by simp only [maxargc] at *; omega, ?_, hall, ?_⟩
    · refine hfr 0 _ ?_ hlead
      rw [List.length_append]
      unfold lead
      omega
    · intro f
      unfold bufArgs
      rw [htok]
      simp only [heq]
      rfl

/-- What `cli_args` leaves when it takes a request whose path stands at `p`. -/
def accepted (H : Host) (o : Outcomes) (p : Nat) (s : Server) : Server :=
  let s := debugOpen H o .ddddd { debugOpen H o .bbbb s with pathname := some p }
  debugOpen H o .cccc { s with oflags := oRdonly }

/-- **`buf_args` with `cli_args`** computes the verdict on the text of the buffer. -/
theorem bufArgs_judge {s : Server} {t : List UInt8} (ht : HasStr s.buf 0 t) :
    (judgeWords t (words white t) = .unsplit ∧
      ∃ buf', bufArgs (cliArgs H o) s = (-1, s.setBuf buf')) ∨
    (judgeWords t (words white t) = .usage ∧
      ∃ buf', bufArgs (cliArgs H o) s = (-1, { s.setBuf buf' with errmsg := usage })) ∨
    ∃ path p buf', judgeWords t (words white t) = .openPath path ∧ HasStr buf' p path ∧
      bufArgs (cliArgs H o) s = (0, accepted H o p (s.setBuf buf')) := by
  rcases bufArgs_spec ht with ⟨hw, buf', hbuf⟩ | ⟨w, ws, buf', qs, hw, hlt, hlead, hall, heq⟩
  · refine Or.inl ⟨?_, buf', hbuf _⟩
    rcases hw with hw | hw
    · rw [hw]; rfl
    · exact judgeWords_of_long hw
  rw [hw, heq]
  by_cases h3 : ws.length = 2
  · -- three words: `argv` is the start of the buffer, the path, `NULL`
    obtain ⟨path, flags, rfl⟩ := List.length_eq_two.mp h3
    cases hall with
    | @cons p q₁ _ qs' hp hrest =>
        cases hrest with
        | @cons q q₂ _ qs'' hq hnil =>
            cases hnil
            by_cases hopen : lead t ++ w = clOpen
            · refine Or.inr (Or.inr ⟨path, p, buf', if_pos hopen, hp, ?_⟩)
              have hcmp : cstr buf' 0 = clOpen := by rw [hlead.cstr, hopen]
              unfold cliArgs
              rw [if_neg (by simp [hcmp])]
              rfl
            · refine Or.inr (Or.inl ⟨if_neg hopen, buf', ?_⟩)
              have hcmp : cstr buf' 0 ≠ clOpen := by rw [hlead.cstr]; exact hopen
              unfold cliArgs
              rw [if_pos (by simp [hcmp])]
  · refine Or.inr (Or.inl ⟨?_, buf', ?_⟩)
    · exact judgeWords_of_ne_three (List.cons_ne_nil _ _) hlt (by rw [List.length_cons]; omega)
    · unfold cliArgs
      rw [if_pos (Or.inl (by omega))]

/-! ## One turn of the server -/

theorem receive_getD {req : List UInt8} (hne : req ≠ []) (s : Server) :
    (receive req s).buf.getD (req.length - 1) 0 = req.getD (req.length - 1) 0 := by
  have := List.length_pos_iff.mpr hne
  unfold receive
  rw [List.getD_eq_getElem?_getD, List.getD_eq_getElem?_getD, List.getElem?_append_left (by omega)]

/-- The text of a terminated request stands at the start of the buffer. -/
theorem receive_hasStr {req : List UInt8} (hne : req ≠ []) (h0 : req.getD (req.length - 1) 0 = 0)
    (s : Server) : HasStr (receive req s).buf 0 (textOf req) := by
  have hpos := List.length_pos_iff.mpr hne
  have hmem : (0 : UInt8) ∈ req := by
    rw [List.getD_eq_getElem?_getD, List.getElem?_eq_getElem (by omega), Option.getD_some] at h0
    exact h0 ▸ List.getElem_mem (by omega)
  exact hasStr_of_mem_zero _ hmem

/-- **A turn of the server, read off the verdict.** -/
theorem serve_spec {req : List UInt8} (hne : req ≠ []) (s : Server) :
    match judge req with
    | .unterminated => ∃ buf', serve H s (req, o)
        = refuse H o { s.setBuf buf' with errmsg := notTerminated H req }
    | .unsplit => ∃ buf', serve H s (req, o) = refuse H o (debugOpen H o .ooooo (s.setBuf buf'))
    | .usage => ∃ buf', serve H s (req, o)
        = refuse H o { debugOpen H o .ooooo (s.setBuf buf') with errmsg := usage }
    | .openPath path => ∃ p buf', HasStr buf' p path ∧ serve H s (req, o)
        = openRequested H o (accepted H o p (debugOpen H o .ooooo (s.setBuf buf'))) := by
  have hlen : (receive req s).buf.take req.length = req := List.take_left
  unfold judge serve handlerRequest
  rw [receive_getD hne]
  by_cases h0 : req.getD (req.length - 1) 0 = 0
  · rw [if_neg (not_not.mpr h0), if_neg (not_not.mpr h0)]
    have ht := receive_hasStr hne h0 s
    rw [← debugOpen_buf (H := H) (o := o) .ooooo] at ht
    -- the buffer is the only thing `read` and `strtok` changed
    have hset : ∀ buf', (debugOpen H o .ooooo (receive req s)).setBuf buf'
        = debugOpen H o .ooooo (s.setBuf buf') := fun buf' => (debugOpen_setBuf _ _ _).symm
    rcases bufArgs_judge (H := H) (o := o) ht with
      ⟨hj, buf', heq⟩ | ⟨hj, buf', heq⟩ | ⟨path, p, buf', hj, hp, heq⟩
    · rw [hj, heq, hset]
      exact ⟨buf', if_pos (show (-1 : Int) < 0 by decide)⟩
    · rw [hj, heq, hset]
      exact ⟨buf', if_pos (show (-1 : Int) < 0 by decide)⟩
    · rw [hj, heq, hset]
      exact ⟨p, buf', hp, if_neg (show ¬ (0 : Int) < 0 by decide)⟩
  · rw [if_pos h0, if_pos h0]
    exact ⟨(receive req s).buf, by rw [hlen]; rfl⟩

/-- `handler_request` when the file does not open: the path is the one in the buffer. -/
theorem openRequested_refused (hreq : o.requested = false) {s : Server} {p : Nat} {path : List UInt8}
    (hp : s.pathname = some p) (hpath : HasStr s.buf p path) :
    openRequested H o s = refuse H o
      { debugOpen H o .oooooFailed (debugOpen H o .aaa s) with errmsg := cannotOpen path } := by
  unfold openRequested cannotOpen
  simp only [hreq, Bool.false_eq_true, if_false, debugOpen_pathname, debugOpen_buf, hp, Option.map_some,
    Option.getD_some, hpath.cstr]

@[simp] theorem accepted_buf (p : Nat) (s : Server) : (accepted H o p s).buf = s.buf := by
  simp [accepted]

@[simp] theorem accepted_pathname (p : Nat) (s : Server) : (accepted H o p s).pathname = some p := by
  simp [accepted]

@[simp] theorem accepted_oflags (p : Nat) (s : Server) : (accepted H o p s).oflags = oRdonly := by
  simp [accepted]

@[simp] theorem accepted_cmptr (p : Nat) (s : Server) : (accepted H o p s).cmptr = s.cmptr := by
  simp [accepted]

end OpenServer
