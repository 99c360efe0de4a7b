import ApueToyCodes.OpenServer.Csopen
import ApueToyCodes.OpenServer.Correctness.Split

/-!
# `OpenServer.Correctness.Request` — the request of `csopen` as the server parses it

A request carries a path and flags. The server recovers the path (`judge_request`), and drops the flags:
`buf_args` has overwritten the pointer to them with `NULL`, and `cli_args` sets `oflags` to `O_RDONLY`. So
the round trip holds for the flags 0 only.
-/

namespace OpenServer
open CStr

variable {H : Host} {o : Outcomes} {name : List UInt8} {oflag : Int}

/-- A pathname a request can carry: not empty, no NUL, no separator. -/
def IsName (name : List UInt8) : Prop := name ≠ [] ∧ ∀ c ∈ name, c ≠ 0 ∧ c ∉ white

-- over the bytes of the name, not over all bytes
instance (name : List UInt8) : Decidable (IsName name) :=
  @instDecidableAnd _ _ _ (List.decidableBAll _ name)

theorem isName_clOpen : IsName clOpen := by decide

/-- Decimal digits are neither NUL nor separators. -/
theorem digit_ne {c : Char} (hc : c.isDigit = true) :
    UInt8.ofNat c.toNat ≠ 0 ∧ UInt8.ofNat c.toNat ∉ white := by
  have hb : 48 ≤ c.toNat ∧ c.toNat ≤ 57 := by
    simpa [Char.isDigit, UInt32.le_iff_toNat_le] using hc
  -- ten cases
  have hall : ∀ n ≤ 57, 48 ≤ n → UInt8.ofNat n ≠ 0 ∧ UInt8.ofNat n ∉ white := by decide
  exact hall c.toNat hb.2 hb.1

theorem isName_decimal (h : 0 ≤ oflag) : IsName (decimal oflag) := by
  obtain ⟨n, rfl⟩ := Int.eq_ofNat_of_zero_le h
  refine ⟨?_, fun c hc => ?_⟩
  · change List.map _ _ ≠ []
    exact fun h => Nat.toDigits_ne_nil (List.map_eq_nil_iff.mp h)
  · obtain ⟨a, ha, rfl⟩ := List.mem_map.mp hc
    exact digit_ne (Nat.isDigit_of_mem_toDigits (by decide) (by decide) ha)

/-- The text of the request: its three words. -/
theorem textOf_request (hname : IsName name) (h : 0 ≤ oflag) :
    textOf (request name oflag) = clOpen ++ 32 :: (name ++ 32 :: decimal oflag) := by
  have hd := isName_decimal h
  have hreq : request name oflag = (clOpen ++ 32 :: (name ++ 32 :: decimal oflag)) ++ 0 :: [] := by
    unfold request
    rw [show ascii "open " = clOpen ++ [32] by decide, show ascii " " = [32] by decide]
    simp only [List.append_assoc, List.cons_append, List.nil_append]
  have hzero : (0 : UInt8) ∉ clOpen ++ 32 :: (name ++ 32 :: decimal oflag) := by
    simp only [List.mem_append, List.mem_cons, not_or]
    exact ⟨by decide, by decide, fun hm => (hname.2 0 hm).1 rfl, by decide, fun hm => (hd.2 0 hm).1 rfl⟩
  unfold textOf
  rw [hreq, takeWhile_append_zero hzero]

/-- **The server understands the request**, as one for the path. -/
theorem judge_request (hname : IsName name) (h : 0 ≤ oflag) :
    judge (request name oflag) = .openPath name := by
  have hd := isName_decimal h
  have hlast : (request name oflag).getD ((request name oflag).length - 1) 0 = 0 := by
    unfold request
    rw [← List.append_assoc, ← List.append_assoc, ← List.append_assoc, List.length_append,
      List.length_singleton, Nat.add_sub_cancel, List.getD_eq_getElem?_getD, List.getElem?_concat_length]
    rfl
  have hsep : (32 : UInt8) ∈ white := by decide
  unfold judge
  rw [if_neg (not_not.mpr hlast), textOf_request hname h,
    words_cons isName_clOpen.1 (fun c hc => (isName_clOpen.2 c hc).2) hsep,
    words_cons hname.1 (fun c hc => (hname.2 c hc).2) hsep,
    words_single hd.1 fun c hc => (hd.2 c hc).2]
  have hlead : lead (clOpen ++ 32 :: (name ++ 32 :: decimal oflag)) = [] := rfl
  unfold judgeWords
  rw [hlead]
  exact if_pos rfl

/-- `handler_request` parses the request without error, and goes on to open the file with the global
    `pathname` at `name` and the global `oflags` at `oflag`. -/
def Parsed (H : Host) (o : Outcomes) (s : Server) (req name : List UInt8) (oflag : Int) : Prop :=
  (receive req s).buf.getD (req.length - 1) 0 = 0 ∧
  ∃ s', bufArgs (cliArgs H o) (debugOpen H o .ooooo (receive req s)) = (0, s') ∧
    serve H s (req, o) = openRequested H o s' ∧
    s'.pathname.map (cstr s'.buf) = some name ∧ s'.oflags = oflag

/-- What the parser leaves: the path, and `O_RDONLY`. -/
theorem parsed_iff (s : Server) (hname : IsName name) (h : 0 ≤ oflag) (flags : Int) :
    Parsed H o s (request name oflag) name flags ↔ flags = oRdonly := by
  have hne : request name oflag ≠ [] := by unfold request; simp [ascii]
  have hj := judge_request hname h
  have h0 : (request name oflag).getD ((request name oflag).length - 1) 0 = 0 := by
    unfold judge at hj
    by_contra hc
    rw [if_pos hc] at hj
    exact absurd hj (by simp)
  have hw : judgeWords (textOf (request name oflag)) (words white (textOf (request name oflag)))
      = .openPath name := by
    unfold judge at hj
    rwa [if_neg (not_not.mpr h0)] at hj
  have ht := receive_hasStr hne h0 s
  rw [← debugOpen_buf (H := H) (o := o) .ooooo] at ht
  -- the tokenizer meets the text of the request, so it agrees with the verdict
  obtain ⟨p, buf', hp, heq⟩ : ∃ p buf', HasStr buf' p name ∧
      bufArgs (cliArgs H o) (debugOpen H o .ooooo (receive (request name oflag) s))
        = (0, accepted H o p
            ((debugOpen H o .ooooo (receive (request name oflag) s)).setBuf buf')) := by
    rcases bufArgs_judge (H := H) (o := o) ht with ⟨hj', _⟩ | ⟨hj', _⟩ | ⟨path, p, buf', hj', hp, heq⟩
    · rw [hw] at hj'; exact absurd hj' (by simp)
    · rw [hw] at hj'; exact absurd hj' (by simp)
    · rw [hw, Verdict.openPath.injEq] at hj'
      subst hj'
      exact ⟨p, buf', hp, heq⟩
  have hserve : serve H s (request name oflag, o) = openRequested H o (accepted H o p
      ((debugOpen H o .ooooo (receive (request name oflag) s)).setBuf buf')) := by
    unfold serve handlerRequest
    rw [receive_getD hne, if_neg (not_not.mpr h0), heq]
    exact if_neg (show ¬ (0 : Int) < 0 by decide)
  constructor
  · rintro ⟨_, s', hs', _, _, hflags⟩
    rw [heq, Prod.mk.injEq] at hs'
    rw [← hflags, ← hs'.2, accepted_oflags]
  · rintro rfl
    refine ⟨(receive_getD hne s).trans h0, _, heq, hserve, ?_, accepted_oflags _ _⟩
    rw [accepted_pathname, accepted_buf, setBuf_buf, Option.map_some, hp.cstr]

/-- **The round trip of a request**: for every name and flags of at most eight digits `csopen` writes a
    request, and the server recovers both exactly when the flags are 0. -/
theorem request_round_trip_iff (H : Host) (o : Outcomes) (s : Server) (hname : IsName name) (h : 0 ≤ oflag)
    (hdigits : (decimal oflag).length ≤ 8) :
    ∃ req, csopenRequest name oflag = some req ∧
      (Readable req → (Parsed H o s req name oflag ↔ oflag = 0)) := by
  refine ⟨request name oflag, if_neg ?_, fun _ => parsed_iff s hname h oflag⟩
  rw [List.length_append, List.length_append, show (ascii " ").length = 1 by decide, List.length_singleton]
  omega

/-- The request for `a` with flags 0. -/
theorem request_round_trip_iff_read_only : ∃ req, csopenRequest (ascii "a") 0 = some req ∧
    Parsed posix allSucceed started req (ascii "a") 0 := by
  obtain ⟨req, hreq, hiff⟩ := request_round_trip_iff posix allSucceed started
    (show IsName (ascii "a") by decide) (show (0 : Int) ≤ 0 by decide) (by decide)
  have hr : request (ascii "a") 0 = req := Option.some.inj ((if_neg (by decide)).symm.trans hreq)
  exact ⟨req, hreq, (hiff (hr ▸ ⟨by decide, by decide⟩)).mpr rfl⟩

/-- The request for `a` with flags 1 (`O_WRONLY`) loses the flags. -/
theorem request_flags_lost : csopenRequest (ascii "a") 1 = some (request (ascii "a") 1) ∧
    ¬ Parsed posix allSucceed started (request (ascii "a") 1) (ascii "a") 1 := by
  refine ⟨if_neg (by decide), ?_⟩
  rw [parsed_iff started (by decide) (by decide)]
  decide

end OpenServer
