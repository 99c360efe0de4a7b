import ApueToyCodes.OpenServer.Correctness.Split

/-!
# `OpenServer.Correctness.History` — which replies depend on earlier requests

The state a turn of the server inherits is `errmsg` and whether the control message is allocated.
`serve_seen` reads the reply off the verdict and these two. `buf_args` gives up without setting `errmsg`, so
a request it gives up on is answered with whatever text an earlier request left; and where `malloc` fails,
an opened file is sent only by a server that sent one before.
-/

namespace OpenServer
open CStr

variable {H : Host} {o : Outcomes} {s : Server}

/-- What the client sees of the packets: the bytes, and whether a descriptor comes with them. -/
def seen (ps : List Packet) : List (List UInt8 × Bool) := ps.map fun p => (p.bytes, p.rights.isSome)

/-- `write` passes no byte on. -/
def Outcomes.writeSilent (o : Outcomes) : Prop := o.write.getD 0 = 0

/-- `sendmsg` passes no byte on. -/
def Outcomes.sendSilent (o : Outcomes) : Prop := o.sendmsg.getD 0 = 0

/-- The reply to a request does not depend on the requests before it. -/
def HistoryFree (call : List UInt8 × Outcomes) : Prop :=
  match judge call.1 with
  | .unsplit => call.2.writeSilent ∧ call.2.sendSilent
  | .openPath _ => call.2.requested = true → call.2.malloc = true ∨ call.2.sendSilent
  | _ => True

/-! ## Packets of silent calls -/

theorem packet_zero (bytes : List UInt8) (rights : Option Nat) : packet bytes rights 0 = [] := by
  unfold packet
  rw [List.take_zero, if_pos rfl]

theorem writePackets_nil (o : Outcomes) : writePackets o [] = [] := by
  unfold writePackets packet
  cases o.write <;> simp

theorem writePackets_silent (h : o.writeSilent) (text : List UInt8) : writePackets o text = [] := by
  unfold Outcomes.writeSilent at h
  unfold writePackets
  cases hw : o.write with
  | none => rfl
  | some k =>
      rw [hw, Option.getD_some] at h
      rw [h]; exact packet_zero _ _

theorem sendmsgPackets_eq_nil {t : List UInt8} (ht : t ≠ []) (rights : Option Nat) :
    sendmsgPackets o t rights = [] ↔ o.sendSilent := by
  unfold sendmsgPackets packet Outcomes.sendSilent
  cases o.sendmsg with
  | none => simp
  | some k => simp [ht, or_comm]

/-- What is seen of a trailer does not depend on the number of the descriptor. -/
theorem seen_sendmsgPackets (t : List UInt8) (fd fd' : Nat) :
    seen (sendmsgPackets o t (some fd)) = seen (sendmsgPackets o t (some fd')) := by
  unfold sendmsgPackets packet seen
  cases o.sendmsg with
  | none => rfl
  | some k =>
      simp only [Option.map_some, Option.getD_some]
      split <;> rfl

/-! ## A reply, read off the verdict -/

/-- What the client sees when the file is opened. -/
theorem opened_seen (hreq : o.requested = true) (s : Server) :
    seen (openRequested H o s).2
      = if s.cmptr = true ∨ o.malloc = true then seen (sendmsgPackets o [0, 0] (some 0)) else [] := by
  unfold openRequested
  simp only [hreq, if_true]
  set s₁ : Server := { debugOpen H o .aaa s with
    fds := insert (H.pick (debugOpen H o .aaa s).fds) (debugOpen H o .aaa s).fds } with hs₁
  set fd := H.pick (debugOpen H o .aaa s).fds with hfd
  have hcm : s₁.cmptr = s.cmptr := debugOpen_cmptr _ _
  have hpk : (sendFd H o fd s₁).2.2
      = if s.cmptr = true ∨ o.malloc = true then sendmsgPackets o [0, 0] (some fd) else [] := by
    by_cases hc : s.cmptr = true ∨ o.malloc = true
    · have hc₁ : s₁.cmptr = true ∨ o.malloc = true := hcm ▸ hc
      rw [if_pos hc, sendFd_nat fd hc₁, sendTrailer_eq rfl]
      split <;> rfl
    · have hc₁ : ¬ (s₁.cmptr = true ∨ o.malloc = true) := hcm ▸ hc
      rw [if_neg hc, sendFd_nat_none fd hc₁]
  -- both ways out of `handler_request` have sent the same
  have hboth : ∀ c : Prop, ∀ _ : Decidable c, ∀ t : Server,
      (if c then (sendFd H o fd s₁).2 else (t, (sendFd H o fd s₁).2.2)).2 = (sendFd H o fd s₁).2.2 := by
    intro c _ t
    split <;> rfl
  rw [hboth, hpk]
  split
  · exact seen_sendmsgPackets _ _ _
  · rfl

/-- **A reply depends on the request, the outcomes, `errmsg` and the control message** only. -/
theorem serve_seen {req : List UInt8} (hne : req ≠ []) (s : Server) :
    seen (serve H s (req, o)).2 = match judge req with
      | .unterminated => seen (refusal o (notTerminated H req))
      | .unsplit => seen (refusal o s.errmsg)
      | .usage => seen (refusal o usage)
      | .openPath path =>
        if o.requested then
          if s.cmptr = true ∨ o.malloc = true then seen (sendmsgPackets o [0, 0] (some 0)) else []
        else seen (refusal o (cannotOpen path)) := by
  have hspec := serve_spec (H := H) (o := o) hne s
  cases hj : judge req with
  | unterminated =>
      rw [hj] at hspec
      obtain ⟨buf', heq⟩ := hspec
      rw [heq, refuse_packets]
  | unsplit =>
      rw [hj] at hspec
      obtain ⟨buf', heq⟩ := hspec
      rw [heq, refuse_packets, debugOpen_errmsg]
      rfl
  | usage =>
      rw [hj] at hspec
      obtain ⟨buf', heq⟩ := hspec
      rw [heq, refuse_packets]
  | openPath path =>
      rw [hj] at hspec
      obtain ⟨p, buf', hp, heq⟩ := hspec
      rw [heq]
      cases hreq : o.requested with
      | true =>
          rw [opened_seen hreq, accepted_cmptr, debugOpen_cmptr]
          rfl
      | false =>
          have hbuf : HasStr (accepted H o p (debugOpen H o .ooooo (s.setBuf buf'))).buf p path := by
            rw [accepted_buf, debugOpen_buf]; exact hp
          rw [openRequested_refused hreq (accepted_pathname _ _) hbuf, refuse_packets]
          rfl

/-! ## Replies that do not depend on the state -/

theorem serve_seen_of_historyFree {call : List UInt8 × Outcomes} (hne : call.1 ≠ [])
    (hfree : HistoryFree call) (s s' : Server) : seen (serve H s call).2 = seen (serve H s' call).2 := by
  obtain ⟨req, o⟩ := call
  rw [serve_seen hne s, serve_seen hne s']
  unfold HistoryFree at hfree
  cases hj : judge req with
  | unterminated => rfl
  | usage => rfl
  | unsplit =>
      rw [hj] at hfree
      obtain ⟨hw, hs⟩ := hfree
      have hnone : ∀ msg, refusal o msg = [] := by
        intro msg
        unfold refusal
        rw [writePackets_silent hw, (sendmsgPackets_eq_nil (by simp) none).mpr hs]
        split <;> rfl
      dsimp only
      rw [hnone, hnone]
  | openPath path =>
      rw [hj] at hfree
      dsimp only at hfree ⊢
      cases hreq : o.requested with
      | false => rfl
      | true =>
          rcases hfree hreq with hm | hs
          · rw [if_pos rfl, if_pos rfl, if_pos (Or.inr hm), if_pos (Or.inr hm)]
          · have hnil : seen (sendmsgPackets o [0, 0] (some 0)) = [] := by
              rw [(sendmsgPackets_eq_nil (by simp) _).mpr hs]; rfl
            rw [hnil, ite_self, ite_self]

/-! ## What earlier requests leave behind -/

theorem sendTrailer_cmptr {t : List UInt8} (ht : t.length = 2) (rights : Option Nat) (s : Server) :
    (sendTrailer H o t rights s).2.1.cmptr = s.cmptr := by
  rw [sendTrailer_eq ht]
  split <;> simp

theorem sendTrailer_errmsg {t : List UInt8} (ht : t.length = 2) (rights : Option Nat) (s : Server) :
    (sendTrailer H o t rights s).2.1.errmsg = s.errmsg := by
  rw [sendTrailer_eq ht]
  split <;> simp

/-- A refusal leaves its text in `errmsg`. -/
theorem refuse_errmsg (s : Server) : (refuse H o s).1.errmsg = s.errmsg := by
  unfold refuse
  rw [sendErr_eq (by decide)]
  split
  · rw [sendFd_neg (by decide)]
    exact (sendTrailer_errmsg rfl _ _).trans (debugOpen_errmsg _ _)
  · rfl

/-- After a request `cli_args` refused, `errmsg` holds the usage text. -/
theorem serve_usage_errmsg {call : List UInt8 × Outcomes} (hne : call.1 ≠ []) (hj : judge call.1 = .usage)
    (s : Server) : (serve H s call).1.errmsg = usage := by
  obtain ⟨req, o⟩ := call
  have hspec := serve_spec (H := H) (o := o) hne s
  rw [hj] at hspec
  obtain ⟨buf', heq⟩ := hspec
  rw [heq, refuse_errmsg]

/-- After a file was sent, the control message is allocated. -/
theorem serve_open_cmptr {call : List UInt8 × Outcomes} {path : List UInt8} (hne : call.1 ≠ [])
    (hj : judge call.1 = .openPath path) (hreq : call.2.requested = true) (hm : call.2.malloc = true)
    (s : Server) : (serve H s call).1.cmptr = true := by
  obtain ⟨req, o⟩ := call
  dsimp only at hne hj hreq hm
  have hspec := serve_spec (H := H) (o := o) hne s
  rw [hj] at hspec
  obtain ⟨p, buf', _, heq⟩ := hspec
  rw [heq]
  unfold openRequested
  simp only [hreq, if_true]
  rw [sendFd_nat _ (Or.inr hm)]
  split
  · exact sendTrailer_cmptr rfl _ _
  · exact (debugOpen_cmptr _ _).trans (sendTrailer_cmptr rfl _ _)

/-- The text of a refusal shows. -/
theorem seen_refusal_head {msg : List UInt8} {c : UInt8} {rest : List UInt8} (hmsg : msg = c :: rest)
    (hw : ¬ o.writeSilent) : ∃ bytes tail, seen (refusal o msg) = (c :: bytes, false) :: tail := by
  unfold Outcomes.writeSilent at hw
  obtain ⟨k, hk⟩ : ∃ k, o.write = some (k + 1) := by
    cases hw' : o.write with
    | none => rw [hw'] at hw; exact absurd rfl hw
    | some k =>
        cases k with
        | zero => rw [hw'] at hw; exact absurd rfl hw
        | succ k => exact ⟨k, rfl⟩
  have hp : writePackets o msg = [⟨c :: rest.take k, none⟩] := by
    unfold writePackets packet
    rw [hk, hmsg, Option.map_some, Option.getD_some, List.take_succ_cons, if_neg (List.cons_ne_nil _ _)]
  unfold refusal
  rw [hp]
  split
  · exact ⟨_, _, rfl⟩
  · exact ⟨_, _, rfl⟩

/-- With nothing in `errmsg` a refusal starts with the trailer, if it shows at all. -/
theorem seen_refusal_nil : seen (refusal o []) = seen (sendmsgPackets o [0, statusByte (-1)] none) := by
  unfold refusal
  rw [if_pos (show o.written [] from Or.inl rfl), writePackets_nil, List.nil_append]

theorem seen_eq_nil {ps : List Packet} : seen ps = [] ↔ ps = [] := List.map_eq_nil_iff

/-- **A stale text shows** unless neither `write` nor `sendmsg` passes anything on. -/
theorem silent_of_seen_eq {msg : List UInt8} {c : UInt8} {rest : List UInt8} (hmsg : msg = c :: rest)
    (hc : c ≠ 0) (heq : seen (refusal o []) = seen (refusal o msg)) : o.writeSilent ∧ o.sendSilent := by
  rw [seen_refusal_nil] at heq
  by_cases hw : o.writeSilent
  · refine ⟨hw, ?_⟩
    have hlost : ¬ o.written msg := by
      rintro (h | h)
      · rw [hmsg] at h; exact absurd h (List.cons_ne_nil _ _)
      · obtain ⟨k, hk, hmin⟩ := Option.map_eq_some_iff.mp h
        unfold Outcomes.writeSilent at hw
        rw [hk, Option.getD_some] at hw
        rw [hw, hmsg, List.length_cons] at hmin
        omega
    have hnil : refusal o msg = [] := by
      unfold refusal
      rw [if_neg hlost, writePackets_silent hw]
    rw [hnil] at heq
    exact (sendmsgPackets_eq_nil (by simp) none).mp (seen_eq_nil.mp heq)
  · -- the first byte on the socket is `c` on one side and the 0 of the trailer on the other
    exfalso
    obtain ⟨bytes, tail, hshow⟩ := seen_refusal_head hmsg hw
    rw [hshow] at heq
    unfold sendmsgPackets packet seen at heq
    cases hm : o.sendmsg with
    | none => rw [hm] at heq; exact absurd heq (by simp)
    | some k =>
        rw [hm, Option.map_some, Option.getD_some] at heq
        cases k with
        | zero => exact absurd heq (by simp)
        | succ k =>
            rw [List.take_succ_cons, if_neg (List.cons_ne_nil _ _)] at heq
            simp only [List.map_cons, List.cons.injEq, Prod.mk.injEq] at heq
            exact hc heq.1.1.1.symm

/-- A request `cli_args` refuses. -/
def usageCall : List UInt8 × Outcomes := (ascii "x" ++ [0], allSucceed)

/-- A request that opens a file. -/
def openCall : List UInt8 × Outcomes := (ascii "open a 0" ++ [0], allSucceed)

theorem usageCall_readable : Readable usageCall.1 := ⟨by decide, by decide⟩

theorem openCall_readable : Readable openCall.1 := ⟨by decide, by decide⟩

theorem usageCall_judge : judge usageCall.1 = .usage := by decide

theorem openCall_judge : judge openCall.1 = .openPath (ascii "a") := by decide

/-- **Replies and history.** The reply to a request, with given outcomes of its system calls, is the same
    after any two histories exactly when the request is `HistoryFree`. -/
theorem reply_history_free_iff (H : Host) {s : Server} (hs : Started s) {call : List UInt8 × Outcomes}
    (hcall : Readable call.1) :
    (∀ past past' : List (List UInt8 × Outcomes), (∀ c ∈ past ++ past', Readable c.1) →
      seen (serve H (serveAll H s past) call).2 = seen (serve H (serveAll H s past') call).2) ↔
    HistoryFree call := by
  refine ⟨fun hall => ?_, fun hfree past past' _ => serve_seen_of_historyFree hcall.1 hfree _ _⟩
  obtain ⟨req, o⟩ := call
  obtain ⟨_, herr, hcm⟩ := hs
  -- two histories that tell: one leaves a text, the other the control message
  have husage := hall [] [usageCall] (by simpa using usageCall_readable)
  have hopen := hall [] [openCall] (by simpa using openCall_readable)
  rw [serveAll_nil, serveAll_cons, serveAll_nil, serve_seen hcall.1, serve_seen hcall.1] at husage hopen
  unfold HistoryFree
  cases hj : judge req with
  | unterminated => trivial
  | usage => trivial
  | unsplit =>
      rw [hj] at husage
      dsimp only at husage
      have hleft : (serve H s usageCall).1.errmsg = usage :=
        serve_usage_errmsg usageCall_readable.1 usageCall_judge s
      rw [herr, hleft] at husage
      exact silent_of_seen_eq (show usage = 117 :: usage.tail by decide) (by decide) husage
  | openPath path =>
      intro hreq
      rw [hj] at hopen
      dsimp only at hopen hreq ⊢
      have hleft : (serve H s openCall).1.cmptr = true :=
        serve_open_cmptr openCall_readable.1 openCall_judge rfl rfl s
      rw [hreq, if_pos rfl, if_pos rfl, hcm, hleft] at hopen
      by_cases hm : o.malloc = true
      · exact Or.inl hm
      · refine Or.inr ?_
        rw [if_neg (by simpa using hm), if_pos (Or.inl rfl)] at hopen
        exact (sendmsgPackets_eq_nil (by simp) _).mp (seen_eq_nil.mp hopen.symm)

/-- A refused request is answered alike by a new server and by one that has opened a file. -/
theorem reply_history_free_iff_usage :
    seen (serve posix started usageCall).2
      = seen (serve posix (serve posix started openCall).1 usageCall).2 := by
  have hfree : HistoryFree usageCall := by
    unfold HistoryFree
    rw [usageCall_judge]
    trivial
  have h := (reply_history_free_iff posix started_started usageCall_readable).mpr hfree [] [openCall]
    (by simpa using openCall_readable)
  rw [serveAll_nil, serveAll_cons, serveAll_nil] at h
  exact h

/-- A request without a word is answered with the text an earlier request left. -/
theorem reply_shows_earlier_text : Readable [0] ∧
    seen (serve posix started ([0], allSucceed)).2 = [([0, 1], false)] ∧
    seen (serve posix (serve posix started usageCall).1 ([0], allSucceed)).2
      = [(usage, false), ([0, 1], false)] ∧
    seen (serve posix (serve posix started usageCall).1 ([0], allSucceed)).2
      ≠ seen (serve posix started ([0], allSucceed)).2 := by
  have hj : judge [0] = .unsplit := by decide
  have hleft : (serve posix started usageCall).1.errmsg = usage :=
    serve_usage_errmsg usageCall_readable.1 usageCall_judge started
  have hnew : seen (serve posix started ([0], allSucceed)).2 = [([0, 1], false)] := by
    rw [serve_seen (by decide), hj]
    dsimp only
    rw [started_started.2.1]
    decide
  have hold : seen (serve posix (serve posix started usageCall).1 ([0], allSucceed)).2
      = [(usage, false), ([0, 1], false)] := by
    rw [serve_seen (by decide), hj]
    dsimp only
    rw [hleft]
    decide
  refine ⟨⟨by decide, by decide⟩, hnew, hold, ?_⟩
  rw [hnew, hold]
  decide

end OpenServer
