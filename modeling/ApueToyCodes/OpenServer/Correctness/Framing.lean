import ApueToyCodes.Lib.Framing
import ApueToyCodes.OpenServer.Correctness.Descriptors
import ApueToyCodes.OpenServer.Correctness.History
import ApueToyCodes.OpenServer.Correctness.Reply

/-!
# `OpenServer.Correctness.Framing` — one reply per request, and the stream splits

With `write`, `malloc` and `sendmsg` succeeding in full, a turn of the server puts one `Frame` on the
socket, text without NUL and a trailer, whatever the request holds and whichever way `handler_request`
leaves. `serve_frame` is the step: it keeps `errmsg` a text that fits its array, which is all that a turn
inherits from the ones before. Over a run the frames are one for each request, and the stream is the stream
of no other frames.
-/

namespace OpenServer
open CStr Framing

/-! ## Frames -/

/-- A reply on the stream: text and status byte. -/
@[ext] structure Frame where
  text    : List UInt8
  status  : UInt8
  no_nul  : 0 ∉ text

def Frame.bytes (f : Frame) : List UInt8 := f.text ++ [0, f.status]

/-- The NUL of the trailer ends the text, and the status byte the frame. -/
theorem frame_delimits : Delimits Frame.bytes where
  ne_nil f := by simp [Frame.bytes]
  append := by
    intro f g r r' h
    have h' : f.text ++ 0 :: (f.status :: r) = g.text ++ 0 :: (g.status :: r') := by
      simpa [Frame.bytes] using h
    obtain ⟨ht, hr⟩ := append_cons_inj f.no_nul g.no_nul h'
    obtain ⟨hs, hr⟩ := List.cons.inj hr
    exact ⟨Frame.ext ht hs, hr⟩

/-- A C string that fits in `errmsg`. -/
def IsText (t : List UInt8) : Prop := 0 ∉ t ∧ t.length < linesize

/-- `write`, `malloc` and `sendmsg` succeed in full. -/
structure Outcomes.Full (o : Outcomes) : Prop where
  write   : ∀ t, IsText t → o.written t
  malloc  : o.malloc = true
  sendmsg : o.sent

section
variable (H : Host) (o : Outcomes)

/-- The descriptor the `open` of `handler_request` returns; `none` where it fails or is not reached. -/
def openedFd (nread : Nat) (s : Server) : Option Nat :=
  if s.buf.getD (nread - 1) 0 ≠ 0 then none
  else
    let r := bufArgs (cliArgs H o) (debugOpen H o .ooooo s)
    if r.1 < 0 then none
    else if o.requested then some (H.pick (debugOpen H o .aaa r.2).fds) else none

end

/-- The packets of a reply: the text, and behind it the trailer, with the descriptor if there is one. -/
structure Framed (ps : List Packet) (f : Frame) (fd : Option Nat) : Prop where
  packets : ∃ front, ps = front ++ [⟨[0, f.status], fd⟩] ∧ front.flatMap Packet.bytes = f.text ∧
    ∀ p ∈ front, p.rights = none
  opened  : fd ≠ none → f.status = 0
  refused : fd = none → 1 ≤ f.status.toNat ∧ f.status.toNat ≤ 255

theorem Framed.stream {ps : List Packet} {f : Frame} {fd : Option Nat} (h : Framed ps f fd) :
    ps.flatMap Packet.bytes = f.bytes := by
  obtain ⟨front, rfl, ht, _⟩ := h.packets
  rw [List.flatMap_append, ht]
  rfl

/-! ## `errmsg` -/

theorem snprintf_isText (t : List UInt8) : IsText (snprintf t) := by
  unfold snprintf
  constructor
  · intro h0
    have := List.mem_takeWhile_imp (List.mem_of_mem_take h0)
    exact absurd this (by decide)
  · have := List.length_take_le (linesize - 2) (t.takeWhile (· != 0))
    simp only [linesize] at *
    omega

theorem usage_isText : IsText usage := ⟨by decide, by decide⟩

variable {H : Host} {o : Outcomes} {s : Server}

/-- `cli_args` writes the usage text or none. -/
theorem cliArgs_errmsg (argc : Nat) (argv : List (Option Nat)) (h : IsText s.errmsg) :
    IsText (cliArgs H o argc argv s).2.errmsg := by
  unfold cliArgs
  split
  · exact usage_isText
  · simpa using h

/-- `buf_args` leaves the writing to `cli_args`. -/
theorem bufArgs_errmsg (h : IsText s.errmsg) : IsText (bufArgs (cliArgs H o) s).2.errmsg := by
  unfold bufArgs
  split
  · exact h
  · split
    · exact h
    · exact cliArgs_errmsg _ _ h

theorem sendFd_nat_errmsg (fd : Nat) : (sendFd H o fd s).2.1.errmsg = s.errmsg := by
  by_cases h : s.cmptr = true ∨ o.malloc = true
  · rw [sendFd_nat fd h]
    exact (sendTrailer_errmsg rfl _ _).trans (debugOpen_errmsg _ _)
  · rw [sendFd_nat_none fd h]
    exact debugOpen_errmsg _ _

/-! ## A turn of the server -/

/-- A refusal is a frame with the text in `errmsg`. -/
theorem refuse_framed (ho : o.Full) (h : IsText s.errmsg) :
    ∃ f : Frame, f.text = s.errmsg ∧ Framed (refuse H o s).2 f none := by
  have hw := ho.write _ h
  obtain ⟨htext, hrights⟩ := writePackets_written hw
  have hstatus : 1 ≤ (statusByte (-1)).toNat ∧ (statusByte (-1)).toNat ≤ 255 := by decide
  refine ⟨⟨s.errmsg, statusByte (-1), h.1⟩, rfl, ⟨writePackets o s.errmsg, ?_, htext, hrights⟩,
    fun hne => absurd rfl hne, fun _ => hstatus⟩
  rw [refuse_packets]
  unfold refusal
  rw [if_pos hw, sendmsgPackets_sent rfl none ho.sendmsg]

/-- An opened file is a frame without text, with the descriptor. -/
theorem sendFd_framed (ho : o.Full) (fd : Nat) :
    ∃ f : Frame, f.text = [] ∧ Framed (sendFd H o fd s).2.2 f (some fd) ∧ ¬ (sendFd H o fd s).1 < 0 := by
  have hok : ¬ (sendFd H o fd s).1 < 0 := by
    rw [sendFd_nat_fails]
    exact not_not.mpr ⟨Or.inr ho.malloc, ho.sendmsg⟩
  refine ⟨⟨[], 0, by simp⟩, rfl, ⟨⟨[], ?_, rfl, by simp⟩, fun _ => rfl, fun h => absurd h (by simp)⟩, hok⟩
  rw [sendFd_nat fd (Or.inr ho.malloc), sendTrailer_eq rfl, if_pos ho.sendmsg,
    sendmsgPackets_sent rfl _ ho.sendmsg]
  rfl

/-- The reply to a request: its packets are a frame, with the descriptor just opened. -/
def IsReply (H : Host) (s : Server) (call : List UInt8 × Outcomes) (f : Frame) : Prop :=
  Framed (serve H s call).2 f (openedFd H call.2 call.1.length (receive call.1 s))

/-- `handler_request`, whichever way it leaves. -/
theorem handlerRequest_framed (ho : o.Full) (nread : Nat) (h : IsText s.errmsg) :
    ∃ f : Frame, Framed (handlerRequest H o nread s).2 f (openedFd H o nread s) ∧
      IsText (handlerRequest H o nread s).1.errmsg := by
  -- the three ways that end in a refusal
  have hrefuse : ∀ t : Server, IsText t.errmsg →
      ∃ f : Frame, Framed (refuse H o t).2 f none ∧ IsText (refuse H o t).1.errmsg := by
    intro t ht
    obtain ⟨f, _, hf⟩ := refuse_framed (H := H) ho ht
    exact ⟨f, hf, by rw [refuse_errmsg]; exact ht⟩
  unfold handlerRequest openedFd
  by_cases hnul : s.buf.getD (nread - 1) 0 ≠ 0
  · rw [if_pos hnul, if_pos hnul]
    exact hrefuse _ (snprintf_isText _)
  rw [if_neg hnul, if_neg hnul]
  have hbuf : IsText (bufArgs (cliArgs H o) (debugOpen H o .ooooo s)).2.errmsg :=
    bufArgs_errmsg (by rw [debugOpen_errmsg]; exact h)
  set r := bufArgs (cliArgs H o) (debugOpen H o .ooooo s) with hr
  by_cases hargs : r.1 < 0
  · simp only [if_pos hargs]
    exact hrefuse _ hbuf
  simp only [if_neg hargs]
  unfold openRequested
  cases hreq : o.requested with
  | false =>
      simp only [Bool.false_eq_true, if_false]
      exact hrefuse _ (snprintf_isText _)
  | true =>
      simp only [if_true]
      set s₁ := debugOpen H o .aaa r.2 with hs₁
      obtain ⟨f, _, hf, hok⟩ := sendFd_framed (H := H) (s := { s₁ with fds := insert (H.pick s₁.fds) s₁.fds })
        ho (H.pick s₁.fds)
      rw [if_neg hok]
      refine ⟨f, hf, ?_⟩
      show IsText (debugOpen H o .yyyyy _).errmsg
      rw [debugOpen_errmsg, sendFd_nat_errmsg]
      show IsText s₁.errmsg
      rw [hs₁, debugOpen_errmsg]
      exact hbuf

/-- **One turn, one frame.** -/
theorem serve_frame {call : List UInt8 × Outcomes} (ho : call.2.Full) (h : IsText s.errmsg) :
    ∃ f, IsReply H s call f ∧ IsText (serve H s call).1.errmsg := by
  have hrecv : IsText (receive call.1 s).errmsg := h
  exact handlerRequest_framed ho call.1.length hrecv

/-! ## Runs -/

/-- What a run puts on the socket. -/
def output (H : Host) : Server → List (List UInt8 × Outcomes) → List Packet
  | _, []            => []
  | s, call :: calls => (serve H s call).2 ++ output H (serve H s call).1 calls

/-- The frames are the replies to the requests, one for each, in order. -/
inductive Replies (H : Host) : Server → List (List UInt8 × Outcomes) → List Frame → Prop
  | nil {s : Server} : Replies H s [] []
  | cons {s : Server} {call : List UInt8 × Outcomes} {calls : List (List UInt8 × Outcomes)} {f : Frame}
      {frames : List Frame} :
      IsReply H s call f → Replies H (serve H s call).1 calls frames →
      Replies H s (call :: calls) (f :: frames)

theorem Replies.stream {calls : List (List UInt8 × Outcomes)} {frames : List Frame}
    (h : Replies H s calls frames) :
    (output H s calls).flatMap Packet.bytes = frames.flatMap Frame.bytes := by
  induction h with
  | nil => rfl
  | cons hf _ ih => rw [output, List.flatMap_append, ih, hf.stream, List.flatMap_cons]

theorem exists_replies (calls : List (List UInt8 × Outcomes)) :
    ∀ s : Server, IsText s.errmsg → (∀ call ∈ calls, call.2.Full) → ∃ frames, Replies H s calls frames := by
  induction calls with
  | nil => exact fun s _ _ => ⟨[], .nil⟩
  | cons call calls ih =>
      intro s h hfull
      obtain ⟨f, hf, h'⟩ := serve_frame (H := H) (hfull call List.mem_cons_self) h
      obtain ⟨frames, hrest⟩ := ih _ h' fun c hc => hfull c (List.mem_cons_of_mem _ hc)
      exact ⟨f :: frames, .cons hf hrest⟩

/-- **Reply framing.** With the calls of the server succeeding in full, every sequence of requests is
    answered with one frame each, in order, and the stream splits into frames in no other way. -/
theorem reply_framing (H : Host) {s : Server} (hs : Started s) (calls : List (List UInt8 × Outcomes))
    (hfull : ∀ call ∈ calls, call.2.Full) :
    ∃ frames, Replies H s calls frames ∧
      (output H s calls).flatMap Packet.bytes = frames.flatMap Frame.bytes ∧
      ∀ frames' : List Frame,
        (output H s calls).flatMap Packet.bytes = frames'.flatMap Frame.bytes → frames' = frames := by
  have herr : IsText s.errmsg := by
    rw [hs.2.1]
    exact ⟨by simp, by decide⟩
  obtain ⟨frames, hr⟩ := exists_replies (H := H) calls s herr hfull
  refine ⟨frames, hr, hr.stream, ?_⟩
  intro frames' h
  exact frame_delimits.flatMap_injective (h.symm.trans hr.stream)

/-- Two requests on a new server: one refused, one answered with a descriptor. -/
theorem reply_framing_two : ∃ frames, Replies posix started [usageCall, openCall] frames ∧
    frames.length = 2 ∧
    (output posix started [usageCall, openCall]).flatMap Packet.bytes = frames.flatMap Frame.bytes := by
  have hfull : allSucceed.Full := by
    refine ⟨fun t ht => Or.inr ?_, rfl, rfl⟩
    show some (min t.length linesize) = some t.length
    rw [Nat.min_eq_left (Nat.le_of_lt ht.2)]
  have hall : ∀ call ∈ [usageCall, openCall], call.2.Full := by
    intro call hc
    simp only [List.mem_cons, List.not_mem_nil, or_false] at hc
    rcases hc with rfl | rfl
    · exact hfull
    · exact hfull
  obtain ⟨frames, hr, hs, _⟩ := reply_framing posix started_started [usageCall, openCall] hall
  refine ⟨frames, hr, ?_, hs⟩
  cases hr with
  | cons _ hr =>
      cases hr with
      | cons _ hr =>
          cases hr with
          | nil => rfl

end OpenServer
