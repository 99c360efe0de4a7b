import ApueToyCodes.OpenServer.Verdict

/-!
# `OpenServer.Correctness.Send` — what `send_fd` and `send_err` do, case by case

One equation for each way through `send_fd` and `send_err`: the result, the debugging `open`s made, and the
packets put on the socket. The packets depend on the text and the outcomes only.
-/

namespace OpenServer

variable {H : Host} {o : Outcomes}

@[simp] theorem debugOpen_buf (site : Site) (s : Server) : (debugOpen H o site s).buf = s.buf := by
  unfold debugOpen; split <;> rfl

@[simp] theorem debugOpen_errmsg (site : Site) (s : Server) :
    (debugOpen H o site s).errmsg = s.errmsg := by
  unfold debugOpen; split <;> rfl

@[simp] theorem debugOpen_oflags (site : Site) (s : Server) :
    (debugOpen H o site s).oflags = s.oflags := by
  unfold debugOpen; split <;> rfl

@[simp] theorem debugOpen_pathname (site : Site) (s : Server) :
    (debugOpen H o site s).pathname = s.pathname := by
  unfold debugOpen; split <;> rfl

@[simp] theorem debugOpen_cmptr (site : Site) (s : Server) :
    (debugOpen H o site s).cmptr = s.cmptr := by
  unfold debugOpen; split <;> rfl

/-- What `sendmsg` puts on the socket. -/
def sendmsgPackets (o : Outcomes) (trailer : List UInt8) (rights : Option Nat) : List Packet :=
  (o.sendmsg.map (packet trailer rights)).getD []

/-- What `write` puts on the socket. -/
def writePackets (o : Outcomes) (text : List UInt8) : List Packet :=
  (o.write.map (packet text none)).getD []

theorem sendTrailer_eq {t : List UInt8} (ht : t.length = 2) (rights : Option Nat) (s : Server) :
    sendTrailer H o t rights s = if o.sent
      then (0, debugOpen H o .zzzz (debugOpen H o .xxxxx s), sendmsgPackets o t rights)
      else (-1, debugOpen H o .xxxxx s, sendmsgPackets o t rights) := by
  unfold sendTrailer sendmsgPackets
  cases hm : o.sendmsg with
  | none =>
      have hs : ¬ o.sent := by simp [Outcomes.sent, hm]
      rw [if_neg hs]; rfl
  | some k =>
      -- the source compares what `sendmsg` returned with 2
      have hs : o.sent ↔ min k t.length = 2 := by simp [Outcomes.sent, hm, ht, Nat.min_comm]
      by_cases h : min k t.length = 2
      · rw [if_pos (hs.mpr h)]
        exact if_neg (not_not.mpr h)
      · rw [if_neg (mt hs.mp h)]
        exact if_pos h

/-- `send_fd` of an error code. -/
theorem sendFd_neg {e : Int} (he : e < 0) (s : Server) :
    sendFd H o e s = sendTrailer H o [0, statusByte e] none (debugOpen H o .yyyy s) := by
  unfold sendFd
  simp only [if_pos he]

/-- `send_fd` of a descriptor, with a control message to be had. -/
theorem sendFd_nat (fd : Nat) {s : Server} (h : s.cmptr = true ∨ o.malloc = true) :
    sendFd H o fd s = sendTrailer H o [0, 0] (some fd) { debugOpen H o .yyyy s with cmptr := true } := by
  have hc : ¬ (s.cmptr = false ∧ o.malloc = false) := by
    rintro ⟨h1, h2⟩
    rcases h with h | h
    · rw [h1] at h; exact absurd h (by simp)
    · rw [h2] at h; exact absurd h (by simp)
  unfold sendFd
  simp only [if_neg (Int.not_lt.mpr (Int.natCast_nonneg fd)), debugOpen_cmptr, if_neg hc]
  rfl

/-- `send_fd` of a descriptor, without one. -/
theorem sendFd_nat_none (fd : Nat) {s : Server} (h : ¬ (s.cmptr = true ∨ o.malloc = true)) :
    sendFd H o fd s = (-1, debugOpen H o .yyyy s, []) := by
  have hc : s.cmptr = false ∧ o.malloc = false := by
    rw [not_or] at h
    exact ⟨Bool.eq_false_iff.mpr h.1, Bool.eq_false_iff.mpr h.2⟩
  unfold sendFd
  simp only [if_neg (Int.not_lt.mpr (Int.natCast_nonneg fd)), debugOpen_cmptr, if_pos hc]

theorem not_written_iff {msg : List UInt8} :
    (msg.length > 0 ∧ o.write.map (min msg.length) ≠ some msg.length) ↔ ¬ o.written msg := by
  unfold Outcomes.written
  rw [not_or, gt_iff_lt, List.length_pos_iff]

/-- `send_err`: the text, and behind a text sent in full the trailer. -/
theorem sendErr_eq {e : Int} (he : e < 0) (msg : List UInt8) (s : Server) :
    sendErr H o e msg s = if o.written msg
      then (if (sendFd H o e s).1 < 0 then -1 else 0, (sendFd H o e s).2.1,
        writePackets o msg ++ (sendFd H o e s).2.2)
      else (-1, s, writePackets o msg) := by
  unfold sendErr writePackets
  by_cases hw : o.written msg
  · rw [if_pos hw, if_neg (fun h => not_written_iff.mp h hw)]
    simp only [if_neg (Int.not_le.mpr he)]
  · rw [if_neg hw, if_pos (not_written_iff.mpr hw)]

/-- The packets of a refusal with a given text. -/
def refusal (o : Outcomes) (msg : List UInt8) : List Packet :=
  if o.written msg then writePackets o msg ++ sendmsgPackets o [0, statusByte (-1)] none
  else writePackets o msg

/-- **A refusal shows the text in `errmsg`** and nothing else of the server's state. -/
theorem refuse_packets (s : Server) : (refuse H o s).2 = refusal o s.errmsg := by
  unfold refuse refusal
  rw [sendErr_eq (by decide)]
  by_cases hw : o.written s.errmsg
  · rw [if_pos hw, if_pos hw, sendFd_neg (by decide), sendTrailer_eq rfl]
    split <;> rfl
  · rw [if_neg hw, if_neg hw]

end OpenServer
