import ApueToyCodes.FdPassing.MyFd

/-!
# `FdPassing.Correctness.RoundTrip` — no reply survives `my_recv_fd`

The loop of `my_recv_fd` ends where its cursor meets the end of the received bytes. But at the NUL the bound
loses two, and the cursor, one byte before the old bound, is already past the new one: they never meet. A
status of 0 is read a second time as a NUL out of place and the call fails, its descriptor lost; after any
other status the scan runs on behind the received bytes.
-/

namespace FdPassing
open OpenServer (statusByte)

variable {msg : RecvMsg} {text rest stale : List UInt8} {ptr : Nat} {nr status newfd : Int}

/-- **Text** before the bound is passed over, one byte read for each. -/
theorem scan_text (h0 : (0 : UInt8) ∉ text) : ∀ ptr : Nat, (ptr : Int) + text.length < nr →
    scan msg (text ++ rest) ptr nr status newfd
      = ((scan msg rest (ptr + text.length) nr status newfd).1,
        List.range' ptr text.length ++ (scan msg rest (ptr + text.length) nr status newfd).2) := by
  induction text with
  | nil =>
      intro _ _
      rfl
  | cons c text ih =>
      intro ptr hlt
      rw [List.length_cons] at hlt
      have hc : c ≠ 0 := fun h => h0 (h ▸ List.mem_cons_self)
      have hrec := ih (fun h => h0 (List.mem_cons_of_mem _ h)) (ptr + 1) (by omega)
      rw [Nat.add_right_comm, Nat.add_assoc] at hrec
      rw [List.cons_append, scan, if_pos (by omega), if_neg hc, hrec, List.length_cons, List.range'_succ]
      rfl

/-- A NUL out of place. -/
theorem scan_nul (hne : (ptr : Int) ≠ nr) (hlast : ((ptr + 1 : Nat) : Int) ≠ nr - 1) :
    scan msg (0 :: rest) ptr nr status newfd = (.fail, [ptr]) := by
  rw [scan, if_pos hne, if_pos rfl, if_pos hlast]

/-- Where the cursor is not at the bound, the byte at it is read. -/
theorem mem_scan (hne : (ptr : Int) ≠ nr) : ptr ∈ (scan msg rest ptr nr status newfd).2 := by
  cases rest with
  | nil =>
      rw [scan, if_pos hne]
      exact List.mem_cons_self
  | cons c rest =>
      rw [scan, if_pos hne]
      split
      · split
        · exact List.mem_cons_self
        · split
          · exact List.mem_cons_self
          · split
            · split
              · exact List.mem_cons_self
              · exact List.mem_cons_self
            · exact List.mem_cons_self
      · exact List.mem_cons_self

/-- **The trailer of a success**, behind a text of `ptr` bytes: the call fails. -/
theorem scan_success (msg : RecvMsg) (stale : List UInt8) (ptr : Nat) (status newfd : Int) :
    (scan msg (0 :: 0 :: stale) ptr (ptr + 2 : Nat) status newfd).1 = .fail := by
  rw [scan, if_pos (by omega), if_pos rfl, if_neg (by omega), List.head?_cons]
  dsimp only
  rw [if_pos rfl]
  split
  · rfl
  · rw [scan_nul (by omega) (by omega)]

/-- **The trailer of an error**: a byte behind it is read. -/
theorem scan_error {b : UInt8} (hb : b ≠ 0) (msg : RecvMsg) (stale : List UInt8) (ptr : Nat)
    (status newfd : Int) : ptr + 2 ∈ (scan msg (0 :: b :: stale) ptr (ptr + 2 : Nat) status newfd).2 := by
  rw [scan, if_pos (by omega), if_pos rfl, if_neg (by omega), List.head?_cons]
  dsimp only
  rw [if_neg hb]
  apply List.mem_cons_of_mem
  apply List.mem_cons_of_mem
  rw [scan, if_pos (by omega), if_neg hb]
  apply List.mem_cons_of_mem
  exact mem_scan (by omega)

/-! ## Replies -/

/-- The status in a reply: the second byte. -/
def replyStatus (code : Int) : UInt8 := if code < 0 then statusByte code else 0

theorem reply_bytes (code : Int) : (reply code).bytes = [0, replyStatus code] := by
  unfold reply replyStatus
  split <;> rfl

/-- The value a reply stands for: the descriptor received with it, or the status made negative. -/
def replyValue (code fd : Int) : Int := if code < 0 then -(replyStatus code).toNat else fd

theorem statusByte_ne_zero (code : Int) : statusByte code ≠ 0 := by
  unfold statusByte
  dsimp only
  split
  · decide
  · assumption

/-- What `my_send_fd` sends, if it sends, is the reply. -/
theorem mySendFd_reply {mem : Bool} {sendmsg code : Int} {m : SendMsg}
    (h : (mySendFd mem sendmsg code).2 = some m) : m = reply code := by
  unfold mySendFd at h
  split at h
  · contradiction
  · exact (Option.some.inj h).symm

/-! ## my_recv_fd -/

variable {userfunc : List UInt8 → Int} {handed : List UInt8}

/-- A turn that reads behind the received bytes, if the turns after it keep that. -/
theorem recvLoop_turn {left : List (Option RecvMsg)} {buf : List UInt8} {inside : Bool}
    (hkeep : ∀ (buf : List UInt8) (status newfd : Int) (handed : List UInt8),
      (recvLoop userfunc left buf status newfd handed false).inside = false)
    (hread : (inside && (scan msg (msg.bytes ++ buf.drop msg.bytes.length) 0 msg.bytes.length status newfd).2.all
      fun i => i < msg.bytes.length) = false) (hne : msg.bytes.length ≠ 0) :
    (recvLoop userfunc (some msg :: left) buf status newfd handed inside).inside = false := by
  rw [recvLoop, if_neg hne]
  dsimp only
  rw [hread]
  split
  · rfl
  · rfl
  · rename_i nr status newfd _
    generalize (if nr > 0 then _ else _) = text
    split
    · rfl
    · split
      · rfl
      · exact hkeep _ _ _ _

/-- A read behind the received bytes stays one. -/
theorem recvLoop_outside : ∀ (msgs : List (Option RecvMsg)) (buf : List UInt8) (status newfd : Int)
    (handed : List UInt8), (recvLoop userfunc msgs buf status newfd handed false).inside = false := by
  intro msgs
  induction msgs with
  | nil =>
      intros
      rfl
  | cons m msgs ih =>
      intro buf status newfd handed
      cases m with
      | none => rfl
      | some msg =>
          by_cases hempty : msg.bytes.length = 0
          · rw [recvLoop, if_pos hempty]
          · exact recvLoop_turn ih (Bool.false_and _) hempty

/-- **The scan of a received reply**: the text is passed over, then comes the trailer. -/
theorem scan_received {b : UInt8} (h0 : (0 : UInt8) ∉ text) (hm : msg.bytes = text ++ [0, b]) (buf : List UInt8)
    (status newfd : Int) :
    ∃ r, r = scan msg (0 :: b :: buf.drop msg.bytes.length) text.length (text.length + 2 : Nat) status newfd ∧
      scan msg (msg.bytes ++ buf.drop msg.bytes.length) 0 msg.bytes.length status newfd
        = (r.1, List.range' 0 text.length ++ r.2) := by
  have hlen : msg.bytes.length = text.length + 2 := by
    rw [hm, List.length_append]
    rfl
  refine ⟨_, rfl, ?_⟩
  rw [hlen, hm, List.append_assoc, scan_text h0 0 (by omega), Nat.zero_add]
  rfl

/-- **A success is lost**: the call returns -1. -/
theorem recvLoop_success (left : List (Option RecvMsg)) (buf : List UInt8) (inside : Bool)
    (h0 : (0 : UInt8) ∉ text) (hm : msg.bytes = text ++ [0, 0]) :
    (recvLoop userfunc (some msg :: left) buf status newfd handed inside).ending = .returned (-1) := by
  obtain ⟨r, hr, hscan⟩ := scan_received h0 hm buf status newfd
  have hfail : r.1 = .fail := by
    rw [hr]
    exact scan_success msg _ text.length status newfd
  have hne : msg.bytes.length ≠ 0 := by
    rw [hm, List.length_append]
    exact Nat.succ_ne_zero _
  rw [recvLoop, if_neg hne]
  dsimp only
  rw [hscan, hfail]

/-- **An error runs on** behind the received bytes. -/
theorem recvLoop_error {b : UInt8} (left : List (Option RecvMsg)) (buf : List UInt8) (inside : Bool)
    (h0 : (0 : UInt8) ∉ text) (hb : b ≠ 0) (hm : msg.bytes = text ++ [0, b]) :
    (recvLoop userfunc (some msg :: left) buf status newfd handed inside).inside = false := by
  obtain ⟨r, hr, hscan⟩ := scan_received h0 hm buf status newfd
  have hread : text.length + 2 ∈ r.2 := by
    rw [hr]
    exact scan_error hb msg _ text.length status newfd
  have hlen : msg.bytes.length = text.length + 2 := by
    rw [hm, List.length_append]
    rfl
  apply recvLoop_turn (recvLoop_outside left)
  · rw [hscan]
    have hall : ¬ (List.range' 0 text.length ++ r.2).all fun i => i < msg.bytes.length := by
      intro hall
      have hlt := of_decide_eq_true (List.all_eq_true.mp hall _ (List.mem_append_right _ hread))
      omega
    rw [Bool.eq_false_iff.mpr hall, Bool.and_false]
  · omega

/-! ## The round trip -/

/-- `my_recv_fd` decodes a reply behind `text`: it asks for no other message, reads only what was received,
    hands over `text` and returns the value the reply stands for. -/
def Decodes (userfunc : List UInt8 → Int) (mem : Bool) (buf text : List UInt8) (code : Int) (msg : RecvMsg)
    (left : List (Option RecvMsg)) : Prop :=
  myRecvFd userfunc mem buf (some msg :: left) = ⟨.returned (replyValue code msg.data), left, text, true⟩

/-- **No reply is decoded**, neither a success nor an error, with text or without. -/
theorem reply_not_decoded {userfunc : List UInt8 → Int} {memSend mem : Bool} {sendmsg code : Int}
    {m : SendMsg} {text buf : List UInt8} {msg : RecvMsg} {left : List (Option RecvMsg)}
    (hsend : (mySendFd memSend sendmsg code).2 = some m) (h0 : (0 : UInt8) ∉ text)
    (hmsg : msg.bytes = text ++ m.bytes) (hfd : 0 ≤ code → 0 ≤ msg.data) :
    ¬ Decodes userfunc mem buf text code msg left := by
  intro hdec
  unfold Decodes myRecvFd at hdec
  rw [mySendFd_reply hsend, reply_bytes] at hmsg
  cases mem with
  | false =>
      rw [if_pos rfl] at hdec
      have hleft : some msg :: left = left := congrArg Received.left hdec
      exact absurd (congrArg List.length hleft) (Nat.succ_ne_self _)
  | true =>
      rw [if_neg Bool.noConfusion] at hdec
      by_cases hneg : code < 0
      · rw [replyStatus, if_pos hneg] at hmsg
        have hinside : (recvLoop userfunc (some msg :: left) buf (-1) 0 [] true).inside = false :=
          recvLoop_error left buf true h0 (statusByte_ne_zero code) hmsg
        rw [hdec] at hinside
        contradiction
      · rw [replyStatus, if_neg hneg] at hmsg
        have hending : (recvLoop userfunc (some msg :: left) buf (-1) 0 [] true).ending = .returned (-1) :=
          recvLoop_success left buf true h0 hmsg
        rw [hdec, replyValue, if_neg hneg] at hending
        have heq := Ending.returned.inj hending
        have hdata := hfd (Int.not_lt.mp hneg)
        omega

/-- The reply that carries descriptor 5, behind the text "a". -/
theorem reply_not_decoded_five :
    ¬ Decodes (fun s => s.length) true (List.replicate bufferSize 0) [97] 3 ⟨[97, 0, 0], controllen, 5⟩ [] := by
  have hsend : (mySendFd true 2 3).2 = some ⟨[0, 0], some 3⟩ := rfl
  apply reply_not_decoded hsend
  · decide
  · rfl
  · decide

/-- A reply without text that carries descriptor 5: the call returns -1. -/
theorem my_recv_fd_loses_descriptor :
    (mySendFd true 2 3).2 = some ⟨[0, 0], some 3⟩ ∧
    (myRecvFd (fun s => s.length) true (List.replicate bufferSize 0)
      [some ⟨[0, 0], controllen, 5⟩]).ending = .returned (-1) ∧
    ¬ Decodes (fun s => s.length) true (List.replicate bufferSize 0) [] 3 ⟨[0, 0], controllen, 5⟩ [] := by
  have hending : (myRecvFd (fun s => s.length) true (List.replicate bufferSize 0)
      [some ⟨[0, 0], controllen, 5⟩]).ending = .returned (-1) := by
    have hnil : (0 : UInt8) ∉ [] := List.not_mem_nil
    show (recvLoop _ _ _ _ _ _ _).ending = _
    exact recvLoop_success [] _ true hnil rfl
  refine ⟨rfl, hending, fun hdec => ?_⟩
  unfold Decodes at hdec
  rw [hdec] at hending
  exact absurd hending (by decide)

end FdPassing
