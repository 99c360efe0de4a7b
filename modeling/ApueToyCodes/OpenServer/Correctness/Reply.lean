import ApueToyCodes.OpenServer.Csopen
import ApueToyCodes.OpenServer.Correctness.Send

/-!
# `OpenServer.Correctness.Reply` — the replies of the server as `recv_fd` reads them

Two things keep a reply from coming through. `recv_fd` takes two off the length of a chunk for every byte it
looks at; in a chunk that starts with text it therefore never gets to the trailer (`scan_no_nul`) and hands
over less than the text. And it asks for the credentials of the server, which fill its control buffer
(`recvmsg_passcred`): the descriptor is dropped, and the number returned is the -1 it started with. An error
without text is all that is received as it was sent; the theorem is for every way the stream may be cut.
-/

namespace OpenServer

variable {H : Host} {o : Outcomes} {s : Server}

/-- What the server answers: an error code and a text through `send_err`, or a descriptor through
    `send_fd`. -/
inductive Reply where
  | err (errcode : Int) (msg : List UInt8)
  | descriptor (newfd : Nat)

def Reply.text : Reply → List UInt8
  | .err _ msg    => msg
  | .descriptor _ => []

/-- What the server puts on the socket. -/
def Reply.packets (H : Host) (o : Outcomes) (s : Server) : Reply → List Packet
  | .err errcode msg  => (sendErr H o errcode msg s).2.2
  | .descriptor newfd => (sendFd H o newfd s).2.2

/-- The text and the trailer are passed on in full, and a descriptor gets its control message. -/
def Reply.InFull (o : Outcomes) (s : Server) (r : Reply) : Prop :=
  o.written r.text ∧ o.sent ∧ ((∃ fd, r = .descriptor fd) → s.cmptr = true ∨ o.malloc = true)

/-- The status byte of a reply. -/
def Reply.status : Reply → UInt8
  | .err errcode _ => statusByte (if errcode ≥ 0 then -1 else errcode)
  | .descriptor _  => 0

theorem statusByte_ne_zero (e : Int) : statusByte e ≠ 0 := by
  unfold statusByte
  dsimp only
  split
  · decide
  · assumption

theorem sendmsgPackets_sent {t : List UInt8} (ht : t.length = 2) (rights : Option Nat) (h : o.sent) :
    sendmsgPackets o t rights = [⟨t, rights⟩] := by
  obtain ⟨k, hk, hmin⟩ := Option.map_eq_some_iff.mp h
  have hle : t.length ≤ k := by omega
  have hne : t ≠ [] := by rintro rfl; exact absurd ht (by decide)
  unfold sendmsgPackets packet
  rw [hk, Option.map_some, Option.getD_some, List.take_of_length_le hle, if_neg hne]

theorem writePackets_written {t : List UInt8} (h : o.written t) :
    (writePackets o t).flatMap Packet.bytes = t ∧ ∀ p ∈ writePackets o t, p.rights = none := by
  unfold writePackets packet
  rcases h with rfl | h
  · cases o.write <;> simp
  · obtain ⟨k, hk, hmin⟩ := Option.map_eq_some_iff.mp h
    rw [hk, Option.map_some, Option.getD_some, List.take_of_length_le (by omega)]
    split
    · rename_i ht; rw [ht]; simp
    · simp

/-- **The stream of a reply**: its text and a trailer of two bytes, the descriptor with the trailer. -/
theorem packets_stream {r : Reply} (h : r.InFull o s) :
    (r.packets H o s).flatMap Packet.bytes = r.text ++ [0, r.status] ∧
    ((∃ p ∈ r.packets H o s, p.rights ≠ none) ↔ ∃ fd, r = .descriptor fd) := by
  obtain ⟨hw, hs, hc⟩ := h
  cases r with
  | err e msg =>
      -- `send_err` makes every code negative
      have hneg : (if e ≥ 0 then -1 else e) < 0 := by split <;> omega
      have he : sendErr H o e msg s = sendErr H o (if e ≥ 0 then -1 else e) msg s := by
        unfold sendErr
        rw [if_neg (Int.not_le.mpr hneg)]
      obtain ⟨h1, h2⟩ := writePackets_written hw
      have hpk : Reply.packets H o s (.err e msg)
          = writePackets o msg ++ [⟨[0, statusByte (if e ≥ 0 then -1 else e)], none⟩] := by
        unfold Reply.packets
        dsimp only
        rw [he, sendErr_eq hneg, if_pos (show o.written msg from hw), sendFd_neg hneg, sendTrailer_eq rfl,
          if_pos hs, sendmsgPackets_sent rfl none hs]
      rw [hpk, List.flatMap_append, show (writePackets o msg).flatMap Packet.bytes = msg from h1]
      refine ⟨rfl, iff_of_false ?_ (by simp)⟩
      rintro ⟨p, hp, hr⟩
      rcases List.mem_append.mp hp with hp | hp
      · exact hr (h2 p hp)
      · rw [List.mem_singleton.mp hp] at hr; exact hr rfl
  | descriptor fd =>
      have hpk : Reply.packets H o s (.descriptor fd) = [⟨[0, 0], some fd⟩] := by
        unfold Reply.packets
        dsimp only
        rw [sendFd_nat fd (hc ⟨fd, rfl⟩), sendTrailer_eq rfl, if_pos hs, sendmsgPackets_sent rfl _ hs]
      rw [hpk]
      exact ⟨rfl, iff_of_true ⟨_, List.mem_singleton_self _, by simp⟩ ⟨fd, rfl⟩⟩

/-! ## The scan of a chunk -/

/-- Where no byte the scan looks at is NUL, it ends with nothing found, having taken at least two off the
    length. -/
theorem scan_no_nul (msg : RecvMsg) : ∀ (rest : List UInt8) (ptr nr status newfd : Int),
    nr ≤ ptr + rest.length → (∀ j : Nat, ptr + j < nr - 2 * j → rest[j]? ≠ some 0) →
    ∃ nr', scan msg rest ptr nr status newfd = .done nr' status newfd ∧ nr' ≤ nr ∧
      (ptr < nr → nr' ≤ nr - 2) := by
  intro rest
  induction rest with
  | nil =>
      intro ptr nr status newfd hle _
      have hend : ¬ ptr < nr := by simp only [List.length_nil] at hle; omega
      exact ⟨nr, scan_end hend _ _, Int.le_refl _, fun h => absurd h hend⟩
  | cons c rest ih =>
      intro ptr nr status newfd hle hne
      by_cases hlt : ptr < nr
      · have hc : c ≠ 0 := fun h => hne 0 (by omega) (by rw [h]; rfl)
        obtain ⟨nr', heq, h1, _⟩ := ih (ptr + 1) (nr - 2) status newfd
          (by simp only [List.length_cons] at hle; omega)
          (fun j hj => by
            have := hne (j + 1) (by omega)
            rwa [List.getElem?_cons_succ] at this)
        exact ⟨nr', (scan_text hlt hc _ _).trans heq, by omega, fun _ => h1⟩
      · exact ⟨nr, scan_end hlt _ _, Int.le_refl _, fun h => absurd h hlt⟩

/-- The scan of a bare trailer finds the status, and with status 0 the descriptor passed. -/
theorem scan_trailer (msg : RecvMsg) (b : UInt8) (status newfd : Int) :
    scan msg [0, b] 0 2 status newfd =
      if b = 0 then (if msg.controllen ≠ controllen then .fail else .done 0 0 (passedFd newfd msg.cmsgs))
      else .done 0 b.toNat (-b.toNat) := by
  have hend : ∀ st fd : Int, scan msg [b] (0 + 1) (2 - 2) st fd = .done 0 st fd :=
    fun st fd => scan_end (by decide) st fd
  rw [scan.eq_def, if_pos (by decide)]
  dsimp only
  rw [if_pos rfl, if_neg (by decide), hend, hend]

/-! ## Chunks -/

section
variable {userfunc : List UInt8 → Int}

/-- A chunk in which the scan meets no NUL: part of it is handed over, and the loop goes on. -/
theorem recvLoop_text (huser : ∀ bytes, userfunc bytes = bytes.length) {m : Chunk} (hm : m.bytes ≠ [])
    (hne : ∀ j : Nat, 3 * j < m.bytes.length → m.bytes[j]? ≠ some 0) (left : List (Option Chunk))
    (handed : List UInt8) :
    ∃ h, recvLoop userfunc (some m :: left) (-1) (-1) handed
        = recvLoop userfunc left (-1) (-1) (handed ++ h) ∧
      h.length < m.bytes.length := by
  have hpos : 0 < m.bytes.length := List.length_pos_iff.mpr hm
  set msg : RecvMsg := ⟨m.bytes, controllen, [⟨solSocket, scmCredentials, [m.cred.pid]⟩]⟩ with hmsg
  obtain ⟨nr, heq, _, hnr⟩ := scan_no_nul msg m.bytes 0 m.bytes.length (-1) (-1) (by omega)
    (fun j hj => hne j (by omega))
  have hnr := hnr (by omega)
  set text := if nr > 0 then m.bytes.take nr.toNat else [] with htext
  -- `userfunc` gets at most `nr` bytes, and none when `nr` has dropped below zero
  have hlen : (text.length : Int) = max nr 0 := by
    rw [htext]
    split
    · rw [List.length_take]; omega
    · simp only [List.length_nil]; omega
  refine ⟨text, ?_, by omega⟩
  have hok : ¬ (nr > 0 ∧ userfunc text ≠ nr) := by
    rintro ⟨h1, h2⟩
    exact h2 (by rw [huser, hlen]; omega)
  rw [recvLoop, recvmsg_passcred]
  dsimp only
  rw [if_neg (by omega), ← hmsg, heq]
  dsimp only
  rw [← htext, if_neg hok, if_neg (by decide)]

/-- The chunks before the last are text: together they hand over less than they hold. -/
theorem recvLoop_front (huser : ∀ bytes, userfunc bytes = bytes.length) (front : List Chunk) :
    ∀ (left : List (Option Chunk)) (handed : List UInt8),
      (∀ m ∈ front, m.bytes ≠ [] ∧ 0 ∉ m.bytes) →
      ∃ h, recvLoop userfunc (front.map some ++ left) (-1) (-1) handed
          = recvLoop userfunc left (-1) (-1) (handed ++ h) ∧
        h.length + front.length ≤ (front.flatMap Chunk.bytes).length := by
  induction front with
  | nil => exact fun left handed _ => ⟨[], by simp, by simp⟩
  | cons m front ih =>
      intro left handed hall
      obtain ⟨hm, hzero⟩ := hall m List.mem_cons_self
      have hne : ∀ j : Nat, 3 * j < m.bytes.length → m.bytes[j]? ≠ some 0 :=
        fun j _ h => hzero (List.mem_of_getElem? h)
      obtain ⟨h₁, heq₁, hlt₁⟩ := recvLoop_text huser hm hne (front.map some ++ left) handed
      obtain ⟨h₂, heq₂, hle₂⟩ := ih left (handed ++ h₁) fun c hc => hall c (List.mem_cons_of_mem _ hc)
      refine ⟨h₁ ++ h₂, ?_, ?_⟩
      · rw [List.map_cons, List.cons_append, heq₁, heq₂, List.append_assoc]
      · rw [List.flatMap_cons, List.length_append, List.length_append, List.length_cons]
        omega

/-- A bare trailer ends the loop, with the -1 `newfd` starts with where the status is 0. -/
theorem recvLoop_trailer {m : Chunk} {b : UInt8} (hm : m.bytes = [0, b]) (handed : List UInt8) :
    recvLoop userfunc [some m] (-1) (-1) handed
      = .returned (if b = 0 then -1 else -b.toNat) [] handed := by
  set msg : RecvMsg := ⟨[0, b], controllen, [⟨solSocket, scmCredentials, [m.cred.pid]⟩]⟩ with hmsg
  have hscan : scan msg [0, b] 0 2 (-1) (-1)
      = if b = 0 then .done 0 0 (-1) else .done 0 b.toNat (-b.toNat) := scan_trailer msg b (-1) (-1)
  rw [recvLoop, recvmsg_passcred, hm]
  simp only [List.length_cons, List.length_nil, Nat.reduceAdd, OfNat.ofNat_ne_zero, if_false]
  rw [show ((2 : Nat) : Int) = 2 from rfl, ← hmsg, hscan]
  by_cases hb : b = 0
  · rw [if_pos hb, if_pos hb]
    simp
  · rw [if_neg hb, if_neg hb]
    simp

end

/-! ## The round trip -/

/-- The chunks carry the stream of `packets`: none is empty or longer than the buffer, the last one holds the
    whole trailer, and a descriptor on the socket comes with the trailer, as `d` in the client. -/
structure Carries (packets : List Packet) (d : Int) (front : List Chunk) (last : Chunk) : Prop where
  stream : (front ++ [last]).flatMap Chunk.bytes = packets.flatMap Packet.bytes
  chunks : ∀ m ∈ front ++ [last], m.bytes ≠ [] ∧ m.bytes.length ≤ linesize
  whole  : 2 ≤ last.bytes.length
  rights : (∃ p ∈ packets, p.rights ≠ none) → last.rights = some d ∧ 0 ≤ d

/-- `recv_fd` returned, having read everything and handed the text to `userfunc`, with the descriptor or
    with a negative number. -/
def RoundTrip (r : Reply) (d : Int) : Received → Prop
  | .returned v left handed => left = [] ∧ handed = r.text ∧
      match r with
      | .err _ _      => v < 0
      | .descriptor _ => v = d
  | _ => False

/-- The last chunk is the end of the text and the trailer, the others are text. -/
theorem Carries.split {packets : List Packet} {d : Int} {front : List Chunk} {last : Chunk}
    (hc : Carries packets d front last) {text trailer : List UInt8}
    (hs : packets.flatMap Packet.bytes = text ++ trailer) (ht : trailer.length = 2) :
    ∃ t, last.bytes = t ++ trailer ∧ front.flatMap Chunk.bytes ++ t = text := by
  have hw := hc.whole
  have hstream := hc.stream
  rw [List.flatMap_append, List.flatMap_singleton, hs,
    ← List.take_append_drop (last.bytes.length - 2) last.bytes, ← List.append_assoc] at hstream
  have hlen : (last.bytes.drop (last.bytes.length - 2)).length = trailer.length := by
    rw [List.length_drop]; omega
  obtain ⟨h1, h2⟩ := List.append_inj' hstream hlen
  exact ⟨last.bytes.take (last.bytes.length - 2), by rw [← h2, List.take_append_drop], h1⟩

/-- Where the last chunk is the bare trailer, an error comes through if what was handed over before is its
    text, and a descriptor does not. -/
theorem roundTrip_trailer {userfunc : List UInt8 → Int} {r : Reply} {d : Int} {last : Chunk}
    (hlast : last.bytes = [0, r.status]) (hd : ∀ fd, r = .descriptor fd → 0 ≤ d) (h : List UInt8) :
    RoundTrip r d (recvLoop userfunc [some last] (-1) (-1) h) ↔
      h = r.text ∧ ∀ fd, r ≠ .descriptor fd := by
  rw [recvLoop_trailer hlast]
  cases r with
  | err e msg =>
      have hne : (Reply.err e msg).status ≠ 0 := statusByte_ne_zero _
      have hpos : 0 < (Reply.err e msg).status.toNat :=
        Nat.pos_of_ne_zero fun h0 => hne (UInt8.toNat_inj.mp h0)
      rw [if_neg hne]
      refine ⟨fun hrt => ⟨hrt.2.1, fun _ => Reply.noConfusion⟩, fun hh => ⟨rfl, hh.1, ?_⟩⟩
      dsimp only
      omega
  | descriptor fd =>
      have hpos := hd fd rfl
      refine iff_of_false ?_ fun hh => hh.2 fd rfl
      rintro ⟨_, _, hv⟩
      rw [show (Reply.descriptor fd).status = 0 from rfl, if_pos rfl] at hv
      omega

/-- Where the last chunk begins with text, the scan stops before the trailer and the loop waits for more. -/
theorem not_roundTrip_text {userfunc : List UInt8 → Int} (huser : ∀ bytes, userfunc bytes = bytes.length)
    {r : Reply} {d : Int} {last : Chunk} {t : List UInt8} (hlast : last.bytes = t ++ [0, r.status])
    (ht : t ≠ []) (hnul : 0 ∉ t) (h : List UInt8) :
    ¬ RoundTrip r d (recvLoop userfunc [some last] (-1) (-1) h) := by
  have hpos : 0 < t.length := List.length_pos_iff.mpr ht
  have hne : ∀ j : Nat, 3 * j < last.bytes.length → last.bytes[j]? ≠ some 0 := by
    intro j hj h0
    rw [hlast, List.length_append, show [0, r.status].length = 2 from rfl] at hj
    rw [hlast, List.getElem?_append_left (by omega)] at h0
    exact hnul (List.mem_of_getElem? h0)
  obtain ⟨h', heq, _⟩ := recvLoop_text huser (by rw [hlast]; simp) hne [] h
  rw [heq, recvLoop]
  exact id

/-- `recv_fd` gets to its loop. -/
theorem recvFd_loop {userfunc : List UInt8 → Int} {c : RecvCalls} {cmptr : Bool} (hopt : c.setsockopt = true)
    (hbuf : cmptr = true ∨ c.malloc = true) :
    recvFd userfunc c cmptr = (recvLoop userfunc c.chunks (-1) (-1) [], true) := by
  unfold recvFd
  rw [if_neg (by rw [hopt]; decide), if_neg]
  rintro ⟨hnull, hfail⟩
  rcases hbuf with hbuf | hbuf
  · rw [hbuf] at hnull; contradiction
  · rw [hbuf] at hfail; contradiction

/-- A set-up that fails leaves the reply unread. -/
theorem not_roundTrip_setup {userfunc : List UInt8 → Int} {r : Reply} {d : Int} {c : RecvCalls}
    {cmptr : Bool} (hchunks : c.chunks ≠ [])
    (h : ¬ (c.setsockopt = true ∧ (cmptr = true ∨ c.malloc = true))) :
    ¬ RoundTrip r d (recvFd userfunc c cmptr).1 := by
  have hreturned : (recvFd userfunc c cmptr).1 = .returned (-1) c.chunks [] := by
    unfold recvFd
    by_cases hopt : c.setsockopt = false
    · rw [if_pos hopt]
    · rw [Bool.not_eq_false] at hopt
      rw [not_and, not_or, Bool.not_eq_true, Bool.not_eq_true] at h
      rw [if_neg (by rw [hopt]; decide), if_pos (h hopt)]
  rw [hreturned]
  exact fun hrt => hchunks hrt.1

/-- **The round trip of a reply**: for every way of cutting the stream into chunks, `recv_fd` receives the
    reply as it was sent exactly when it is an error without text, and the option is set and the buffer
    there. -/
theorem reply_round_trip_iff (H : Host) (o : Outcomes) (s : Server) (r : Reply) (hnul : 0 ∉ r.text)
    (hfull : r.InFull o s) {userfunc : List UInt8 → Int} (huser : ∀ bytes, userfunc bytes = bytes.length)
    {d : Int} {front : List Chunk} {last : Chunk} (hc : Carries (r.packets H o s) d front last)
    (setsockopt malloc cmptr : Bool) :
    RoundTrip r d (recvFd userfunc ⟨setsockopt, malloc, (front ++ [last]).map some⟩ cmptr).1 ↔
      (∃ errcode, r = .err errcode []) ∧ setsockopt = true ∧ (cmptr = true ∨ malloc = true) := by
  by_cases hsetup : setsockopt = true ∧ (cmptr = true ∨ malloc = true)
  · have hempty : (∃ errcode, r = .err errcode []) ↔ r.text = [] ∧ ∀ fd, r ≠ .descriptor fd := by
      cases r with
      | err errcode msg => simp [Reply.text]
      | descriptor fd => simp
    rw [and_iff_left hsetup, hempty, recvFd_loop hsetup.1 hsetup.2]
    obtain ⟨hstream, hrights⟩ := packets_stream (H := H) hfull
    obtain ⟨t, hlast, htext⟩ := hc.split hstream rfl
    have hfront : ∀ m ∈ front, m.bytes ≠ [] ∧ 0 ∉ m.bytes := by
      intro m hm
      refine ⟨(hc.chunks m (List.mem_append_left _ hm)).1, fun h0 => hnul ?_⟩
      rw [← htext]
      exact List.mem_append_left _ (List.mem_flatMap.mpr ⟨m, hm, h0⟩)
    obtain ⟨h, heq, hle⟩ := recvLoop_front huser front [some last] [] hfront
    dsimp only
    rw [List.map_append, List.map_singleton, heq, List.nil_append]
    by_cases ht : t = []
    · rw [ht, List.nil_append] at hlast
      rw [ht, List.append_nil] at htext
      rw [roundTrip_trailer hlast fun fd hfd => (hc.rights (hrights.mpr ⟨fd, hfd⟩)).2, ← htext]
      refine and_congr_left fun _ => ⟨fun hh => ?_, fun hnil => ?_⟩
      · -- each chunk of text in front lost a byte
        rw [hh] at hle
        have hnil : front = [] := List.length_eq_zero_iff.mp (by omega)
        rw [hnil]; rfl
      · rw [hnil, List.length_nil] at hle
        rw [hnil]
        exact List.length_eq_zero_iff.mp (by omega)
    · have hnul' : 0 ∉ t := fun h0 => hnul (htext ▸ List.mem_append_right _ h0)
      refine iff_of_false (not_roundTrip_text huser hlast ht hnul' h) fun hnil => ht ?_
      rw [hnil.1] at htext
      exact (List.append_eq_nil_iff.mp htext).2
  · refine iff_of_false (not_roundTrip_setup ?_ hsetup) fun h => hsetup h.2
    simp

/-- `recv_fd` on a single chunk, with all its calls succeeding. -/
def receiveOne (chunk : Chunk) : Received :=
  (recvFd (fun bytes => bytes.length) ⟨true, true, [some chunk]⟩ false).1

theorem receiveOne_eq (chunk : Chunk) :
    receiveOne chunk = recvLoop (fun bytes => bytes.length) [some chunk] (-1) (-1) [] := by
  unfold receiveOne
  rw [recvFd_loop rfl (Or.inr rfl)]

/-- An error without text. -/
theorem reply_round_trip_iff_error : RoundTrip (.err (-1) []) 0 (receiveOne ⟨[0, 1], ⟨7, 0, 0⟩, none⟩) := by
  have hfull : (Reply.err (-1) []).InFull allSucceed started := ⟨Or.inl rfl, rfl, fun _ => Or.inr rfl⟩
  have hc : Carries ((Reply.err (-1) []).packets posix allSucceed started) 0 [] ⟨[0, 1], ⟨7, 0, 0⟩, none⟩ := by
    refine ⟨?_, by simp [linesize], by simp, fun hr => ?_⟩
    · rw [(packets_stream hfull).1]; rfl
    · obtain ⟨fd, hfd⟩ := (packets_stream (H := posix) hfull).2.mp hr
      exact absurd hfd (by simp)
  exact (reply_round_trip_iff posix allSucceed started (.err (-1) []) (by simp [Reply.text]) hfull
    (fun _ => rfl) hc true true false).mpr ⟨⟨-1, rfl⟩, rfl, Or.inr rfl⟩

/-- Two replies that are not received as they were sent. For an error with the text `x`, in one chunk,
    `recv_fd` waits for input that never comes; for a descriptor, which the client was to get as 5, it returns
    -1. -/
theorem reply_not_received :
    (Carries ((Reply.err (-1) (ascii "x")).packets posix allSucceed started) 0 []
        ⟨[120, 0, 1], ⟨7, 0, 0⟩, none⟩ ∧
      receiveOne ⟨[120, 0, 1], ⟨7, 0, 0⟩, none⟩ = .blocked [120] ∧
      ¬ RoundTrip (.err (-1) (ascii "x")) 0 (receiveOne ⟨[120, 0, 1], ⟨7, 0, 0⟩, none⟩)) ∧
    Carries ((Reply.descriptor 3).packets posix allSucceed started) 5 [] ⟨[0, 0], ⟨7, 0, 0⟩, some 5⟩ ∧
      receiveOne ⟨[0, 0], ⟨7, 0, 0⟩, some 5⟩ = .returned (-1) [] [] ∧
      ¬ RoundTrip (.descriptor 3) 5 (receiveOne ⟨[0, 0], ⟨7, 0, 0⟩, some 5⟩) := by
  have hx : (Reply.err (-1) (ascii "x")).InFull allSucceed started :=
    ⟨Or.inr (by decide), rfl, fun _ => Or.inr rfl⟩
  have hfd : (Reply.descriptor 3).InFull allSucceed started := ⟨Or.inl rfl, rfl, fun _ => Or.inr rfl⟩
  have hblocked : receiveOne ⟨[120, 0, 1], ⟨7, 0, 0⟩, none⟩ = .blocked [120] := by
    rw [receiveOne_eq]
    rfl
  have hdropped : receiveOne ⟨[0, 0], ⟨7, 0, 0⟩, some 5⟩ = .returned (-1) [] [] := by
    rw [receiveOne_eq, recvLoop_trailer (m := ⟨[0, 0], ⟨7, 0, 0⟩, some 5⟩) (b := 0) rfl]
    rfl
  refine ⟨⟨⟨?_, by simp [linesize], by simp, fun hr => ?_⟩, hblocked, by rw [hblocked]; exact id⟩,
    ⟨?_, by simp [linesize], by simp, fun _ => ⟨rfl, by decide⟩⟩, hdropped, ?_⟩
  · rw [(packets_stream hx).1]; rfl
  · obtain ⟨fd, hfd⟩ := (packets_stream (H := posix) hx).2.mp hr
    exact absurd hfd (by simp)
  · rw [(packets_stream hfd).1]; rfl
  · rw [hdropped]
    exact fun hrt => absurd hrt.2.2 (by decide)

end OpenServer
