import ApueToyCodes.OpenServer.ClientMain
import ApueToyCodes.OpenServer.Correctness.Reply
import ApueToyCodes.OpenServer.Correctness.Start

/-!
# `OpenServer.Correctness.ClientMain` — the client never gets a file

Every number `recv_fd` can return is negative: the -1 it starts with, the negated status of an error, and
nothing else, since the credentials in the control buffer leave no room for a descriptor
(`recvFd_negative`). So `csopen` fails in every call in which it returns, and the loop of `main` ends in its
first turn, before it copies anything.
-/

namespace OpenServer
open CStr

variable {userfunc : List UInt8 → Int}

/-- The scan leaves a negative `newfd` negative, where no descriptor came with the chunk. -/
theorem scan_negative {msg : RecvMsg} (hcmsgs : ∀ newfd, passedFd newfd msg.cmsgs = newfd) (n : Nat) :
    ∀ {rest : List UInt8} {ptr nr status newfd nr' status' newfd' : Int}, rest.length = n → newfd < 0 →
      scan msg rest ptr nr status newfd = .done nr' status' newfd' → newfd' < 0 := by
  induction n with
  | zero =>
      intro rest ptr nr status newfd nr' status' newfd' hlen hneg h
      obtain rfl := List.length_eq_zero_iff.mp hlen
      rw [scan.eq_def] at h
      split at h
      · exact Scan.noConfusion h
      · injection h with _ _ hfd
        exact hfd ▸ hneg
  | succ n ih =>
      intro rest ptr nr status newfd nr' status' newfd' hlen hneg h
      obtain ⟨c, rest, rfl⟩ := List.exists_cons_of_length_eq_add_one hlen
      have hlen : rest.length = n := Nat.succ.inj hlen
      rw [scan.eq_def] at h
      by_cases hlt : ptr < nr
      · rw [if_pos hlt] at h
        dsimp only at h
        by_cases hc : c = 0
        · rw [if_pos hc] at h
          split at h
          · exact Scan.noConfusion h
          · cases rest with
            | nil => exact Scan.noConfusion h
            | cons b rest =>
                dsimp only at h
                by_cases hb : b = 0
                · rw [if_pos hb] at h
                  split at h
                  · exact Scan.noConfusion h
                  · exact ih hlen (by rw [hcmsgs]; exact hneg) h
                · -- the status is not 0
                  rw [if_neg hb] at h
                  have hpos : 0 < b.toNat := Nat.pos_of_ne_zero fun h0 => hb (UInt8.toNat_inj.mp h0)
                  exact ih hlen (by omega) h
        · rw [if_neg hc] at h
          exact ih hlen hneg h
      · rw [if_neg hlt] at h
        injection h with _ _ hfd
        exact hfd ▸ hneg

theorem recvLoop_negative (chunks : List (Option Chunk)) :
    ∀ {status newfd v : Int} {handed handed' : List UInt8} {left : List (Option Chunk)}, newfd < 0 →
      recvLoop userfunc chunks status newfd handed = .returned v left handed' → v < 0 := by
  induction chunks with
  | nil =>
      intro status newfd v handed handed' left _ h
      exact Received.noConfusion h
  | cons chunk chunks ih =>
      intro status newfd v handed handed' left hneg h
      have hfail : ∀ {l t : _}, Received.returned (-1) l t = .returned v left handed' → v < 0 := by
        intro l t heq
        injection heq with hv
        omega
      cases chunk with
      | none => exact hfail h
      | some chunk =>
          rw [recvLoop, recvmsg_passcred] at h
          dsimp only at h
          split at h
          · exact hfail h
          · split at h
            · exact Received.noConfusion h
            · exact hfail h
            · rename_i nr status newfd' hscan
              have hnew := scan_negative (fun _ => rfl) _ rfl hneg hscan
              generalize (if nr > 0 then chunk.bytes.take nr.toNat else []) = text at h
              by_cases hshort : nr > 0 ∧ userfunc text ≠ nr
              · rw [if_pos hshort] at h
                exact hfail h
              · rw [if_neg hshort] at h
                split at h
                · injection h with hv
                  exact hv ▸ hnew
                · exact ih hnew h

/-- **`recv_fd` returns no descriptor**, whatever arrives. -/
theorem recvFd_negative {c : RecvCalls} {cmptr : Bool} {v : Int} {left : List (Option Chunk)}
    {handed : List UInt8} (h : (recvFd userfunc c cmptr).1 = .returned v left handed) : v < 0 := by
  unfold recvFd at h
  split at h
  · injection h with hv
    omega
  · split at h
    · injection h with hv
      omega
    · exact recvLoop_negative _ (by decide) h

theorem csopen_negative {c : Call} {s : Client} {v : Int} {left : List (Option Chunk)} {handed : List UInt8}
    (h : (csopen userfunc c s).1 = .returned v left handed) : v < 0 := by
  unfold csopen at h
  split at h
  · injection h with hv
    omega
  · split at h
    · exact Received.noConfusion h
    · split at h
      · injection h with hv
        omega
      · exact recvFd_negative h

/-- **A turn** with a line to read ends the program, with nothing copied. -/
theorem turn_ends (e : TurnCalls) {s : Program} (hne : s.stdin ≠ []) :
    (turn e s).1.stdout = s.stdout ∧ ∃ ending, (turn e s).2 = some ending ∧ ending ≠ .exit 0 := by
  unfold turn fgets
  rw [if_neg hne]
  dsimp only
  split
  · exact ⟨rfl, _, rfl, Ending.noConfusion⟩
  · cases hcall : (csopen e.userfunc (e.call (cstr (stored (s.stdin.take (lineLength s.stdin)) s.line) 0))
        s.client).1 with
    | outOfBounds => exact ⟨rfl, _, rfl, Ending.noConfusion⟩
    | blocked handed => exact ⟨rfl, _, rfl, Ending.noConfusion⟩
    | returned fd left handed =>
        dsimp only
        rw [if_pos (csopen_negative hcall)]
        exact ⟨rfl, _, rfl, by decide⟩

/-- **The client never gets a file.** Whatever arrives on the socket and whatever the calls do, `recv_fd`
    returns only negative numbers; so `main` writes nothing to its output, and exits with 0 only where its
    input is empty. -/
theorem client_copies_nothing :
    (∀ (userfunc : List UInt8 → Int) (c : RecvCalls) (cmptr : Bool) (v : Int) (left : List (Option Chunk))
      (handed : List UInt8), (recvFd userfunc c cmptr).1 = .returned v left handed → v < 0) ∧
    ∀ (es : List TurnCalls) (s : Program), (mainLoop es s).1.stdout = s.stdout ∧
      ∀ ending, (mainLoop es s).2 = some ending → (ending = .exit 0 ↔ s.stdin = []) := by
  refine ⟨fun userfunc c cmptr v left handed h => recvFd_negative h, fun es s => ?_⟩
  cases es with
  | nil =>
      refine ⟨rfl, fun ending h => ?_⟩
      contradiction
  | cons e es =>
      by_cases hnil : s.stdin = []
      · have heof : turn e s = (s, some (.exit 0)) := by
          unfold turn fgets
          rw [if_pos hnil]
        rw [mainLoop, heof]
        refine ⟨rfl, fun ending h => ?_⟩
        exact iff_of_true (Option.some.inj h).symm hnil
      · obtain ⟨hout, ending, hend, hne⟩ := turn_ends e hnil
        rw [mainLoop, show turn e s = ((turn e s).1, some ending) from Prod.ext rfl hend]
        refine ⟨hout, fun ending' h => ?_⟩
        exact iff_of_false (fun h0 => hne ((Option.some.inj h).trans h0)) hnil

/-- A descriptor on the socket: -1 is returned. -/
theorem client_copies_nothing_descriptor :
    ∃ v, (recvFd writeAll ⟨true, true, [some ⟨[0, 0], ⟨7, 0, 0⟩, some 5⟩]⟩ false).1 = .returned v [] [] ∧
      v < 0 := by
  have hrun : (recvFd writeAll ⟨true, true, [some ⟨[0, 0], ⟨7, 0, 0⟩, some 5⟩]⟩ false).1
      = .returned (-1) [] [] := by
    rw [recvFd_loop rfl (Or.inr rfl)]
    exact @recvLoop_trailer writeAll ⟨[0, 0], ⟨7, 0, 0⟩, some 5⟩ 0 rfl []
  exact ⟨-1, hrun, client_copies_nothing.1 _ _ _ _ _ _ hrun⟩

end OpenServer
