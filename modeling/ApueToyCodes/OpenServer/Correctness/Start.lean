import ApueToyCodes.Lib.Runs
import ApueToyCodes.OpenServer.ServerStart

/-!
# `OpenServer.Correctness.Start` — the pair of descriptors `csopen` keeps

The pair doubles as the note that a server runs. It is written by `socketpair`, before `fork` can fail: after
a failed `fork` it names a socket with no process at its other end, and every later call writes its request
there. As long as no `fork` fails, every request goes to a server.
-/

namespace OpenServer
open Runs

variable {write : List UInt8 → Int} {s s' : Client} {c : Call}

/-- What `socketpair` may return: two different descriptors that are not open. -/
def Call.Possible (c : Call) (s : Client) : Prop :=
  ∀ a b, c.socketpair = some (a, b) → 0 ≤ a ∧ 0 ≤ b ∧ a ≠ b ∧ a ∉ s.fds ∧ b ∉ s.fds

/-- One call in the parent. -/
def Opens (write : List UInt8 → Int) (s : Client) (c : Call) (s' : Client) : Prop :=
  c.Possible s ∧ (csopen write c s).2.1 = s'

/-- The call fails to start a server. -/
def StartFails (s : Client) (c : Call) : Prop := s.fd.1 < 0 ∧ (c.socketpair = none ∨ c.fork = none)

/-- The call fails in `fork`. -/
def ForkFails (s : Client) (c : Call) : Prop := s.fd.1 < 0 ∧ c.socketpair ≠ none ∧ c.fork = none

/-- A call as it should be: a request is written only to a socket whose other end a server has, and a start
    that fails is tried again by the next call. -/
structure RightCall (write : List UInt8 → Int) (s : Client) (c : Call) (s' : Client) : Prop where
  opens  : Opens write s c s'
  wrote  : ∀ fd, (csopen write c s).2.2 = some fd → fd = s'.fd.1 ∧ fd ∈ s'.served ∧ fd ∈ s'.fds
  failed : StartFails s c → s'.fd.1 < 0

/-- The pair says that no server runs, or names a socket a server has the other end of. -/
def Sound (s : Client) : Prop := s.fd.1 < 0 ∨ s.fd.1 ∈ s.served ∧ s.fd.1 ∈ s.fds

/-- The state of a call, but for `cmptr`, and its write are those of its start. -/
theorem csopen_spec (write : List UInt8 → Int) (c : Call) (s : Client) :
    (∃ cmptr, (csopen write c s).2.1 = { (startServer c s).2 with cmptr }) ∧
      ∀ fd, (csopen write c s).2.2 = some fd →
        (startServer c s).1 = true ∧ fd = (startServer c s).2.fd.1 := by
  unfold csopen
  rcases startServer c s with ⟨_ | _, s₁⟩
  · exact ⟨⟨s₁.cmptr, rfl⟩, fun _ h => nomatch h⟩
  · dsimp only
    cases csopenRequest c.name c.oflag with
    | none => exact ⟨⟨s₁.cmptr, rfl⟩, fun _ h => nomatch h⟩
    | some req =>
        dsimp only
        split
        · exact ⟨⟨s₁.cmptr, rfl⟩, fun _ h => ⟨rfl, (Option.some.inj h).symm⟩⟩
        · exact ⟨⟨_, rfl⟩, fun _ h => ⟨rfl, (Option.some.inj h).symm⟩⟩

/-- **One call** without a failing `fork`. -/
theorem startServer_spec (hs : Sound s) (hp : c.Possible s) (hf : ¬ ForkFails s c) :
    Sound (startServer c s).2 ∧ ((startServer c s).1 = true → ¬ (startServer c s).2.fd.1 < 0) ∧
      (StartFails s c → (startServer c s).2.fd.1 < 0) := by
  unfold startServer
  by_cases hneg : s.fd.1 < 0
  · rw [if_pos hneg]
    cases hsp : c.socketpair with
    | none => exact ⟨hs, fun h => (nomatch h), fun _ => hneg⟩
    | some pair =>
        obtain ⟨a, b⟩ := pair
        obtain ⟨ha, _, hab, _, _⟩ := hp a b hsp
        dsimp only
        cases hfork : c.fork with
        | none => exact absurd ⟨hneg, by rw [hsp]; exact Option.some_ne_none _, hfork⟩ hf
        | some pid =>
            refine ⟨Or.inr ⟨Finset.mem_insert_self _ _, ?_⟩, fun _ => Int.not_lt.mpr ha, ?_⟩
            · exact Finset.mem_erase.mpr ⟨hab, Finset.mem_insert_of_mem (Finset.mem_insert_self _ _)⟩
            · rintro ⟨_, hno | hno⟩
              · rw [hsp] at hno
                contradiction
              · rw [hfork] at hno
                contradiction
  · rw [if_neg hneg]
    exact ⟨hs, fun _ => hneg, fun h => absurd h.1 hneg⟩

theorem rightCall_of_noForkFails (hs : Sound s) (h : Opens write s c s') (hf : ¬ ForkFails s c) :
    RightCall write s c s' ∧ Sound s' := by
  obtain ⟨hp, rfl⟩ := h
  obtain ⟨⟨cmptr, hstate⟩, hwrote⟩ := csopen_spec write c s
  obtain ⟨hsound, hopen, hretry⟩ := startServer_spec hs hp hf
  have hsound' : Sound (csopen write c s).2.1 := by rw [hstate]; exact hsound
  refine ⟨⟨⟨hp, rfl⟩, ?_, fun hfail => ?_⟩, hsound'⟩
  · intro fd hfd
    obtain ⟨hstarted, rfl⟩ := hwrote fd hfd
    rw [hstate]
    exact ⟨rfl, hsound.resolve_left (hopen hstarted)⟩
  · rw [hstate]
    exact hretry hfail

/-- After a failing `fork` the pair is not negative. -/
theorem not_rightCall_of_forkFails (hf : ForkFails s c) : ¬ RightCall write s c s' := by
  rintro ⟨⟨hp, rfl⟩, _, hfailed⟩
  obtain ⟨hneg, hsp, hfork⟩ := hf
  have hretry := hfailed ⟨hneg, Or.inr hfork⟩
  obtain ⟨⟨cmptr, hstate⟩, _⟩ := csopen_spec write c s
  rw [hstate] at hretry
  obtain ⟨⟨a, b⟩, hpair⟩ := Option.ne_none_iff_exists'.mp hsp
  unfold startServer at hretry
  rw [if_pos hneg, hpair, hfork] at hretry
  exact absurd (hp a b hpair).1 (Int.not_le.mpr hretry)

/-- **Every request goes to a server**, and every failed start is tried again, along exactly the runs in
    which no `fork` fails. -/
theorem csopen_start_iff (write : List UInt8 → Int) (fds : Finset Int) (tr : List Call) (s : Client) :
    Run (RightCall write) (.initial fds) tr s ↔
      Run (fun s c s' => Opens write s c s' ∧ ¬ ForkFails s c) (.initial fds) tr s := by
  constructor
  · intro hright
    have hstep : ∀ s c s', True → RightCall write s c s' →
        (Opens write s c s' ∧ ¬ ForkFails s c) ∧ True := by
      intro s c s' _ hcall
      exact ⟨⟨hcall.opens, fun hf => not_rightCall_of_forkFails hf hcall⟩, trivial⟩
    exact hright.refine hstep trivial
  · intro hno
    have hstep : ∀ s c s', Sound s → Opens write s c s' ∧ ¬ ForkFails s c →
        RightCall write s c s' ∧ Sound s' := by
      intro s c s' hs hcall
      exact rightCall_of_noForkFails hs hcall.1 hcall.2
    exact hno.refine hstep (Or.inl (show (-1 : Int) < 0 by decide))

/-- A first call that gets the descriptors 3 and 4 for its socket pair and fails in `fork`. -/
def firstCall : Call := ⟨ascii "a", 0, some (3, 4), none, -1, ⟨true, true, []⟩⟩

/-- The client after it. -/
def stranded : Client := ⟨(3, 4), false, insert 4 (insert 3 {0, 1, 2}), ∅⟩

/-- A call after it. -/
def secondCall : Call := ⟨ascii "a", 0, none, none, 9, ⟨true, true, []⟩⟩

/-- The client in the second call, where it waits for a reply. -/
def waiting : Client := { stranded with cmptr := true }

/-- `write` to the standard error, taking all it is given. -/
def writeAll (bytes : List UInt8) : Int := bytes.length

/-- The second call does not start a server, and writes its request to a socket whose other end the client
    itself holds. -/
theorem csopen_writes_to_no_server :
    Run (Opens writeAll) (.initial {0, 1, 2}) [firstCall, secondCall] waiting ∧
      (csopen writeAll secondCall stranded).2.2 = some 3 ∧ 3 ∉ stranded.served ∧
      ¬ RightCall writeAll stranded secondCall waiting := by
  have hfirst : Opens writeAll (.initial {0, 1, 2}) firstCall stranded := by
    refine ⟨?_, rfl⟩
    intro a b h
    obtain ⟨rfl, rfl⟩ := Prod.mk.inj (Option.some.inj h)
    exact ⟨by decide, by decide, by decide, by decide, by decide⟩
  have hsecond : Opens writeAll stranded secondCall waiting := ⟨fun _ _ h => (nomatch h), rfl⟩
  refine ⟨.cons hfirst (.cons hsecond .refl), rfl, Finset.notMem_empty 3, fun h => ?_⟩
  exact absurd (h.wrote 3 rfl).2.1 (Finset.notMem_empty 3)

end OpenServer
