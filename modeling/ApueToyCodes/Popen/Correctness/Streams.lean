import ApueToyCodes.Popen.Correctness.Cleanup

/-!
# `Popen.Correctness.Streams` — opening and closing streams

While streams are only opened, `childpid` has an entry for each of them and no other. The file's `fclose` closes
none: on a stream `my_popen` has returned, its call of `fclose` is a call of itself, and it never returns. A
sequence of calls goes well exactly if it closes no stream.
-/

namespace Popen
open CStr (HasStr)
open OpenServer (ascii)

variable {g : Globals} {fd : Nat} {fp : File}

/-! ## One call -/

/-- Only descriptors below `maxfd` have an entry. -/
theorem Globals.lt_of_pid_ne_zero (h : g.pid fd ≠ 0) : g.childpid ≠ none ∧ fd < g.maxfd := by
  cases ht : g.childpid with
  | none => exact absurd (Globals.pid_eq_zero ht) h
  | some table =>
      refine ⟨fun h => (by cases h), ?_⟩
      have hlen := g.length_eq table ht
      apply Nat.lt_of_not_le
      intro hle
      apply h
      rw [Globals.pid, ht]
      show table.getD fd 0 = 0
      rw [List.getD_eq_getElem?_getD, List.getElem?_eq_none (by omega)]
      rfl

/-- **`fclose` never returns** for a descriptor in the range of the table: each call waits for the next. -/
theorem fclose_diverges (waitpid : Nat → Option Int) (ht : g.childpid ≠ none) (hfd : fp.fileno < g.maxfd)
    (fuel : Nat) : fclose waitpid g fp fuel = none := by
  induction fuel with
  | zero => rfl
  | succ fuel ih =>
      have hisNone : ¬ g.childpid.isNone = true := fun h => ht (Option.isNone_iff_eq_none.mp h)
      rw [fclose, if_neg hisNone]
      dsimp only
      rw [if_neg (by omega), ih]

/-- What `my_popen` does with the table, in the parent: nothing where it returns `NULL`, else the new child is
    the entry of the stream. -/
theorem popenPipe_entries (cmd : List UInt8) (forRead : Bool) {o : PopenCalls} (hparent : o.fork ≠ .child) :
    ((popenPipe cmd forRead o g).ending = .returned none ∧ (popenPipe cmd forRead o g).globals = g) ∨
    ∃ fd pid, (popenPipe cmd forRead o g).ending = .returned (some ⟨fd⟩) ∧ o.fork = .parent pid ∧
      fd < g.maxfd ∧ (popenPipe cmd forRead o g).globals = g.setPid fd pid := by
  unfold popenPipe
  cases o.pipe with
  | none => exact Or.inl ⟨rfl, rfl⟩
  | some pair =>
      obtain ⟨r, w⟩ := pair
      dsimp only
      by_cases hhigh : r ≥ g.maxfd ∨ w ≥ g.maxfd
      · rw [if_pos hhigh]
        exact Or.inl ⟨rfl, rfl⟩
      · rw [if_neg hhigh]
        cases hfork : o.fork with
        | child => exact absurd hfork hparent
        | error => exact Or.inl ⟨rfl, rfl⟩
        | parent pid =>
            dsimp only
            rw [popenParent_eq]
            cases o.fdopen with
            | false => exact Or.inl ⟨rfl, rfl⟩
            | true =>
                refine Or.inr ⟨(ends forRead r w).1, pid, rfl, rfl, ?_, rfl⟩
                rcases ends_eq forRead r w with heq | heq <;> omega

/-! ## Sequences of calls -/

/-- The process: the variables, the open descriptors, and the streams `my_popen` has returned that are not
    closed yet, each with the child started for it. -/
structure System where
  globals : Globals
  fds     : Finset Nat
  streams : List (File × Pid)

/-- The process when the program starts, with any descriptors open. -/
def System.start (fds : Finset Nat) : System := ⟨.start, fds, []⟩

/-- A call, with the outcomes of the calls it makes. -/
inductive Call where
  | popen (cmd type : List UInt8) (o : PopenCalls)
  | fclose (fp : File) (status : Nat → Int)

/-- What a call of `my_popen` leaves. -/
def System.popened (s : System) (o : PopenCalls) (p : Popened) : System where
  globals := p.globals
  fds := FdTrace.openAfter s.fds (fdEvents p.events)
  streams :=
    match p.ending, o.fork with
    | .returned (some fp), .parent pid => (fp, pid) :: s.streams
    | _, _                             => s.streams

/-- A call that returns. -/
def Step (s : System) : Call → System → Prop
  | .popen cmd type o, s' => ∃ p, myPopen cmd type o s.globals = some p ∧ s' = s.popened o p
  | .fclose fp status, s' =>
    ∃ fuel v, fclose (some ∘ status) s.globals fp fuel = some v ∧
      s' = { s with streams := s.streams.filter fun st => st.1 ≠ fp }

/-- What is asked of a call: `my_popen` is given a string with two bytes, its pipe is new, and the process is
    the parent; `fclose` is given a stream. -/
def Allowed (s : System) : Call → Prop
  | .popen _ type o => (∃ mode, HasStr type 0 mode) ∧ 1 < type.length ∧ NewPipe s.fds o ∧ o.fork ≠ .child
  | .fclose fp _    => ∃ pid, (fp, pid) ∈ s.streams

/-- A sequence of calls, each allowed where it is made. -/
inductive Sequence : System → List Call → Prop
  | nil {s : System} : Sequence s []
  | cons {s : System} {c : Call} {cs : List Call} :
      Allowed s c → (∀ s', Step s c s' → Sequence s' cs) → Sequence s (c :: cs)

/-- `childpid` has an entry for the descriptors of the streams, and for no other. -/
def Tracks (s : System) : Prop := ∀ fd, s.globals.pid fd ≠ 0 ↔ ∃ st ∈ s.streams, st.1.fileno = fd

/-- `fclose` returns the exit status of the child started for the stream. -/
def Answers (s : System) : Call → Prop
  | .popen _ _ _ => True
  | .fclose fp status =>
    ∃ pid, (fp, pid) ∈ s.streams ∧ ∃ fuel, fclose (some ∘ status) s.globals fp fuel = some (status pid)

/-- A sequence of calls goes well: each returns, with the right answer, and the table is right before the
    first and after each. -/
inductive Correct : System → List Call → Prop
  | nil {s : System} : Tracks s → Correct s []
  | cons {s s' : System} {c : Call} {cs : List Call} :
      Tracks s → Answers s c → Step s c s' → Correct s' cs → Correct s (c :: cs)

/-! ## Opening -/

variable {s : System} {calls : List Call}

/-- A call that returns `NULL` and changes no entry. -/
theorem tracks_null {o : PopenCalls} {p : Popened} (htracks : Tracks s) (hend : p.ending = .returned none)
    (hpid : ∀ fd, p.globals.pid fd = s.globals.pid fd) : Tracks (s.popened o p) := by
  intro fd
  unfold System.popened
  rw [hend, hpid]
  exact htracks fd

/-- A call that returns a stream, whose entry is its child. -/
theorem tracks_stream {o : PopenCalls} {p : Popened} {pid : Pid} (htracks : Tracks s)
    (hend : p.ending = .returned (some fp)) (hfork : o.fork = .parent pid)
    (hself : p.globals.pid fp.fileno = pid) (hpid : ∀ fd, fd ≠ fp.fileno → p.globals.pid fd = s.globals.pid fd) :
    Tracks (s.popened o p) := by
  intro fd
  unfold System.popened
  rw [hend, hfork]
  dsimp only
  by_cases hfd : fd = fp.fileno
  · subst hfd
    rw [hself]
    exact ⟨fun _ => ⟨_, List.mem_cons_self, rfl⟩, fun _ => Nat.pos_iff_ne_zero.mp pid.2⟩
  · rw [hpid fd hfd, htracks fd]
    constructor
    · rintro ⟨st, hst, heq⟩
      exact ⟨st, List.mem_cons_of_mem _ hst, heq⟩
    · rintro ⟨st, hst, heq⟩
      rcases List.mem_cons.mp hst with rfl | hst
      · exact absurd heq.symm hfd
      · exact ⟨st, hst, heq⟩

/-- **A call of `my_popen`** returns, and keeps the table right. -/
theorem popen_tracks {cmd type : List UInt8} {o : PopenCalls} (hallowed : Allowed s (.popen cmd type o))
    (htracks : Tracks s) : ∃ s', Step s (.popen cmd type o) s' ∧ Tracks s' := by
  obtain ⟨⟨mode, hstr⟩, hlen, _, hparent⟩ := hallowed
  obtain ⟨c, h0⟩ := exists_first hstr
  have hpid := Globals.pid_withTable s.globals o.calloc
  refine ⟨_, ⟨_, myPopen_eq h0 (List.getElem?_eq_getElem hlen), rfl⟩, ?_⟩
  split
  · -- `NULL`, before the pipe
    apply tracks_null htracks rfl
    intro fd
    dsimp only
    split
    · rfl
    · exact hpid fd
  · rename_i hgo
    have ht : (s.globals.withTable o.calloc).childpid ≠ none := fun h => hgo (Or.inr h)
    rcases popenPipe_entries cmd (c = 114) (g := s.globals.withTable o.calloc) hparent with
      ⟨hend, hglobals⟩ | ⟨fd, pid, hend, hfork, hlt, hglobals⟩
    · apply tracks_null htracks hend
      rw [hglobals]
      exact hpid
    · apply tracks_stream htracks hend hfork
      · rw [hglobals]
        exact Globals.pid_setPid_self ht hlt
      · intro q hq
        rw [hglobals, Globals.pid_setPid_ne hq, hpid]

/-- **Sequences without `fclose`** go well. -/
theorem correct_of_no_fclose (htracks : Tracks s) (hseq : Sequence s calls)
    (hno : ∀ fp status, .fclose fp status ∉ calls) : Correct s calls := by
  induction calls generalizing s with
  | nil => exact .nil htracks
  | cons call calls ih =>
      cases hseq with
      | cons hallowed hrest =>
          cases call with
          | fclose fp status => exact absurd List.mem_cons_self (hno fp status)
          | popen cmd type o =>
              obtain ⟨s', hstep, htracks'⟩ := popen_tracks hallowed htracks
              refine .cons htracks trivial hstep (ih htracks' (hrest s' hstep) ?_)
              exact fun fp status hmem => hno fp status (List.mem_cons_of_mem _ hmem)

/-! ## Closing -/

/-- **A call of `fclose`** on a stream does not return. -/
theorem not_step_fclose {s' : System} {status : Nat → Int} (htracks : Tracks s)
    (hallowed : Allowed s (.fclose fp status)) : ¬ Step s (.fclose fp status) s' := by
  rintro ⟨fuel, v, hv, _⟩
  obtain ⟨pid, hmem⟩ := hallowed
  obtain ⟨ht, hlt⟩ := Globals.lt_of_pid_ne_zero ((htracks fp.fileno).mpr ⟨_, hmem, rfl⟩)
  rw [fclose_diverges _ ht hlt] at hv
  cases hv

/-- A sequence that goes well closes nothing. -/
theorem no_fclose_of_correct (hseq : Sequence s calls) (hcorrect : Correct s calls) :
    ∀ fp status, .fclose fp status ∉ calls := by
  induction hcorrect with
  | nil _ => exact fun _ _ => List.not_mem_nil
  | @cons s s' call calls htracks _ hstep _ ih =>
      cases hseq with
      | cons hallowed hrest =>
          intro fp status hmem
          rcases List.mem_cons.mp hmem with rfl | hmem
          · exact not_step_fclose htracks hallowed hstep
          · exact ih (hrest s' hstep) fp status hmem

theorem tracks_start (fds : Finset Nat) : Tracks (.start fds) := by
  intro fd
  constructor
  · exact fun h => absurd (Globals.pid_eq_zero rfl) h
  · rintro ⟨st, hst, _⟩
    exact absurd hst List.not_mem_nil

/-- **A sequence of calls goes well** exactly if no stream is closed in it. -/
theorem popen_streams_correct_iff {fds : Finset Nat} {calls : List Call}
    (hseq : Sequence (.start fds) calls) :
    Correct (.start fds) calls ↔ ∀ fp status, .fclose fp status ∉ calls :=
  ⟨no_fclose_of_correct hseq, correct_of_no_fclose (tracks_start fds) hseq⟩

/-- "ls" is opened for reading on descriptor 3, its child is 77. -/
def openLs : Call := .popen (ascii "ls") (ascii "r" ++ [0]) ⟨true, some (3, 4), .parent ⟨77, by decide⟩, true, true⟩

theorem openLs_allowed : Allowed (.start {0, 1, 2}) openLs := by
  refine ⟨⟨ascii "r", by decide, [], rfl⟩, by decide, ?_, fun h => (by cases h)⟩
  intro r w h
  obtain ⟨rfl, rfl⟩ := Prod.mk.inj (Option.some.inj h)
  decide

theorem openLs_step {s' : System} (h : Step (.start {0, 1, 2}) openLs s') :
    s'.streams = [(⟨3⟩, ⟨77, by decide⟩)] ∧ s'.globals = (Globals.allocate true).setPid 3 77 := by
  obtain ⟨p, hp, rfl⟩ := h
  have heq : myPopen (ascii "ls") (ascii "r" ++ [0])
      ⟨true, some (3, 4), .parent ⟨77, by decide⟩, true, true⟩ .start
      = some ⟨.returned (some ⟨3⟩), [created 3, created 4, closed 4], (Globals.allocate true).setPid 3 77⟩ := rfl
  obtain rfl := Option.some.inj (heq.symm.trans hp)
  exact ⟨rfl, rfl⟩

/-- One command is opened, and no stream closed. -/
theorem popen_streams_correct_iff_open : Correct (.start {0, 1, 2}) [openLs] := by
  apply (popen_streams_correct_iff ?_).mpr
  · intro fp status hmem
    cases List.mem_singleton.mp hmem
  · exact .cons openLs_allowed fun _ _ => .nil

/-- The stream of "ls" is closed: `fclose` does not return. -/
theorem fclose_never_returns :
    Sequence (.start {0, 1, 2}) [openLs, .fclose ⟨3⟩ fun _ => 0] ∧
    (∀ waitpid fuel, fclose waitpid ((Globals.allocate true).setPid 3 77) ⟨3⟩ fuel = none) ∧
    ¬ Correct (.start {0, 1, 2}) [openLs, .fclose ⟨3⟩ fun _ => 0] := by
  have hdiverges : ∀ waitpid fuel, fclose waitpid ((Globals.allocate true).setPid 3 77) ⟨3⟩ fuel = none := by
    intro waitpid fuel
    exact fclose_diverges waitpid (fun h => (by cases h)) (by decide) fuel
  refine ⟨.cons openLs_allowed fun s' hstep => .cons ?_ fun _ _ => .nil, hdiverges, ?_⟩
  · refine ⟨⟨77, by decide⟩, ?_⟩
    rw [(openLs_step hstep).1]
    exact List.mem_cons_self
  · intro hcorrect
    cases hcorrect with
    | cons _ _ hopen hrest =>
        cases hrest with
        | cons _ hanswers _ _ =>
            obtain ⟨pid, _, fuel, hv⟩ := hanswers
            rw [(openLs_step hopen).2, hdiverges] at hv
            cases hv

end Popen
