import ApueToyCodes.Lib.CStr
import ApueToyCodes.Popen.MyPopen

/-!
# `Popen.Correctness.Cleanup` — what `my_popen` leaves behind

A call that fails is to leave nothing: no descriptor, no entry of `childpid`. The exits before `fork` do. After
it they do not: where `fork` fails both ends of the pipe stay open, where `fdopen` fails one of them does. And
the test of the mode joins with "or" where "and" was meant: every mode of one character passes it.
-/

namespace Popen
open CStr (HasStr)
open OpenServer (ascii)
open FdTrace (Disposed Kept disposed_nil disposed_pair kept_fst kept_snd not_disposed)

variable {cmd type mode : List UInt8} {o : PopenCalls} {g : Globals} {s : Finset Nat} {c c' : UInt8} {fd : Nat}

/-! ## The table -/

theorem Globals.pid_eq_zero (h : g.childpid = none) : g.pid fd = 0 := by
  unfold Globals.pid
  rw [h]
  rfl

/-- Allocating the table changes no entry. -/
theorem Globals.pid_withTable (g : Globals) (calloc : Bool) (fd : Nat) :
    (g.withTable calloc).pid fd = g.pid fd := by
  unfold Globals.withTable
  split
  · rename_i hnone
    rw [Globals.pid_eq_zero (Option.isNone_iff_eq_none.mp hnone)]
    cases calloc with
    | false => rfl
    | true =>
        show (List.replicate openMax 0).getD fd 0 = 0
        rw [List.getD_eq_getElem?_getD, List.getElem?_replicate]
        split <;> rfl
  · rfl

theorem Globals.setPid_pid_eq (pid fd' : Nat) :
    (g.setPid fd pid).pid fd' = ((g.childpid.map (·.set fd pid)).getD []).getD fd' 0 := rfl

theorem Globals.pid_setPid_self {pid : Nat} (ht : g.childpid ≠ none) (hfd : fd < g.maxfd) :
    (g.setPid fd pid).pid fd = pid := by
  obtain ⟨table, htable⟩ := Option.ne_none_iff_exists'.mp ht
  have hlen := g.length_eq table htable
  rw [Globals.setPid_pid_eq, htable]
  show (table.set fd pid).getD fd 0 = pid
  rw [List.getD_eq_getElem?_getD, List.getElem?_set_self (by omega)]
  rfl

theorem Globals.pid_setPid_ne {pid fd' : Nat} (hne : fd' ≠ fd) : (g.setPid fd pid).pid fd' = g.pid fd' := by
  rw [Globals.setPid_pid_eq, Globals.pid]
  cases g.childpid with
  | none => rfl
  | some table =>
      show (table.set fd pid).getD fd' 0 = table.getD fd' 0
      rw [List.getD_eq_getElem?_getD, List.getD_eq_getElem?_getD, List.getElem?_set_ne hne.symm]

/-! ## The mode -/

/-- **The test of the mode** is one of its second character: no character is both `r` and `w`. -/
theorem badMode_eq (h : type[0]? = some c) : badMode type = type[1]?.map fun c' => decide (c' ≠ 0) := by
  have hor : c ≠ 114 ∨ c ≠ 119 := by
    by_cases hc : c = 114
    · rw [hc]
      exact Or.inr (by decide)
    · exact Or.inl hc
  unfold badMode
  rw [h]
  show (if c ≠ 114 ∨ c ≠ 119 then _ else _) = _
  rw [if_pos hor]
  cases type[1]? with
  | none => rfl
  | some c' => rfl

theorem exists_first (hstr : HasStr type 0 mode) : ∃ c, type[0]? = some c := by
  obtain ⟨_, post, htype⟩ := hstr
  rw [List.drop_zero] at htype
  subst htype
  cases mode with
  | nil => exact ⟨0, rfl⟩
  | cons c mode => exact ⟨c, rfl⟩

/-! ## Exits -/

/-- What a call is to do: it returns `NULL` for every mode but `r` and `w`; where it returns `NULL`, it has
    closed what it created and changed no entry; where it returns a stream, that is the one end of the pipe
    left open, and its entry is the child. -/
structure Clean (s : Finset Nat) (mode : List UInt8) (o : PopenCalls) (g : Globals) (p : Popened) : Prop where
  mode   : mode ≠ [114] → mode ≠ [119] → p.ending = .returned none
  null   : p.ending = .returned none → Disposed s (fdEvents p.events) ∧ ∀ fd, p.globals.pid fd = g.pid fd
  stream : ∀ fp, p.ending = .returned (some fp) →
    ∃ r w pid, o.pipe = some (r, w) ∧ (fp.fileno = r ∨ fp.fileno = w) ∧ o.fork = .parent pid ∧
      Kept s (fdEvents p.events) fp.fileno ∧ p.globals.pid fp.fileno = pid

/-- A call that returns `NULL` and leaves nothing. -/
theorem Clean.of_null {es : List Event} {g' : Globals} (hes : Disposed s (fdEvents es))
    (hg : ∀ fd, g'.pid fd = g.pid fd) : Clean s mode o g ⟨.returned none, es, g'⟩ := by
  refine ⟨fun _ _ => rfl, fun _ => ⟨hes, hg⟩, ?_⟩
  intro fp h
  cases h

/-- Being clean looks at the table before the call only for its entries. -/
theorem Clean.of_pid_eq {g g' : Globals} {p : Popened} (hg : ∀ fd, g.pid fd = g'.pid fd)
    (h : Clean s mode o g p) : Clean s mode o g' p := by
  refine ⟨h.mode, fun hnull => ⟨(h.null hnull).1, fun fd => ?_⟩, h.stream⟩
  rw [(h.null hnull).2, hg]

/-- The ends of the pipe are new descriptors, and two. -/
def NewPipe (s : Finset Nat) (o : PopenCalls) : Prop :=
  ∀ r w, o.pipe = some (r, w) → r ∉ s ∧ w ∉ s ∧ r ≠ w

/-- There is no pipe, or one whose ends have no entry in the table. -/
def NoPipe (o : PopenCalls) (maxfd : Nat) : Prop :=
  o.pipe = none ∨ ∃ r w, o.pipe = some (r, w) ∧ (r ≥ maxfd ∨ w ≥ maxfd)

/-- **The exits before `fork`** leave nothing. -/
theorem popenPipe_noPipe (cmd mode : List UInt8) (forRead : Bool) (hnew : NewPipe s o)
    (h : NoPipe o g.maxfd) :
    Clean s mode o g (popenPipe cmd forRead o g) := by
  unfold popenPipe
  rcases h with hnone | ⟨r, w, hpipe, hhigh⟩
  · rw [hnone]
    exact .of_null (disposed_nil s) fun _ => rfl
  · obtain ⟨hr, hw, hne⟩ := hnew r w hpipe
    rw [hpipe]
    dsimp only
    rw [if_pos hhigh]
    exact .of_null (disposed_pair hr hw hne) fun _ => rfl

theorem exists_pipe (h : ¬ NoPipe o g.maxfd) : ∃ r w, o.pipe = some (r, w) ∧ r < g.maxfd ∧ w < g.maxfd := by
  cases hpipe : o.pipe with
  | none => exact absurd (Or.inl hpipe) h
  | some pair =>
      obtain ⟨r, w⟩ := pair
      refine ⟨r, w, rfl, ?_, ?_⟩
      · apply Nat.lt_of_not_le
        exact fun hr => h (Or.inr ⟨r, w, hpipe, Or.inl hr⟩)
      · apply Nat.lt_of_not_le
        exact fun hw => h (Or.inr ⟨r, w, hpipe, Or.inr hw⟩)

/-- The end the parent keeps, and the other. -/
def ends (forRead : Bool) (r w : Nat) : Nat × Nat := if forRead then (r, w) else (w, r)

theorem kept_ends {r w : Nat} (hr : r ∉ s) (hw : w ∉ s) (hne : r ≠ w) (forRead : Bool) :
    Kept s [.created r, .created w, .closed (ends forRead r w).2] (ends forRead r w).1 := by
  cases forRead with
  | true  => exact kept_fst hr hw hne
  | false => exact kept_snd hr hw hne

theorem ends_eq (forRead : Bool) (r w : Nat) : (ends forRead r w).1 = r ∨ (ends forRead r w).1 = w := by
  cases forRead with
  | true  => exact Or.inl rfl
  | false => exact Or.inr rfl

theorem popenParent_eq (forRead : Bool) (r w : Nat) (pid : Pid) (fdopen : Bool) :
    popenParent forRead r w pid fdopen g =
      if fdopen = false then ⟨.returned none, [closed (ends forRead r w).2], g⟩
      else ⟨.returned (some ⟨(ends forRead r w).1⟩), [closed (ends forRead r w).2],
        g.setPid (ends forRead r w).1 pid⟩ := by
  cases forRead with
  | true  => rfl
  | false => rfl

/-- A call that returns `NULL` with an end of the pipe open. -/
theorem not_clean_of_kept {es : List Event} {g' : Globals} (hkept : Kept s (fdEvents es) fd) :
    ¬ Clean s mode o g ⟨.returned none, es, g'⟩ := by
  intro hclean
  have hsame : insert fd s = s := hkept.same.symm.trans (hclean.null rfl).1.same
  exact hkept.fresh (hsame ▸ Finset.mem_insert_self fd s)

/-- A call that returns a stream: the mode decides. -/
theorem clean_stream_iff {es : List Event} {g' : Globals} {r w : Nat} {pid : Pid} (hpipe : o.pipe = some (r, w))
    (hend : fd = r ∨ fd = w) (hfork : o.fork = .parent pid) (hkept : Kept s (fdEvents es) fd)
    (hpid : g'.pid fd = pid) :
    Clean s mode o g ⟨.returned (some ⟨fd⟩), es, g'⟩ ↔ mode = [114] ∨ mode = [119] := by
  constructor
  · intro hclean
    by_contra hmode
    rw [not_or] at hmode
    have hnull := hclean.mode hmode.1 hmode.2
    cases hnull
  · intro hmode
    refine ⟨?_, fun h => (by cases h), ?_⟩
    · intro hr hw
      rcases hmode with heq | heq
      · exact absurd heq hr
      · exact absurd heq hw
    · intro fp hfp
      cases hfp
      exact ⟨r, w, pid, hpipe, hend, hfork, hkept, hpid⟩

/-- **Behind `fork`** nothing is left only where all goes well, in one of the two modes. -/
theorem popenPipe_forked (cmd mode : List UInt8) (forRead : Bool) (hnew : NewPipe s o)
    (ht : g.childpid ≠ none) (hpipe : ¬ NoPipe o g.maxfd) (hparent : o.fork ≠ .child) :
    Clean s mode o g (popenPipe cmd forRead o g) ↔
      (mode = [114] ∨ mode = [119]) ∧ o.fork ≠ .error ∧ o.fdopen = true := by
  obtain ⟨r, w, hrw, hrlt, hwlt⟩ := exists_pipe hpipe
  obtain ⟨hr, hw, hne⟩ := hnew r w hrw
  have hkept := kept_ends hr hw hne forRead
  have hend := ends_eq forRead r w
  unfold popenPipe
  rw [hrw]
  dsimp only
  rw [if_neg (by omega)]
  cases hfork : o.fork with
  | child => exact absurd hfork hparent
  | error =>
      refine ⟨fun hclean => ?_, fun h => absurd rfl h.2.1⟩
      have hopen : .closed r ∉ fdEvents [created r, created w, .printed (ascii "fork error\n")] := by
        simp [fdEvents]
      exact absurd (hclean.null rfl).1 (not_disposed List.mem_cons_self hopen)
  | parent pid =>
      dsimp only
      rw [popenParent_eq]
      cases hopen : o.fdopen with
      | false =>
          refine ⟨fun hclean => ?_, fun h => absurd h.2.2 Bool.noConfusion⟩
          exact absurd hclean (not_clean_of_kept hkept)
      | true =>
          have hpid : (g.setPid (ends forRead r w).1 pid).pid (ends forRead r w).1 = pid := by
            apply Globals.pid_setPid_self ht
            rcases hend with heq | heq <;> omega
          rw [if_neg Bool.noConfusion]
          refine (clean_stream_iff hrw hend hfork hkept hpid).trans ?_
          exact ⟨fun hmode => ⟨hmode, fun h => (by cases h), rfl⟩, fun h => h.1⟩

/-! ## The call -/

/-- **The call, unfolded**: the second character decides, and the table comes before the pipe. -/
theorem myPopen_eq (h0 : type[0]? = some c) (h1 : type[1]? = some c') :
    myPopen cmd type o g = some (if c' ≠ 0 ∨ (g.withTable o.calloc).childpid = none then
        ⟨.returned none, [], if c' ≠ 0 then g else g.withTable o.calloc⟩
      else popenPipe cmd (c = 114) o (g.withTable o.calloc)) := by
  unfold myPopen
  rw [badMode_eq h0, h1, h0]
  by_cases hc : c' = 0
  · subst hc
    by_cases ht : (g.withTable o.calloc).childpid = none
    · simp [ht]
    · simp [ht]
  · simp [hc]

theorem Globals.withTable_eq_none {calloc : Bool} :
    (g.withTable calloc).childpid = none ↔ g.childpid = none ∧ calloc = false := by
  unfold Globals.withTable
  cases ht : g.childpid with
  | none =>
      show (Globals.allocate calloc).childpid = none ↔ _
      cases calloc with
      | false => exact ⟨fun _ => ⟨rfl, rfl⟩, fun _ => rfl⟩
      | true => exact ⟨fun h => (by cases h), fun h => absurd h.2 Bool.noConfusion⟩
  | some table =>
      rw [if_neg Bool.noConfusion, ht]
      exact ⟨fun h => (by cases h), fun h => (by cases h.1)⟩

/-- The number of entries the table has, or will have. -/
def Globals.entries (g : Globals) : Nat := if g.childpid.isNone then openMax else g.maxfd

theorem Globals.withTable_maxfd (calloc : Bool) : (g.withTable calloc).maxfd = g.entries := by
  unfold Globals.withTable Globals.entries
  split <;> rfl

/-- The call ends before `fork`: it gets no table, or no pipe. -/
def EndsEarly (g : Globals) (o : PopenCalls) : Prop :=
  (g.childpid = none ∧ o.calloc = false) ∨ NoPipe o g.entries

/-- Whether a call in the parent is clean, for each second character of the mode. -/
theorem myPopen_clean_iff (hnew : NewPipe s o) (hparent : o.fork ≠ .child) (h0 : type[0]? = some c)
    (h1 : type[1]? = some c') :
    (∃ p, myPopen cmd type o g = some p ∧ Clean s mode o g p) ↔
      c' ≠ 0 ∨ EndsEarly g o ∨ (mode = [114] ∨ mode = [119]) ∧ o.fork ≠ .error ∧ o.fdopen = true := by
  have hsame : ∀ p, Clean s mode o (g.withTable o.calloc) p ↔ Clean s mode o g p := by
    intro p
    constructor
    · exact Clean.of_pid_eq (Globals.pid_withTable g o.calloc)
    · exact Clean.of_pid_eq fun fd => (Globals.pid_withTable g o.calloc fd).symm
  rw [myPopen_eq h0 h1]
  by_cases hc : c' ≠ 0
  · rw [if_pos (Or.inl hc), if_pos hc]
    exact ⟨fun _ => Or.inl hc, fun _ => ⟨_, rfl, .of_null (disposed_nil s) fun _ => rfl⟩⟩
  by_cases ht : (g.withTable o.calloc).childpid = none
  · rw [if_pos (Or.inr ht), if_neg hc]
    have hearly := Globals.withTable_eq_none.mp ht
    refine ⟨fun _ => Or.inr (Or.inl (Or.inl hearly)), fun _ => ⟨_, rfl, ?_⟩⟩
    exact .of_null (disposed_nil s) (Globals.pid_withTable g o.calloc)
  rw [if_neg (not_or.mpr ⟨hc, ht⟩)]
  have htable : ¬ (g.childpid = none ∧ o.calloc = false) := fun h => ht (Globals.withTable_eq_none.mpr h)
  by_cases hpipe : NoPipe o (g.withTable o.calloc).maxfd
  · have hclean := popenPipe_noPipe cmd mode (c = 114) hnew hpipe
    rw [Globals.withTable_maxfd] at hpipe
    exact ⟨fun _ => Or.inr (Or.inl (Or.inr hpipe)), fun _ => ⟨_, rfl, (hsame _).mp hclean⟩⟩
  · have hforked := popenPipe_forked cmd mode (c = 114) hnew ht hpipe hparent
    rw [Globals.withTable_maxfd] at hpipe
    constructor
    · rintro ⟨p, hp, hclean⟩
      obtain rfl := Option.some.inj hp
      exact Or.inr (Or.inr (hforked.mp ((hsame _).mpr hclean)))
    · rintro (h | (h | h) | h)
      · exact absurd h hc
      · exact absurd h htable
      · exact absurd h hpipe
      · exact ⟨_, rfl, (hsame _).mp (hforked.mpr h)⟩

/-- **`my_popen` is clean**, in the parent, exactly where the mode has a second character, the call ends
    before `fork`, or `fork` and `fdopen` succeed in mode `r` or `w`; and where `type[1]` is there. -/
theorem my_popen_clean_iff {s : Finset Nat} {cmd type mode : List UInt8} {o : PopenCalls} {g : Globals}
    (hstr : HasStr type 0 mode) (hnew : NewPipe s o) (hparent : o.fork ≠ .child) :
    (∃ p, myPopen cmd type o g = some p ∧ Clean s mode o g p) ↔
      ∃ c', type[1]? = some c' ∧
        (c' ≠ 0 ∨ EndsEarly g o ∨ (mode = [114] ∨ mode = [119]) ∧ o.fork ≠ .error ∧ o.fdopen = true) := by
  obtain ⟨c, h0⟩ := exists_first hstr
  cases h1 : type[1]? with
  | none =>
      have hread : myPopen cmd type o g = none := by
        unfold myPopen
        rw [badMode_eq h0, h1]
        rfl
      rw [hread]
      exact ⟨fun ⟨p, hp, _⟩ => (by cases hp), fun ⟨c', hc', _⟩ => (by cases hc')⟩
  | some c' =>
      rw [myPopen_clean_iff hnew hparent h0 h1]
      constructor
      · exact fun h => ⟨c', rfl, h⟩
      · rintro ⟨c'', hc, h⟩
        obtain rfl := Option.some.inj hc
        exact h

/-- No descriptors, no table: the state of the first call. -/
theorem my_popen_clean_iff_first :
    ∃ p, myPopen (ascii "ls") (ascii "r" ++ [0]) ⟨true, some (3, 4), .parent ⟨77, by decide⟩, true, true⟩ .start
        = some p ∧
      Clean {0, 1, 2} (ascii "r") ⟨true, some (3, 4), .parent ⟨77, by decide⟩, true, true⟩ .start p := by
  apply (my_popen_clean_iff ?_ ?_ ?_).mpr
  · exact ⟨0, rfl, Or.inr (Or.inr ⟨Or.inl rfl, fun h => (by cases h), rfl⟩)⟩
  · exact ⟨by decide, [], rfl⟩
  · intro r w h
    obtain ⟨rfl, rfl⟩ := Prod.mk.inj (Option.some.inj h)
    decide
  · intro h
    cases h

/-- Mode "a" gets a stream; and where `fork` fails, both ends of the pipe stay open. -/
theorem my_popen_not_clean :
    (myPopen (ascii "ls") (ascii "a" ++ [0]) ⟨true, some (3, 4), .parent ⟨77, by decide⟩, true, true⟩ .start).map
      (·.ending) = some (.returned (some ⟨4⟩)) ∧
    (myPopen (ascii "ls") (ascii "r" ++ [0]) ⟨true, some (3, 4), .error, true, true⟩ .start).map
      (fun p => (p.ending, p.events))
      = some (.returned none, [created 3, created 4, .printed (ascii "fork error\n")]) ∧
    ¬ (∃ p, myPopen (ascii "ls") (ascii "r" ++ [0]) ⟨true, some (3, 4), .error, true, true⟩ .start = some p ∧
      Clean {0, 1, 2} (ascii "r") ⟨true, some (3, 4), .error, true, true⟩ .start p) := by
  refine ⟨by decide, by decide, ?_⟩
  rintro ⟨p, hp, hclean⟩
  have heq : myPopen (ascii "ls") (ascii "r" ++ [0]) ⟨true, some (3, 4), .error, true, true⟩ .start
      = some ⟨.returned none, [created 3, created 4, .printed (ascii "fork error\n")], .allocate true⟩ := rfl
  obtain rfl := Option.some.inj (heq.symm.trans hp)
  have hclosed := (hclean.null rfl).1.closed 3 List.mem_cons_self
  exact absurd hclosed (by decide)

end Popen
