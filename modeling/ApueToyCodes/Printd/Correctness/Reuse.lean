import ApueToyCodes.Printd.Correctness.Spool

/-!
# `Printd.Correctness.Reuse` — numbers given out again

`update_jobno` writes the job file when the printer thread takes a job, so a daemon that ended before may be
followed by one that gives a number in use out again. What `Spool` shows is then lost: the next client writes
over the files of another (`reuse_breaks_promise`).
-/

namespace Printd
open Runs

variable {T : Type} [DecidableEq T]

theorem pc_goto (c : Spooler T) (t : T) (pc : Pc) : (c.goto t pc).pc t = pc := Function.update_self _ _ _

/-- What has come in these pieces. -/
def document (bs : List Piece) : List UInt8 := bs.flatMap Piece.bytes

@[simp] theorem document_nil : document [] = [] := rfl

@[simp] theorem document_cons (b : Piece) (bs : List Piece) : document (b :: bs) = b.bytes ++ document bs := rfl

/-- A client that sends its document, up to the new file of its request. -/
def overwrite (t : T) (req : PrintReq) (bs : List Piece) : List (Event T) :=
  [.client t .connect, .client t (.header (some req)), .client t .number, .client t (.creat true)] ++
    bs.map (fun b => .client t b.act) ++ [.client t .eof, .client t (.creatReq true)]

/-- The loop over the pieces. -/
theorem storing_run (t : T) (bs : List Piece) : ∀ {s : State T} {id : Nat} {req : PrintReq} {first : Bool}
    {doc d : List UInt8}, s.core.pc t = .storing id req first doc → s.core.data id = some d →
    ∃ c req' first', Run Step s (bs.map fun b => .client t b.act) { s with core := c } ∧
      c.pc t = .storing id req' first' (doc ++ document bs) ∧
      c.data = Function.update s.core.data id (some (d ++ document bs)) ∧
      c.reqs = s.core.reqs ∧ c.out = s.core.out ∧ c.main = s.core.main ∧ c.jobno = s.core.jobno := by
  induction bs with
  | nil =>
      intro s id req first doc d hpc hdata
      refine ⟨s.core, req, first, .refl, ?_, ?_, rfl, rfl, rfl, rfl⟩
      · rw [hpc, document_nil, List.append_nil]
      · rw [document_nil, List.append_nil, ← hdata, Function.update_eq_self]
  | cons b bs ih =>
      intro s id req first doc d hpc hdata
      have hstep := clientStep_piece b hpc
      set c₁ := (s.core.setData id ((s.core.data id).map (· ++ b.bytes))).goto t
        (.storing id (Spooler.sniffed first b.buf req) false (doc ++ b.bytes)) with hc₁
      have hdata₁ : c₁.data id = some (d ++ b.bytes) := by
        rw [hc₁, hdata]
        exact Function.update_self _ _ _
      obtain ⟨c, req', first', hrun, hpc', hdata', hreqs, hout, hmain, hjobno⟩ :=
        ih (s := { s with core := c₁ }) (pc_goto _ t _) hdata₁
      refine ⟨c, req', first', .cons (.spool (.client hstep)) hrun, ?_, ?_, hreqs, hout, hmain, hjobno⟩
      · rw [hpc', document_cons, List.append_assoc]
      · rw [hdata', document_cons, ← List.append_assoc]
        exact Function.update_idem _ _ _

/-- A client is taken in, whatever has the next number. -/
theorem overwrite_run {s : State T} {t : T} (req : PrintReq) (bs : List Piece) (hmain : s.core.main = .serving)
    (hpc : s.core.pc t = .idle) :
    ∃ c req', Run Step s (overwrite t req bs) { s with core := c } ∧
      c.pc t = .writingReq s.core.nextjob req' (document bs) ∧
      c.data = Function.update s.core.data s.core.nextjob (some (document bs)) ∧
      c.reqs = Function.update s.core.reqs s.core.nextjob (some none) ∧ c.out = s.core.out ∧
      c.main = .serving ∧ c.jobno = s.core.jobno := by
  set n := s.core.nextjob
  set c₁ := s.core.goto t .header
  have h₁ : s.core.clientStep t .connect = some c₁ := by
    unfold Spooler.clientStep
    rw [hpc, hmain]
  set c₂ := c₁.goto t (.numbering req)
  have h₂ : c₁.clientStep t (.header (some req)) = some c₂ := by
    unfold Spooler.clientStep
    rw [pc_goto]
  set c₃ := c₂.newjobno.goto t (.creating n req)
  have h₃ : c₂.clientStep t .number = some c₃ := by
    unfold Spooler.clientStep
    rw [pc_goto]
    rfl
  set c₄ := (c₃.setData n (some [])).goto t (.storing n req true [])
  have h₄ : c₃.clientStep t (.creat true) = some c₄ := by
    unfold Spooler.clientStep
    rw [pc_goto]
    rfl
  have hdata₄ : c₄.data n = some [] := Function.update_self _ _ _
  obtain ⟨c₅, req', first', hrun, hpc₅, hdata, hreqs, hout, hmain₅, hjobno⟩ :=
    storing_run t bs (s := { s with core := c₄ }) (pc_goto _ t _) hdata₄
  set c₆ := c₅.goto t (.creatingReq n req' ([] ++ document bs))
  have h₆ : c₅.clientStep t .eof = some c₆ := by
    unfold Spooler.clientStep
    rw [hpc₅]
  set c₇ := (c₆.setReq n (some none)).goto t (.writingReq n req' ([] ++ document bs))
  have h₇ : c₆.clientStep t (.creatReq true) = some c₇ := by
    unfold Spooler.clientStep
    rw [pc_goto]
    rfl
  refine ⟨c₇, req', ?_, pc_goto _ t _, ?_, ?_, hout, hmain₅.trans hmain, hjobno⟩
  · exact .append (.append (.cons (.spool (.client h₁)) <| .cons (.spool (.client h₂)) <|
      .cons (.spool (.client h₃)) <| .cons (.spool (.client h₄)) .refl) hrun)
      (.cons (.spool (.client h₆)) <| .cons (.spool (.client h₇)) .refl)
  · exact hdata.trans (Function.update_idem _ _ _)
  · exact congrArg (fun reqs => Function.update reqs n (some none)) hreqs

/-- `build_qonstart` puts the first job on the queue. -/
theorem requeue_first {s : State T} {id : Nat} {todo : List Nat} {req : PrintReq}
    (hmain : s.core.main = .building (id :: todo)) (hreq : s.core.reqs id = some (some req))
    (hheap : s.heap 0 = none) (htail : s.jobtail = none) :
    ∃ s', queueStep s (.requeue 0) = .next s' ∧
      s'.core = { s.core with main := .building todo }.tell (.queued id) := by
  simp only [queueStep, hmain, hreq, hheap, State.addJob, State.setJob, htail, Outcome.ofOption, if_true]
  exact ⟨_, rfl, rfl⟩

/-- A daemon that ends before the printer thread has taken the job of its client, and the next one. -/
theorem reached_reuse (t : T) : ∃ s : State T, Reached s ∧ s.core.main = .serving ∧ s.core.pc t = .idle ∧
    ∃ p, promised s.core.out s.core.nextjob = some p := by
  have hlists : (State.init T).core.Lists [] :=
    ⟨List.nodup_nil, fun id => by simp [State.init, Spooler.init]⟩
  obtain ⟨s, hrun, hmain, hpc, hnext, hout, hreqs, hjobno⟩ : ∃ s : State T,
      Run Step (State.init T) [.start [], .serve] s ∧ s.core.main = .serving ∧ s.core.pc t = .idle ∧
      s.core.nextjob = 1 ∧ s.core.out = [.started] ∧ s.core.reqs = (State.init T).core.reqs ∧ s.core.jobno = [] :=
    ⟨_, .cons (.spool (.start rfl hlists)) <| .cons (.spool (.serve rfl)) .refl, rfl, rfl, rfl, rfl, rfl, rfl⟩
  obtain ⟨c, req, hrun', hpc', -, hreqs', hout', hmain', hjobno'⟩ := overwrite_run emptyReq [] hmain hpc
  rw [hnext] at hpc' hreqs'
  -- the client is told its number
  set c₁ := (c.setReq 1 (some (some req))).goto t (.responding 1 req [])
  have h₁ : c.clientStep t (.writeReq true) = some c₁ := by
    unfold Spooler.clientStep
    rw [hpc']
    rfl
  set c₂ := (c₁.tell (.accepted 1 req [])).goto t (.adding 1 req)
  have h₂ : c₁.clientStep t (.respond true) = some c₂ := by
    unfold Spooler.clientStep
    rw [pc_goto]
    rfl
  -- the daemon is gone
  have h₃ : queueStep { s with core := c₂ } .crash = .next { State.init T with core := c₂.crashed } := by
    unfold queueStep
    rw [show ({ s with core := c₂ } : State T).core.main = .serving from hmain']
  -- the next one finds the job
  have hreq : c₂.crashed.reqs = Function.update (State.init T).core.reqs 1 (some (some req)) := by
    show Function.update c.reqs 1 (some (some req)) = _
    rw [hreqs', hreqs, Function.update_idem]
  have hlists' : c₂.crashed.Lists [1] := by
    refine ⟨List.nodup_singleton 1, fun id => ?_⟩
    rw [hreq, List.mem_singleton]
    by_cases hid : id = 1
    · rw [hid, Function.update_self]
      exact iff_of_true rfl (Option.some_ne_none _)
    · rw [Function.update_of_ne hid]
      exact iff_of_false hid fun hne => hne rfl
  set c₄ := { c₂.crashed.initRequest with main := Main.building [1] }.tell .started
  have hreq₄ : c₄.reqs 1 = some (some req) := by
    show c₂.crashed.reqs 1 = _
    rw [hreq, Function.update_self]
  obtain ⟨s₅, h₅, hcore⟩ := requeue_first (s := { State.init T with core := c₄ }) rfl hreq₄ rfl rfl
  have hmain₅ : s₅.core.main = .building [] := by rw [hcore]; rfl
  have hreached : Reached { s₅ with core := { s₅.core with main := .serving } } :=
    ⟨_, hrun.append <| hrun'.append <| .cons (.spool (.client h₁)) <| .cons (.spool (.client h₂)) <|
      .cons (.queue h₃) <| .cons (.spool (.start rfl hlists')) <| .cons (.queue h₅) <|
      .cons (.spool (.serve hmain₅)) .refl⟩
  refine ⟨_, hreached, rfl, ?_, (req, []), ?_⟩
  · show s₅.core.pc t = .idle
    rw [hcore]
    rfl
  · have hnext₅ : s₅.core.nextjob = 1 := by
      rw [hcore]
      exact if_pos (hjobno'.trans hjobno)
    have hout₅ : s₅.core.out = [.started, .accepted 1 req [], .started, .queued 1] := by
      rw [hcore]
      show ((c.out ++ [.accepted 1 req []]) ++ [.started]) ++ [.queued 1] = _
      rw [hout', hout]
      rfl
    show promised s₅.core.out s₅.core.nextjob = _
    rw [hnext₅, hout₅]
    rfl

/-- **A number in use that is given out costs a client its job.** There are such numbers: a daemon that serves
    may have a promise under the number that comes next. Any client that connects to it puts its own document
    in the place of the promised one and empties the file of the request. -/
theorem reuse_breaks_promise (t : T) :
    (∃ s : State T, Reached s ∧ s.core.main = .serving ∧ s.core.pc t = .idle ∧
      ∃ p, promised s.core.out s.core.nextjob = some p) ∧
    ∀ (s : State T) (p : PrintReq × List UInt8) (req : PrintReq) (bs : List Piece), s.core.main = .serving →
      s.core.pc t = .idle → promised s.core.out s.core.nextjob = some p →
      ∃ s', Run Step s (overwrite t req bs) s' ∧ promised s'.core.out s.core.nextjob = some p ∧
        s'.core.data s.core.nextjob = some (document bs) ∧ s'.core.reqs s.core.nextjob = some none := by
  refine ⟨reached_reuse t, fun s p req bs hmain hpc hp => ?_⟩
  obtain ⟨c, req', hrun, -, hdata, hreqs, hout, -⟩ := overwrite_run req bs hmain hpc
  refine ⟨{ s with core := c }, hrun, ?_, ?_, ?_⟩
  · exact (congrArg (promised · s.core.nextjob) hout).trans hp
  · exact (congrFun hdata _).trans (Function.update_self _ _ _)
  · exact (congrFun hreqs _).trans (Function.update_self _ _ _)

/-- The document of one client in the place of another's. -/
theorem reuse_breaks_promise_example : ∃ (s s' : State Unit) (p : PrintReq × List UInt8), Reached s ∧
    promised s.core.out s.core.nextjob = some p ∧ Run Step s (overwrite () emptyReq [abc]) s' ∧
    s'.core.data s.core.nextjob = some [97, 98, 99] ∧ s'.core.reqs s.core.nextjob = some none := by
  obtain ⟨⟨s, hreached, hmain, hpc, p, hp⟩, hbreaks⟩ := reuse_breaks_promise ()
  obtain ⟨s', hrun, _, hdata, hreqs⟩ := hbreaks s p emptyReq [abc] hmain hpc hp
  exact ⟨s, s', p, hreached, hp, hrun, hdata, hreqs⟩

end Printd
