import ApueToyCodes.Printd.Correctness.Moves
import ApueToyCodes.Printd.Correctness.Refine

/-!
# `Printd.Correctness.Order` — the order in which jobs leave the queue

Since the daemon was started, the jobs put on the queue are those printed or canceled and those that wait, in
this order (`InOrder`): a job that could not be sent goes back to where it was taken from. Each step of the
spooler with a list keeps it (`step_inOrder`), and `Correctness.Refine` carries it to the linked objects.
-/

namespace Printd
open Links DLinks Runs

/-! ## What happened since the last start -/

def sinceStart (out : List Out) : List Out := (out.reverse.takeWhile (· ≠ .started)).reverse

def queuedId : Out → Option Nat
  | .queued id => some id
  | _ => none

/-- A job leaves the queue for good: it is printed or canceled. -/
def leftId : Out → Option Nat
  | .printed id _ _ => some id
  | .canceled id => some id
  | _ => none

theorem sinceStart_started (out : List Out) : sinceStart (out ++ [.started]) = [] := by
  unfold sinceStart
  rw [List.reverse_append, List.reverse_singleton, List.singleton_append,
    List.takeWhile_cons_of_neg (by simp)]
  rfl

theorem sinceStart_concat {o : Out} (h : o ≠ .started) (out : List Out) :
    sinceStart (out ++ [o]) = sinceStart out ++ [o] := by
  unfold sinceStart
  rw [List.reverse_append, List.reverse_singleton, List.singleton_append,
    List.takeWhile_cons_of_pos (by simpa using h), List.reverse_cons]

/-- The jobs put on the queue are those that left it, and `ids`. -/
def InOrder (out : List Out) (ids : List Nat) : Prop :=
  (sinceStart out).filterMap queuedId = (sinceStart out).filterMap leftId ++ ids

namespace InOrder

variable {out : List Out} {ids : List Nat} {o : Out}

theorem started (out : List Out) : InOrder (out ++ [.started]) [] := by
  unfold InOrder
  rw [sinceStart_started]
  rfl

theorem concat (h : InOrder out ids) (hs : o ≠ .started) (hq : queuedId o = none) (hl : leftId o = none) :
    InOrder (out ++ [o]) ids := by
  unfold InOrder at h ⊢
  have hq' : [o].filterMap queuedId = [] := List.filterMap_cons_none hq
  have hl' : [o].filterMap leftId = [] := List.filterMap_cons_none hl
  rw [sinceStart_concat hs, List.filterMap_append, List.filterMap_append, hq', hl', List.append_nil,
    List.append_nil]
  exact h

theorem queued (h : InOrder out ids) (id : Nat) : InOrder (out ++ [.queued id]) (ids ++ [id]) := by
  unfold InOrder at h ⊢
  have hl : [Out.queued id].filterMap leftId = [] := rfl
  rw [sinceStart_concat Out.noConfusion, List.filterMap_append, List.filterMap_append, h, hl, List.append_nil,
    List.append_assoc]
  rfl

theorem left {id : Nat} (h : InOrder out (id :: ids)) (hs : o ≠ .started) (hq : queuedId o = none)
    (hl : leftId o = some id) : InOrder (out ++ [o]) ids := by
  unfold InOrder at h ⊢
  rw [sinceStart_concat hs, List.filterMap_append, List.filterMap_append, List.filterMap_cons_none hq,
    List.filterMap_cons_some hl, List.filterMap_nil, List.filterMap_nil, List.append_nil, h, List.append_assoc]
  rfl

end InOrder

/-! ## Steps -/

variable {T : Type}

/-- What a run keeps: a daemon that is down has nothing in memory, one that is up takes the jobs in order. -/
structure Standing (q : Queue T) : Prop where
  down  : q.core.main = .down → q.pending = [] ∧ q.printer = .waiting ∧ ∀ t, q.core.pc t = .idle
  order : q.core.main ≠ .down → InOrder q.core.out (q.pending.map Entry.id)

theorem Standing.init : Standing (Queue.init T) :=
  ⟨fun _ => ⟨rfl, rfl, fun _ => rfl⟩, fun h => absurd rfl h⟩

variable {q q' : Queue T}

/-- Nothing runs where the daemon is down. -/
theorem Standing.up_of_pending (h : Standing q) (hp : q.pending ≠ []) : q.core.main ≠ .down :=
  fun hdown => hp (h.down hdown).1

theorem Standing.up_of_pc (h : Standing q) {t : T} (hpc : q.core.pc t ≠ .idle) : q.core.main ≠ .down :=
  fun hdown => hpc ((h.down hdown).2.2 t)

theorem Standing.up_of_holds (h : Standing q) {e : Entry} {st : Stage} (hq : q.printer = .holds e st) :
    q.core.main ≠ .down := by
  intro hdown
  rw [(h.down hdown).2.1] at hq
  contradiction

theorem Standing.of_up (hup : q.core.main ≠ .down) (h : InOrder q.core.out (q.pending.map Entry.id)) :
    Standing q :=
  ⟨fun hdown => absurd hdown hup, fun _ => h⟩

/-- A step of the printer thread with its job. -/
theorem Standing.printed (h : Standing q) {e : Entry} {st : Stage} {a : PrinterAct} {core : Spooler T}
    {n : Next} (hq : q.printer = .holds e st) (hprint : printJob q.core e.id e.req st a = some (core, n))
    (hcore : q'.core = core) (hpending : q'.pending = (if n.waits then [e] else []) ++ q.jobs) :
    Standing q' := by
  have hup := h.up_of_holds hq
  have horder := h.order hup
  have hbefore : q.pending = (if st.waits then [e] else []) ++ q.jobs := by
    unfold Queue.pending
    rw [hq]
    rfl
  have hm := printJob_move hprint
  refine .of_up (by rw [hcore, hm.main]; exact hup) ?_
  rw [hcore, hpending]
  rw [hbefore] at horder
  obtain ⟨hout, hwaits⟩ | ⟨hst, ⟨hout, rfl⟩ | ⟨hout, hn⟩⟩ := hm.told
  · rw [hout, hwaits]
    exact horder
  · rw [hst] at horder
    rw [hout]
    exact horder.left Out.noConfusion rfl rfl
  · rw [hst] at horder
    rw [hout, hn]
    exact horder.left Out.noConfusion rfl rfl

variable [DecidableEq T]

theorem clientStep_down {c : Spooler T} (hdown : c.main = .down) (hidle : ∀ t, c.pc t = .idle) (t : T)
    (a : ClientAct) : c.clientStep t a = none := by
  unfold Spooler.clientStep
  rw [hidle t, hdown]
  cases a <;> rfl

theorem spoolStep_standing {e : Event T} {core : Spooler T} (h : Standing q)
    (hs : Spooler.Step q.core e core) : Standing { q with core := core } := by
  cases hs with
  | start hdown _ =>
      refine .of_up Main.noConfusion ?_
      show InOrder _ (q.pending.map Entry.id)
      rw [(h.down hdown).1]
      exact .started _
  | skip hmain =>
      have hup : q.core.main ≠ .down := hmain.trans_ne Main.noConfusion
      exact .of_up Main.noConfusion ((h.order hup).concat Out.noConfusion rfl rfl)
  | unreadable hmain _ =>
      have hup : q.core.main ≠ .down := hmain.trans_ne Main.noConfusion
      exact .of_up Main.noConfusion ((h.order hup).concat Out.noConfusion rfl rfl)
  | discard hmain =>
      have hup : q.core.main ≠ .down := hmain.trans_ne Main.noConfusion
      exact .of_up Main.noConfusion (h.order hup)
  | serve hmain =>
      have hup : q.core.main ≠ .down := hmain.trans_ne Main.noConfusion
      exact .of_up Main.noConfusion (h.order hup)
  | client hc =>
      have hup : q.core.main ≠ .down := by
        intro hdown
        rw [clientStep_down hdown (h.down hdown).2.2] at hc
        contradiction
      have hm := clientStep_move hc
      refine .of_up (show core.main ≠ .down by rw [hm.main]; exact hup) ?_
      show InOrder core.out (q.pending.map Entry.id)
      obtain hout | ⟨id, req, _, _, _, hout, _⟩ := hm.told
      · rw [hout]
        exact h.order hup
      · rw [hout]
        exact (h.order hup).concat Out.noConfusion rfl rfl

/-- **Each step keeps the order.** -/
theorem step_standing {e : Event T} (h : Standing q) (hs : Queue.Step q e q') : Standing q' := by
  cases hs with
  | spool hcore => exact spoolStep_standing h hcore
  | @add t id req jp hpc =>
      have hup : q.core.main ≠ .down := h.up_of_pc (by rw [hpc]; exact Pc.noConfusion)
      refine .of_up hup ?_
      have horder := (h.order hup).queued id
      unfold Queue.pending at horder ⊢
      rw [← List.append_assoc, List.map_append]
      exact horder
  | @requeue id todo req jp hmain _ =>
      have hup : q.core.main ≠ .down := hmain.trans_ne Main.noConfusion
      refine .of_up Main.noConfusion ?_
      have horder := (h.order hup).queued id
      unfold Queue.pending at horder ⊢
      rw [← List.append_assoc, List.map_append]
      exact horder
  | @pickup e jobs hw hjobs =>
      have hpending : q.pending = e :: jobs := by
        unfold Queue.pending
        rw [hw, hjobs]
        rfl
      have hup : q.core.main ≠ .down := h.up_of_pending (by rw [hpending]; exact List.cons_ne_nil _ _)
      refine .of_up hup ?_
      have hsame : Queue.pending { q with jobs := jobs, printer := .holds e .picked } = q.pending := hpending.symm
      rw [hsame]
      exact h.order hup
  | stage hq hprint => exact h.printed hq hprint rfl rfl
  | free hq hprint => exact h.printed hq hprint rfl rfl
  | replace hq hprint => exact h.printed hq hprint rfl rfl
  | crash _ => exact ⟨fun _ => ⟨rfl, rfl, fun _ => rfl⟩, fun hup => absurd rfl hup⟩

/-! ## The daemon -/

omit [DecidableEq T] in
theorem entry_id (s : State T) (jp : Nat) : (s.entry jp).map Entry.id = (s.heap jp).map Job.jobid := by
  unfold State.entry
  rw [Option.map_map]
  rfl

omit [DecidableEq T] in
theorem Hands.inHand {entry : Nat → Option Entry} {l : List Nat} {p : Printer Nat} {p' : Printer Entry}
    (h : Hands entry l p p') : p.inHand.map entry = p'.inHand.map some := by
  cases h with
  | waiting => rfl
  | @holds jp e st he _ =>
      show (if st.waits then [jp] else []).map entry = (if st.waits then [e] else []).map some
      split
      · exact congrArg (fun o => [o]) he
      · rfl

omit [DecidableEq T] in
/-- The objects of the jobs that wait. -/
theorem Refines.pending {s : State T} {l : List Nat} (h : Refines s q l) :
    (s.printer.inHand ++ l).map s.entry = q.pending.map some := by
  unfold Queue.pending
  rw [List.map_append, List.map_append, h.printer.inHand, h.jobs]

/-- **The daemon is a spooler with a list, and touches no freed memory.** Each run of the daemon is one of the
    spooler with a list, its objects are linked both ways in the order of the list, and no step that it can try
    next faults. -/
theorem daemon_has_queue {tr : List (Event T)} {s : State T} (h : Run Step (State.init T) tr s) :
    (∃ q l, Run Queue.Step (Queue.init T) tr q ∧ Refines s q l) ∧ ∀ e, queueStep s e ≠ .fault := by
  obtain ⟨q, l, hq, href⟩ := run_refines h Refines.init
  refine ⟨⟨q, l, hq, href⟩, fun e hfault => ?_⟩
  obtain hb | ⟨s', _, _, hs', _⟩ := queueStep_refines href e
  · rw [hb] at hfault
    contradiction
  · rw [hs'] at hfault
    contradiction

/-- A client that sends no names. -/
def emptyReq : PrintReq := ⟨0, 0, [], []⟩

theorem length_padded (s : List UInt8) (n : Nat) : (s ++ List.replicate n (0 : UInt8)).length = s.length + n := by
  rw [List.length_append, List.length_replicate]

/-- The document `abc`. -/
def abc : Piece where
  buf := [97, 98, 99] ++ List.replicate 8189 0
  nr := 3
  pos := by decide
  room := by rw [length_padded]; decide
  size := length_padded _ _

/-- A client is taken in, up to the call of `add_job`. -/
def taken (jp : Nat) (doc : List Piece) : List (Event Unit) :=
  [.client () .connect, .client () (.header (some emptyReq)), .client () .number, .client () (.creat true)] ++
    doc.map (fun b => .client () b.act) ++
    [.client () .eof, .client () (.creatReq true), .client () (.writeReq true), .client () (.respond true), .add () jp]

/-- One job with a document and one without; the first one cannot be sent. -/
def twoJobs : List (Event Unit) :=
  [.start [], .serve] ++ taken 0 [abc] ++ taken 1 [] ++
    [.pickup, .printer .update, .printer (.openData true), .printer (.send false), .printer .replace]

/-- Both jobs are on the queue, in the order in which they came. -/
theorem run_twoJobs : ∃ s : State Unit, Run Step (State.init Unit) twoJobs s ∧ s.jobhead = some 0 ∧
    s.jobtail = some 1 ∧ s.core.main = .serving ∧ (sinceStart s.core.out).filterMap queuedId = [1, 2] := by
  have hlists : (State.init Unit).core.Lists [] :=
    ⟨List.nodup_nil, fun id => by simp [State.init, Spooler.init]⟩
  refine ⟨_, .cons (.spool (.start rfl hlists)) <| .cons (.spool (.serve rfl)) <|
    .cons (.spool (.client rfl)) <| .cons (.spool (.client rfl)) <| .cons (.spool (.client rfl)) <|
    .cons (.spool (.client rfl)) <| .cons (.spool (.client (clientStep_piece abc rfl))) <|
    .cons (.spool (.client rfl)) <| .cons (.spool (.client rfl)) <|
    .cons (.spool (.client rfl)) <| .cons (.spool (.client rfl)) <| .cons (.queue rfl) <|
    .cons (.spool (.client rfl)) <| .cons (.spool (.client rfl)) <| .cons (.spool (.client rfl)) <|
    .cons (.spool (.client rfl)) <| .cons (.spool (.client rfl)) <| .cons (.spool (.client rfl)) <|
    .cons (.spool (.client rfl)) <| .cons (.spool (.client rfl)) <| .cons (.queue rfl) <|
    .cons (.queue rfl) <| .cons (.queue rfl) <| .cons (.queue rfl) <| .cons (.queue rfl) <|
    .cons (.queue rfl) .refl, rfl, rfl, rfl, rfl⟩

/-- Two jobs on the queue, one of them deferred. -/
theorem daemon_has_queue_example : ∃ s : State Unit, Run Step (State.init Unit) twoJobs s ∧
    s.jobhead = some 0 ∧ s.jobtail = some 1 ∧
    (∃ q l, Run Queue.Step (Queue.init Unit) twoJobs q ∧ Refines s q l) ∧ ∀ e, queueStep s e ≠ .fault := by
  obtain ⟨s, hrun, hhead, htail, _⟩ := run_twoJobs
  obtain ⟨hqueue, hfault⟩ := daemon_has_queue hrun
  exact ⟨s, hrun, hhead, htail, hqueue, hfault⟩

/-- **Jobs leave in the order in which they came.** While the daemon is up, the jobs put on the queue since it
    was started are those printed or canceled, the one in the hands of the printer thread and those linked from
    `jobhead`, in this order: none is lost, none is there twice, and one that could not be sent keeps its
    place. -/
theorem jobs_leave_in_order {s : State T} (h : Reached s) (hup : s.core.main ≠ .down) :
    ∃ l : List Nat, DLinked s.nextCell s.prevCell none (l.map some) ∧
      ((sinceStart s.core.out).filterMap queuedId).map some =
        ((sinceStart s.core.out).filterMap leftId).map some ++
          (s.printer.inHand ++ l).map fun jp => (s.heap jp).map Job.jobid := by
  obtain ⟨tr, hrun⟩ := h
  obtain ⟨q, l, hq, href⟩ := run_refines hrun Refines.init
  have hstanding : Standing q := hq.invariant (fun _ _ _ hi hs => step_standing hi hs) Standing.init
  have horder := hstanding.order (by rw [href.core]; exact hup)
  refine ⟨l, href.linked, ?_⟩
  unfold InOrder at horder
  rw [href.core] at horder
  rw [horder, List.map_append]
  congr 1
  calc (q.pending.map Entry.id).map some
      = (q.pending.map some).map (Option.map Entry.id) := by
        rw [List.map_map, List.map_map]
        rfl
    _ = ((s.printer.inHand ++ l).map s.entry).map (Option.map Entry.id) := by rw [href.pending]
    _ = (s.printer.inHand ++ l).map fun jp => (s.heap jp).map Job.jobid := by
        rw [List.map_map]
        exact List.map_congr_left fun jp _ => entry_id s jp

theorem jobs_leave_in_order_example : ∃ s : State Unit, Reached s ∧ s.core.main = .serving ∧
    (sinceStart s.core.out).filterMap queuedId = [1, 2] ∧
    ∃ l : List Nat, DLinked s.nextCell s.prevCell none (l.map some) ∧
      ((sinceStart s.core.out).filterMap queuedId).map some =
        ((sinceStart s.core.out).filterMap leftId).map some ++
          (s.printer.inHand ++ l).map fun jp => (s.heap jp).map Job.jobid := by
  obtain ⟨s, hrun, _, _, hmain, hqueued⟩ := run_twoJobs
  have hup : s.core.main ≠ .down := hmain.trans_ne Main.noConfusion
  exact ⟨s, ⟨_, hrun⟩, hmain, hqueued, jobs_leave_in_order ⟨_, hrun⟩ hup⟩

end Printd
