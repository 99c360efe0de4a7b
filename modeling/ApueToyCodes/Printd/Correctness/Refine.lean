import ApueToyCodes.Lib.DLinks
import ApueToyCodes.Printd.Queue

/-!
# `Printd.Correctness.Refine` — the linked objects are the list

Seen with `NULL` for the sentinel, head and tail of the queue are its two pointers, and the cases `add_job`,
`replace_job` and `remove_job` make are assignments to one or the other cell. Each function has one lemma that
says which pointers it sets; with `Lib.DLinks` it inserts or removes an element. `Refines` ties the daemon to
the spooler with a list, and `step_refines` shows that the two take the same steps and that no freed object is
touched.
-/

namespace Printd
open Links DLinks Runs

variable {T : Type}

/-! ## Cells -/

namespace State

/-- `NULL` stands for the queue itself. -/
def nextCell (s : State T) : Option Nat → Option Nat
  | none    => s.jobhead
  | some jp => (s.heap jp).bind Job.next

def prevCell (s : State T) : Option Nat → Option Nat
  | none    => s.jobtail
  | some jp => (s.heap jp).bind Job.prev

/-- What an object says besides its pointers. -/
def entry (s : State T) (jp : Nat) : Option Entry := (s.heap jp).map fun job => ⟨job.jobid, job.req⟩

end State

/-- The same but for pointers. -/
structure SameJobs (s s' : State T) : Prop where
  core    : s'.core = s.core
  printer : s'.printer = s.printer
  entry   : s'.entry = s.entry

variable {s s' : State T} {jp : Nat} {job : Job}

/-! ## One object -/

theorem entry_setJob : (s.setJob jp job).entry = Function.update s.entry jp (some ⟨job.jobid, job.req⟩) := by
  funext a
  show (Function.update s.heap jp (some job) a).map _ = _
  by_cases ha : a = jp
  · rw [ha, Function.update_self, Function.update_self]
    rfl
  · rw [Function.update_of_ne ha, Function.update_of_ne ha]
    rfl

theorem nextCell_setJob : (s.setJob jp job).nextCell = Function.update s.nextCell (some jp) job.next := by
  funext c
  cases c with
  | none =>
      rw [Function.update_of_ne (Option.some_ne_none jp).symm]
      rfl
  | some a =>
      show (Function.update s.heap jp (some job) a).bind Job.next = _
      by_cases ha : a = jp
      · rw [ha, Function.update_self, Function.update_self]
        rfl
      · rw [Function.update_of_ne ha, Function.update_of_ne fun h => ha (Option.some.inj h)]
        rfl

theorem prevCell_setJob : (s.setJob jp job).prevCell = Function.update s.prevCell (some jp) job.prev := by
  funext c
  cases c with
  | none =>
      rw [Function.update_of_ne (Option.some_ne_none jp).symm]
      rfl
  | some a =>
      show (Function.update s.heap jp (some job) a).bind Job.prev = _
      by_cases ha : a = jp
      · rw [ha, Function.update_self, Function.update_self]
        rfl
      · rw [Function.update_of_ne ha, Function.update_of_ne fun h => ha (Option.some.inj h)]
        rfl

theorem setJob_sameJobs (hjob : s.entry jp = some ⟨job.jobid, job.req⟩) : SameJobs s (s.setJob jp job) :=
  ⟨rfl, rfl, by rw [entry_setJob, ← hjob, Function.update_eq_self]⟩

theorem entry_of_heap (hjob : s.heap jp = some job) : s.entry jp = some ⟨job.jobid, job.req⟩ := by
  unfold State.entry
  rw [hjob]
  rfl

theorem heap_of_entry {e : Entry} (h : s.entry jp = some e) :
    ∃ job, s.heap jp = some job ∧ e = ⟨job.jobid, job.req⟩ := by
  obtain ⟨job, hjob, rfl⟩ := Option.map_eq_some_iff.mp h
  exact ⟨job, hjob, rfl⟩

/-! ## Assignments to cells -/

/-- `next` of a cell is assigned, whichever way the source writes it. -/
theorem setNext_spec (hjp : s.entry jp ≠ none) (v : Option Nat) :
    ∃ s', s.setNext jp v = some s' ∧ SameJobs s s' ∧
      s'.nextCell = Function.update s.nextCell (some jp) v ∧ s'.prevCell = s.prevCell ∧
      s'.jobhead = s.jobhead ∧ s'.jobtail = s.jobtail := by
  obtain ⟨e, he⟩ := Option.ne_none_iff_exists'.mp hjp
  obtain ⟨job, hjob, _⟩ := heap_of_entry he
  have hprev : s.prevCell (some jp) = job.prev := by
    show (s.heap jp).bind Job.prev = job.prev
    rw [hjob]
    rfl
  refine ⟨s.setJob jp { job with next := v }, ?_, setJob_sameJobs ?_, nextCell_setJob, ?_,
    rfl, rfl⟩
  · unfold State.setNext
    rw [hjob]
    rfl
  · have hentry := entry_of_heap hjob
    exact hentry
  · rw [prevCell_setJob, ← hprev, Function.update_eq_self]

theorem setPrev_spec (hjp : s.entry jp ≠ none) (v : Option Nat) :
    ∃ s', s.setPrev jp v = some s' ∧ SameJobs s s' ∧ s'.nextCell = s.nextCell ∧
      s'.prevCell = Function.update s.prevCell (some jp) v ∧ s'.jobhead = s.jobhead ∧
      s'.jobtail = s.jobtail := by
  obtain ⟨e, he⟩ := Option.ne_none_iff_exists'.mp hjp
  obtain ⟨job, hjob, _⟩ := heap_of_entry he
  have hnext : s.nextCell (some jp) = job.next := by
    show (s.heap jp).bind Job.next = job.next
    rw [hjob]
    rfl
  refine ⟨s.setJob jp { job with prev := v }, ?_, setJob_sameJobs ?_, ?_, prevCell_setJob,
    rfl, rfl⟩
  · unfold State.setPrev
    rw [hjob]
    rfl
  · have hentry := entry_of_heap hjob
    exact hentry
  · rw [nextCell_setJob, ← hnext, Function.update_eq_self]

theorem nextCell_setHead (v : Option Nat) :
    ({ s with jobhead := v } : State T).nextCell = Function.update s.nextCell none v := by
  funext c
  cases c with
  | none => rw [Function.update_self]; rfl
  | some a => rw [Function.update_of_ne (Option.some_ne_none a)]; rfl

theorem prevCell_setTail (v : Option Nat) :
    ({ s with jobtail := v } : State T).prevCell = Function.update s.prevCell none v := by
  funext c
  cases c with
  | none => rw [Function.update_self]; rfl
  | some a => rw [Function.update_of_ne (Option.some_ne_none a)]; rfl

/-! ## The three functions -/

/-- **`add_job`** links a new object behind the last. -/
theorem addJob_spec (id : Nat) (req : PrintReq) (hnew : s.entry jp = none)
    (htail : ∀ t, s.jobtail = some t → s.entry t ≠ none) :
    ∃ s', s.addJob jp id req = some s' ∧ s'.core = s.core ∧ s'.printer = s.printer ∧
      s'.entry = Function.update s.entry jp (some ⟨id, req⟩) ∧
      s'.nextCell = Function.update (Function.update s.nextCell (some jp) none) s.jobtail (some jp) ∧
      s'.prevCell = Function.update (Function.update s.prevCell (some jp) s.jobtail) none (some jp) := by
  set job : Job := ⟨none, s.jobtail, id, req⟩ with hjob
  unfold State.addJob
  dsimp only
  rw [← hjob]
  cases hcase : (s.setJob jp job).jobtail with
  | none =>
      have ht : s.jobtail = none := hcase
      refine ⟨_, rfl, rfl, rfl, entry_setJob, ?_, ?_⟩
      · rw [ht, ← show job.next = none from rfl, ← nextCell_setJob]
        exact nextCell_setHead (s := s.setJob jp job) (some jp)
      · rw [← show job.prev = s.jobtail from rfl, ← prevCell_setJob]
        exact prevCell_setTail (s := s.setJob jp job) (some jp)
  | some t =>
      have ht : s.jobtail = some t := hcase
      have hlive : (s.setJob jp job).entry t ≠ none := by
        rw [entry_setJob, Function.update_of_ne]
        · exact htail t ht
        · rintro rfl
          exact htail t ht hnew
      obtain ⟨s₁, hs₁, hsame, hnext, hprev, _, _⟩ := setNext_spec hlive (some jp)
      refine ⟨{ s₁ with jobtail := some jp }, by dsimp only; rw [hs₁]; rfl, hsame.core, hsame.printer,
        hsame.entry.trans entry_setJob, ?_, ?_⟩
      · rw [ht, ← show job.next = none from rfl, ← nextCell_setJob]
        exact hnext
      · rw [← show job.prev = s.jobtail from rfl, ← prevCell_setJob, ← hprev]
        exact prevCell_setTail (some jp)

/-- **`replace_job`** links an object in front of the first. -/
theorem replaceJob_spec (hjp : s.entry jp ≠ none) (hhead : ∀ h, s.jobhead = some h → s.entry h ≠ none) :
    ∃ s', s.replaceJob jp = some s' ∧ SameJobs s s' ∧
      s'.nextCell = Function.update (Function.update s.nextCell (some jp) s.jobhead) none (some jp) ∧
      s'.prevCell = Function.update (Function.update s.prevCell (some jp) none) s.jobhead (some jp) := by
  obtain ⟨e, he⟩ := Option.ne_none_iff_exists'.mp hjp
  obtain ⟨old, hold, _⟩ := heap_of_entry he
  set job : Job := { old with prev := none, next := s.jobhead } with hjob
  have hold' := entry_of_heap hold
  have hsame₀ : SameJobs s (s.setJob jp job) := setJob_sameJobs hold'
  unfold State.replaceJob
  rw [hold, Option.bind_eq_bind, Option.bind_some]
  dsimp only
  rw [← hjob]
  cases hcase : (s.setJob jp job).jobhead with
  | none =>
      have hh : s.jobhead = none := hcase
      refine ⟨_, rfl, ⟨rfl, rfl, hsame₀.entry⟩, ?_, ?_⟩
      · rw [← show job.next = s.jobhead from rfl, ← nextCell_setJob]
        exact nextCell_setHead (s := s.setJob jp job) (some jp)
      · rw [hh, ← show job.prev = none from rfl, ← prevCell_setJob]
        exact prevCell_setTail (s := s.setJob jp job) (some jp)
  | some h =>
      have hh : s.jobhead = some h := hcase
      have hlive : (s.setJob jp job).entry h ≠ none := by
        rw [hsame₀.entry]
        exact hhead h hh
      obtain ⟨s₁, hs₁, hsame, hnext, hprev, _, _⟩ := setPrev_spec hlive (some jp)
      refine ⟨{ s₁ with jobhead := some jp }, by dsimp only; rw [hs₁]; rfl,
        ⟨hsame.core, hsame.printer, hsame.entry.trans hsame₀.entry⟩, ?_, ?_⟩
      · rw [← show job.next = s.jobhead from rfl, ← nextCell_setJob, ← hnext]
        exact nextCell_setHead (some jp)
      · rw [hh, ← show job.prev = none from rfl, ← prevCell_setJob]
        exact hprev

theorem removeJob_eq (hjob : s.heap jp = some job) :
    s.removeJob jp =
      (match job.next with
        | some n => s.setPrev n job.prev
        | none => some { s with jobtail := job.prev }).bind fun s =>
        match job.prev with
        | some p => s.setNext p job.next
        | none => some { s with jobhead := job.next } := by
  unfold State.removeJob
  rw [hjob, Option.bind_eq_bind, Option.bind_some]
  cases job.next <;> rfl

/-- **`remove_job`** leads the neighbours of an object around it. -/
theorem removeJob_spec (hjp : s.entry jp ≠ none)
    (hn : ∀ n, s.nextCell (some jp) = some n → s.entry n ≠ none)
    (hp : ∀ p, s.prevCell (some jp) = some p → s.entry p ≠ none) :
    ∃ s', s.removeJob jp = some s' ∧ SameJobs s s' ∧
      s'.nextCell = Function.update s.nextCell (s.prevCell (some jp)) (s.nextCell (some jp)) ∧
      s'.prevCell = Function.update s.prevCell (s.nextCell (some jp)) (s.prevCell (some jp)) := by
  obtain ⟨e, he⟩ := Option.ne_none_iff_exists'.mp hjp
  obtain ⟨job, hjob, _⟩ := heap_of_entry he
  have hnext : s.nextCell (some jp) = job.next := by
    show (s.heap jp).bind Job.next = job.next
    rw [hjob]
    rfl
  have hprev : s.prevCell (some jp) = job.prev := by
    show (s.heap jp).bind Job.prev = job.prev
    rw [hjob]
    rfl
  rw [hnext] at hn
  rw [hprev] at hp
  -- first `prev` of what comes after, or `jobtail`
  obtain ⟨s₁, hs₁, hsame₁, hnext₁, hprev₁⟩ : ∃ s₁ : State T,
      (match job.next with
        | some n => s.setPrev n job.prev
        | none => some { s with jobtail := job.prev }) = some s₁ ∧ SameJobs s s₁ ∧
        s₁.nextCell = s.nextCell ∧ s₁.prevCell = Function.update s.prevCell job.next job.prev := by
    cases hc : job.next with
    | none => exact ⟨_, rfl, ⟨rfl, rfl, rfl⟩, rfl, prevCell_setTail _⟩
    | some n =>
        obtain ⟨s₁, hs₁, hsame₁, hn₁, hp₁, _, _⟩ := setPrev_spec (hn n hc) job.prev
        exact ⟨s₁, hs₁, hsame₁, hn₁, hp₁⟩
  rw [removeJob_eq hjob, hs₁, Option.bind_some, hnext, hprev]
  cases hc : job.prev with
  | none =>
      refine ⟨_, rfl, ⟨hsame₁.core, hsame₁.printer, hsame₁.entry⟩, ?_, hc ▸ hprev₁⟩
      rw [← hnext₁]
      exact nextCell_setHead _
  | some p =>
      have hlive : s₁.entry p ≠ none := by
        rw [hsame₁.entry]
        exact hp p hc
      obtain ⟨s₂, hs₂, hsame₂, hn₂, hp₂, _, _⟩ := setNext_spec hlive job.next
      refine ⟨s₂, hs₂, ⟨hsame₂.core.trans hsame₁.core, hsame₂.printer.trans hsame₁.printer,
        hsame₂.entry.trans hsame₁.entry⟩, ?_, ?_⟩
      · rw [hn₂, hnext₁]
      · rw [hp₂, hprev₁, hc]

/-! ## The refinement -/

/-- The printer threads hold the same job, and it is not on the list. -/
inductive Hands (entry : Nat → Option Entry) (l : List Nat) : Printer Nat → Printer Entry → Prop
  | waiting : Hands entry l .waiting .waiting
  | holds {jp : Nat} {e : Entry} {st : Stage} : entry jp = some e → jp ∉ l →
      Hands entry l (.holds jp st) (.holds e st)

/-- The objects at `l`, linked both ways, are the queue. -/
structure Refines (s : State T) (q : Queue T) (l : List Nat) : Prop where
  core    : q.core = s.core
  linked  : DLinked s.nextCell s.prevCell none (l.map some)
  jobs    : l.map s.entry = q.jobs.map some
  printer : Hands s.entry l s.printer q.printer

variable {q : Queue T} {l : List Nat}

theorem Refines.init : Refines (State.init T) (Queue.init T) [] :=
  ⟨rfl, .empty rfl rfl, rfl, .waiting⟩

theorem Refines.setCore (h : Refines s q l) (core : Spooler T) :
    Refines { s with core := core } { q with core := core } l :=
  ⟨rfl, h.linked, h.jobs, h.printer⟩

theorem Refines.head (h : Refines s q l) : s.jobhead = l.head? := by
  rw [show s.jobhead = s.nextCell none from rfl, h.linked.head]
  cases l <;> rfl

theorem Refines.tail (h : Refines s q l) : s.jobtail = before none (l.map some) := h.linked.tail

/-- The objects on the list are there. -/
theorem Refines.live (h : Refines s q l) {jp : Nat} (hjp : jp ∈ l) : s.entry jp ≠ none := by
  have hm : s.entry jp ∈ q.jobs.map some := h.jobs ▸ List.mem_map_of_mem hjp
  obtain ⟨e, _, he⟩ := List.mem_map.mp hm
  rw [← he]
  exact Option.some_ne_none e

theorem Refines.waiting (h : Refines s q l) (hs : s.printer = .waiting) : q.printer = .waiting := by
  have hp := h.printer
  rw [hs] at hp
  generalize q.printer = p at hp
  cases hp with
  | waiting => rfl

/-- The job in the hands of the printer thread. -/
theorem Refines.held {st : Stage} (h : Refines s q l) (hs : s.printer = .holds jp st) :
    ∃ e, q.printer = .holds e st ∧ s.entry jp = some e ∧ jp ∉ l := by
  have hp := h.printer
  rw [hs] at hp
  generalize q.printer = p at hp
  cases hp with
  | holds he hjp => exact ⟨_, rfl, he, hjp⟩

theorem mem_of_before {t : Nat} (ht : before none (l.map some) = some t) : t ∈ l := by
  rcases List.mem_cons.mp (before_mem none (l.map some)) with heq | hm
  · rw [heq] at ht
    contradiction
  · rw [ht] at hm
    obtain ⟨a, ha, heq⟩ := List.mem_map.mp hm
    obtain rfl := Option.some.inj heq
    exact ha

theorem some_notMem_cells {jp : Nat} (hjp : jp ∉ l) : some jp ∉ none :: l.map some := by
  rw [List.mem_cons, not_or]
  refine ⟨Option.some_ne_none jp, fun hm => ?_⟩
  obtain ⟨a, ha, heq⟩ := List.mem_map.mp hm
  obtain rfl := Option.some.inj heq
  exact hjp ha

/-- An entry written elsewhere. -/
theorem map_update {jp : Nat} (hjp : jp ∉ l) (e : Option Entry) :
    l.map (Function.update s.entry jp e) = l.map s.entry := by
  apply List.map_congr_left
  intro a ha
  have hne : a ≠ jp := by
    rintro rfl
    exact hjp ha
  exact Function.update_of_ne hne _ _

theorem Hands.of_new {entry : Nat → Option Entry} {p : Printer Nat} {p' : Printer Entry} {jp : Nat}
    (h : Hands entry l p p') (hnew : entry jp = none) (e : Option Entry) :
    Hands (Function.update entry jp e) (l ++ [jp]) p p' := by
  cases h with
  | waiting => exact .waiting
  | @holds a e' st ha hl =>
      have hne : a ≠ jp := by
        rintro rfl
        rw [hnew] at ha
        contradiction
      refine .holds ((Function.update_of_ne hne _ _).trans ha) fun hm => ?_
      rcases List.mem_append.mp hm with hm | hm
      · exact hl hm
      · exact hne (List.mem_singleton.mp hm)

/-- **`add_job`** puts the job behind the others. -/
theorem addJob_refines (h : Refines s q l) (hnew : s.entry jp = none) (id : Nat) (req : PrintReq) :
    ∃ s', s.addJob jp id req = some s' ∧
      Refines s' { q with jobs := q.jobs ++ [⟨id, req⟩] } (l ++ [jp]) := by
  have hjp : jp ∉ l := fun hm => h.live hm hnew
  obtain ⟨s', hs', hcore, hprinter, hentry, hnext, hprev⟩ := addJob_spec id req hnew
    fun t ht => h.live (mem_of_before (h.tail.symm.trans ht))
  refine ⟨s', hs', h.core.trans hcore.symm, ?_, ?_, ?_⟩
  · have hl : DLinked s.nextCell s.prevCell none (l.map some ++ []) := by
      rw [List.append_nil]
      exact h.linked
    have hins := hl.insert_update (o := some jp) (by rw [List.append_nil]; exact some_notMem_cells hjp)
    rw [hnext, hprev, List.map_append, h.tail]
    exact hins
  · rw [hentry, List.map_append, List.map_append, map_update hjp, h.jobs, List.map_singleton,
      Function.update_self]
    rfl
  · rw [hprinter, hentry]
    exact h.printer.of_new hnew _

/-- **`replace_job`** puts the job of the printer thread in front of the others. -/
theorem replaceJob_refines {e : Entry} {st : Stage} (h : Refines s q l) (hs : s.printer = .holds jp st)
    (hq : q.printer = .holds e st) :
    ∃ s', { s with printer := .waiting }.replaceJob jp = some s' ∧
      Refines s' { q with jobs := e :: q.jobs, printer := .waiting } (jp :: l) := by
  obtain ⟨e', hq', he, hjp⟩ := h.held hs
  obtain ⟨rfl, _⟩ := Printer.holds.inj (hq.symm.trans hq')
  have hlive : ({ s with printer := .waiting } : State T).entry jp ≠ none := by
    rw [show ({ s with printer := .waiting } : State T).entry jp = some e from he]
    exact Option.some_ne_none e
  obtain ⟨s', hs', hsame, hnext, hprev⟩ := replaceJob_spec hlive
    (fun a ha => h.live (List.mem_of_mem_head? (h.head.symm.trans ha)))
  refine ⟨s', hs', h.core.trans hsame.core.symm, ?_, ?_, ?_⟩
  · have hins := DLinked.insert_update (l := []) (m := l.map some) (o := some jp) h.linked
      (some_notMem_cells hjp)
    rw [← headD_eq_after, ← h.linked.head] at hins
    rw [hnext, hprev]
    exact hins
  · rw [hsame.entry, List.map_cons, List.map_cons]
    exact congrArg₂ List.cons he h.jobs
  · rw [hsame.printer]
    exact .waiting

/-- **`remove_job`** of the first job hands it to the printer thread. -/
theorem removeJob_refines (h : Refines s q (jp :: l)) (st : Stage) :
    ∃ s' e jobs, s.removeJob jp = some s' ∧ q.jobs = e :: jobs ∧
      Refines { s' with printer := .holds jp st } { q with jobs := jobs, printer := .holds e st } l := by
  have hlinked : DLinked s.nextCell s.prevCell none ([] ++ some jp :: l.map some) := h.linked
  have hjobs := h.jobs
  obtain ⟨e, jobs, hq⟩ : ∃ e jobs, q.jobs = e :: jobs := by
    cases hq : q.jobs with
    | nil =>
        rw [hq] at hjobs
        contradiction
    | cons e jobs => exact ⟨e, jobs, rfl⟩
  rw [hq, List.map_cons, List.map_cons, List.cons.injEq] at hjobs
  have hprev : s.prevCell (some jp) = none := hlinked.prev_eq
  have hnext : s.nextCell (some jp) = before none (l.map some).reverse := hlinked.next_eq
  have hlive : s.entry jp ≠ none := by
    rw [hjobs.1]
    exact Option.some_ne_none e
  obtain ⟨s', hs', hsame, hn, hp⟩ := removeJob_spec hlive
    (fun a ha => by
      rw [hnext, ← List.map_reverse] at ha
      exact h.live (List.mem_cons_of_mem _ (List.mem_reverse.mp (mem_of_before ha))))
    (fun a ha => by
      rw [hprev] at ha
      contradiction)
  refine ⟨s', e, jobs, hs', hq, h.core.trans hsame.core.symm, ?_, ?_, ?_⟩
  · show DLinked s'.nextCell s'.prevCell none (l.map some)
    rw [hn, hp]
    exact hlinked.remove_update
  · show l.map s'.entry = _
    rw [hsame.entry]
    exact hjobs.2
  · refine .holds ?_ ?_
    · show s'.entry jp = some e
      rw [hsame.entry]
      exact hjobs.1
    · intro hm
      exact (List.nodup_cons.mp h.linked.nodup.of_cons).1 (List.mem_map_of_mem hm)

/-- **`free`** of the job in the hands of the printer thread. -/
theorem free_refines {st : Stage} (h : Refines s q l) (hs : s.printer = .holds jp st) (core : Spooler T) :
    Refines { s.free jp with core := core, printer := .waiting }
      { q with core := core, printer := .waiting } l := by
  obtain ⟨_, _, _, hjp⟩ := h.held hs
  have hheap : ∀ a ∈ l, Function.update s.heap jp none a = s.heap a := by
    intro a ha
    apply Function.update_of_ne
    rintro rfl
    exact hjp ha
  have hcells : ∀ c ∈ none :: l.map some,
      (s.free jp).nextCell c = s.nextCell c ∧ (s.free jp).prevCell c = s.prevCell c := by
    intro c hc
    rcases List.mem_cons.mp hc with rfl | hc
    · exact ⟨rfl, rfl⟩
    · obtain ⟨a, ha, rfl⟩ := List.mem_map.mp hc
      constructor
      · exact congrArg (·.bind Job.next) (hheap a ha)
      · exact congrArg (·.bind Job.prev) (hheap a ha)
  refine ⟨rfl, ?_, ?_, .waiting⟩
  · exact h.linked.congr (fun c hc => (hcells c hc).1) fun c hc => (hcells c hc).2
  · rw [show q.jobs.map some = l.map s.entry from h.jobs.symm]
    apply List.map_congr_left
    intro a ha
    exact congrArg (Option.map _) (hheap a ha)

/-! ## Steps -/

variable [DecidableEq T]

/-- **One step**: the daemon cannot take it, or takes a step of the spooler with a list. -/
theorem queueStep_refines (h : Refines s q l) (e : Event T) :
    queueStep s e = .blocked ∨
      ∃ s' q' l', queueStep s e = .next s' ∧ Queue.Step q e q' ∧ Refines s' q' l' := by
  unfold queueStep
  cases e with
  | start _ => exact Or.inl rfl
  | skip => exact Or.inl rfl
  | unreadable => exact Or.inl rfl
  | discard => exact Or.inl rfl
  | serve => exact Or.inl rfl
  | client _ _ => exact Or.inl rfl
  | requeue jp =>
      dsimp only
      split
      · rename_i id todo hmain
        split
        · rename_i req hreq
          split
          · rename_i hfree
            have hstep : Queue.Step q (.requeue jp) _ := .requeue jp (h.core ▸ hmain) (h.core ▸ hreq)
            obtain ⟨s', hs', h'⟩ :=
              addJob_refines (h.setCore ({ s.core with main := .building todo }.tell (.queued id)))
                (show Option.map _ (s.heap jp) = none by rw [hfree]; rfl) id req
            rw [h.core] at hstep
            exact Or.inr ⟨s', _, _, by rw [hs']; rfl, hstep, h'⟩
          · exact Or.inl rfl
        · exact Or.inl rfl
      · exact Or.inl rfl
  | add t jp =>
      dsimp only
      split
      · rename_i id req hpc
        split
        · rename_i hfree
          have hstep : Queue.Step q (.add t jp) _ := .add jp (h.core ▸ hpc)
          obtain ⟨s', hs', h'⟩ := addJob_refines (h.setCore ((s.core.tell (.queued id)).goto t .idle))
            (show Option.map _ (s.heap jp) = none by rw [hfree]; rfl) id req
          rw [h.core] at hstep
          exact Or.inr ⟨s', _, _, by rw [hs']; rfl, hstep, h'⟩
        · exact Or.inl rfl
      · exact Or.inl rfl
  | pickup =>
      dsimp only
      split
      · rename_i jp hw hhead
        obtain ⟨l', rfl⟩ : ∃ l', l = jp :: l' := by
          have hl := h.head.symm.trans hhead
          cases l with
          | nil => contradiction
          | cons a l' => exact ⟨l', by rw [Option.some.inj hl]⟩
        obtain ⟨s', e, jobs, hs', hq, h'⟩ := removeJob_refines h .picked
        exact Or.inr ⟨_, _, _, by rw [hs']; rfl, .pickup (h.waiting hw) hq, h'⟩
      · exact Or.inl rfl
  | printer a =>
      dsimp only
      split
      · exact Or.inl rfl
      · rename_i jp st hs
        obtain ⟨e, hq, he, hjp⟩ := h.held hs
        obtain ⟨job, hjob, rfl⟩ := heap_of_entry he
        rw [hjob]
        dsimp only
        split
        · exact Or.inl rfl
        · rename_i core st' hprint
          rw [← h.core] at hprint
          refine Or.inr ⟨_, _, l, rfl, .stage hq hprint, ⟨rfl, h.linked, h.jobs, .holds he hjp⟩⟩
        · rename_i core hprint
          rw [← h.core] at hprint
          exact Or.inr ⟨_, _, l, rfl, .free hq hprint, free_refines h hs core⟩
        · rename_i core hprint
          rw [← h.core] at hprint
          obtain ⟨s', hs', h'⟩ := replaceJob_refines (h.setCore core) hs hq
          exact Or.inr ⟨s', _, _, by rw [hs']; rfl, .replace hq hprint, h'⟩
  | crash =>
      dsimp only
      split
      · exact Or.inl rfl
      · rename_i hmain
        have hstep : Queue.Step q .crash _ := .crash (h.core ▸ hmain)
        rw [h.core] at hstep
        exact Or.inr ⟨_, _, [], rfl, hstep, Refines.init.setCore _⟩

/-- The daemon takes the steps of the spooler with a list. -/
theorem step_refines {e : Event T} (h : Refines s q l) (hstep : Step s e s') :
    ∃ q' l', Queue.Step q e q' ∧ Refines s' q' l' := by
  cases hstep with
  | spool hcore =>
      rw [← h.core] at hcore
      exact ⟨_, l, .spool hcore, h.setCore _⟩
  | queue hqueue =>
      rcases queueStep_refines h e with hb | ⟨s₁, q', l', hs₁, hq', h'⟩
      · rw [hb] at hqueue
        contradiction
      · rw [hs₁] at hqueue
        obtain rfl := Outcome.next.inj hqueue
        exact ⟨q', l', hq', h'⟩

/-- A run of the daemon is a run of the spooler with a list. -/
theorem run_refines {tr : List (Event T)} (hrun : Run Step s tr s') (h : Refines s q l) :
    ∃ q' l', Run Queue.Step q tr q' ∧ Refines s' q' l' := by
  induction hrun generalizing q l with
  | refl => exact ⟨q, l, .refl, h⟩
  | cons hs _ ih =>
      obtain ⟨q₁, l₁, hq₁, h₁⟩ := step_refines h hs
      obtain ⟨q', l', hq', h'⟩ := ih h₁
      exact ⟨q', l', .cons hq₁ hq', h'⟩

end Printd
