import ApueToyCodes.Printd.Correctness.Offers
import ApueToyCodes.Printd.Correctness.Order

/-!
# `Printd.Correctness.Spool` — what the spool keeps

A client that was told a number relies on its document and its request being in the spool under that number
until the job is printed (`promised`). `Kept` says what holds of the files while no number is given out that
is in use: a thread has its number to itself, and the files of a promise are touched by nobody. It holds
across crashes, since it speaks of the spool and of what was told. What was told is in turn what the client
had sent (`Told`).
-/

namespace Printd
open Runs

/-! ## Promises -/

/-- What an event does to what is promised under `id`. -/
def promise (id : Nat) (p : Option (PrintReq × List UInt8)) : Out → Option (PrintReq × List UInt8)
  | .accepted id' req doc => if id' = id then some (req, doc) else p
  | .printed id' _ _ => if id' = id then none else p
  | .unreadable id' => if id' = id then none else p
  | _ => p

/-- The request and the document a client was told to be in the spool under `id`. -/
def promised (out : List Out) (id : Nat) : Option (PrintReq × List UInt8) := out.foldl (promise id) none

theorem promised_concat (out : List Out) (o : Out) (id : Nat) :
    promised (out ++ [o]) id = promise id (promised out id) o := by
  unfold promised
  rw [List.foldl_append]
  rfl

def Printer.held {J : Type} : Printer J → List J
  | .waiting => []
  | .holds j _ => [j]

variable {T : Type}

/-- The jobs in memory, finished or not. -/
def Queue.known (q : Queue T) : List Entry := q.printer.held ++ q.jobs

/-- No thread is at work on `id`, no job has it and no file. -/
structure Unused (q : Queue T) (id : Nat) : Prop where
  threads : ∀ t, (q.core.pc t).uses ≠ some id
  jobs    : ∀ e ∈ q.known, e.id ≠ id
  data    : q.core.data id = none
  reqs    : q.core.reqs id = none

/-- Where the threads stand. -/
structure Threads (q : Queue T) : Prop where
  own     : ∀ t t' id, (q.core.pc t).uses = some id → (q.core.pc t').uses = some id → t = t'
  apart   : ∀ t id, (q.core.pc t).uses = some id → ∀ e ∈ q.known, e.id ≠ id
  quiet   : q.core.main ≠ .serving → ∀ t, q.core.pc t = .idle
  data    : ∀ t id doc, (q.core.pc t).stored = some (id, doc) → q.core.data id = some doc
  written : ∀ t id req doc, q.core.pc t = .responding id req doc → q.core.reqs id = some (some req)

/-- What holds of the files of promises. -/
structure Kept (q : Queue T) : Prop where
  stored  : ∀ id req doc, promised q.core.out id = some (req, doc) →
    q.core.data id = some doc ∧ q.core.reqs id = some (some req)
  adding  : ∀ t id req doc, promised q.core.out id = some (req, doc) → (q.core.pc t).uses = some id →
    q.core.pc t = .adding id req
  sent    : ∀ e ∈ q.known, ∀ req doc, promised q.core.out e.id = some (req, doc) → e.req = req
  done    : ∀ e st, q.printer = .holds e st → st.waits = false → promised q.core.out e.id = none
  discard : ∀ id todo, q.core.main = .discarding id todo → promised q.core.out id = none

/-- Each print under a promise is of what was promised. -/
def Exact (out : List Out) : Prop :=
  ∀ out₁ out₂ id req doc, out = out₁ ++ .printed id req doc :: out₂ →
    ∀ p, promised out₁ id = some p → p = (req, doc)

theorem Exact.concat {out : List Out} {o : Out} (h : Exact out)
    (ho : ∀ id req doc, o = .printed id req doc → ∀ p, promised out id = some p → p = (req, doc)) :
    Exact (out ++ [o]) := by
  intro out₁ out₂ id req doc heq p hp
  rcases List.eq_nil_or_concat out₂ with rfl | ⟨out₃, o', rfl⟩
  · obtain ⟨rfl, heq'⟩ := List.append_inj' heq rfl
    exact ho id req doc (List.cons.inj heq').1 p hp
  · rw [List.concat_eq_append, ← List.cons_append, ← List.append_assoc] at heq
    obtain ⟨rfl, _⟩ := List.append_inj' heq rfl
    exact h out₁ out₃ id req doc rfl p hp

/-! ## Client threads -/

variable [DecidableEq T]

namespace ClientMove

variable {c c' : Spooler T} {t : T} {a : ClientAct}

/-- Numbers in use were in use, or this one was given out. -/
theorem uses_cases (hm : ClientMove c c' t a) {t' : T} {id : Nat} (h : (c'.pc t').uses = some id) :
    (c.pc t').uses = some id ∨ t' = t ∧ a = .number ∧ id = c.nextjob := by
  by_cases ht : t' = t
  · subst ht
    rcases hm.uses with hn | heq | ⟨ha, hn⟩
    · rw [hn] at h
      contradiction
    · exact Or.inl (heq ▸ h)
    · rw [hn] at h
      exact Or.inr ⟨rfl, ha, (Option.some.inj h).symm⟩
  · exact Or.inl (hm.others t' ht ▸ h)

omit [DecidableEq T] in
theorem promised_cases (hm : ClientMove c c' t a) (id : Nat) :
    promised c'.out id = promised c.out id ∨
      ∃ req doc, c.pc t = .responding id req doc ∧ c'.pc t = .adding id req ∧
        promised c'.out id = some (req, doc) ∧ c'.data id = c.data id ∧ c'.reqs id = c.reqs id := by
  rcases hm.told with hout | ⟨id₀, req, doc, hpc, hpc', hout, hdata, hreqs⟩
  · exact Or.inl (by rw [hout])
  · rw [hout, promised_concat]
    by_cases hid : id₀ = id
    · subst hid
      exact Or.inr ⟨req, doc, hpc, hpc', if_pos rfl, by rw [hdata], by rw [hreqs]⟩
    · exact Or.inl (if_neg hid)

end ClientMove

variable {q q' : Queue T} {core : Spooler T} {t : T} {a : ClientAct} {e : Entry} {st : Stage} {n : Next}

theorem Threads.client (h : Threads q) (hm : ClientMove q.core core t a) (hup : q.core.main = .serving)
    (hfresh : a = .number → Unused q q.core.nextjob) : Threads { q with core := core } := by
  -- another thread has another number
  have hother : ∀ t' id, t' ≠ t → (q.core.pc t').uses = some id →
      core.data id = q.core.data id ∧ core.reqs id = q.core.reqs id :=
    fun t' id ht hu => hm.files id fun hu' => ht (h.own t' t id hu hu')
  refine ⟨?_, ?_, ?_, ?_, ?_⟩
  · intro t₁ t₂ id h₁ h₂
    rcases hm.uses_cases h₁ with ho₁ | ⟨rfl, ha, rfl⟩
    · rcases hm.uses_cases h₂ with ho₂ | ⟨_, ha, rfl⟩
      · exact h.own t₁ t₂ id ho₁ ho₂
      · exact absurd ho₁ ((hfresh ha).threads t₁)
    · rcases hm.uses_cases h₂ with ho₂ | ⟨rfl, _, _⟩
      · exact absurd ho₂ ((hfresh ha).threads t₂)
      · rfl
  · intro t₁ id h₁ e he
    rcases hm.uses_cases h₁ with ho₁ | ⟨_, ha, rfl⟩
    · exact h.apart t₁ id ho₁ e he
    · exact (hfresh ha).jobs e he
  · intro hdown
    exact absurd (hm.main.trans hup) hdown
  · intro t₁ id doc hst
    by_cases ht : t₁ = t
    · subst ht
      exact hm.data (h.data t₁) id doc hst
    · have hst' : (q.core.pc t₁).stored = some (id, doc) := (congrArg Pc.stored (hm.others t₁ ht)).symm.trans hst
      exact (hother t₁ id ht (Pc.uses_of_stored hst')).1.trans (h.data t₁ id doc hst')
  · intro t₁ id req doc hpc
    by_cases ht : t₁ = t
    · subst ht
      exact hm.written id req doc hpc
    · have hpc' : q.core.pc t₁ = .responding id req doc := (hm.others t₁ ht).symm.trans hpc
      exact (hother t₁ id ht (by rw [hpc']; rfl)).2.trans (h.written t₁ id req doc hpc')

theorem Kept.client (h : Kept q) (ht : Threads q) (hm : ClientMove q.core core t a)
    (hup : q.core.main = .serving) (hfresh : a = .number → Unused q q.core.nextjob) :
    Kept { q with core := core } := by
  -- a thread with the number of a promise is in `add_job`
  have hapart : ∀ id req doc, promised q.core.out id = some (req, doc) → (q.core.pc t).uses ≠ some id :=
    fun id req doc hp hu => hm.before id req (h.adding t id req doc hp hu)
  have hknown : ∀ e ∈ q.known, promised core.out e.id = promised q.core.out e.id := by
    intro e he
    rcases hm.promised_cases e.id with heq | ⟨req, doc, hpc, _⟩
    · exact heq
    · exact absurd rfl (ht.apart t e.id (by rw [hpc]; rfl) e he)
  refine ⟨?_, ?_, ?_, ?_, ?_⟩
  · intro id req doc hp
    rcases hm.promised_cases id with heq | ⟨req', doc', hpc, _, heq, hdata, hreqs⟩
    · have hp' : promised q.core.out id = some (req, doc) := heq.symm.trans hp
      obtain ⟨hd, hr⟩ := hm.files id (hapart id req doc hp')
      obtain ⟨hdoc, hreq⟩ := h.stored id req doc hp'
      exact ⟨hd.trans hdoc, hr.trans hreq⟩
    · obtain ⟨rfl, rfl⟩ := Prod.mk.inj (Option.some.inj (heq.symm.trans hp))
      exact ⟨hdata.trans (ht.data t id _ (by rw [hpc]; rfl)), hreqs.trans (ht.written t id _ _ hpc)⟩
  · intro t₁ id req doc hp hu
    rcases hm.promised_cases id with heq | ⟨req', doc', hpc, hpc', heq, _⟩
    · have hp' : promised q.core.out id = some (req, doc) := heq.symm.trans hp
      rcases hm.uses_cases hu with ho | ⟨_, ha, rfl⟩
      · have hadd := h.adding t₁ id req doc hp' ho
        have hne : t₁ ≠ t := by
          rintro rfl
          exact hm.before id req hadd
        exact (hm.others t₁ hne).trans hadd
      · have hdata := (h.stored _ req doc hp').1
        rw [(hfresh ha).data] at hdata
        contradiction
    · obtain ⟨rfl, _⟩ := Prod.mk.inj (Option.some.inj (heq.symm.trans hp))
      by_cases hne : t₁ = t
      · rw [hne]
        exact hpc'
      · have ho : (q.core.pc t₁).uses = some id := hm.others t₁ hne ▸ hu
        exact absurd (ht.own t₁ t id ho (by rw [hpc]; rfl)) hne
  · intro e he req doc hp
    exact h.sent e he req doc ((hknown e he).symm.trans hp)
  · intro e st hq hst
    have he : e ∈ q.known := List.mem_append_left _ (by
      rw [show q.printer = .holds e st from hq]
      exact List.mem_singleton_self e)
    exact (hknown e he).trans (h.done e st hq hst)
  · intro id todo hmain
    rw [show ({ q with core := core } : Queue T).core.main = core.main from rfl, hm.main, hup] at hmain
    contradiction

/-! ## The other steps -/

omit [DecidableEq T] in
/-- No thread runs. -/
theorem Threads.of_idle (hidle : ∀ t, q.core.pc t = .idle) : Threads q := by
  have hno : ∀ t id, (q.core.pc t).uses ≠ some id := by
    intro t id
    rw [hidle t]
    exact (Option.some_ne_none id).symm
  refine ⟨?_, ?_, fun _ => hidle, ?_, ?_⟩
  · exact fun t _ id h => absurd h (hno t id)
  · exact fun t id h => absurd h (hno t id)
  · exact fun t id doc h => absurd (Pc.uses_of_stored h) (hno t id)
  · intro t id req doc hpc
    rw [hidle t] at hpc
    contradiction

omit [DecidableEq T] in
/-- Threads end, and files go that no thread uses. -/
theorem Threads.frame (h : Threads q) (hmain : q'.core.main = q.core.main)
    (hpc : ∀ t, q'.core.pc t = q.core.pc t ∨ q'.core.pc t = .idle)
    (hknown : ∀ t id, (q'.core.pc t).uses = some id → ∀ e ∈ q'.known, e.id ≠ id)
    (hfiles : ∀ t id, (q.core.pc t).uses = some id →
      q'.core.data id = q.core.data id ∧ q'.core.reqs id = q.core.reqs id) : Threads q' := by
  have hsame : ∀ t id, (q'.core.pc t).uses = some id → q'.core.pc t = q.core.pc t := by
    intro t id hu
    rcases hpc t with heq | hidle
    · exact heq
    · rw [hidle] at hu
      contradiction
  refine ⟨?_, hknown, ?_, ?_, ?_⟩
  · intro t t' id h₁ h₂
    exact h.own t t' id (hsame t id h₁ ▸ h₁) (hsame t' id h₂ ▸ h₂)
  · intro hdown t
    rcases hpc t with heq | hidle
    · exact heq.trans (h.quiet (hmain ▸ hdown) t)
    · exact hidle
  · intro t id doc hst
    rw [hsame t id (Pc.uses_of_stored hst)] at hst
    rw [(hfiles t id (Pc.uses_of_stored hst)).1]
    exact h.data t id doc hst
  · intro t id req doc hr
    have hr' : q.core.pc t = .responding id req doc :=
      (hsame t id (by rw [hr]; rfl)).symm.trans hr
    rw [(hfiles t id (by rw [hr']; rfl)).2]
    exact h.written t id req doc hr'

omit [DecidableEq T] in
/-- Promises end, and files go that are behind no promise. -/
theorem Kept.frame (h : Kept q)
    (hfiles : ∀ id p, promised q'.core.out id = some p → promised q.core.out id = some p ∧
      q'.core.data id = q.core.data id ∧ q'.core.reqs id = q.core.reqs id)
    (hpc : ∀ t, q'.core.pc t = q.core.pc t ∨ q'.core.pc t = .idle)
    (hknown : ∀ e ∈ q'.known, e ∈ q.known ∨
      ∀ req doc, promised q.core.out e.id = some (req, doc) → e.req = req)
    (hdone : ∀ e st, q'.printer = .holds e st → st.waits = false → promised q'.core.out e.id = none)
    (hdiscard : ∀ id todo, q'.core.main = .discarding id todo → promised q'.core.out id = none) :
    Kept q' := by
  refine ⟨?_, ?_, ?_, hdone, hdiscard⟩
  · intro id req doc hp
    obtain ⟨hp', hd, hr⟩ := hfiles id _ hp
    obtain ⟨hdoc, hreq⟩ := h.stored id req doc hp'
    exact ⟨hd.trans hdoc, hr.trans hreq⟩
  · intro t id req doc hp hu
    rcases hpc t with heq | hidle
    · rw [heq] at hu ⊢
      exact h.adding t id req doc (hfiles id _ hp).1 hu
    · rw [hidle] at hu
      contradiction
  · intro e he req doc hp
    have hp' := (hfiles e.id _ hp).1
    rcases hknown e he with hold | hnew
    · exact h.sent e hold req doc hp'
    · exact hnew req doc hp'

/-- What every run keeps in which no number is given out that is in use. -/
structure Sound (q : Queue T) : Prop where
  threads : Threads q
  kept    : Kept q
  exact   : Exact q.core.out

omit [DecidableEq T] in
theorem PrintMove.promised (hm : PrintMove q.core core e st n) {id : Nat} {p : PrintReq × List UInt8}
    (hp : promised core.out id = some p) : promised q.core.out id = some p := by
  rcases hm.told with ⟨hout, _⟩ | ⟨_, ⟨hout, _⟩ | ⟨hout, _⟩⟩
  · rw [← hout]
    exact hp
  · rw [hout, promised_concat] at hp
    exact hp
  · rw [hout, promised_concat] at hp
    change (if e.id = id then none else Printd.promised q.core.out id) = some p at hp
    by_cases hid : e.id = id
    · rw [if_pos hid] at hp
      contradiction
    · rw [if_neg hid] at hp
      exact hp

omit [DecidableEq T] in
/-- A step of the printer thread with its job. -/
theorem Sound.printed (h : Sound q) (hq : q.printer = .holds e st) (hm : PrintMove q.core core e st n)
    (hcore : q'.core = core) (hknown : ∀ e' ∈ q'.known, e' ∈ q.known)
    (hprinter : q'.printer = .waiting ∨ ∃ st', q'.printer = .holds e st' ∧ n = .stage st') : Sound q' := by
  subst hcore
  have he : e ∈ q.known := List.mem_append_left _ (by
    rw [hq]
    exact List.mem_singleton_self e)
  refine ⟨?_, ?_, ?_⟩
  · refine h.threads.frame hm.main (fun t => Or.inl (congrFun hm.pc t)) ?_ ?_
    · intro t id hu e' he'
      rw [congrFun hm.pc t] at hu
      exact h.threads.apart t id hu e' (hknown e' he')
    · intro t id hu
      exact hm.files id fun heq => absurd heq.symm (h.threads.apart t id hu e he)
  · refine h.kept.frame ?_ (fun t => Or.inl (congrFun hm.pc t)) (fun e' he' => Or.inl (hknown e' he')) ?_ ?_
    · intro id p hp
      have hp' := hm.promised hp
      refine ⟨hp', hm.files id ?_⟩
      rintro rfl
      by_contra hst
      rw [h.kept.done e st hq (Bool.eq_false_iff.mpr hst)] at hp'
      contradiction
    · intro e' st' hq' hst'
      rcases hprinter with hw | ⟨st'', hholds, hn⟩
      · rw [hw] at hq'
        contradiction
      · rw [hholds] at hq'
        obtain ⟨rfl, rfl⟩ := Printer.holds.inj hq'
        rcases hm.told with ⟨hout, hwaits⟩ | ⟨_, ⟨_, hfree⟩ | ⟨hout, _⟩⟩
        · rw [hn] at hwaits
          rw [hout]
          exact h.kept.done e st hq (hwaits.symm.trans hst')
        · rw [hn] at hfree
          contradiction
        · rw [hout, promised_concat]
          exact if_pos rfl
    · intro id todo hmain
      rw [hm.main] at hmain
      have hnone := h.kept.discard id todo hmain
      by_contra hsome
      obtain ⟨p, hp⟩ := Option.ne_none_iff_exists'.mp hsome
      rw [hm.promised hp] at hnone
      contradiction
  · rcases hm.told with ⟨hout, _⟩ | ⟨_, ⟨hout, _⟩ | ⟨hout, _⟩⟩
    · rw [hout]
      exact h.exact
    · rw [hout]
      exact h.exact.concat fun id req doc heq => Out.noConfusion heq
    · rw [hout]
      refine h.exact.concat fun id req doc heq p hp => ?_
      obtain ⟨rfl, rfl, rfl⟩ := Out.printed.inj heq
      obtain ⟨req', doc'⟩ := p
      rw [(h.kept.stored e.id req' doc' hp).1, h.kept.sent e he req' doc' hp]
      rfl

omit [DecidableEq T] in
/-- What the main thread and the queue do: no file of a promise goes. -/
theorem Sound.frame (h : Sound q) (hthreads : Threads q')
    (hout : q'.core.out = q.core.out ∨ ∃ o, q'.core.out = q.core.out ++ [o] ∧
      ∀ id req doc, o ≠ .printed id req doc)
    (hfiles : ∀ id p, promised q'.core.out id = some p → promised q.core.out id = some p ∧
      q'.core.data id = q.core.data id ∧ q'.core.reqs id = q.core.reqs id)
    (hpc : ∀ t, q'.core.pc t = q.core.pc t ∨ q'.core.pc t = .idle)
    (hknown : ∀ e ∈ q'.known, e ∈ q.known ∨
      ∀ req doc, promised q.core.out e.id = some (req, doc) → e.req = req)
    (hdone : ∀ e st, q'.printer = .holds e st → st.waits = false → q.printer = .holds e st)
    (hdiscard : ∀ id todo, q'.core.main = .discarding id todo → promised q'.core.out id = none) :
    Sound q' := by
  refine ⟨hthreads, h.kept.frame hfiles hpc hknown ?_ hdiscard, ?_⟩
  · intro e st hq hst
    have hnone := h.kept.done e st (hdone e st hq hst) hst
    by_contra hsome
    obtain ⟨p, hp⟩ := Option.ne_none_iff_exists'.mp hsome
    rw [(hfiles e.id p hp).1] at hnone
    contradiction
  · rcases hout with heq | ⟨o, heq, ho⟩
    · rw [heq]
      exact h.exact
    · rw [heq]
      exact h.exact.concat fun id req doc hprinted => absurd hprinted (ho id req doc)

theorem spoolStep_sound {e : Event T} (h : Sound q) (hs : Spooler.Step q.core e core)
    (hfresh : ∀ t, e = .client t .number → Unused q q.core.nextjob) : Sound { q with core := core } := by
  cases hs with
  | start hdown _ =>
      have hidle := h.threads.quiet (hdown.trans_ne Main.noConfusion)
      refine h.frame (.of_idle hidle) (Or.inr ⟨_, rfl, fun _ _ _ => Out.noConfusion⟩) ?_ (fun t => Or.inl rfl)
        (fun e he => Or.inl he) (fun _ _ hq _ => hq) (fun _ _ hmain => Main.noConfusion hmain)
      exact fun id p hp => ⟨(promised_concat _ _ id).symm.trans hp, rfl, rfl⟩
  | skip hmain =>
      have hidle := h.threads.quiet (hmain.trans_ne Main.noConfusion)
      refine h.frame (.of_idle hidle) (Or.inr ⟨_, rfl, fun _ _ _ => Out.noConfusion⟩) ?_ (fun t => Or.inl rfl)
        (fun e he => Or.inl he) (fun _ _ hq _ => hq) (fun _ _ hmain => Main.noConfusion hmain)
      exact fun id p hp => ⟨(promised_concat _ _ id).symm.trans hp, rfl, rfl⟩
  | @unreadable id todo hmain _ =>
      have hidle := h.threads.quiet (hmain.trans_ne Main.noConfusion)
      have hpromise : ∀ id', promised (q.core.out ++ [.unreadable id]) id' =
          if id = id' then none else promised q.core.out id' := fun id' => promised_concat _ _ id'
      refine h.frame (.of_idle hidle) (Or.inr ⟨_, rfl, fun _ _ _ => Out.noConfusion⟩) ?_ (fun t => Or.inl rfl)
        (fun e he => Or.inl he) (fun _ _ hq _ => hq) ?_
      · intro id' p hp
        have hp' := (hpromise id').symm.trans hp
        by_cases hid : id = id'
        · rw [if_pos hid] at hp'
          contradiction
        · rw [if_neg hid] at hp'
          exact ⟨hp', rfl, Function.update_of_ne (fun heq => hid heq.symm) _ _⟩
      · intro id' todo' hmain'
        obtain ⟨rfl, _⟩ := Main.discarding.inj hmain'
        exact (hpromise id).trans (if_pos rfl)
  | @discard id todo hmain =>
      have hidle := h.threads.quiet (hmain.trans_ne Main.noConfusion)
      refine h.frame (.of_idle hidle) (Or.inl rfl) ?_ (fun t => Or.inl rfl)
        (fun e he => Or.inl he) (fun _ _ hq _ => hq) (fun _ _ hmain => Main.noConfusion hmain)
      intro id' p hp
      have hne : id' ≠ id := by
        rintro rfl
        have hnone := h.kept.discard id' todo hmain
        rw [show promised q.core.out id' = some p from hp] at hnone
        contradiction
      exact ⟨hp, Function.update_of_ne hne _ _, rfl⟩
  | serve hmain =>
      have hidle := h.threads.quiet (hmain.trans_ne Main.noConfusion)
      exact h.frame (.of_idle hidle) (Or.inl rfl) (fun id p hp => ⟨hp, rfl, rfl⟩) (fun t => Or.inl rfl)
        (fun e he => Or.inl he) (fun _ _ hq _ => hq) (fun _ _ hmain => Main.noConfusion hmain)
  | @client _ t a hc =>
      have hm := clientStep_move hc
      have hup : q.core.main = .serving := by
        by_contra hdown
        have hidle := h.threads.quiet hdown
        unfold Spooler.clientStep at hc
        rw [hidle t] at hc
        cases a with
        | connect =>
            dsimp only at hc
            split at hc
            · rename_i hserving
              exact hdown hserving
            · contradiction
        | _ => contradiction
      have hnumber : a = .number → Unused q q.core.nextjob := by
        rintro rfl
        exact hfresh t rfl
      refine ⟨h.threads.client hm hup hnumber, h.kept.client h.threads hm hup hnumber, ?_⟩
      rcases hm.told with hout | ⟨id, req, doc, _, _, hout, _⟩
      · rw [show ({ q with core := core } : Queue T).core.out = q.core.out from hout]
        exact h.exact
      · rw [show ({ q with core := core } : Queue T).core.out = _ from hout]
        exact h.exact.concat fun id req doc heq => Out.noConfusion heq

/-- **Each step keeps the promises.** -/
theorem step_sound {e : Event T} (h : Sound q) (hs : Queue.Step q e q')
    (hfresh : ∀ t, e = .client t .number → Unused q q.core.nextjob) : Sound q' := by
  cases hs with
  | spool hcore => exact spoolStep_sound h hcore hfresh
  | @add t id req jp hpc =>
      have hthread : ∀ t', Function.update q.core.pc t .idle t' = q.core.pc t' ∨
          Function.update q.core.pc t .idle t' = .idle := by
        intro t'
        by_cases ht : t' = t
        · rw [ht]
          exact Or.inr (Function.update_self _ _ _)
        · exact Or.inl (Function.update_of_ne ht _ _)
      have hmem : ∀ e' ∈ q.printer.held ++ (q.jobs ++ [⟨id, req⟩]), e' ∈ q.known ∨ e' = ⟨id, req⟩ := by
        intro e' he'
        rw [← List.append_assoc, List.mem_append, List.mem_singleton] at he'
        exact he'
      refine h.frame ?_ (Or.inr ⟨_, rfl, fun _ _ _ => Out.noConfusion⟩)
        (fun id p hp => ⟨(promised_concat _ _ id).symm.trans hp, rfl, rfl⟩) hthread ?_ (fun _ _ hq _ => hq) ?_
      · refine h.threads.frame rfl hthread ?_ fun _ _ _ => ⟨rfl, rfl⟩
        intro t' id' hu e' he'
        change (Function.update q.core.pc t .idle t').uses = some id' at hu
        have hne : t' ≠ t := by
          rintro rfl
          rw [Function.update_self] at hu
          contradiction
        have hu' : (q.core.pc t').uses = some id' := by
          rw [Function.update_of_ne hne] at hu
          exact hu
        rcases hmem e' he' with hold | rfl
        · exact h.threads.apart t' id' hu' e' hold
        · rintro rfl
          exact hne (h.threads.own t' t _ hu' (by rw [hpc]; rfl))
      · intro e' he'
        rcases hmem e' he' with hold | rfl
        · exact Or.inl hold
        · refine Or.inr fun req' doc hp => ?_
          have hadd := h.kept.adding t id req' doc hp (by rw [hpc]; rfl)
          exact (Pc.adding.inj (hpc.symm.trans hadd)).2
      · intro id' todo hmain
        exact (promised_concat _ _ id').trans (h.kept.discard id' todo hmain)
  | @requeue id todo req jp hmain hreq =>
      have hidle := h.threads.quiet (hmain.trans_ne Main.noConfusion)
      refine h.frame (.of_idle hidle) (Or.inr ⟨_, rfl, fun _ _ _ => Out.noConfusion⟩)
        (fun id p hp => ⟨(promised_concat _ _ id).symm.trans hp, rfl, rfl⟩) (fun t => Or.inl rfl) ?_
        (fun _ _ hq _ => hq) (fun _ _ hmain => Main.noConfusion hmain)
      intro e' he'
      have he'' : e' ∈ q.printer.held ++ (q.jobs ++ [⟨id, req⟩]) := he'
      rw [← List.append_assoc, List.mem_append, List.mem_singleton] at he''
      rcases he'' with hold | rfl
      · exact Or.inl hold
      · refine Or.inr fun req' doc hp => ?_
        have hreq' := (h.kept.stored id req' doc hp).2
        rw [hreq] at hreq'
        exact Option.some.inj (Option.some.inj hreq')
  | @pickup e jobs hw hjobs =>
      have hknown : ∀ e' ∈ [e] ++ jobs, e' ∈ q.known := by
        intro e' he'
        unfold Queue.known
        rw [hjobs]
        exact List.mem_append_right _ he'
      refine h.frame ?_ (Or.inl rfl) (fun id p hp => ⟨hp, rfl, rfl⟩) (fun t => Or.inl rfl)
        (fun e' he' => Or.inl (hknown e' he')) ?_ h.kept.discard
      · refine h.threads.frame rfl (fun t => Or.inl rfl) ?_ fun _ _ _ => ⟨rfl, rfl⟩
        exact fun t id hu e' he' => h.threads.apart t id hu e' (hknown e' he')
      · intro e' st hq hst
        obtain ⟨_, rfl⟩ := Printer.holds.inj hq
        contradiction
  | stage hq hprint =>
      refine h.printed hq (printJob_move hprint) rfl ?_ (Or.inr ⟨_, rfl, rfl⟩)
      intro e' he'
      unfold Queue.known
      rw [hq]
      exact he'
  | free hq hprint =>
      exact h.printed hq (printJob_move hprint) rfl (fun e' he' => List.mem_append_right _ he') (Or.inl rfl)
  | replace hq hprint =>
      refine h.printed hq (printJob_move hprint) rfl ?_ (Or.inl rfl)
      intro e' he'
      unfold Queue.known
      rw [hq]
      exact he'
  | crash _ =>
      exact h.frame (.of_idle fun _ => rfl) (Or.inl rfl) (fun id p hp => ⟨hp, rfl, rfl⟩)
        (fun t => Or.inr rfl) (fun e' he' => absurd he' List.not_mem_nil) (fun _ _ hq _ => nomatch hq)
        (fun _ _ hmain => Main.noConfusion hmain)

/-! ## Runs -/

omit [DecidableEq T] in
theorem Sound.init : Sound (Queue.init T) := by
  refine ⟨.of_idle fun _ => rfl, ⟨?_, ?_, ?_, ?_, ?_⟩, ?_⟩
  · exact fun _ _ _ hp => nomatch hp
  · exact fun _ _ _ _ hp => nomatch hp
  · exact fun _ he => absurd he List.not_mem_nil
  · exact fun _ _ hq => nomatch hq
  · exact fun _ _ hmain => nomatch hmain
  · intro out₁ out₂ id req doc heq
    exact absurd heq.symm (List.append_ne_nil_of_right_ne_nil _ (List.cons_ne_nil _ _))

/-- The number `nextjob` is not in use: no thread is at work on it, no job has it and no file. -/
structure Fresh (s : State T) : Prop where
  threads : ∀ t, (s.core.pc t).uses ≠ some s.core.nextjob
  jobs    : ∀ jp job, s.heap jp = some job → job.jobid ≠ s.core.nextjob
  data    : s.core.data s.core.nextjob = none
  reqs    : s.core.reqs s.core.nextjob = none

def Event.givesNumber : Event T → Bool
  | .client _ .number => true
  | _ => false

/-- A step that gives out no number that is in use. -/
def FreshStep (s : State T) (e : Event T) (s' : State T) : Prop :=
  Step s e s' ∧ (e.givesNumber = true → Fresh s)

omit [DecidableEq T] in
theorem Refines.unused {s : State T} {l : List Nat} (h : Refines s q l) (hf : Fresh s) :
    Unused q q.core.nextjob := by
  have hjob : ∀ jp e, s.entry jp = some e → e.id ≠ s.core.nextjob := by
    intro jp e he
    obtain ⟨job, hjob, rfl⟩ := heap_of_entry he
    exact hf.jobs jp job hjob
  rw [h.core]
  refine ⟨by rw [h.core]; exact hf.threads, ?_, by rw [h.core]; exact hf.data, by rw [h.core]; exact hf.reqs⟩
  intro e he
  rcases List.mem_append.mp he with hheld | hmem
  · have hp := h.printer
    generalize s.printer = p at hp
    generalize q.printer = p' at hp hheld
    cases hp with
    | waiting => exact absurd hheld List.not_mem_nil
    | holds he' _ =>
        obtain rfl := List.mem_singleton.mp hheld
        exact hjob _ _ he'
  · have hsome : some e ∈ l.map s.entry := h.jobs ▸ List.mem_map_of_mem hmem
    obtain ⟨jp, _, hjp⟩ := List.mem_map.mp hsome
    exact hjob jp e hjp

/-- The daemon, seen as a spooler with a list, is sound. -/
def HasSound (s : State T) : Prop := ∃ q l, Refines s q l ∧ Sound q

theorem HasSound.step {s s' : State T} {e : Event T} (h : HasSound s) (hs : FreshStep s e s') :
    HasSound s' := by
  obtain ⟨q, l, href, hsound⟩ := h
  obtain ⟨q', l', hq, href'⟩ := step_refines href hs.1
  exact ⟨q', l', href', step_sound hsound hq fun t ht => href.unused (hs.2 (by rw [ht]; rfl))⟩

end Printd
