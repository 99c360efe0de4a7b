import ApueToyCodes.Printd.Correctness.Moves

/-!
# `Printd.Correctness.Offers` — what the clients have sent

What has come from the client of a thread, its request and its document, is a function of the events alone
(`offer`): it looks at no file and at nothing the daemon keeps. `Told` ties what clients are told to it, in
every run of the spooler.
-/

namespace Printd
open Runs

variable {T : Type} [DecidableEq T]

/-- A request, with the kind of the document, and the document; `first` while there is nothing of it. -/
structure Offer where
  req   : PrintReq
  first : Bool
  doc   : List UInt8

/-- What a client has sent after one thing more. -/
def hear (o : Option Offer) : ClientAct → Option Offer
  | .header req => req.map fun req => ⟨req, true, []⟩
  | .chunk buf nr _ => o.map fun o => ⟨Spooler.sniffed o.first buf o.req, false, o.doc ++ buf.take nr⟩
  | _ => o

def Event.actOf (t : T) : Event T → Option ClientAct
  | .client t' a => if t' = t then some a else none
  | _ => none

/-- What has come from the client of the thread `t`. -/
def offer (t : T) (tr : List (Event T)) : Option Offer := (tr.filterMap (Event.actOf t)).foldl hear none

theorem offer_act (t : T) (tr : List (Event T)) (a : ClientAct) :
    offer t (tr ++ [.client t a]) = hear (offer t tr) a := by
  have hact : ([.client t a] : List (Event T)).filterMap (Event.actOf t) = [a] := by
    simp [Event.actOf]
  unfold offer
  rw [List.filterMap_append, hact, List.foldl_append]
  rfl

theorem offer_other {t : T} {e : Event T} (tr : List (Event T)) (he : e.actOf t = none) :
    offer t (tr ++ [e]) = offer t tr := by
  have hact : [e].filterMap (Event.actOf t) = [] := by
    simp [he]
  unfold offer
  rw [List.filterMap_append, hact, List.append_nil]

/-- What a thread has of its client is the offer. -/
def Pc.Heard (o : Option Offer) : Pc → Prop
  | .numbering req | .creating _ req => o = some ⟨req, true, []⟩
  | .storing _ req first doc => o = some ⟨req, first, doc⟩
  | .creatingReq _ req doc | .writingReq _ req doc | .responding _ req doc => ∃ first, o = some ⟨req, first, doc⟩
  | _ => True

/-! ## One step -/

theorem clientStep_heard {c c' : Spooler T} {t : T} {a : ClientAct} {o : Option Offer}
    (h : c.clientStep t a = some c') (ho : (c.pc t).Heard o) : (c'.pc t).Heard (hear o a) := by
  unfold Spooler.clientStep at h
  split at h
  all_goals try split at h
  all_goals try split at h
  all_goals try contradiction
  all_goals
    cases h
    simp_all [Spooler.goto, Spooler.newjobno, Pc.Heard, hear]

/-- Only a thread that responds tells its client a number. -/
theorem clientStep_told {c c' : Spooler T} {t : T} {a : ClientAct} (h : c.clientStep t a = some c') :
    (∃ id req doc, a = .respond true ∧ c.pc t = .responding id req doc ∧
      c'.out = c.out ++ [.accepted id req doc]) ∨ a ≠ .respond true ∧ c'.out = c.out := by
  unfold Spooler.clientStep at h
  split at h
  all_goals try split at h
  all_goals try split at h
  all_goals try contradiction
  all_goals
    cases h
    simp_all [Spooler.goto, Spooler.setData, Spooler.setReq, Spooler.tell, Spooler.newjobno]

variable {q q' : Queue T} {e : Event T}

/-- A step of a client thread, and what the others do: they tell no client anything. -/
theorem step_client (hs : Queue.Step q e q') :
    (∃ t a, e = .client t a ∧ q.core.clientStep t a = some q'.core) ∨
    (∀ t, e.actOf t = none) ∧ (∀ t, q'.core.pc t = q.core.pc t ∨ q'.core.pc t = .idle) ∧
      ∃ l, q'.core.out = q.core.out ++ l ∧ ∀ id req doc, .accepted id req doc ∉ l := by
  have hnil : q.core.out = q.core.out ++ [] := (List.append_nil _).symm
  -- the printer thread and its job
  have hprint : ∀ {core : Spooler T} {e : Entry} {st : Stage} {a : PrinterAct} {n : Next},
      printJob q.core e.id e.req st a = some (core, n) →
      (∀ t, core.pc t = q.core.pc t ∨ core.pc t = .idle) ∧
        ∃ l, core.out = q.core.out ++ l ∧ ∀ id req doc, .accepted id req doc ∉ l := by
    intro core e st a n h
    have hm := printJob_move h
    refine ⟨fun t => Or.inl (congrFun hm.pc t), ?_⟩
    rcases hm.told with ⟨hout, -⟩ | ⟨-, ⟨hout, -⟩ | ⟨hout, -⟩⟩
    · exact ⟨[], hout.trans hnil, fun _ _ _ => List.not_mem_nil⟩
    · exact ⟨_, hout, fun _ _ _ => by simp⟩
    · exact ⟨_, hout, fun _ _ _ => by simp⟩
  cases hs with
  | spool hcore =>
      cases hcore with
      | client hc => exact Or.inl ⟨_, _, rfl, hc⟩
      | start | skip | unreadable =>
          exact Or.inr ⟨fun _ => rfl, fun _ => Or.inl rfl, _, rfl, fun _ _ _ => by simp⟩
      | discard | serve =>
          exact Or.inr ⟨fun _ => rfl, fun _ => Or.inl rfl, [], hnil, fun _ _ _ => List.not_mem_nil⟩
  | @add t id req jp hpc =>
      refine Or.inr ⟨fun _ => rfl, fun t' => ?_, _, rfl, fun _ _ _ => by simp⟩
      by_cases ht : t' = t
      · rw [ht]
        exact Or.inr (Function.update_self _ _ _)
      · exact Or.inl (Function.update_of_ne ht _ _)
  | requeue => exact Or.inr ⟨fun _ => rfl, fun _ => Or.inl rfl, _, rfl, fun _ _ _ => by simp⟩
  | pickup => exact Or.inr ⟨fun _ => rfl, fun _ => Or.inl rfl, [], hnil, fun _ _ _ => List.not_mem_nil⟩
  | stage _ h => exact Or.inr ⟨fun _ => rfl, hprint h⟩
  | free _ h => exact Or.inr ⟨fun _ => rfl, hprint h⟩
  | replace _ h => exact Or.inr ⟨fun _ => rfl, hprint h⟩
  | crash => exact Or.inr ⟨fun _ => rfl, fun _ => Or.inr rfl, [], hnil, fun _ _ _ => List.not_mem_nil⟩

/-! ## Runs -/

/-- Clients are told numbers for what they have sent. -/
structure Told (tr : List (Event T)) (out : List Out) : Prop where
  sent : ∀ id req doc, .accepted id req doc ∈ out → ∃ tr₁ t tr₂ first,
    tr = tr₁ ++ .client t (.respond true) :: tr₂ ∧ offer t tr₁ = some ⟨req, first, doc⟩
  each : ∀ tr₁ t tr₂, tr = tr₁ ++ .client t (.respond true) :: tr₂ → ∃ id req doc first,
    offer t tr₁ = some ⟨req, first, doc⟩ ∧ .accepted id req doc ∈ out

/-- With what the threads have of their clients. -/
structure Heard (tr : List (Event T)) (q : Queue T) : Prop where
  threads : ∀ t, (q.core.pc t).Heard (offer t tr)
  told    : Told tr q.core.out

theorem Heard.init : Heard [] (Queue.init T) := by
  refine ⟨fun _ => trivial, fun _ _ _ h => absurd h List.not_mem_nil, fun tr₁ t tr₂ h => ?_⟩
  exact absurd h.symm (List.append_ne_nil_of_right_ne_nil _ (List.cons_ne_nil _ _))

/-- A step that tells no client a number. -/
theorem Told.other {tr : List (Event T)} {out l : List Out} (h : Told tr out)
    (he : ∀ t, e ≠ .client t (.respond true)) (hl : ∀ id req doc, .accepted id req doc ∉ l) :
    Told (tr ++ [e]) (out ++ l) := by
  refine ⟨fun id req doc hmem => ?_, fun tr₁ t tr₂ heq => ?_⟩
  · obtain ⟨tr₁, t, tr₂, first, rfl, ho⟩ :=
      h.sent id req doc ((List.mem_append.mp hmem).resolve_right (hl id req doc))
    exact ⟨tr₁, t, tr₂ ++ [e], first, by rw [List.append_assoc, List.cons_append], ho⟩
  · rcases List.eq_nil_or_concat tr₂ with rfl | ⟨tr₃, e', rfl⟩
    · obtain ⟨-, hlast⟩ := List.append_inj' heq rfl
      exact absurd (List.cons.inj hlast).1 (he t)
    · rw [List.concat_eq_append, ← List.cons_append, ← List.append_assoc] at heq
      obtain ⟨heq, -⟩ := List.append_inj' heq rfl
      obtain ⟨id, req, doc, first, ho, hmem⟩ := h.each tr₁ t tr₃ heq
      exact ⟨id, req, doc, first, ho, List.mem_append_left _ hmem⟩

/-- The step that does. -/
theorem Told.respond {tr : List (Event T)} {out : List Out} {t : T} {id : Nat} {o : Offer} (h : Told tr out)
    (ho : offer t tr = some o) :
    Told (tr ++ [.client t (.respond true)]) (out ++ [.accepted id o.req o.doc]) := by
  refine ⟨fun id' req doc hmem => ?_, fun tr₁ t' tr₂ heq => ?_⟩
  · rcases List.mem_append.mp hmem with hold | hnew
    · obtain ⟨tr₁, t', tr₂, first, rfl, ho'⟩ := h.sent id' req doc hold
      exact ⟨tr₁, t', tr₂ ++ [.client t (.respond true)], first, by rw [List.append_assoc, List.cons_append], ho'⟩
    · obtain ⟨-, rfl, rfl⟩ := Out.accepted.inj (List.mem_singleton.mp hnew)
      exact ⟨tr, t, [], o.first, rfl, ho⟩
  · rcases List.eq_nil_or_concat tr₂ with rfl | ⟨tr₃, e', rfl⟩
    · obtain ⟨rfl, hlast⟩ := List.append_inj' heq rfl
      obtain ⟨rfl, -⟩ := Event.client.inj (List.cons.inj hlast).1
      exact ⟨id, o.req, o.doc, o.first, ho, List.mem_append_right _ (List.mem_singleton_self _)⟩
    · rw [List.concat_eq_append, ← List.cons_append, ← List.append_assoc] at heq
      obtain ⟨heq, -⟩ := List.append_inj' heq rfl
      obtain ⟨id', req, doc, first, ho', hmem⟩ := h.each tr₁ t' tr₃ heq
      exact ⟨id', req, doc, first, ho', List.mem_append_left _ hmem⟩

theorem Heard.step {tr : List (Event T)} (h : Heard tr q) (hs : Queue.Step q e q') :
    Heard (tr ++ [e]) q' := by
  rcases step_client hs with ⟨t, a, rfl, hc⟩ | ⟨hact, hpc, l, hout, hl⟩
  · refine ⟨fun t' => ?_, ?_⟩
    · by_cases ht : t' = t
      · rw [ht, offer_act]
        exact clientStep_heard hc (h.threads t)
      · have hact : (Event.client t a).actOf t' = none := if_neg fun heq => ht heq.symm
        rw [offer_other tr hact, (clientStep_move hc).others t' ht]
        exact h.threads t'
    · rcases clientStep_told hc with ⟨id, req, doc, rfl, hresp, hout⟩ | ⟨hne, hout⟩
      · have hheard := h.threads t
        rw [hresp] at hheard
        obtain ⟨first, ho⟩ := hheard
        rw [hout]
        exact h.told.respond ho
      · rw [hout, ← List.append_nil q.core.out]
        exact h.told.other (fun t' heq => hne (Event.client.inj heq).2) fun _ _ _ => List.not_mem_nil
  · refine ⟨fun t' => ?_, ?_⟩
    · rw [offer_other tr (hact t')]
      rcases hpc t' with heq | hidle
      · rw [heq]
        exact h.threads t'
      · rw [hidle]
        trivial
    · rw [hout]
      refine h.told.other (fun t' heq => ?_) hl
      have hno := hact t'
      rw [heq, Event.actOf, if_pos rfl] at hno
      contradiction

end Printd
