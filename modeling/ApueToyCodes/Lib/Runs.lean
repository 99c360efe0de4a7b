import Mathlib.Tactic.Common

/-!
# `Lib.Runs` — labelled runs, their invariants and lockstep pairs of runs

A transition relation `step : σ → ι → σ → Prop`, its finite labelled runs `Run`, and the induction rules used
on them: an invariant of every step holds along every run (`Run.invariant`, and `Run.invariant_trace` where
it speaks of the labels so far) and may say more of every step (`Run.refine`); a rank that every step makes
smaller bounds the length of a run (`Run.length_le`); a relation kept by silent steps
on either side and by matched pairs of visible steps holds along every pair of matched runs
(`Lockstep.unwind`).
-/

namespace Runs

universe u v w

variable {σ : Type u} {ι : Type v} {κ : Type w}

/-- A finite run of `step` with its labels, first label first. -/
inductive Run (step : σ → ι → σ → Prop) : σ → List ι → σ → Prop
  | refl {s : σ} : Run step s [] s
  | cons {s s' s'' : σ} {a : ι} {tr : List ι} :
      step s a s' → Run step s' tr s'' → Run step s (a :: tr) s''

variable {step : σ → ι → σ → Prop}

/-- A run over a concatenation passes through a middle state. -/
theorem Run.split {tr tr' : List ι} {s s'' : σ} (h : Run step s (tr ++ tr') s'') :
    ∃ s', Run step s tr s' ∧ Run step s' tr' s'' := by
  induction tr generalizing s with
  | nil => exact ⟨s, .refl, h⟩
  | cons a tr ih =>
      cases h with
      | cons hs hr =>
          obtain ⟨s', h1, h2⟩ := ih hr
          exact ⟨s', .cons hs h1, h2⟩

/-- A run goes on. -/
theorem Run.append {tr tr' : List ι} {s s' s'' : σ} (h : Run step s tr s') (h' : Run step s' tr' s'') :
    Run step s (tr ++ tr') s'' := by
  induction h with
  | refl => exact h'
  | cons hs _ ih => exact .cons hs (ih h')

/-- **Invariants.** What every step preserves holds at the end of every run. -/
theorem Run.invariant {Inv : σ → Prop} (hstep : ∀ s a s', Inv s → step s a s' → Inv s')
    {s s' : σ} {tr : List ι} (h : Run step s tr s') (h0 : Inv s) : Inv s' := by
  induction h with
  | refl => exact h0
  | cons hs _ ih => exact ih (hstep _ _ _ h0 hs)

/-- **Invariants with history.** What every step preserves about the labels so far and the state holds at
    the end of every run. -/
theorem Run.invariant_trace {Inv : List ι → σ → Prop}
    (hstep : ∀ past s a s', Inv past s → step s a s' → Inv (past ++ [a]) s')
    {s s' : σ} {tr : List ι} (h : Run step s tr s') :
    ∀ {past : List ι}, Inv past s → Inv (past ++ tr) s' := by
  induction h with
  | refl =>
      intro past h0
      rwa [List.append_nil]
  | @cons s _ _ a tr hs _ ih =>
      intro past h0
      rw [List.append_cons]
      exact ih (hstep past s a _ h0 hs)

/-- **Refining steps.** Where an invariant makes every step one of a second kind, a run is a run of steps of
    that kind. -/
theorem Run.refine {step' : σ → ι → σ → Prop} {Inv : σ → Prop}
    (hstep : ∀ s a s', Inv s → step s a s' → step' s a s' ∧ Inv s') {s s' : σ} {tr : List ι}
    (h : Run step s tr s') (h0 : Inv s) : Run step' s tr s' := by
  induction h with
  | refl => exact .refl
  | cons hs _ ih =>
      obtain ⟨hs', hinv⟩ := hstep _ _ _ h0 hs
      exact .cons hs' (ih hinv)

theorem Run.mono {step' : σ → ι → σ → Prop} (hstep : ∀ s a s', step s a s' → step' s a s') {s s' : σ}
    {tr : List ι} (h : Run step s tr s') : Run step' s tr s' := by
  induction h with
  | refl => exact .refl
  | cons hs _ ih => exact .cons (hstep _ _ _ hs) ih

/-- **Termination.** Where every step makes a rank smaller, no run is longer than the rank it starts with. -/
theorem Run.length_le {Inv : σ → Prop} (rank : σ → Nat)
    (hstep : ∀ s a s', Inv s → step s a s' → rank s' < rank s ∧ Inv s') {s s' : σ} {tr : List ι}
    (h : Run step s tr s') (h0 : Inv s) : tr.length + rank s' ≤ rank s := by
  induction h with
  | refl => simp
  | cons hs _ ih =>
      obtain ⟨hlt, hinv⟩ := hstep _ _ _ h0 hs
      have := ih hinv
      rw [List.length_cons]
      omega

/-- A run computed. -/
theorem Run.of_foldlM {f : σ → ι → Option σ} (hf : ∀ s a s', f s a = some s' → step s a s') {s s' : σ}
    {tr : List ι} (h : tr.foldlM f s = some s') : Run step s tr s' := by
  induction tr generalizing s with
  | nil =>
      obtain rfl := Option.some.inj h
      exact .refl
  | cons a tr ih =>
      rw [List.foldlM_cons] at h
      obtain ⟨t, ht, htr⟩ := Option.bind_eq_some_iff.mp h
      exact .cons (hf _ _ _ ht) (ih htr)

/-! ## Two runs in lockstep -/

/-- The label sequences of two runs match: `silent` labels may occur anywhere on either side, every other
    label of one side is paired with one of the other. The context `κ` is what the pairing remembers. -/
inductive Lockstep (silent : ι → Prop) (pair : κ → ι → ι → κ → Prop) : κ → List ι → List ι → Prop
  | nil {k : κ} : Lockstep silent pair k [] []
  | left {k : κ} {a : ι} {t₁ t₂ : List ι} :
      silent a → Lockstep silent pair k t₁ t₂ → Lockstep silent pair k (a :: t₁) t₂
  | right {k : κ} {a : ι} {t₁ t₂ : List ι} :
      silent a → Lockstep silent pair k t₁ t₂ → Lockstep silent pair k t₁ (a :: t₂)
  | both {k k' : κ} {a b : ι} {t₁ t₂ : List ι} :
      pair k a b k' → Lockstep silent pair k' t₁ t₂ → Lockstep silent pair k (a :: t₁) (b :: t₂)

/-- **Unwinding.** If silent steps on either side keep `R` and are invisible to `obs`, and paired steps keep
    `R` and are observed alike, then matched runs from related states end in related states and show the
    same observations. -/
theorem Lockstep.unwind {ο : Type*} {silent : ι → Prop} {pair : κ → ι → ι → κ → Prop}
    {R : κ → σ → σ → Prop} (obs : ι → Option ο)
    (hsil : ∀ a, silent a → obs a = none)
    (hl : ∀ k s₁ s₂ a s', R k s₁ s₂ → silent a → step s₁ a s' → R k s' s₂)
    (hr : ∀ k s₁ s₂ a s', R k s₁ s₂ → silent a → step s₂ a s' → R k s₁ s')
    (hb : ∀ k k' s₁ s₂ a b s₁' s₂', R k s₁ s₂ → pair k a b k' → step s₁ a s₁' → step s₂ b s₂' →
      R k' s₁' s₂' ∧ obs a = obs b)
    {k : κ} {t₁ t₂ : List ι} (h : Lockstep silent pair k t₁ t₂) :
    ∀ {s₁ s₂ s₁' s₂' : σ}, Run step s₁ t₁ s₁' → Run step s₂ t₂ s₂' → R k s₁ s₂ →
      (∃ k', R k' s₁' s₂') ∧ t₁.filterMap obs = t₂.filterMap obs := by
  induction h with
  | @nil k =>
      intro s₁ s₂ s₁' s₂' r₁ r₂ hR
      cases r₁; cases r₂
      exact ⟨⟨k, hR⟩, rfl⟩
  | left ha _ ih =>
      intro s₁ s₂ s₁' s₂' r₁ r₂ hR
      cases r₁ with
      | cons hs r₁ =>
          rw [List.filterMap_cons_none (hsil _ ha)]
          exact ih r₁ r₂ (hl _ _ _ _ _ hR ha hs)
  | right ha _ ih =>
      intro s₁ s₂ s₁' s₂' r₁ r₂ hR
      cases r₂ with
      | cons hs r₂ =>
          rw [List.filterMap_cons_none (hsil _ ha)]
          exact ih r₁ r₂ (hr _ _ _ _ _ hR ha hs)
  | both hp _ ih =>
      intro s₁ s₂ s₁' s₂' r₁ r₂ hR
      -- both runs take a step, and `pair` carries the context on
      cases r₁ with
      | cons hs₁ r₁ =>
          cases r₂ with
          | cons hs₂ r₂ =>
              obtain ⟨hR', ho⟩ := hb _ _ _ _ _ _ _ _ hR hp hs₁ hs₂
              obtain ⟨hk, ht⟩ := ih r₁ r₂ hR'
              refine ⟨hk, ?_⟩
              simp only [List.filterMap_cons, ho, ht]

end Runs
