import Mathlib.Data.Finset.Basic

/-!
# `Lib.FdTrace` — what a call does with descriptors

A call creates and closes descriptors; `openAfter` is the set open after it. A call that hands one descriptor
to its caller has `Kept` it: it is new, open, the only new one, and no descriptor from before was closed. A
call that fails has `Disposed` of everything: what it created it closed, and nothing else. The rules are for
calls that create one descriptor (`disposed_closed`, `kept_created`) or a pair (`disposed_pair`, `kept_fst`,
`kept_snd`), and for calls in a row (`Disposed.append`, `Disposed.kept`).
-/

namespace FdTrace

universe u

variable {δ : Type u}

/-- A descriptor comes into being or is closed. -/
inductive Event (δ : Type u) where
  | created (fd : δ)
  | closed (fd : δ)
deriving DecidableEq

variable [DecidableEq δ] {s : Finset δ} {es es' : List (Event δ)} {fd : δ}

/-- The descriptors open after `es`. -/
def openAfter (s : Finset δ) : List (Event δ) → Finset δ
  | []               => s
  | .created fd :: es => openAfter (insert fd s) es
  | .closed fd :: es  => openAfter (s.erase fd) es

theorem openAfter_append (es es' : List (Event δ)) :
    ∀ s : Finset δ, openAfter s (es ++ es') = openAfter (openAfter s es) es' := by
  induction es with
  | nil => exact fun _ => rfl
  | cons e es ih =>
      intro s
      cases e with
      | created fd => exact ih (insert fd s)
      | closed fd  => exact ih (s.erase fd)

/-- Every descriptor created has been closed, and no other. -/
structure Disposed (s : Finset δ) (es : List (Event δ)) : Prop where
  closed    : ∀ fd, .created fd ∈ es → .closed fd ∈ es
  untouched : ∀ q ∈ s, .closed q ∉ es
  same      : openAfter s es = s

/-- `fd` is a new descriptor and open, no other one is new, and none from before has been closed. -/
structure Kept (s : Finset δ) (es : List (Event δ)) (fd : δ) : Prop where
  fresh     : fd ∉ s
  created   : .created fd ∈ es
  untouched : ∀ q ∈ s, .closed q ∉ es
  same      : openAfter s es = insert fd s

/-! ## Short calls -/

theorem disposed_nil (s : Finset δ) : Disposed s [] :=
  ⟨fun _ h => absurd h List.not_mem_nil, fun _ _ => List.not_mem_nil, rfl⟩

/-- A descriptor created and closed. -/
theorem disposed_closed (h : fd ∉ s) : Disposed s [.created fd, .closed fd] := by
  refine ⟨?_, ?_, ?_⟩
  · intro q hq
    rcases List.mem_cons.mp hq with heq | hq
    · obtain rfl := Event.created.inj heq
      exact List.mem_cons_of_mem _ List.mem_cons_self
    · rw [List.mem_singleton] at hq
      contradiction
  · intro q hq hmem
    rcases List.mem_cons.mp hmem with heq | hmem
    · contradiction
    · obtain rfl := Event.closed.inj (List.mem_singleton.mp hmem)
      exact h hq
  · exact Finset.erase_insert h

/-- A descriptor created. -/
theorem kept_created (h : fd ∉ s) : Kept s [.created fd] fd := by
  refine ⟨h, List.mem_singleton_self _, ?_, rfl⟩
  intro q _ hmem
  rw [List.mem_singleton] at hmem
  contradiction

/-- A descriptor left open. -/
theorem not_disposed (hc : .created fd ∈ es) (hno : .closed fd ∉ es) : ¬ Disposed s es :=
  fun h => hno (h.closed fd hc)

/-! ## Two descriptors at once -/

section Pair

variable {r w : δ} (hr : r ∉ s) (hw : w ∉ s) (hne : r ≠ w)

include hr hw

omit [DecidableEq δ] in
/-- No event closes a descriptor from before. -/
theorem untouched_pair {es : List (Event δ)} (hes : ∀ q, .closed q ∈ es → q = r ∨ q = w) :
    ∀ q ∈ s, .closed q ∉ es := by
  intro q hq hmem
  rcases hes q hmem with heq | heq
  · exact hr (heq ▸ hq)
  · exact hw (heq ▸ hq)

include hne

/-- Two descriptors created and both closed. -/
theorem disposed_pair : Disposed s [.created r, .created w, .closed r, .closed w] := by
  refine ⟨?_, untouched_pair hr hw ?_, ?_⟩
  · intro q hq
    simpa using hq
  · intro q hq
    simpa using hq
  · show ((insert w (insert r s)).erase r).erase w = s
    rw [Finset.erase_insert_of_ne hne.symm, Finset.erase_insert hr, Finset.erase_insert hw]

/-- Two descriptors created, the second closed. -/
theorem kept_fst : Kept s [.created r, .created w, .closed w] r := by
  refine ⟨hr, List.mem_cons_self, untouched_pair hr hw ?_, ?_⟩
  · intro q hq
    exact Or.inr (by simpa using hq)
  · show (insert w (insert r s)).erase w = insert r s
    apply Finset.erase_insert
    rw [Finset.mem_insert]
    rintro (heq | hmem)
    · exact hne heq.symm
    · exact hw hmem

/-- Two descriptors created, the first closed. -/
theorem kept_snd : Kept s [.created r, .created w, .closed r] w := by
  refine ⟨hw, List.mem_cons_of_mem _ List.mem_cons_self, untouched_pair hr hw ?_, ?_⟩
  · intro q hq
    exact Or.inl (by simpa using hq)
  · show (insert w (insert r s)).erase r = insert w s
    rw [Finset.erase_insert_of_ne hne.symm, Finset.erase_insert hr]

end Pair

/-! ## Calls in a row -/

theorem Disposed.append (h : Disposed s es) (h' : Disposed s es') : Disposed s (es ++ es') := by
  refine ⟨?_, ?_, ?_⟩
  · intro fd hfd
    rcases List.mem_append.mp hfd with hfd | hfd
    · exact List.mem_append_left _ (h.closed fd hfd)
    · exact List.mem_append_right _ (h'.closed fd hfd)
  · intro q hq hmem
    rcases List.mem_append.mp hmem with hmem | hmem
    · exact h.untouched q hq hmem
    · exact h'.untouched q hq hmem
  · rw [openAfter_append, h.same, h'.same]

/-- Failed calls before one that succeeds leave no trace. -/
theorem Disposed.kept (h : Disposed s es) (h' : Kept s es' fd) : Kept s (es ++ es') fd := by
  refine ⟨h'.fresh, List.mem_append_right _ h'.created, ?_, ?_⟩
  · intro q hq hmem
    rcases List.mem_append.mp hmem with hmem | hmem
    · exact h.untouched q hq hmem
    · exact h'.untouched q hq hmem
  · rw [openAfter_append, h.same, h'.same]

end FdTrace
