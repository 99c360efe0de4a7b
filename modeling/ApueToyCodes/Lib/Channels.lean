import Mathlib.Logic.Function.Basic
import ApueToyCodes.Lib.Runs

/-!
# `Lib.Channels` — first-in first-out channels along runs

A system with channels indexed by `κ`: each label of a step either puts an element at the end of a channel,
takes one from its front, or leaves the channels alone (`Op`). Along every run a channel conserves its
elements (`run_conserves`): what it held and what was put in is what was taken out followed by what it
holds. On a channel that was empty the takes are therefore a prefix of the puts.
-/

namespace Channels
open Runs

universe u v w x

variable {κ : Type u} {α : Type v} {σ : Type w} {ι : Type x} [DecidableEq κ]

/-- What a label does to the channels. -/
inductive Op (κ : Type u) (α : Type v) where
  | put (k : κ) (a : α)
  | take (k : κ) (a : α)
  | idle

/-- The effect of an operation: `take` finds its element at the front. -/
def Op.Acts : Op κ α → (κ → List α) → (κ → List α) → Prop
  | .put k a,  q, q' => q' = Function.update q k (q k ++ [a])
  | .take k a, q, q' => ∃ rest, q k = a :: rest ∧ q' = Function.update q k rest
  | .idle,     q, q' => q' = q

def Op.putOn (k : κ) : Op κ α → Option α
  | .put k' a => if k' = k then some a else none
  | _         => none

def Op.takenFrom (k : κ) : Op κ α → Option α
  | .take k' a => if k' = k then some a else none
  | _          => none

/-- What the labels put on `k`, in order. -/
def puts (op : ι → Op κ α) (k : κ) (tr : List ι) : List α := tr.filterMap fun i => (op i).putOn k

/-- What the labels took from `k`, in order. -/
def takes (op : ι → Op κ α) (k : κ) (tr : List ι) : List α := tr.filterMap fun i => (op i).takenFrom k

/-- One operation conserves every channel. -/
theorem Op.Acts.conserves {o : Op κ α} {q q' : κ → List α} (h : o.Acts q q') (k : κ) :
    q k ++ (o.putOn k).toList = (o.takenFrom k).toList ++ q' k := by
  cases o with
  | put j a =>
      obtain rfl : q' = Function.update q j (q j ++ [a]) := h
      by_cases hj : j = k
      · subst hj
        simp [putOn, takenFrom]
      · simp [putOn, takenFrom, hj, Function.update_of_ne (Ne.symm hj)]
  | take j a =>
      obtain ⟨rest, hq, rfl⟩ := h
      by_cases hj : j = k
      · subst hj
        simp [putOn, takenFrom, hq]
      · simp [putOn, takenFrom, hj, Function.update_of_ne (Ne.symm hj)]
  | idle =>
      obtain rfl : q' = q := h
      simp [putOn, takenFrom]

variable {step : σ → ι → σ → Prop} {op : ι → Op κ α} {chan : σ → κ → List α}

theorem puts_cons (k : κ) (a : ι) (tr : List ι) :
    puts op k (a :: tr) = ((op a).putOn k).toList ++ puts op k tr := by
  unfold puts
  rw [List.filterMap_cons]
  cases (op a).putOn k <;> rfl

theorem takes_cons (k : κ) (a : ι) (tr : List ι) :
    takes op k (a :: tr) = ((op a).takenFrom k).toList ++ takes op k tr := by
  unfold takes
  rw [List.filterMap_cons]
  cases (op a).takenFrom k <;> rfl

theorem takes_append (k : κ) (tr tr' : List ι) :
    takes op k (tr ++ tr') = takes op k tr ++ takes op k tr' := List.filterMap_append

/-- **Conservation.** Nothing put on a channel is lost, changed, taken twice or out of order. -/
theorem run_conserves (hstep : ∀ s a s', step s a s' → (op a).Acts (chan s) (chan s')) {s s' : σ}
    {tr : List ι} (h : Run step s tr s') (k : κ) :
    chan s k ++ puts op k tr = takes op k tr ++ chan s' k := by
  induction h with
  | refl => simp [puts, takes]
  | @cons s s₁ s' a tr hs _ ih =>
      calc chan s k ++ puts op k (a :: tr)
          = chan s k ++ ((op a).putOn k).toList ++ puts op k tr := by rw [puts_cons, List.append_assoc]
        _ = ((op a).takenFrom k).toList ++ (chan s₁ k ++ puts op k tr) := by
              rw [(hstep s a s₁ hs).conserves k, List.append_assoc]
        _ = takes op k (a :: tr) ++ chan s' k := by rw [ih, takes_cons, List.append_assoc]

end Channels
