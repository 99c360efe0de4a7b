import Mathlib.Data.List.Basic

/-!
# `Lib.Framing` — messages one after the other in a stream

An encoding whose codes mark their own end: `Delimits enc` says that the first message of a stream and what
is left of the stream can be told from the stream. A stream of such codes then splits into messages in one
way only (`Delimits.flatMap_injective`). A text closed by a byte that does not occur in it marks its end.
-/

namespace Framing

universe u v

variable {α : Type u} {β : Type v} {enc : β → List α}

/-- The codes of `enc` are not empty, and what follows a code does not change how it reads. -/
structure Delimits (enc : β → List α) : Prop where
  ne_nil : ∀ x, enc x ≠ []
  append : ∀ {x y : β} {r r' : List α}, enc x ++ r = enc y ++ r' → x = y ∧ r = r'

/-- **Unique splitting.** A stream of codes is the stream of one list of messages only. -/
theorem Delimits.flatMap_injective (h : Delimits enc) :
    Function.Injective fun xs : List β => xs.flatMap enc := by
  intro xs
  induction xs with
  | nil =>
      intro ys hys
      cases ys with
      | nil => rfl
      | cons y ys =>
          have hnil : enc y ++ ys.flatMap enc = [] := hys.symm
          exact absurd (List.append_eq_nil_iff.mp hnil).1 (h.ne_nil y)
  | cons x xs ih =>
      intro ys hys
      cases ys with
      | nil =>
          have hnil : enc x ++ xs.flatMap enc = [] := hys
          exact absurd (List.append_eq_nil_iff.mp hnil).1 (h.ne_nil x)
      | cons y ys =>
          obtain ⟨rfl, hrest⟩ := h.append (show enc x ++ xs.flatMap enc = enc y ++ ys.flatMap enc from hys)
          rw [ih hrest]

/-- A text ends at the first `z`. -/
theorem append_cons_inj {z : α} {t t' r r' : List α} (ht : z ∉ t) (ht' : z ∉ t')
    (h : t ++ z :: r = t' ++ z :: r') : t = t' ∧ r = r' := by
  induction t generalizing t' with
  | nil =>
      cases t' with
      | nil => exact ⟨rfl, (List.cons.inj h).2⟩
      | cons c t' => exact absurd ((List.cons.inj h).1 ▸ List.mem_cons_self) ht'
  | cons c t ih =>
      cases t' with
      | nil => exact absurd ((List.cons.inj h).1 ▸ List.mem_cons_self) ht
      | cons c' t' =>
          obtain ⟨rfl, htail⟩ := List.cons.inj h
          obtain ⟨rfl, hr⟩ := ih (List.not_mem_of_not_mem_cons ht) (List.not_mem_of_not_mem_cons ht') htail
          exact ⟨rfl, hr⟩

end Framing
