import Mathlib.Logic.Function.Basic
import ApueToyCodes.Lib.Links

/-!
# `Lib.DLinks` — doubly linked lists in a store

Cells hold two pointers each. The list hangs on a cell of its own, the sentinel `z`: `next z` is its head and
`prev z` its tail, and the pointers at both ends lead back to `z`. A program that keeps a head and a tail and
ends its lists with `NULL` has such a list, with `NULL` for the sentinel; the cases it makes for an empty list
and for the ends are the assignments `insert` and `remove` ask for.
-/

namespace DLinks

open Links

universe u

variable {α : Type u} {next prev next' prev' : α → α} {z o : α} {l m : List α}

/-- The list `l`, linked in both directions. -/
structure DLinked (next prev : α → α) (z : α) (l : List α) : Prop where
  forth : Linked next z z l
  back  : Linked prev z z l.reverse

/-- What comes after the sentinel in front of `m`, seen from the other end. -/
abbrev after (z : α) (m : List α) : α := before z m.reverse

theorem headD_reverse (z : α) (l : List α) : l.reverse.headD z = before z l := by
  unfold before
  rw [List.headD_eq_head?_getD, List.head?_reverse, List.getLastD_eq_getLast?]

theorem headD_eq_after (z : α) (m : List α) : m.headD z = after z m := by
  unfold after
  rw [← headD_reverse, List.reverse_reverse]

namespace DLinked

theorem empty (hn : next z = z) (hp : prev z = z) : DLinked next prev z [] := ⟨hn, hp⟩

theorem head (h : DLinked next prev z l) : next z = l.headD z := h.forth.head

theorem tail (h : DLinked next prev z l) : prev z = before z l := by
  rw [h.back.head, headD_reverse]

theorem nodup (h : DLinked next prev z l) : (z :: l).Nodup := h.forth.nodup

/-- The pointers of an element lead to its neighbours. -/
theorem prev_eq (h : DLinked next prev z (l ++ o :: m)) : prev o = before z l := by
  have hback := h.back
  rw [List.reverse_append, List.reverse_cons, List.append_assoc, List.singleton_append] at hback
  rw [hback.suffix.head, headD_reverse]

theorem next_eq (h : DLinked next prev z (l ++ o :: m)) : next o = after z m := by
  rw [h.forth.suffix.head, headD_eq_after]

/-- Cells off the list do not matter. -/
theorem congr (h : DLinked next prev z l) (hn : ∀ a ∈ z :: l, next' a = next a)
    (hp : ∀ a ∈ z :: l, prev' a = prev a) : DLinked next' prev' z l := by
  refine ⟨h.forth.congr hn, h.back.congr fun a ha => hp a ?_⟩
  rw [List.mem_cons, List.mem_reverse] at ha
  exact List.mem_cons.mpr ha

/-- **An element put in between.** Four pointers change: the two of the element, and the two that met
    there. -/
theorem insert (h : DLinked next prev z (l ++ m)) (ho : o ∉ z :: (l ++ m))
    (hn : next' (before z l) = o) (hon : next' o = after z m) (hp : prev' (after z m) = o)
    (hop : prev' o = before z l) (hnext : ∀ a ∈ z :: (l ++ m), a ≠ before z l → next' a = next a)
    (hprev : ∀ a ∈ z :: (l ++ m), a ≠ after z m → prev' a = prev a) :
    DLinked next' prev' z (l ++ o :: m) := by
  have hz : o ≠ z := fun heq => ho (heq ▸ List.mem_cons_self)
  have hmem : ∀ {a}, a ∈ z :: (m.reverse ++ l.reverse) ↔ a ∈ z :: (l ++ m) := by
    intro a
    simp only [List.mem_cons, List.mem_append, List.mem_reverse, or_comm (a := a ∈ m)]
  -- what `next` and `prev` are at the place
  have hgap : next (before z l) = after z m := h.forth.next_gap.trans (headD_eq_after z m)
  have hback := h.back
  rw [List.reverse_append] at hback
  have hgap' : prev (after z m) = before z l := hback.next_gap.trans (headD_reverse z l)
  refine ⟨h.forth.insert hz ho hn (hon.trans hgap.symm) hnext, ?_⟩
  rw [List.reverse_append, List.reverse_cons, List.append_assoc, List.singleton_append]
  refine hback.insert hz (fun hm => ho (hmem.mp hm)) hp (hop.trans hgap'.symm) fun a ha => ?_
  exact hprev a (hmem.mp ha)

/-- **An element taken out.** Two pointers change. -/
theorem remove (h : DLinked next prev z (l ++ o :: m)) (hn : next' (prev o) = next o)
    (hp : prev' (next o) = prev o) (hnext : ∀ a ∈ z :: (l ++ m), a ≠ prev o → next' a = next a)
    (hprev : ∀ a ∈ z :: (l ++ m), a ≠ next o → prev' a = prev a) : DLinked next' prev' z (l ++ m) := by
  rw [h.prev_eq] at hn hnext
  rw [h.next_eq] at hp hprev
  have hback := h.back
  rw [List.reverse_append, List.reverse_cons, List.append_assoc, List.singleton_append] at hback
  refine ⟨h.forth.remove hn hnext, ?_⟩
  rw [List.reverse_append]
  refine hback.remove hp fun a ha => hprev a ?_
  simp only [List.mem_cons, List.mem_append, List.mem_reverse] at ha ⊢
  rcases ha with ha | ha | ha
  · exact Or.inl ha
  · exact Or.inr (Or.inr ha)
  · exact Or.inr (Or.inl ha)

section
variable [DecidableEq α]

/-- The four assignments that put an element in. -/
theorem insert_update (h : DLinked next prev z (l ++ m)) (ho : o ∉ z :: (l ++ m)) :
    DLinked (Function.update (Function.update next o (after z m)) (before z l) o)
      (Function.update (Function.update prev o (before z l)) (after z m) o) z (l ++ o :: m) := by
  have hb : before z l ∈ z :: (l ++ m) := by
    rcases List.mem_cons.mp (before_mem z l) with heq | hl
    · rw [heq]
      exact List.mem_cons_self
    · exact List.mem_cons_of_mem _ (List.mem_append_left _ hl)
  have ha : after z m ∈ z :: (l ++ m) := by
    rcases List.mem_cons.mp (before_mem z m.reverse) with heq | hm
    · rw [show after z m = z from heq]
      exact List.mem_cons_self
    · exact List.mem_cons_of_mem _ (List.mem_append_right _ (List.mem_reverse.mp hm))
  have hne : ∀ a ∈ z :: (l ++ m), a ≠ o := fun a hm heq => ho (heq ▸ hm)
  apply h.insert ho
  · rw [Function.update_self]
  · rw [Function.update_of_ne (hne _ hb).symm, Function.update_self]
  · rw [Function.update_self]
  · rw [Function.update_of_ne (hne _ ha).symm, Function.update_self]
  · intro a hm hother
    rw [Function.update_of_ne hother, Function.update_of_ne (hne a hm)]
  · intro a hm hother
    rw [Function.update_of_ne hother, Function.update_of_ne (hne a hm)]

/-- The two assignments that take one out. -/
theorem remove_update (h : DLinked next prev z (l ++ o :: m)) :
    DLinked (Function.update next (prev o) (next o)) (Function.update prev (next o) (prev o)) z (l ++ m) := by
  apply h.remove
  · rw [Function.update_self]
  · rw [Function.update_self]
  · exact fun a _ hother => Function.update_of_ne hother _ _
  · exact fun a _ hother => Function.update_of_ne hother _ _

end

end DLinked

end DLinks
