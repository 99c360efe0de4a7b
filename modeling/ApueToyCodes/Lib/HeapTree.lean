import Mathlib.Data.List.Perm.Basic
import Mathlib.Data.Tree.Basic
import Mathlib.Order.Lattice

/-!
# `Lib.HeapTree` — making a heap with one exchange a node

From the leaves up, every node is exchanged once with the greater one of its children where that is greater
than itself (`Built`). The greatest element comes to the root, but what went down is not followed further:
the result is a heap exactly where in the subtree it went down into at most one element was greater
(`Built.isHeap_iff`).
-/

namespace HeapTree
open BinaryTree

universe u

variable {α : Type u}

/-- The elements of a tree. -/
def elems : BinaryTree α → List α
  | .nil => []
  | .node x l r => x :: (elems l ++ elems r)

/-- The element at the root. -/
def root? : BinaryTree α → Option α
  | .nil => none
  | .node x _ _ => some x

variable [LinearOrder α] {x y z : α} {l r l' r' t t' : BinaryTree α}

/-- No element is below a smaller one. -/
def IsHeap : BinaryTree α → Prop
  | .nil => True
  | .node x l r => (∀ y ∈ elems l, y ≤ x) ∧ (∀ y ∈ elems r, y ≤ x) ∧ IsHeap l ∧ IsHeap r

/-- No element is greater than the root. -/
def RootMax (t : BinaryTree α) : Prop := ∀ y ∈ root? t, ∀ z ∈ elems t, z ≤ y

theorem IsHeap.rootMax (h : IsHeap t) : RootMax t := by
  cases t with
  | nil => exact fun y hy => nomatch hy
  | node x l r =>
      intro y hy z hz
      obtain rfl : x = y := Option.some.inj hy
      obtain ⟨hl, hr, _, _⟩ := h
      rcases List.mem_cons.mp hz with rfl | hz
      · exact le_refl z
      · exact (List.mem_append.mp hz).elim (hl z) (hr z)

theorem RootMax.le_of_root (ht : RootMax t) (h : ∀ y ∈ root? t, y ≤ x) : ∀ z ∈ elems t, z ≤ x := by
  cases t with
  | nil => exact fun z hz => nomatch hz
  | node y l r => exact fun z hz => (ht y rfl z hz).trans (h y rfl)

/-! ## The exchange at one node -/

/-- `t` is the node `x` over `l` and `r` after the exchange with the greater one of its children, the left
    one where both are equal. -/
inductive Pulled (x : α) : BinaryTree α → BinaryTree α → BinaryTree α → Prop
  | stay {l r : BinaryTree α} : (∀ y ∈ root? l, y ≤ x) → (∀ z ∈ root? r, z ≤ x) → Pulled x l r (.node x l r)
  | left {y : α} {l₁ l₂ r : BinaryTree α} : x < y → (∀ z ∈ root? r, z ≤ y) →
      Pulled x (.node y l₁ l₂) r (.node y (.node x l₁ l₂) r)
  | right {z : α} {l r₁ r₂ : BinaryTree α} : x < z → (∀ y ∈ root? l, y < z) →
      Pulled x l (.node z r₁ r₂) (.node z l (.node x r₁ r₂))

theorem Pulled.perm (h : Pulled x l r t) : (elems t).Perm (x :: (elems l ++ elems r)) := by
  cases h with
  | stay => exact List.Perm.refl _
  | @left y l₁ l₂ => exact List.Perm.swap x y _
  | @right z _ r₁ r₂ =>
      have hmid : (elems l ++ x :: (elems r₁ ++ elems r₂)).Perm
          (x :: (elems l ++ (elems r₁ ++ elems r₂))) := List.perm_middle
      have hmid' : (elems l ++ z :: (elems r₁ ++ elems r₂)).Perm
          (z :: (elems l ++ (elems r₁ ++ elems r₂))) := List.perm_middle
      exact (hmid.cons z).trans ((List.Perm.swap x z _).trans (hmid'.symm.cons x))

theorem Pulled.rootMax (h : Pulled x l r t) (hl : RootMax l) (hr : RootMax r) : RootMax t := by
  intro y hy w hw
  have hmem := h.perm.mem_iff.mp hw
  rw [List.mem_cons, List.mem_append] at hmem
  cases h with
  | stay h1 h2 =>
      obtain rfl : x = y := Option.some.inj hy
      rcases hmem with rfl | hw | hw
      · exact le_refl w
      · exact hl.le_of_root h1 w hw
      · exact hr.le_of_root h2 w hw
  | @left z l₁ l₂ _ h1 h2 =>
      obtain rfl : z = y := Option.some.inj hy
      rcases hmem with rfl | hw | hw
      · exact le_of_lt h1
      · exact hl z rfl w hw
      · exact hr.le_of_root h2 w hw
  | @right z _ r₁ r₂ h1 h2 =>
      obtain rfl : z = y := Option.some.inj hy
      rcases hmem with rfl | hw | hw
      · exact le_of_lt h1
      · exact hl.le_of_root (fun y hy => le_of_lt (h2 y hy)) w hw
      · exact hr z rfl w hw

/-! ## When the exchange leaves a heap -/

/-- The elements of the child with the greater maximum, the left one where the maxima are equal. -/
def greaterChild (l r : BinaryTree α) : List α :=
  if ∃ z ∈ elems r, ∀ y ∈ elems l, y < z then elems r else elems l

theorem greaterChild_perm (hl : (elems l').Perm (elems l)) (hr : (elems r').Perm (elems r)) :
    (greaterChild l' r').Perm (greaterChild l r) := by
  have hiff : (∃ z ∈ elems r', ∀ y ∈ elems l', y < z) ↔ ∃ z ∈ elems r, ∀ y ∈ elems l, y < z := by
    simp only [hr.mem_iff, hl.mem_iff]
  unfold greaterChild
  by_cases h : ∃ z ∈ elems r, ∀ y ∈ elems l, y < z
  · rw [if_pos (hiff.mpr h), if_pos h]
    exact hr
  · rw [if_neg (mt hiff.mp h), if_neg h]
    exact hl

/-- How many of the elements are greater than `x`. -/
def above (x : α) (s : List α) : Nat := s.countP (fun y => decide (x < y))

theorem above_eq_zero {s : List α} : above x s = 0 ↔ ∀ y ∈ s, y ≤ x := by
  unfold above
  rw [List.countP_eq_zero]
  simp only [decide_eq_true_eq, not_lt]

/-- **Going down one node.** With a smaller `x` at the root of a heap it is a heap where the root was the one
    element above `x`. -/
theorem isHeap_lowered (ht : RootMax (.node y l r)) (hxy : x < y) :
    IsHeap (.node x l r) ↔ above x (elems (.node y l r)) ≤ 1 ∧ IsHeap (.node y l r) := by
  have hcount : above x (elems (.node y l r)) = above x (elems l ++ elems r) + 1 := by
    unfold above
    rw [elems, List.countP_cons, if_pos (decide_eq_true hxy)]
  have hzero : above x (elems (.node y l r)) ≤ 1 ↔ ∀ w ∈ elems l ++ elems r, w ≤ x := by
    rw [hcount, ← above_eq_zero]
    omega
  have htop : ∀ w ∈ elems l ++ elems r, w ≤ y := fun w hw => ht y rfl w (List.mem_cons_of_mem y hw)
  rw [hzero]
  simp only [IsHeap, List.mem_append] at htop ⊢
  constructor
  · rintro ⟨hl, hr, h1, h2⟩
    exact ⟨fun w hw => hw.elim (hl w) (hr w), fun w hw => htop w (Or.inl hw),
      fun w hw => htop w (Or.inr hw), h1, h2⟩
  · rintro ⟨hx, _, _, h1, h2⟩
    exact ⟨fun w hw => hx w (Or.inl hw), fun w hw => hx w (Or.inr hw), h1, h2⟩

/-- **One exchange** makes a heap of two where at most one element of the greater child is above the node. -/
theorem Pulled.isHeap_iff (h : Pulled x l r t) (hl : RootMax l) (hr : RootMax r) :
    IsHeap t ↔ above x (greaterChild l r) ≤ 1 ∧ IsHeap l ∧ IsHeap r := by
  cases h with
  | stay h1 h2 =>
      have hxl := hl.le_of_root h1
      have hxr := hr.le_of_root h2
      have hzero : above x (greaterChild l r) = 0 := by
        rw [above_eq_zero, greaterChild]
        split
        · exact hxr
        · exact hxl
      rw [hzero]
      exact ⟨fun h => ⟨Nat.zero_le 1, h.2.2⟩, fun h => ⟨hxl, hxr, h.2⟩⟩
  | @left y l₁ l₂ _ h1 h2 =>
      have hyr := hr.le_of_root h2
      have hchoice : greaterChild (.node y l₁ l₂) r = elems (.node y l₁ l₂) := by
        apply if_neg
        rintro ⟨z, hz, hlt⟩
        exact absurd (hlt y List.mem_cons_self) (not_lt.mpr (hyr z hz))
      have htop : ∀ w ∈ elems (.node x l₁ l₂), w ≤ y := by
        intro w hw
        rcases List.mem_cons.mp hw with rfl | hw
        · exact le_of_lt h1
        · exact hl y rfl w (List.mem_cons_of_mem y hw)
      rw [hchoice, ← and_assoc, ← isHeap_lowered hl h1]
      exact ⟨fun h => h.2.2, fun h => ⟨htop, hyr, h⟩⟩
  | @right z _ r₁ r₂ h1 h2 =>
      have hlz : ∀ w ∈ elems l, w < z := by
        cases l with
        | nil => exact fun w hw => nomatch hw
        | node y _ _ => exact fun w hw => lt_of_le_of_lt (hl y rfl w hw) (h2 y rfl)
      have hchoice : greaterChild l (.node z r₁ r₂) = elems (.node z r₁ r₂) :=
        if_pos ⟨z, List.mem_cons_self, hlz⟩
      have htop : ∀ w ∈ elems (.node x r₁ r₂), w ≤ z := by
        intro w hw
        rcases List.mem_cons.mp hw with rfl | hw
        · exact le_of_lt h1
        · exact hr z rfl w (List.mem_cons_of_mem z hw)
      rw [hchoice, and_comm (a := IsHeap l), ← and_assoc, ← isHeap_lowered hr h1]
      exact ⟨fun h => ⟨h.2.2.2, h.2.2.1⟩, fun h => ⟨fun w hw => le_of_lt (hlz w hw), htop, h.2, h.1⟩⟩

/-! ## From the leaves up -/

/-- One exchange at every node, children first. -/
inductive Built : BinaryTree α → BinaryTree α → Prop
  | nil : Built .nil .nil
  | node {x : α} {l r l' r' t : BinaryTree α} :
      Built l l' → Built r r' → Pulled x l' r' t → Built (.node x l r) t

theorem Built.perm (h : Built t t') : (elems t').Perm (elems t) := by
  induction h with
  | nil => exact List.Perm.refl _
  | node _ _ hp ihl ihr => exact hp.perm.trans ((ihl.append ihr).cons _)

/-- The greatest element comes to the root. -/
theorem Built.rootMax (h : Built t t') : RootMax t' := by
  induction h with
  | nil => exact fun y hy => nomatch hy
  | node _ _ hp ihl ihr => exact hp.rootMax ihl ihr

/-- Under no node there are two elements above it in its greater child. -/
def OneGreater : BinaryTree α → Prop
  | .nil => True
  | .node x l r => above x (greaterChild l r) ≤ 1 ∧ OneGreater l ∧ OneGreater r

/-- **One exchange a node makes a heap** exactly where under no node there are two elements above it in its
    greater child. -/
theorem Built.isHeap_iff (h : Built t t') : IsHeap t' ↔ OneGreater t := by
  induction h with
  | nil => exact Iff.rfl
  | @node x l r l' r' t hl hr hp ihl ihr =>
      have hcount : above x (greaterChild l' r') = above x (greaterChild l r) :=
        (greaterChild_perm hl.perm hr.perm).countP_eq _
      rw [hp.isHeap_iff hl.rootMax hr.rootMax, hcount, ihl, ihr]
      exact Iff.rfl

end HeapTree
