import Mathlib.Logic.Equiv.Basic
import ApueToyCodes.Lib.HeapTree

/-!
# `Lib.ArrayHeap` — binary trees in level order

The first `n` elements of an array are a tree: the children of `p` are at `2p + 1` and `2p + 2`. `Largest`
says which of a node and its children an exchange is made with. Exchanges from the last node to the first
are one exchange a node of the tree, children first (`Stage`); exchanges down from the root repair a heap
with a new element at the root (`Sifting`).
-/

namespace ArrayHeap
open HeapTree BinaryTree

universe u

variable {α : Type u} {n i j p c m ll : Nat} {f g : Nat → α}

/-- `c` is a child of `p`. -/
def Child (p c : Nat) : Prop := c = 2 * p + 1 ∨ c = 2 * p + 2

/-- A node has two children at most. -/
theorem forall_child {P : Nat → Prop} (hl : 2 * p + 1 < n → P (2 * p + 1))
    (hr : 2 * p + 2 < n → P (2 * p + 2)) : ∀ c, Child p c → c < n → P c := by
  rintro c (rfl | rfl) hc
  · exact hl hc
  · exact hr hc

/-- `j` is in the subtree of `i`. -/
inductive Under (i : Nat) : Nat → Prop
  | refl : Under i i
  | child {p c : Nat} : Under i p → Child p c → Under i c

theorem Under.le (h : Under i j) : i ≤ j := by
  induction h with
  | refl => exact Nat.le_refl i
  | child _ hc ih =>
      unfold Child at hc
      omega

theorem Under.of_child (hc : Child i c) (h : Under c j) : Under i j := by
  induction h with
  | refl => exact .child .refl hc
  | child _ hc' ih => exact .child ih hc'

/-- What is under `i` is `i` or under one of its children. -/
theorem Under.top_cases (h : Under i j) : j = i ∨ Under (2 * i + 1) j ∨ Under (2 * i + 2) j := by
  induction h with
  | refl => exact Or.inl rfl
  | @child p c _ hc ih =>
      right
      rcases ih with rfl | h | h
      · rcases hc with rfl | rfl
        · exact Or.inl .refl
        · exact Or.inr .refl
      · exact Or.inl (.child h hc)
      · exact Or.inr (.child h hc)

/-- A child is under what its parent is under, and under itself. -/
theorem under_child (hc : Child p c) : Under i c ↔ i = c ∨ Under i p := by
  constructor
  · intro h
    cases h with
    | refl => exact Or.inl rfl
    | @child q _ hq hc' =>
        have hqp : q = p := by
          unfold Child at hc hc'
          omega
        exact Or.inr (hqp ▸ hq)
  · rintro (rfl | h)
    · exact .refl
    · exact .child h hc

theorem under_zero (j : Nat) : Under 0 j := by
  induction j using Nat.strongRecOn with
  | ind j ih =>
      by_cases hj : j = 0
      · rw [hj]
        exact .refl
      · apply Under.child (ih ((j - 1) / 2) (by omega))
        unfold Child
        omega

/-! ## The tree of an array -/

/-- The subtree of `i` in the first `n` elements. -/
def tree (n : Nat) (f : Nat → α) (i : Nat) : BinaryTree α :=
  if i < n then .node (f i) (tree n f (2 * i + 1)) (tree n f (2 * i + 2)) else .nil
termination_by n - i

theorem tree_of_lt (h : i < n) :
    tree n f i = .node (f i) (tree n f (2 * i + 1)) (tree n f (2 * i + 2)) := by
  rw [tree, if_pos h]

theorem tree_of_le (h : n ≤ i) : tree n f i = .nil := by rw [tree, if_neg (Nat.not_lt.mpr h)]

theorem mem_root?_tree {x : α} : x ∈ root? (tree n f i) ↔ i < n ∧ f i = x := by
  by_cases h : i < n
  · rw [tree_of_lt h, root?, Option.mem_some]
    exact (and_iff_right h).symm
  · rw [tree_of_le (Nat.not_lt.mp h)]
    exact iff_of_false (fun h' => nomatch h') (fun h' => h h'.1)

theorem mem_elems_tree (h : Under i j) (hj : j < n) : f j ∈ elems (tree n f i) := by
  induction i using tree.induct n with
  | case1 i hi ihl ihr =>
      rw [tree_of_lt hi, elems, List.mem_cons, List.mem_append]
      rcases h.top_cases with rfl | h | h
      · exact Or.inl rfl
      · exact Or.inr (Or.inl (ihl h))
      · exact Or.inr (Or.inr (ihr h))
  | case2 i hi => exact absurd (Nat.lt_of_le_of_lt h.le hj) hi

/-- A subtree depends on the elements in it. -/
theorem tree_congr (h : ∀ j, Under i j → f j = g j) : tree n f i = tree n g i := by
  induction i using tree.induct n with
  | case1 i hi ihl ihr =>
      rw [tree_of_lt hi, tree_of_lt hi, h i .refl, ihl fun j hj => h j (.of_child (Or.inl rfl) hj),
        ihr fun j hj => h j (.of_child (Or.inr rfl) hj)]
  | case2 i hi => rw [tree_of_le (Nat.not_lt.mp hi), tree_of_le (Nat.not_lt.mp hi)]

/-- An exchange of two elements outside a subtree leaves it as it is. -/
theorem tree_swap (hm : ¬ Under i m) (hp : ¬ Under i p) (hg : ∀ k, g k = f (Equiv.swap m p k)) :
    tree n g i = tree n f i := by
  apply tree_congr
  intro j hj
  rw [hg, Equiv.swap_apply_of_ne_of_ne]
  · rintro rfl
    exact hm hj
  · rintro rfl
    exact hp hj

section
variable [LinearOrder α]

/-- No element is smaller than one of its children. -/
def HeapOrdered (n : Nat) (f : Nat → α) : Prop := ∀ p c, Child p c → c < n → f c ≤ f p

theorem isHeap_tree_iff : IsHeap (tree n f i) ↔ ∀ p c, Under i p → Child p c → c < n → f c ≤ f p := by
  induction i using tree.induct n with
  | case1 i hi ihl ihr =>
      rw [tree_of_lt hi, IsHeap, ihl, ihr]
      constructor
      · rintro ⟨hl, hr, hsl, hsr⟩ p c hp hc hcn
        rcases hp.top_cases with rfl | hp | hp
        · rcases hc with rfl | rfl
          · exact hl _ (mem_elems_tree .refl hcn)
          · exact hr _ (mem_elems_tree .refl hcn)
        · exact hsl p c hp hc hcn
        · exact hsr p c hp hc hcn
      · intro h
        have hsub : ∀ s, Child i s → ∀ p c, Under s p → Child p c → c < n → f c ≤ f p :=
          fun s hs p c hp hc hcn => h p c (.of_child hs hp) hc hcn
        have hroot : ∀ s, Child i s → ∀ y ∈ root? (tree n f s), y ≤ f i := by
          intro s hs y hy
          obtain ⟨hsn, rfl⟩ := mem_root?_tree.mp hy
          exact h i s .refl hs hsn
        exact ⟨(ihl.mpr (hsub _ (Or.inl rfl))).rootMax.le_of_root (hroot _ (Or.inl rfl)),
          (ihr.mpr (hsub _ (Or.inr rfl))).rootMax.le_of_root (hroot _ (Or.inr rfl)),
          hsub _ (Or.inl rfl), hsub _ (Or.inr rfl)⟩
  | case2 i hi =>
      rw [tree_of_le (Nat.not_lt.mp hi)]
      apply iff_of_true trivial
      intro p c hp hc hcn
      have hle := hp.le
      unfold Child at hc
      omega

/-- The heap order of an array is that of its tree. -/
theorem isHeap_tree_zero : IsHeap (tree n f 0) ↔ HeapOrdered n f := by
  rw [isHeap_tree_iff]
  exact ⟨fun h p c => h p c (under_zero p), fun h p c _ => h p c⟩

/-- The root of a heap is its greatest element. -/
theorem HeapOrdered.le_root (h : HeapOrdered n f) (j : Nat) (hj : j < n) : f j ≤ f 0 := by
  have hunder := under_zero j
  induction hunder with
  | refl => exact le_refl _
  | child _ hc ih =>
      have hlt := h _ _ hc hj
      exact hlt.trans (ih (by unfold Child at hc; omega))

/-! ## The greatest of a node and its children -/

/-- `m` is `p` or the greater child of `p`, whichever has the greater element; the left child where both
    children are equal. -/
inductive Largest (n : Nat) (f : Nat → α) (p : Nat) : Nat → Prop
  | stay : (∀ c, Child p c → c < n → f c ≤ f p) → Largest n f p p
  | left : 2 * p + 1 < n → f p < f (2 * p + 1) → (2 * p + 2 < n → f (2 * p + 2) ≤ f (2 * p + 1)) →
      Largest n f p (2 * p + 1)
  | right : 2 * p + 2 < n → f p < f (2 * p + 2) → f (2 * p + 1) < f (2 * p + 2) →
      Largest n f p (2 * p + 2)

theorem Largest.eq_or_child (h : Largest n f p m) : m = p ∨ Child p m := by
  cases h with
  | stay => exact Or.inl rfl
  | left => exact Or.inr (Or.inl rfl)
  | right => exact Or.inr (Or.inr rfl)

theorem Largest.lt (h : Largest n f p m) (hp : p < n) : m < n := by
  cases h with
  | stay => exact hp
  | left h => exact h
  | right h => exact h

/-- Where it is not the node itself, it is its greater child. -/
theorem Largest.child (h : Largest n f p m) (hmp : m ≠ p) :
    Child p m ∧ f p < f m ∧ ∀ c, Child p c → c < n → f c ≤ f m := by
  cases h with
  | stay => exact absurd rfl hmp
  | left _ hlt hge =>
      exact ⟨Or.inl rfl, hlt, forall_child (fun _ => le_refl _) hge⟩
  | right _ hlt hgt =>
      exact ⟨Or.inr rfl, hlt, forall_child (fun _ => le_of_lt hgt) fun _ => le_refl _⟩

/-- Where it is the node itself, no child is greater. -/
theorem Largest.self (h : Largest n f p p) : ∀ c, Child p c → c < n → f c ≤ f p := by
  cases h with
  | stay h => exact h

/-- **The exchange with the greatest** is one exchange at the node of the tree. -/
theorem Largest.pulled (h : Largest n f p m) (hp : p < n) (hg : ∀ k, g k = f (Equiv.swap m p k)) :
    Pulled (f p) (tree n f (2 * p + 1)) (tree n f (2 * p + 2)) (tree n g p) := by
  have hrest : ∀ s, ¬ Under s p → ¬ Under s m → tree n g s = tree n f s := fun s h1 h2 => tree_swap h2 h1 hg
  have hbig : ∀ {s k}, k < s → ¬ Under s k := fun hlt hs => absurd hs.le (Nat.not_le.mpr hlt)
  rw [tree_of_lt hp]
  cases h with
  | stay h =>
      rw [hg, Equiv.swap_self, Equiv.refl_apply, hrest _ (hbig (by omega)) (hbig (by omega)),
        hrest _ (hbig (by omega)) (hbig (by omega))]
      apply Pulled.stay
      · intro y hy
        obtain ⟨hn, rfl⟩ := mem_root?_tree.mp hy
        exact h _ (Or.inl rfl) hn
      · intro y hy
        obtain ⟨hn, rfl⟩ := mem_root?_tree.mp hy
        exact h _ (Or.inr rfl) hn
  | left hn hlt hge =>
      rw [hg p, Equiv.swap_apply_right, hrest (2 * p + 2) (hbig (by omega)) (hbig (by omega)),
        tree_of_lt hn, tree_of_lt hn, hg (2 * p + 1), Equiv.swap_apply_left,
        hrest _ (hbig (by omega)) (hbig (by omega)), hrest _ (hbig (by omega)) (hbig (by omega))]
      apply Pulled.left hlt
      intro z hz
      obtain ⟨hn', rfl⟩ := mem_root?_tree.mp hz
      exact hge hn'
  | right hn hlt hgt =>
      have hsib : ¬ Under (2 * p + 1) (2 * p + 2) := by
        rw [under_child (Or.inr rfl : Child p (2 * p + 2))]
        rintro (h' | h')
        · omega
        · exact hbig (by omega) h'
      rw [hg p, Equiv.swap_apply_right, hrest (2 * p + 1) (hbig (by omega)) hsib,
        tree_of_lt hn, tree_of_lt hn, hg (2 * p + 2), Equiv.swap_apply_left,
        hrest _ (hbig (by omega)) (hbig (by omega)), hrest _ (hbig (by omega)) (hbig (by omega))]
      apply Pulled.right hlt
      intro y hy
      obtain ⟨_, rfl⟩ := mem_root?_tree.mp hy
      exact hgt

/-! ## From the last node to the first -/

/-- `g` is `f` after the exchanges at the nodes from `ll` on: whole subtrees are built, the elements before
    `ll` untouched. -/
structure Stage (n : Nat) (f g : Nat → α) (ll : Nat) : Prop where
  before : ∀ i < ll, g i = f i
  built  : ∀ i, ll ≤ i → (∀ p, Child p i → p < ll) → Built (tree n f i) (tree n g i)

theorem Stage.start : Stage n f f n := by
  refine ⟨fun _ _ => rfl, ?_⟩
  intro i hi _
  rw [tree_of_le hi]
  exact .nil

/-- **The exchange at one more node.** -/
theorem Stage.next {g' : Nat → α} (h : Stage n f g (p + 1)) (hp : p < n) (hm : Largest n g p m)
    (hg : ∀ k, g' k = g (Equiv.swap m p k)) : Stage n f g' p := by
  have hmp := hm.eq_or_child
  constructor
  · intro i hi
    rw [hg, Equiv.swap_apply_of_ne_of_ne, h.before i (by omega)]
    · unfold Child at hmp
      omega
    · omega
  · intro i hi hpar
    by_cases hip : i = p
    · subst hip
      have hchild : ∀ c, Child i c → Built (tree n f c) (tree n g c) := by
        intro c hc
        apply h.built c
        · unfold Child at hc
          omega
        · intro q hq
          unfold Child at hc hq
          omega
      rw [tree_of_lt hp, ← h.before i (Nat.lt_succ_self i)]
      exact .node (hchild _ (Or.inl rfl)) (hchild _ (Or.inr rfl)) (hm.pulled hp hg)
    · -- another subtree, where neither `p` nor its child is
      have hnp : ¬ Under i p := fun hu => by
        have := hu.le
        omega
      have hnm : ¬ Under i m := by
        rcases hmp with rfl | hc
        · exact hnp
        · rw [under_child hc]
          rintro (rfl | hu)
          · exact absurd (hpar p hc) (Nat.lt_irrefl p)
          · exact hnp hu
      rw [tree_swap hnm hnp hg]
      exact h.built i (by omega) fun q hq => Nat.lt_succ_of_lt (hpar q hq)

theorem Stage.finish (h : Stage n f g 0) : Built (tree n f 0) (tree n g 0) := by
  apply h.built 0 (Nat.le_refl 0)
  intro p hp
  unfold Child at hp
  omega

/-! ## Down from the root -/

/-- Only `i` may be smaller than one of its children; what is above `i` is not smaller than these either. -/
structure Sifting (n : Nat) (f : Nat → α) (i : Nat) : Prop where
  ordered : ∀ p c, Child p c → c < n → p ≠ i → f c ≤ f p
  across  : ∀ p c, Child p i → Child i c → c < n → f c ≤ f p

theorem Sifting.done (h : Sifting n f i) (hmax : ∀ c, Child i c → c < n → f c ≤ f i) : HeapOrdered n f := by
  intro p c hc hcn
  by_cases hp : p = i
  · subst hp
    exact hmax c hc hcn
  · exact h.ordered p c hc hcn hp

/-- **One step down** to the greater child. -/
theorem Sifting.down (h : Sifting n f i) (hm : Largest n f i m) (hmi : m ≠ i) (hi : i < n)
    (hg : ∀ k, g k = f (Equiv.swap i m k)) : Sifting n g m := by
  obtain ⟨hchild, hlt, hmax⟩ := hm.child hmi
  have him : i < m := by unfold Child at hchild; omega
  have hgi : g i = f m := by rw [hg, Equiv.swap_apply_left]
  have hgm : g m = f i := by rw [hg, Equiv.swap_apply_right]
  have hgo : ∀ {k}, k ≠ i → k ≠ m → g k = f k := fun h1 h2 => by rw [hg, Equiv.swap_apply_of_ne_of_ne h1 h2]
  constructor
  · intro p c hc hcn hpm
    by_cases hpi : p = i
    · subst hpi
      rw [hgi]
      by_cases hcm : c = m
      · rw [hcm, hgm]
        exact le_of_lt hlt
      · rw [hgo (by unfold Child at hc; omega) hcm]
        exact hmax c hc hcn
    · rw [hgo hpi hpm]
      by_cases hci : c = i
      · subst hci
        rw [hgi]
        exact h.across p m hc hchild (hm.lt hi)
      · rw [hgo hci (by unfold Child at hc hchild; omega)]
        exact h.ordered p c hc hcn hpi
  · intro p c hp hc hcn
    obtain rfl : p = i := by
      unfold Child at hp hchild
      omega
    rw [hgi, hgo (by unfold Child at hc; omega) (by unfold Child at hc; omega)]
    exact h.ordered m c hc hcn hmi

end

end ArrayHeap
