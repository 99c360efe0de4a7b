import Mathlib.Data.List.Basic
import Mathlib.Data.List.Nodup
import Mathlib.Logic.Function.Basic
import Mathlib.Tactic.Common

/-!
# `Lib.Links` — singly linked lists in a store

Cells hold a pointer each, `next`. `Linked next null c l` says that the walk from the cell `c` visits the
cells `l` and ends at `null`; `c` is the anchor of the list and not one of them. The pointer to an element is
in the cell before it, which is the anchor for the first one (`before`). The rules are for a store that is
changed elsewhere (`Linked.congr`), for an element put in front (`Linked.push`) and for one taken out
(`Linked.remove`).

A `Family` is several lists that share a store, each with its anchor, such that every record of the store is
on one of them or `loose`. A record is moved from one list to another by `Family.unlink` and `Family.push`.
-/

namespace Links

universe u v

variable {α : Type u} {next next' : α → α} {null c o : α} {l m : List α}

/-- The walk from `c` visits `l`. -/
def Linked (next : α → α) (null : α) : α → List α → Prop
  | c, []     => next c = null
  | c, o :: l => next c = o ∧ o ≠ null ∧ Linked next null o l

/-- The cell that points to what comes behind `l`. -/
def before (c : α) (l : List α) : α := l.getLastD c

@[simp] theorem before_nil (c : α) : before c [] = c := rfl

@[simp] theorem before_cons (c o : α) (l : List α) : before c (o :: l) = before o l := by
  unfold before
  cases l with
  | nil => rfl
  | cons p l => rfl

@[simp] theorem before_concat (c o : α) (l : List α) : before c (l ++ [o]) = o := by
  unfold before
  rw [List.getLastD_concat]

theorem before_mem (c : α) (l : List α) : before c l ∈ c :: l := by
  induction l generalizing c with
  | nil => exact List.mem_singleton_self c
  | cons o l ih =>
      rw [before_cons]
      exact List.mem_cons_of_mem _ (ih o)

/-- Cells off the list do not matter. -/
theorem Linked.congr (h : Linked next null c l) (heq : ∀ a ∈ c :: l, next' a = next a) :
    Linked next' null c l := by
  induction l generalizing c with
  | nil => exact (heq c List.mem_cons_self).trans h
  | cons o l ih =>
      refine ⟨(heq c List.mem_cons_self).trans h.1, h.2.1, ih h.2.2 fun a ha => ?_⟩
      exact heq a (List.mem_cons_of_mem _ ha)

theorem Linked.next_before (h : Linked next null c (l ++ o :: m)) : next (before c l) = o := by
  induction l generalizing c with
  | nil => exact h.1
  | cons p l ih =>
      rw [before_cons]
      exact ih h.2.2

theorem Linked.suffix (h : Linked next null c (l ++ o :: m)) : Linked next null o m := by
  induction l generalizing c with
  | nil => exact h.2.2
  | cons p l ih => exact ih h.2.2

/-- A walk goes one way only. -/
theorem Linked.unique (h : Linked next null c l) (h' : Linked next null c m) : l = m := by
  induction l generalizing c m with
  | nil =>
      cases m with
      | nil => rfl
      | cons o m => exact absurd (h'.1.symm.trans h) h'.2.1
  | cons o l ih =>
      cases m with
      | nil => exact absurd (h.1.symm.trans h') h.2.1
      | cons p m =>
          obtain rfl : o = p := h.1.symm.trans h'.1
          rw [ih h.2.2 h'.2.2]

/-- A walk that ends goes in no circle. -/
theorem Linked.nodup (h : Linked next null c l) : (c :: l).Nodup := by
  induction l generalizing c with
  | nil => exact List.nodup_singleton c
  | cons o l ih =>
      refine List.nodup_cons.mpr ⟨fun hc => ?_, ih h.2.2⟩
      -- from `c` on the list would go through itself
      obtain ⟨s, t, hst⟩ := List.append_of_mem hc
      have hsuf : Linked next null c t := Linked.suffix (l := s) (hst ▸ h)
      have hlen := congrArg List.length ((hsuf.unique h).trans hst)
      rw [List.length_append, List.length_cons] at hlen
      omega

/-- **An element put in front.** -/
theorem Linked.push (h : Linked next null c l) (ho : o ≠ null) (hnew : o ∉ c :: l)
    (hc : next' c = o) (hon : next' o = next c) (hother : ∀ a ∈ l, next' a = next a) :
    Linked next' null c (o :: l) := by
  refine ⟨hc, ho, ?_⟩
  cases l with
  | nil => exact hon.trans h
  | cons p l =>
      refine ⟨hon.trans h.1, h.2.1, h.2.2.congr fun a ha => hother a ha⟩

/-- The walk starts at the first element, or ends at once. -/
theorem Linked.head (h : Linked next null c l) : next c = l.headD null := by
  cases l with
  | nil => exact h
  | cons o l => exact h.1

/-- What the cell before a place of the list points to. -/
theorem Linked.next_gap (h : Linked next null c (l ++ m)) : next (before c l) = m.headD null := by
  induction l generalizing c with
  | nil => exact h.head
  | cons p l ih =>
      rw [before_cons]
      exact ih h.2.2

/-- **An element put in between.** -/
theorem Linked.insert (h : Linked next null c (l ++ m)) (ho : o ≠ null) (hnew : o ∉ c :: (l ++ m))
    (hb : next' (before c l) = o) (hon : next' o = next (before c l))
    (hother : ∀ a ∈ c :: (l ++ m), a ≠ before c l → next' a = next a) :
    Linked next' null c (l ++ o :: m) := by
  induction l generalizing c with
  | nil =>
      refine h.push ho hnew hb hon fun a ha => hother a (List.mem_cons_of_mem _ ha) ?_
      rintro rfl
      exact (List.nodup_cons.mp h.nodup).1 ha
  | cons p l ih =>
      rw [before_cons] at hb hon hother
      have hlater : c ≠ before p l := by
        rintro rfl
        refine (List.nodup_cons.mp h.nodup).1 ?_
        rcases List.mem_cons.mp (before_mem p l) with heq | hm
        · rw [heq]
          exact List.mem_cons_self
        · exact List.mem_cons_of_mem _ (List.mem_append_left _ hm)
      refine ⟨(hother c List.mem_cons_self hlater).trans h.1, h.2.1, ih h.2.2 ?_ hb hon fun a ha => ?_⟩
      · exact fun hm => hnew (List.mem_cons_of_mem _ hm)
      · exact hother a (List.mem_cons_of_mem _ ha)

/-- **An element taken out.** -/
theorem Linked.remove (h : Linked next null c (l ++ o :: m)) (hb : next' (before c l) = next o)
    (hother : ∀ a ∈ c :: (l ++ m), a ≠ before c l → next' a = next a) : Linked next' null c (l ++ m) := by
  induction l generalizing c with
  | nil =>
      have hnd := h.nodup
      have htail := h.2.2
      cases m with
      | nil => exact hb.trans htail
      | cons p m =>
          refine ⟨hb.trans htail.1, htail.2.1, htail.2.2.congr fun a ha => hother a ?_ ?_⟩
          · exact List.mem_cons_of_mem _ ha
          · rintro rfl
            exact (List.nodup_cons.mp hnd).1 (List.mem_cons_of_mem _ ha)
  | cons p l ih =>
      rw [before_cons] at hb hother
      refine ⟨(hother c List.mem_cons_self ?_).trans h.1, h.2.1, ih h.2.2 hb fun a ha => ?_⟩
      · intro heq
        -- the cell before the element is further on
        have hmem : before p l ∈ p :: (l ++ o :: m) := by
          rcases List.mem_cons.mp (before_mem p l) with hm | hm
          · rw [hm]; exact List.mem_cons_self
          · exact List.mem_cons_of_mem _ (List.mem_append_left _ hm)
        exact (List.nodup_cons.mp h.nodup).1 (heq ▸ hmem)
      · exact hother a (List.mem_cons_of_mem _ ha)

/-! ## Lists that share a store -/

variable {ι : Type v} {anchor : ι → α} {record record' : α → Prop} {loose : List α} {lists : ι → List α} {i : ι}

/-- The anchors and the records. -/
def IsCell (anchor : ι → α) (record : α → Prop) (a : α) : Prop := (∃ i, a = anchor i) ∨ record a

/-- The lists are what the walks from the anchors visit, and every record is on one of them or loose. -/
structure Family (next : α → α) (null : α) (anchor : ι → α) (record : α → Prop) (loose : List α)
    (lists : ι → List α) : Prop where
  anchors : Function.Injective anchor
  plain   : ∀ o, record o → o ≠ null ∧ ∀ i, o ≠ anchor i
  linked  : ∀ i, Linked next null (anchor i) (lists i)
  covers  : ∀ o, record o ↔ o ∈ loose ∨ ∃ i, o ∈ lists i
  apart   : ∀ i j o, o ∈ lists i → o ∈ lists j → i = j
  free    : ∀ o ∈ loose, ∀ i, o ∉ lists i
  once    : loose.Nodup

namespace Family

theorem record_of_mem (h : Family next null anchor record loose lists) (ho : o ∈ lists i) : record o :=
  (h.covers o).mpr (Or.inr ⟨i, ho⟩)

theorem isCell_of_mem (h : Family next null anchor record loose lists) {a : α} (ha : a ∈ anchor i :: lists i) :
    IsCell anchor record a := by
  rcases List.mem_cons.mp ha with rfl | ha
  · exact Or.inl ⟨i, rfl⟩
  · exact Or.inr (h.record_of_mem ha)

/-- The cell before an element of a list is one of its cells. -/
theorem before_mem_cells (hi : lists i = l ++ m) : before (anchor i) l ∈ anchor i :: lists i := by
  rcases List.mem_cons.mp (before_mem (anchor i) l) with heq | hmem
  · rw [heq]
    exact List.mem_cons_self
  · exact List.mem_cons_of_mem _ (hi ▸ List.mem_append_left _ hmem)

/-- The cells of one list are not those of another. -/
theorem cell_apart (h : Family next null anchor record loose lists) {j : ι} {a : α}
    (hi : a ∈ anchor i :: lists i) (hj : a ∈ anchor j :: lists j) : i = j := by
  rcases List.mem_cons.mp hi with rfl | hi
  · rcases List.mem_cons.mp hj with heq | hj
    · exact h.anchors heq
    · exact absurd rfl ((h.plain _ (h.record_of_mem hj)).2 i)
  · rcases List.mem_cons.mp hj with rfl | hj
    · exact absurd rfl ((h.plain _ (h.record_of_mem hi)).2 j)
    · exact h.apart i j a hi hj

/-- Pointers of loose records do not matter. -/
theorem congr (h : Family next null anchor record loose lists)
    (heq : ∀ a, IsCell anchor record a → a ∉ loose → next' a = next a) :
    Family next' null anchor record loose lists := by
  refine { h with linked := fun i => (h.linked i).congr fun a ha => heq a (h.isCell_of_mem ha) ?_ }
  intro hl
  rcases List.mem_cons.mp ha with rfl | ha
  · exact absurd rfl ((h.plain _ ((h.covers _).mpr (Or.inl hl))).2 i)
  · exact h.free a hl i ha

/-- **A new record**, loose. -/
theorem grow (h : Family next null anchor record loose lists) (hnew : ¬ record o)
    (hrecord : ∀ a, record' a ↔ a = o ∨ record a) (hplain : o ≠ null ∧ ∀ i, o ≠ anchor i)
    (heq : ∀ a, IsCell anchor record a → next' a = next a) :
    Family next' null anchor record' (o :: loose) lists := by
  refine ⟨h.anchors, fun a ha => ?_, fun i => ?_, fun a => ?_, h.apart, fun a ha i hi => ?_, ?_⟩
  · rcases (hrecord a).mp ha with rfl | ha
    · exact hplain
    · exact h.plain a ha
  · exact (h.linked i).congr fun a ha => heq a (h.isCell_of_mem ha)
  · rw [hrecord, h.covers, List.mem_cons, or_assoc]
  · rcases List.mem_cons.mp ha with rfl | ha
    · exact hnew (h.record_of_mem hi)
    · exact h.free a ha i hi
  · exact List.nodup_cons.mpr ⟨fun ho => hnew ((h.covers o).mpr (Or.inl ho)), h.once⟩

/-- **A loose record gone.** -/
theorem drop (h : Family next null anchor record (o :: loose) lists)
    (hrecord : ∀ a, record' a ↔ record a ∧ a ≠ o) (heq : ∀ a, a ≠ o → next' a = next a) :
    Family next' null anchor record' loose lists := by
  have hfree : ∀ i, o ∉ lists i := h.free o List.mem_cons_self
  have hanchor := ((h.plain o ((h.covers o).mpr (Or.inl List.mem_cons_self))).2)
  refine ⟨h.anchors, fun a ha => h.plain a ((hrecord a).mp ha).1, fun i => ?_, fun a => ?_, h.apart,
    fun a ha => h.free a (List.mem_cons_of_mem _ ha), (List.nodup_cons.mp h.once).2⟩
  · refine (h.linked i).congr fun a ha => heq a ?_
    rintro rfl
    rcases List.mem_cons.mp ha with ha | ha
    · exact hanchor i ha
    · exact hfree i ha
  · rw [hrecord, h.covers, List.mem_cons]
    constructor
    · rintro ⟨(rfl | ha) | ha, hne⟩
      · exact absurd rfl hne
      · exact Or.inl ha
      · exact Or.inr ha
    · rintro (ha | ⟨i, ha⟩)
      · refine ⟨Or.inl (Or.inr ha), ?_⟩
        rintro rfl
        exact (List.nodup_cons.mp h.once).1 ha
      · refine ⟨Or.inr ⟨i, ha⟩, ?_⟩
        rintro rfl
        exact hfree i ha

/-- The order of the loose records does not matter. -/
theorem perm (h : Family next null anchor record loose lists) {loose' : List α} (hp : loose.Perm loose') :
    Family next null anchor record loose' lists :=
  ⟨h.anchors, h.plain, h.linked, fun a => by rw [h.covers, hp.mem_iff], h.apart,
    fun a ha => h.free a (hp.mem_iff.mpr ha), hp.nodup_iff.mp h.once⟩

variable [DecidableEq ι]

/-- **A record taken off its list.** -/
theorem unlink (h : Family next null anchor record loose lists) (hi : lists i = l ++ o :: m)
    (hb : next' (before (anchor i) l) = next o)
    (hother : ∀ a, IsCell anchor record a → a ≠ before (anchor i) l → next' a = next a) :
    Family next' null anchor record (o :: loose) (Function.update lists i (l ++ m)) := by
  have hmem : o ∈ lists i := hi ▸ List.mem_append_right _ List.mem_cons_self
  have hsub : ∀ {a}, a ∈ l ++ m → a ∈ lists i := fun ha => by
    rw [hi]
    rcases List.mem_append.mp ha with ha | ha
    · exact List.mem_append_left _ ha
    · exact List.mem_append_right _ (List.mem_cons_of_mem _ ha)
  have hnodup : (l ++ o :: m).Nodup := hi ▸ (List.nodup_cons.mp (h.linked i).nodup).2
  have hout : o ∉ l ++ m := (List.nodup_middle.mp hnodup).notMem
  have hbefore : before (anchor i) l ∈ anchor i :: lists i := before_mem_cells hi
  refine ⟨h.anchors, h.plain, fun j => ?_, fun a => ?_, fun j k a hj hk => ?_, fun a ha j hj => ?_, ?_⟩
  · by_cases hji : j = i
    · subst hji
      rw [Function.update_self]
      refine (hi ▸ h.linked j).remove hb fun a ha => hother a (h.isCell_of_mem (i := j) ?_)
      rcases List.mem_cons.mp ha with rfl | ha
      · exact List.mem_cons_self
      · exact List.mem_cons_of_mem _ (hsub ha)
    · rw [Function.update_of_ne hji]
      refine (h.linked j).congr fun a ha => hother a (h.isCell_of_mem ha) ?_
      rintro rfl
      exact hji (h.cell_apart ha hbefore)
  · rw [h.covers, List.mem_cons, or_assoc]
    constructor
    · rintro (ha | ⟨j, hj⟩)
      · exact Or.inr (Or.inl ha)
      · by_cases hao : a = o
        · exact Or.inl hao
        · refine Or.inr (Or.inr ⟨j, ?_⟩)
          by_cases hji : j = i
          · subst hji
            rw [Function.update_self]
            rw [hi] at hj
            rcases List.mem_append.mp hj with hj | hj
            · exact List.mem_append_left _ hj
            · exact List.mem_append_right _ (List.mem_of_ne_of_mem hao hj)
          · rwa [Function.update_of_ne hji]
    · rintro (rfl | ha | ⟨j, hj⟩)
      · exact Or.inr ⟨i, hmem⟩
      · exact Or.inl ha
      · by_cases hji : j = i
        · subst hji
          rw [Function.update_self] at hj
          exact Or.inr ⟨j, hsub hj⟩
        · rw [Function.update_of_ne hji] at hj
          exact Or.inr ⟨j, hj⟩
  · have hold : ∀ {j}, a ∈ Function.update lists i (l ++ m) j → a ∈ lists j := by
      intro j hj
      by_cases hji : j = i
      · subst hji
        rw [Function.update_self] at hj
        exact hsub hj
      · rwa [Function.update_of_ne hji] at hj
    exact h.apart j k a (hold hj) (hold hk)
  · by_cases hji : j = i
    · subst hji
      rw [Function.update_self] at hj
      rcases List.mem_cons.mp ha with rfl | ha
      · exact hout hj
      · exact h.free a ha j (hsub hj)
    · rw [Function.update_of_ne hji] at hj
      rcases List.mem_cons.mp ha with rfl | ha
      · exact hji (h.apart j i a hj hmem)
      · exact h.free a ha j hj
  · exact List.nodup_cons.mpr ⟨fun ho => h.free o ho i hmem, h.once⟩

/-- **A loose record put in front of a list.** -/
theorem push (h : Family next null anchor record (o :: loose) lists) (hc : next' (anchor i) = o)
    (ho : next' o = next (anchor i))
    (hother : ∀ a, IsCell anchor record a → a ≠ anchor i → a ≠ o → next' a = next a) :
    Family next' null anchor record loose (Function.update lists i (o :: lists i)) := by
  obtain ⟨hnull, hanchor⟩ := h.plain o ((h.covers o).mpr (Or.inl List.mem_cons_self))
  have hfree : ∀ j, o ∉ lists j := h.free o List.mem_cons_self
  have hmem : ∀ {a j}, a ∈ Function.update lists i (o :: lists i) j ↔ a = o ∧ j = i ∨ a ∈ lists j := by
    intro a j
    by_cases hji : j = i
    · subst hji
      rw [Function.update_self, List.mem_cons]
      simp only [and_true]
    · rw [Function.update_of_ne hji]
      simp only [hji, and_false, false_or]
  refine ⟨h.anchors, h.plain, fun j => ?_, fun a => ?_, fun j k a hj hk => ?_, fun a ha j hj => ?_, ?_⟩
  · by_cases hji : j = i
    · subst hji
      rw [Function.update_self]
      refine (h.linked j).push hnull ?_ hc ho fun a ha => ?_
      · rw [List.mem_cons, not_or]
        exact ⟨hanchor j, hfree j⟩
      · refine hother a (Or.inr (h.record_of_mem ha)) ((h.plain a (h.record_of_mem ha)).2 j) ?_
        rintro rfl
        exact hfree j ha
    · rw [Function.update_of_ne hji]
      refine (h.linked j).congr fun a ha => hother a (h.isCell_of_mem ha) ?_ ?_
      · rintro rfl
        exact hji (h.cell_apart ha List.mem_cons_self)
      · rintro rfl
        rcases List.mem_cons.mp ha with heq | ha
        · exact hanchor j heq
        · exact hfree j ha
  · rw [h.covers, List.mem_cons]
    constructor
    · rintro ((rfl | ha) | ⟨j, hj⟩)
      · exact Or.inr ⟨i, hmem.mpr (Or.inl ⟨rfl, rfl⟩)⟩
      · exact Or.inl ha
      · exact Or.inr ⟨j, hmem.mpr (Or.inr hj)⟩
    · rintro (ha | ⟨j, hj⟩)
      · exact Or.inl (Or.inr ha)
      · rcases hmem.mp hj with ⟨rfl, _⟩ | hj
        · exact Or.inl (Or.inl rfl)
        · exact Or.inr ⟨j, hj⟩
  · rcases hmem.mp hj with ⟨hao, hji⟩ | hj
    · rcases hmem.mp hk with ⟨_, hki⟩ | hk
      · exact hji.trans hki.symm
      · exact absurd (hao ▸ hk) (hfree k)
    · rcases hmem.mp hk with ⟨hao, _⟩ | hk
      · exact absurd (hao ▸ hj) (hfree j)
      · exact h.apart j k a hj hk
  · rcases hmem.mp hj with ⟨rfl, _⟩ | hj
    · exact (List.nodup_cons.mp h.once).1 ha
    · exact h.free a (List.mem_cons_of_mem _ ha) j hj
  · exact (List.nodup_cons.mp h.once).2

end Family

end Links
