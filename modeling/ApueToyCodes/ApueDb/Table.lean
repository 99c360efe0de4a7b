import Mathlib.Data.List.Perm.Subperm
import ApueToyCodes.ApueDb.Correctness.Records
import ApueToyCodes.Lib.Links

/-!
# `ApueDb.Table` — the hash table over the records

The free list and the hash chains are a family of linked lists in the index file. In a `Table` every record
is on one of them, a record on a chain hashes to that chain, no key is on a chain twice, and the records on
the free list are wiped. `Stores db m` is what a client sees of a database: its files hold a table whose
chains are the map `m` from keys to data.
-/

namespace ApueDb
open Decimal RecordFile Links

/-- Keys and their data. -/
abbrev Store : Type := List UInt8 → Option (List UInt8)

/-- Where the pointer to a list is: the free list, or a hash chain. -/
def anchor : Option (Fin nhashDef) → Nat
  | none   => freeOff
  | some b => b * ptrSz + hashOff

/-- The chain of a key. -/
def bucket (key : List UInt8) : Fin nhashDef := ⟨dbHash key, Nat.mod_lt _ (by decide)⟩

/-- There is a record at an offset. -/
def Index.IsRecord (x : Index) (o : Nat) : Prop := ∃ b, x.bodyAt o = some b

/-- Nothing but blanks. -/
def Wiped (s : List UInt8) : Prop := ∀ c ∈ s, c = space

/-- What is on the lists. -/
structure Contents (x : Index) (lists : Option (Fin nhashDef) → List Nat) : Prop where
  hash  : ∀ b o k v, o ∈ lists (some b) → x.bodyAt o = some (k, v) → bucket k = b
  once  : ∀ b o o' k v v', o ∈ lists (some b) → o' ∈ lists (some b) → x.bodyAt o = some (k, v) →
    x.bodyAt o' = some (k, v') → o = o'
  wiped : ∀ o k v, o ∈ lists none → x.bodyAt o = some (k, v) → Wiped k ∧ Wiped v

/-- Free list and hash chains. -/
structure Table (x : Index) (lists : Option (Fin nhashDef) → List Nat) : Prop where
  family   : Family x.ptrAt 0 anchor x.IsRecord [] lists
  contents : Contents x lists

/-- The chains hold `m`. -/
def Represents (x : Index) (lists : Option (Fin nhashDef) → List Nat) (m : Store) : Prop :=
  ∀ k v, m k = some v ↔ ∃ o ∈ lists (some (bucket k)), x.bodyAt o = some (k, v)

/-- No key has a separator in it. -/
def Readable (x : Index) : Prop := ∀ o k v, x.bodyAt o = some (k, v) → sep ∉ k

/-- The database holds `m`. -/
def Stores (db : Db) (m : Store) : Prop := ∃ x lists, Holds db x ∧ Readable x ∧ Table x lists ∧ Represents x lists m

variable {db db' : Db} {x x' : Index} {r r' : Rec} {o p : Nat} {k v : List UInt8}
  {lists lists' : Option (Fin nhashDef) → List Nat} {i : Option (Fin nhashDef)} {m : Store}

/-! ## Cells -/

theorem anchor_isHead (i : Option (Fin nhashDef)) : Index.IsHead (anchor i) := by
  cases i with
  | none => exact ⟨0, Nat.zero_le _, rfl⟩
  | some b => exact ⟨b + 1, b.isLt, by rw [Nat.succ_mul]; rfl⟩

theorem anchor_injective : Function.Injective anchor := by
  intro i j h
  cases i with
  | none =>
      cases j with
      | none => rfl
      | some c =>
          have h' : (0 : Nat) = c * 7 + 7 := h
          omega
  | some b =>
      cases j with
      | none =>
          have h' : (b : Nat) * 7 + 7 = 0 := h
          omega
      | some c =>
          have h' : (b : Nat) * 7 + 7 = c * 7 + 7 := h
          rw [Fin.ext (by omega : (b : Nat) = c)]

theorem isRecord_iff : x.IsRecord o ↔ ∃ r, x.recAt o = some r := by
  constructor
  · rintro ⟨b, hb⟩
    obtain ⟨r, hr, _⟩ := exists_recAt hb
    exact ⟨r, hr⟩
  · rintro ⟨r, hr⟩
    exact ⟨_, bodyAt_eq hr⟩

theorem isCell_of_links (h : IsCell anchor x.IsRecord o) : x.IsCell o := by
  rcases h with ⟨i, rfl⟩ | h
  · exact Or.inl (anchor_isHead i)
  · exact Or.inr (isRecord_iff.mp h)

/-- Records stand behind the table. -/
theorem record_plain (h : x.IsRecord o) : o ≠ 0 ∧ ∀ i, o ≠ anchor i := by
  obtain ⟨r, hr⟩ := isRecord_iff.mp h
  have hbase := base_le hr
  refine ⟨fun heq => ?_, fun i heq => ?_⟩
  · rw [heq] at hbase
    exact absurd hbase (by decide)
  · exact absurd (heq ▸ head_lt (anchor_isHead i)) (Nat.not_lt.mpr hbase)

theorem Readable.key (h : Readable x) (hr : x.recAt o = some r) : sep ∉ r.key := h o _ _ (bodyAt_eq hr)

theorem Table.recAt_of_mem (ht : Table x lists) (ho : o ∈ lists i) : ∃ r, x.recAt o = some r :=
  isRecord_iff.mp (ht.family.record_of_mem ho)

/-- A list is not longer than the file. -/
theorem Table.length_le (hx : x.WellFormed) (ht : Table x lists) (i : Option (Fin nhashDef)) :
    (lists i).length ≤ x.idxFile.length := by
  have hnodup := (List.nodup_cons.mp (ht.family.linked i).nodup).2
  have hsub : lists i ⊆ List.range x.idxFile.length := by
    intro o ho
    obtain ⟨r, hr⟩ := ht.recAt_of_mem ho
    have hlt := rowAt_lt hr
    have hpos := r.idxCode_pos
    rw [List.mem_range, hx.length_idxFile]
    omega
  have hle := (hnodup.subperm hsub).length_le
  rwa [List.length_range] at hle

/-- An element of a list can be pointed to. -/
theorem Table.offset_le (hx : x.WellFormed) (ht : Table x lists) {l₁ l₂ : List Nat}
    (hi : lists i = l₁ ++ o :: l₂) : o ≤ ptrMax := by
  have hlink := ht.family.linked i
  rw [hi] at hlink
  rw [← hlink.next_before]
  exact hx.ptrAt_le _

/-- An element comes once in its list. -/
theorem Table.notMem_split (ht : Table x lists) {l₁ l₂ : List Nat} (hi : lists i = l₁ ++ o :: l₂) :
    o ∉ l₁ ++ l₂ := by
  have hnodup := (List.nodup_cons.mp (ht.family.linked i).nodup).2
  rw [hi] at hnodup
  exact (List.nodup_middle.mp hnodup).notMem

/-! ## Lists that change -/

/-- Records may go. -/
theorem Contents.mono (h : Contents x lists) (hsub : ∀ i, lists' i ⊆ lists i)
    (hbody : ∀ i, ∀ o ∈ lists' i, x'.bodyAt o = x.bodyAt o) : Contents x' lists' := by
  refine ⟨fun b o k v ho hb => ?_, fun b o o' k v v' ho ho' hb hb' => ?_, fun o k v ho hb => ?_⟩
  · rw [hbody _ o ho] at hb
    exact h.hash b o k v (hsub _ ho) hb
  · rw [hbody _ o ho] at hb
    rw [hbody _ o' ho'] at hb'
    exact h.once b o o' k v v' (hsub _ ho) (hsub _ ho') hb hb'
  · rw [hbody _ o ho] at hb
    exact h.wiped o k v (hsub _ ho) hb

/-- A wiped record on the free list. -/
theorem Contents.push_free (h : Contents x lists)
    (hwiped : ∀ k v, x.bodyAt o = some (k, v) → Wiped k ∧ Wiped v) :
    Contents x (Function.update lists none (o :: lists none)) := by
  have hchain : ∀ b, Function.update lists none (o :: lists none) (some b) = lists (some b) := fun b =>
    Function.update_of_ne (Option.some_ne_none b) _ _
  refine ⟨fun b q k v hq hb => ?_, fun b q q' k v v' hq hq' hb hb' => ?_, fun q k v hq hb => ?_⟩
  · rw [hchain] at hq
    exact h.hash b q k v hq hb
  · rw [hchain] at hq hq'
    exact h.once b q q' k v v' hq hq' hb hb'
  · rw [Function.update_self] at hq
    rcases List.mem_cons.mp hq with rfl | hq
    · exact hwiped k v hb
    · exact h.wiped q k v hq hb

/-- A record with a new key on its chain. -/
theorem Contents.push_chain (h : Contents x lists) (hb : x.bodyAt o = some (k, v))
    (hnew : ∀ q ∈ lists (some (bucket k)), ∀ w, x.bodyAt q ≠ some (k, w)) :
    Contents x (Function.update lists (some (bucket k)) (o :: lists (some (bucket k)))) := by
  have hmem : ∀ {q c}, q ∈ Function.update lists (some (bucket k)) (o :: lists (some (bucket k))) (some c) →
      q = o ∧ c = bucket k ∨ q ∈ lists (some c) := by
    intro q c hq
    by_cases hc : c = bucket k
    · subst hc
      rw [Function.update_self] at hq
      rcases List.mem_cons.mp hq with rfl | hq
      · exact Or.inl ⟨rfl, rfl⟩
      · exact Or.inr hq
    · rw [Function.update_of_ne (fun heq => hc (Option.some.inj heq))] at hq
      exact Or.inr hq
  refine ⟨fun b q k' v' hq hb' => ?_, fun b q q' k' v₁ v₂ hq hq' hb₁ hb₂ => ?_, fun q k' v' hq hb' => ?_⟩
  · rcases hmem hq with ⟨rfl, rfl⟩ | hq
    · rw [hb] at hb'
      rw [(Prod.mk.inj (Option.some.inj hb')).1]
    · exact h.hash b q k' v' hq hb'
  · rcases hmem hq with ⟨rfl, rfl⟩ | hold
    · rcases hmem hq' with ⟨rfl, _⟩ | hold'
      · rfl
      · -- the old record would have the new key
        rw [hb] at hb₁
        rw [← (Prod.mk.inj (Option.some.inj hb₁)).1] at hb₂
        exact absurd hb₂ (hnew q' hold' v₂)
    · rcases hmem hq' with ⟨rfl, rfl⟩ | hold'
      · rw [hb] at hb₂
        rw [← (Prod.mk.inj (Option.some.inj hb₂)).1] at hb₁
        exact absurd hb₁ (hnew q hold v₁)
      · exact h.once b q q' k' v₁ v₂ hold hold' hb₁ hb₂
  · rw [Function.update_of_ne (Option.some_ne_none _).symm] at hq
    exact h.wiped q k' v' hq hb'

/-! ## The map the chains hold -/

/-- The free list does not matter. -/
theorem Represents.congr (h : Represents x lists m) (hlists : ∀ b, lists' (some b) = lists (some b))
    (hbody : ∀ b, ∀ o ∈ lists (some b), x'.bodyAt o = x.bodyAt o) : Represents x' lists' m := by
  intro k v
  rw [h k v, hlists]
  constructor
  · rintro ⟨o, ho, hb⟩
    exact ⟨o, ho, (hbody _ o ho).trans hb⟩
  · rintro ⟨o, ho, hb⟩
    exact ⟨o, ho, (hbody _ o ho).symm.trans hb⟩

/-- A key that is not in the map. -/
theorem Represents.none_iff (h : Represents x lists m) (k : List UInt8) :
    m k = none ↔ ∀ o ∈ lists (some (bucket k)), ∀ v, x.bodyAt o ≠ some (k, v) := by
  constructor
  · intro hk o ho v hb
    exact absurd ((h k v).mpr ⟨o, ho, hb⟩) (by rw [hk]; exact Option.some_ne_none v |>.symm)
  · intro hno
    cases hk : m k with
    | none => rfl
    | some v =>
        obtain ⟨o, ho, hb⟩ := (h k v).mp hk
        exact absurd hb (hno o ho v)

/-- **A record put on its chain.** -/
theorem Represents.push (h : Represents x lists m) (hb : x.bodyAt o = some (k, v)) (hk : m k = none) :
    Represents x (Function.update lists (some (bucket k)) (o :: lists (some (bucket k))))
      (Function.update m k (some v)) := by
  intro k' v'
  by_cases hkk : k' = k
  · subst hkk
    rw [Function.update_self, Function.update_self]
    constructor
    · intro hv
      rw [← Option.some.inj hv]
      exact ⟨o, List.mem_cons_self, hb⟩
    · rintro ⟨q, hq, hbq⟩
      rcases List.mem_cons.mp hq with rfl | hq
      · rw [hb] at hbq
        rw [(Prod.mk.inj (Option.some.inj hbq)).2]
      · exact absurd hbq ((h.none_iff k').mp hk q hq v')
  · rw [Function.update_of_ne hkk, h k' v']
    by_cases hbk : bucket k' = bucket k
    · rw [hbk, Function.update_self]
      constructor
      · rintro ⟨q, hq, hbq⟩
        exact ⟨q, List.mem_cons_of_mem _ hq, hbq⟩
      · rintro ⟨q, hq, hbq⟩
        rcases List.mem_cons.mp hq with rfl | hq
        · rw [hb] at hbq
          exact absurd (Prod.mk.inj (Option.some.inj hbq)).1.symm hkk
        · exact ⟨q, hq, hbq⟩
    · rw [Function.update_of_ne (fun heq => hbk (Option.some.inj heq))]

/-- **A record taken off its chain.** -/
theorem Represents.remove (h : Represents x lists m) (ht : Table x lists) (hb : x.bodyAt o = some (k, v))
    {l₁ l₂ : List Nat} (hi : lists (some (bucket k)) = l₁ ++ o :: l₂) :
    Represents x (Function.update lists (some (bucket k)) (l₁ ++ l₂)) (Function.update m k none) := by
  have ho : o ∈ lists (some (bucket k)) := hi ▸ List.mem_append_right _ List.mem_cons_self
  have hsub : ∀ {q}, q ∈ l₁ ++ l₂ → q ∈ lists (some (bucket k)) := fun hq => by
    rw [hi]
    rcases List.mem_append.mp hq with hq | hq
    · exact List.mem_append_left _ hq
    · exact List.mem_append_right _ (List.mem_cons_of_mem _ hq)
  intro k' v'
  by_cases hkk : k' = k
  · subst hkk
    rw [Function.update_self, Function.update_self]
    constructor
    · intro hv
      exact absurd hv.symm (Option.some_ne_none v')
    · rintro ⟨q, hq, hbq⟩
      obtain rfl := ht.contents.once _ o q k' v v' ho (hsub hq) hb hbq
      exact absurd hq (ht.notMem_split hi)
  · rw [Function.update_of_ne hkk, h k' v']
    by_cases hbk : bucket k' = bucket k
    · rw [hbk, Function.update_self]
      constructor
      · rintro ⟨q, hq, hbq⟩
        have hne : q ≠ o := by
          rintro rfl
          rw [hb] at hbq
          exact hkk (Prod.mk.inj (Option.some.inj hbq)).1.symm
        rw [hi] at hq
        refine ⟨q, ?_, hbq⟩
        rcases List.mem_append.mp hq with hq | hq
        · exact List.mem_append_left _ hq
        · exact List.mem_append_right _ (List.mem_of_ne_of_mem hne hq)
      · rintro ⟨q, hq, hbq⟩
        exact ⟨q, hsub hq, hbq⟩
    · rw [Function.update_of_ne (fun heq => hbk (Option.some.inj heq))]

end ApueDb
