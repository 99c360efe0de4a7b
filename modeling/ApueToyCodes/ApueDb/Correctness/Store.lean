import ApueToyCodes.ApueDb.Correctness.Delete

/-!
# `ApueDb.Correctness.Store` — a record goes on a chain

`db_store` has three ways to a record for a new key: a record of the free list with the right lengths, new
records at the ends of the files, or, for a key whose data had another length, a deletion first. In the first
two there is a moment with a record on no list (`Spare`). It is put on its chain by `Spare.push`, which is
where the map changes.
-/

namespace ApueDb
open Decimal RecordFile Links

variable {db : Db} {x x' : Index} {r : Rec} {o c p : Nat} {key data : List UInt8}
  {lists : Option (Fin nhashDef) → List Nat} {m : Store} {l₁ l₂ : List Nat}

/-- A table, and a record on no list. -/
structure Spare (x : Index) (o : Nat) (lists : Option (Fin nhashDef) → List Nat) : Prop where
  family   : Family x.ptrAt 0 anchor x.IsRecord [o] lists
  contents : Contents x lists

theorem Spare.notMem (hs : Spare x o lists) (i : Option (Fin nhashDef)) : o ∉ lists i :=
  hs.family.free o List.mem_cons_self i

/-- New records. -/
theorem Appended.spare (ht : Table x lists) (ha : Appended x x' o r) (hplain : o ≠ 0 ∧ ∀ i, o ≠ anchor i) :
    Spare x' o lists := by
  have hout : ∀ i, o ∉ lists i := fun i ho => ha.new (ht.family.record_of_mem ho)
  refine ⟨?_, ht.contents.mono (fun i => List.Subset.refl _) fun i q hq => ?_⟩
  · refine ht.family.grow ha.new ha.recs hplain fun a hcell => ?_
    rw [ha.ptr, if_neg]
    rintro rfl
    rcases hcell with ⟨i, hi⟩ | hrec
    · exact hplain.2 i hi
    · exact ha.new hrec
  · rw [ha.body, if_neg]
    rintro rfl
    exact hout i hq

theorem Appended.represents (ht : Table x lists) (ha : Appended x x' o r) (hm : Represents x lists m) :
    Represents x' lists m := by
  refine hm.congr (fun _ => rfl) fun b q hq => ?_
  rw [ha.body, if_neg]
  rintro rfl
  exact ha.new (ht.family.record_of_mem hq)

/-- A record taken off the free list. -/
theorem Relinked.spare (ht : Table x lists) (hi : lists none = l₁ ++ o :: l₂)
    (hl : Relinked x x' (before (anchor none) l₁) (x.ptrAt o)) :
    Spare x' o (Function.update lists none (l₁ ++ l₂)) := by
  have hmem : before (anchor none) l₁ ∈ anchor none :: lists none := Family.before_mem_cells hi
  have hcell := isCell_of_links (ht.family.isCell_of_mem hmem)
  refine ⟨?_, ?_⟩
  · rw [hl.shape.isRecord]
    refine ht.family.unlink hi ?_ fun a ha hne => ?_
    · rw [hl.ptr _ hcell, if_pos rfl]
    · rw [hl.ptr a (isCell_of_links ha), if_neg hne]
  · refine ht.contents.mono (fun i q hq => ?_) fun i q _ => hl.body q
    by_cases hin : i = none
    · subst hin
      rw [Function.update_self] at hq
      rw [hi]
      exact ((List.sublist_cons_self o l₂).append_left l₁).subset hq
    · rwa [Function.update_of_ne hin] at hq

theorem Relinked.represents (hm : Represents x lists m) {l : List Nat} (hl : Relinked x x' c p) :
    Represents x' (Function.update lists none l) m :=
  hm.congr (fun b => Function.update_of_ne (Option.some_ne_none b) _ _) fun _ q _ => hl.body q

/-- The record on no list rewritten. -/
theorem Rewritten.spare (hs : Spare x o lists) (hw : Rewritten x x' o r) : Spare x' o lists := by
  refine ⟨?_, hs.contents.mono (fun i => List.Subset.refl _) fun i q hq => ?_⟩
  · rw [hw.shape.isRecord]
    refine hs.family.congr fun a _ ha => ?_
    rw [hw.ptr, if_neg fun heq : a = o => ha (heq ▸ List.mem_cons_self)]
  · rw [hw.body, if_neg]
    rintro rfl
    exact hs.notMem i hq

theorem Rewritten.represents (hs : Spare x o lists) (hm : Represents x lists m) (hw : Rewritten x x' o r) :
    Represents x' lists m := by
  refine hm.congr (fun _ => rfl) fun b q hq => ?_
  rw [hw.body, if_neg]
  rintro rfl
  exact hs.notMem _ hq

/-- **The record put on its chain.** -/
theorem Spare.push (hs : Spare x o lists) (hm : Represents x lists m) (hk : m key = none)
    (hb : x.bodyAt o = some (key, data)) (hp : x.ptrAt o = x.ptrAt (anchor (some (bucket key))))
    (hl : Relinked x x' (anchor (some (bucket key))) o) :
    let lists' := Function.update lists (some (bucket key)) (o :: lists (some (bucket key)))
    Table x' lists' ∧ Represents x' lists' (Function.update m key (some data)) := by
  intro lists'
  have hrec : x.IsRecord o := ⟨_, hb⟩
  have hcell : x.IsCell (anchor (some (bucket key))) := Or.inl (anchor_isHead _)
  have hcello : x.IsCell o := Or.inr (isRecord_iff.mp hrec)
  have hne : o ≠ anchor (some (bucket key)) := (record_plain hrec).2 _
  refine ⟨⟨?_, ?_⟩, (hm.push hb hk).congr (fun _ => rfl) fun _ q _ => hl.body q⟩
  · rw [hl.shape.isRecord]
    refine hs.family.push ?_ ?_ fun a ha hac _ => ?_
    · rw [hl.ptr _ hcell, if_pos rfl]
    · rw [hl.ptr o hcello, if_neg hne, hp]
    · rw [hl.ptr a (isCell_of_links ha), if_neg hac]
  · have hnew : ∀ q ∈ lists (some (bucket key)), ∀ w, x.bodyAt q ≠ some (key, w) := (hm.none_iff key).mp hk
    exact (hs.contents.push_chain hb hnew).mono (fun i => List.Subset.refl _) fun _ q _ => hl.body q

/-! ## `_db_findfree` -/

/-- No free record has these lengths. -/
def NoneFree (x : Index) (lists : Option (Fin nhashDef) → List Nat) (keylen datlen : Nat) : Prop :=
  ∀ o ∈ lists none, ∀ r, x.recAt o = some r → ¬ (r.key.length = keylen ∧ r.data.length + 1 = datlen)

/-- **`_db_findfree`** takes a record of the right lengths off the free list when there is one. -/
theorem dbFindfree_eq (h : Holds db x) (hread : Readable x) (ht : Table x lists) (keylen datlen : Nat) :
    (∃ db', dbFindfree db keylen datlen = .ok (false, db') ∧ Holds db' x ∧ db'.chainoff = db.chainoff ∧
      Kept db db' ∧ NoneFree x lists keylen datlen) ∨
    ∃ db' x' l₁ l₂ o r, dbFindfree db keylen datlen = .ok (true, db') ∧ Holds db' x' ∧
      db'.chainoff = db.chainoff ∧ lists none = l₁ ++ o :: l₂ ∧
      Relinked x x' (before (anchor none) l₁) (x.ptrAt o) ∧ x'.recAt o = some r ∧
      r.key.length = keylen ∧ r.data.length + 1 = datlen ∧ db'.idxoff = o ∧ db'.datoff = r.datoff ∧
      o ≤ ptrMax := by
  obtain ⟨db₀, hptr, h₀, -, -, hchain₀⟩ := dbReadptr_kept h (isCell_freeOff x)
  have hkept₀ : Kept db db₀ := ⟨h₀.idx.trans h.idx.symm, h₀.dat.trans h.dat.symm, hchain₀⟩
  have hfuel : (lists none).length < db₀.idx.length + 1 := by
    rw [h₀.idx]
    exact Nat.lt_succ_of_le (ht.length_le h.well none)
  unfold dbFindfree
  rw [hptr, ok_bind]
  dsimp only
  rcases findfreeLoop_eq hread keylen datlen _ h₀ (ht.family.linked none)
    (fun o ho => ht.recAt_of_mem ho) hfuel with ⟨db', heq, hk, hno⟩ | ⟨db', b, o, r, heq, hk, hf⟩
  · have heq' : findfreeLoop keylen datlen (db₀.idx.length + 1) freeOff (x.ptrAt freeOff) db₀
        = .ok (none, db') := heq
    rw [heq', ok_bind]
    exact Or.inl ⟨db', rfl, h₀.of_kept hk, hk.chainoff.trans hchain₀, hkept₀.trans hk, hno⟩
  · have heq' : findfreeLoop keylen datlen (db₀.idx.length + 1) freeOff (x.ptrAt freeOff) db₀
        = .ok (some (b : Int), db') := heq
    obtain ⟨⟨l₁, l₂, hi, rfl⟩, hr, ⟨hkey, hdata⟩, hat⟩ := hf
    have h' := h₀.of_kept hk
    have hmem : before (anchor none) l₁ ∈ anchor none :: lists none := Family.before_mem_cells hi
    have hcell := isCell_of_links (ht.family.isCell_of_mem hmem)
    obtain ⟨db'', x', hwrite, h'', hl, -, hchain, hoff, hdatoff⟩ :=
      dbWriteptr_relinked h' hcell (h.well.fitsAt hr).ptr
    obtain ⟨p', hr'⟩ := hl.record o r hr
    rw [heq', ok_bind]
    dsimp only
    rw [hat.ptrval, hwrite, ok_bind]
    refine Or.inr ⟨db'', x', l₁, l₂, o, _, rfl, h'', ?_, hi, ?_, hr', hkey, hdata, ?_, ?_, ht.offset_le h.well hi⟩
    · rw [hchain, hk.chainoff, hchain₀]
    · rw [ptrAt_recAt hr]
      exact hl
    · rw [hoff, hat.idxoff]
    · rw [hdatoff, hat.datoff]

/-! ## `db_store` -/

/-- The files are as long as they were. -/
def SameSize (db db' : Db) : Prop := db'.idx.length = db.idx.length ∧ db'.dat.length = db.dat.length

theorem SameSize.trans {db'' : Db} {db' : Db} (h : SameSize db db') (h' : SameSize db' db'') :
    SameSize db db'' := ⟨h'.1.trans h.1, h'.2.trans h.2⟩

theorem Holds.sameSize {db' : Db} (h : Holds db x) (h' : Holds db' x') (hs : SameShape x x') :
    SameSize db db' := by
  unfold SameSize
  rw [h.idx, h.dat, h'.idx, h'.dat]
  exact ⟨hs.idx, hs.dat⟩

/-- Room is a matter of the lengths of the files. -/
theorem SameSize.room_iff {db' : Db} (h : SameSize db db') : Room db' key data ↔ Room db key data := by
  constructor
  · rintro ⟨ho, hl, hu⟩
    rw [h.1] at ho
    rw [h.2] at hl hu
    exact ⟨ho, hl, hu⟩
  · rintro ⟨ho, hl, hu⟩
    rw [← h.1] at ho
    rw [← h.2] at hl hu
    exact ⟨ho, hl, hu⟩

/-- The database after a new record: it is the first one on its chain. -/
def Added (x : Index) (key data : List UInt8) (db' : Db) (m : Store) : Prop :=
  ∃ x' lists' o, Holds db' x' ∧ Table x' lists' ∧ Represents x' lists' m ∧
    x'.ptrAt (anchor (some (bucket key))) = o ∧ x'.bodyAt o = some (key, data) ∧
    ∀ q k v, x'.bodyAt q = some (k, v) → k = key ∨ ∃ w, x.bodyAt q = some (k, w)

/-- With a readable key the database stays readable. -/
theorem Added.stores {db' : Db} (ha : Added x key data db' m) (hread : Readable x) (hsep : sep ∉ key) :
    Stores db' m := by
  obtain ⟨x', lists', o, h', ht', hm', -, -, hold⟩ := ha
  refine ⟨x', lists', h', fun q k v hb => ?_, ht', hm'⟩
  rcases hold q k v hb with rfl | ⟨w, hb⟩
  · exact hsep
  · exact hread q k w hb

section

variable (h : Holds db x) (hread : Readable x) (ht : Table x lists) (hm : Represents x lists m)
  (hk : m key = none) (hkey : 0 ∉ key) (hdata : ValidData data)
  (hchain : db.chainoff = anchor (some (bucket key)))

include h ht hm hk hkey hdata hchain

/-- **New records** on the chain of their key. -/
theorem dbAppend_added (hroom : Room db key data) :
    ∃ db', dbAppend db key data (x.ptrAt (anchor (some (bucket key)))) = .ok db' ∧
      Added x key data db' (Function.update m key (some data)) ∧ db.idx.length < db'.idx.length := by
  obtain ⟨db', x₁, x', heq, h', ha, hl⟩ :=
    dbAppend_appended h hkey hdata (h.well.ptrAt_le (anchor (some (bucket key)))) hroom (anchor_isHead _) hchain
  have hbase : base ≤ x.idxFile.length := by
    rw [h.well.length_idxFile]
    exact Nat.le_add_right _ _
  have hplain : x.idxFile.length ≠ 0 ∧ ∀ i, x.idxFile.length ≠ anchor i := by
    refine ⟨fun heq => ?_, fun i heq => ?_⟩
    · rw [heq] at hbase
      exact absurd hbase (by decide)
    · exact absurd (heq ▸ head_lt (anchor_isHead i)) (Nat.not_lt.mpr hbase)
  have hbody : x₁.bodyAt x.idxFile.length = some (key, data) := by
    rw [ha.body, if_pos rfl]
    rfl
  have hptr : x₁.ptrAt x.idxFile.length = x₁.ptrAt (anchor (some (bucket key))) := by
    rw [ha.ptr, if_pos rfl, ha.ptr, if_neg (hplain.2 _).symm]
    rfl
  obtain ⟨ht', hm'⟩ := (ha.spare ht hplain).push (ha.represents ht hm) hk hbody hptr hl
  refine ⟨db', heq, ⟨x', _, x.idxFile.length, h', ht', hm', ?_, ?_, fun q k v hb => ?_⟩, ?_⟩
  · rw [hl.ptr _ (Or.inl (anchor_isHead _)), if_pos rfl]
  · rw [hl.body, hbody]
  · rw [hl.body, ha.body] at hb
    by_cases hq : q = x.idxFile.length
    · rw [if_pos hq] at hb
      exact Or.inl (Prod.mk.inj (Option.some.inj hb)).1.symm
    · rw [if_neg hq] at hb
      exact Or.inr ⟨v, hb⟩
  · rw [h.idx, h'.idx, hl.shape.idx]
    exact ha.grows

include hread

/-- **`db_store`** of a new key. -/
theorem dbStoreNew_eq :
    (∃ db', dbStoreNew db key data = .ok (0, db') ∧
      Added x key data db' (Function.update m key (some data)) ∧
      (¬ NoneFree x lists key.length (data.length + 1) → SameSize db db')) ∨
    (∃ e, dbStoreNew db key data = .error e) ∧ ¬ Room db key data ∧
      NoneFree x lists key.length (data.length + 1) := by
  have hcell : x.IsCell (anchor (some (bucket key))) := Or.inl (anchor_isHead _)
  obtain ⟨db₁, hptr₁, h₁, -, -, hchain₁⟩ := dbReadptr_kept h hcell
  unfold dbStoreNew
  rw [hchain, hptr₁, ok_bind]
  dsimp only
  rcases dbFindfree_eq h₁ hread ht key.length (data.length + 1) with ⟨db₂, heq, h₂, hchain₂, -, hno⟩ |
    ⟨db₂, x₂, l₁, l₂, o, r, heq, h₂, hchain₂, hi, hl₂, hr, hkeylen, hdatlen, hoff, hdatoff, ho⟩
  · -- new records
    have hchain₂' : db₂.chainoff = anchor (some (bucket key)) := by rw [hchain₂, hchain₁, hchain]
    have hsize : SameSize db db₂ := h.sameSize h₂ (SameShape.refl x)
    rw [heq, ok_bind]
    dsimp only
    rw [if_pos Bool.false_ne_true]
    by_cases hroom : Room db key data
    · obtain ⟨db', happend, hadded, -⟩ :=
        dbAppend_added h₂ ht hm hk hkey hdata hchain₂' (hsize.room_iff.mpr hroom)
      rw [happend, ok_bind]
      exact Or.inl ⟨db', rfl, hadded, fun hfree => absurd hno hfree⟩
    · obtain ⟨e, happend⟩ := dbAppend_error h₂ hkey hdata (h.well.ptrAt_le (anchor (some (bucket key))))
        fun hr => hroom (hsize.room_iff.mp hr)
      rw [happend, error_bind]
      exact Or.inr ⟨⟨e, rfl⟩, hroom, hno⟩
  · -- the free record
    have hchain₂' : db₂.chainoff = anchor (some (bucket key)) := by rw [hchain₂, hchain₁, hchain]
    obtain ⟨x₃, h₃, hw₃⟩ := dbWritedat_rewritten h₂ hr hdata (Nat.succ.inj hdatlen.symm)
    have hdatlen₃ : (dbWritedat db₂ data r.datoff .set).datlen
        = ({ r with data := data } : Rec).data.length + 1 := rfl
    obtain ⟨db₄, x₄, hwrite, h₄, hw₄, hoff₄, -, hchain₄⟩ := dbWriteidx_rewritten h₃ hw₃.record hkey hkeylen.symm
      (h.well.ptrAt_le (anchor (some (bucket key)))) rfl hdatlen₃
    have hw := hw₃.trans hw₄
    have hcell₄ := hw.shape.isCell (hl₂.shape.isCell hcell)
    obtain ⟨db', x', hlink, h', hl, -⟩ := dbWriteptr_relinked h₄ hcell₄ ho
    have hspare := hw.spare (hl₂.spare ht hi)
    have hrep := hw.represents (hl₂.spare ht hi) (hl₂.represents hm)
    have hbody : x₄.bodyAt o = some (key, data) := by
      rw [hw.body, if_pos rfl]
    have hptr : x₄.ptrAt o = x₄.ptrAt (anchor (some (bucket key))) := by
      have hne : anchor (some (bucket key)) ≠ o := fun heq =>
        (record_plain (isRecord_iff.mpr ⟨r, hr⟩)).2 _ heq.symm
      have hne' : anchor (some (bucket key)) ≠ before (anchor none) l₁ := fun heq => by
        have hmem : before (anchor none) l₁ ∈ anchor none :: lists none := Family.before_mem_cells hi
        have hsame := ht.family.cell_apart (i := some (bucket key)) (heq ▸ List.mem_cons_self) hmem
        exact absurd hsame (Option.some_ne_none _)
      rw [hw.ptr, if_pos rfl, hw.ptr, if_neg hne, hl₂.ptr _ hcell, if_neg hne']
    obtain ⟨ht', hm'⟩ := hspare.push hrep hk hbody hptr hl
    refine Or.inl ⟨db', ?_, ⟨x', _, o, h', ht', hm', ?_, ?_, fun q k v hb => ?_⟩, fun _ => ?_⟩
    · have hchainoff : db₄.chainoff = anchor (some (bucket key)) := by
        rw [hchain₄]
        exact hchain₂'
      have hidxoff : (dbWritedat db₂ data r.datoff .set).idxoff = o := hoff
      rw [heq, ok_bind]
      dsimp only
      rw [if_neg (not_not.mpr rfl), hdatoff, hidxoff, hwrite, ok_bind, hchainoff, hoff₄, hlink, ok_bind]
      rfl
    · rw [hl.ptr _ hcell₄, if_pos rfl]
    · rw [hl.body, hbody]
    · rw [hl.body, hw.body, hl₂.body] at hb
      by_cases hq : q = o
      · rw [if_pos hq] at hb
        exact Or.inl (Prod.mk.inj (Option.some.inj hb)).1.symm
      · rw [if_neg hq] at hb
        exact Or.inr ⟨v, hb⟩
    · exact h.sameSize h' ((hl₂.shape.trans hw.shape).trans hl.shape)

end

end ApueDb
