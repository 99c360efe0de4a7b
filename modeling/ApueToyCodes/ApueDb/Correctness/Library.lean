import ApueToyCodes.ApueDb.Correctness.Store
import ApueToyCodes.ApueDb.Session

/-!
# `ApueDb.Correctness.Library` — the calls of the library on the map

`db_fetch`, `db_delete` and `db_store` for a database that holds the map `m`: what they return and the map
afterwards. Only a `db_store` that needs new records (`NeedsRecords`) may end the process, when there is no
room for them.
-/

namespace ApueDb
open Decimal RecordFile Links

variable {db db' : Db} {x : Index} {r : Rec} {o c : Nat} {key data : List UInt8}
  {lists : Option (Fin nhashDef) → List Nat} {m : Store}

/-- What `_db_find_and_lock` finds, in terms of the map. -/
theorem Represents.lookup (hm : Represents x lists m) (hr : x.recAt o = some r)
    (ho : o ∈ lists (some (bucket key))) (hkey : r.key = key) : m key = some r.data := by
  subst hkey
  exact (hm _ _).mpr ⟨o, ho, bodyAt_eq hr⟩

theorem Represents.lookup_none (hm : Represents x lists m)
    (hno : ∀ o ∈ lists (some (bucket key)), ∀ r, x.recAt o = some r → r.key ≠ key) : m key = none := by
  refine (hm.none_iff key).mpr fun o ho v hb => ?_
  obtain ⟨r, hr, heq⟩ := exists_recAt hb
  exact hno o ho r hr (Prod.mk.inj heq).1

/-- **`db_fetch`** returns what the map has. -/
theorem dbFetch_eq (h : Stores db m) (key : List UInt8) :
    ∃ db', dbFetch db key = .ok (m key, db') ∧ Stores db' m := by
  obtain ⟨x, lists, hx, hread, ht, hm⟩ := h
  unfold dbFetch
  rcases dbFindAndLock_eq hx hread ht key with ⟨db', heq, h', -, -, hno⟩ | ⟨db', b, o, r, heq, h', -, -, -, hf⟩
  · rw [heq, ok_bind, hm.lookup_none hno]
    exact ⟨db', rfl, x, lists, h', hread, ht, hm⟩
  · obtain ⟨⟨l₁, l₂, hi, rfl⟩, hr, hkey, hat⟩ := hf
    have ho : o ∈ lists (some (bucket key)) := hi ▸ List.mem_append_right _ List.mem_cons_self
    rw [heq, ok_bind, hm.lookup hr ho hkey]
    dsimp only
    rw [if_pos rfl, dbReaddat_eq h' hr hat.datoff hat.datlen]
    exact ⟨_, rfl, x, lists, ⟨h'.idx, h'.dat, h'.well⟩, hread, ht, hm⟩

/-- The record of a key, taken off its chain. -/
theorem dbDodelete_stores (hx : Holds db x) (hread : Readable x) (ht : Table x lists) (hm : Represents x lists m)
    (hf : Found x (fun r => r.key = key) db (anchor (some (bucket key))) (lists (some (bucket key))) c o r)
    (hptr : db.ptroff = c) :
    ∃ db' x' lists', dbDodelete db = .ok db' ∧ Holds db' x' ∧ db'.chainoff = db.chainoff ∧
      SameShape x x' ∧ Readable x' ∧ Table x' lists' ∧ Represents x' lists' (Function.update m key none) ∧
      o ∈ lists' none ∧ x'.bodyAt o = some (wipe r.key, wipe r.data) := by
  obtain ⟨⟨l₁, l₂, hi, rfl⟩, hr, rfl, hat⟩ := hf
  have hmem : before (anchor (some (bucket r.key))) l₁ ∈ _ := Family.before_mem_cells hi
  have hcell := isCell_of_links (ht.family.isCell_of_mem hmem)
  obtain ⟨db', x', heq, h', hchain, hd⟩ := dbDodelete_eq hx hr hat hptr hcell (ht.offset_le hx.well hi)
  refine ⟨db', x', _, heq, h', hchain, hd.shape, hd.readable hread, hd.table ht hi hr,
    hd.represents ht hi hr hm, ?_, ?_⟩
  · unfold toFree
    rw [Function.update_self]
    exact List.mem_cons_self
  · rw [hd.body, if_pos rfl]

/-- **`db_delete`** -/
theorem dbDelete_eq (h : Stores db m) (key : List UInt8) :
    ∃ db', dbDelete db key = .ok (if m key = none then -1 else 0, db') ∧
      Stores db' (Function.update m key none) ∧ SameSize db db' := by
  obtain ⟨x, lists, hx, hread, ht, hm⟩ := h
  unfold dbDelete
  rcases dbFindAndLock_eq hx hread ht key with ⟨db', heq, h', -, -, hno⟩ | ⟨db', b, o, r, heq, h', -, -, hptr, hf⟩
  · have hnone := hm.lookup_none hno
    rw [heq, ok_bind, if_pos hnone]
    refine ⟨db', rfl, ?_, hx.sameSize h' (SameShape.refl x)⟩
    rw [← hnone, Function.update_eq_self]
    exact ⟨x, lists, h', hread, ht, hm⟩
  · have ho : o ∈ lists (some (bucket key)) := by
      obtain ⟨l₁, l₂, hi, -⟩ := hf.split
      exact hi ▸ List.mem_append_right _ List.mem_cons_self
    have hsome := hm.lookup hf.record ho hf.fits
    obtain ⟨db'', x', lists', hdel, h'', -, hs, hread', ht', hm', -⟩ := dbDodelete_stores h' hread ht hm hf hptr
    rw [heq, ok_bind, if_neg (by rw [hsome]; exact Option.some_ne_none _)]
    dsimp only
    rw [if_pos rfl, hdel, ok_bind]
    exact ⟨db'', rfl, ⟨x', lists', h'', hread', ht', hm'⟩, hx.sameSize h'' hs⟩

theorem Rewritten.readable {x' : Index} {r' : Rec} (h : Readable x) (hsep : sep ∉ r'.key)
    (hw : Rewritten x x' o r') : Readable x' := by
  intro q k v hb
  rw [hw.body] at hb
  by_cases hq : q = o
  · rw [if_pos hq] at hb
    rw [← (Prod.mk.inj (Option.some.inj hb)).1]
    exact hsep
  · rw [if_neg hq] at hb
    exact h q k v hb

/-- **Data written over** in a record on its chain. -/
theorem Rewritten.overwrite {x' : Index} (ht : Table x lists) (hm : Represents x lists m)
    (hr : x.recAt o = some r) (ho : o ∈ lists (some (bucket r.key)))
    (hw : Rewritten x x' o { r with data := data }) :
    Table x' lists ∧ Represents x' lists (Function.update m r.key (some data)) := by
  -- pointers and keys are as before
  have hptr : x'.ptrAt = x.ptrAt := by
    funext q
    rw [hw.ptr]
    by_cases hq : q = o
    · rw [if_pos hq, hq, ptrAt_recAt hr]
    · rw [if_neg hq]
  have hold : ∀ {q k v}, x'.bodyAt q = some (k, v) → ∃ w, x.bodyAt q = some (k, w) := by
    intro q k v hb
    rw [hw.body] at hb
    by_cases hq : q = o
    · rw [if_pos hq] at hb
      rw [hq, bodyAt_eq hr, (Prod.mk.inj (Option.some.inj hb)).1]
      exact ⟨_, rfl⟩
    · rw [if_neg hq] at hb
      exact ⟨v, hb⟩
  have hc := ht.contents
  refine ⟨⟨?_, fun b q k v hq hb => ?_, fun b q q' k v v' hq hq' hb hb' => ?_, fun q k v hq hb => ?_⟩,
    fun k v => ?_⟩
  · rw [hw.shape.isRecord, hptr]
    exact ht.family
  · obtain ⟨w, hb⟩ := hold hb
    exact hc.hash b q k w hq hb
  · obtain ⟨w, hb⟩ := hold hb
    obtain ⟨w', hb'⟩ := hold hb'
    exact hc.once b q q' k w w' hq hq' hb hb'
  · rw [hw.body, if_neg] at hb
    · exact hc.wiped q k v hq hb
    · rintro rfl
      exact absurd (ht.family.apart _ _ q hq ho) (Option.some_ne_none _).symm
  · by_cases hk : k = r.key
    · subst hk
      rw [Function.update_self]
      constructor
      · intro hv
        refine ⟨o, ho, ?_⟩
        rw [hw.body, if_pos rfl, Option.some.inj hv]
      · rintro ⟨q, hq, hb⟩
        obtain ⟨w, hb₀⟩ := hold hb
        obtain rfl := hc.once _ q o _ w _ hq ho hb₀ (bodyAt_eq hr)
        rw [hw.body, if_pos rfl] at hb
        exact congrArg some (Prod.mk.inj (Option.some.inj hb)).2
    · rw [Function.update_of_ne hk, hm k v]
      have hsame : ∀ q w, x'.bodyAt q = some (k, w) ↔ x.bodyAt q = some (k, w) := by
        intro q w
        rw [hw.body]
        by_cases hq : q = o
        · rw [if_pos hq, hq, bodyAt_eq hr]
          constructor <;> intro heq <;> exact absurd (Prod.mk.inj (Option.some.inj heq)).1.symm hk
        · rw [if_neg hq]
      simp only [hsame]

/-- **`db_store`** of data of another length: new records, even when a free one fits. -/
theorem dbStoreMoved_eq (hx : Holds db x) (hread : Readable x) (ht : Table x lists) (hm : Represents x lists m)
    (hf : Found x (fun r => r.key = key) db (anchor (some (bucket key))) (lists (some (bucket key))) c o r)
    (hptr : db.ptroff = c) (hkey : ValidKey key) (hdata : ValidData data)
    (hchain : db.chainoff = anchor (some (bucket key))) :
    (∃ db', dbStoreMoved db key data = .ok (0, db') ∧ Stores db' (Function.update m key (some data)) ∧
      Room db key data ∧ db.idx.length < db'.idx.length) ∨
    (∃ e, dbStoreMoved db key data = .error e) ∧ ¬ Room db key data := by
  obtain ⟨db₁, x₁, lists₁, hdel, h₁, hchain₁, hs, hread₁, ht₁, hm₁, -⟩ :=
    dbDodelete_stores hx hread ht hm hf hptr
  have hcell : x₁.IsCell (anchor (some (bucket key))) := Or.inl (anchor_isHead _)
  obtain ⟨db₂, hptr₂, h₂, -, -, hchain₂⟩ := dbReadptr_kept h₁ hcell
  have hsize : SameSize db db₂ := hx.sameSize h₂ hs
  have hchain₂' : db₂.chainoff = anchor (some (bucket key)) := by rw [hchain₂, hchain₁, hchain]
  have hnone : Function.update m key none key = none := Function.update_self _ _ _
  unfold dbStoreMoved
  rw [hdel, ok_bind, hchain₁, hchain, hptr₂, ok_bind]
  dsimp only
  by_cases hroom : Room db key data
  · obtain ⟨db₃, happend, hadded, hgrows⟩ :=
      dbAppend_added h₂ ht₁ hm₁ hnone hkey.noNul hdata hchain₂' (hsize.room_iff.mpr hroom)
    rw [Function.update_idem] at hadded
    rw [happend, ok_bind]
    exact Or.inl ⟨db₃, rfl, hadded.stores hread₁ hkey.noSep, hroom, hsize.1 ▸ hgrows⟩
  · obtain ⟨e, happend⟩ := dbAppend_error h₂ hkey.noNul hdata (h₁.well.ptrAt_le (anchor (some (bucket key))))
      fun hr => hroom (hsize.room_iff.mp hr)
    rw [happend, error_bind]
    exact Or.inr ⟨⟨e, rfl⟩, hroom⟩

/-- `db_store` takes new records. -/
inductive NeedsRecords (db : Db) (m : Store) (key data : List UInt8) (flag : Int) : Prop
  /-- a new key, and no free record with the lengths of key and data -/
  | unknown (x : Index) (lists : Option (Fin nhashDef) → List Nat) : m key = none →
      flag = dbInsert ∨ flag = dbStoreFlag → Holds db x → Table x lists →
      NoneFree x lists key.length (data.length + 1) → NeedsRecords db m key data flag
  /-- a key whose data have another length -/
  | moved (v : List UInt8) : m key = some v → flag = dbReplace ∨ flag = dbStoreFlag →
      data.length ≠ v.length → NeedsRecords db m key data flag

/-- **`db_store`** returns and changes what it should, or ends the process without room for the new records it
    needs. -/
theorem dbStore_eq (h : Stores db m) (hkey : ValidKey key) (hdata : ValidData data) (flag : Int) :
    (∃ db', dbStore db key data flag = .ok ((storeSpec m key data flag).1, db') ∧
      Stores db' (storeSpec m key data flag).2) ∨
    (∃ e, dbStore db key data flag = .error e) ∧ NeedsRecords db m key data flag ∧ ¬ Room db key data := by
  obtain ⟨x, lists, hx, hread, ht, hm⟩ := h
  unfold dbStore storeSpec
  by_cases hflag : flag ≠ dbInsert ∧ flag ≠ dbReplace ∧ flag ≠ dbStoreFlag
  · rw [if_pos hflag, if_pos hflag]
    exact Or.inl ⟨_, rfl, x, lists, ⟨hx.idx, hx.dat, hx.well⟩, hread, ht, hm⟩
  have hlen : ¬ (data.length + 1 < datlenMin ∨ data.length + 1 > datlenMax) := by
    have hl := hdata.lower
    have hu := hdata.upper
    omega
  rw [if_neg hflag, if_neg hflag, if_neg hlen]
  rcases dbFindAndLock_eq hx hread ht key with ⟨db', heq, h', hchain, -, hno⟩ |
    ⟨db', b, o, r, heq, h', hchain, -, hptr, hf⟩
  · -- a new key
    have hnone := hm.lookup_none hno
    rw [heq, ok_bind, hnone]
    dsimp only
    rw [if_pos Bool.false_ne_true]
    by_cases hrep : flag = dbReplace
    · rw [if_pos hrep, if_pos hrep]
      exact Or.inl ⟨_, rfl, x, lists, ⟨h'.idx, h'.dat, h'.well⟩, hread, ht, hm⟩
    · rw [if_neg hrep, if_neg hrep]
      have hsize : SameSize db db' := hx.sameSize h' (SameShape.refl x)
      rcases dbStoreNew_eq h' hread ht hm hnone hkey.noNul hdata hchain with
        ⟨db'', hnew, hadded, -⟩ | ⟨⟨e, hnew⟩, hroom, hnofree⟩
      · rw [hnew]
        exact Or.inl ⟨db'', rfl, hadded.stores hread hkey.noSep⟩
      · have hflag' : flag = dbInsert ∨ flag = dbStoreFlag := by
          by_contra hno
          exact hflag ⟨fun heq => hno (Or.inl heq), hrep, fun heq => hno (Or.inr heq)⟩
        rw [hnew]
        exact Or.inr ⟨⟨e, rfl⟩, .unknown x lists hnone hflag' hx ht hnofree,
          fun hr => hroom (hsize.room_iff.mpr hr)⟩
  · -- a key that is there
    obtain ⟨l₁, l₂, hi, -⟩ := hf.split
    have ho : o ∈ lists (some (bucket key)) := hi ▸ List.mem_append_right _ List.mem_cons_self
    have hsome := hm.lookup hf.record ho hf.fits
    rw [heq, ok_bind, hsome]
    dsimp only
    rw [if_neg (not_not.mpr rfl)]
    by_cases hins : flag = dbInsert
    · rw [if_pos hins, if_pos hins]
      exact Or.inl ⟨_, rfl, x, lists, h', hread, ht, hm⟩
    rw [if_neg hins, if_neg hins]
    by_cases hsame : data.length + 1 ≠ db'.datlen
    · rw [if_pos hsame]
      have hsize : SameSize db db' := hx.sameSize h' (SameShape.refl x)
      rcases dbStoreMoved_eq h' hread ht hm hf hptr hkey hdata hchain with
        ⟨db₁, hmoved, hstores, -⟩ | ⟨⟨e, hmoved⟩, hroom⟩
      · rw [hmoved]
        exact Or.inl ⟨db₁, rfl, hstores⟩
      · have hflag' : flag = dbReplace ∨ flag = dbStoreFlag := by
          by_contra hno
          exact hflag ⟨hins, fun heq => hno (Or.inl heq), fun heq => hno (Or.inr heq)⟩
        have hother : data.length ≠ r.data.length := by
          have hlen' := hf.fields.datlen
          omega
        rw [hmoved]
        exact Or.inr ⟨⟨e, rfl⟩, .moved r.data hsome hflag' hother, fun hr => hroom (hsize.room_iff.mpr hr)⟩
    · -- the data are written over
      rw [if_neg hsame, hf.fields.datoff]
      have hdatlen : data.length = r.data.length := by
        have hlen' := hf.fields.datlen
        omega
      obtain ⟨x', h₁, hw⟩ := dbWritedat_rewritten h' hf.record hdata hdatlen
      obtain rfl := hf.fits
      obtain ⟨ht₁, hm₁⟩ := hw.overwrite ht hm hf.record ho
      have hsep : sep ∉ ({ r with data := data } : Rec).key := hkey.noSep
      exact Or.inl ⟨_, rfl, x', lists, h₁, hw.readable hread hsep, ht₁, hm₁⟩

end ApueDb
