import ApueToyCodes.ApueDb.Table

/-!
# `ApueDb.Correctness.Search` — looking for a record on a chain and on the free list

`_db_find_and_lock` and `_db_findfree` walk along a list of the table until a record fits. Both return: the
walk is no longer than the file. What they find is given as the list cut at the record, since the pointer to
it is in the cell before it (`Found`).
-/

namespace ApueDb
open Decimal RecordFile Links

variable {db db' : Db} {x : Index} {r : Rec} {o c : Nat} {l : List Nat} {key : List UInt8}
  {lists : Option (Fin nhashDef) → List Nat}

/-- What is the same after a walk. -/
structure Kept (db db' : Db) : Prop where
  idx      : db'.idx = db.idx
  dat      : db'.dat = db.dat
  chainoff : db'.chainoff = db.chainoff

theorem Kept.refl (db : Db) : Kept db db := ⟨rfl, rfl, rfl⟩

theorem Kept.trans {db'' : Db} (h : Kept db db') (h' : Kept db' db'') : Kept db db'' :=
  ⟨h'.idx.trans h.idx, h'.dat.trans h.dat, h'.chainoff.trans h.chainoff⟩

theorem Holds.of_kept (h : Holds db x) (hk : Kept db db') : Holds db' x :=
  ⟨hk.idx.trans h.idx, hk.dat.trans h.dat, h.well⟩

/-- The fields of `db` are those of the record `r` at `o`. -/
structure At (db : Db) (o : Nat) (r : Rec) : Prop where
  idxoff : db.idxoff = o
  key    : db.idxbuf = r.key
  datoff : db.datoff = r.datoff
  datlen : db.datlen = r.data.length + 1
  ptrval : db.ptrval = r.ptr

theorem read_at (db : Db) (o : Nat) (r : Rec) : At (db.read o r) o r := ⟨rfl, rfl, rfl, rfl, rfl⟩

theorem read_kept (db : Db) (o : Nat) (r : Rec) : Kept db (db.read o r) := ⟨rfl, rfl, rfl⟩

/-- A walk from `c` over `l` stops at the first record `fits` is true of. -/
structure Found (x : Index) (fits : Rec → Prop) (db : Db) (c : Nat) (l : List Nat) (before : Nat)
    (o : Nat) (r : Rec) : Prop where
  split  : ∃ l₁ l₂, l = l₁ ++ o :: l₂ ∧ before = Links.before c l₁
  record : x.recAt o = some r
  fits   : fits r
  fields : At db o r

/-- The walk has gone past a record. -/
theorem Found.cons {fits : Rec → Prop} {b o₀ : Nat} (h : Found x fits db o₀ l b o r) :
    Found x fits db c (o₀ :: l) b o r := by
  obtain ⟨⟨l₁, l₂, rfl, rfl⟩, hr, hfits, hat⟩ := h
  exact ⟨⟨o₀ :: l₁, l₂, rfl, (before_cons c o₀ l₁).symm⟩, hr, hfits, hat⟩

/-- **The loop of `_db_find_and_lock`** -/
theorem findLoop_eq (hread : Readable x) (key : List UInt8) (fuel : Nat) :
    ∀ {db : Db} {c : Nat} {l : List Nat}, Holds db x →
    Linked x.ptrAt 0 c l → (∀ o ∈ l, ∃ r, x.recAt o = some r) → l.length < fuel → db.ptroff = c →
    (∃ db', findLoop key fuel (x.ptrAt c) db = .ok (false, db') ∧ Kept db db' ∧
      ∀ o ∈ l, ∀ r, x.recAt o = some r → r.key ≠ key) ∨
    ∃ db' b o r, findLoop key fuel (x.ptrAt c) db = .ok (true, db') ∧ Kept db db' ∧ db'.ptroff = (b : Nat) ∧
      Found x (fun r => r.key = key) db' c l b o r := by
  induction fuel with
  | zero => intro db c l _ _ _ hfuel _; exact absurd hfuel (Nat.not_lt_zero _)
  | succ fuel ih =>
      intro db c l h hl hrec hfuel hptr
      rw [findLoop]
      cases l with
      | nil =>
          have hnull : (x.ptrAt c : Int) = 0 := by rw [hl]; rfl
          rw [if_neg (not_not.mpr hnull)]
          exact Or.inl ⟨db, rfl, Kept.refl db, fun _ ho => absurd ho List.not_mem_nil⟩
      | cons o l =>
          obtain ⟨r, hr⟩ := hrec o List.mem_cons_self
          have hne : (x.ptrAt c : Int) ≠ 0 := by
            rw [hl.1]
            exact Int.natCast_ne_zero.mpr hl.2.1
          rw [if_pos hne, hl.1, dbReadidx_eq h hr (hread.key hr) (Or.inl rfl), ok_bind]
          dsimp only
          by_cases hkey : r.key = key
          · have hcond : (db.read o r).idxbuf = key := hkey
            rw [if_pos hcond]
            exact Or.inr ⟨_, c, o, r, rfl, read_kept db o r, hptr, ⟨[], l, rfl, rfl⟩, hr, hkey, read_at db o r⟩
          · have hcond : ¬ (db.read o r).idxbuf = key := hkey
            rw [if_neg hcond, ← ptrAt_recAt hr]
            -- the record does not match: `ptroff` moves on to it
            have hk : Kept db { db.read o r with ptroff := o } := ⟨rfl, rfl, rfl⟩
            rcases ih (h.of_kept hk) hl.2.2 (fun q hq => hrec q (List.mem_cons_of_mem _ hq))
              (Nat.lt_of_succ_lt_succ hfuel) rfl with ⟨db', heq, hk', hno⟩ | ⟨db', b, q, s, heq, hk', hb, hf⟩
            · refine Or.inl ⟨db', heq, hk.trans hk', fun q hq s hs => ?_⟩
              rcases List.mem_cons.mp hq with rfl | hq
              · rw [hr] at hs
                exact Option.some.inj hs ▸ hkey
              · exact hno q hq s hs
            · exact Or.inr ⟨db', b, q, s, heq, hk.trans hk', hb, hf.cons⟩

/-- **The loop of `_db_findfree`** -/
theorem findfreeLoop_eq (hread : Readable x) (keylen datlen fuel : Nat) :
    ∀ {db : Db} {c : Nat} {l : List Nat}, Holds db x →
    Linked x.ptrAt 0 c l → (∀ o ∈ l, ∃ r, x.recAt o = some r) → l.length < fuel →
    (∃ db', findfreeLoop keylen datlen fuel c (x.ptrAt c) db = .ok (none, db') ∧ Kept db db' ∧
      ∀ o ∈ l, ∀ r, x.recAt o = some r → ¬ (r.key.length = keylen ∧ r.data.length + 1 = datlen)) ∨
    ∃ db' b o r, findfreeLoop keylen datlen fuel c (x.ptrAt c) db = .ok (some ((b : Nat) : Int), db') ∧
      Kept db db' ∧ Found x (fun r => r.key.length = keylen ∧ r.data.length + 1 = datlen) db' c l b o r := by
  induction fuel with
  | zero => intro db c l _ _ _ hfuel; exact absurd hfuel (Nat.not_lt_zero _)
  | succ fuel ih =>
      intro db c l h hl hrec hfuel
      rw [findfreeLoop]
      cases l with
      | nil =>
          have hnull : (x.ptrAt c : Int) = 0 := by rw [hl]; rfl
          rw [if_neg (not_not.mpr hnull)]
          exact Or.inl ⟨db, rfl, Kept.refl db, fun _ ho => absurd ho List.not_mem_nil⟩
      | cons o l =>
          obtain ⟨r, hr⟩ := hrec o List.mem_cons_self
          have hne : (x.ptrAt c : Int) ≠ 0 := by
            rw [hl.1]
            exact Int.natCast_ne_zero.mpr hl.2.1
          rw [if_pos hne, hl.1, dbReadidx_eq h hr (hread.key hr) (Or.inl rfl), ok_bind]
          dsimp only
          by_cases hfits : r.key.length = keylen ∧ r.data.length + 1 = datlen
          · have hcond : (db.read o r).idxbuf.length = keylen ∧ (db.read o r).datlen = datlen := hfits
            rw [if_pos hcond]
            exact Or.inr ⟨_, c, o, r, rfl, read_kept db o r, ⟨[], l, rfl, rfl⟩, hr, hfits, read_at db o r⟩
          · have hcond : ¬ ((db.read o r).idxbuf.length = keylen ∧ (db.read o r).datlen = datlen) := hfits
            rw [if_neg hcond, ← ptrAt_recAt hr]
            have hk := read_kept db o r
            rcases ih (h.of_kept hk) hl.2.2 (fun q hq => hrec q (List.mem_cons_of_mem _ hq))
              (Nat.lt_of_succ_lt_succ hfuel) with ⟨db', heq, hk', hno⟩ | ⟨db', b, q, s, heq, hk', hf⟩
            · refine Or.inl ⟨db', heq, hk.trans hk', fun q hq s hs => ?_⟩
              rcases List.mem_cons.mp hq with rfl | hq
              · rw [hr] at hs
                exact Option.some.inj hs ▸ hfits
              · exact hno q hq s hs
            · exact Or.inr ⟨db', b, q, s, heq, hk.trans hk', hf.cons⟩

/-- **`_db_find_and_lock`** returns, with the record of the key or without one. -/
theorem dbFindAndLock_eq (h : Holds db x) (hread : Readable x) (ht : Table x lists) (key : List UInt8) :
    (∃ db', dbFindAndLock db key = .ok (false, db') ∧ Holds db' x ∧
      db'.chainoff = anchor (some (bucket key)) ∧ Kept { db with chainoff := db'.chainoff } db' ∧
      ∀ o ∈ lists (some (bucket key)), ∀ r, x.recAt o = some r → r.key ≠ key) ∨
    ∃ db' b o r, dbFindAndLock db key = .ok (true, db') ∧ Holds db' x ∧
      db'.chainoff = anchor (some (bucket key)) ∧ Kept { db with chainoff := db'.chainoff } db' ∧
      db'.ptroff = (b : Nat) ∧
      Found x (fun r => r.key = key) db' (anchor (some (bucket key))) (lists (some (bucket key))) b o r := by
  have hc : dbHash key * ptrSz + hashOff = anchor (some (bucket key)) := rfl
  have hcell : x.IsCell (anchor (some (bucket key))) := Or.inl (anchor_isHead _)
  have hfuel : (lists (some (bucket key))).length < db.idx.length + 1 := by
    rw [h.idx]
    exact Nat.lt_succ_of_le (ht.length_le h.well _)
  -- the state the walk starts from
  let c := anchor (some (bucket key))
  have hstart : Holds { db with chainoff := c, ptroff := c } x := ⟨h.idx, h.dat, h.well⟩
  have hstart' : Holds { db with chainoff := c, ptroff := c, idxpos := c + ptrSz } x := ⟨h.idx, h.dat, h.well⟩
  unfold dbFindAndLock
  dsimp only
  rw [hc, dbReadptr_eq hstart hcell, ok_bind]
  rcases findLoop_eq hread key _ hstart' (ht.family.linked _) (fun o ho => ht.recAt_of_mem ho) hfuel rfl
    with ⟨db', heq, hk, hno⟩ | ⟨db', b, o, r, heq, hk, hb, hf⟩
  · exact Or.inl ⟨db', heq, hstart'.of_kept hk, hk.chainoff, ⟨hk.idx, hk.dat, rfl⟩, hno⟩
  · exact Or.inr ⟨db', b, o, r, heq, hstart'.of_kept hk, hk.chainoff, ⟨hk.idx, hk.dat, rfl⟩, hb, hf⟩

end ApueDb
