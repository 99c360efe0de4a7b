import ApueToyCodes.ApueDb.Correctness.Library

/-!
# `ApueDb.Correctness.Scan` — `db_rewind` and `db_nextrec`

`db_nextrec` reads the index file from one record to the next and passes over the free ones, which it knows by
their wiped keys. A caller that goes on until there is none gets the records of the file in their order
(`dbScan_eq`), and these are the map: each key once, with its data (`listed_nodup`, `mem_listed`). A record
whose key is nothing but blanks is passed over as well.
-/

namespace ApueDb
open Decimal RecordFile Links

variable {db : Db} {x : Index} {r : Rec} {k v : List UInt8} {lists : Option (Fin nhashDef) → List Nat} {m : Store}
  {ys zs : List Rec}

/-- The records a caller sees. -/
def listed (rs : List Rec) : List (List UInt8 × List UInt8) :=
  (rs.filter fun r => !r.key.all (· = space)).map fun r => (r.key, r.data)

theorem all_space_iff (s : List UInt8) : (s.all (· = space)) = true ↔ Wiped s := by
  simp only [List.all_eq_true, decide_eq_true_eq]
  rfl

theorem listed_cons (r : Rec) (rs : List Rec) :
    listed (r :: rs) = if r.key.all (· = space) then listed rs else (r.key, r.data) :: listed rs := by
  unfold listed
  cases hs : r.key.all (· = space) with
  | true => rw [List.filter_cons_of_neg (by simp [hs]), if_pos rfl]
  | false => rw [List.filter_cons_of_pos (by simp [hs]), List.map_cons, if_neg Bool.false_ne_true]

/-- The file offset is behind `ys`, in front of `zs`. -/
structure Behind (db : Db) (x : Index) (ys zs : List Rec) : Prop where
  holds    : Holds db x
  readable : Readable x
  recs     : x.recs = ys ++ zs
  pos      : db.idxpos = base + (codes Rec.idxCode ys).length

theorem Behind.recAt (h : Behind db x ys (r :: zs)) : x.recAt db.idxpos = some r := by
  unfold Index.recAt
  rw [h.recs, h.pos]
  exact rowAt_split Rec.idxCode_pos base ys zs r

/-- `_db_readidx` at the next record. -/
theorem Behind.read (h : Behind db x ys (r :: zs)) :
    dbReadidx db 0 = .ok (r.ptr, db.read db.idxpos r) ∧ Behind (db.read db.idxpos r) x (ys ++ [r]) zs := by
  refine ⟨dbReadidx_eq h.holds h.recAt (h.readable.key h.recAt) (Or.inr ⟨rfl, rfl⟩), ?_, h.readable, ?_, ?_⟩
  · exact ⟨h.holds.idx, h.holds.dat, h.holds.well⟩
  · rw [h.recs, List.append_assoc]
    rfl
  · show db.idxpos + r.idxCode.length = _
    rw [h.pos, codes_append, codes_cons, codes_nil, List.append_nil, List.length_append, Nat.add_assoc]

/-- `_db_readidx` at the end. -/
theorem Behind.read_nil (h : Behind db x ys []) :
    dbReadidx db 0 = .ok (-1, { db with idxoff := db.idxpos, idxpos := db.idxpos }) := by
  have hend : db.idxpos = db.idx.length := by
    rw [h.pos, h.holds.idx, h.holds.well.length_idxFile, h.recs, List.append_nil]
  have hread : pread db.idx db.idxpos (ptrSz + idxlenSz) = [] := by
    rw [hend]
    exact pread_end _ _
  unfold dbReadidx dbSeekidx
  rw [if_pos rfl, ok_bind, hread]
  rfl

/-- **The loop of `db_nextrec`** -/
theorem nextrecLoop_eq (fuel : Nat) : ∀ {db : Db} {ys zs : List Rec}, Behind db x ys zs → zs.length < fuel →
    (∃ db', nextrecLoop fuel db = .ok (none, db') ∧ listed zs = [] ∧ db'.idx = db.idx ∧ db'.dat = db.dat) ∨
    ∃ db' ys' zs' b, nextrecLoop fuel db = .ok (some b, db') ∧ Behind db' x ys' zs' ∧
      listed zs = b :: listed zs' ∧ zs'.length < zs.length ∧ db'.idx = db.idx ∧ db'.dat = db.dat := by
  induction fuel with
  | zero => intro db ys zs _ hfuel; exact absurd hfuel (Nat.not_lt_zero _)
  | succ fuel ih =>
      intro db ys zs h hfuel
      rw [nextrecLoop]
      cases zs with
      | nil =>
          rw [h.read_nil, ok_bind]
          exact Or.inl ⟨_, rfl, rfl, rfl, rfl⟩
      | cons r zs =>
          obtain ⟨hread, hbehind⟩ := h.read
          have hptr : ¬ (r.ptr : Int) < 0 := by omega
          rw [hread, ok_bind]
          dsimp only
          rw [if_neg hptr, listed_cons]
          by_cases hs : (r.key.all (· = space)) = true
          · have hcond : ((db.read db.idxpos r).idxbuf.all (· = space)) = true := hs
            rw [if_pos hcond, if_pos hs]
            rcases ih hbehind (Nat.lt_of_succ_lt_succ hfuel) with
              ⟨db', heq, hnil, hi, hd⟩ | ⟨db', ys', zs', b, heq, hb, hlist, hlt, hi, hd⟩
            · exact Or.inl ⟨db', heq, hnil, hi, hd⟩
            · exact Or.inr ⟨db', ys', zs', b, heq, hb, hlist, Nat.lt_succ_of_lt hlt, hi, hd⟩
          · have hcond : ¬ ((db.read db.idxpos r).idxbuf.all (· = space)) = true := hs
            have hdat := dbReaddat_eq hbehind.holds h.recAt rfl rfl
            rw [if_neg hcond, if_neg hs, hdat, ok_bind]
            exact Or.inr ⟨_, ys ++ [r], zs, (r.key, r.data), rfl, ⟨⟨hbehind.holds.idx, hbehind.holds.dat,
              hbehind.holds.well⟩, hbehind.readable, hbehind.recs, hbehind.pos⟩, rfl, Nat.lt_succ_self _, rfl, rfl⟩

/-- There are not more records than bytes. -/
theorem length_le_codes (rs : List Rec) : rs.length ≤ (codes Rec.idxCode rs).length := by
  induction rs with
  | nil => exact Nat.le_refl _
  | cons r rs ih =>
      have hpos := r.idxCode_pos
      rw [codes_cons, List.length_append, List.length_cons]
      omega

theorem Behind.length_le (h : Behind db x ys zs) : zs.length ≤ db.idx.length := by
  have hle := length_le_codes x.recs
  rw [h.recs, List.length_append] at hle
  rw [h.holds.idx, h.holds.well.length_idxFile, h.recs]
  omega

theorem scanLoop_eq (fuel : Nat) : ∀ {db : Db} {ys zs : List Rec}, Behind db x ys zs → zs.length < fuel →
    ∃ db', scanLoop fuel db = .ok (listed zs, db') ∧ db'.idx = db.idx ∧ db'.dat = db.dat := by
  induction fuel with
  | zero => intro db ys zs _ hfuel; exact absurd hfuel (Nat.not_lt_zero _)
  | succ fuel ih =>
      intro db ys zs h hfuel
      rw [scanLoop]
      unfold dbNextrec
      rcases nextrecLoop_eq (db.idx.length + 1) h (Nat.lt_succ_of_le h.length_le) with
        ⟨db', heq, hnil, hi, hd⟩ | ⟨db', ys', zs', b, heq, hb, hlist, hlt, hi, hd⟩
      · rw [heq, ok_bind, hnil]
        exact ⟨db', rfl, hi, hd⟩
      · obtain ⟨db'', hrest, hi', hd'⟩ := ih hb (by omega)
        rw [heq, ok_bind]
        dsimp only
        rw [hrest, ok_bind, hlist]
        exact ⟨db'', rfl, hi'.trans hi, hd'.trans hd⟩

/-- **The scan** returns the records of the file. -/
theorem dbScan_eq (h : Holds db x) (hread : Readable x) :
    ∃ db', dbScan db = .ok (listed x.recs, db') ∧ db'.idx = db.idx ∧ db'.dat = db.dat := by
  have hbehind : Behind (dbRewind db) x [] x.recs := ⟨⟨h.idx, h.dat, h.well⟩, hread, rfl, rfl⟩
  exact scanLoop_eq _ hbehind (Nat.lt_succ_of_le hbehind.length_le)

/-! ## The records and the map -/

/-- A record that is not wiped is on the chain of its key. -/
theorem Table.mem_chain (ht : Table x lists) {o : Nat} (hr : x.recAt o = some r) (hs : ¬ Wiped r.key) :
    o ∈ lists (some (bucket r.key)) := by
  have hbody := bodyAt_eq hr
  rcases (ht.family.covers o).mp ⟨_, hbody⟩ with hnil | ⟨i, hi⟩
  · exact absurd hnil List.not_mem_nil
  · cases i with
    | none => exact absurd (ht.contents.wiped o _ _ hi hbody).1 hs
    | some b =>
        rw [ht.contents.hash b o _ _ hi hbody]
        exact hi

theorem mem_listed (ht : Table x lists) (hm : Represents x lists m) :
    (k, v) ∈ listed x.recs ↔ m k = some v ∧ ¬ Wiped k := by
  unfold listed
  rw [List.mem_map]
  constructor
  · rintro ⟨r, hr, heq⟩
    obtain ⟨hmem, hs⟩ := List.mem_filter.mp hr
    obtain ⟨rfl, rfl⟩ := Prod.mk.inj heq
    have hwiped : ¬ Wiped r.key := fun hw => by
      rw [(all_space_iff _).mpr hw] at hs
      exact absurd hs Bool.false_ne_true
    obtain ⟨o, ho⟩ := exists_rowAt_of_mem Rec.idxCode_pos hmem base
    exact ⟨(hm _ _).mpr ⟨o, ht.mem_chain ho hwiped, bodyAt_eq ho⟩, hwiped⟩
  · rintro ⟨hk, hs⟩
    obtain ⟨o, _, hb⟩ := (hm k v).mp hk
    obtain ⟨r, hr, heq⟩ := exists_recAt hb
    obtain ⟨rfl, rfl⟩ := Prod.mk.inj heq
    refine ⟨r, List.mem_filter.mpr ⟨recAt_mem hr, ?_⟩, rfl⟩
    cases hall : r.key.all (· = space) with
    | true => exact absurd ((all_space_iff _).mp hall) hs
    | false => rfl

/-- No key is listed twice, from any record on. -/
theorem nodup_suffix (ht : Table x lists) (zs : List Rec) : ∀ ys, x.recs = ys ++ zs →
    ((listed zs).map Prod.fst).Nodup := by
  induction zs with
  | nil => exact fun _ _ => List.nodup_nil
  | cons r zs ih =>
      intro ys heq
      have hrest := ih (ys ++ [r]) (by rw [heq, List.append_assoc]; rfl)
      rw [listed_cons]
      by_cases hs : (r.key.all (· = space)) = true
      · rw [if_pos hs]
        exact hrest
      rw [if_neg hs, List.map_cons]
      refine List.nodup_cons.mpr ⟨fun hmem => ?_, hrest⟩
      -- another record with this key would be on the same chain
      obtain ⟨b, hb, hkey⟩ := List.mem_map.mp hmem
      obtain ⟨s, hs', rfl⟩ := List.mem_map.mp hb
      obtain ⟨as, cs, hsplit⟩ := List.append_of_mem (List.mem_filter.mp hs').1
      have hwiped : ¬ Wiped r.key := fun hw => hs ((all_space_iff _).mpr hw)
      have hkey' : s.key = r.key := hkey
      have hr : x.recAt (base + (codes Rec.idxCode ys).length) = some r := by
        unfold Index.recAt
        rw [heq]
        exact rowAt_split Rec.idxCode_pos base ys zs r
      have hr' : x.recAt (base + (codes Rec.idxCode (ys ++ r :: as)).length) = some s := by
        unfold Index.recAt
        rw [heq, hsplit, ← List.cons_append, ← List.append_assoc]
        exact rowAt_split Rec.idxCode_pos base _ cs s
      have ho := ht.mem_chain hr hwiped
      have ho' := ht.mem_chain hr' (hkey'.symm ▸ hwiped)
      rw [hkey'] at ho'
      have hbody' := bodyAt_eq hr'
      rw [hkey'] at hbody'
      have hsame := ht.contents.once _ _ _ _ _ _ ho ho' (bodyAt_eq hr) hbody'
      have hpos := r.idxCode_pos
      rw [codes_append, codes_cons, List.length_append, List.length_append] at hsame
      omega

theorem listed_nodup (ht : Table x lists) : ((listed x.recs).map Prod.fst).Nodup :=
  nodup_suffix ht x.recs [] rfl

end ApueDb
