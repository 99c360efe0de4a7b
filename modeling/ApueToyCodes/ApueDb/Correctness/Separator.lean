import ApueToyCodes.ApueDb.Correctness.Space

/-!
# `ApueDb.Correctness.Separator` — a key with a separator in it

`db_store` does not look into a key, and takes one with a `SEP` in it. Its record cannot be read again: its line
has a separator too many. The record is the first one on its chain, so a call for a key of this chain that
follows ends the process (`separator_poisons`).
-/

namespace ApueDb
open Decimal RecordFile Links

variable {db : Db} {x : Index} {r : Rec} {o : Nat} {m : Store} {key data : List UInt8} {flag : Int}

/-- The abort of a record with more than two separators. -/
abbrev tooMany : Abort := .errDump "_db_readidx: too many separators"

/-- Around the first `c`. -/
theorem exists_cutAt {c : UInt8} {s : List UInt8} (h : c ∈ s) :
    ∃ t u, cutAt c s = some (t, u) ∧ s.count c = u.count c + 1 := by
  obtain ⟨t, u, rfl, hc⟩ := List.eq_append_cons_of_mem h
  refine ⟨t, u, cutAt_append hc, ?_⟩
  rw [List.count_append, List.count_eq_zero.mpr hc, List.count_cons_self, Nat.zero_add]

/-- A line with a third separator. -/
theorem dbParseidx_tooMany {line : List UInt8} (hnul : 0 ∉ line) (hcount : 3 ≤ line.count sep) :
    dbParseidx db line = .error tooMany := by
  obtain ⟨t₁, u₁, hcut₁, hcount₁⟩ := exists_cutAt (List.count_pos_iff.mp (by omega : 0 < line.count sep))
  obtain ⟨t₂, u₂, hcut₂, hcount₂⟩ := exists_cutAt (List.count_pos_iff.mp (by omega : 0 < u₁.count sep))
  have hmem : sep ∈ u₂ := List.count_pos_iff.mp (by omega)
  unfold dbParseidx
  rw [cstr_eq_self hnul, hcut₁]
  dsimp only
  rw [hcut₂]
  dsimp only
  rw [if_pos hmem]
  rfl

/-- **`_db_readidx`** of a record with a separator in its key. -/
theorem dbReadidx_tooMany (h : Holds db x) (hr : x.recAt o = some r) (hsep : sep ∈ r.key) :
    dbReadidx db o = .error tooMany := by
  rw [dbReadidx_line h hr (Or.inl rfl), Rec.line, dropLast_idxLine]
  refine dbParseidx_tooMany ?_ ?_
  · simp only [List.mem_append, List.mem_cons, not_or]
    exact ⟨(h.well.fitsAt hr).key, by decide, notMem_dec rfl, by decide, notMem_dec rfl⟩
  · have hkey := List.count_pos_iff.mpr hsep
    rw [List.count_append, List.count_cons_self, List.count_append, List.count_cons_self]
    omega

/-- **`_db_find_and_lock`** on a chain that starts with such a record. -/
theorem dbFindAndLock_tooMany (h : Holds db x) (hr : x.recAt o = some r) (hsep : sep ∈ r.key)
    (hfirst : x.ptrAt (anchor (some (bucket key))) = o) : dbFindAndLock db key = .error tooMany := by
  have hbase := base_le hr
  have hne : (o : Int) ≠ 0 := by
    intro heq
    rw [Int.natCast_eq_zero.mp heq] at hbase
    exact absurd hbase (by decide)
  have hc : dbHash key * ptrSz + hashOff = anchor (some (bucket key)) := rfl
  let c := anchor (some (bucket key))
  have hstart : Holds { db with chainoff := c, ptroff := c } x := ⟨h.idx, h.dat, h.well⟩
  have hstart' : Holds { db with chainoff := c, ptroff := c, idxpos := c + ptrSz } x := ⟨h.idx, h.dat, h.well⟩
  unfold dbFindAndLock
  dsimp only
  rw [hc, dbReadptr_eq hstart (Or.inl (anchor_isHead _)), ok_bind]
  dsimp only
  rw [findLoop, hfirst, if_pos hne, dbReadidx_tooMany hstart' hr hsep, error_bind]

/-- **A separator in a key** is not refused where there is room, and a call for a key of its chain that follows
    ends the process. -/
theorem separator_poisons (h : Reached db m) (hnul : 0 ∉ key) (hsep : sep ∈ key) (hdata : ValidData data)
    (hflag : flag = dbInsert ∨ flag = dbStoreFlag) (hroom : Room db key data) :
    ∃ db', dbStore db key data flag = .ok (0, db') ∧ ∀ key', bucket key' = bucket key →
      dbFetch db' key' = .error tooMany ∧ dbDelete db' key' = .error tooMany ∧
      ∀ data' flag', ValidData data' → flag' = dbInsert ∨ flag' = dbReplace ∨ flag' = dbStoreFlag →
        dbStore db' key' data' flag' = .error tooMany := by
  obtain ⟨x, lists, hx, hread, ht, hm⟩ := h.stores
  -- the key is not there: those that are have no separator
  have hnone : m key = none := by
    refine (hm.none_iff key).mpr fun o _ v hb => ?_
    exact absurd hsep (hread o key v hb)
  obtain ⟨db₁, hstore, h₁, hchain⟩ := dbStore_unknown hx hread ht hm hnone hdata hflag
  have hsize : SameSize db db₁ := hx.sameSize h₁ (SameShape.refl x)
  rcases dbStoreNew_eq h₁ hread ht hm hnone hnul hdata hchain with ⟨db', heq, hadded, -⟩ | ⟨-, hno, -⟩
  · obtain ⟨x', lists', o, h', -, -, hfirst, hbody, -⟩ := hadded
    obtain ⟨r, hr, hrb⟩ := exists_recAt hbody
    have hrsep : sep ∈ r.key := by
      rw [(Prod.mk.inj hrb).1]
      exact hsep
    refine ⟨db', hstore.trans heq, fun key' hbucket => ?_⟩
    have hfind : dbFindAndLock db' key' = .error tooMany :=
      dbFindAndLock_tooMany h' hr hrsep (by rw [hbucket, hfirst])
    refine ⟨?_, ?_, fun data' flag' hdata' hflag' => ?_⟩
    · unfold dbFetch
      rw [hfind, error_bind]
    · unfold dbDelete
      rw [hfind, error_bind]
    · have hlower := hdata'.lower
      have hupper := hdata'.upper
      have hvalid : ¬ (flag' ≠ dbInsert ∧ flag' ≠ dbReplace ∧ flag' ≠ dbStoreFlag) := by
        rintro ⟨h₁, h₂, h₃⟩
        rcases hflag' with heq | heq | heq
        · exact h₁ heq
        · exact h₂ heq
        · exact h₃ heq
      unfold dbStore
      rw [if_neg hvalid, if_neg (by omega), hfind, error_bind]
  · exact absurd (hsize.room_iff.mpr hroom) hno

theorem separator_poisons_example : ∃ db db', dbStore db [97, sep] [49] dbInsert = .ok (0, db') ∧
    ∀ key', bucket key' = bucket [97, sep] →
      dbFetch db' key' = .error tooMany ∧ dbDelete db' key' = .error tooMany ∧
      ∀ data' flag', ValidData data' → flag' = dbInsert ∨ flag' = dbReplace ∨ flag' = dbStoreFlag →
        dbStore db' key' data' flag' = .error tooMany := by
  obtain ⟨db, hopen, -⟩ := dbOpen_new none none
  obtain ⟨hidx, hdat⟩ : db.idx = emptyTable ∧ db.dat = [] := by
    rw [← Option.some.inj hopen]
    exact ⟨rfl, rfl⟩
  refine ⟨db, separator_poisons (reached_new none none hopen) (by decide) (by decide)
    ⟨by decide, by decide, by decide⟩ (Or.inl rfl) ⟨?_, ?_, ?_⟩⟩
  · rw [hidx, length_emptyTable]
    decide
  · rw [hdat]
    decide
  · rw [hdat]
    decide

end ApueDb
