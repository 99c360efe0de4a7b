import ApueToyCodes.ApueDb.Correctness.Search

/-!
# `ApueDb.Correctness.Updates` — what is different after a write

The content before a write and after it, as a client of an `Index` sees them: a record `Rewritten` in its
place, a cell `Relinked`, a record `Appended`. In the first two the files keep their shape. The lemmas on the
writes say this of the content and give the fields of the new state.
-/

namespace ApueDb
open Decimal RecordFile Links

variable {db : Db} {x x' x'' : Index} {r r' r'' : Rec} {o p : Nat} {key data : List UInt8}

/-- The files are as long as they were, and the records where they were. -/
structure SameShape (x x' : Index) : Prop where
  idx  : x'.idxFile.length = x.idxFile.length
  dat  : x'.datFile.length = x.datFile.length
  recs : ∀ q, x'.IsRecord q ↔ x.IsRecord q

theorem SameShape.refl (x : Index) : SameShape x x := ⟨rfl, rfl, fun _ => Iff.rfl⟩

theorem SameShape.trans (h : SameShape x x') (h' : SameShape x' x'') : SameShape x x'' :=
  ⟨h'.idx.trans h.idx, h'.dat.trans h.dat, fun q => (h'.recs q).trans (h.recs q)⟩

theorem SameShape.isCell (h : SameShape x x') (ho : x.IsCell o) : x'.IsCell o := by
  rcases ho with ho | ho
  · exact Or.inl ho
  · exact Or.inr (isRecord_iff.mp ((h.recs o).mpr (isRecord_iff.mpr ho)))

theorem SameShape.isRecord (h : SameShape x x') : x'.IsRecord = x.IsRecord :=
  funext fun q => propext (h.recs q)

/-- The record at `o` is `r'` now. -/
structure Rewritten (x x' : Index) (o : Nat) (r' : Rec) : Prop where
  shape  : SameShape x x'
  record : x'.recAt o = some r'
  body   : ∀ q, x'.bodyAt q = if q = o then some (r'.key, r'.data) else x.bodyAt q
  ptr    : ∀ q, x'.ptrAt q = if q = o then r'.ptr else x.ptrAt q

theorem Rewritten.trans (h : Rewritten x x' o r') (h' : Rewritten x' x'' o r'') : Rewritten x x'' o r'' := by
  refine ⟨h.shape.trans h'.shape, h'.record, fun q => ?_, fun q => ?_⟩
  · rw [h'.body]
    by_cases hq : q = o
    · rw [if_pos hq, if_pos hq]
    · rw [if_neg hq, if_neg hq, h.body, if_neg hq]
  · rw [h'.ptr]
    by_cases hq : q = o
    · rw [if_pos hq, if_pos hq]
    · rw [if_neg hq, if_neg hq, h.ptr, if_neg hq]

theorem rewritten_setRec (hx : x.WellFormed) (hr : x.recAt o = some r) (hr' : r'.Fits)
    (hline : r'.line.length = r.line.length) (hdata : r'.data.length = r.data.length) :
    Rewritten x (x.setRec o r') o r' := by
  have hbody := bodyAt_setRec hx hr hr' hline
  refine ⟨⟨?_, ?_, fun q => ?_⟩, ?_, hbody, ptrAt_setRec hx hr hr' hline⟩
  · obtain ⟨a, c, hfile, _, hset⟩ := hx.split_idx hr
    rw [hfile, hset]
    simp only [List.length_append, (hx.fitsAt hr).length_eq hr' hline]
  · obtain ⟨a, c, hfile, _, hset⟩ := hx.split_dat hr
    rw [hfile, hset]
    simp only [Rec.datCode, List.length_append, hdata]
  · unfold Index.IsRecord
    rw [hbody]
    by_cases hq : q = o
    · rw [if_pos hq, hq, bodyAt_eq hr]
      exact ⟨fun _ => ⟨_, rfl⟩, fun _ => ⟨_, rfl⟩⟩
    · rw [if_neg hq]
  · rw [recAt_setRec hx hr hr' hline, if_pos rfl]

/-- The pointer in the cell `o` is `p` now. -/
structure Relinked (x x' : Index) (o p : Nat) : Prop where
  shape  : SameShape x x'
  record : ∀ q r, x.recAt q = some r → ∃ p', x'.recAt q = some { r with ptr := p' }
  body   : ∀ q, x'.bodyAt q = x.bodyAt q
  ptr    : ∀ q, x.IsCell q → x'.ptrAt q = if q = o then p else x.ptrAt q

theorem relinked_setPtr (hx : x.WellFormed) (ho : x.IsCell o) (hp : p ≤ ptrMax) :
    Relinked x (x.setPtr o p) o p := by
  have hbody := bodyAt_setPtr hx ho hp
  refine ⟨⟨?_, ?_, fun q => ?_⟩, fun q r hr => ?_, hbody, fun q hq => ptrAt_setPtr hx ho hp hq⟩
  · obtain ⟨a, c, hfile, _, hset⟩ := hx.split_cell ho
    rw [hfile, hset]
    simp only [List.length_append, length_ptr hp, length_ptr (hx.ptrAt_le o)]
  · rcases ho with ho | ⟨r, hr⟩
    · rw [setPtr_head (head_lt ho)]
      rfl
    · rw [setPtr_recAt hr]
      exact (rewritten_setRec hx hr ((hx.fitsAt hr).setPtr hp) rfl rfl).shape.dat
  · unfold Index.IsRecord
    rw [hbody]
  · rcases ho with ho | ⟨s, hs⟩
    · rw [setPtr_head (head_lt ho)]
      exact ⟨r.ptr, hr⟩
    · rw [setPtr_recAt hs, recAt_setRec hx hs ((hx.fitsAt hs).setPtr hp) rfl]
      by_cases hq : q = o
      · subst hq
        obtain rfl := Option.some.inj (hs.symm.trans hr)
        rw [if_pos rfl]
        exact ⟨p, rfl⟩
      · rw [if_neg hq]
        exact ⟨r.ptr, hr⟩

/-- There is a new record at `o`. -/
structure Appended (x x' : Index) (o : Nat) (r : Rec) : Prop where
  grows : x.idxFile.length < x'.idxFile.length
  new   : ¬ x.IsRecord o
  recs  : ∀ q, x'.IsRecord q ↔ q = o ∨ x.IsRecord q
  body  : ∀ q, x'.bodyAt q = if q = o then some (r.key, r.data) else x.bodyAt q
  ptr   : ∀ q, x'.ptrAt q = if q = o then r.ptr else x.ptrAt q

theorem appended_append (hx : x.WellFormed) (r : Rec) : Appended x (x.append r) x.idxFile.length r := by
  have hend := hx.length_idxFile
  refine ⟨?_, fun h => ?_, fun q => ?_, fun q => ?_, fun q => ?_⟩
  · show x.idxFile.length < (x.table ++ codes Rec.idxCode (x.recs ++ [r])).length
    have hpos := r.idxCode_pos
    rw [List.length_append, hx.length_table, codes_append, codes_cons, codes_nil, List.append_nil,
      List.length_append]
    omega
  · obtain ⟨s, hs⟩ := isRecord_iff.mp h
    have hlt := (rowAt_lt hs).2
    have hpos := s.idxCode_pos
    omega
  · unfold Index.IsRecord
    rw [bodyAt_append, ← hend]
    by_cases hq : q = x.idxFile.length
    · rw [if_pos hq]
      exact ⟨fun _ => Or.inl hq, fun _ => ⟨_, rfl⟩⟩
    · rw [if_neg hq]
      exact ⟨Or.inr, fun h => h.resolve_left hq⟩
  · rw [bodyAt_append, hend]
  · rw [ptrAt_append, hend]

/-! ## The reads and writes -/

/-- **`_db_readptr`** leaves everything but the file offset. -/
theorem dbReadptr_kept (h : Holds db x) (ho : x.IsCell o) :
    ∃ db', dbReadptr db o = .ok (x.ptrAt o, db') ∧ Holds db' x ∧ (∀ q r, At db q r → At db' q r) ∧
      db'.ptroff = db.ptroff ∧ db'.chainoff = db.chainoff :=
  ⟨_, dbReadptr_eq h ho, ⟨h.idx, h.dat, h.well⟩,
    fun _ _ hat => ⟨hat.idxoff, hat.key, hat.datoff, hat.datlen, hat.ptrval⟩, rfl, rfl⟩

/-- **`_db_writedat`** over a data record. -/
theorem dbWritedat_rewritten (h : Holds db x) (hr : x.recAt o = some r) (hdata : ValidData data)
    (hlen : data.length = r.data.length) :
    ∃ x', Holds (dbWritedat db data r.datoff .set) x' ∧ Rewritten x x' o { r with data := data } := by
  have hline : ({ r with data := data } : Rec).line.length = r.line.length := by rw [line_data hlen]
  exact ⟨_, dbWritedat_set h hr hdata hlen,
    rewritten_setRec h.well hr ((h.well.fitsAt hr).setData hdata hlen) hline hlen⟩

/-- **`_db_writeidx`** over an index record. -/
theorem dbWriteidx_rewritten (h : Holds db x) (hr : x.recAt o = some r) (hkey : 0 ∉ key)
    (hlen : key.length = r.key.length) (hp : p ≤ ptrMax) (hoff : db.datoff = r.datoff)
    (hdat : db.datlen = r.data.length + 1) :
    ∃ db' x', dbWriteidx db key o .set p = .ok db' ∧ Holds db' x' ∧
      Rewritten x x' o { r with ptr := p, key := key } ∧
      db'.idxoff = o ∧ db'.ptroff = db.ptroff ∧ db'.chainoff = db.chainoff :=
  ⟨_, _, dbWriteidx_set h hr hkey hlen hp hoff hdat, h.writeidx hr hkey hlen hp,
    rewritten_setRec h.well hr ((h.well.fitsAt hr).setKey hkey hlen hp) (length_line_key hlen) rfl, rfl, rfl, rfl⟩

/-- **`_db_writeptr`** -/
theorem dbWriteptr_relinked (h : Holds db x) (ho : x.IsCell o) (hp : p ≤ ptrMax) :
    ∃ db' x', dbWriteptr db o p = .ok db' ∧ Holds db' x' ∧ Relinked x x' o p ∧
      db'.ptroff = db.ptroff ∧ db'.chainoff = db.chainoff ∧ db'.idxoff = db.idxoff ∧
      db'.datoff = db.datoff :=
  ⟨_, _, dbWriteptr_eq h ho hp, h.writeptr ho hp _, relinked_setPtr h.well ho hp, rfl, rfl, rfl, rfl⟩

/-- **`dbAppend`** with room. -/
theorem dbAppend_appended (h : Holds db x) (hkey : 0 ∉ key) (hdata : ValidData data) (hp : p ≤ ptrMax)
    (hroom : Room db key data) {c : Nat} (hc : Index.IsHead c) (hchain : db.chainoff = c) :
    ∃ db' x₁ x', dbAppend db key data p = .ok db' ∧ Holds db' x' ∧
      Appended x x₁ x.idxFile.length (x.newRec key data p) ∧ Relinked x₁ x' c x.idxFile.length := by
  obtain ⟨db', heq, h'⟩ := dbAppend_eq h hkey hdata hp hroom hc hchain
  have hfits := h.newRec_fits hkey hdata hp hroom.lower hroom.upper
  have hlen : x.idxFile.length ≤ ptrMax := by
    rw [← h.idx]
    exact hroom.offset
  exact ⟨db', _, _, heq, h', appended_append h.well _,
    relinked_setPtr (h.well.append hfits rfl) (Or.inl hc) hlen⟩

end ApueDb
