import ApueToyCodes.ApueDb.Index

/-!
# `ApueDb.Correctness.Records` — what reading and writing a record does

One lemma for each function that reads or writes the files. `Holds db x` says that the files of `db` are those
of the content `x`; each function is then an operation on `x`: a pointer or a record read (`dbReadptr_eq`,
`dbReadidx_eq`, `dbReaddat_eq`), written over one of the same length (`dbWriteptr_eq`, `dbWriteidx_set`,
`dbWritedat_set`), or put at the ends of the files (`dbAppend_eq`, `dbAppend_error`).
-/

namespace ApueDb
open Decimal RecordFile

variable {db : Db} {x : Index} {r r' : Rec} {o p : Nat} {key data : List UInt8}

/-- The files of `db` are those of `x`. -/
structure Holds (db : Db) (x : Index) : Prop where
  idx  : db.idx = x.idxFile
  dat  : db.dat = x.datFile
  well : x.WellFormed

/-! ## The files around a record -/

theorem tiled_append {d : Nat} (rs rs' : List Rec) :
    Tiled d (rs ++ rs') ↔ Tiled d rs ∧ Tiled (d + (codes Rec.datCode rs).length) rs' := by
  induction rs generalizing d with
  | nil => simp [Tiled]
  | cons r rs ih =>
      rw [List.cons_append, Tiled, Tiled, ih, and_assoc, codes_cons, List.length_append, Nat.add_assoc]

/-- A record and the records before and behind it. -/
theorem Index.WellFormed.split (hx : x.WellFormed) (h : x.recAt o = some r) :
    ∃ ys zs, x.recs = ys ++ r :: zs ∧ o = base + (codes Rec.idxCode ys).length ∧
      r.datoff = (codes Rec.datCode ys).length ∧
      ∀ r', x.setRec o r' = { x with recs := ys ++ r' :: zs } := by
  obtain ⟨ys, zs, heq, ho⟩ := exists_of_rowAt h
  refine ⟨ys, zs, heq, ho, ?_, ?_⟩
  · have htiled := hx.tiled
    rw [heq, tiled_append] at htiled
    rw [htiled.2.1, Nat.zero_add]
  · intro r'
    unfold Index.setRec
    rw [heq, ho, replaceAt_split Rec.idxCode_pos]

/-- The index file around a record. -/
theorem Index.WellFormed.split_idx (hx : x.WellFormed) (h : x.recAt o = some r) :
    ∃ a c, x.idxFile = a ++ (r.idxCode ++ c) ∧ a.length = o ∧
      ∀ r', (x.setRec o r').idxFile = a ++ (r'.idxCode ++ c) := by
  obtain ⟨ys, zs, heq, ho, _, hset⟩ := hx.split h
  refine ⟨x.table ++ codes Rec.idxCode ys, codes Rec.idxCode zs, ?_, ?_, fun r' => ?_⟩
  · unfold Index.idxFile
    rw [heq, codes_append, codes_cons, List.append_assoc]
  · rw [List.length_append, hx.length_table, ho]
  · rw [hset]
    show x.table ++ codes Rec.idxCode (ys ++ r' :: zs) = _
    rw [codes_append, codes_cons, List.append_assoc]

/-- The data file around a data record. -/
theorem Index.WellFormed.split_dat (hx : x.WellFormed) (h : x.recAt o = some r) :
    ∃ a c, x.datFile = a ++ (r.datCode ++ c) ∧ a.length = r.datoff ∧
      ∀ r', (x.setRec o r').datFile = a ++ (r'.datCode ++ c) := by
  obtain ⟨ys, zs, heq, _, hoff, hset⟩ := hx.split h
  refine ⟨codes Rec.datCode ys, codes Rec.datCode zs, ?_, hoff.symm, fun r' => ?_⟩
  · unfold Index.datFile
    rw [heq, codes_append, codes_cons]
  · rw [hset]
    show codes Rec.datCode (ys ++ r' :: zs) = _
    rw [codes_append, codes_cons]

/-- The index file around a cell. -/
theorem Index.WellFormed.split_cell (hx : x.WellFormed) (h : x.IsCell o) :
    ∃ a c, x.idxFile = a ++ (pad ptrSz (x.ptrAt o) ++ c) ∧ a.length = o ∧
      ∀ p, (x.setPtr o p).idxFile = a ++ (pad ptrSz p ++ c) := by
  rcases h with hhead | ⟨r, hr⟩
  · -- a pointer of the table
    have hlt := head_lt hhead
    obtain ⟨i, hi, rfl⟩ := hhead
    have hlen : i < x.cells.length := by
      rw [hx.cells]
      exact Nat.lt_succ_of_le hi
    have hdiv : i * ptrSz / ptrSz = i := Nat.mul_div_cancel _ (by decide)
    have hcells : x.cells = x.cells.take i ++ x.cells[i] :: x.cells.drop (i + 1) := by
      rw [List.getElem_cons_drop, List.take_append_drop]
    have hptr : x.ptrAt (i * ptrSz) = x.cells[i] := by
      unfold Index.ptrAt
      rw [if_pos hlt, hdiv, List.getD_eq_getElem?_getD, List.getElem?_eq_getElem hlen]
      rfl
    refine ⟨codes (pad ptrSz) (x.cells.take i),
      codes (pad ptrSz) (x.cells.drop (i + 1)) ++ [newline] ++ codes Rec.idxCode x.recs, ?_, ?_, fun p => ?_⟩
    · unfold Index.idxFile Index.table
      rw [hptr]
      conv => lhs; rw [hcells]
      rw [codes_append, codes_cons]
      simp only [List.append_assoc]
    · rw [length_codes_ptr fun q hq => hx.ptrs q (List.mem_of_mem_take hq), List.length_take,
        Nat.min_eq_left (Nat.le_of_lt hlen)]
    · rw [setPtr_head hlt, hdiv]
      unfold Index.idxFile Index.table
      rw [List.set_eq_take_append_cons_drop, if_pos hlen, codes_append, codes_cons]
      simp only [List.append_assoc]
  · -- the front of a record
    obtain ⟨a, c, hfile, hlen, hset⟩ := hx.split_idx hr
    refine ⟨a, pad idxlenSz r.line.length ++ r.line ++ c, ?_, hlen, fun p => ?_⟩
    · rw [hfile, ptrAt_recAt hr, Rec.idxCode]
      simp only [List.append_assoc]
    · rw [setPtr_recAt hr, hset, Rec.idxCode]
      simp only [List.append_assoc]
      rfl

/-! ## What keeps the content well formed -/

/-- A record rewritten in place. -/
theorem Index.WellFormed.setRec (hx : x.WellFormed) (h : x.recAt o = some r) (hr' : r'.Fits)
    (hoff : r'.datoff = r.datoff) (hdata : r'.data.length = r.data.length) : (x.setRec o r').WellFormed := by
  obtain ⟨ys, zs, heq, _, _, hset⟩ := hx.split h
  have htiled := hx.tiled
  have hfits := hx.fits
  rw [heq] at htiled hfits
  rw [tiled_append] at htiled
  have hcode : r'.datCode.length = r.datCode.length := by
    unfold Rec.datCode
    rw [List.length_append, List.length_append, hdata]
  rw [hset]
  refine ⟨hx.cells, hx.ptrs, fun q hq => ?_, ?_⟩
  · rcases List.mem_append.mp hq with hq | hq
    · exact hfits q (List.mem_append_left _ hq)
    · rcases List.mem_cons.mp hq with rfl | hq
      · exact hr'
      · exact hfits q (List.mem_append_right _ (List.mem_cons_of_mem _ hq))
  · rw [tiled_append]
    refine ⟨htiled.1, hoff.trans htiled.2.1, ?_⟩
    rw [hcode]
    exact htiled.2.2

theorem Index.WellFormed.setPtr (hx : x.WellFormed) (h : x.IsCell o) (hp : p ≤ ptrMax) :
    (x.setPtr o p).WellFormed := by
  rcases h with hhead | ⟨r, hr⟩
  · rw [setPtr_head (head_lt hhead)]
    refine ⟨by rw [List.length_set]; exact hx.cells, fun q hq => ?_, hx.fits, hx.tiled⟩
    rcases List.mem_or_eq_of_mem_set hq with hq | rfl
    · exact hx.ptrs q hq
    · exact hp
  · rw [setPtr_recAt hr]
    exact hx.setRec hr ((hx.fitsAt hr).setPtr hp) rfl rfl

theorem Index.WellFormed.append (hx : x.WellFormed) (hr : r.Fits) (hoff : r.datoff = x.datFile.length) :
    (x.append r).WellFormed := by
  refine ⟨hx.cells, hx.ptrs, fun q hq => ?_, ?_⟩
  · rcases List.mem_append.mp hq with hq | hq
    · exact hx.fits q hq
    · rw [List.mem_singleton.mp hq]
      exact hr
  · show Tiled 0 (x.recs ++ [r])
    rw [tiled_append]
    refine ⟨hx.tiled, ?_, trivial⟩
    rw [hoff, Nat.zero_add]
    rfl

/-! ## Reading -/

/-- A part read by its place. -/
theorem pread_of_append {f a b c : List UInt8} {n : Nat} (h : f = a ++ (b ++ c)) (ha : a.length = o)
    (hb : b.length = n) : pread f o n = b := by
  subst ha hb
  rw [h, pread_middle]

/-- **`_db_readptr`** -/
theorem dbReadptr_eq (h : Holds db x) (ho : x.IsCell o) :
    dbReadptr db o = .ok (x.ptrAt o, { db with idxpos := o + ptrSz }) := by
  obtain ⟨a, c, hfile, hlen, _⟩ := h.well.split_cell ho
  have hsz := length_ptr (h.well.ptrAt_le o)
  have hread : pread db.idx o ptrSz = pad ptrSz (x.ptrAt o) := pread_of_append (h.idx.trans hfile) hlen hsz
  have hatol : atol (pad ptrSz (x.ptrAt o)) = x.ptrAt o := atol_pad_self _ _
  simp only [dbReadptr, lseekSet_natCast, ok_bind, hread, hsz, ne_eq, not_true_eq_false, if_false, hatol]
  rfl

theorem cutAt_append {c : UInt8} {s t : List UInt8} (h : c ∉ s) : cutAt c (s ++ c :: t) = some (s, t) := by
  have hs : ∀ a ∈ s, (a != c) = true := fun a ha => by
    simpa using fun heq : a = c => h (heq ▸ ha)
  unfold cutAt
  rw [if_pos (List.mem_append_right _ List.mem_cons_self), List.takeWhile_append_of_pos hs,
    List.dropWhile_append_of_pos hs]
  simp

theorem cstr_eq_self {s : List UInt8} (h : 0 ∉ s) : cstr s = s := by
  unfold cstr
  rw [List.takeWhile_eq_self_iff]
  intro a ha
  simpa using fun heq : a = 0 => h (heq ▸ ha)

theorem idxLine_eq (key : List UInt8) (datoff datlen : Nat) :
    idxLine key datoff datlen = key ++ sep :: (dec datoff ++ sep :: dec datlen) ++ [newline] := by
  unfold idxLine
  simp only [List.append_assoc, List.cons_append]

/-- The line without its newline. -/
theorem dropLast_idxLine (key : List UInt8) (datoff datlen : Nat) :
    (idxLine key datoff datlen).dropLast = key ++ sep :: (dec datoff ++ sep :: dec datlen) := by
  rw [idxLine_eq, List.dropLast_concat]

/-- The fields of a record's line. -/
theorem dbParseidx_eq (hr : r.Fits) (hsep : sep ∉ r.key) : dbParseidx db r.line.dropLast =
    .ok (db.ptrval, { db with idxbuf := r.key, datoff := r.datoff, datlen := r.data.length + 1 }) := by
  have hnul : 0 ∉ r.line.dropLast := by
    rw [Rec.line, dropLast_idxLine]
    simp only [List.mem_append, List.mem_cons, not_or]
    exact ⟨hr.key, by decide, notMem_dec rfl, by decide, notMem_dec rfl⟩
  have hoff : atol (dec r.datoff) = r.datoff := atol_dec _
  have hlen : atol (dec (r.data.length + 1)) = (r.data.length + 1 : Nat) := atol_dec _
  have hmax : r.data.length + 1 ≤ datlenMax := hr.data.upper
  unfold dbParseidx
  rw [cstr_eq_self hnul, Rec.line, dropLast_idxLine, cutAt_append hsep]
  dsimp only
  rw [cutAt_append (notMem_dec rfl)]
  dsimp only
  rw [if_neg (notMem_dec rfl), hoff, hlen, if_neg (by omega), if_neg (by omega)]
  rfl

/-- `db` as `_db_readidx` leaves it behind the record `r` at `o`. -/
def Db.read (db : Db) (o : Nat) (r : Rec) : Db :=
  { db with
    idxoff := o, idxpos := o + r.idxCode.length, idxlen := r.line.length, ptrval := r.ptr, idxbuf := r.key
    datoff := r.datoff, datlen := r.data.length + 1 }

/-- `_db_readidx` at the offset of a record, given or the current one, comes to the fields of its line. -/
theorem dbReadidx_line (h : Holds db x) (hr : x.recAt o = some r) {offset : Int}
    (ho : offset = o ∨ offset = 0 ∧ db.idxpos = o) : dbReadidx db offset = dbParseidx { db with
      idxoff := o, idxpos := o + r.idxCode.length, idxlen := r.line.length, ptrval := r.ptr } r.line.dropLast := by
  have hfits := h.well.fitsAt hr
  obtain ⟨a, c, hfile, hlen, _⟩ := h.well.split_idx hr
  have hptr := length_ptr hfits.ptr
  have hidx := length_idxlen hfits.upper
  have hascii : pread db.idx o (ptrSz + idxlenSz) = pad ptrSz r.ptr ++ pad idxlenSz r.line.length := by
    refine pread_of_append (c := r.line ++ c) ?_ hlen ?_
    · rw [h.idx, hfile, Rec.idxCode]
      simp only [List.append_assoc]
    · rw [List.length_append, hptr, hidx]
  have hline : pread db.idx (o + (ptrSz + idxlenSz)) r.line.length = r.line := by
    refine pread_of_append (a := a ++ (pad ptrSz r.ptr ++ pad idxlenSz r.line.length)) (c := c) ?_ ?_ rfl
    · rw [h.idx, hfile, Rec.idxCode]
      simp only [List.append_assoc]
    · rw [List.length_append, List.length_append, hlen, hptr, hidx]
  have hlast : r.line.getLast? = some newline := by
    unfold Rec.line
    rw [idxLine_eq, List.getLast?_concat]
  have hatolp : atol (pad ptrSz r.ptr) = r.ptr := atol_pad_self _ _
  have hatoll : atol (pad idxlenSz r.line.length) = r.line.length := atol_pad_self _ _
  have hseek : dbSeekidx db offset = .ok o := by
    have hbase := base_le hr
    unfold dbSeekidx
    rcases ho with rfl | ⟨rfl, hpos⟩
    · rw [if_neg (by unfold base at hbase; omega), lseekSet_natCast]
    · rw [if_pos rfl, hpos]
  have hlow := hfits.lower
  have hupp := hfits.upper
  have htotal : (pad ptrSz r.ptr ++ pad idxlenSz r.line.length).length = ptrSz + idxlenSz := by
    rw [List.length_append, hptr, hidx]
  have hdrop : (pad ptrSz r.ptr ++ pad idxlenSz r.line.length).drop ptrSz = pad idxlenSz r.line.length := by
    exact List.drop_left' hptr
  have htake : (pad ptrSz r.ptr ++ pad idxlenSz r.line.length).take ptrSz = pad ptrSz r.ptr := by
    exact List.take_left' hptr
  unfold dbReadidx
  rw [hseek, ok_bind, hascii]
  dsimp only
  rw [if_neg (not_not.mpr htotal), hdrop, hatoll, if_neg (by omega), Int.toNat_natCast, hline,
    if_neg (not_not.mpr rfl), if_neg (not_not.mpr hlast), htake, hatolp, hfits.length_idxCode, Nat.add_assoc]

/-- **`_db_readidx`** of a record. -/
theorem dbReadidx_eq (h : Holds db x) (hr : x.recAt o = some r) (hsep : sep ∉ r.key) {offset : Int}
    (ho : offset = o ∨ offset = 0 ∧ db.idxpos = o) : dbReadidx db offset = .ok (r.ptr, db.read o r) := by
  rw [dbReadidx_line h hr ho, dbParseidx_eq (h.well.fitsAt hr) hsep]
  rfl

/-- **`_db_readdat`** of a record that has been read. -/
theorem dbReaddat_eq (h : Holds db x) (hr : x.recAt o = some r) (hoff : db.datoff = r.datoff)
    (hlen : db.datlen = r.data.length + 1) : dbReaddat db = .ok (r.data, { db with datbuf := r.data }) := by
  obtain ⟨a, c, hfile, ha, _⟩ := h.well.split_dat hr
  have hcode : r.datCode.length = r.data.length + 1 := by
    unfold Rec.datCode
    rw [List.length_append, List.length_singleton]
  have hread : pread db.dat db.datoff db.datlen = r.data ++ [newline] := by
    refine pread_of_append (a := a) (c := c) (h.dat.trans hfile) (ha.trans hoff.symm) ?_
    rw [hlen]
    exact hcode
  have hnul := (h.well.fitsAt hr).data.noNul
  unfold dbReaddat
  rw [hread]
  dsimp only
  rw [if_neg (by rw [hlen, List.length_append, List.length_singleton]; exact not_not.mpr rfl), if_neg (by simp),
    List.dropLast_concat, cstr_eq_self hnul]
  rfl

/-! ## Writing -/

/-- **`_db_writeptr`** -/
theorem dbWriteptr_eq (h : Holds db x) (ho : x.IsCell o) (hp : p ≤ ptrMax) :
    dbWriteptr db o p = .ok { db with idx := (x.setPtr o p).idxFile, idxpos := o + ptrSz } := by
  obtain ⟨a, c, hfile, hlen, hset⟩ := h.well.split_cell ho
  have hwrite : pwrite db.idx o (pad ptrSz p) = (x.setPtr o p).idxFile := by
    have hwidth := (length_ptr hp).trans (length_ptr (h.well.ptrAt_le o)).symm
    rw [h.idx, hfile, hset]
    conv => lhs; rw [← hlen]
    exact pwrite_middle a c (by rw [hlen]; exact hwidth)
  have hrange : ¬ ((p : Int) < 0 ∨ (p : Int) > ptrMax) := by omega
  unfold dbWriteptr
  rw [if_neg hrange, lseekSet_natCast, ok_bind]
  dsimp only
  rw [Int.toNat_natCast, hwrite]
  rfl

/-- A cell rewritten. -/
theorem Holds.writeptr (h : Holds db x) (ho : x.IsCell o) (hp : p ≤ ptrMax) (pos : Nat) :
    Holds { db with idx := (x.setPtr o p).idxFile, idxpos := pos } (x.setPtr o p) := by
  refine ⟨rfl, h.dat.trans ?_, h.well.setPtr ho hp⟩
  rcases ho with hhead | ⟨r, hr⟩
  · rw [setPtr_head (head_lt hhead)]
    rfl
  · obtain ⟨a, c, hfile, _, hset⟩ := h.well.split_dat hr
    rw [setPtr_recAt hr, hfile, hset]
    rfl

/-- Data of the same length leave the line of the record as it is. -/
theorem line_data (h : data.length = r.data.length) : ({ r with data := data } : Rec).line = r.line := by
  unfold Rec.line
  rw [h]

theorem Rec.Fits.setData (h : r.Fits) (hdata : ValidData data) (hlen : data.length = r.data.length) :
    ({ r with data := data } : Rec).Fits := by
  refine ⟨h.key, hdata, h.ptr, ?_, ?_⟩
  · rw [line_data hlen]
    exact h.lower
  · rw [line_data hlen]
    exact h.upper

/-- **`_db_writedat`** over a data record of the same length. -/
theorem dbWritedat_set (h : Holds db x) (hr : x.recAt o = some r) (hdata : ValidData data)
    (hlen : data.length = r.data.length) :
    Holds (dbWritedat db data r.datoff .set) (x.setRec o { r with data := data }) := by
  have hfits := (h.well.fitsAt hr).setData hdata hlen
  refine ⟨?_, ?_, h.well.setRec hr hfits rfl hlen⟩
  · obtain ⟨a, c, hfile, _, hset⟩ := h.well.split_idx hr
    show db.idx = _
    rw [h.idx, hfile, hset, Rec.idxCode, Rec.idxCode, line_data hlen]
  · obtain ⟨a, c, hfile, ha, hset⟩ := h.well.split_dat hr
    have hcode : ({ r with data := data } : Rec).datCode.length = r.datCode.length := by
      unfold Rec.datCode
      rw [List.length_append, List.length_append, hlen]
    show pwrite db.dat r.datoff (data ++ [newline]) = _
    rw [h.dat, hfile, hset, ← ha]
    exact pwrite_middle a c hcode

/-- A key of the same length leaves the length of the line. -/
theorem length_line_key (h : key.length = r.key.length) :
    ({ r with ptr := p, key := key } : Rec).line.length = r.line.length := by
  unfold Rec.line
  rw [length_idxLine, length_idxLine, h]

theorem Rec.Fits.setKey (h : r.Fits) (hkey : 0 ∉ key) (hlen : key.length = r.key.length) (hp : p ≤ ptrMax) :
    ({ r with ptr := p, key := key } : Rec).Fits := by
  refine ⟨hkey, h.data, hp, ?_, ?_⟩
  · rw [length_line_key hlen]
    exact h.lower
  · rw [length_line_key hlen]
    exact h.upper

/-- `db` as `_db_writeidx` leaves it. -/
def Db.wrote (db : Db) (x : Index) (o : Nat) (r : Rec) : Db :=
  { db with idx := x.idxFile, idxpos := o + r.idxCode.length, idxoff := o, idxbuf := r.line, ptrval := r.ptr }

/-- **`_db_writeidx`** over a record of the same length. -/
theorem dbWriteidx_set (h : Holds db x) (hr : x.recAt o = some r) (hkey : 0 ∉ key)
    (hlen : key.length = r.key.length) (hp : p ≤ ptrMax) (hoff : db.datoff = r.datoff)
    (hdat : db.datlen = r.data.length + 1) :
    dbWriteidx db key o .set p =
      .ok (db.wrote (x.setRec o { r with ptr := p, key := key }) o { r with ptr := p, key := key }) := by
  have hfits := (h.well.fitsAt hr).setKey hkey hlen hp
  obtain ⟨a, c, hfile, ha, hset⟩ := h.well.split_idx hr
  have hwrite : pwrite db.idx o ({ r with ptr := p, key := key } : Rec).idxCode
      = (x.setRec o { r with ptr := p, key := key }).idxFile := by
    have hcode := (h.well.fitsAt hr).length_eq hfits (length_line_key hlen)
    rw [h.idx, hfile, hset, ← ha]
    exact pwrite_middle a c hcode
  have hline : idxLine key db.datoff db.datlen = ({ r with ptr := p, key := key } : Rec).line := by
    rw [hoff, hdat]
    rfl
  have hlow := hfits.lower
  have hupp := hfits.upper
  have hrange : ¬ ((p : Int) < 0 ∨ (p : Int) > ptrMax) := by omega
  have hcode : ({ r with ptr := p, key := key } : Rec).idxCode.length = _ := hfits.length_idxCode
  unfold dbWriteidx
  rw [if_neg hrange, hline, Int.toNat_natCast]
  dsimp only
  rw [if_neg (by omega), if_neg (by omega)]
  unfold Db.wrote
  rw [hcode, ← hwrite, Nat.add_assoc]
  rfl

/-- A record rewritten after its data. -/
theorem Holds.writeidx (h : Holds db x) (hr : x.recAt o = some r) (hkey : 0 ∉ key)
    (hlen : key.length = r.key.length) (hp : p ≤ ptrMax) :
    Holds (db.wrote (x.setRec o { r with ptr := p, key := key }) o { r with ptr := p, key := key })
      (x.setRec o { r with ptr := p, key := key }) := by
  have hfits := (h.well.fitsAt hr).setKey hkey hlen hp
  refine ⟨rfl, h.dat.trans ?_, h.well.setRec hr hfits rfl rfl⟩
  obtain ⟨a, c, hfile, _, hset⟩ := h.well.split_dat hr
  rw [hfile, hset]
  rfl

/-! ## New records at the ends of the files -/

/-- There is room for another record: pointers reach the end of the index file, and the line of the record is
    not too short and not too long. -/
structure Room (db : Db) (key data : List UInt8) : Prop where
  offset : db.idx.length ≤ ptrMax
  lower  : idxlenMin ≤ (idxLine key db.dat.length (data.length + 1)).length
  upper  : (idxLine key db.dat.length (data.length + 1)).length ≤ idxlenMax

/-- The record `dbAppend` makes. -/
def Index.newRec (x : Index) (key data : List UInt8) (p : Nat) : Rec :=
  { ptr := p, key := key, datoff := x.datFile.length, data := data }

theorem Index.WellFormed.length_idxFile (hx : x.WellFormed) :
    x.idxFile.length = base + (codes Rec.idxCode x.recs).length := by
  unfold Index.idxFile
  rw [List.length_append, hx.length_table]

section

variable (h : Holds db x) (hkey : 0 ∉ key) (hdata : ValidData data) (hp : p ≤ ptrMax)
  (hlower : idxlenMin ≤ (idxLine key db.dat.length (data.length + 1)).length)
  (hupper : (idxLine key db.dat.length (data.length + 1)).length ≤ idxlenMax)

include h hkey hdata hp hlower hupper

theorem Holds.newRec_fits : (x.newRec key data p).Fits := by
  rw [h.dat] at hlower hupper
  exact ⟨hkey, hdata, hp, hlower, hupper⟩

/-- The data and the index record, before the chain is changed. -/
theorem dbAppend_records : dbWriteidx (dbWritedat db data 0 .fin) key 0 .fin p
      = .ok ((dbWritedat db data 0 .fin).wrote (x.append (x.newRec key data p)) x.idxFile.length
          (x.newRec key data p)) ∧
    Holds ((dbWritedat db data 0 .fin).wrote (x.append (x.newRec key data p)) x.idxFile.length
      (x.newRec key data p)) (x.append (x.newRec key data p)) := by
  have hfits := h.newRec_fits hkey hdata hp hlower hupper
  have hlow := hfits.lower
  have hupp := hfits.upper
  have hidx : x.idxFile ++ (x.newRec key data p).idxCode = (x.append (x.newRec key data p)).idxFile := by
    show x.table ++ codes Rec.idxCode x.recs ++ _ = x.table ++ codes Rec.idxCode (x.recs ++ [_])
    rw [codes_append, codes_cons, codes_nil, List.append_nil, List.append_assoc]
  have hdat : x.datFile ++ (x.newRec key data p).datCode = (x.append (x.newRec key data p)).datFile := by
    show codes Rec.datCode x.recs ++ _ = codes Rec.datCode (x.recs ++ [_])
    rw [codes_append, codes_cons, codes_nil, List.append_nil]
  have hrange : ¬ ((p : Int) < 0 ∨ (p : Int) > ptrMax) := by omega
  constructor
  · have htext : idxLine key (dbWritedat db data 0 .fin).datoff (dbWritedat db data 0 .fin).datlen
        = (x.newRec key data p).line := by
      show idxLine key (db.dat.length + 0) (data.length + 1) = _
      rw [h.dat]
      rfl
    have hwrite : pwrite (dbWritedat db data 0 .fin).idx ((dbWritedat db data 0 .fin).idx.length + 0)
        (x.newRec key data p).idxCode = (x.append (x.newRec key data p)).idxFile := by
      show pwrite db.idx (db.idx.length + 0) _ = _
      rw [h.idx, Nat.add_zero, pwrite_end, hidx]
    have hpos : (dbWritedat db data 0 .fin).idx.length + 0 = x.idxFile.length := by
      show db.idx.length + 0 = _
      rw [h.idx, Nat.add_zero]
    unfold dbWriteidx
    rw [if_neg hrange, htext, Int.toNat_natCast]
    dsimp only
    rw [if_neg (by omega), if_neg (by omega)]
    unfold Db.wrote
    rw [hfits.length_idxCode, ← hwrite, ← hpos, Nat.add_assoc _ _ (Rec.line _).length]
    rfl
  · refine ⟨rfl, ?_, h.well.append hfits rfl⟩
    show pwrite db.dat (db.dat.length + 0) (data ++ [newline]) = _
    rw [h.dat, Nat.add_zero, pwrite_end]
    exact hdat

end

/-- **New records** at the ends of the files, in front of a chain. -/
theorem dbAppend_eq (h : Holds db x) (hkey : 0 ∉ key) (hdata : ValidData data) (hp : p ≤ ptrMax)
    (hroom : Room db key data) {c : Nat} (hc : Index.IsHead c) (hchain : db.chainoff = c) :
    ∃ db', dbAppend db key data p = .ok db' ∧
      Holds db' ((x.append (x.newRec key data p)).setPtr c x.idxFile.length) := by
  obtain ⟨hwrite, hholds⟩ := dbAppend_records h hkey hdata hp hroom.lower hroom.upper
  have hlen : x.idxFile.length ≤ ptrMax := by
    rw [← h.idx]
    exact hroom.offset
  refine ⟨_, ?_, hholds.writeptr (Or.inl hc) hlen (c + ptrSz)⟩
  unfold dbAppend
  dsimp only
  rw [hwrite, ok_bind, ← dbWriteptr_eq hholds (Or.inl hc) hlen, ← hchain]
  rfl

/-- Without room the process ends. -/
theorem dbAppend_error (h : Holds db x) (hkey : 0 ∉ key) (hdata : ValidData data) (hp : p ≤ ptrMax)
    (hroom : ¬ Room db key data) : ∃ e, dbAppend db key data p = .error e := by
  by_cases hline : idxlenMin ≤ (idxLine key db.dat.length (data.length + 1)).length ∧
      (idxLine key db.dat.length (data.length + 1)).length ≤ idxlenMax
  · -- the records are written, but the chain cannot point to them
    obtain ⟨hwrite, _⟩ := dbAppend_records h hkey hdata hp hline.1 hline.2
    have hlen : ¬ x.idxFile.length ≤ ptrMax := by
      rw [← h.idx]
      exact fun hoff => hroom ⟨hoff, hline.1, hline.2⟩
    refine ⟨.errQuit s!"_db_writeptr: invalid ptr: {(x.idxFile.length : Int)}", ?_⟩
    unfold dbAppend
    dsimp only
    rw [hwrite, ok_bind]
    unfold dbWriteptr Db.wrote
    dsimp only
    rw [if_pos (Or.inr (by omega))]
    rfl
  · have hrange : ¬ ((p : Int) < 0 ∨ (p : Int) > ptrMax) := by omega
    have htext : idxLine key (dbWritedat db data 0 .fin).datoff (dbWritedat db data 0 .fin).datlen
        = idxLine key db.dat.length (data.length + 1) := rfl
    unfold dbAppend dbWriteidx
    dsimp only
    rw [if_neg hrange, htext]
    split
    · exact ⟨_, rfl⟩
    · rw [if_pos (by omega)]
      exact ⟨_, rfl⟩

end ApueDb
