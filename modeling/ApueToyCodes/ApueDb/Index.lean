import ApueToyCodes.ApueDb.Db

/-!
# `ApueDb.Index` — the records in the two files

An `Index` is the content of a database: the pointers of the table and the records, each with the data it
points to. `idxFile` and `datFile` are its two files. The data records stand in the data file in the order of
their index records (`WellFormed.tiled`).

A pointer is read and written at the offset of its cell, whether that is a cell of the table or the front of
a record. What a client of an `Index` needs to know of it are the two maps from offsets `ptrAt` and `bodyAt`,
and how `setPtr`, `setRec` and `append` change them.
-/

namespace ApueDb
open Decimal RecordFile

/-- An index record and its data record. -/
structure Rec where
  ptr    : Nat
  key    : List UInt8
  datoff : Nat
  data   : List UInt8
deriving DecidableEq

def Rec.line (r : Rec) : List UInt8 := idxLine r.key r.datoff (r.data.length + 1)

/-- The bytes in the index file. -/
def Rec.idxCode (r : Rec) : List UInt8 := pad ptrSz r.ptr ++ (pad idxlenSz r.line.length ++ r.line)

/-- The bytes in the data file. -/
def Rec.datCode (r : Rec) : List UInt8 := r.data ++ [newline]

/-- The pointers of the table, the free list first, and the records in the order of the file. -/
structure Index where
  cells : List Nat
  recs  : List Rec

/-- The offset of the first record. -/
abbrev base : Nat := (nhashDef + 1) * ptrSz + 1

namespace Index

def table (x : Index) : List UInt8 := codes (pad ptrSz) x.cells ++ [newline]

def idxFile (x : Index) : List UInt8 := x.table ++ codes Rec.idxCode x.recs

def datFile (x : Index) : List UInt8 := codes Rec.datCode x.recs

/-- The record at an offset of the index file. -/
def recAt (x : Index) (o : Nat) : Option Rec := rowAt Rec.idxCode base x.recs o

/-- Key and data of the record at an offset. -/
def bodyAt (x : Index) (o : Nat) : Option (List UInt8 × List UInt8) :=
  (x.recAt o).map fun r => (r.key, r.data)

/-- The pointer in the cell at an offset. -/
def ptrAt (x : Index) (o : Nat) : Nat :=
  if o < base then x.cells.getD (o / ptrSz) 0 else (x.recAt o).elim 0 Rec.ptr

def setRec (x : Index) (o : Nat) (r : Rec) : Index :=
  { x with recs := replaceAt Rec.idxCode base x.recs o r }

def setPtr (x : Index) (o p : Nat) : Index :=
  if o < base then { x with cells := x.cells.set (o / ptrSz) p }
  else match x.recAt o with
    | none => x
    | some r => x.setRec o { r with ptr := p }

def append (x : Index) (r : Rec) : Index := { x with recs := x.recs ++ [r] }

/-- A cell of the table. -/
def IsHead (o : Nat) : Prop := ∃ i ≤ nhashDef, o = i * ptrSz

/-- A cell: in the table, or at the front of a record. -/
def IsCell (x : Index) (o : Nat) : Prop := IsHead o ∨ ∃ r, x.recAt o = some r

end Index

/-- A key the library can find again. -/
structure ValidKey (key : List UInt8) : Prop where
  noSep : sep ∉ key
  noNul : 0 ∉ key

/-- Data `db_store` takes. -/
structure ValidData (data : List UInt8) : Prop where
  noNul : 0 ∉ data
  lower : datlenMin ≤ data.length + 1
  upper : data.length + 1 ≤ datlenMax

/-- A record the library can have written. Its key may hold a separator: `db_store` does not look. -/
structure Rec.Fits (r : Rec) : Prop where
  key   : 0 ∉ r.key
  data  : ValidData r.data
  ptr   : r.ptr ≤ ptrMax
  lower : idxlenMin ≤ r.line.length
  upper : r.line.length ≤ idxlenMax

/-- The data records stand one after the other, from `d` on. -/
def Tiled : Nat → List Rec → Prop
  | _, []      => True
  | d, r :: rs => r.datoff = d ∧ Tiled (d + r.datCode.length) rs

/-- The content is one the files can hold. -/
structure Index.WellFormed (x : Index) : Prop where
  cells : x.cells.length = nhashDef + 1
  ptrs  : ∀ p ∈ x.cells, p ≤ ptrMax
  fits  : ∀ r ∈ x.recs, r.Fits
  tiled : Tiled 0 x.recs

variable {x : Index} {r r' : Rec} {o p : Nat}

/-! ## Lengths -/

theorem length_idxLine (key : List UInt8) (datoff datlen : Nat) :
    (idxLine key datoff datlen).length = key.length + (dec datoff).length + (dec datlen).length + 3 := by
  unfold idxLine
  simp only [List.length_append, List.length_cons, List.length_nil]
  omega

theorem Rec.idxCode_pos (r : Rec) : 0 < r.idxCode.length := by
  have hpos := length_dec_pos r.ptr
  unfold Rec.idxCode pad
  simp only [List.length_append]
  omega

theorem length_ptr (h : p ≤ ptrMax) : (pad ptrSz p).length = ptrSz :=
  length_pad (by decide) (Nat.lt_of_le_of_lt h (by decide))

theorem length_idxlen (h : p ≤ idxlenMax) : (pad idxlenSz p).length = idxlenSz :=
  length_pad (by decide) (Nat.lt_of_le_of_lt h (by decide))

theorem Rec.Fits.length_idxCode (h : r.Fits) : r.idxCode.length = ptrSz + idxlenSz + r.line.length := by
  unfold Rec.idxCode
  rw [List.length_append, List.length_append, length_ptr h.ptr, length_idxlen h.upper, Nat.add_assoc]

/-- Records of equally long lines have equally long codes. -/
theorem Rec.Fits.length_eq (h : r.Fits) (h' : r'.Fits) (hline : r'.line.length = r.line.length) :
    r'.idxCode.length = r.idxCode.length := by
  rw [h.length_idxCode, h'.length_idxCode, hline]

theorem length_codes_ptr {ps : List Nat} (h : ∀ p ∈ ps, p ≤ ptrMax) :
    (codes (pad ptrSz) ps).length = ps.length * ptrSz := by
  induction ps with
  | nil => rfl
  | cons p ps ih =>
      rw [codes_cons, List.length_append, length_ptr (h p List.mem_cons_self),
        ih fun q hq => h q (List.mem_cons_of_mem _ hq), List.length_cons, Nat.succ_mul, Nat.add_comm]

theorem Index.WellFormed.length_table (h : x.WellFormed) : x.table.length = base := by
  unfold Index.table
  rw [List.length_append, length_codes_ptr h.ptrs, h.cells, List.length_singleton]

/-! ## The maps from offsets -/

theorem base_le (h : x.recAt o = some r) : base ≤ o := (rowAt_lt h).1

theorem recAt_mem (h : x.recAt o = some r) : r ∈ x.recs := by
  obtain ⟨ys, zs, heq, _⟩ := exists_of_rowAt h
  rw [heq]
  exact List.mem_append_right _ List.mem_cons_self

theorem Index.WellFormed.fitsAt (hx : x.WellFormed) (h : x.recAt o = some r) : r.Fits :=
  hx.fits r (recAt_mem h)

theorem bodyAt_eq (h : x.recAt o = some r) : x.bodyAt o = some (r.key, r.data) := by
  unfold Index.bodyAt
  rw [h]
  rfl

theorem exists_recAt {b : List UInt8 × List UInt8} (h : x.bodyAt o = some b) :
    ∃ r, x.recAt o = some r ∧ (r.key, r.data) = b := Option.map_eq_some_iff.mp h

theorem ptrAt_recAt (h : x.recAt o = some r) : x.ptrAt o = r.ptr := by
  unfold Index.ptrAt
  rw [if_neg (Nat.not_lt.mpr (base_le h)), h]
  rfl

theorem head_lt (h : Index.IsHead o) : o < base := by
  obtain ⟨i, hi, rfl⟩ := h
  have hmul : i * ptrSz ≤ nhashDef * ptrSz := Nat.mul_le_mul_right ptrSz hi
  exact Nat.lt_of_le_of_lt hmul (by decide)

/-- Pointers are offsets that can be printed. -/
theorem Index.WellFormed.ptrAt_le (hx : x.WellFormed) (o : Nat) : x.ptrAt o ≤ ptrMax := by
  unfold Index.ptrAt
  split
  · rw [List.getD_eq_getElem?_getD]
    cases hp : x.cells[o / ptrSz]? with
    | none => exact Nat.zero_le _
    | some p => exact hx.ptrs p (List.mem_of_getElem? hp)
  · cases hr : x.recAt o with
    | none => exact Nat.zero_le _
    | some r => exact (hx.fitsAt hr).ptr

section

variable (hx : x.WellFormed) (hr : x.recAt o = some r) (hr' : r'.Fits)
  (hline : r'.line.length = r.line.length)

include hx hr hr' hline

/-- A record rewritten: where the records are afterwards. -/
theorem recAt_setRec (q : Nat) : (x.setRec o r').recAt q = if q = o then some r' else x.recAt q :=
  rowAt_replaceAt Rec.idxCode_pos hr ((hx.fitsAt hr).length_eq hr' hline) q

theorem bodyAt_setRec (q : Nat) :
    (x.setRec o r').bodyAt q = if q = o then some (r'.key, r'.data) else x.bodyAt q := by
  unfold Index.bodyAt
  rw [recAt_setRec hx hr hr' hline]
  split <;> rfl

theorem ptrAt_setRec (q : Nat) : (x.setRec o r').ptrAt q = if q = o then r'.ptr else x.ptrAt q := by
  have hbase := base_le hr
  unfold Index.ptrAt
  rw [recAt_setRec hx hr hr' hline]
  by_cases hq : q = o
  · rw [if_pos hq, if_pos hq, if_neg (by omega)]
    rfl
  · rw [if_neg hq, if_neg hq]
    rfl

end

/-- A new pointer changes neither key nor data, and not the length. -/
theorem Rec.Fits.setPtr (h : r.Fits) (hp : p ≤ ptrMax) : ({ r with ptr := p } : Rec).Fits :=
  ⟨h.key, h.data, hp, h.lower, h.upper⟩

theorem setPtr_head (h : o < base) : x.setPtr o p = { x with cells := x.cells.set (o / ptrSz) p } :=
  if_pos h

theorem setPtr_recAt (h : x.recAt o = some r) : x.setPtr o p = x.setRec o { r with ptr := p } := by
  unfold Index.setPtr
  rw [if_neg (Nat.not_lt.mpr (base_le h)), h]

theorem bodyAt_setPtr (hx : x.WellFormed) (ho : x.IsCell o) (hp : p ≤ ptrMax) (q : Nat) :
    (x.setPtr o p).bodyAt q = x.bodyAt q := by
  rcases ho with ho | ⟨r, hr⟩
  · rw [setPtr_head (head_lt ho)]
    rfl
  · rw [setPtr_recAt hr, bodyAt_setRec hx hr ((hx.fitsAt hr).setPtr hp) rfl]
    by_cases hq : q = o
    · rw [if_pos hq, hq, bodyAt_eq hr]
    · rw [if_neg hq]

theorem ptrAt_setPtr (hx : x.WellFormed) (ho : x.IsCell o) (hp : p ≤ ptrMax) {q : Nat} (hq : x.IsCell q) :
    (x.setPtr o p).ptrAt q = if q = o then p else x.ptrAt q := by
  rcases ho with ho | ⟨r, hr⟩
  · rw [setPtr_head (head_lt ho)]
    unfold Index.ptrAt
    by_cases hlt : q < base
    · rw [if_pos hlt, if_pos hlt]
      obtain ⟨i, hi, rfl⟩ := ho
      obtain ⟨j, hj, rfl⟩ : Index.IsHead q := by
        rcases hq with hq | ⟨r, hr⟩
        · exact hq
        · exact absurd (base_le hr) (Nat.not_le.mpr hlt)
      rw [Nat.mul_div_cancel _ (by decide), Nat.mul_div_cancel _ (by decide), List.getD_eq_getElem?_getD,
        List.getElem?_set, List.getD_eq_getElem?_getD]
      have hlen := hx.cells
      by_cases hij : i = j
      · rw [if_pos hij, if_pos (by omega), if_pos (by rw [hij])]
        rfl
      · rw [if_neg hij, if_neg fun heq => hij (Nat.eq_of_mul_eq_mul_right (by decide) heq.symm)]
    · have hne : q ≠ o := fun heq => hlt (heq ▸ head_lt ho)
      rw [if_neg hlt, if_neg hne, if_neg hlt]
      rfl
  · rw [setPtr_recAt hr, ptrAt_setRec hx hr ((hx.fitsAt hr).setPtr hp) rfl]

theorem recAt_append (x : Index) (r : Rec) (q : Nat) :
    (x.append r).recAt q = if q = base + (codes Rec.idxCode x.recs).length then some r else x.recAt q :=
  rowAt_append Rec.idxCode_pos base x.recs r q

theorem bodyAt_append (x : Index) (r : Rec) (q : Nat) : (x.append r).bodyAt q =
    if q = base + (codes Rec.idxCode x.recs).length then some (r.key, r.data) else x.bodyAt q := by
  unfold Index.bodyAt
  rw [recAt_append]
  split <;> rfl

theorem ptrAt_append (x : Index) (r : Rec) (q : Nat) : (x.append r).ptrAt q =
    if q = base + (codes Rec.idxCode x.recs).length then r.ptr else x.ptrAt q := by
  unfold Index.ptrAt
  rw [recAt_append]
  by_cases hq : q = base + (codes Rec.idxCode x.recs).length
  · rw [if_pos hq, if_pos hq, if_neg (by omega)]
    rfl
  · rw [if_neg hq, if_neg hq]
    rfl

end ApueDb
