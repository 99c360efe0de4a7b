import ApueToyCodes.ApueDb.Correctness.Updates

/-!
# `ApueDb.Correctness.Delete` — a record goes to the free list

`_db_dodelete` wipes the record, puts it in front of the free list and takes it off its chain, in this order:
in between it is on both. `dbDodelete_eq` says what is different afterwards (`Deleted`), `Deleted.table` and
`Deleted.represents` that it is a table again, without the key.
-/

namespace ApueDb
open Decimal RecordFile Links

variable {db : Db} {x x' : Index} {r : Rec} {o c : Nat} {v : List UInt8}
  {lists : Option (Fin nhashDef) → List Nat} {m : Store} {l₁ l₂ : List Nat}

/-- Blanks in place of a string. -/
def wipe (s : List UInt8) : List UInt8 := List.replicate s.length space

theorem wiped_wipe (s : List UInt8) : Wiped (wipe s) := fun _ hc => (List.mem_replicate.mp hc).2

theorem length_wipe (s : List UInt8) : (wipe s).length = s.length := List.length_replicate

theorem notMem_wipe {a : UInt8} (ha : a ≠ space) (s : List UInt8) : a ∉ wipe s := fun h =>
  ha (wiped_wipe s a h)

theorem ValidData.wipe (h : ValidData v) : ValidData (wipe v) := by
  refine ⟨notMem_wipe (by decide) v, ?_, ?_⟩
  · rw [length_wipe]
    exact h.lower
  · rw [length_wipe]
    exact h.upper

/-- The record `r` at `o`, to which the cell `c` pointed, has gone to the free list. -/
structure Deleted (x x' : Index) (c o : Nat) (r : Rec) : Prop where
  shape : SameShape x x'
  body  : ∀ q, x'.bodyAt q = if q = o then some (wipe r.key, wipe r.data) else x.bodyAt q
  ptr   : ∀ q, x.IsCell q → x'.ptrAt q =
    if q = c then r.ptr else if q = freeOff then o else if q = o then x.ptrAt freeOff else x.ptrAt q

theorem Deleted.readable (h : Readable x) (hd : Deleted x x' c o r) : Readable x' := by
  intro q k v hb
  rw [hd.body] at hb
  by_cases hq : q = o
  · rw [if_pos hq] at hb
    rw [← (Prod.mk.inj (Option.some.inj hb)).1]
    exact notMem_wipe (by decide) r.key
  · rw [if_neg hq] at hb
    exact h q k v hb

theorem isCell_freeOff (x : Index) : x.IsCell freeOff := Or.inl (anchor_isHead none)

/-- The data record, wiped. -/
theorem dbWritedat_wipe (h : Holds db x) (hr : x.recAt o = some r) (hat : At db o r) :
    ∃ db₁ x₁, dbWritedat { db with
        datbuf := List.replicate (db.datlen - 1) space, idxbuf := List.replicate db.idxbuf.length space }
        (List.replicate (db.datlen - 1) space) db.datoff .set = db₁ ∧
      Holds db₁ x₁ ∧ Rewritten x x₁ o { r with data := wipe r.data } ∧
      At db₁ o { r with key := wipe r.key, data := wipe r.data } ∧
      db₁.ptroff = db.ptroff ∧ db₁.chainoff = db.chainoff := by
  have hfits := h.well.fitsAt hr
  have hdat : List.replicate (db.datlen - 1) space = wipe r.data := by
    rw [hat.datlen]
    rfl
  have hidx : List.replicate db.idxbuf.length space = wipe r.key := by
    rw [hat.key]
    rfl
  rw [hdat, hidx]
  have h₀ : Holds { db with datbuf := wipe r.data, idxbuf := wipe r.key } x := ⟨h.idx, h.dat, h.well⟩
  obtain ⟨x₁, h₁, hw₁⟩ := dbWritedat_rewritten h₀ hr hfits.data.wipe (length_wipe r.data)
  rw [← hat.datoff] at h₁
  exact ⟨_, x₁, rfl, h₁, hw₁, ⟨hat.idxoff, rfl, hat.datoff, rfl, hat.ptrval⟩, rfl, rfl⟩

/-- **`_db_dodelete`** of the record that has been read. -/
theorem dbDodelete_eq (h : Holds db x) (hr : x.recAt o = some r) (hat : At db o r) (hptr : db.ptroff = c)
    (hc : x.IsCell c) (ho : o ≤ ptrMax) :
    ∃ db' x', dbDodelete db = .ok db' ∧ Holds db' x' ∧ db'.chainoff = db.chainoff ∧ Deleted x x' c o r := by
  obtain ⟨db₁, x₁, hdata, h₁, hw₁, hat₁, hptr₁, hchain₁⟩ := dbWritedat_wipe h hr hat
  -- the index record, with the head of the free list
  obtain ⟨db₁', hread, h₁', hat₁', hptr₁', hchain₁'⟩ := dbReadptr_kept h₁ (isCell_freeOff x₁)
  have hat₁' := hat₁' _ _ hat₁
  obtain ⟨db₂, x₂, hwrite, h₂, hw₂, hoff₂, hptr₂, hchain₂⟩ := dbWriteidx_rewritten h₁' hw₁.record
    (notMem_wipe (by decide) r.key) (length_wipe r.key) (h₁.well.ptrAt_le freeOff) hat₁'.datoff hat₁'.datlen
  have hw := hw₁.trans hw₂
  -- the head of the free list, then the chain
  obtain ⟨db₃, x₃, hfree, h₃, hl₃, hptr₃, hchain₃, -⟩ := dbWriteptr_relinked h₂ (isCell_freeOff x₂) ho
  have hc₃ := hl₃.shape.isCell (hw.shape.isCell hc)
  obtain ⟨db₄, x₄, hchain, h₄, hl₄, -, hchain₄, -⟩ :=
    dbWriteptr_relinked h₃ hc₃ (h.well.fitsAt hr).ptr
  refine ⟨db₄, x₄, ?_, h₄, ?_, (hw.shape.trans hl₃.shape).trans hl₄.shape, fun q => ?_, fun q hq => ?_⟩
  · have hptroff : db₃.ptroff = c := by rw [hptr₃, hptr₂, hptr₁', hptr₁, hptr]
    unfold dbDodelete
    dsimp only
    rw [hdata, hread, ok_bind]
    dsimp only
    rw [hat₁'.key, hat₁'.idxoff, hat₁'.ptrval, hwrite, ok_bind, hoff₂, hfree, ok_bind, hptroff]
    exact hchain
  · rw [hchain₄, hchain₃, hchain₂, hchain₁', hchain₁]
  · rw [hl₄.body, hl₃.body, hw.body]
  · have hhead : x₁.ptrAt freeOff = x.ptrAt freeOff := by
      rw [hw₁.ptr]
      by_cases heq : freeOff = o
      · rw [if_pos heq, heq, ptrAt_recAt hr]
      · rw [if_neg heq]
    have hq₂ := hw.shape.isCell hq
    rw [hl₄.ptr q (hl₃.shape.isCell hq₂), hl₃.ptr q hq₂, hw.ptr q]
    simp only [hhead]

/-- The lists after a record has gone from a chain to the free list. -/
def toFree (lists : Option (Fin nhashDef) → List Nat) (b : Fin nhashDef) (l : List Nat) (o : Nat) :
    Option (Fin nhashDef) → List Nat :=
  Function.update (Function.update lists (some b) l) none (o :: lists none)

section

variable {b : Fin nhashDef} (ht : Table x lists) (hi : lists (some b) = l₁ ++ o :: l₂) (hr : x.recAt o = some r)
  (hd : Deleted x x' (before (anchor (some b)) l₁) o r)

include ht hi hd hr

/-- **The table without the record.** -/
theorem Deleted.table : Table x' (toFree lists b (l₁ ++ l₂) o) := by
  have ho : x.IsRecord o := isRecord_iff.mpr ⟨r, hr⟩
  have hplain := record_plain ho
  have hmem : before (anchor (some b)) l₁ ∈ anchor (some b) :: lists (some b) := Family.before_mem_cells hi
  have hlink := ht.family.linked (some b)
  -- the cell that changes is neither the record nor the head of the free list
  have hne : before (anchor (some b)) l₁ ≠ freeOff := fun heq => by
    have hfree : before (anchor (some b)) l₁ ∈ anchor none :: lists none := by
      rw [heq]
      exact List.mem_cons_self
    exact absurd (ht.family.cell_apart hmem hfree) (Option.some_ne_none b)
  have hno : o ≠ before (anchor (some b)) l₁ := fun heq => by
    rcases List.mem_cons.mp (before_mem (anchor (some b)) l₁) with hb | hb
    · exact hplain.2 (some b) (heq.trans hb)
    · exact ht.notMem_split hi (List.mem_append_left _ (heq ▸ hb))
  have hcell : x.IsCell o := Or.inr ⟨r, hr⟩
  have hunlinked : Family (Function.update x.ptrAt (before (anchor (some b)) l₁) (x.ptrAt o)) 0 anchor x.IsRecord
      [o] (Function.update lists (some b) (l₁ ++ l₂)) :=
    ht.family.unlink hi (Function.update_self _ _ _) fun a _ ha => Function.update_of_ne ha _ _
  have hpushed : Family x'.ptrAt 0 anchor x.IsRecord [] (Function.update (Function.update lists (some b) (l₁ ++ l₂))
      none (o :: Function.update lists (some b) (l₁ ++ l₂) none)) := hunlinked.push
    (by
      show x'.ptrAt freeOff = o
      rw [hd.ptr _ (isCell_freeOff x), if_neg hne.symm, if_pos rfl])
    (by
      rw [hd.ptr o hcell, if_neg hno, if_neg hplain.1, if_pos rfl]
      exact (Function.update_of_ne hne.symm _ _).symm)
    (fun a ha hanchor hao => by
      have hafree : a ≠ freeOff := hanchor
      rw [hd.ptr a (isCell_of_links ha)]
      by_cases hab : a = before (anchor (some b)) l₁
      · rw [if_pos hab, hab, Function.update_self, ptrAt_recAt hr]
      · rw [if_neg hab, if_neg hafree, if_neg hao, Function.update_of_ne hab])
  refine ⟨?_, ?_⟩
  · rw [hd.shape.isRecord]
    rwa [Function.update_of_ne (Option.some_ne_none b).symm] at hpushed
  · have hsub : ∀ i, Function.update lists (some b) (l₁ ++ l₂) i ⊆ lists i := by
      intro i q hq
      by_cases hib : i = some b
      · subst hib
        rw [Function.update_self] at hq
        rw [hi]
        exact (List.sublist_cons_self o l₂).append_left l₁ |>.subset hq
      · rwa [Function.update_of_ne hib] at hq
    have hkeep : ∀ i, ∀ q ∈ Function.update lists (some b) (l₁ ++ l₂) i, x'.bodyAt q = x.bodyAt q := by
      intro i q hq
      rw [hd.body, if_neg]
      rintro rfl
      exact hunlinked.free q List.mem_cons_self i hq
    have hpush := (ht.contents.mono hsub hkeep).push_free (o := o) fun k v hb => by
      rw [hd.body, if_pos rfl] at hb
      obtain ⟨rfl, rfl⟩ := Prod.mk.inj (Option.some.inj hb)
      exact ⟨wiped_wipe _, wiped_wipe _⟩
    rwa [Function.update_of_ne (Option.some_ne_none b).symm] at hpush

/-- **The key is gone from the map.** -/
theorem Deleted.represents (hm : Represents x lists m) :
    Represents x' (toFree lists b (l₁ ++ l₂) o) (Function.update m r.key none) := by
  have ho : o ∈ lists (some b) := hi ▸ List.mem_append_right _ List.mem_cons_self
  have hbody := bodyAt_eq hr
  obtain rfl := ht.contents.hash b o _ _ ho hbody
  refine (hm.remove ht hbody hi).congr (fun c => ?_) (fun c q hq => ?_)
  · exact Function.update_of_ne (Option.some_ne_none c) _ _
  · rw [hd.body, if_neg]
    rintro rfl
    by_cases hc : some c = some (bucket r.key)
    · rw [hc, Function.update_self] at hq
      exact ht.notMem_split hi hq
    · rw [Function.update_of_ne hc] at hq
      exact hc (ht.family.apart _ _ q hq ho)

end

end ApueDb
