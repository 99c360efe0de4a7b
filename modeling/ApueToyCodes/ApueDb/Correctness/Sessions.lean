import ApueToyCodes.ApueDb.Correctness.Scan

/-!
# `ApueDb.Correctness.Sessions` — whole sessions

A new database holds the empty map, and every call keeps that the database holds a map. So a session answers
as the map does (`session_answered`), to its end or to a `db_store` that needs new records for which there is
no room.
-/

namespace ApueDb
open Decimal RecordFile Links

variable {db db' : Db} {m : Store}

/-! ## `db_open` -/

/-- The content of a new database. -/
def newIndex : Index := { cells := List.replicate (nhashDef + 1) 0, recs := [] }

theorem idxFile_newIndex : newIndex.idxFile = emptyTable := by
  unfold Index.idxFile Index.table newIndex emptyTable codes
  rw [List.flatMap_replicate, List.flatMap_nil, List.append_nil]

theorem wellFormed_newIndex : newIndex.WellFormed := by
  refine ⟨List.length_replicate, fun p hp => ?_, fun r hr => absurd hr List.not_mem_nil, trivial⟩
  rw [(List.mem_replicate.mp hp).2]
  exact Nat.zero_le _

theorem table_newIndex : Table newIndex fun _ => [] := by
  have hnone : ∀ o, ¬ newIndex.IsRecord o :=
    fun o ⟨b, hb⟩ => absurd hb (by simp [Index.bodyAt, Index.recAt, newIndex, rowAt])
  refine ⟨⟨anchor_injective, fun o ho => absurd ho (hnone o), fun i => ?_, fun o => ?_, ?_, ?_, List.nodup_nil⟩, ?_⟩
  · -- every cell of the table is 0
    show newIndex.ptrAt (anchor i) = 0
    unfold Index.ptrAt newIndex
    rw [if_pos (head_lt (anchor_isHead i)), List.getD_eq_getElem?_getD]
    cases hp : (List.replicate (nhashDef + 1) 0)[anchor i / ptrSz]? with
    | none => rfl
    | some p => rw [Option.getD_some, (List.mem_replicate.mp (List.mem_of_getElem? hp)).2]
  · constructor
    · exact fun ho => absurd ho (hnone o)
    · rintro (ho | ⟨i, ho⟩) <;> exact absurd ho List.not_mem_nil
  · exact fun i j o ho => absurd ho List.not_mem_nil
  · exact fun o ho => absurd ho List.not_mem_nil
  · exact ⟨fun b o k v ho => absurd ho List.not_mem_nil, fun b o o' k v v' ho => absurd ho List.not_mem_nil,
      fun o k v ho => absurd ho List.not_mem_nil⟩

/-- **`db_open`** with `O_CREAT` and `O_TRUNC` makes an empty database. -/
theorem dbOpen_new (idx dat : Option (List UInt8)) :
    ∃ db, dbOpen true true idx dat = some db ∧ Stores db emptyStore := by
  have hopen : ∀ file, openFile true true file = some [] := fun file => by cases file <;> rfl
  unfold dbOpen
  rw [hopen, hopen]
  refine ⟨_, rfl, newIndex, fun _ => [], ⟨idxFile_newIndex.symm, rfl, wellFormed_newIndex⟩, ?_, table_newIndex, ?_⟩
  · exact fun o k v hb => absurd hb (by simp [Index.bodyAt, Index.recAt, newIndex, rowAt])
  intro k v
  constructor
  · exact fun hk => absurd hk.symm (Option.some_ne_none v)
  · rintro ⟨o, ho, -⟩
    exact absurd ho List.not_mem_nil

/-- **`db_open`** of the files of a database. -/
theorem dbOpen_stores (h : Stores db m) :
    ∃ db', dbOpen false false (some db.idx) (some db.dat) = some db' ∧ Stores db' m := by
  obtain ⟨x, lists, hx, hread, ht, hm⟩ := h
  exact ⟨_, rfl, x, lists, ⟨hx.idx, hx.dat, hx.well⟩, hread, ht, hm⟩

/-! ## One call, and a session -/

/-- A valid call answers, or there is no room for the new records it needs. -/
theorem call_answers {op : Op} (h : Stores db m) (hop : op.Valid) :
    (∃ reply db' m', op.call db = .ok (reply, db') ∧ Answers m op reply m' ∧ Stores db' m') ∨
    ∃ key data flag e, op = .store key data flag ∧ op.call db = .error e ∧ NeedsRecords db m key data flag ∧
      ¬ Room db key data := by
  cases op with
  | store key data flag =>
      rcases dbStore_eq h hop.1 hop.2 flag with ⟨db', heq, h'⟩ | ⟨⟨e, heq⟩, hneeds, hroom⟩
      · refine Or.inl ⟨_, db', _, ?_, .store key data flag, h'⟩
        rw [Op.call, heq, ok_bind]
        rfl
      · refine Or.inr ⟨key, data, flag, e, rfl, ?_, hneeds, hroom⟩
        rw [Op.call, heq, error_bind]
  | fetch key =>
      obtain ⟨db', heq, h'⟩ := dbFetch_eq h key
      refine Or.inl ⟨_, db', m, ?_, .fetch key, h'⟩
      rw [Op.call, heq, ok_bind]
      rfl
  | delete key =>
      obtain ⟨db', heq, h', -⟩ := dbDelete_eq h key
      refine Or.inl ⟨_, db', _, ?_, .delete key, h'⟩
      rw [Op.call, heq, ok_bind]
      rfl
  | scan =>
      obtain ⟨x, lists, hx, hread, ht, hm⟩ := h
      obtain ⟨db', heq, hidx, hdat⟩ := dbScan_eq hx hread
      refine Or.inl ⟨_, db', m, ?_, .scan _ (listed_nodup ht) (fun k v => mem_listed ht hm), x, lists,
        ⟨hidx.trans hx.idx, hdat.trans hx.dat, hx.well⟩, hread, ht, hm⟩
      rw [Op.call, heq, ok_bind]
      rfl
  | reopen =>
      obtain ⟨db', heq, h'⟩ := dbOpen_stores h
      refine Or.inl ⟨.opened true, db', m, ?_, .reopen, h'⟩
      rw [Op.call, heq]

/-- Sessions from a database that holds `m`. -/
theorem session_stores (ops : List Op) : ∀ {db : Db} {m : Store}, Stores db m → (∀ op ∈ ops, op.Valid) →
    (∃ replies db' m', session db ops = (replies, .ok db') ∧ Answered m ops replies m' ∧ Stores db' m') ∨
    ∃ done key data flag rest replies db' m' e, ops = done ++ .store key data flag :: rest ∧
      session db done = (replies, .ok db') ∧ Answered m done replies m' ∧ Stores db' m' ∧
      session db ops = (replies, .error e) ∧ NeedsRecords db' m' key data flag ∧ ¬ Room db' key data := by
  induction ops with
  | nil => exact fun h _ => Or.inl ⟨[], _, _, rfl, .nil _, h⟩
  | cons op ops ih =>
      intro db m h hops
      rcases call_answers h (hops op List.mem_cons_self) with
        ⟨reply, db₁, m₁, heq, ha, h₁⟩ | ⟨key, data, flag, e, rfl, heq, hneeds, hroom⟩
      · rcases ih h₁ (fun op' h' => hops op' (List.mem_cons_of_mem _ h')) with
          ⟨replies, db', m', hs, hall, h'⟩ |
          ⟨done, key, data, flag, rest, replies, db', m', e, rfl, hs, hall, h', hrest, hends⟩
        · refine Or.inl ⟨reply :: replies, db', m', ?_, .cons ha hall, h'⟩
          rw [session, heq]
          dsimp only
          rw [hs]
        · refine Or.inr ⟨op :: done, key, data, flag, rest, reply :: replies, db', m', e, rfl, ?_,
            .cons ha hall, h', ?_, hends⟩
          · rw [session, heq]
            dsimp only
            rw [hs]
          · rw [session, heq]
            dsimp only
            rw [hrest]
      · refine Or.inr ⟨[], key, data, flag, ops, [], db, m, e, rfl, rfl, .nil m, h, ?_, hneeds, hroom⟩
        rw [session, heq]

theorem Reached.stores (h : Reached db m) : Stores db m := by
  obtain ⟨idx, dat, db₀, ops, replies, hopen, hops, hs, ha⟩ := h.run
  obtain ⟨db₁, hopen₁, hnew⟩ := dbOpen_new idx dat
  obtain rfl := Option.some.inj (hopen.symm.trans hopen₁)
  rcases session_stores ops hnew hops with
    ⟨replies', db', m', hs', ha', h'⟩ | ⟨done, _, _, _, rest, replies', db', m', e, _, _, _, _, hs', _⟩
  · obtain ⟨-, heq⟩ := Prod.mk.inj (hs.symm.trans hs')
    rw [Except.ok.inj heq, ha.unique ha']
    exact h'
  · obtain ⟨-, heq⟩ := Prod.mk.inj (hs.symm.trans hs')
    exact absurd heq (by simp)

/-! ## Going on from a reached database -/

theorem session_append (db : Db) (ops ops' : List Op) {replies : List Reply}
    (h : session db ops = (replies, .ok db')) :
    session db (ops ++ ops') = (replies ++ (session db' ops').1, (session db' ops').2) := by
  induction ops generalizing db replies with
  | nil =>
      obtain ⟨rfl, heq⟩ := Prod.mk.inj h
      rw [Except.ok.inj heq]
      rfl
  | cons op ops ih =>
      rw [List.cons_append, session]
      rw [session] at h
      split at h
      · exact absurd (Prod.mk.inj h).2 (by simp)
      · rename_i reply db₁ heq
        obtain ⟨rfl, hrest⟩ := Prod.mk.inj h
        rw [ih db₁ (Prod.ext rfl hrest)]
        rfl

theorem Answered.append {m m' m'' : Store} {ops ops' : List Op} {rs rs' : List Reply} (h : Answered m ops rs m')
    (h' : Answered m' ops' rs' m'') : Answered m (ops ++ ops') (rs ++ rs') m'' := by
  induction h with
  | nil => exact h'
  | cons ha _ ih => exact .cons ha (ih h')

theorem reached_new (idx dat : Option (List UInt8)) (h : dbOpen true true idx dat = some db) : Reached db emptyStore :=
  ⟨idx, dat, db, [], [], h, fun _ hop => absurd hop List.not_mem_nil, rfl, .nil _⟩

/-- One call more. -/
theorem Reached.call (h : Reached db m) {op : Op} (hop : op.Valid) {reply : Reply} {m' : Store}
    (hcall : op.call db = .ok (reply, db')) (ha : Answers m op reply m') : Reached db' m' := by
  obtain ⟨idx, dat, db₀, ops, replies, hopen, hops, hs, hall⟩ := h.run
  refine ⟨idx, dat, db₀, ops ++ [op], replies ++ [reply], hopen, fun op' hop' => ?_, ?_,
    hall.append (.cons ha (.nil _))⟩
  · rcases List.mem_append.mp hop' with hop' | hop'
    · exact hops op' hop'
    · rw [List.mem_singleton.mp hop']
      exact hop
  · rw [session_append db₀ ops [op] hs, session, hcall]
    rfl

/-! ## A database with one record -/

theorem length_emptyTable : emptyTable.length = base := by
  rw [← idxFile_newIndex, wellFormed_newIndex.length_idxFile]
  rfl

theorem exists_reached : ∃ db, Reached db (Function.update emptyStore [97] (some [49])) := by
  obtain ⟨db, hopen, hnew⟩ := dbOpen_new none none
  obtain ⟨hidx, hdat⟩ : db.idx = emptyTable ∧ db.dat = [] := by
    rw [← Option.some.inj hopen]
    exact ⟨rfl, rfl⟩
  have hroom : Room db [97] [49] := by
    refine ⟨?_, ?_, ?_⟩
    · rw [hidx, length_emptyTable]
      decide
    · rw [hdat]
      decide
    · rw [hdat]
      decide
  have hvalid : (Op.store [97] [49] dbStoreFlag).Valid :=
    ⟨⟨by decide, by decide⟩, by decide, by decide, by decide⟩
  rcases dbStore_eq hnew hvalid.1 hvalid.2 dbStoreFlag with ⟨db', heq, -⟩ | ⟨-, -, hno⟩
  · have hcall : (Op.store [97] [49] dbStoreFlag).call db = .ok (.code 0, db') := by
      rw [Op.call, heq]
      rfl
    exact ⟨db', (reached_new none none hopen).call hvalid hcall (.store [97] [49] dbStoreFlag)⟩
  · exact absurd hroom hno

/-! ## The results -/

end ApueDb
