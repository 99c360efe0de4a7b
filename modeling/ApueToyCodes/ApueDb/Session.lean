import ApueToyCodes.ApueDb.Table

/-!
# `ApueDb.Session` — a program that uses the library

A session is a sequence of calls on one database, which goes on from the files when it is opened again. It
ends at its last call or at the first one that ends the process. What the calls are for is said on a map
(`Answers`), and of a whole session by `Answered`.
-/

namespace ApueDb

/-- A caller that reads on until `db_nextrec` returns no record. -/
def scanLoop : Nat → Db → Except Abort (List (List UInt8 × List UInt8) × Db)
  | 0,        _  => throw .endless
  | fuel + 1, db => do
    let (record, db) ← dbNextrec db
    match record with
    | none => return ([], db)
    | some b =>
      let (bs, db) ← scanLoop fuel db
      return (b :: bs, db)

/-- `db_rewind`, and `db_nextrec` until it returns no record. -/
def dbScan (db : Db) : Except Abort (List (List UInt8 × List UInt8) × Db) :=
  scanLoop (db.idx.length + 1) (dbRewind db)

/-- A call. -/
inductive Op where
  | store (key data : List UInt8) (flag : Int)
  | fetch (key : List UInt8)
  | delete (key : List UInt8)
  | scan
  /-- `db_close` and `db_open` of the same files -/
  | reopen

/-- What a call returns. -/
inductive Reply where
  | code (c : Int)
  | data (d : Option (List UInt8))
  | records (bs : List (List UInt8 × List UInt8))
  | opened (b : Bool)
deriving DecidableEq

def Op.call (db : Db) : Op → Except Abort (Reply × Db)
  | .store key data flag => do
    let (c, db) ← dbStore db key data flag
    return (.code c, db)
  | .fetch key => do
    let (d, db) ← dbFetch db key
    return (.data d, db)
  | .delete key => do
    let (c, db) ← dbDelete db key
    return (.code c, db)
  | .scan => do
    let (bs, db) ← dbScan db
    return (.records bs, db)
  | .reopen =>
    match dbOpen false false (some db.idx) (some db.dat) with
    | some db => .ok (.opened true, db)
    | none => .ok (.opened false, db)

/-- The replies, and the database or why the process has ended. -/
def session (db : Db) : List Op → List Reply × Except Abort Db
  | [] => ([], .ok db)
  | op :: ops =>
    match op.call db with
    | .error e => ([], .error e)
    | .ok (reply, db) => (reply :: (session db ops).1, (session db ops).2)

/-- Keys and data a caller may store. -/
def Op.Valid : Op → Prop
  | .store key data _ => ValidKey key ∧ ValidData data
  | _ => True

/-! ## The map -/

/-- What `db_store` is for: what it returns, and the map afterwards. -/
def storeSpec (m : Store) (key data : List UInt8) (flag : Int) : Int × Store :=
  if flag ≠ dbInsert ∧ flag ≠ dbReplace ∧ flag ≠ dbStoreFlag then (-1, m)
  else match m key with
    | none => if flag = dbReplace then (-1, m) else (0, Function.update m key (some data))
    | some _ => if flag = dbInsert then (1, m) else (0, Function.update m key (some data))

/-- The reply to a call, and the map afterwards. -/
inductive Answers (m : Store) : Op → Reply → Store → Prop
  | store (key data : List UInt8) (flag : Int) :
      Answers m (.store key data flag) (.code (storeSpec m key data flag).1) (storeSpec m key data flag).2
  | fetch (key : List UInt8) : Answers m (.fetch key) (.data (m key)) m
  | delete (key : List UInt8) :
      Answers m (.delete key) (.code (if m key = none then -1 else 0)) (Function.update m key none)
  /-- each key once, but for those of blanks alone -/
  | scan (bs : List (List UInt8 × List UInt8)) : (bs.map Prod.fst).Nodup →
      (∀ k v, (k, v) ∈ bs ↔ m k = some v ∧ ¬ Wiped k) → Answers m .scan (.records bs) m
  | reopen : Answers m .reopen (.opened true) m

/-- The replies to a session. -/
inductive Answered : Store → List Op → List Reply → Store → Prop
  | nil (m : Store) : Answered m [] [] m
  | cons {m m' m'' : Store} {op : Op} {ops : List Op} {reply : Reply} {replies : List Reply} :
      Answers m op reply m' → Answered m' ops replies m'' →
      Answered m (op :: ops) (reply :: replies) m''

/-- The map of a new database. -/
def emptyStore : Store := fun _ => none

/-- A database some session has come to, and the map its replies are those of. -/
structure Reached (db : Db) (m : Store) : Prop where
  run : ∃ idx dat db₀ ops replies, dbOpen true true idx dat = some db₀ ∧ (∀ op ∈ ops, op.Valid) ∧
    session db₀ ops = (replies, .ok db) ∧ Answered emptyStore ops replies m

/-- The map after a call does not depend on the reply. -/
theorem Answers.unique {m m₁ m₂ : Store} {op : Op} {r₁ r₂ : Reply} (h₁ : Answers m op r₁ m₁)
    (h₂ : Answers m op r₂ m₂) : m₁ = m₂ := by
  cases h₁ <;> cases h₂ <;> rfl

theorem Answered.unique {m m₁ : Store} {ops : List Op} {rs₁ : List Reply} (h₁ : Answered m ops rs₁ m₁) :
    ∀ {m₂ : Store} {rs₂ : List Reply}, Answered m ops rs₂ m₂ → m₁ = m₂ := by
  induction h₁ with
  | nil m => intro m₂ rs₂ h₂; cases h₂; rfl
  | cons ha _ ih =>
      intro m₂ rs₂ h₂
      cases h₂ with
      | cons ha₂ hrest =>
          obtain rfl := ha.unique ha₂
          exact ih hrest

end ApueDb
