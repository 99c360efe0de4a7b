import ApueToyCodes.Lib.Decimal
import ApueToyCodes.Lib.RecordFile

/-!
# `ApueDb.Db` — the database library of `apue.3e/db` (db.c)

A database is two files. The index file has the free list pointer, the hash table and the index records; an
index record has a chain pointer, its length, the key and where the data are; the data file has the data
records. All numbers in the index file are text. The functions are those of the source, with the files and
the fields of its `DB` as the state; strings are the bytes in front of their NUL.

The locks are left out (one process), as are the names of the files, the counters nothing reads, the failing
system calls and the record of the table size, which is always `NHASH_DEF`. What ends the process is an
`Abort`; a walk along a chain that comes back to itself is one, too.
-/

namespace ApueDb
open Decimal RecordFile

/-! ## Constants -/

/-- `IDXLEN_MIN` -/
abbrev idxlenMin : Nat := 6
/-- `IDXLEN_MAX` -/
abbrev idxlenMax : Nat := 1024
/-- `DATLEN_MIN` -/
abbrev datlenMin : Nat := 2
/-- `DATLEN_MAX` -/
abbrev datlenMax : Nat := 1024
/-- `IDXLEN_SZ` -/
abbrev idxlenSz : Nat := 4
/-- `PTR_SZ` -/
abbrev ptrSz : Nat := 7
/-- `PTR_MAX` -/
abbrev ptrMax : Nat := 9999999
/-- `NHASH_DEF` -/
abbrev nhashDef : Nat := 137
/-- `FREE_OFF` -/
abbrev freeOff : Nat := 0
/-- `HASH_OFF` -/
abbrev hashOff : Nat := ptrSz
/-- `SEP` -/
abbrev sep : UInt8 := 58
/-- `SPACE` -/
abbrev space : UInt8 := 32
/-- `NEWLINE` -/
abbrev newline : UInt8 := 10
/-- `DB_INSERT` -/
abbrev dbInsert : Int := 1
/-- `DB_REPLACE` -/
abbrev dbReplace : Int := 2
/-- `DB_STORE` -/
abbrev dbStoreFlag : Int := 3

/-! ## The state -/

/-- Why a call does not return. -/
inductive Abort where
  | errDump (text : String)
  | errQuit (text : String)
  /-- `sprintf` writes behind `idxbuf` -/
  | overrun
  | endless
deriving DecidableEq

inductive Errno where
  | einval | enoent
deriving DecidableEq

/-- `SEEK_SET` and `SEEK_END` -/
inductive Whence where
  | set | fin
deriving DecidableEq

/-- The two files and `DB`. `idxpos` is the file offset of `idxfd`. -/
structure Db where
  idx      : List UInt8
  dat      : List UInt8
  idxpos   : Nat
  idxbuf   : List UInt8
  datbuf   : List UInt8
  idxoff   : Nat
  idxlen   : Nat
  datoff   : Nat
  datlen   : Nat
  ptrval   : Int
  ptroff   : Int
  chainoff : Nat
  errno    : Option Errno
deriving DecidableEq

/-- `lseek` to an offset from the start. -/
def lseekSet (offset : Int) (text : String) : Except Abort Nat :=
  if offset < 0 then .error (.errDump text) else .ok offset.toNat

theorem lseekSet_natCast (o : Nat) (text : String) : lseekSet o text = .ok o := by
  unfold lseekSet
  rw [if_neg (Int.not_lt.mpr (Int.natCast_nonneg o)), Int.toNat_natCast]

section

variable {α β : Type} (a : α) (e : Abort) (f : α → Except Abort β)

@[simp] theorem ok_bind : (Except.ok a >>= f) = f a := rfl

@[simp] theorem error_bind : (Except.error e >>= f) = .error e := rfl

@[simp] theorem pure_eq_ok : (pure a : Except Abort α) = .ok a := rfl

@[simp] theorem throw_eq_error : (throw e : Except Abort α) = .error e := rfl

end

/-- The two parts of a string around the first `c`, as `strchr` finds it. -/
def cutAt (c : UInt8) (s : List UInt8) : Option (List UInt8 × List UInt8) :=
  if c ∈ s then some (s.takeWhile (· != c), (s.dropWhile (· != c)).tail) else none

/-- The string in a buffer: the bytes in front of the first NUL. -/
def cstr (buf : List UInt8) : List UInt8 := buf.takeWhile (· != 0)

/-! ## Reading and writing records -/

/-- `_db_readptr` -/
def dbReadptr (db : Db) (offset : Int) : Except Abort (Int × Db) := do
  let o ← lseekSet offset "_db_readptr: lseek error to ptr field"
  let asciiptr := pread db.idx o ptrSz
  if asciiptr.length ≠ ptrSz then throw (.errDump "_db_readptr: read error of ptr field")
  return (atol asciiptr, { db with idxpos := o + ptrSz })

/-- The separators in an index record, its offset and its length: the end of `_db_readidx`. -/
def dbParseidx (db : Db) (line : List UInt8) : Except Abort (Int × Db) :=
  match cutAt sep (cstr line) with
  | none => throw (.errDump "_db_readidx: missing first separator")
  | some (key, ptr1) =>
    match cutAt sep ptr1 with
    | none => throw (.errDump "_db_readidx: missing second separator")
    | some (off, ptr2) =>
      if sep ∈ ptr2 then throw (.errDump "_db_readidx: too many separators")
      else if atol off < 0 then throw (.errDump "_db_readidx: starting offset < 0")
      else if atol ptr2 ≤ 0 ∨ atol ptr2 > datlenMax then throw (.errDump "_db_readidx: invalid length")
      else return (db.ptrval,
        { db with idxbuf := key, datoff := (atol off).toNat, datlen := (atol ptr2).toNat })

/-- Where `_db_readidx` starts: offset 0 stands for the current one. -/
def dbSeekidx (db : Db) (offset : Int) : Except Abort Nat :=
  if offset = 0 then .ok db.idxpos else lseekSet offset "_db_readidx: lseek error"

/-- `_db_readidx`; -1 is the end of the file, for `db_nextrec`, which calls it with offset 0. -/
def dbReadidx (db : Db) (offset : Int) : Except Abort (Int × Db) := do
  let o ← dbSeekidx db offset
  let ascii := pread db.idx o (ptrSz + idxlenSz)
  if ascii.length ≠ ptrSz + idxlenSz then
    if ascii.length = 0 ∧ offset = 0 then return (-1, { db with idxoff := o, idxpos := o })
    throw (.errDump "_db_readidx: readv error of index record")
  let idxlen := atol (ascii.drop ptrSz)
  if idxlen < idxlenMin ∨ idxlen > idxlenMax then throw (.errDump "_db_readidx: invalid length")
  let line := pread db.idx (o + (ptrSz + idxlenSz)) idxlen.toNat
  if line.length ≠ idxlen.toNat then throw (.errDump "_db_readidx: read error of index record")
  if line.getLast? ≠ some newline then throw (.errDump "_db_readidx: missing newline")
  dbParseidx { db with
    idxoff := o, idxpos := o + (ptrSz + idxlenSz) + idxlen.toNat, idxlen := idxlen.toNat
    ptrval := atol (ascii.take ptrSz) } line.dropLast

/-- `_db_readdat` -/
def dbReaddat (db : Db) : Except Abort (List UInt8 × Db) := do
  let buf := pread db.dat db.datoff db.datlen
  if buf.length ≠ db.datlen then throw (.errDump "_db_readdat: read error")
  if buf.getLast? ≠ some newline then throw (.errDump "_db_readdat: missing newline")
  return (cstr buf.dropLast, { db with datbuf := cstr buf.dropLast })

/-- `_db_writedat` -/
def dbWritedat (db : Db) (data : List UInt8) (offset : Nat) (whence : Whence) : Db :=
  let o := match whence with
    | .set => offset
    | .fin => db.dat.length + offset
  { db with dat := pwrite db.dat o (data ++ [newline]), datoff := o, datlen := data.length + 1 }

/-- The text of an index record: key, offset and length of the data. -/
def idxLine (key : List UInt8) (datoff datlen : Nat) : List UInt8 :=
  key ++ sep :: (dec datoff ++ sep :: (dec datlen ++ [newline]))

/-- `_db_writeidx` -/
def dbWriteidx (db : Db) (key : List UInt8) (offset : Nat) (whence : Whence) (ptrval : Int) :
    Except Abort Db := do
  if ptrval < 0 ∨ ptrval > ptrMax then throw (.errQuit s!"_db_writeidx: invalid ptr: {ptrval}")
  let line := idxLine key db.datoff db.datlen
  if line.length + 1 > idxlenMax + 2 then throw .overrun
  if line.length < idxlenMin ∨ line.length > idxlenMax then throw (.errDump "_db_writeidx: invalid length")
  let o := match whence with
    | .set => offset
    | .fin => db.idx.length + offset
  return { db with
    idx := pwrite db.idx o (pad ptrSz ptrval.toNat ++ (pad idxlenSz line.length ++ line))
    idxpos := o + (ptrSz + idxlenSz) + line.length, idxoff := o, idxbuf := line, ptrval := ptrval }

/-- `_db_writeptr` -/
def dbWriteptr (db : Db) (offset ptrval : Int) : Except Abort Db := do
  if ptrval < 0 ∨ ptrval > ptrMax then throw (.errQuit s!"_db_writeptr: invalid ptr: {ptrval}")
  let o ← lseekSet offset "_db_writeptr: lseek error to ptr field"
  return { db with idx := pwrite db.idx o (pad ptrSz ptrval.toNat), idxpos := o + ptrSz }

/-! ## The hash chains -/

/-- The loop of `_db_hash`; `char` is signed. -/
def hashLoop : List UInt8 → Nat → Nat → Nat
  | [],       _, hval => hval
  | c :: key, i, hval => hashLoop key (i + 1) (((hval : Int) + c.toInt8.toInt * i) % 2 ^ 64).toNat

/-- `_db_hash` -/
def dbHash (key : List UInt8) : Nat := hashLoop key 1 0 % nhashDef

/-- The loop of `_db_find_and_lock`. -/
def findLoop (key : List UInt8) : Nat → Int → Db → Except Abort (Bool × Db)
  | 0,        _,      _  => throw .endless
  | fuel + 1, offset, db =>
    if offset ≠ 0 then do
      let (nextoffset, db) ← dbReadidx db offset
      if db.idxbuf = key then return (true, db)
      else findLoop key fuel nextoffset { db with ptroff := offset }
    else return (false, db)

/-- `_db_find_and_lock`; `true` is its 0. -/
def dbFindAndLock (db : Db) (key : List UInt8) : Except Abort (Bool × Db) := do
  let chainoff := dbHash key * ptrSz + hashOff
  let db := { db with chainoff := chainoff, ptroff := chainoff }
  let (offset, db) ← dbReadptr db db.ptroff
  findLoop key (db.idx.length + 1) offset db

/-- The loop of `_db_findfree`: where the pointer to the record found is. -/
def findfreeLoop (keylen datlen : Nat) : Nat → Int → Int → Db → Except Abort (Option Int × Db)
  | 0,        _,          _,      _  => throw .endless
  | fuel + 1, saveoffset, offset, db =>
    if offset ≠ 0 then do
      let (nextoffset, db) ← dbReadidx db offset
      if db.idxbuf.length = keylen ∧ db.datlen = datlen then return (some saveoffset, db)
      else findfreeLoop keylen datlen fuel offset nextoffset db
    else return (none, db)

/-- `_db_findfree`; `true` is its 0. -/
def dbFindfree (db : Db) (keylen datlen : Nat) : Except Abort (Bool × Db) := do
  let (offset, db) ← dbReadptr db freeOff
  let (found, db) ← findfreeLoop keylen datlen (db.idx.length + 1) freeOff offset db
  match found with
  | none => return (false, db)
  | some saveoffset => return (true, ← dbWriteptr db saveoffset db.ptrval)

/-- `_db_dodelete` -/
def dbDodelete (db : Db) : Except Abort Db := do
  let db := { db with
    datbuf := List.replicate (db.datlen - 1) space, idxbuf := List.replicate db.idxbuf.length space }
  let db := dbWritedat db db.datbuf db.datoff .set
  let (freeptr, db) ← dbReadptr db freeOff
  let saveptr := db.ptrval
  let db ← dbWriteidx db db.idxbuf db.idxoff .set freeptr
  let db ← dbWriteptr db freeOff db.idxoff
  dbWriteptr db db.ptroff saveptr

/-! ## The library -/

/-- `db_fetch` -/
def dbFetch (db : Db) (key : List UInt8) : Except Abort (Option (List UInt8) × Db) := do
  let (found, db) ← dbFindAndLock db key
  if found then
    let (data, db) ← dbReaddat db
    return (some data, db)
  else return (none, db)

/-- `db_delete` -/
def dbDelete (db : Db) (key : List UInt8) : Except Abort (Int × Db) := do
  let (found, db) ← dbFindAndLock db key
  if found then return (0, ← dbDodelete db) else return (-1, db)

/-- New index and data records at the ends of the files, in front of the hash chain. -/
def dbAppend (db : Db) (key data : List UInt8) (ptrval : Int) : Except Abort Db := do
  let db := dbWritedat db data 0 .fin
  let db ← dbWriteidx db key 0 .fin ptrval
  dbWriteptr db db.chainoff db.idxoff

/-- `db_store` of a key that is not there: in a free record, or in new ones. -/
def dbStoreNew (db : Db) (key data : List UInt8) : Except Abort (Int × Db) := do
  let (ptrval, db) ← dbReadptr db db.chainoff
  let (reuse, db) ← dbFindfree db key.length (data.length + 1)
  if ¬ reuse then return (0, ← dbAppend db key data ptrval)
  let db := dbWritedat db data db.datoff .set
  let db ← dbWriteidx db key db.idxoff .set ptrval
  return (0, ← dbWriteptr db db.chainoff db.idxoff)

/-- `db_store` of a key whose data have another length: the record goes, and new ones come. -/
def dbStoreMoved (db : Db) (key data : List UInt8) : Except Abort (Int × Db) := do
  let db ← dbDodelete db
  let (ptrval, db) ← dbReadptr db db.chainoff
  return (0, ← dbAppend db key data ptrval)

/-- `db_store` -/
def dbStore (db : Db) (key data : List UInt8) (flag : Int) : Except Abort (Int × Db) := do
  if flag ≠ dbInsert ∧ flag ≠ dbReplace ∧ flag ≠ dbStoreFlag then return (-1, { db with errno := some .einval })
  if data.length + 1 < datlenMin ∨ data.length + 1 > datlenMax then
    throw (.errDump "db_store: invalid data length")
  let (found, db) ← dbFindAndLock db key
  if ¬ found then
    if flag = dbReplace then return (-1, { db with errno := some .enoent })
    dbStoreNew db key data
  else if flag = dbInsert then return (1, db)
  else if data.length + 1 ≠ db.datlen then dbStoreMoved db key data
  else return (0, dbWritedat db data db.datoff .set)

/-- `db_rewind` -/
def dbRewind (db : Db) : Db :=
  { db with idxpos := (nhashDef + 1) * ptrSz + 1, idxoff := (nhashDef + 1) * ptrSz + 1 }

/-- The loop of `db_nextrec`; a turn reads at least one byte. -/
def nextrecLoop : Nat → Db → Except Abort (Option (List UInt8 × List UInt8) × Db)
  | 0,        _  => throw .endless
  | fuel + 1, db => do
    let (ptr, db) ← dbReadidx db 0
    if ptr < 0 then return (none, db)
    else if db.idxbuf.all (· = space) then nextrecLoop fuel db
    else
      let key := db.idxbuf
      let (data, db) ← dbReaddat db
      return (some (key, data), db)

/-- `db_nextrec`: the key and the data of the next record. -/
def dbNextrec (db : Db) : Except Abort (Option (List UInt8 × List UInt8) × Db) :=
  nextrecLoop (db.idx.length + 1) db

/-- What `open` makes of a file, which may not be there. -/
def openFile (creat trunc : Bool) (file : Option (List UInt8)) : Option (List UInt8) :=
  match file with
  | none => if creat then some [] else none
  | some bytes => some (if trunc then [] else bytes)

/-- The free list pointer and the hash table of a new database. -/
def emptyTable : List UInt8 := (List.replicate (nhashDef + 1) (pad ptrSz 0)).flatten ++ [newline]

/-- `db_open` with the flags `O_CREAT` and `O_TRUNC`. -/
def dbOpen (creat trunc : Bool) (idx dat : Option (List UInt8)) : Option Db := do
  let idx ← openFile creat trunc idx
  let dat ← openFile creat trunc dat
  let idx := if (creat ∧ trunc) ∧ idx.length = 0 then emptyTable else idx
  return dbRewind
    { idx := idx, dat := dat, idxpos := 0, idxbuf := [], datbuf := [], idxoff := 0, idxlen := 0, datoff := 0
      datlen := 0, ptrval := 0, ptroff := 0, chainoff := 0, errno := none }

end ApueDb
