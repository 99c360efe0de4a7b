import ApueToyCodes.Printd.Queue

/-!
# `Printd.Correctness.Moves` — what the threads can do in a step

A step of a client thread or of the printer thread, whatever branch of the source it is, leaves nearly all of
the spool alone. `ClientMove` and `PrintMove` say what it touches and what it tells; no other proof opens
`clientStep` or `printJob` for a step of any kind.
-/

namespace Printd

variable {T : Type}

/-! ## Client threads -/

/-- The number a thread is at work on. -/
def Pc.uses : Pc → Option Nat
  | .idle | .header | .numbering _ => none
  | .creating id _ | .storing id _ _ _ | .creatingReq id _ _ | .writingReq id _ _ | .responding id _ _
  | .adding id _ | .unlinkingReq id | .unlinkingData id => some id

/-- The number and the document a thread has stored. -/
def Pc.stored : Pc → Option (Nat × List UInt8)
  | .storing id _ _ doc | .creatingReq id _ doc | .writingReq id _ doc | .responding id _ doc => some (id, doc)
  | _ => none

theorem Pc.uses_of_stored {pc : Pc} {id : Nat} {doc : List UInt8} (h : pc.stored = some (id, doc)) :
    pc.uses = some id := by
  cases pc with
  | storing | creatingReq | writingReq | responding =>
      exact congrArg some (Prod.mk.inj (Option.some.inj h)).1
  | _ => contradiction

/-- What a step of a client thread touches. -/
structure ClientMove (c c' : Spooler T) (t : T) (a : ClientAct) : Prop where
  main    : c'.main = c.main
  others  : ∀ t', t' ≠ t → c'.pc t' = c.pc t'
  files   : ∀ id, (c.pc t).uses ≠ some id → c'.data id = c.data id ∧ c'.reqs id = c.reqs id
  uses    : (c'.pc t).uses = none ∨ (c'.pc t).uses = (c.pc t).uses ∨
    a = .number ∧ (c'.pc t).uses = some c.nextjob
  data    : (∀ id doc, (c.pc t).stored = some (id, doc) → c.data id = some doc) →
    ∀ id doc, (c'.pc t).stored = some (id, doc) → c'.data id = some doc
  written : ∀ id req doc, c'.pc t = .responding id req doc → c'.reqs id = some (some req)
  before  : ∀ id req, c.pc t ≠ .adding id req
  told    : c'.out = c.out ∨ ∃ id req doc, c.pc t = .responding id req doc ∧ c'.pc t = .adding id req ∧
    c'.out = c.out ++ [.accepted id req doc] ∧ c'.data = c.data ∧ c'.reqs = c.reqs

theorem clientStep_move [DecidableEq T] {c c' : Spooler T} {t : T} {a : ClientAct}
    (h : c.clientStep t a = some c') : ClientMove c c' t a := by
  unfold Spooler.clientStep at h
  -- one case for each branch, and each result of the call in it
  split at h
  all_goals try split at h
  all_goals try split at h
  all_goals try contradiction
  all_goals
    cases h
    refine ⟨rfl, fun t' ht => Function.update_of_ne ht _ _, fun id hid => ?_, ?_, fun hdata id doc => ?_,
      fun id req doc => ?_, ?_, ?_⟩
  all_goals
    simp_all [Spooler.goto, Spooler.setData, Spooler.setReq, Spooler.tell, Spooler.newjobno, Pc.uses,
      Pc.stored]
  -- what is left are the files of other numbers, and the data file of this one
  all_goals first
    | exact Function.update_of_ne (fun heq => hid heq.symm) _ _
    | (rintro rfl rfl; exact hdata)
    | (rintro rfl rfl; exact ⟨_, hdata, by rw [List.take_take, Nat.min_self]⟩)

/-- What a call of `tread` leaves in `buf`. -/
structure Piece where
  buf  : List UInt8
  nr   : Nat
  pos  : 0 < nr
  room : nr ≤ buf.length
  size : buf.length = iobufsz

/-- What has come from the client. -/
def Piece.bytes (b : Piece) : List UInt8 := b.buf.take b.nr

/-- The piece is read, and written in full. -/
def Piece.act (b : Piece) : ClientAct := .chunk b.buf b.nr (some b.nr)

theorem clientStep_piece [DecidableEq T] {c : Spooler T} {t : T} {id : Nat} {req : PrintReq} {first : Bool}
    {doc : List UInt8} (b : Piece) (hpc : c.pc t = .storing id req first doc) :
    c.clientStep t b.act = some ((c.setData id ((c.data id).map (· ++ b.bytes))).goto t
      (.storing id (Spooler.sniffed first b.buf req) false (doc ++ b.bytes))) := by
  have htake : (b.buf.take b.nr).take b.nr = b.bytes := by
    rw [List.take_take, Nat.min_self]
    rfl
  unfold Spooler.clientStep Piece.act
  rw [hpc]
  dsimp only
  rw [if_pos ⟨b.pos, b.room, b.size⟩, if_pos rfl, Option.getD_some, htake]
  rfl

/-! ## The printer thread -/

/-- Whether the job stays with the printer thread or on the queue. -/
def Next.waits : Next → Bool
  | .stage st => st.waits
  | .free     => false
  | .replace  => true

/-- What a step of the printer thread touches. -/
structure PrintMove (c c' : Spooler T) (e : Entry) (st : Stage) (n : Next) : Prop where
  main  : c'.main = c.main
  pc    : c'.pc = c.pc
  files : ∀ id, (id = e.id → st.waits = true) → c'.data id = c.data id ∧ c'.reqs id = c.reqs id
  told  : (c'.out = c.out ∧ n.waits = st.waits) ∨ st.waits = true ∧
    ((c'.out = c.out ++ [.canceled e.id] ∧ n = .free) ∨
      (c'.out = c.out ++ [.printed e.id e.req ((c.data e.id).getD [])] ∧ n.waits = false))

theorem printJob_move {c c' : Spooler T} {e : Entry} {st : Stage} {a : PrinterAct} {n : Next}
    (h : printJob c e.id e.req st a = some (c', n)) : PrintMove c c' e st n := by
  unfold printJob at h
  split at h
  case h_1 =>
    cases h
    exact ⟨rfl, rfl, fun _ _ => ⟨rfl, rfl⟩, Or.inl ⟨rfl, rfl⟩⟩
  case h_2 =>
    split at h
    · cases h
      exact ⟨rfl, rfl, fun _ _ => ⟨rfl, rfl⟩, Or.inl ⟨rfl, rfl⟩⟩
    · cases h
      exact ⟨rfl, rfl, fun _ _ => ⟨rfl, rfl⟩, Or.inr ⟨rfl, Or.inl ⟨rfl, rfl⟩⟩⟩
  case h_3 =>
    split at h
    · cases h
      exact ⟨rfl, rfl, fun _ _ => ⟨rfl, rfl⟩, Or.inr ⟨rfl, Or.inr ⟨rfl, rfl⟩⟩⟩
    · cases h
      exact ⟨rfl, rfl, fun _ _ => ⟨rfl, rfl⟩, Or.inl ⟨rfl, rfl⟩⟩
  case h_4 =>
    cases h
    refine ⟨rfl, rfl, fun id hid => ⟨?_, rfl⟩, Or.inl ⟨rfl, rfl⟩⟩
    exact Function.update_of_ne (fun heq => Bool.noConfusion (hid heq)) _ _
  case h_5 =>
    cases h
    refine ⟨rfl, rfl, fun id hid => ⟨rfl, ?_⟩, Or.inl ⟨rfl, rfl⟩⟩
    exact Function.update_of_ne (fun heq => Bool.noConfusion (hid heq)) _ _
  case h_6 =>
    cases h
    exact ⟨rfl, rfl, fun _ _ => ⟨rfl, rfl⟩, Or.inl ⟨rfl, rfl⟩⟩
  case h_7 => contradiction

end Printd
