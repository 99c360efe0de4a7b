import Mathlib.Data.Finset.Insert
import Mathlib.Data.Finset.Erase
import ApueToyCodes.Lib.Runs
import ApueToyCodes.SelectLoop.Clients

/-!
# `SelectLoop.Loop` — the loop of the multi-client server of `lab_2` (test1.c)

One turn of the `while(1)` of `loop`: `select`, then either one connection is accepted or the ready clients
are read. The state has the local variables of `loop` and the client table; what the system calls return is
an `Event`. `conns` is not in the source: it records the connections accepted and not yet closed, with the
uid `serv_accept` gave for them.

`handler_request` changes none of this state and is left out, as is what `serv_accept` does inside: the
event holds its result. A turn that ends the process is `none`.
-/

namespace SelectLoop

/-- The variables of `loop`, the client table, and the open connections. -/
structure State where
  listenfd : Int
  client   : Option (List Client)
  allset   : Finset Int
  maxfd    : Int
  maxi     : Int
  conns    : List (Int × Nat)

/-- What the system calls of one turn return: the descriptors `select` reports, the descriptor and uid of
    `serv_accept` (`none` is an error), whether memory can be had, and the results of `read`. -/
structure Event where
  ready    : Finset Int
  accepted : Option (Int × Nat)
  mem      : Bool
  nread    : Int → Int

/-- The state at the first head of the loop. -/
def initial (listenfd : Int) : State where
  listenfd := listenfd
  client := none
  allset := {listenfd}
  maxfd := listenfd
  maxi := -1
  conns := []

/-- A connection is ready to be accepted. -/
def accept (s : State) (e : Event) : Option State :=
  match e.accepted with
  | none => none
  | some (newfd, uid) =>
    if newfd < 0 then none
    else
      -- the source passes `listenfd`, not `newfd`
      match clientAdd e.mem s.listenfd uid s.client with
      | none => none
      | some (i, client) =>
        some { s with
          client := some client
          allset := insert newfd s.allset
          maxfd := if newfd > s.maxfd then newfd else s.maxfd
          maxi := if (i : Int) > s.maxi then i else s.maxi
          conns := (newfd, uid) :: s.conns }

/-- The body of the `for` loop over the clients, for slot `i`. -/
def serveSlot (e : Event) (i : Nat) (s : State) : Option State :=
  match (s.client.getD [])[i]? with
  | none => none
  | some c =>
    if c.fd < 0 then some s
    else if c.fd ∈ e.ready then
      if e.nread c.fd < 0 then none
      else if e.nread c.fd = 0 then
        -- end of file: the connection is closed
        match clientDel c.fd (s.client.getD []) with
        | none => none
        | some client =>
          some { s with
            client := some client
            allset := s.allset.erase c.fd
            conns := s.conns.filter fun x => x.1 ≠ c.fd }
      else some s -- `handler_request`
    else some s

/-- The `for` loop over the slots `is`. -/
def serveSlots (e : Event) : List Nat → State → Option State
  | [],      s => some s
  | i :: is, s => (serveSlot e i s).bind (serveSlots e is)

/-- One turn of the loop. -/
def turn (s : State) (e : Event) : Option State :=
  if s.listenfd ∈ e.ready then accept s e
  else serveSlots e (List.range (s.maxi + 1).toNat) s

/-- An event that can happen: `select` reports members of `allset`, and an accepted connection gets a
    descriptor that is not open. -/
def Event.Possible (e : Event) (s : State) : Prop :=
  e.ready ⊆ s.allset ∧ ∀ newfd uid, e.accepted = some (newfd, uid) →
    newfd ≠ s.listenfd ∧ ∀ x ∈ s.conns, x.1 ≠ newfd

/-- A turn from one head of the loop to the next. -/
def Turn (s : State) (e : Event) (s' : State) : Prop := e.Possible s ∧ turn s e = some s'

/-! ## The bookkeeping -/

/-- The slots `client[0..maxi]`. -/
def State.used (s : State) : List Client := (s.client.getD []).take (s.maxi + 1).toNat

/-- **The bookkeeping is right**: the used slots with a non-negative `fd` are the open connections, each
    once and with its uid; the slots above hold -1; `allset` is the listening descriptor and the
    connections; `maxfd` bounds it. -/
structure Bookkeeping (s : State) : Prop where
  table  : ((s.used.filter fun c => 0 ≤ c.fd).map fun c => (c.fd, c.uid)).Perm
    (s.conns.map fun x => (x.1, some x.2))
  once   : (s.conns.map Prod.fst).Nodup
  above  : ∀ c ∈ (s.client.getD []).drop (s.maxi + 1).toNat, c.fd = -1
  allset : ∀ fd, fd ∈ s.allset ↔ fd = s.listenfd ∨ fd ∈ s.conns.map Prod.fst
  maxfd  : ∀ fd ∈ s.allset, fd ≤ s.maxfd

end SelectLoop
