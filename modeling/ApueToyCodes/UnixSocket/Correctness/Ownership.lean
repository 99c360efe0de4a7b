import ApueToyCodes.UnixSocket.Sockets

/-!
# `UnixSocket.Correctness.Ownership` — who owns the descriptors of the socket helpers

A helper that succeeds hands its caller the one descriptor it created; one that fails has closed it. That
holds of `serv_listen` and `cli_conn` at every exit. In `serv_accept` the comparison binds tighter than the
assignment, `newfd=accept(...)<0`: what it returns, and what it closes at `ERROR`, is descriptor 0, and the
connection stays open without an owner.
-/

namespace UnixSocket
open FdTrace (Disposed Kept disposed_nil disposed_closed kept_created)
open OpenServer (ascii)

variable {s : Finset Int} {fd : Int} {name : List UInt8}

/-- What a helper is to do with descriptors: a value from 0 on is the descriptor it created and left open,
    the only new one; below 0, all it created are closed, and no other. -/
structure Owned (s : Finset Int) (r : Result) : Prop where
  success : 0 ≤ r.ret → Kept s (fdEvents r.events) r.ret
  failure : r.ret < 0 → Disposed s (fdEvents r.events)

theorem Owned.of_kept {es : List Event} (h0 : 0 ≤ fd) (h : Kept s (fdEvents es) fd) : Owned s ⟨fd, es⟩ :=
  ⟨fun _ => h, fun hneg => absurd h0 (Int.not_le.mpr hneg)⟩

theorem Owned.of_disposed {es : List Event} {rval : Int} (hneg : rval < 0) (h : Disposed s (fdEvents es)) :
    Owned s ⟨rval, es⟩ :=
  ⟨fun h0 => absurd h0 (Int.not_le.mpr hneg), fun _ => h⟩

/-- The events after the call of `bind`, and whether it succeeded. -/
def afterBind : List Event → Option (Bool × List Event)
  | []              => none
  | .bind _ ok :: es => some (ok, es)
  | .fd _ :: es     => afterBind es
  | .malloc :: es   => afterBind es
  | .free :: es     => afterBind es
  | .unlink _ :: es => afterBind es

/-- After a `bind` that has succeeded the path is unlinked, after one that has failed it is not; and without
    one there is nothing to unlink. -/
structure UnlinksBound (path : List UInt8) (es : List Event) : Prop where
  bound   : ∀ ok post, afterBind es = some (ok, post) → (.unlink path ∈ post ↔ ok = true)
  unbound : afterBind es = none → .unlink path ∉ es

/-- A number the kernel may give a new descriptor. -/
def NewFd (s : Finset Int) (fd : Int) : Prop := 0 ≤ fd ∧ fd ∉ s

/-! ## serv_listen, cli_conn -/

theorem servListen_owned {o : ListenCalls} (h : ∀ fd, o.socket = some fd → NewFd s fd) :
    Owned s (servListen name o) := by
  unfold servListen
  by_cases hlong : name.length ≥ sunPath
  · rw [if_pos hlong]
    exact .of_disposed (by decide) (disposed_nil s)
  · rw [if_neg hlong]
    cases hs : o.socket with
    | none => exact .of_disposed (by decide) (disposed_nil s)
    | some fd =>
        obtain ⟨h0, hnew⟩ := h fd hs
        dsimp only
        split
        · exact .of_disposed (by decide) (disposed_closed hnew)
        · split
          · exact .of_disposed (by decide) (disposed_closed hnew)
          · exact .of_kept h0 (kept_created hnew)

theorem cliConn_owned {o : ConnCalls} (h : ∀ fd, o.socket = some fd → NewFd s fd) :
    Owned s (cliConn name o) := by
  unfold cliConn
  by_cases hlong : name.length ≥ sunPath
  · rw [if_pos hlong]
    exact .of_disposed (by decide) (disposed_nil s)
  · rw [if_neg hlong]
    cases hs : o.socket with
    | none => exact .of_disposed (by decide) (disposed_nil s)
    | some fd =>
        obtain ⟨h0, hnew⟩ := h fd hs
        dsimp only
        split
        · exact .of_disposed (by decide) (disposed_closed hnew)
        · split
          · exact .of_disposed (by decide) (disposed_closed hnew)
          · split
            · exact .of_disposed (by decide) (disposed_closed hnew)
            · exact .of_kept h0 (kept_created hnew)

theorem unlinksBound_nil (path : List UInt8) : UnlinksBound path [] :=
  ⟨fun _ _ h => (nomatch h), fun _ => List.not_mem_nil⟩

/-- The exits behind the call of `bind`. -/
theorem unlinksBound_closed (fd : Int) (path : List UInt8) (ok : Bool) :
    UnlinksBound path (created fd :: .unlink path :: .bind path ok :: closed fd ::
      if ok then [.unlink path] else []) := by
  constructor
  · intro _ post h
    obtain ⟨rfl, rfl⟩ := Prod.mk.inj (Option.some.inj h)
    cases ok with
    | true => simp
    | false => simp
  · exact fun h => nomatch h

theorem cliConn_unlinks {o : ConnCalls} (h : ∀ fd, o.socket = some fd → NewFd s fd)
    (hneg : (cliConn name o).ret < 0) : UnlinksBound (ownPath o.pid) (cliConn name o).events := by
  unfold cliConn at hneg ⊢
  by_cases hlong : name.length ≥ sunPath
  · rw [if_pos hlong]
    exact unlinksBound_nil _
  · rw [if_neg hlong] at hneg ⊢
    cases hs : o.socket with
    | none => exact unlinksBound_nil _
    | some fd =>
        rw [hs] at hneg
        dsimp only at hneg ⊢
        by_cases hbind : o.bind = false
        · rw [if_pos hbind]
          exact unlinksBound_closed fd _ false
        · rw [if_neg hbind] at hneg ⊢
          by_cases hchmod : o.chmod = false
          · rw [if_pos hchmod]
            exact unlinksBound_closed fd _ true
          · rw [if_neg hchmod] at hneg ⊢
            by_cases hconnect : o.connect = false
            · rw [if_pos hconnect]
              exact unlinksBound_closed fd _ true
            · rw [if_neg hconnect] at hneg
              exact absurd (h fd hs).1 (Int.not_le.mpr hneg)

/-! ## serv_accept -/

/-- What `serv_accept` does once a connection is accepted: it returns 0, or closes 0 and returns less. -/
theorem servAccept_accepted {o : AcceptCalls} (hm : o.malloc = true) (ha : o.accept = some (fd, name)) :
    .free ∈ (servAccept o).1.events ∧
    (((servAccept o).1.ret = 0 ∧ fdEvents (servAccept o).1.events = [.created fd]) ∨
      ((servAccept o).1.ret < 0 ∧ fdEvents (servAccept o).1.events = [.created fd, .closed 0])) := by
  unfold servAccept
  rw [if_neg (by rw [hm]; decide), ha]
  dsimp only
  have herror : ∀ rval : Int, rval < 0 →
      .free ∈ (acceptError rval 0 [.malloc, created fd]).events ∧
      ((rval = 0 ∧ fdEvents (acceptError rval 0 [.malloc, created fd]).events = [.created fd]) ∨
        (rval < 0 ∧ fdEvents (acceptError rval 0 [.malloc, created fd]).events
          = [.created fd, .closed 0])) := by
    intro rval hneg
    refine ⟨?_, Or.inr ⟨hneg, rfl⟩⟩
    simp [acceptError]
  cases o.stat with
  | none => exact herror _ (by decide)
  | some statbuf =>
      dsimp only
      split
      · exact herror _ (by decide)
      · split
        · exact herror _ (by decide)
        · split
          · exact herror _ (by decide)
          · refine ⟨?_, Or.inl ⟨rfl, rfl⟩⟩
            simp

/-- What `serv_accept` is to do: with its descriptors, and with its name buffer. -/
structure AcceptOwned (s : Finset Int) (r : Result) : Prop where
  owned : Owned s r
  freed : r.ret < 0 → .malloc ∈ r.events → .free ∈ r.events

/-- **A connection accepted** is owned only on descriptor 0. -/
theorem servAccept_owned_accepted {o : AcceptCalls} (hm : o.malloc = true) (ha : o.accept = some (fd, name))
    (hnew : fd ∉ s) : AcceptOwned s (servAccept o).1 ↔ fd = 0 := by
  obtain ⟨hfree, hends⟩ := servAccept_accepted hm ha
  constructor
  · rintro ⟨hown, _⟩
    rcases hends with ⟨hret, hes⟩ | ⟨hret, hes⟩
    · have hkept := hown.success (Int.le_of_eq hret.symm)
      rw [hret, hes] at hkept
      exact (FdTrace.Event.created.inj (List.mem_singleton.mp hkept.created)).symm
    · have hdisposed := hown.failure hret
      rw [hes] at hdisposed
      simpa using hdisposed.closed fd List.mem_cons_self
  · rintro rfl
    refine ⟨?_, fun _ _ => hfree⟩
    rcases hends with ⟨hret, hes⟩ | ⟨hret, hes⟩
    · constructor
      · intro _
        rw [hret, hes]
        exact kept_created hnew
      · intro hneg
        rw [hret] at hneg
        exact absurd hneg (by decide)
    · constructor
      · exact fun hpos => absurd hret (Int.not_lt.mpr hpos)
      · intro _
        rw [hes]
        exact disposed_closed hnew

/-- **`serv_accept` owns its connection** only where it gets descriptor 0, or gets none. -/
theorem servAccept_owned_iff {o : AcceptCalls} (h : ∀ fd name, o.accept = some (fd, name) → NewFd s fd) :
    AcceptOwned s (servAccept o).1 ↔
      o.malloc = false ∨ o.accept = none ∨ ∃ name, o.accept = some (0, name) := by
  by_cases hm : o.malloc = false
  · refine ⟨fun _ => Or.inl hm, fun _ => ?_⟩
    unfold servAccept
    rw [if_pos hm]
    exact ⟨.of_disposed (by decide) (disposed_nil s), fun _ hmem => absurd hmem List.not_mem_nil⟩
  · cases ha : o.accept with
    | none =>
        refine ⟨fun _ => Or.inr (Or.inl rfl), fun _ => ?_⟩
        unfold servAccept
        rw [if_neg hm, ha]
        exact ⟨.of_disposed (by decide) (disposed_nil s), fun _ _ => by simp⟩
    | some conn =>
        obtain ⟨fd, name⟩ := conn
        rw [servAccept_owned_accepted (Bool.not_eq_false _ ▸ hm) ha (h fd name ha).2]
        constructor
        · rintro rfl
          exact Or.inr (Or.inr ⟨name, rfl⟩)
        · rintro (hm' | hno | ⟨name', heq⟩)
          · exact absurd hm' hm
          · contradiction
          · exact (Prod.mk.inj (Option.some.inj heq)).1

/-! ## The three helpers -/

/-- What the helpers are to do with descriptors, with the name buffer and with the path of the client's
    end. -/
structure OwnsDescriptors (s : Finset Int) (name : List UInt8) (lo : ListenCalls) (ao : AcceptCalls)
    (co : ConnCalls) : Prop where
  listen  : Owned s (servListen name lo)
  accept  : AcceptOwned s (servAccept ao).1
  conn    : Owned s (cliConn name co)
  unlinks : (cliConn name co).ret < 0 → UnlinksBound (ownPath co.pid) (cliConn name co).events

/-- **The helpers own their descriptors** for all outcomes of their calls, but for a connection `serv_accept`
    accepts on another descriptor than 0. -/
theorem socket_ownership_iff {s : Finset Int} {name : List UInt8} {lo : ListenCalls} {ao : AcceptCalls}
    {co : ConnCalls} (hl : ∀ fd, lo.socket = some fd → NewFd s fd)
    (ha : ∀ fd peer, ao.accept = some (fd, peer) → NewFd s fd)
    (hc : ∀ fd, co.socket = some fd → NewFd s fd) :
    OwnsDescriptors s name lo ao co ↔
      ao.malloc = false ∨ ao.accept = none ∨ ∃ peer, ao.accept = some (0, peer) := by
  rw [← servAccept_owned_iff ha]
  constructor
  · exact fun h => h.accept
  · exact fun h => ⟨servListen_owned hl, h, cliConn_owned hc, cliConn_unlinks hc⟩

/-- A socket as `serv_accept` wants it. -/
def freshSocket : Stat where
  mode := 0o140700
  ctime := 100
  mtime := 100
  atime := 100
  uid := 1000

/-- A process without a standard input, whose connections get descriptor 0. -/
theorem socket_ownership_iff_zero :
    OwnsDescriptors {1, 2, 3} (ascii "s") ⟨some 4, true, true⟩ ⟨true, some (0, ascii "c"), some freshSocket, 100⟩
      ⟨77, some 4, true, true, false⟩ := by
  apply (socket_ownership_iff ?_ ?_ ?_).mpr
  · exact Or.inr (Or.inr ⟨ascii "c", rfl⟩)
  · intro fd h
    obtain rfl := Option.some.inj h
    exact ⟨by decide, by decide⟩
  · intro fd peer h
    obtain ⟨rfl, _⟩ := Prod.mk.inj (Option.some.inj h)
    exact ⟨by decide, by decide⟩
  · intro fd h
    obtain rfl := Option.some.inj h
    exact ⟨by decide, by decide⟩

/-- A connection accepted on descriptor 4: `serv_accept` returns 0. -/
theorem serv_accept_returns_zero :
    (servAccept ⟨true, some (4, ascii "c"), some freshSocket, 100⟩).1
      = ⟨0, [.malloc, created 4, .unlink (ascii "c"), .free]⟩ ∧
    ¬ Owned {0, 1, 2, 3} (servAccept ⟨true, some (4, ascii "c"), some freshSocket, 100⟩).1 := by
  have heq : (servAccept ⟨true, some (4, ascii "c"), some freshSocket, 100⟩).1
      = ⟨0, [.malloc, created 4, .unlink (ascii "c"), .free]⟩ := by rfl
  refine ⟨heq, fun hown => ?_⟩
  rw [heq] at hown
  have hkept := hown.success (by decide)
  exact absurd hkept.created (by decide)

end UnixSocket
