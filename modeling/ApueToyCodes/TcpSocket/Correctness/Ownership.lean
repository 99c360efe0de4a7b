import Mathlib.Algebra.Group.Nat.Defs
import ApueToyCodes.TcpSocket.Helpers

/-!
# `TcpSocket.Correctness.Ownership` — who owns the sockets of the TCP helpers

A helper is to hand its caller the socket it has connected, or made a server's, and to close every other
one it has created; and it is to touch no descriptor but the socket of the turn it is in. As neither helper
has its socket in `fd`, that holds only where `fd` has the number of the socket by chance: in `connect_retry`
the number it happened to hold, in `initservice` 0.
-/

namespace TcpSocket
open FdTrace (Disposed Kept disposed_nil disposed_closed kept_created)

variable {s : Finset Int} {o : Nat → Attempt} {fd : Int} {k : Nat} {es : List Event}

/-- Every descriptor used is the one created last; `cur` is that before the events. -/
def UsesOwn : Option Int → List Event → Prop
  | _,   []                     => True
  | _,   .fd (.created fd) :: es => UsesOwn (some fd) es
  | cur, .fd (.closed fd) :: es  => cur = some fd ∧ UsesOwn cur es
  | cur, .connect fd _ :: es     => cur = some fd ∧ UsesOwn cur es
  | cur, .bind fd _ :: es        => cur = some fd ∧ UsesOwn cur es
  | cur, .listen fd _ :: es      => cur = some fd ∧ UsesOwn cur es
  | cur, .sleep _ :: es          => UsesOwn cur es

/-- What a helper is to do: it uses only the socket of its turn; where it returns -1, all it created are
    closed, and no other; else it returns the one it has left open, which is `ready`. -/
structure Owned (s : Finset Int) (ready : Int → List Event → Prop) (r : Result) : Prop where
  own     : UsesOwn none r.events
  failure : r.ret = -1 → Disposed s (fdEvents r.events)
  success : r.ret ≠ -1 → Kept s (fdEvents r.events) r.ret ∧ ready r.ret r.events

theorem Owned.of_disposed {ready : Int → List Event → Prop} (hown : UsesOwn none es)
    (h : Disposed s (fdEvents es)) : Owned s ready ⟨-1, es⟩ :=
  ⟨hown, fun _ => h, fun hne => absurd rfl hne⟩

theorem Owned.of_kept {ready : Int → List Event → Prop} (hown : UsesOwn none es) (h0 : 0 ≤ fd)
    (h : Kept s (fdEvents es) fd) (hready : ready fd es) : Owned s ready ⟨fd, es⟩ := by
  refine ⟨hown, fun hneg => ?_, fun _ => ⟨h, hready⟩⟩
  dsimp only at hneg
  omega

/-- A number the kernel may give a new socket. -/
def NewFd (s : Finset Int) (fd : Int) : Prop := 0 ≤ fd ∧ fd ∉ s

/-! ## connect_retry -/

/-- The descriptor is connected. -/
def Connected (fd : Int) (es : List Event) : Prop := .connect fd true ∈ es

/-- From turn `k` on the loop comes to turn `n`. -/
def Attempted (o : Nat → Attempt) (k n : Nat) : Prop :=
  k ≤ n ∧ n < 8 ∧ ∀ i, k ≤ i → i < n → (o i).socket ≠ none ∧ (o i).connect = false

/-- Every socket created from turn `k` on has the number `fd`. -/
def AllNumbered (o : Nat → Attempt) (fd : Int) (k : Nat) : Prop :=
  ∀ n q, Attempted o k n → (o n).socket = some q → q = fd

theorem attempted_self (hk : k < 8) : Attempted o k k :=
  ⟨Nat.le_refl k, hk, fun _ h1 h2 => absurd h2 (Nat.not_lt.mpr h1)⟩

theorem Attempted.of_succ {n : Nat} (hsocket : (o k).socket ≠ none) (hconnect : (o k).connect = false)
    (h : Attempted o (k + 1) n) : Attempted o k n := by
  obtain ⟨hle, hn, hall⟩ := h
  refine ⟨by omega, hn, ?_⟩
  intro i hki hin
  by_cases hik : i = k
  · subst hik
    exact ⟨hsocket, hconnect⟩
  · exact hall i (by omega) hin

/-- The loop comes to a later turn only over a socket of its own that does not get a connection. -/
theorem Attempted.cases {n : Nat} (h : Attempted o k n) :
    n = k ∨ (o k).socket ≠ none ∧ (o k).connect = false ∧ Attempted o (k + 1) n := by
  obtain ⟨hle, hn, hall⟩ := h
  rcases Nat.eq_or_lt_of_le hle with heq | hlt
  · exact Or.inl heq.symm
  · obtain ⟨hsocket, hconnect⟩ := hall k (Nat.le_refl k) hlt
    exact Or.inr ⟨hsocket, hconnect, hlt, hn, fun i h1 h2 => hall i (by omega) h2⟩

theorem allNumbered_end (hk : 8 ≤ k) : AllNumbered o fd k := by
  rintro n q ⟨hle, hn, _⟩
  omega

theorem allNumbered_no_socket (hsocket : (o k).socket = none) : AllNumbered o fd k := by
  intro n q hn hq
  rcases hn.cases with rfl | ⟨hsome, _⟩
  · rw [hsocket] at hq
    contradiction
  · exact absurd hsocket hsome

theorem allNumbered_connected {q : Int} (hk : k < 8) (hsocket : (o k).socket = some q)
    (hconnect : (o k).connect = true) : AllNumbered o fd k ↔ q = fd := by
  constructor
  · exact fun h => h k q (attempted_self hk) hsocket
  · rintro rfl n q' hn hq'
    rcases hn.cases with rfl | ⟨_, hfails, _⟩
    · exact (Option.some.inj (hsocket.symm.trans hq')).symm
    · rw [hconnect] at hfails
      contradiction

theorem allNumbered_turn {q : Int} (hk : k < 8) (hsocket : (o k).socket = some q)
    (hconnect : (o k).connect = false) : AllNumbered o fd k ↔ q = fd ∧ AllNumbered o fd (k + 1) := by
  constructor
  · intro h
    refine ⟨h k q (attempted_self hk) hsocket, ?_⟩
    intro n q' hn
    exact h n q' (hn.of_succ (by rw [hsocket]; exact Option.some_ne_none q) hconnect)
  · rintro ⟨rfl, h⟩ n q' hn hq'
    rcases hn.cases with rfl | ⟨_, _, hrest⟩
    · exact (Option.some.inj (hsocket.symm.trans hq')).symm
    · exact h n q' hrest hq'

/-- A turn that does not get a connection, behind it the other ones. -/
theorem usesOwn_turn {q : Int} {pause : List Event} (cur : Option Int)
    (hpause : pause = [] ∨ ∃ secs, pause = [.sleep secs]) :
    UsesOwn cur (created q :: .connect fd false :: pause ++ closed fd :: es) ↔
      q = fd ∧ UsesOwn (some q) es := by
  have hcur : some q = some fd ↔ q = fd := Option.some_inj
  rcases hpause with rfl | ⟨secs, rfl⟩
  · show some q = some fd ∧ some q = some fd ∧ UsesOwn (some q) es ↔ _
    rw [hcur, and_self_left]
  · show some q = some fd ∧ some q = some fd ∧ UsesOwn (some q) es ↔ _
    rw [hcur, and_self_left]

theorem fdEvents_turn {q : Int} {pause : List Event} (hpause : pause = [] ∨ ∃ secs, pause = [.sleep secs]) :
    fdEvents (created q :: .connect fd false :: pause ++ closed fd :: es)
      = [.created q, .closed fd] ++ fdEvents es := by
  rcases hpause with rfl | ⟨secs, rfl⟩
  · rfl
  · rfl

/-- A turn on a socket of its own in front of a call that does as it should. -/
theorem Owned.turn {r : Result} {pause : List Event}
    (hpause : pause = [] ∨ ∃ secs, pause = [.sleep secs])
    (hfd : fd ∉ s) (hown : UsesOwn (some fd) r.events) (h : Owned s Connected r) :
    Owned s Connected ⟨r.ret, created fd :: .connect fd false :: pause ++ closed fd :: r.events⟩ := by
  refine ⟨(usesOwn_turn none hpause).mpr ⟨rfl, hown⟩, ?_, ?_⟩
  · intro hret
    rw [fdEvents_turn hpause]
    exact (disposed_closed hfd).append (h.failure hret)
  · intro hret
    obtain ⟨hkept, hconnected⟩ := h.success hret
    refine ⟨?_, ?_⟩
    · rw [fdEvents_turn hpause]
      exact (disposed_closed hfd).kept hkept
    · apply List.mem_append_right
      exact List.mem_cons_of_mem _ hconnected

/-- A turn that gets a connection. -/
theorem usesOwn_connected {q : Int} (cur : Option Int) :
    UsesOwn cur [created q, .connect fd true] ↔ q = fd := by
  show some q = some fd ∧ True ↔ q = fd
  rw [and_true, Option.some_inj]

theorem Owned.connected (hnew : NewFd s fd) : Owned s Connected ⟨fd, [created fd, .connect fd true]⟩ :=
  .of_kept ⟨rfl, trivial⟩ hnew.1 (kept_created hnew.2) (List.mem_cons_of_mem _ List.mem_cons_self)

/-- **The loop of `connect_retry`** ends. It uses its own sockets exactly where all of them have the number in
    `fd`, and then does as it should. -/
theorem connectLoop_spec (o : Nat → Attempt) (fd : Int) (fuel : Nat) : ∀ k, k + fuel = 9 → k ≤ 8 →
    ∃ r, connectLoop o fd fuel k (2 ^ k) = some r ∧ (∀ cur, UsesOwn cur r.events ↔ AllNumbered o fd k) ∧
      (AllNumbered o fd k → (∀ n q, Attempted o k n → (o n).socket = some q → NewFd s q) →
        Owned s Connected r) := by
  induction fuel with
  | zero =>
      intro k hk hle
      omega
  | succ fuel ih =>
      intro k hk hle
      have hnumsec : 2 ^ k ≤ numsecMax ↔ k < 8 := by
        rw [show numsecMax = 2 ^ 7 from rfl, Nat.pow_le_pow_iff_right (by decide)]
        omega
      have hnil : ∀ ready, Owned s ready ⟨-1, []⟩ := fun _ => .of_disposed trivial (disposed_nil s)
      rw [connectLoop]
      by_cases hturn : k < 8
      · rw [if_pos (hnumsec.mpr hturn)]
        cases hsocket : (o k).socket with
        | none =>
            have hall : AllNumbered o fd k := allNumbered_no_socket hsocket
            exact ⟨_, rfl, fun _ => iff_of_true trivial hall, fun _ _ => hnil Connected⟩
        | some q =>
            dsimp only
            cases hconnect : (o k).connect with
            | true =>
                have hall : AllNumbered o fd k ↔ q = fd := allNumbered_connected hturn hsocket hconnect
                refine ⟨_, rfl, fun cur => ?_, fun h hnew => ?_⟩
                · rw [hall, usesOwn_connected]
                · obtain rfl := hall.mp h
                  exact .connected (hnew k q (attempted_self hturn) hsocket)
            | false =>
                have hall : AllNumbered o fd k ↔ q = fd ∧ AllNumbered o fd (k + 1) :=
                  allNumbered_turn hturn hsocket hconnect
                obtain ⟨r, hr, huses, howned⟩ := ih (k + 1) (by omega) (by omega)
                generalize hp : (if 2 ^ k ≤ numsecMax / 2 then [Event.sleep (2 ^ k)] else []) = pause
                have hpause : pause = [] ∨ ∃ secs, pause = [.sleep secs] := by
                  rw [← hp]
                  split
                  · exact Or.inr ⟨_, rfl⟩
                  · exact Or.inl rfl
                rw [← Nat.pow_succ, hr]
                refine ⟨_, rfl, fun cur => ?_, fun h hnew => ?_⟩
                · rw [hall, usesOwn_turn cur hpause, huses]
                · obtain ⟨rfl, hrest⟩ := hall.mp h
                  obtain ⟨_, hfresh⟩ := hnew k q (attempted_self hturn) hsocket
                  refine (howned hrest ?_).turn hpause hfresh ((huses _).mpr hrest)
                  exact fun n q' hn hq' =>
                    hnew n q' (hn.of_succ (by rw [hsocket]; exact Option.some_ne_none q) hconnect) hq'
      · rw [if_neg (fun h => hturn (hnumsec.mp h))]
        have hall : AllNumbered o fd k := allNumbered_end (Nat.le_of_not_lt hturn)
        exact ⟨_, rfl, fun _ => iff_of_true trivial hall, fun _ _ => hnil Connected⟩

/-- **`connect_retry` owns its sockets** exactly where each has the number that `fd` happens to hold. -/
theorem connectRetry_owned_iff (hnew : ∀ n q, Attempted o 0 n → (o n).socket = some q → NewFd s q) :
    (∃ r, connectRetry o fd = some r ∧ Owned s Connected r) ↔ AllNumbered o fd 0 := by
  obtain ⟨r, hr, huses, howned⟩ := connectLoop_spec (s := s) o fd 9 0 rfl (Nat.zero_le 8)
  constructor
  · rintro ⟨r', hr', h⟩
    obtain rfl := Option.some.inj (hr.symm.trans hr')
    exact (huses none).mp h.own
  · exact fun h => ⟨r, hr, howned h hnew⟩

/-! ## initservice -/

/-- The descriptor is bound, and one of a stream type is listening. -/
def Served (type : Int) (fd : Int) (es : List Event) : Prop :=
  .bind fd true ∈ es ∧ (type = sockStream ∨ type = sockSeqpacket → .listen fd true ∈ es)

/-- **`initservice` owns its socket** only where it gets descriptor 0, or gets none. -/
theorem initservice_owned_iff {type : Int} {c : ServiceCalls} (hnew : ∀ q, c.socket = some q → NewFd s q) :
    Owned s (Served type) (initservice type c) ↔ c.socket = none ∨ c.socket = some 0 := by
  unfold initservice
  cases hsocket : c.socket with
  | none => exact iff_of_true (.of_disposed trivial (disposed_nil s)) (Or.inl rfl)
  | some q =>
      have hzero : some q = none ∨ some q = some (0 : Int) ↔ some q = some (0 : Int) :=
        or_iff_right (Option.some_ne_none q)
      rw [hzero]
      dsimp only
      constructor
      · -- the first use in every branch is that of `bind`
        intro h
        have hown := h.own
        split at hown
        · exact hown.1
        · split at hown
          · split at hown
            · exact hown.1
            · exact hown.1
          · exact hown.1
      · intro hq
        obtain rfl := Option.some.inj hq
        obtain ⟨h0, hfresh⟩ := hnew 0 hsocket
        split
        · exact .of_disposed ⟨rfl, rfl, trivial⟩ (disposed_closed hfresh)
        · split
          · split
            · exact .of_disposed ⟨rfl, rfl, rfl, trivial⟩ (disposed_closed hfresh)
            · refine .of_kept ⟨rfl, rfl, trivial⟩ h0 (kept_created hfresh) ⟨?_, fun _ => ?_⟩
              · exact List.mem_cons_of_mem _ List.mem_cons_self
              · exact List.mem_cons_of_mem _ (List.mem_cons_of_mem _ List.mem_cons_self)
          · refine .of_kept ⟨rfl, trivial⟩ h0 (kept_created hfresh) ⟨?_, fun htype => ?_⟩
            · exact List.mem_cons_of_mem _ List.mem_cons_self
            · contradiction

/-! ## The two helpers -/

/-- What the two helpers are to do with the sockets they create. -/
structure OwnsSockets (s : Finset Int) (o : Nat → Attempt) (fd : Int) (type : Int) (c : ServiceCalls) :
    Prop where
  connect : ∃ r, connectRetry o fd = some r ∧ Owned s Connected r
  service : Owned s (Served type) (initservice type c)

/-- **The helpers own their sockets** only where these happen to have the numbers in `fd`. -/
theorem tcp_ownership_iff {type : Int} {c : ServiceCalls}
    (ho : ∀ n q, Attempted o 0 n → (o n).socket = some q → NewFd s q)
    (hc : ∀ q, c.socket = some q → NewFd s q) :
    OwnsSockets s o fd type c ↔ AllNumbered o fd 0 ∧ (c.socket = none ∨ c.socket = some 0) := by
  have hservice : Owned s (Served type) (initservice type c) ↔ c.socket = none ∨ c.socket = some 0 :=
    initservice_owned_iff hc
  rw [← connectRetry_owned_iff ho, ← hservice]
  constructor
  · exact fun h => ⟨h.connect, h.service⟩
  · rintro ⟨hconnect, hservice⟩
    exact ⟨hconnect, hservice⟩

/-- A process without a standard input whose sockets get descriptor 0, which `fd` happens to hold. -/
theorem tcp_ownership_iff_zero :
    OwnsSockets {1, 2} (fun k => ⟨some 0, decide (k = 2)⟩) 0 sockStream ⟨some 0, true, true⟩ := by
  apply (tcp_ownership_iff ?_ ?_).mpr
  · refine ⟨fun n q _ h => (Option.some.inj h).symm, Or.inr rfl⟩
  · rintro n q _ h
    obtain rfl := Option.some.inj h
    exact ⟨by decide, by decide⟩
  · rintro q h
    obtain rfl := Option.some.inj h
    exact ⟨by decide, by decide⟩

/-- The first attempt gets socket 3, the second none. -/
def oneSocket : Nat → Attempt
  | 0     => ⟨some 3, false⟩
  | _ + 1 => ⟨none, false⟩

/-- With 0 in `fd`, sockets 3 and 4 stay open, and the standard input is closed. -/
theorem tcp_sockets_left_open :
    connectRetry oneSocket 0 = some ⟨-1, [created 3, .connect 0 false, .sleep 1, closed 0]⟩ ∧
    initservice sockStream ⟨some 4, false, false⟩ = ⟨-1, [created 4, .bind 0 false, closed 0]⟩ ∧
    ¬ OwnsSockets {0, 1, 2} oneSocket 0 sockStream ⟨some 4, false, false⟩ := by
  have hservice : initservice sockStream ⟨some 4, false, false⟩
      = ⟨-1, [created 4, .bind 0 false, closed 0]⟩ := rfl
  refine ⟨rfl, hservice, fun h => ?_⟩
  have hdisposed := h.service.failure (by rw [hservice])
  rw [hservice] at hdisposed
  have hclosed := hdisposed.closed 4 List.mem_cons_self
  exact absurd hclosed (by decide)

end TcpSocket
