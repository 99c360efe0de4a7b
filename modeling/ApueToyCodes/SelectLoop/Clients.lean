import Mathlib.Data.List.Basic

/-!
# `SelectLoop.Clients` — the client table of `lab_2` (test1.c)

`client_alloc`, `client_add` and `client_del` on the table of clients. The table is the list of its slots,
so `client_size` is its length; `none` is the `NULL` the table starts as. A slot's `uid` is `none` while it
holds what `malloc` left there.

A failing allocation and a failing `client_del` end the process: `none`.
-/

namespace SelectLoop

/-- `NALLOC` -/
abbrev nalloc : Nat := 10

/-- `Client` -/
structure Client where
  fd  : Int
  uid : Option Nat
deriving DecidableEq

/-- A slot as `client_alloc` leaves it. -/
def emptySlot : Client := ⟨-1, none⟩

/-- `client_alloc`; `mem` is whether `malloc` or `realloc` succeeds. -/
def clientAlloc (mem : Bool) (client : Option (List Client)) : Option (List Client) :=
  if mem then some (client.getD [] ++ List.replicate nalloc emptySlot) else none

/-- The search of `client_add` from `AGAIN` on. One allocation makes room, so two turns are enough. -/
def clientAddAgain (mem : Bool) (fd : Int) (uid : Nat) : Nat → List Client → Option (Nat × List Client)
  | 0,        _      => none
  | fuel + 1, client =>
    match client.findIdx? fun c => c.fd = -1 with
    | some i => some (i, client.set i ⟨fd, some uid⟩)
    | none =>
      match clientAlloc mem (some client) with
      | none => none
      | some client => clientAddAgain mem fd uid fuel client -- `goto AGAIN`

/-- `client_add`: the index and the table. -/
def clientAdd (mem : Bool) (fd : Int) (uid : Nat) (client : Option (List Client)) :
    Option (Nat × List Client) :=
  match client with
  | some client => clientAddAgain mem fd uid 2 client
  | none =>
    match clientAlloc mem none with
    | none => none
    | some client => clientAddAgain mem fd uid 2 client

/-- `client_del`. The source compares, `client[i].fd==-1`, where it means to assign: the table stays as it
    is. -/
def clientDel (fd : Int) (client : List Client) : Option (List Client) :=
  if client.any fun c => c.fd = fd then some client else none

/-! ## client_add fills a free slot -/

/-- Allocation keeps the old slots and adds empty ones. -/
theorem clientAlloc_spec {mem : Bool} {client : Option (List Client)} {client' : List Client}
    (h : clientAlloc mem client = some client') :
    client' = client.getD [] ++ List.replicate nalloc emptySlot := by
  unfold clientAlloc at h
  split at h
  · exact (Option.some.inj h).symm
  · exact absurd h (by simp)

/-- Slot `i` of `client'` holds `c₀`, the slots in use are kept, and every other slot is an old one or an
    empty one. -/
def Filled (client client' : List Client) (i : Nat) (c₀ : Client) : Prop :=
  client'[i]? = some c₀ ∧
  (∀ (k : Nat) (c : Client), client[k]? = some c → c.fd ≠ -1 → client'[k]? = some c) ∧
  ∀ (k : Nat) (c : Client), k ≠ i → client'[k]? = some c → client[k]? = some c ∨ c = emptySlot

/-- A free slot filled in place. -/
theorem filled_set {client : List Client} {i : Nat} {c₀ : Client}
    (hi : client.findIdx? (fun c => c.fd = -1) = some i) : Filled client (client.set i c₀) i c₀ := by
  obtain ⟨hlt, hfree, _⟩ := List.findIdx?_eq_some_iff_getElem.mp hi
  refine ⟨by rw [List.getElem?_set_self hlt], fun k c hk hc => ?_, fun k c hne hk => ?_⟩
  · have hne : i ≠ k := by
      rintro rfl
      rw [List.getElem?_eq_getElem hlt, Option.some.injEq] at hk
      exact hc (by simpa [hk] using hfree)
    rw [List.getElem?_set_ne hne, hk]
  · rw [List.getElem?_set_ne hne.symm] at hk
    exact Or.inl hk

/-- A slot filled after the table has grown. -/
theorem Filled.of_grown {client client' : List Client} {i n : Nat} {c₀ : Client}
    (h : Filled (client ++ List.replicate n emptySlot) client' i c₀) : Filled client client' i c₀ := by
  obtain ⟨h1, h2, h3⟩ := h
  refine ⟨h1, fun k c hk hc => h2 k c ?_ hc, fun k c hne hk => ?_⟩
  · rw [List.getElem?_append_left (List.getElem?_eq_some_iff.mp hk).1, hk]
  · -- an old slot, or one that came with the growth
    rcases h3 k c hne hk with hold | rfl
    · by_cases hlt : k < client.length
      · rw [List.getElem?_append_left hlt] at hold
        exact Or.inl hold
      · rw [List.getElem?_append_right (Nat.le_of_not_lt hlt)] at hold
        exact Or.inr (List.eq_of_mem_replicate (List.mem_of_getElem? hold))
    · exact Or.inr rfl

theorem clientAddAgain_spec {mem : Bool} {fd : Int} {uid : Nat} (fuel : Nat) :
    ∀ {client client' : List Client} {i : Nat}, clientAddAgain mem fd uid fuel client = some (i, client') →
      Filled client client' i ⟨fd, some uid⟩ := by
  induction fuel with
  | zero => intro client client' i h; exact absurd h (by simp [clientAddAgain])
  | succ fuel ih =>
      intro client client' i h
      rw [clientAddAgain] at h
      cases hf : client.findIdx? fun c => c.fd = -1 with
      | some j =>
          rw [hf, Option.some.injEq, Prod.mk.injEq] at h
          obtain ⟨rfl, rfl⟩ := h
          exact filled_set hf
      | none =>
          rw [hf] at h
          cases ha : clientAlloc mem (some client) with
          | none => rw [ha] at h; exact absurd h (by simp)
          | some grown =>
              rw [ha] at h
              exact (clientAlloc_spec ha ▸ ih h).of_grown

/-- **`client_add`** fills one slot that was not in use. -/
theorem clientAdd_spec {mem : Bool} {fd : Int} {uid : Nat} {client : Option (List Client)} {i : Nat}
    {client' : List Client} (h : clientAdd mem fd uid client = some (i, client')) :
    Filled (client.getD []) client' i ⟨fd, some uid⟩ := by
  unfold clientAdd at h
  cases client with
  | some client => exact clientAddAgain_spec 2 h
  | none =>
      dsimp only at h
      cases ha : clientAlloc mem none with
      | none => rw [ha] at h; exact absurd h (by simp)
      | some grown =>
          rw [ha] at h
          exact (clientAlloc_spec ha ▸ clientAddAgain_spec 2 h).of_grown

/-- `client_del` never changes the table. -/
theorem clientDel_eq {fd : Int} {client client' : List Client} (h : clientDel fd client = some client') :
    client' = client := by
  unfold clientDel at h
  split at h
  · exact (Option.some.inj h).symm
  · exact absurd h (by simp)

end SelectLoop
