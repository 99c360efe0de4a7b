import ApueToyCodes.Lib.Runs
import ApueToyCodes.SelectLoop.Clients

/-!
# `SelectLoop.Correctness.ClientTable` — the table of clients over a history of calls

`client_add` takes the lowest free slot, and where there is none makes the table longer by `NALLOC` slots and
takes the first of them (`clientAdd_eq`); an entry once made stays. Memory is there: `realloc` keeps the
contents and succeeds.

`client_del` compares where it means to assign and frees nothing. The table is as it should be along exactly
the runs that never call it.
-/

namespace SelectLoop
open Runs

variable {client client' old new : List Client} {fd : Int} {uid i k : Nat} {c : Client}

/-! ## client_add -/

/-- A slot no client has. -/
abbrev isFree (c : Client) : Bool := c.fd = -1

/-- The table `client_add` finds its slot in: it has grown if no slot was free. -/
def withRoom (old : List Client) : List Client :=
  if old.any isFree then old else old ++ List.replicate nalloc emptySlot

/-- Empty slots behind slots in use: the first of them is the lowest free one. -/
theorem findIdx?_empty (h : ¬ old.any isFree) (n : Nat) :
    (old ++ List.replicate (n + 1) emptySlot).findIdx? isFree = some old.length := by
  have hnone : old.findIdx? isFree = none := by
    rw [List.findIdx?_eq_none_iff]
    intro c hc
    by_cases hfree : isFree c
    · exact absurd (List.any_eq_true.mpr ⟨c, hc, hfree⟩) h
    · exact Bool.not_eq_true _ ▸ hfree
  have hfirst : (List.replicate (n + 1) emptySlot).findIdx? isFree = some 0 := by
    rw [List.replicate_succ, List.findIdx?_cons]
    rfl
  rw [List.findIdx?_append, hnone, hfirst, Option.none_or, Option.map_some, Nat.zero_add]

theorem clientAddAgain_free (h : old.any isFree) (fuel : Nat) :
    ∃ i, old.findIdx? isFree = some i ∧
      clientAddAgain true fd uid (fuel + 1) old = some (i, old.set i ⟨fd, some uid⟩) := by
  cases hf : old.findIdx? isFree with
  | none =>
      obtain ⟨c, hc, hfree⟩ := List.any_eq_true.mp h
      have hnot := List.findIdx?_eq_none_iff.mp hf c hc
      rw [hfree] at hnot
      contradiction
  | some i =>
      refine ⟨i, rfl, ?_⟩
      rw [clientAddAgain, hf]

theorem any_isFree_grown (old : List Client) : (old ++ List.replicate nalloc emptySlot).any isFree := by
  rw [List.any_append]
  exact Bool.or_true _

/-- **`client_add`** ends after one retry at most, in the lowest free slot of the table with room. -/
theorem clientAdd_eq (client : Option (List Client)) (fd : Int) (uid : Nat) :
    ∃ i, (withRoom (client.getD [])).findIdx? isFree = some i ∧
      clientAdd true fd uid client = some (i, (withRoom (client.getD [])).set i ⟨fd, some uid⟩) := by
  cases client with
  | none => exact clientAddAgain_free (any_isFree_grown []) 1
  | some old =>
      unfold withRoom
      rw [Option.getD_some]
      by_cases hroom : old.any isFree
      · rw [if_pos hroom]
        exact clientAddAgain_free hroom 1
      · -- the first search fails, the one after the allocation does not
        have hnone : old.findIdx? isFree = none := by
          cases hf : old.findIdx? isFree with
          | none => rfl
          | some i =>
              obtain ⟨hi, hfree, _⟩ := List.findIdx?_eq_some_iff_getElem.mp hf
              exact absurd (List.any_eq_true.mpr ⟨_, List.getElem_mem hi, hfree⟩) hroom
        rw [if_neg hroom, clientAdd, clientAddAgain, hnone]
        exact clientAddAgain_free (any_isFree_grown old) 0

/-- What `client_add` is to do to the table `old`: the entry `c` in the lowest free slot `i`, the other slots
    as they were, `NALLOC` more slots only where none was free. -/
structure Added (old new : List Client) (i : Nat) (c : Client) : Prop where
  stored : new[i]? = some c
  free   : ∀ c', old[i]? = some c' → c'.fd = -1
  lowest : ∀ k < i, ∃ c', old[k]? = some c' ∧ c'.fd ≠ -1
  others : ∀ k < old.length, k ≠ i → new[k]? = old[k]?
  size   : new.length = if old.any isFree then old.length else old.length + nalloc
  grown  : ∀ k c', old.length ≤ k → k ≠ i → new[k]? = some c' → c'.fd = -1

/-- A free slot filled in place. -/
theorem added_set (hroom : old.any isFree) (hi : old.findIdx? isFree = some i) : Added old (old.set i c) i c := by
  obtain ⟨hlt, hfree, hbefore⟩ := List.findIdx?_eq_some_iff_getElem.mp hi
  refine ⟨List.getElem?_set_self hlt, ?_, ?_, ?_, ?_, ?_⟩
  · intro c' hc'
    rw [List.getElem?_eq_getElem hlt, Option.some.injEq] at hc'
    simpa [hc'] using hfree
  · intro k hk
    refine ⟨old[k], List.getElem?_eq_getElem (by omega), ?_⟩
    simpa using hbefore k hk
  · intro k _ hne
    exact List.getElem?_set_ne hne.symm
  · rw [List.length_set, if_pos hroom]
  · intro k c' hk _ hc'
    rw [List.getElem?_eq_none (by rw [List.length_set]; exact hk)] at hc'
    contradiction

/-- The first of the new slots filled. -/
theorem added_grown (hroom : ¬ old.any isFree) :
    Added old ((old ++ List.replicate nalloc emptySlot).set old.length c) old.length c := by
  have hlt : old.length < (old ++ List.replicate nalloc emptySlot).length := by
    rw [List.length_append, List.length_replicate]
    exact Nat.lt_add_of_pos_right (by decide)
  refine ⟨List.getElem?_set_self hlt, ?_, ?_, ?_, ?_, ?_⟩
  · intro c' hc'
    rw [List.getElem?_eq_none (Nat.le_refl _)] at hc'
    contradiction
  · intro k hk
    refine ⟨old[k], List.getElem?_eq_getElem hk, fun hfree => ?_⟩
    exact hroom (List.any_eq_true.mpr ⟨old[k], List.getElem_mem hk, by simpa using hfree⟩)
  · intro k hk hne
    rw [List.getElem?_set_ne hne.symm, List.getElem?_append_left hk]
  · rw [List.length_set, List.length_append, List.length_replicate, if_neg hroom]
  · intro k c' hk hne hc'
    rw [List.getElem?_set_ne hne.symm, List.getElem?_append_right hk] at hc'
    rw [List.eq_of_mem_replicate (List.mem_of_getElem? hc')]
    rfl

theorem clientAdd_added {client : Option (List Client)}
    (h : clientAdd true fd uid client = some (i, new)) : Added (client.getD []) new i ⟨fd, some uid⟩ := by
  obtain ⟨j, hj, heq⟩ := clientAdd_eq client fd uid
  obtain ⟨rfl, rfl⟩ := Prod.mk.inj (Option.some.inj (heq.symm.trans h))
  generalize client.getD [] = old at hj ⊢
  by_cases hroom : old.any isFree
  · have hwith : withRoom old = old := if_pos hroom
    rw [hwith] at hj ⊢
    exact added_set hroom hj
  · have hwith : withRoom old = old ++ List.replicate nalloc emptySlot := if_neg hroom
    rw [hwith, show nalloc = 9 + 1 from rfl, findIdx?_empty hroom, Option.some.injEq] at hj
    subst hj
    rw [hwith]
    exact added_grown hroom

/-! ## Calls of client_add in a row -/

/-- Every slot in use stays as it is. -/
def Kept (old new : List Client) : Prop :=
  ∀ (k : Nat) (c : Client), old[k]? = some c → c.fd ≠ -1 → new[k]? = some c

theorem Added.kept (h : Added old new i c) : Kept old new := by
  intro k c' hk hused
  have hne : k ≠ i := by
    rintro rfl
    exact hused (h.free c' hk)
  rw [h.others k (List.getElem?_eq_some_iff.mp hk).1 hne]
  exact hk

/-- A sequence of calls of `client_add`: the indices they return, and the table after them. -/
def clientAdds : List (Int × Nat) → Option (List Client) → Option (List Nat × Option (List Client))
  | [],                 client => some ([], client)
  | (fd, uid) :: calls, client => do
    let (i, client) ← clientAdd true fd uid client
    let (is, client) ← clientAdds calls (some client)
    some (i :: is, client)

/-- What a sequence of calls is to leave: every entry in a slot of its own, the entries from before still
    there. -/
structure AddedAll (old new : List Client) (is : List Nat) (calls : List (Int × Nat)) : Prop where
  distinct : is.Nodup
  stored   : List.Forall₂ (fun i call => new[i]? = some ⟨call.1, some call.2⟩) is calls
  kept     : Kept old new
  free     : ∀ i ∈ is, ∀ c, old[i]? = some c → c.fd = -1

/-- **Calls in a row** never hand out a slot twice. -/
theorem clientAdds_spec (calls : List (Int × Nat)) : ∀ client : Option (List Client),
    (∀ call ∈ calls, 0 ≤ call.1) → ∃ is client', clientAdds calls client = some (is, client') ∧
      AddedAll (client.getD []) (client'.getD []) is calls := by
  induction calls with
  | nil =>
      intro client _
      exact ⟨[], client, rfl, List.nodup_nil, .nil, fun _ _ hk _ => hk, fun i hi => absurd hi List.not_mem_nil⟩
  | cons call calls ih =>
      intro client hcalls
      obtain ⟨fd, uid⟩ := call
      have hfd : 0 ≤ fd := hcalls (fd, uid) List.mem_cons_self
      obtain ⟨i, _, heq⟩ := clientAdd_eq client fd uid
      have hadd := clientAdd_added heq
      generalize (withRoom (client.getD [])).set i ⟨fd, some uid⟩ = new at heq hadd
      obtain ⟨is, client', heq', hrest⟩ := ih (some new) fun call hc => hcalls call (List.mem_cons_of_mem _ hc)
      rw [Option.getD_some] at hrest
      -- the new entry is in use, so no later call takes its slot
      have hused : ∀ c, new[i]? = some c → c.fd ≠ -1 := by
        intro c hc
        rw [hadd.stored, Option.some.injEq] at hc
        rw [← hc]
        dsimp only
        omega
      refine ⟨i :: is, client', ?_, ?_, ?_, ?_, ?_⟩
      · rw [clientAdds, heq]
        simp only [Option.bind_eq_bind, Option.bind_some, heq']
      · refine List.nodup_cons.mpr ⟨fun hi => ?_, hrest.distinct⟩
        exact hused _ hadd.stored (hrest.free i hi _ hadd.stored)
      · exact .cons (hrest.kept i _ hadd.stored (hused _ hadd.stored)) hrest.stored
      · intro k c hk hc
        exact hrest.kept k c (hadd.kept k c hk hc) hc
      · intro j hj c hc
        rcases List.mem_cons.mp hj with rfl | hj
        · exact hadd.free c hc
        · by_cases hfree : c.fd = -1
          · exact hfree
          · exact hrest.free j hj c (hadd.kept j c hc hfree)

/-- **`client_add`** puts every client into the lowest free slot, makes the table longer only where there is
    none, and in a row of calls never gives a slot twice nor loses an entry. -/
theorem client_add_fills :
    (∀ (client : Option (List Client)) (fd : Int) (uid : Nat), 0 ≤ fd →
      ∃ i new, clientAdd true fd uid client = some (i, new) ∧
        Added (client.getD []) new i ⟨fd, some uid⟩) ∧
    ∀ (client : Option (List Client)) (calls : List (Int × Nat)), (∀ call ∈ calls, 0 ≤ call.1) →
      ∃ is client', clientAdds calls client = some (is, client') ∧
        AddedAll (client.getD []) (client'.getD []) is calls := by
  constructor
  · intro client fd uid _
    obtain ⟨i, _, heq⟩ := clientAdd_eq client fd uid
    exact ⟨i, _, heq, clientAdd_added heq⟩
  · intro client calls hcalls
    exact clientAdds_spec calls client hcalls

/-- Eleven clients, the last in a table that has grown. -/
theorem client_add_fills_eleven :
    (∃ i new, clientAdd true 4 1000 none = some (i, new) ∧ Added [] new i ⟨4, some 1000⟩) ∧
    ∃ is client', clientAdds (List.replicate 11 (4, 1000)) none = some (is, client') ∧
      AddedAll [] (client'.getD []) is (List.replicate 11 (4, 1000)) := by
  obtain ⟨hone, hrow⟩ := client_add_fills
  refine ⟨hone none 4 1000 (by decide), hrow none _ ?_⟩
  intro call hc
  rw [List.eq_of_mem_replicate hc]
  decide

/-! ## Histories with client_del -/

/-- A call that adds a client or deletes one. -/
inductive Op where
  | add (fd : Int) (uid : Nat)
  | del (fd : Int)
deriving DecidableEq

/-- The table, and what the calls so far were for: the descriptors added and not deleted, and how many of them
    there were at most at a time. -/
structure History where
  client : Option (List Client)
  live   : List Int
  peak   : Nat

def History.table (s : History) : List Client := s.client.getD []

/-- No call has been made. -/
def start : History := ⟨none, [], 0⟩

/-- A call: a descriptor that is not there is added, one that is there is deleted. -/
inductive Step : History → Op → History → Prop
  | add {client : Option (List Client)} {new : List Client} {live : List Int} {peak uid i : Nat} {fd : Int} :
      0 ≤ fd → fd ∉ live → clientAdd true fd uid client = some (i, new) →
      Step ⟨client, live, peak⟩ (.add fd uid) ⟨some new, fd :: live, max peak (live.length + 1)⟩
  | del {old new : List Client} {live : List Int} {peak : Nat} {fd : Int} :
      fd ∈ live → clientDel fd old = some new →
      Step ⟨some old, live, peak⟩ (.del fd) ⟨some new, live.erase fd, peak⟩

/-- The descriptors in the table. -/
def stored (table : List Client) : List Int := (table.map (·.fd)).filter fun fd => fd ≠ -1

/-- `n` rounded up to a multiple of `NALLOC`. -/
def roundUp (n : Nat) : Nat := (n + (nalloc - 1)) / nalloc * nalloc

/-- The table is as the history says. -/
structure Tracks (s : History) : Prop where
  stored : (stored s.table).Perm s.live
  size   : s.table.length ≤ roundUp s.peak

/-- What `client_del` is to do: `fd` is gone, the other slots are as they were, and its slot is free for the
    next client. -/
structure Deleted (old new : List Client) (fd : Int) : Prop where
  gone   : ∀ c ∈ new, c.fd ≠ fd
  others : ∀ (k : Nat) (c : Client), old[k]? = some c → c.fd ≠ fd → new[k]? = some c
  freed  : ∀ (k : Nat) (c : Client), old[k]? = some c → c.fd = fd → ∃ c', new[k]? = some c' ∧ isFree c'

/-- A call that leaves the table as it should. -/
def RightStep (s : History) (op : Op) (s' : History) : Prop :=
  Step s op s' ∧ Tracks s' ∧ ∀ fd, op = .del fd → Deleted s.table s'.table fd

/-- **`client_del` frees nothing**: the descriptor is still there. -/
theorem clientDel_not_deleted {fd : Int} (h : ∃ c ∈ old, c.fd = fd) :
    clientDel fd old = some old ∧ ¬ Deleted old old fd := by
  obtain ⟨c, hc, rfl⟩ := h
  constructor
  · unfold clientDel
    rw [if_pos (List.any_eq_true.mpr ⟨c, hc, decide_eq_true rfl⟩)]
  · exact fun hdel => hdel.gone c hc rfl

theorem not_rightStep_del {s s' : History} : ¬ RightStep s (.del fd) s' := by
  rintro ⟨hstep, _, hdel⟩
  cases hstep with
  | @del old new live peak fd _ heq =>
      have hpresent : ∃ c ∈ old, c.fd = fd := by
        unfold clientDel at heq
        by_cases hany : old.any fun c => c.fd = fd
        · obtain ⟨c, hc, hfd⟩ := List.any_eq_true.mp hany
          exact ⟨c, hc, of_decide_eq_true hfd⟩
        · rw [if_neg hany] at heq
          contradiction
      obtain ⟨hsame, hnot⟩ := clientDel_not_deleted hpresent
      obtain rfl := Option.some.inj (hsame.symm.trans heq)
      exact hnot (hdel fd rfl)

/-- Along a run without `client_del`: the clients in the order they came, then empty slots up to the next
    multiple of `NALLOC`. -/
def Packed (s : History) : Prop :=
  ∃ used r, s.table = used ++ List.replicate r emptySlot ∧ ¬ used.any isFree ∧
    (used.map (·.fd)).Perm s.live ∧ used.length = s.peak ∧ used.length + r = roundUp s.peak

theorem stored_append (a b : List Client) : stored (a ++ b) = stored a ++ stored b := by
  unfold stored
  rw [List.map_append, List.filter_append]

theorem stored_empty (r : Nat) : stored (List.replicate r emptySlot) = [] := by
  unfold stored
  rw [List.map_replicate, List.filter_replicate_of_neg (by decide)]

theorem stored_used (h : ¬ old.any isFree) : stored old = old.map (·.fd) := by
  unfold stored
  rw [List.filter_eq_self]
  intro fd hfd
  obtain ⟨c, hc, rfl⟩ := List.mem_map.mp hfd
  apply decide_eq_true
  intro hfree
  exact h (List.any_eq_true.mpr ⟨c, hc, decide_eq_true hfree⟩)

theorem Packed.tracks {s : History} (h : Packed s) : Tracks s := by
  obtain ⟨used, r, htable, hused, hperm, _, hsize⟩ := h
  constructor
  · rw [htable, stored_append, stored_empty, List.append_nil, stored_used hused]
    exact hperm
  · apply Nat.le_of_eq
    rw [htable, List.length_append, List.length_replicate, hsize]

theorem roundUp_succ (n : Nat) : roundUp (n + 1) = if n = roundUp n then n + nalloc else roundUp n := by
  unfold roundUp
  simp only [nalloc]
  split <;> omega

/-- With the room made there is an empty slot behind those in use. -/
theorem withRoom_packed {used : List Client} {r : Nat} (hused : ¬ used.any isFree)
    (hsize : used.length + r = roundUp used.length) :
    ∃ q, withRoom (used ++ List.replicate r emptySlot) = used ++ List.replicate (q + 1) emptySlot ∧
      used.length + 1 + q = roundUp (used.length + 1) := by
  rw [roundUp_succ]
  unfold withRoom
  cases r with
  | zero =>
      rw [Nat.add_zero] at hsize
      rw [List.replicate_zero, List.append_nil, if_neg hused, if_pos hsize]
      exact ⟨9, rfl, rfl⟩
  | succ q =>
      have hany : (used ++ List.replicate (q + 1) emptySlot).any isFree := by
        rw [List.any_append, List.replicate_succ, List.any_cons]
        exact Bool.or_true _
      rw [if_pos hany, if_neg (by omega)]
      exact ⟨q, rfl, by omega⟩

/-- **One more client** takes the first empty slot, or the first of `NALLOC` new ones. -/
theorem Packed.add {s s' : History} (h : Packed s) (hstep : Step s (.add fd uid) s') : Packed s' := by
  obtain ⟨used, r, htable, hused, hperm, hpeak, hsize⟩ := h
  cases hstep with
  | @add client new live peak uid i fd hfd hfresh heq =>
      obtain ⟨j, hj, heq'⟩ := clientAdd_eq client fd uid
      obtain ⟨rfl, rfl⟩ := Prod.mk.inj (Option.some.inj (heq'.symm.trans heq))
      dsimp only [History.table] at htable hperm hpeak hsize
      have hlive := hperm.length_eq
      rw [List.length_map] at hlive
      rw [← hpeak] at hsize
      obtain ⟨q, hroom, hq⟩ := withRoom_packed hused hsize
      rw [htable, hroom, findIdx?_empty hused, Option.some.injEq] at hj
      subst hj
      refine ⟨used ++ [⟨fd, some uid⟩], q, ?_, ?_, ?_, ?_, ?_⟩
      · dsimp only [History.table]
        rw [Option.getD_some, htable, hroom, List.set_append_right _ _ (Nat.le_refl _), Nat.sub_self,
          List.replicate_succ, List.set_cons_zero, List.append_assoc]
        rfl
      · rw [List.any_append, Bool.or_eq_true]
        rintro (hany | hany)
        · exact hused hany
        · have hfree : fd = -1 := by simpa using hany
          omega
      · rw [List.map_append]
        exact (List.perm_append_singleton fd (used.map (·.fd))).trans (hperm.cons fd)
      · rw [List.length_append, List.length_singleton]
        dsimp only
        omega
      · rw [List.length_append, List.length_singleton, hq]
        dsimp only
        rw [show max peak (live.length + 1) = used.length + 1 by omega]

theorem packed_start : Packed start :=
  ⟨[], 0, rfl, Bool.false_ne_true, List.Perm.refl [], rfl, rfl⟩

/-- A run without `client_del` is right at every step. -/
theorem run_rightStep {tr : List Op} {s s' : History} (h : Run Step s tr s') (hs : Packed s)
    (hno : ∀ fd, Op.del fd ∉ tr) : Run RightStep s tr s' := by
  induction h with
  | refl => exact .refl
  | @cons s s₁ s₂ op tr hstep _ ih =>
      cases op with
      | add fd uid =>
          have hpacked := hs.add hstep
          refine .cons ⟨hstep, hpacked.tracks, ?_⟩ (ih hpacked fun fd hmem => ?_)
          · intro fd' heq
            contradiction
          · exact hno fd (List.mem_cons_of_mem _ hmem)
      | del fd => exact absurd List.mem_cons_self (hno fd)

/-- A run with a `client_del` is not. -/
theorem not_run_rightStep {tr : List Op} {s s' : History} (h : Run RightStep s tr s') (fd : Int) :
    Op.del fd ∉ tr := by
  induction h with
  | refl => exact List.not_mem_nil
  | @cons s s₁ s₂ op tr hstep _ ih =>
      intro hmem
      rcases List.mem_cons.mp hmem with rfl | hmem
      · exact not_rightStep_del hstep
      · exact ih hmem

/-- **The table follows the history** exactly along the runs that never call `client_del`: a call of it frees
    nothing, whatever the table is. -/
theorem client_del_frees_iff {table : List Client} {fd : Int} (hfd : ∃ c ∈ table, c.fd = fd) {tr : List Op}
    {s : History} (h : Run Step start tr s) :
    (clientDel fd table = some table ∧ ¬ Deleted table table fd) ∧
    (Run RightStep start tr s ↔ ∀ fd, Op.del fd ∉ tr) := by
  refine ⟨clientDel_not_deleted hfd, fun hright fd => ?_, fun hno => ?_⟩
  · exact not_run_rightStep hright fd
  · exact run_rightStep h packed_start hno

/-- The table after the first call, for descriptor 5. -/
def oneClient : List Client := ⟨5, some 0⟩ :: List.replicate 9 emptySlot

theorem step_oneClient : Step start (.add 5 0) ⟨some oneClient, [5], 1⟩ :=
  .add (i := 0) (by decide) (by decide) (by decide)

/-- A deletion from a table of one client, and a run that only adds one. -/
theorem client_del_frees_iff_one :
    (clientDel 5 oneClient = some oneClient ∧ ¬ Deleted oneClient oneClient 5) ∧
    Run RightStep start [.add 5 0] ⟨some oneClient, [5], 1⟩ := by
  have hfive : ∃ c ∈ oneClient, c.fd = 5 := ⟨⟨5, some 0⟩, List.mem_cons_self, rfl⟩
  obtain ⟨hone, hrun⟩ := client_del_frees_iff hfive (.cons step_oneClient .refl)
  refine ⟨hone, hrun.mpr ?_⟩
  intro fd hmem
  rw [List.mem_singleton] at hmem
  contradiction

/-- One client added and deleted: its descriptor is still in slot 0. -/
theorem client_del_keeps_descriptor :
    ∃ s, Run Step start [.add 5 0, .del 5] s ∧ s.live = [] ∧ stored s.table = [5] ∧ ¬ Tracks s := by
  refine ⟨⟨some oneClient, [], 1⟩, ?_, rfl, rfl, ?_⟩
  · exact .cons step_oneClient (.cons (.del (by decide) (by decide)) .refl)
  · intro htracks
    have hlen := htracks.stored.length_eq
    contradiction

end SelectLoop
