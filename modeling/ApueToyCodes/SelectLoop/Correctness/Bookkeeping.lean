import ApueToyCodes.SelectLoop.Loop

/-!
# `SelectLoop.Correctness.Bookkeeping` — when the bookkeeping of the loop is right

`loop` enters the listening descriptor into the client table where the new connection belongs. From the
first connection on a slot holds it (`Marked`), and nothing ever takes it out again, so the table never again
lists the open connections. Before that the loop does nothing, and the bookkeeping is right.

The rest of the bookkeeping, the descriptor set with its bound and the slots above `maxi`, is right in every
run (`run_sets`).
-/

namespace SelectLoop
open Runs

variable {s s' : State} {e : Event}

/-! ## What a turn keeps -/

/-- A used slot holds the listening descriptor. -/
def Marked (s : State) : Prop :=
  ∃ (k : Nat) (c : Client), (s.client.getD [])[k]? = some c ∧ c.fd = s.listenfd ∧ (k : Int) ≤ s.maxi

/-- The listening descriptor is no connection. -/
structure Sound (s : State) : Prop where
  nonneg : 0 ≤ s.listenfd
  listen : ∀ x ∈ s.conns, x.1 ≠ s.listenfd

/-- The `for` loop over the clients leaves the table as it is and closes connections only. -/
theorem serveSlot_spec {i : Nat} (h : serveSlot e i s = some s') :
    s'.listenfd = s.listenfd ∧ s'.client.getD [] = s.client.getD [] ∧ s'.maxi = s.maxi ∧
      ∀ x ∈ s'.conns, x ∈ s.conns := by
  have hid : s = s' → s'.listenfd = s.listenfd ∧ s'.client.getD [] = s.client.getD [] ∧ s'.maxi = s.maxi ∧
      ∀ x ∈ s'.conns, x ∈ s.conns := by
    rintro rfl; exact ⟨rfl, rfl, rfl, fun _ hx => hx⟩
  unfold serveSlot at h
  split at h
  · exact absurd h (by simp)
  · rename_i c hc
    split at h
    · exact hid (Option.some.inj h)
    split at h
    · split at h
      · exact absurd h (by simp)
      split at h
      · cases hd : clientDel c.fd (s.client.getD []) with
        | none => rw [hd] at h; exact absurd h (by simp)
        | some client =>
            rw [hd] at h
            rw [← Option.some.inj h]
            exact ⟨rfl, clientDel_eq hd, rfl, fun x hx => (List.mem_filter.mp hx).1⟩
      · exact hid (Option.some.inj h)
    · exact hid (Option.some.inj h)

theorem serveSlots_spec (is : List Nat) : ∀ {s s' : State}, serveSlots e is s = some s' →
    s'.listenfd = s.listenfd ∧ s'.client.getD [] = s.client.getD [] ∧ s'.maxi = s.maxi ∧
      ∀ x ∈ s'.conns, x ∈ s.conns := by
  induction is with
  | nil =>
      intro s s' h
      rw [← Option.some.inj h]
      exact ⟨rfl, rfl, rfl, fun _ hx => hx⟩
  | cons i is ih =>
      intro s s' h
      obtain ⟨s₁, h1, h2⟩ := Option.bind_eq_some_iff.mp h
      obtain ⟨hl, hc, hm, hx⟩ := serveSlot_spec h1
      obtain ⟨hl', hc', hm', hx'⟩ := ih h2
      exact ⟨hl'.trans hl, hc'.trans hc, hm'.trans hm, fun x h => hx x (hx' x h)⟩

/-- **Accepting a connection** marks the table. -/
theorem accept_spec (h : accept s e = some s') :
    s'.listenfd = s.listenfd ∧ Marked s' ∧
    ∃ newfd uid, e.accepted = some (newfd, uid) ∧ s'.conns = (newfd, uid) :: s.conns := by
  unfold accept at h
  cases ha : e.accepted with
  | none => rw [ha] at h; exact absurd h (by simp)
  | some p =>
      obtain ⟨newfd, uid⟩ := p
      rw [ha] at h
      dsimp only at h
      split at h
      · exact absurd h (by simp)
      cases hadd : clientAdd e.mem s.listenfd uid s.client with
      | none => rw [hadd] at h; exact absurd h (by simp)
      | some q =>
          obtain ⟨i, client⟩ := q
          rw [hadd] at h
          rw [← Option.some.inj h]
          refine ⟨rfl, ⟨i, ⟨s.listenfd, some uid⟩, (clientAdd_spec hadd).1, rfl, ?_⟩,
            newfd, uid, rfl, rfl⟩
          change (i : Int) ≤ if (i : Int) > s.maxi then (i : Int) else s.maxi
          split <;> omega

/-- Every turn keeps the listening descriptor apart from the connections. -/
theorem turn_sound (ht : Turn s e s') (hs : Sound s) : Sound s' ∧ s'.listenfd = s.listenfd := by
  obtain ⟨hpos, h⟩ := ht
  unfold turn at h
  split at h
  · obtain ⟨hl, _, newfd, uid, hacc, hconns⟩ := accept_spec h
    refine ⟨⟨hl ▸ hs.nonneg, ?_⟩, hl⟩
    rw [hconns, hl]
    intro x hx
    rcases List.mem_cons.mp hx with rfl | hx
    · exact (hpos.2 newfd uid hacc).1
    · exact hs.listen x hx
  · obtain ⟨hl, _, _, hx⟩ := serveSlots_spec _ h
    exact ⟨⟨hl ▸ hs.nonneg, fun x h => hl ▸ hs.listen x (hx x h)⟩, hl⟩

/-- Every turn keeps a marked table marked. -/
theorem turn_marked (ht : Turn s e s') (hm : Marked s) : Marked s' := by
  obtain ⟨_, h⟩ := ht
  unfold turn at h
  split at h
  · exact (accept_spec h).2.1
  · obtain ⟨hl, hc, hmi, _⟩ := serveSlots_spec _ h
    obtain ⟨k, c, hk, hfd, hle⟩ := hm
    exact ⟨k, c, hc ▸ hk, hfd.trans hl.symm, hmi ▸ hle⟩

/-! ## Runs -/

/-- The listening descriptor stays what it is and no connection. -/
theorem run_sound {tr : List Event} (hr : Run Turn s tr s') (hs : Sound s) :
    Sound s' ∧ s'.listenfd = s.listenfd := by
  induction hr with
  | refl => exact ⟨hs, rfl⟩
  | cons ht _ ih =>
      obtain ⟨hs₁, hl⟩ := turn_sound ht hs
      obtain ⟨hs₂, hl₂⟩ := ih hs₁
      exact ⟨hs₂, hl₂.trans hl⟩

/-- A marked table stays marked. -/
theorem run_marked {tr : List Event} (hr : Run Turn s tr s') (hm : Marked s) : Marked s' :=
  hr.invariant (fun _ _ _ hm ht => turn_marked ht hm) hm

/-- A run that accepts a connection marks the table. -/
theorem run_accept {tr : List Event} (hr : Run Turn s tr s') (hs : Sound s)
    (hacc : ∃ e ∈ tr, s.listenfd ∈ e.ready) : Marked s' := by
  induction hr with
  | refl => obtain ⟨e, he, _⟩ := hacc; exact absurd he (by simp)
  | @cons s s₁ s' e tr ht hrest ih =>
      obtain ⟨hs₁, hl⟩ := turn_sound ht hs
      by_cases hready : s.listenfd ∈ e.ready
      · have hturn := ht.2
        unfold turn at hturn
        rw [if_pos hready] at hturn
        exact run_marked hrest (accept_spec hturn).2.1
      · obtain ⟨f, hf, hfr⟩ := hacc
        refine ih hs₁ ⟨f, ?_, hl ▸ hfr⟩
        rcases List.mem_cons.mp hf with rfl | hf
        · exact absurd hfr hready
        · exact hf

/-- Without a connection to accept the loop stays at its initial state. -/
theorem run_idle {listenfd : Int} {tr : List Event} (hr : Run Turn s tr s') (hs : s = initial listenfd)
    (hidle : ∀ e ∈ tr, listenfd ∉ e.ready) : s' = initial listenfd := by
  induction hr with
  | refl => exact hs
  | @cons s s₁ s' e tr ht _ ih =>
      refine ih ?_ fun f hf => hidle f (List.mem_cons_of_mem _ hf)
      have hturn := ht.2
      subst hs
      have hno : (initial listenfd).listenfd ∉ e.ready := hidle e List.mem_cons_self
      unfold turn at hturn
      rw [if_neg hno] at hturn
      exact (Option.some.inj hturn).symm

/-! ## The descriptor set and the slots above `maxi` -/

/-- The bookkeeping without the table. -/
structure SetsRight (s : State) : Prop where
  once   : (s.conns.map Prod.fst).Nodup
  above  : ∀ c ∈ (s.client.getD []).drop (s.maxi + 1).toNat, c.fd = -1
  allset : ∀ fd, fd ∈ s.allset ↔ fd = s.listenfd ∨ fd ∈ s.conns.map Prod.fst
  maxfd  : ∀ fd ∈ s.allset, fd ≤ s.maxfd

theorem initial_sets (listenfd : Int) : SetsRight (initial listenfd) := by
  refine ⟨List.nodup_nil, by simp [initial], fun fd => by simp [initial], fun fd hfd => ?_⟩
  rw [Finset.mem_singleton.mp hfd]
  exact Int.le_refl _

/-- Closing a connection takes it out of the set and out of the connections. -/
theorem serveSlot_sets {i : Nat} (h : serveSlot e i s = some s') (hready : s.listenfd ∉ e.ready)
    (hs : SetsRight s) : SetsRight s' := by
  unfold serveSlot at h
  split at h
  · exact absurd h (by simp)
  rename_i c hc
  split at h
  · exact Option.some.inj h ▸ hs
  split at h
  · rename_i hin
    split at h
    · exact absurd h (by simp)
    split at h
    · cases hd : clientDel c.fd (s.client.getD []) with
      | none => rw [hd] at h; exact absurd h (by simp)
      | some client =>
          rw [hd] at h
          rw [← Option.some.inj h]
          -- the listening descriptor is not ready, so it is not the one closed
          have hne : s.listenfd ≠ c.fd := fun heq => hready (heq ▸ hin)
          refine ⟨?_, ?_, fun fd => ?_, fun fd hfd => hs.maxfd fd (Finset.mem_of_mem_erase hfd)⟩
          · exact hs.once.sublist (List.filter_sublist.map _)
          · rw [Option.getD_some, clientDel_eq hd]
            exact hs.above
          · change fd ∈ s.allset.erase c.fd ↔ _
            rw [Finset.mem_erase, hs.allset]
            simp only [List.mem_map, List.mem_filter, decide_eq_true_eq]
            constructor
            · rintro ⟨hfd, hl | ⟨x, hx, rfl⟩⟩
              · exact Or.inl hl
              · exact Or.inr ⟨x, ⟨hx, hfd⟩, rfl⟩
            · rintro (hl | ⟨x, ⟨hx, hfd⟩, rfl⟩)
              · exact ⟨hl ▸ hne, Or.inl hl⟩
              · exact ⟨hfd, Or.inr ⟨x, hx, rfl⟩⟩
    · exact Option.some.inj h ▸ hs
  · exact Option.some.inj h ▸ hs

theorem serveSlots_sets (is : List Nat) : ∀ {s s' : State}, serveSlots e is s = some s' →
    s.listenfd ∉ e.ready → SetsRight s → SetsRight s' := by
  induction is with
  | nil =>
      intro s s' h _ hs
      exact Option.some.inj h ▸ hs
  | cons i is ih =>
      intro s s' h hready hs
      obtain ⟨s₁, h1, h2⟩ := Option.bind_eq_some_iff.mp h
      have hl := (serveSlot_spec h1).1
      exact ih h2 (hl ▸ hready) (serveSlot_sets h1 hready hs)

/-- Accepting a connection enters its fresh descriptor. -/
theorem accept_sets (h : accept s e = some s') (hpos : e.Possible s) (hs : SetsRight s) : SetsRight s' := by
  unfold accept at h
  cases ha : e.accepted with
  | none => rw [ha] at h; exact absurd h (by simp)
  | some p =>
      obtain ⟨newfd, uid⟩ := p
      obtain ⟨_, hfresh⟩ := hpos.2 newfd uid ha
      rw [ha] at h
      dsimp only at h
      split at h
      · exact absurd h (by simp)
      cases hadd : clientAdd e.mem s.listenfd uid s.client with
      | none => rw [hadd] at h; exact absurd h (by simp)
      | some q =>
          obtain ⟨i, client⟩ := q
          rw [hadd] at h
          rw [← Option.some.inj h]
          refine ⟨?_, fun c hc => ?_, fun fd => ?_, fun fd hfd => ?_⟩
          · refine List.nodup_cons.mpr ⟨fun hm => ?_, hs.once⟩
            obtain ⟨x, hx, heq⟩ := List.mem_map.mp hm
            exact hfresh x hx heq
          · -- a slot above the new `maxi` was above the old one, or is new
            obtain ⟨k, hk⟩ := List.getElem?_of_mem hc
            dsimp only at hk
            rw [List.getElem?_drop, Option.getD_some] at hk
            set maxi := if (i : Int) > s.maxi then (i : Int) else s.maxi with hmaxi
            have hi : (i : Int) ≤ maxi ∧ s.maxi ≤ maxi := by rw [hmaxi]; split <;> omega
            rcases (clientAdd_spec hadd).2.2 _ c (by omega) hk with hold | rfl
            · refine hs.above c (List.mem_of_getElem? (i := (maxi + 1).toNat + k - (s.maxi + 1).toNat) ?_)
              rw [List.getElem?_drop, ← hold]
              congr 1
              omega
            · rfl
          · change fd ∈ insert newfd s.allset ↔ _
            rw [Finset.mem_insert, hs.allset, List.map_cons, List.mem_cons]
            tauto
          · have hfd' : fd = newfd ∨ fd ∈ s.allset := Finset.mem_insert.mp hfd
            change fd ≤ if newfd > s.maxfd then newfd else s.maxfd
            rcases hfd' with rfl | hold
            · split <;> omega
            · have := hs.maxfd fd hold
              split <;> omega

theorem turn_sets (ht : Turn s e s') (hs : SetsRight s) : SetsRight s' := by
  obtain ⟨hpos, h⟩ := ht
  unfold turn at h
  split at h
  · exact accept_sets h hpos hs
  · rename_i hready
    exact serveSlots_sets _ h hready hs

/-- **The descriptor set over whole runs**: at the head of every turn `allset` is the listening descriptor
    and the open connections, `maxfd` bounds it, and the slots above `maxi` are free. -/
theorem run_sets {listenfd : Int} {tr : List Event} (hr : Run Turn (initial listenfd) tr s) : SetsRight s :=
  hr.invariant (fun _ _ _ hs ht => turn_sets ht hs) (initial_sets listenfd)

/-! ## The table -/

theorem bookkeeping_initial {listenfd : Int} : Bookkeeping (initial listenfd) :=
  have hs := initial_sets listenfd
  ⟨.refl _, hs.once, hs.above, hs.allset, hs.maxfd⟩

/-- A used slot with the listening descriptor is no connection. -/
theorem not_bookkeeping_of_marked (hs : Sound s) (hm : Marked s) : ¬ Bookkeeping s := by
  intro hb
  obtain ⟨k, c, hk, hfd, hle⟩ := hm
  have hused : c ∈ s.used := by
    have hlt : k < (s.maxi + 1).toNat := by omega
    refine List.mem_of_getElem? (i := k) ?_
    unfold State.used
    rw [List.getElem?_take_of_lt hlt, hk]
  have hmem : (c.fd, c.uid) ∈ (s.used.filter fun c => 0 ≤ c.fd).map fun c => (c.fd, c.uid) := by
    refine List.mem_map.mpr ⟨c, List.mem_filter.mpr ⟨hused, ?_⟩, rfl⟩
    have := hs.nonneg
    simpa [hfd] using this
  obtain ⟨x, hx, heq⟩ := List.mem_map.mp (hb.table.mem_iff.mp hmem)
  refine hs.listen x hx ?_
  rw [← hfd]
  exact congrArg Prod.fst heq

/-- **The bookkeeping over whole runs**: it is right at the head of a turn exactly when no connection has
    been accepted so far. -/
theorem bookkeeping_iff {listenfd : Int} (hnonneg : 0 ≤ listenfd) {tr : List Event}
    (hr : Run Turn (initial listenfd) tr s) :
    Bookkeeping s ↔ ∀ e ∈ tr, listenfd ∉ e.ready := by
  have hs : Sound (initial listenfd) := ⟨hnonneg, fun x hx => absurd hx List.not_mem_nil⟩
  constructor
  · intro hb e he hready
    exact not_bookkeeping_of_marked (run_sound hr hs).1 (run_accept hr hs ⟨e, he, hready⟩) hb
  · intro hidle
    rw [run_idle hr rfl hidle]
    exact bookkeeping_initial

/-- A turn in which nothing is ready. -/
def idle : Event := ⟨∅, none, true, fun _ => 0⟩

/-- A turn in which a connection is accepted as descriptor 4, from uid 1000. -/
def connect : Event := ⟨{3}, some (4, 1000), true, fun _ => 0⟩

/-- The bookkeeping after an idle turn. -/
theorem bookkeeping_iff_idle : Bookkeeping (initial 3) := by
  have hr : Run Turn (initial 3) [idle] (initial 3) := by
    refine .cons ⟨⟨Finset.empty_subset _, fun _ _ h => absurd h (by simp [idle])⟩, ?_⟩ .refl
    have hno : (initial 3).listenfd ∉ idle.ready := Finset.notMem_empty _
    unfold turn
    rw [if_neg hno]
    rfl
  refine (bookkeeping_iff (by decide) hr).mpr fun e he => ?_
  rw [List.mem_singleton.mp he]
  exact Finset.notMem_empty _

/-- After the first connection the table lists descriptor 3, which `loop` listens on, in place of 4. -/
theorem bookkeeping_wrong_after_accept : ∃ s, Run Turn (initial 3) [connect] s ∧
    (s.client.getD [])[0]? = some ⟨3, some 1000⟩ ∧ s.conns = [(4, 1000)] ∧ ¬ Bookkeeping s := by
  obtain ⟨s, hs⟩ : ∃ s, turn (initial 3) connect = some s := ⟨_, rfl⟩
  have ht : Turn (initial 3) connect s := by
    refine ⟨⟨Finset.Subset.refl _, fun newfd uid h => ?_⟩, hs⟩
    obtain ⟨rfl, rfl⟩ := Prod.mk.inj (Option.some.inj h)
    exact ⟨by decide, fun x hx => absurd hx List.not_mem_nil⟩
  have hr : Run Turn (initial 3) [connect] s := .cons ht .refl
  have hsound : Sound (initial 3) := ⟨by decide, fun x hx => absurd hx List.not_mem_nil⟩
  refine ⟨s, hr, ?_, ?_, not_bookkeeping_of_marked (run_sound hr hsound).1 (run_accept hr hsound ?_)⟩
  · rw [← Option.some.inj hs]; rfl
  · rw [← Option.some.inj hs]; rfl
  · exact ⟨connect, List.mem_singleton_self _, Finset.mem_singleton_self _⟩

end SelectLoop
