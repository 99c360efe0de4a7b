import ApueToyCodes.Printd.Workers

/-!
# `Printd.Correctness.Workers` — two clients at a time

`add_worker` does not put a new worker in front where there is one: `workers` keeps pointing to the old one.
While clients come one at a time the list is as it should be (`Tidy`). With a client that comes while another
is served it is not: the new thread is not found when it ends, and when the old one ends, `workers` points to
a freed object.
-/

namespace Printd
open Runs

variable {T : Type} {fds : Finset Int} {p p' : Pool T}

/-- One thread, on the list. -/
def Pool.alone (fds : Finset Int) (wtp : Nat) (tid : T) (sockfd : Int) : Pool T :=
  ⟨some wtp, Function.update (fun _ => none) wtp (some ⟨none, none, tid, sockfd⟩), insert sockfd fds⟩

/-- The list of a daemon with at most one client. -/
inductive Tidy (fds : Finset Int) : Pool T → Prop
  | empty : Tidy fds (.init T fds)
  | one {wtp : Nat} {tid : T} {sockfd : Int} : sockfd ∉ fds → Tidy fds (.alone fds wtp tid sockfd)

theorem Tidy.eq_init (h : Tidy fds p) (hw : p.workers = none) : p = .init T fds := by
  cases h with
  | empty => rfl
  | one _ => contradiction

theorem alone_heap (fds : Finset Int) (wtp : Nat) (tid : T) (sockfd : Int) :
    (Pool.alone fds wtp tid sockfd).heap wtp = some ⟨none, none, tid, sockfd⟩ := by
  unfold Pool.alone
  dsimp only
  rw [Function.update_self]

theorem alone_heap_of_ne {a wtp : Nat} (hne : a ≠ wtp) (fds : Finset Int) (tid : T) (sockfd : Int) :
    (Pool.alone fds wtp tid sockfd).heap a = none := by
  unfold Pool.alone
  dsimp only
  rw [Function.update_of_ne hne]

variable [DecidableEq T]

/-- The end of the one thread. -/
theorem cleanup_alone (h : sockfd ∉ fds) (wtp : Nat) (tid : T) (fuel : Nat) :
    (Pool.alone fds wtp tid sockfd).clientCleanup (fuel + 1) tid = .next (.init T fds) := by
  have hfind : (Pool.alone fds wtp tid sockfd).find tid (fuel + 1) (some wtp) = .worker wtp := by
    unfold Pool.find
    rw [alone_heap]
    exact if_pos rfl
  unfold Pool.clientCleanup
  rw [show (Pool.alone fds wtp tid sockfd).workers = some wtp from rfl, hfind]
  dsimp only
  rw [alone_heap]
  show Outcome.next (Pool.mk none (Function.update (Function.update (fun _ => none) wtp _) wtp none)
    ((insert sockfd fds).erase sockfd)) = _
  rw [Function.update_idem, Finset.erase_insert h]
  congr 2
  exact Function.update_eq_self wtp (fun _ => none)

/-- The end of a thread that is not on the list. -/
theorem cleanup_absent {wtp : Nat} {w : WorkerThread T} {tid : T} (hw : p.workers = some wtp)
    (hheap : p.heap wtp = some w) (hnext : w.next = none) (htid : w.tid ≠ tid) (fuel : Nat) :
    p.clientCleanup (fuel + 1) tid = .next p := by
  have hfind : p.find tid (fuel + 1) (some wtp) = .absent := by
    unfold Pool.find
    rw [hheap]
    dsimp only
    rw [if_neg htid, hnext]
    cases fuel <;> rfl
  unfold Pool.clientCleanup
  rw [hw, hfind]

omit [DecidableEq T] in
/-- The first client. -/
theorem connect_init (fds : Finset Int) (tid : T) (sockfd : Int) (wtp : Nat) :
    (Pool.init T fds).connect tid sockfd wtp = some (.alone fds wtp tid sockfd) := rfl

/-- One client at a time: each thread finds itself, and its end leaves nothing. -/
theorem step_tidy {e : PoolEvent T} (h : Tidy fds p) (hs : OneAtATime p e p') : Tidy fds p' := by
  obtain ⟨hstep, hone⟩ := hs
  cases hstep with
  | @connect _ tid sockfd wtp _ hsock _ hc =>
      obtain rfl := h.eq_init (hone rfl)
      rw [connect_init] at hc
      obtain rfl := Option.some.inj hc
      exact .one hsock
  | @ends _ tid fuel hc =>
      cases h with
      | empty =>
          have hnil : (Pool.init T fds).clientCleanup fuel tid = .next (.init T fds) := by cases fuel <;> rfl
          rw [hnil] at hc
          obtain rfl := Outcome.next.inj hc
          exact .empty
      | @one wtp tid' sockfd hsock =>
          cases fuel with
          | zero => contradiction
          | succ fuel =>
              by_cases htid : tid' = tid
              · rw [← htid, cleanup_alone hsock] at hc
                obtain rfl := Outcome.next.inj hc
                exact .empty
              · rw [cleanup_absent rfl (alone_heap fds wtp tid' sockfd) rfl htid] at hc
                obtain rfl := Outcome.next.inj hc
                exact .one hsock

/-- A run with one client at a time. -/
theorem run_tidy {tr : List (PoolEvent T)} (h : Run OneAtATime (.init T fds) tr p) : Tidy fds p :=
  h.invariant (fun _ _ _ ht hs => step_tidy ht hs) .empty

/-- One thread on the list, another that is not. -/
def Pool.two (fds : Finset Int) (a : Nat) (t : T) (sock : Int) (wtp : Nat) (tid : T) (sockfd : Int) : Pool T :=
  let heap := Function.update (Pool.alone fds a t sock).heap wtp (some ⟨some a, none, tid, sockfd⟩)
  ⟨some a, Function.update heap a (some ⟨none, some wtp, t, sock⟩), insert sockfd (insert sock fds)⟩

omit [DecidableEq T] in
theorem connect_alone {a wtp : Nat} {t : T} {sock : Int}
    (hfree : (Pool.alone fds a t sock).heap wtp = none) (tid : T) (sockfd : Int) :
    (Pool.alone fds a t sock).connect tid sockfd wtp = some (.two fds a t sock wtp tid sockfd) := by
  have hne : a ≠ wtp := by
    rintro rfl
    rw [alone_heap] at hfree
    contradiction
  set heap := Function.update (Pool.alone fds a t sock).heap wtp (some ⟨some a, none, tid, sockfd⟩) with hset
  have hheap : heap a = some ⟨none, none, t, sock⟩ := by
    rw [hset, Function.update_of_ne hne]
    exact alone_heap fds a t sock
  unfold Pool.connect Pool.addWorker
  show Option.map _ (heap a) = _
  rw [hheap]
  rfl

omit [DecidableEq T] in
theorem two_heap (fds : Finset Int) (a wtp : Nat) (t tid : T) (sock sockfd : Int) :
    (Pool.two fds a t sock wtp tid sockfd).heap a = some ⟨none, some wtp, t, sock⟩ := by
  unfold Pool.two
  dsimp only
  rw [Function.update_self]

omit [DecidableEq T] in
theorem two_heap_new {a wtp : Nat} (hne : wtp ≠ a) (fds : Finset Int) (t tid : T) (sock sockfd : Int) :
    (Pool.two fds a t sock wtp tid sockfd).heap wtp = some ⟨some a, none, tid, sockfd⟩ := by
  unfold Pool.two
  dsimp only
  rw [Function.update_of_ne hne, Function.update_self]

/-- **One client at a time is what the list is good for.** After any run in which no client came while another
    was served, a further client leaves the list in order if and only if no other is served. -/
theorem connect_orderly_iff {tr : List (PoolEvent T)} (h : Run OneAtATime (.init T fds) tr p) {tid : T}
    {sockfd : Int} {wtp : Nat} (hc : PoolStep p (.connect tid sockfd wtp) p') :
    Orderly p' ↔ p.workers = none := by
  cases hc with
  | connect hfree hsock hnew hc =>
      cases run_tidy h with
      | empty =>
          refine iff_of_true ?_ rfl
          rw [connect_init] at hc
          obtain rfl := Option.some.inj hc
          intro a w hw
          have ha : a = wtp := by
            by_contra hne
            rw [alone_heap_of_ne hne] at hw
            contradiction
          rw [ha, alone_heap] at hw
          obtain rfl := Option.some.inj hw
          exact ⟨1, _, cleanup_alone hsock wtp tid 0, hsock, fun b hb => nomatch hb⟩
      | @one a t sock hs =>
          refine iff_of_false (fun horderly => ?_) (Option.some_ne_none a)
          rw [connect_alone hfree] at hc
          obtain rfl := Option.some.inj hc
          have hne : wtp ≠ a := by
            rintro rfl
            rw [alone_heap] at hfree
            contradiction
          have htid : t ≠ tid := hnew a _ (alone_heap fds a t sock)
          -- the new thread does not find itself
          obtain ⟨fuel, p', hclean, hclosed, _⟩ := horderly wtp _ (two_heap_new hne fds t tid sock sockfd)
          cases fuel with
          | zero => contradiction
          | succ fuel =>
              rw [cleanup_absent rfl (two_heap fds a wtp t tid sock sockfd) rfl htid] at hclean
              obtain rfl := Outcome.next.inj hclean
              exact hclosed (Finset.mem_insert_self _ _)

/-- A first client. -/
theorem run_first : Run OneAtATime (.init Nat {0, 1, 2}) [.connect 7 3 0] (.alone {0, 1, 2} 0 7 3) :=
  .cons ⟨.connect rfl (by decide) (fun _ w hw => absurd hw.symm (Option.some_ne_none w)) rfl, fun _ => rfl⟩ .refl

/-- A second one, while the first one is served. -/
theorem step_second :
    PoolStep (.alone {0, 1, 2} 0 7 3) (.connect 8 4 1) (.two ({0, 1, 2} : Finset Int) 0 7 3 1 8 4) := by
  refine .connect (alone_heap_of_ne (by decide) _ 7 3) (by decide) (fun a w hw => ?_)
    (connect_alone (alone_heap_of_ne (by decide) _ 7 3) 8 4)
  by_cases ha : a = 0
  · rw [ha, alone_heap] at hw
    obtain rfl := Option.some.inj hw
    show 7 ≠ 8
    decide
  · rw [alone_heap_of_ne ha] at hw
    contradiction

/-- A second client behind the first one, and one beside it. -/
theorem connect_orderly_iff_example :
    (∃ p p' : Pool Nat, Run OneAtATime (.init Nat {0, 1, 2}) [.connect 7 3 0, .ends 7] p ∧
      PoolStep p (.connect 8 4 1) p' ∧ Orderly p') ∧
    ∃ p p' : Pool Nat, Run OneAtATime (.init Nat {0, 1, 2}) [.connect 7 3 0] p ∧
      PoolStep p (.connect 8 4 1) p' ∧ ¬ Orderly p' := by
  constructor
  · have hends : OneAtATime (.alone {0, 1, 2} 0 7 3) (.ends 7) (.init Nat {0, 1, 2}) :=
      ⟨.ends (cleanup_alone (by decide) 0 7 0), Bool.noConfusion⟩
    have hrun : Run OneAtATime (.init Nat {0, 1, 2}) [.connect 7 3 0, .ends 7] (.init Nat {0, 1, 2}) :=
      run_first.append (.cons hends .refl)
    have hc : PoolStep (.init Nat {0, 1, 2}) (.connect 8 4 1) (.alone {0, 1, 2} 1 8 4) :=
      .connect rfl (by decide) (fun _ w hw => absurd hw.symm (Option.some_ne_none w)) rfl
    exact ⟨_, _, hrun, hc, (connect_orderly_iff hrun hc).mpr rfl⟩
  · exact ⟨_, _, run_first, step_second, fun ho =>
      Option.some_ne_none 0 ((connect_orderly_iff run_first step_second).mp ho)⟩

/-- Where `workers` points to a freed object, each walk touches it, and a new worker, unless the object is
    this one. -/
theorem fault_of_dangling {a : Nat} (hw : p.workers = some a) (hheap : p.heap a = none) :
    (∀ fuel, p.killWorkers (fuel + 1) = .fault ∧ ∀ t, p.clientCleanup (fuel + 1) t = .fault) ∧
      ∀ t sockfd wtp, wtp ≠ a → p.connect t sockfd wtp = none := by
  refine ⟨fun fuel => ⟨?_, fun t => ?_⟩, fun t sockfd wtp hne => ?_⟩
  · unfold Pool.killWorkers
    rw [hw]
    unfold Pool.cancelLoop
    rw [hheap]
  · have hfind : p.find t (fuel + 1) (some a) = .fault := by
      unfold Pool.find
      rw [hheap]
    unfold Pool.clientCleanup
    rw [hw, hfind]
  · -- `workers->prev` is written
    have hheap' : Function.update p.heap wtp (some ⟨some a, none, t, sockfd⟩) a = none := by
      rw [Function.update_of_ne (Ne.symm hne), hheap]
    unfold Pool.connect Pool.addWorker
    dsimp only [Pool.setWorker]
    rw [hw]
    show Option.map _ (Function.update p.heap wtp (some ⟨some a, none, t, sockfd⟩) a) = none
    rw [hheap']
    rfl

/-- **Two clients at a time.** Where a client came while another was served, the end of the other leaves
    `workers` pointing to a freed object. The end of any thread and `kill_workers` touch it then, and so does
    `add_worker`, unless `malloc` returns the same object again. -/
theorem overlap_dangles {tr : List (PoolEvent T)} (h : Run OneAtATime (.init T fds) tr p) {tid : T}
    {sockfd : Int} {wtp a : Nat} (hc : PoolStep p (.connect tid sockfd wtp) p') (ha : p.workers = some a) :
    ∃ t p'', PoolStep p' (.ends t) p'' ∧ p''.workers = some a ∧ p''.heap a = none ∧
      (∀ fuel, p''.killWorkers (fuel + 1) = .fault ∧ ∀ t', p''.clientCleanup (fuel + 1) t' = .fault) ∧
      ∀ t' sockfd' wtp', wtp' ≠ a → p''.connect t' sockfd' wtp' = none := by
  cases hc with
  | connect hfree hsock hnew hc =>
      cases run_tidy h with
      | empty => contradiction
      | @one a t sock hs =>
          obtain rfl := Option.some.inj ha
          rw [connect_alone hfree] at hc
          obtain rfl := Option.some.inj hc
          have hne : wtp ≠ a := by
            rintro rfl
            rw [alone_heap] at hfree
            contradiction
          have hfind : (Pool.two fds a t sock wtp tid sockfd).find t 1 (some a) = .worker a := by
            unfold Pool.find
            rw [two_heap]
            exact if_pos rfl
          -- `workers` is not touched, since a thread is in front
          have hunlink : (Pool.two fds a t sock wtp tid sockfd).unlinkWorker ⟨none, some wtp, t, sock⟩ =
              some ((Pool.two fds a t sock wtp tid sockfd).setWorker wtp ⟨none, none, tid, sockfd⟩) := by
            show Option.map _ ((Pool.two fds a t sock wtp tid sockfd).heap wtp) = _
            rw [two_heap_new hne]
            rfl
          obtain ⟨p'', hclean, hw, hheap⟩ : ∃ p'', (Pool.two fds a t sock wtp tid sockfd).clientCleanup 1 t =
              .next p'' ∧ p''.workers = some a ∧ p''.heap a = none := by
            unfold Pool.clientCleanup
            rw [show (Pool.two fds a t sock wtp tid sockfd).workers = some a from rfl, hfind]
            dsimp only
            rw [two_heap]
            dsimp only
            rw [hunlink]
            exact ⟨_, rfl, rfl, Function.update_self _ _ _⟩
          exact ⟨t, p'', .ends hclean, hw, hheap, fault_of_dangling hw hheap⟩

/-- The first client ends while the second is served. -/
theorem overlap_dangles_example : ∃ (p₁ p₂ p₃ : Pool Nat) (t : Nat),
    Run OneAtATime (.init Nat {0, 1, 2}) [.connect 7 3 0] p₁ ∧ PoolStep p₁ (.connect 8 4 1) p₂ ∧
      PoolStep p₂ (.ends t) p₃ ∧ p₃.killWorkers 1 = .fault ∧ p₃.connect 9 5 2 = none := by
  obtain ⟨t, p, hends, _, _, hfault, hconnect⟩ := overlap_dangles run_first step_second rfl
  exact ⟨_, _, p, t, run_first, step_second, hends, (hfault 0).1, hconnect 9 5 2 (by decide)⟩

end Printd
