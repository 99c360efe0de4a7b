import ApueToyCodes.TellWait.Pipes

/-!
# `TellWait.Correctness.Tokens` — every wait is answered by a tell of its own

Over every interleaving of parent and child: the k-th return of a waiting function comes after the k-th write
of the telling function on the other side, the bytes on a pipe are neither lost nor read twice, and no
process finds a wrong character.

`Good` is the invariant of the states. `Balanced` adds the history of one pipe: the bytes taken from it are
the returns of its waiting function and the one byte that function may be looking at. What was put on the
pipe is known from the conservation law of `Lib.Channels`.
-/

namespace TellWait
open Runs Channels

/-- The byte that travels over a pipe. -/
def token : Pipe → UInt8
  | .fd1 => 'p'.toUInt8
  | .fd2 => 'c'.toUInt8

/-- Who waits at a pipe, in which function. -/
def waiter : Pipe → Party × Code
  | .fd1 => (.child, waitParent)
  | .fd2 => (.parent, wiatChild)

/-- Who writes to a pipe. -/
def teller : Pipe → Party
  | .fd1 => .parent
  | .fd2 => .child

/-- The two pipes have their waiters in different processes. -/
theorem waiter_inj {fd fd' : Pipe} (h : (waiter fd).1 = (waiter fd').1) : fd = fd' := by
  revert h
  cases fd <;> cases fd' <;> decide

/-- A waiting function is called at its own pipe only, and expects the byte of that pipe. -/
theorem wait_mem_calls {w : Party} {fd : Pipe} {c : UInt8} {error : String}
    (h : .wait fd c error ∈ w.calls) : (w, .wait fd c error) = waiter fd ∧ c = token fd := by
  cases w with
  | parent =>
      have heq : Code.wait fd c error = wiatChild := by simpa [Party.calls, tellChild] using h
      obtain ⟨rfl, rfl, rfl⟩ := Code.wait.inj heq
      exact ⟨rfl, rfl⟩
  | child =>
      have heq : Code.wait fd c error = waitParent := by simpa [Party.calls, tellParent] using h
      obtain ⟨rfl, rfl, rfl⟩ := Code.wait.inj heq
      exact ⟨rfl, rfl⟩

/-- A telling function likewise. -/
theorem tell_mem_calls {w : Party} {fd : Pipe} {c : UInt8}
    (h : .tell fd c ∈ w.calls) : w = teller fd ∧ c = token fd := by
  cases w with
  | parent =>
      have heq : Code.tell fd c = tellChild := by simpa [Party.calls, wiatChild] using h
      obtain ⟨rfl, rfl⟩ := Code.tell.inj heq
      exact ⟨rfl, rfl⟩
  | child =>
      have heq : Code.tell fd c = tellParent := by simpa [Party.calls, waitParent] using h
      obtain ⟨rfl, rfl⟩ := Code.tell.inj heq
      exact ⟨rfl, rfl⟩

/-! ## The invariant of the states -/

/-- Process `w` stands in one of its own functions; the byte it looks at is the one it expects. -/
def ProcOk (w : Party) : Proc → Prop
  | .idle                          => True
  | .called f                      => f ∈ w.calls
  | .checking (.wait fd c error) b => .wait fd c error ∈ w.calls ∧ b = c
  | .checking (.tell _ _) _        => False
  | .told (.tell fd c)             => .tell fd c ∈ w.calls
  | .told (.wait _ _ _)            => False
  | .exited code                   => code = -1

structure Good (s : Sys) : Prop where
  queue : ∀ fd, ∀ b ∈ s.queue fd, b = token fd
  proc  : ∀ w, ProcOk w (s.proc w)

/-- What a label may be: a pipe is written by its teller and read by its waiter, and nobody exits for a
    wrong character. -/
def LabelOk : Party × Event → Prop
  | (w, .write fd c)  => w = teller fd ∧ c = token fd
  | (w, .read fd c)   => w = (waiter fd).1 ∧ c = token fd
  | (_, .exit _ code) => code = -1
  | _                 => True

theorem good_setProc {s : Sys} {w : Party} {p : Proc} (hs : Good s) (hp : ProcOk w p) :
    Good (s.setProc w p) := by
  refine ⟨hs.queue, ?_⟩
  intro w'
  by_cases hw : w' = w
  · subst hw
    rw [setProc_self]
    exact hp
  · rw [setProc_of_ne hw]
    exact hs.proc w'

theorem good_setQueue {s : Sys} {fd : Pipe} {q : List UInt8} (hs : Good s)
    (hq : ∀ b ∈ q, b = token fd) : Good (s.setQueue fd q) := by
  refine ⟨fun fd' => ?_, hs.proc⟩
  by_cases hfd : fd' = fd
  · subst hfd
    show ∀ b ∈ Function.update s.queue fd' q fd', _
    rw [Function.update_self]
    exact hq
  · show ∀ b ∈ Function.update s.queue fd q fd', _
    rw [Function.update_of_ne hfd]
    exact hs.queue fd'

/-- **One step** keeps the invariant, and its label is one of those allowed. -/
theorem step_good {s s' : Sys} {a : Party × Event} (hs : Good s) (h : Step s a s') :
    Good s' ∧ LabelOk a := by
  cases h with
  | call _ hf => exact ⟨good_setProc hs hf, trivial⟩
  | @write w fd c hp =>
      have hok : ProcOk w (.called (.tell fd c)) := hp ▸ hs.proc w
      have ht := tell_mem_calls hok
      refine ⟨good_setProc (good_setQueue hs fun b hb => ?_) hok, ht⟩
      rcases List.mem_append.mp hb with hb | hb
      · exact hs.queue fd b hb
      · rw [List.mem_singleton.mp hb]
        exact ht.2
  | writeError _ => exact ⟨good_setProc hs rfl, rfl⟩
  | @read w fd c b error rest hp hq =>
      have hok : ProcOk w (.called (.wait fd c error)) := hp ▸ hs.proc w
      obtain ⟨hw, hc⟩ := wait_mem_calls hok
      have hb : b = token fd := hs.queue fd b (by rw [hq]; exact List.mem_cons_self)
      refine ⟨good_setProc (good_setQueue hs ?_) ⟨hok, by rw [hb, hc]⟩, ?_⟩
      · intro b' hb'
        exact hs.queue fd b' (by rw [hq]; exact List.mem_cons_of_mem _ hb')
      · exact ⟨congrArg Prod.fst hw, hb⟩
  | readError _ => exact ⟨good_setProc hs rfl, rfl⟩
  | @wrong w fd c b error hp hne =>
      have hok : ProcOk w (.checking (.wait fd c error) b) := hp ▸ hs.proc w
      exact absurd hok.2 hne
  | waited _ => exact ⟨good_setProc hs trivial, trivial⟩
  | told _ => exact ⟨good_setProc hs trivial, trivial⟩

/-! ## The bytes of a pipe -/

/-- `pipeOp` is what a step does to the pipes. -/
theorem step_acts {s s' : Sys} {a : Party × Event} (h : Step s a s') :
    (pipeOp a).Acts s.queue s'.queue := by
  cases h with
  | write _ => rfl
  | read _ hq => exact ⟨_, hq, rfl⟩
  | _ => rfl

/-- An allowed label puts a byte on `fd` exactly when it is a write of the teller. -/
theorem putOn_length {a : Party × Event} (h : LabelOk a) (fd : Pipe) :
    ((pipeOp a).putOn fd).toList.length = [a].count (teller fd, .write fd (token fd)) := by
  obtain ⟨w, e⟩ := a
  cases e with
  | write fd' c =>
      obtain ⟨rfl, rfl⟩ : w = teller fd' ∧ c = token fd' := h
      by_cases hfd : fd' = fd
      · subst hfd
        simp [pipeOp, Op.putOn]
      · simp [pipeOp, Op.putOn, hfd]
  | call f => simp [pipeOp, Op.putOn]
  | read fd' c => simp [pipeOp, Op.putOn]
  | ret f => simp [pipeOp, Op.putOn]
  | exit text code => simp [pipeOp, Op.putOn]

/-- The bytes put on a pipe are the writes of its teller. -/
theorem puts_length {tr : List (Party × Event)} (h : ∀ a ∈ tr, LabelOk a) (fd : Pipe) :
    (puts pipeOp fd tr).length = tr.count (teller fd, .write fd (token fd)) := by
  induction tr with
  | nil => rfl
  | cons a tr ih =>
      have hrest := ih fun b hb => h b (List.mem_cons_of_mem _ hb)
      have ha := putOn_length (h a List.mem_cons_self) fd
      have hcons : a :: tr = [a] ++ tr := rfl
      rw [puts_cons, List.length_append, hrest, ha, hcons, List.count_append]

/-! ## The returns of a waiting function -/

/-- `f` has read its byte and not returned yet. -/
def pending (f : Code) : Proc → Nat
  | .checking g _ => if g = f then 1 else 0
  | _             => 0

/-- The bytes taken from `fd` are the returns of its waiter and the byte it holds. -/
def Balanced (fd : Pipe) (past : List (Party × Event)) (s : Sys) : Prop :=
  (takes pipeOp fd past).length
    = past.count ((waiter fd).1, .ret (waiter fd).2) + pending (waiter fd).2 (s.proc (waiter fd).1)

/-- A step that takes nothing from `fd`, is no return of its waiter, and finds and leaves its process without a
    byte of `fd`. -/
theorem balanced_quiet {s t : Sys} {w : Party} {p : Proc} {e : Event} {fd : Pipe} (ht : t.proc = s.proc)
    (hbefore : pending (waiter fd).2 (s.proc w) = 0) (hafter : pending (waiter fd).2 p = 0)
    (htake : (pipeOp (w, e)).takenFrom fd = none)
    (hret : (w, e) ≠ ((waiter fd).1, .ret (waiter fd).2)) :
    ((pipeOp (w, e)).takenFrom fd).toList.length + pending (waiter fd).2 (s.proc (waiter fd).1)
      = [(w, e)].count ((waiter fd).1, .ret (waiter fd).2)
        + pending (waiter fd).2 ((t.setProc w p).proc (waiter fd).1) := by
  rw [htake, List.count_singleton, if_neg (by simpa using hret)]
  by_cases hw : (waiter fd).1 = w
  · rw [hw, setProc_self, hbefore, hafter]
    rfl
  · rw [setProc_of_ne hw, ht]
    rfl

/-- What one step adds to both sides. -/
theorem step_balanced {s s' : Sys} {a : Party × Event} (hs : Good s) (h : Step s a s') (fd : Pipe) :
    ((pipeOp a).takenFrom fd).toList.length + pending (waiter fd).2 (s.proc (waiter fd).1)
      = [a].count ((waiter fd).1, .ret (waiter fd).2) + pending (waiter fd).2 (s'.proc (waiter fd).1) := by
  cases h with
  | call hp hf => exact balanced_quiet rfl (by rw [hp]; rfl) rfl rfl (by simp)
  | write hp => exact balanced_quiet (setQueue_proc s _ _) (by rw [hp]; rfl) rfl rfl (by simp)
  | writeError hp => exact balanced_quiet rfl (by rw [hp]; rfl) rfl rfl (by simp)
  | @read w fd' c b error rest hp hq =>
      have hok : ProcOk w (.called (.wait fd' c error)) := hp ▸ hs.proc w
      obtain ⟨hwait, _⟩ := wait_mem_calls hok
      by_cases hfd : fd' = fd
      · -- the waiter of `fd` takes its byte
        subst hfd
        rw [← hwait]
        simp [pipeOp, Op.takenFrom, hp, pending]
      · have hw : w ≠ (waiter fd).1 := fun heq => hfd (waiter_inj ((congrArg Prod.fst hwait).symm.trans heq))
        simp [pipeOp, Op.takenFrom, hfd, setProc_of_ne (Ne.symm hw)]
  | readError hp => exact balanced_quiet rfl (by rw [hp]; rfl) rfl rfl (by simp)
  | @wrong w fd' c b error hp hne =>
      have hok : ProcOk w (.checking (.wait fd' c error) b) := hp ▸ hs.proc w
      exact absurd hok.2 hne
  | @waited w fd' c error hp =>
      have hok : ProcOk w (.checking (.wait fd' c error) c) := hp ▸ hs.proc w
      obtain ⟨hwait, _⟩ := wait_mem_calls hok.1
      by_cases hfd : fd' = fd
      · -- the waiter of `fd` returns
        subst hfd
        rw [← hwait]
        simp [pipeOp, Op.takenFrom, hp, pending]
      · have hw : w ≠ (waiter fd).1 := fun heq => hfd (waiter_inj ((congrArg Prod.fst hwait).symm.trans heq))
        simp [pipeOp, Op.takenFrom, setProc_of_ne (Ne.symm hw), hw]
  | @told w f hp =>
      have hok : ProcOk w (.told f) := hp ▸ hs.proc w
      have hf : f ≠ (waiter fd).2 := by
        rintro rfl
        cases fd <;> exact hok
      exact balanced_quiet rfl (by rw [hp]; rfl) rfl rfl (by simp [hf])

/-! ## Runs -/

/-- What is known of a run from its start: the state is good, the labels are allowed, the pipes are
    balanced. -/
structure Known (past : List (Party × Event)) (s : Sys) : Prop where
  good     : Good s
  labels   : ∀ a ∈ past, LabelOk a
  balanced : ∀ fd, Balanced fd past s

theorem known_step {past : List (Party × Event)} {s s' : Sys} {a : Party × Event} (hk : Known past s)
    (h : Step s a s') : Known (past ++ [a]) s' := by
  obtain ⟨hgood, hlab⟩ := step_good hk.good h
  refine ⟨hgood, ?_, ?_⟩
  · intro b hb
    rcases List.mem_append.mp hb with hb | hb
    · exact hk.labels b hb
    · rw [List.mem_singleton.mp hb]
      exact hlab
  · intro fd
    have hold := hk.balanced fd
    have hnew := step_balanced hk.good h fd
    have htakes : (takes pipeOp fd (past ++ [a])).length
        = (takes pipeOp fd past).length + ((pipeOp a).takenFrom fd).toList.length := by
      rw [takes_append, List.length_append, takes_cons]
      simp [takes]
    unfold Balanced at hold ⊢
    rw [htakes, List.count_append]
    omega

/-- **The run lemma**: after `WAIT` and any interleaving, and the bytes of every pipe accounted for. -/
theorem run_known {made : Pipe → Bool} {s₀ s : Sys} {tr : List (Party × Event)}
    (h₀ : wait made = some s₀) (hr : Run Step s₀ tr s) :
    Known tr s ∧ ∀ fd, puts pipeOp fd tr = takes pipeOp fd tr ++ s.queue fd := by
  have hs₀ : s₀ = ⟨fun _ => [], fun _ => .idle⟩ := by
    unfold wait at h₀
    split at h₀
    · exact (Option.some.inj h₀).symm
    · exact absurd h₀ (by simp)
  subst hs₀
  have hstart : Known [] (⟨fun _ => [], fun _ => .idle⟩ : Sys) :=
    ⟨⟨fun _ => by simp, fun _ => trivial⟩, by simp, fun _ => rfl⟩
  have hknown := hr.invariant_trace (fun _ _ _ _ hk h => known_step hk h) hstart
  have hacts : ∀ s a s', Step s a s' → (pipeOp a).Acts (Sys.queue s) (Sys.queue s') :=
    fun _ _ _ h => step_acts h
  have hbytes := run_conserves hacts hr
  exact ⟨hknown, hbytes⟩

/-- A return of the waiter of a pipe follows a write of the teller that no earlier return followed. -/
theorem ret_after_write {made : Pipe → Bool} {s₀ s : Sys} {tr pre post : List (Party × Event)}
    (h₀ : wait made = some s₀) (hr : Run Step s₀ tr s) (fd : Pipe)
    (htr : tr = pre ++ ((waiter fd).1, .ret (waiter fd).2) :: post) :
    pre.count ((waiter fd).1, .ret (waiter fd).2) < pre.count (teller fd, .write fd (token fd)) := by
  subst htr
  obtain ⟨s₁, hpre, hpost⟩ := hr.split
  obtain ⟨hk, hbytes⟩ := run_known h₀ hpre
  have hbal := hk.balanced fd
  have hput := puts_length hk.labels fd
  have hlen := congrArg List.length (hbytes fd)
  rw [List.length_append] at hlen
  -- the return finds the waiter with its byte in hand
  have hpend : pending (waiter fd).2 (s₁.proc (waiter fd).1) = 1 := by
    cases hpost with
    | cons hst _ =>
        generalize hw : waiter fd = wf at hst
        obtain ⟨w, f⟩ := wf
        cases hst with
        | @waited _ fd' c error hp => rw [hp]; simp [pending]
        | told hp =>
            have hok : ProcOk w (.told f) := hp ▸ hk.good.proc w
            have hf : f = (waiter fd).2 := by rw [hw]
            subst hf
            cases fd <;> exact absurd hok id
  unfold Balanced at hbal
  omega

/-- **Parent and child are synchronised.** Over every interleaving, from pipes just made: the k-th return of
    `WAIT_PARENT` comes after the k-th write of `TELL_CHILD`, the k-th return of `WIAT_CHILD` after the k-th
    write of `TELL_PARENT`; the bytes read from a pipe are the first of the bytes written to it, in order,
    and the rest is still in it; each byte read is one return of the waiting function, but for the one it may
    be looking at; and nobody exits for a wrong character. -/
theorem tell_wait_synchronised {made : Pipe → Bool} {s₀ s : Sys} {tr : List (Party × Event)}
    (h₀ : wait made = some s₀) (hr : Run Step s₀ tr s) :
    (∀ pre post, tr = pre ++ (.child, .ret waitParent) :: post →
      pre.count (.child, .ret waitParent) < pre.count (.parent, .write .fd1 'p'.toUInt8)) ∧
    (∀ pre post, tr = pre ++ (.parent, .ret wiatChild) :: post →
      pre.count (.parent, .ret wiatChild) < pre.count (.child, .write .fd2 'c'.toUInt8)) ∧
    (∀ fd, puts pipeOp fd tr = takes pipeOp fd tr ++ s.queue fd) ∧
    (takes pipeOp .fd1 tr).length
      = tr.count (.child, .ret waitParent) + pending waitParent (s.proc .child) ∧
    (takes pipeOp .fd2 tr).length
      = tr.count (.parent, .ret wiatChild) + pending wiatChild (s.proc .parent) ∧
    ∀ w text, (w, .exit text (-2)) ∉ tr := by
  obtain ⟨hk, hbytes⟩ := run_known h₀ hr
  refine ⟨?_, ?_, hbytes, hk.balanced .fd1, hk.balanced .fd2, ?_⟩
  · intro pre post htr
    exact ret_after_write h₀ hr .fd1 htr
  · intro pre post htr
    exact ret_after_write h₀ hr .fd2 htr
  · intro w text hmem
    have hcode : (-2 : Int) = -1 := hk.labels _ hmem
    exact absurd hcode (by decide)

/-- The child calls `WAIT_PARENT` before the parent has told it, and returns when it has. -/
def oneTell : List (Party × Event) :=
  [(.child, .call waitParent), (.parent, .call tellChild), (.parent, .write .fd1 'p'.toUInt8),
   (.child, .read .fd1 'p'.toUInt8), (.child, .ret waitParent)]

theorem exists_oneTell : ∃ s₀ s, wait (fun _ => true) = some s₀ ∧ Run Step s₀ oneTell s := by
  exact ⟨⟨fun _ => [], fun _ => .idle⟩, _, rfl,
    .cons (.call rfl (by decide)) (.cons (.call rfl (by decide)) (.cons (.write rfl)
      (.cons (.read rfl rfl) (.cons (.waited rfl) .refl))))⟩

/-- The synchronisation in that run: the byte is gone from the pipe, and the one wait has returned. -/
theorem tell_wait_synchronised_oneTell : ∃ s₀ s, Run Step s₀ oneTell s ∧
    puts pipeOp .fd1 oneTell = takes pipeOp .fd1 oneTell ++ s.queue .fd1 ∧
    (takes pipeOp .fd1 oneTell).length = 1 + pending waitParent (s.proc .child) := by
  obtain ⟨s₀, s, h₀, hr⟩ := exists_oneTell
  obtain ⟨_, _, hbytes, hbal, _, _⟩ := tell_wait_synchronised h₀ hr
  exact ⟨s₀, s, hr, hbytes .fd1, hbal⟩

end TellWait
