import ApueToyCodes.OpenServer.Correctness.Split

/-!
# `OpenServer.Correctness.ArgSplit` — what `buf_args` hands to its callee

`buf_args` is to hand the tokens of the buffer to `userfunc`, with a `NULL` behind them, and to give up
without a call where there is none or there are too many for `argv`. It gives up where it should and never
writes outside `argv` (`bufArgsSlots_lt`). But the `NULL` goes to the slot of the last token: `++argc` in the
loop leaves `argc` at that slot, and `argv[argc++]=NULL` counts on only afterwards. A call of `userfunc` is
never the right one.
-/

namespace OpenServer
open CStr

/-! ## The slots of argv -/

/-- The slots of `argv` the loop of `buf_args` and the store behind it write to, in order. -/
def loopSlots : Nat → List UInt8 → Nat → Nat → List Nat
  | 0,        _,   _,    _    => []
  | fuel + 1, buf, save, argc =>
    match strtok white buf save with
    | (none, _, _) => [argc]
    | (some _, buf, save) =>
      if argc + 1 ≥ maxargc - 1 then []
      else (argc + 1) :: loopSlots fuel buf save (argc + 1)

/-- The slots of `argv` that `buf_args` writes to. -/
def bufArgsSlots (buf : List UInt8) : List Nat :=
  match strtok white buf 0 with
  | (none, _, _) => []
  | (some _, buf, save) => 0 :: loopSlots maxargc buf save 0

theorem loopSlots_lt (fuel : Nat) : ∀ {buf : List UInt8} {save argc : Nat}, argc < maxargc - 1 →
    ∀ k ∈ loopSlots fuel buf save argc, k < maxargc := by
  induction fuel with
  | zero =>
      intro buf save argc _ k hk
      exact absurd hk List.not_mem_nil
  | succ fuel ih =>
      intro buf save argc hargc k hk
      rw [loopSlots] at hk
      rcases htok : strtok white buf save with ⟨_ | ptr, buf', save'⟩
      · rw [htok] at hk
        rw [List.mem_singleton.mp hk]
        omega
      · rw [htok] at hk
        dsimp only at hk
        by_cases hmax : argc + 1 ≥ maxargc - 1
        · rw [if_pos hmax] at hk
          exact absurd hk List.not_mem_nil
        · rw [if_neg hmax] at hk
          rcases List.mem_cons.mp hk with rfl | hk
          · omega
          · exact ih (by omega) k hk

/-- **No write outside `argv`.** -/
theorem bufArgsSlots_lt (buf : List UInt8) : ∀ k ∈ bufArgsSlots buf, k < maxargc := by
  intro k hk
  unfold bufArgsSlots at hk
  rcases htok : strtok white buf 0 with ⟨_ | ptr, buf', save'⟩
  · rw [htok] at hk
    exact absurd hk List.not_mem_nil
  · rw [htok] at hk
    rcases List.mem_cons.mp hk with rfl | hk
    · decide
    · exact loopSlots_lt maxargc (by decide) k hk

/-! ## The call of userfunc -/

/-- An element of `argv` that points at the string `w`. -/
def PointsTo (buf : List UInt8) (arg : Option Nat) (w : List UInt8) : Prop := ∃ p, arg = some p ∧ HasStr buf p w

/-- What `buf_args` is to do with a buffer that holds the text `t`. The callee is any function of `argc`,
    `argv` and the state: a result that is the same for all of them is one without a call. -/
structure SplitsTokens (t : List UInt8) (s : Server) : Prop where
  slots  : ∀ k ∈ bufArgsSlots s.buf, k < maxargc
  refuse : words white t = [] ∨ maxargc ≤ (words white t).length →
    ∃ buf', ∀ userfunc, bufArgs userfunc s = (-1, s.setBuf buf')
  call   : ¬ (words white t = [] ∨ maxargc ≤ (words white t).length) →
    ∃ argc argv buf', (∀ userfunc, bufArgs userfunc s = userfunc argc argv (s.setBuf buf')) ∧
      argc = (words white t).length ∧
      List.Forall₂ (PointsTo buf') (argv.take argc) (words white t) ∧ argv[argc]? = some none

/-- A callee sees its arguments. -/
theorem call_injective {argc argc' : Nat} {argv argv' : List (Option Nat)} {s s' : Server}
    (h : ∀ userfunc : Nat → List (Option Nat) → Server → Int × Server,
      userfunc argc argv s = userfunc argc' argv' s') : argc = argc' ∧ argv = argv' := by
  have hsame := congrArg Prod.fst (h fun n l s => (if n = argc' ∧ l = argv' then 1 else 0, s))
  by_cases heq : argc = argc' ∧ argv = argv'
  · exact heq
  · dsimp only at hsame
    rw [if_neg heq, if_pos ⟨rfl, rfl⟩] at hsame
    contradiction

/-- A `NULL` in the slot of the last token loses that token. -/
theorem not_forall_pointsTo {buf w : List UInt8} {ws : List (List UInt8)} {argv : List (Option Nat)}
    (hlen : ws.length < argv.length) :
    ¬ List.Forall₂ (PointsTo buf) ((argv.set ws.length none).take (ws.length + 1)) (w :: ws) := by
  intro hall
  have hlast : ws.length < ((argv.set ws.length none).take (ws.length + 1)).length := by
    rw [List.length_take, List.length_set]
    omega
  obtain ⟨p, hp, _⟩ := hall.get hlast (Nat.lt_succ_self _)
  rw [List.get_eq_getElem, List.getElem_take, List.getElem_set_self] at hp
  contradiction

/-- **`buf_args` splits the tokens** exactly where it gives up. -/
theorem buf_args_splits_iff {t : List UInt8} {s : Server} (ht : HasStr s.buf 0 t) :
    SplitsTokens t s ↔ words white t = [] ∨ maxargc ≤ (words white t).length := by
  constructor
  · intro h
    rcases bufArgs_spec ht with ⟨hw, _⟩ | ⟨w, ws, buf', qs, hw, hlt, _, hqs, heq⟩
    · exact hw
    · have hcall : ¬ (words white t = [] ∨ maxargc ≤ (words white t).length) := by
        rw [hw, List.length_cons]
        rintro (hnil | hlong)
        · exact List.cons_ne_nil w ws hnil
        · omega
      obtain ⟨argc, argv, buf'', heq', _, hall, _⟩ := h.call hcall
      obtain ⟨rfl, rfl⟩ := call_injective fun f => (heq' f).symm.trans (heq f)
      rw [hw] at hall
      refine absurd hall (not_forall_pointsTo ?_)
      rw [List.length_cons, List.length_map, hqs.length_eq]
      exact Nat.lt_succ_self _
  · intro hw
    refine ⟨bufArgsSlots_lt s.buf, fun _ => ?_, fun hcall => absurd hw hcall⟩
    rcases bufArgs_spec ht with ⟨_, hspec⟩ | ⟨w, ws, _, _, hw', hlt, _⟩
    · exact hspec
    · rw [hw', List.length_cons] at hw
      rcases hw with hnil | hlong
      · exact absurd hnil (List.cons_ne_nil w ws)
      · omega

/-- A buffer of blanks. -/
theorem buf_args_splits_iff_blank : SplitsTokens (ascii " \t") (started.setBuf (ascii " \t" ++ [0])) := by
  have ht : HasStr (started.setBuf (ascii " \t" ++ [0])).buf 0 (ascii " \t") := ⟨by decide, [], rfl⟩
  exact (buf_args_splits_iff ht).mpr (Or.inl (by decide))

/-- The request to open the file `a`: the flag word is lost to the `NULL`, and `argv[3]` is never written. -/
theorem buf_args_loses_token :
    (∀ userfunc, bufArgs userfunc (started.setBuf (ascii "open a 0" ++ [0]))
      = userfunc 3 [some 0, some 5, none] (started.setBuf (ascii "open\x00a\x000" ++ [0]))) ∧
    ¬ SplitsTokens (ascii "open a 0") (started.setBuf (ascii "open a 0" ++ [0])) := by
  have hcall : ∀ userfunc, bufArgs userfunc (started.setBuf (ascii "open a 0" ++ [0]))
      = userfunc 3 [some 0, some 5, none] (started.setBuf (ascii "open\x00a\x000" ++ [0])) :=
    fun _ => rfl
  refine ⟨hcall, fun h => ?_⟩
  obtain ⟨argc, argv, buf', heq, _, _, hnull⟩ := h.call (by decide)
  obtain ⟨rfl, rfl⟩ := call_injective fun f => (heq f).symm.trans (hcall f)
  contradiction

end OpenServer
