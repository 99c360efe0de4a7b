import ApueToyCodes.Timeout.Timer

/-!
# `Timeout.Correctness.Schedule` — a function called once, at its time

For all times and all outcomes of the calls of the system, the function given to `timeout` is to be called
once: by the thread, which then is to sleep just until the time, or by `timeout` itself. The block with the
arguments is to be freed by the one that calls.

All exits of `timeout` but one do so. Where the block cannot be allocated, `timeout` says so and goes on to
write into it; and a time that is further from now than `time_t` reaches has no difference.
-/

namespace Timeout
open Clock (Timespec Elapsed nanos_lt_iff)

universe u

variable {φ α : Type u} {o : Calls} {now when : Timespec} {func : φ} {arg : α} {es : List (Event φ α)}

/-- What is done by `timeout` and by the thread. -/
def Run.events (r : Run φ α) : List (Event φ α) := r.parent ++ r.thread.getD []

/-- The calls among `es`. -/
def calls (es : List (Event φ α)) : List (φ × α) :=
  es.filterMap fun | .call func arg => some (func, arg) | _ => none

/-- How often the block is freed. -/
def frees (es : List (Event φ α)) : Nat := es.countP fun | .free => true | _ => false

/-- What `timeout` is to achieve. -/
structure Scheduled (now when : Timespec) (func : φ) (arg : α) (r : Run φ α) : Prop where
  called : calls r.events = [(func, arg)]
  handed : ∀ es, r.thread = some es → now.nanos < when.nanos ∧
    ∃ wait, es = timeoutHelper ⟨func, arg, wait⟩ ∧ Elapsed now when wait
  freed  : .malloc ∈ r.events → frees r.events = 1

/-- **`makepthread`** has made its thread exactly where it returns 0. -/
theorem makepthread_cases {β τ : Type u} (o : Calls) (fn : β → τ) (arg : β) :
    makepthread o fn arg = (0, some (fn arg)) ∨ ∃ err, err ≠ 0 ∧ makepthread o fn arg = (err, none) := by
  unfold makepthread
  by_cases hinit : o.attrInit ≠ 0
  · exact Or.inr ⟨o.attrInit, hinit, if_pos hinit⟩
  · rw [if_neg hinit]
    by_cases hset : o.setdetachstate ≠ 0
    · exact Or.inr ⟨o.setdetachstate, hset, if_pos hset⟩
    · rw [if_neg hset]
      by_cases hcreate : o.create ≠ 0
      · exact Or.inr ⟨o.create, hcreate, if_pos hcreate⟩
      · exact Or.inl (if_neg hcreate)

/-- The time to wait, with a second borrowed where it must be. -/
theorem elapsed_wait (hn : now.Normalized) (hw : when.Normalized) (hlt : now.nanos < when.nanos) :
    Elapsed now when (if when.nsec ≥ now.nsec then ⟨when.sec - now.sec, when.nsec - now.nsec⟩
      else ⟨when.sec - now.sec - 1, Clock.nsecPerSec - now.nsec + when.nsec⟩) := by
  have hcmp := (nanos_lt_iff hn hw).mp hlt
  split
  case isTrue hle => exact .of_le hn hw (by omega) hle
  case isFalse hgt => exact .of_borrow hn hw (by omega) (by omega)

/-- A call at once. -/
theorem scheduled_now : Scheduled now when func arg ⟨[.call func arg], none⟩ := by
  refine ⟨rfl, fun es h => ?_, fun h => ?_⟩
  · cases h
  · have hmem := List.mem_singleton.mp h
    cases hmem

/-- A call at once because no thread could be made. -/
theorem scheduled_direct : Scheduled now when func arg ⟨[.malloc, .free, .call func arg], none⟩ := by
  refine ⟨rfl, fun es h => ?_, fun _ => rfl⟩
  cases h

/-- A call by the thread. -/
theorem scheduled_thread {wait : Timespec} (hlt : now.nanos < when.nanos) (hwait : Elapsed now when wait) :
    Scheduled now when func arg ⟨[.malloc], some (timeoutHelper ⟨func, arg, wait⟩)⟩ := by
  refine ⟨rfl, fun es h => ?_, fun _ => rfl⟩
  obtain rfl := Option.some.inj h
  exact ⟨hlt, wait, rfl, hwait⟩

/-- **A time that is to come**, with a block and a difference: the thread calls, or `timeout` does. -/
theorem timeout_later (hn : now.Normalized) (hw : when.Normalized) (hlt : now.nanos < when.nanos)
    (hm : o.malloc = true) (hfit : when.sec - now.sec < 9223372036854775808) :
    ∃ r, timeout o now when func arg = some r ∧ Scheduled now when func arg r := by
  have hcmp := (nanos_lt_iff hn hw).mp hlt
  have hwait := elapsed_wait hn hw hlt
  unfold timeout timeT
  rw [if_pos hcmp, hm, if_neg Bool.noConfusion, if_pos ⟨by omega, hfit⟩]
  dsimp only [Option.map_some]
  generalize (if when.nsec ≥ now.nsec then _ else _ : Timespec) = wait at hwait ⊢
  rcases makepthread_cases o timeoutHelper ⟨func, arg, wait⟩ with hmade | ⟨err, herr, hmade⟩
  · rw [hmade]
    exact ⟨_, rfl, scheduled_thread hlt hwait⟩
  · rw [hmade]
    dsimp only
    rw [if_neg herr]
    exact ⟨_, rfl, scheduled_direct⟩

/-- **A time that is to come** without a block, or without a difference: there is no result. -/
theorem timeout_fails (hcmp : when.sec > now.sec ∨ when.sec = now.sec ∧ when.nsec > now.nsec)
    (h : ¬ (o.malloc = true ∧ when.sec - now.sec < 9223372036854775808)) :
    timeout o now when func arg = none := by
  unfold timeout timeT
  rw [if_pos hcmp]
  cases hm : o.malloc with
  | false => rfl
  | true =>
      rw [if_neg Bool.noConfusion, if_neg (fun hfit => h ⟨hm, hfit.2⟩)]
      rfl

/-- **`timeout` schedules its function**, for all outcomes of its calls, exactly where the time is over, or
    the block is allocated and `time_t` has the difference of the seconds. -/
theorem timeout_scheduled_iff (hn : now.Normalized) (hw : when.Normalized) :
    (∃ r, timeout o now when func arg = some r ∧ Scheduled now when func arg r) ↔
      when.nanos ≤ now.nanos ∨ o.malloc = true ∧ when.sec - now.sec < 9223372036854775808 := by
  by_cases hlt : now.nanos < when.nanos
  · have hcmp := (nanos_lt_iff hn hw).mp hlt
    rw [or_iff_right (not_le.mpr hlt)]
    constructor
    · rintro ⟨r, hr, _⟩
      by_contra hnot
      rw [timeout_fails hcmp hnot] at hr
      cases hr
    · rintro ⟨hm, hfit⟩
      exact timeout_later hn hw hlt hm hfit
  · have hcmp := mt (nanos_lt_iff hn hw).mpr hlt
    refine iff_of_true ⟨_, if_neg hcmp, scheduled_now⟩ (Or.inl (not_lt.mp hlt))

/-- Five seconds from now, less the nanoseconds over. -/
theorem timeout_scheduled_iff_later :
    ∃ r, timeout ⟨true, 0, 0, 0⟩ ⟨5, 900⟩ ⟨10, 100⟩ "retry" 7 = some r ∧
      Scheduled ⟨5, 900⟩ ⟨10, 100⟩ "retry" 7 r := by
  apply (timeout_scheduled_iff ?_ ?_).mpr
  · exact Or.inr ⟨rfl, by decide⟩
  · exact ⟨by decide, by decide⟩
  · exact ⟨by decide, by decide⟩

/-- Without memory the block is written all the same. -/
theorem timeout_without_memory :
    timeout ⟨false, 0, 0, 0⟩ ⟨5, 0⟩ ⟨10, 0⟩ "retry" 7 = none ∧
    ¬ ∃ r, timeout ⟨false, 0, 0, 0⟩ ⟨5, 0⟩ ⟨10, 0⟩ "retry" 7 = some r ∧
      Scheduled ⟨5, 0⟩ ⟨10, 0⟩ "retry" 7 r := by
  have hnone : timeout ⟨false, 0, 0, 0⟩ ⟨5, 0⟩ ⟨10, 0⟩ "retry" 7 = none := rfl
  refine ⟨hnone, ?_⟩
  rintro ⟨r, hr, _⟩
  rw [hnone] at hr
  cases hr

end Timeout
