import Mathlib.Data.Int.Order.Basic

/-!
# `Lib.Clock` — times in seconds and nanoseconds

A time is a pair of seconds and nanoseconds, normalized where the nanoseconds are less than a second.
`nanos` is the one number such a pair stands for. Normalized times compare as their pairs do, seconds first
(`nanos_lt_iff`), and their difference is again a normalized time, with a second borrowed where the
nanoseconds alone would go below zero (`Elapsed.of_le`, `Elapsed.of_borrow`).
-/

namespace Clock

/-- The nanoseconds of a second. -/
abbrev nsecPerSec : Int := 1000000000

/-- `struct timespec` -/
structure Timespec where
  sec  : Int
  nsec : Int
deriving DecidableEq

def Timespec.nanos (t : Timespec) : Int := t.sec * nsecPerSec + t.nsec

structure Timespec.Normalized (t : Timespec) : Prop where
  nonneg : 0 ≤ t.nsec
  lt     : t.nsec < nsecPerSec

variable {s t : Timespec}

/-- **Comparison** is seconds first. -/
theorem nanos_lt_iff (hs : s.Normalized) (ht : t.Normalized) :
    s.nanos < t.nanos ↔ t.sec > s.sec ∨ t.sec = s.sec ∧ t.nsec > s.nsec := by
  obtain ⟨hs0, hs1⟩ := hs
  obtain ⟨ht0, ht1⟩ := ht
  unfold Timespec.nanos nsecPerSec at *
  omega

/-- `w` is the time from `s` to `t`, as a normalized time that is not negative. -/
structure Elapsed (s t w : Timespec) : Prop where
  normalized : w.Normalized
  nonneg     : 0 ≤ w.sec
  sum        : s.nanos + w.nanos = t.nanos

/-- **The difference** where the nanoseconds can be subtracted. -/
theorem Elapsed.of_le (hs : s.Normalized) (ht : t.Normalized) (hsec : s.sec ≤ t.sec) (hle : s.nsec ≤ t.nsec) :
    Elapsed s t ⟨t.sec - s.sec, t.nsec - s.nsec⟩ := by
  obtain ⟨hs0, hs1⟩ := hs
  obtain ⟨ht0, ht1⟩ := ht
  unfold nsecPerSec at *
  refine ⟨⟨?_, ?_⟩, ?_, ?_⟩
  · show 0 ≤ t.nsec - s.nsec
    omega
  · show t.nsec - s.nsec < 1000000000
    omega
  · show 0 ≤ t.sec - s.sec
    omega
  · unfold Timespec.nanos nsecPerSec
    dsimp only
    omega

/-- **The difference** where a second is borrowed. -/
theorem Elapsed.of_borrow (hs : s.Normalized) (ht : t.Normalized) (hsec : s.sec < t.sec)
    (hlt : t.nsec < s.nsec) :
    Elapsed s t ⟨t.sec - s.sec - 1, nsecPerSec - s.nsec + t.nsec⟩ := by
  obtain ⟨hs0, hs1⟩ := hs
  obtain ⟨ht0, ht1⟩ := ht
  unfold nsecPerSec at *
  refine ⟨⟨?_, ?_⟩, ?_, ?_⟩
  · show 0 ≤ 1000000000 - s.nsec + t.nsec
    omega
  · show 1000000000 - s.nsec + t.nsec < 1000000000
    omega
  · show 0 ≤ t.sec - s.sec - 1
    omega
  · unfold Timespec.nanos nsecPerSec
    dsimp only
    omega

end Clock
