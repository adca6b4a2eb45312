import Mathlib.Order.Lattice

/-!
# Durations of 64 bits

Instants are integers of nanoseconds; a duration is an integer of nanoseconds `InRange` of 64 bits.

* `wrap d` : the duration that a sum or difference of durations comes to;
* `sub t u` : the time between two instants, which saturates.
-/

namespace TimeChamp.Lib.Duration

/-- The longest duration, 292 years. -/
def maxDuration : Int := 9223372036854775807

theorem maxDuration_eq : maxDuration = 9223372036854775807 := rfl

/-- Durations fit 64 bits. -/
def InRange (d : Int) : Prop := -maxDuration - 1 ≤ d ∧ d ≤ maxDuration

instance (d : Int) : Decidable (InRange d) := inferInstanceAs (Decidable (_ ∧ _))

/-! ## Sums of durations -/

def wrap (d : Int) : Int := (d + 9223372036854775808) % 18446744073709551616 - 9223372036854775808

theorem inRange_wrap (d : Int) : InRange (wrap d) := by
  unfold InRange wrap
  rw [maxDuration_eq]
  omega

theorem wrap_eq {d : Int} (h : InRange d) : wrap d = d := by
  unfold InRange at h
  rw [maxDuration_eq] at h
  unfold wrap
  omega

theorem wrap_le {d : Int} (h : -maxDuration - 1 ≤ d) : wrap d ≤ d := by
  rw [maxDuration_eq] at h
  unfold wrap
  omega

theorem wrap_neg {d : Int} (h : maxDuration < d) (h' : d ≤ 2 * maxDuration) : wrap d < 0 := by
  rw [maxDuration_eq] at h h'
  unfold wrap
  omega

/-! ## Between two instants -/

def sub (t u : Int) : Int := max (-maxDuration - 1) (min (t - u) maxDuration)

theorem inRange_sub (t u : Int) : InRange (sub t u) := by
  unfold InRange sub
  rw [maxDuration_eq]
  omega

theorem sub_of_le {t u : Int} (h : u ≤ t) : sub t u = min (t - u) maxDuration := by
  unfold sub
  rw [maxDuration_eq]
  omega

theorem le_sub_iff {d t u : Int} (h : 0 ≤ d ∧ d ≤ maxDuration) : d ≤ sub t u ↔ d ≤ t - u := by
  unfold sub
  rw [maxDuration_eq] at *
  omega

theorem sub_pos {t u : Int} : 0 < sub t u ↔ u < t := by
  unfold sub
  rw [maxDuration_eq]
  omega

end TimeChamp.Lib.Duration
