import Mathlib.Order.Basic

/-!
# Dates in a local time zone

Instants and local times are milliseconds. A `Zone` is what date arithmetic knows of a time zone: the offset at each
instant, and the offset with which a local time is read back.

* `Zone` : a local time that occurs twice is read as the first instant, one that is skipped with the offset before it;
* `Zone.fixed`, `Zone.change` : a zone without changes, and one with a single change;
* `addLocalDays` : the same time of day some days later, as `setDate(getDate() + n)` computes it;
* `addLocalDays_eq` : it is off by the change of the offset on the way.
-/

namespace TimeChamp.Lib

def msPerDay : Int := 86400000

/-- A time zone. `offset t` is the local time at the instant `t`, less `t`. -/
structure Zone where
  offset : Int → Int
  localOffset : Int → Int
  bounded : ∀ t, -msPerDay < offset t ∧ offset t < msPerDay
  /-- A local time that occurs is read with the offset at its first instant. -/
  occurs : ∀ l t, t + offset t = l → ∃ d, d + offset d = l ∧ (∀ t, t + offset t = l → d ≤ t) ∧ localOffset l = offset d
  /-- A local time that is skipped is read with the offset at the last instant whose local time is the latest before. -/
  skipped : ∀ l, (∀ t, t + offset t ≠ l) → ∃ d, d + offset d < l ∧
    (∀ t, t + offset t < l → t + offset t < d + offset d ∨ t + offset t = d + offset d ∧ t ≤ d) ∧
    localOffset l = offset d

/-- A zone that never changes its offset. -/
def Zone.fixed (o : Int) (h : -msPerDay < o ∧ o < msPerDay) : Zone where
  offset _ := o
  localOffset _ := o
  bounded _ := h
  occurs l t ht := ⟨t, ht, fun t' ht' => by omega, rfl⟩
  skipped l hl := absurd (hl (l - o)) (by omega)

/-- A zone that changes its offset once. -/
def Zone.change (instant before after : Int) (hb : -msPerDay < before ∧ before < msPerDay)
    (ha : -msPerDay < after ∧ after < msPerDay) : Zone where
  offset t := if t < instant then before else after
  localOffset l := if l < instant + max before after then before else after
  bounded t := by split_ifs <;> assumption
  occurs l t ht := by
    by_cases hl : l < instant + before
    · refine ⟨l - before, ?_, fun t' ht' => ?_, ?_⟩ <;> split_ifs at * <;> omega
    · refine ⟨t, ht, fun t' ht' => ?_, ?_⟩ <;> split_ifs at * <;> omega
  skipped l hl := by
    refine ⟨instant - 1, ?_, fun t ht => ?_, ?_⟩
    · have h1 := hl (l - before)
      split_ifs at * <;> omega
    · have h1 := hl (l - before)
      have h2 := hl (l - after)
      split_ifs at * <;> omega
    · have h1 := hl (l - before)
      have h2 := hl (l - after)
      split_ifs at * <;> omega

/-- The same local time `n` days later. -/
def Zone.addLocalDays (z : Zone) (t n : Int) : Int :=
  let l := t + z.offset t + n * msPerDay
  l - z.localOffset l

/-- How much later the clock is set over these days. -/
def Zone.drift (z : Zone) (t n : Int) : Int := z.localOffset (t + z.offset t + n * msPerDay) - z.offset t

theorem Zone.addLocalDays_eq (z : Zone) (t n : Int) : z.addLocalDays t n = t + n * msPerDay - z.drift t n := by
  unfold addLocalDays drift
  dsimp only
  omega

/-- A local time is read with the offset at some instant. -/
theorem Zone.exists_localOffset (z : Zone) (l : Int) : ∃ t, z.localOffset l = z.offset t := by
  by_cases h : ∃ t, t + z.offset t = l
  · obtain ⟨t, ht⟩ := h
    obtain ⟨d, -, -, hd⟩ := z.occurs l t ht
    exact ⟨d, hd⟩
  · obtain ⟨d, -, -, hd⟩ := z.skipped l (not_exists.mp h)
    exact ⟨d, hd⟩

/-- The clock is never set by two days or more. -/
theorem Zone.drift_bound (z : Zone) (t n : Int) : -2 * msPerDay < z.drift t n ∧ z.drift t n < 2 * msPerDay := by
  obtain ⟨d, hd⟩ := z.exists_localOffset (t + z.offset t + n * msPerDay)
  have hbefore := z.bounded t
  have hafter := z.bounded d
  unfold drift
  rw [hd]
  omega

end TimeChamp.Lib
