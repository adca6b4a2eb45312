import Mathlib.Order.CompletePartialOrder
import Mathlib.Order.Interval.Set.Disjoint

/-!
# Pulses: half-open spans of time grown one pulse at a time

A `Span` is a half-open interval `[start, stop)` of a linear order of instants; it may be empty.

* `Span.stretch s x` : `s` extended to the end of the pulse `x`;
* `Within p s x` : `x` begins inside `s` or at most `p` after its end;
* `Grown p P` : the spans obtained from one pulse of `P` by stretching over further pulses of `P`, each
  beginning within `p`; `Grown.near` : a grown span contains nothing farther than `p` from a pulse;
* `Before` : one span ends no later than the other begins; a nonempty span that begins no earlier than `s` is disjoint
  from `s` only if `s` is `Before` it (`Before.of_disjoint`).
-/

namespace TimeChamp.Lib.Pulse

/-- A half-open span of instants; empty when `stop ≤ start`. -/
structure Span (α : Type*) where
  start : α
  stop : α
deriving DecidableEq

section Order
variable {α : Type*} [LinearOrder α]

/-- The instants of a span. -/
def Span.set (s : Span α) : Set α := Set.Ico s.start s.stop

@[simp] theorem Span.mem_set {s : Span α} {y : α} : y ∈ s.set ↔ s.start ≤ y ∧ y < s.stop := Iff.rfl

/-- `s` extended to the end of `x`, or `s` itself when it already reaches that far. -/
def Span.stretch (s x : Span α) : Span α := ⟨s.start, max s.stop x.stop⟩

@[simp] theorem Span.stretch_start (s x : Span α) : (s.stretch x).start = s.start := rfl

@[simp] theorem Span.stretch_stop (s x : Span α) : (s.stretch x).stop = max s.stop x.stop := rfl

theorem Span.set_subset_stretch_of_le {s x : Span α} (h : s.start ≤ x.start) : x.set ⊆ (s.stretch x).set :=
  Set.Ico_subset_Ico h (le_max_right _ _)

/-! ## Separation -/

/-- `s` ends no later than `x` begins. -/
def Before (s x : Span α) : Prop := s.stop ≤ x.start

theorem Before.disjoint {s x : Span α} (h : Before s x) : Disjoint s.set x.set :=
  Set.disjoint_left.mpr fun _ hs hx => absurd (h.trans hx.1) (not_le.mpr hs.2)

/-- A nonempty span that begins no earlier than `s` is disjoint from `s` only when `s` ends before it. -/
theorem Before.of_disjoint {s x : Span α} (hx : x.start < x.stop)
    (hle : s.start ≤ x.start) (h : Disjoint s.set x.set) : Before s x := by
  by_contra hlt
  have hmem : x.start ∈ s.set := ⟨hle, not_le.mp hlt⟩
  exact Set.disjoint_left.mp h hmem ⟨le_rfl, hx⟩

theorem disjoint_of_empty {s x : Span α} (hs : s.stop ≤ s.start) : Disjoint s.set x.set := by
  have : s.set = ∅ := Set.Ico_eq_empty (not_lt.mpr hs)
  rw [this]
  exact Set.empty_disjoint _

end Order

/-! ## Growth -/

section Growth
variable {α : Type*} [Add α] [LinearOrder α]

/-- `x` begins inside `s` or at most `p` after its end. -/
def Within (p : α) (s x : Span α) : Prop := s.start ≤ x.start ∧ x.start ≤ s.stop + p

/-- The spans grown from pulses of `P`, each pulse beginning within `p` of what was grown so far. -/
inductive Grown (p : α) (P : Span α → Prop) : Span α → Prop where
  | pulse {s : Span α} (h : P s) : Grown p P s
  | stretch {s x : Span α} (h : Grown p P s) (hx : P x) (hw : Within p s x) : Grown p P (s.stretch x)

variable {p : α} {P Q : Span α → Prop}

theorem Grown.mono (h : ∀ s, P s → Q s) {s : Span α} (hs : Grown p P s) : Grown p Q s := by
  induction hs with
  | pulse hp => exact .pulse (h _ hp)
  | stretch _ hx hw ih => exact .stretch ih (h _ hx) hw

/-- A grown span ends where some pulse ends. -/
theorem Grown.exists_stop {s : Span α} (hs : Grown p P s) : ∃ x, P x ∧ x.stop = s.stop := by
  induction hs with
  | pulse hp => exact ⟨_, hp, rfl⟩
  | @stretch s x _ hx _ ih =>
      rcases le_total s.stop x.stop with hle | hle
      · exact ⟨x, hx, (max_eq_right hle).symm⟩
      · obtain ⟨y, hy, hstop⟩ := ih
        exact ⟨y, hy, hstop.trans (max_eq_left hle).symm⟩

/-- **Growth invents at most the gaps.** Every instant of a grown span lies in a pulse, or less than `p` after
the end of one. -/
theorem Grown.near {s : Span α} (hs : Grown p P s) {y : α} (hy : y ∈ s.set) :
    ∃ x, P x ∧ (y ∈ x.set ∨ x.stop ≤ y ∧ y < x.stop + p) := by
  induction hs with
  | pulse hp => exact ⟨_, hp, Or.inl hy⟩
  | @stretch s x hs hx hw ih =>
      by_cases hold : y < s.stop
      · exact ih ⟨hy.1, hold⟩
      · have hge : s.stop ≤ y := not_lt.mp hold
        by_cases hin : x.start ≤ y
        · have hlt : y < x.stop := (lt_max_iff.mp hy.2).resolve_left hold
          exact ⟨x, hx, Or.inl ⟨hin, hlt⟩⟩
        · obtain ⟨z, hz, hstop⟩ := hs.exists_stop
          refine ⟨z, hz, Or.inr ⟨hstop ▸ hge, ?_⟩⟩
          rw [hstop]
          exact lt_of_lt_of_le (not_le.mp hin) hw.2

end Growth

end TimeChamp.Lib.Pulse
