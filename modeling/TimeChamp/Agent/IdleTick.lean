import Mathlib.Data.List.Basic
import Mathlib.Data.Int.Order.Basic
import Mathlib.Algebra.Ring.Int.Defs
import Mathlib.Order.Nat
import Mathlib.Order.MinMax
import Mathlib.Logic.Function.Basic

/-!
# The idle tick

The branch of the agent's event loop (`cmd/agent/main.go`) that decides each second whether the user is away, over
`medianUint32` (`cmd/agent/idle_filter.go`): a ring of three readings, their median, and a count of the medians below the
threshold in a row, of which two end an absence. A resume of the system ends it at once.

* `idleSamples_recent` : the ring holds the last three readings;
* `count_of_isAFK` : the count is at most one while the user is away, though nothing resets it on entry;
* `spikesFiltered_iff` : what sets, ends and leaves alone the flag, for every threshold that fits 32 bits and for no other.
-/

namespace TimeChamp.Agent.IdleTick

/-! ## The middle of three -/

section Median
variable {α : Type} [LinearOrder α]

def median (a b c : α) : α := max (min a b) (min (max a b) c)

/-- The median is at or above `t` when two of the three are. -/
theorem le_median {t a b c : α} : t ≤ median a b c ↔ t ≤ a ∧ t ≤ b ∨ t ≤ a ∧ t ≤ c ∨ t ≤ b ∧ t ≤ c := by
  unfold median
  rw [le_max_iff, le_min_iff, le_min_iff, le_max_iff]
  tauto

end Median

/-! ## The source -/

/-- Go's conversion of an `int`. -/
def uint32 (n : Int) : Nat := (n % 2 ^ 32).toNat

theorem uint32_eq {n : Int} (h0 : 0 ≤ n) (h : n < 2 ^ 32) : (uint32 n : Int) = n := by
  unfold uint32
  omega

/-- `getEnvPositiveInt`, of what `os.Getenv` and `strconv.Atoi` make of the variable. -/
def getEnvPositiveInt (parsed : Option Int) (fallback : Int) : Int :=
  let n := parsed.getD fallback
  if n ≤ 0 then fallback else n

/-- `cfg.IdleThreshold` for the variable `TC_IDLE_THRESHOLD`. -/
def idleThreshold (env : Option Int) : Int := getEnvPositiveInt env 180

theorem idleThreshold_pos (env : Option Int) : 0 < idleThreshold env := by
  unfold idleThreshold getEnvPositiveInt
  dsimp only
  split <;> omega

def medianUint32 (a : Vector Nat 3) : Nat :=
  let x := a[0]
  let y := a[1]
  let z := a[2]
  let (x, y) := if x > y then (y, x) else (x, y)
  let (y, _) := if y > z then (z, y) else (y, z)
  let (_, y) := if x > y then (y, x) else (x, y)
  y

theorem medianUint32_eq (a : Vector Nat 3) : medianUint32 a = median a[0] a[1] a[2] := by
  unfold medianUint32 median
  dsimp only
  split_ifs <;> omega

/-- The state of the loop that the tick reads and writes. -/
structure IdleState where
  idleSamples : Vector Nat 3
  idleSampleIdx : Nat
  activeConfirmCount : Nat
  isAFK : Bool

def idleStart : IdleState := ⟨#v[0, 0, 0], 0, 0, false⟩

/-- What a tick does besides: a change of the flag flushes the queue on the way in, and is logged. -/
inductive IdleEffect where
  | flushAll
  | pausing (idleSec : Nat)
  | returned (idleSec : Nat)
deriving DecidableEq

/-- The branch of `idleTicker.C`. -/
def idleTick (threshold rawIdle : Int) (s : IdleState) : IdleState × List IdleEffect :=
  let idleSamples := s.idleSamples.set (s.idleSampleIdx % 3) (uint32 rawIdle) (Nat.mod_lt _ (by decide))
  let idleSec := medianUint32 idleSamples
  let activeConfirmCount := if idleSec < uint32 threshold then s.activeConfirmCount + 1 else 0
  let isAFK :=
    if s.isAFK = true ∧ activeConfirmCount ≥ 2 then false
    else if s.isAFK = false ∧ idleSec ≥ uint32 threshold then true
    else s.isAFK
  (⟨idleSamples, s.idleSampleIdx + 1, activeConfirmCount, isAFK⟩,
    if s.isAFK = isAFK then [] else if isAFK then [.flushAll, .pausing idleSec] else [.returned idleSec])

section Tick
variable {threshold rawIdle : Int} {s : IdleState}

theorem idleTick_above (h : uint32 threshold ≤ medianUint32 (idleTick threshold rawIdle s).1.idleSamples) :
    (idleTick threshold rawIdle s).1.activeConfirmCount = 0 ∧ (idleTick threshold rawIdle s).1.isAFK = true := by
  unfold idleTick at h ⊢
  dsimp only at h ⊢
  rw [if_neg (Nat.not_lt.mpr h)]
  refine ⟨rfl, ?_⟩
  cases s.isAFK <;> simp [h]

theorem idleTick_below (h : medianUint32 (idleTick threshold rawIdle s).1.idleSamples < uint32 threshold) :
    (idleTick threshold rawIdle s).1.activeConfirmCount = s.activeConfirmCount + 1 ∧
      (idleTick threshold rawIdle s).1.isAFK = (s.isAFK && decide (s.activeConfirmCount = 0)) := by
  have htwo : s.activeConfirmCount + 1 ≥ 2 ↔ ¬ s.activeConfirmCount = 0 := by omega
  unfold idleTick at h ⊢
  dsimp only at h ⊢
  rw [if_pos h]
  refine ⟨rfl, ?_⟩
  cases s.isAFK <;> simp [h, htwo]

end Tick

/-- What the loop receives here: a tick with its reading, or a resume of the system. -/
inductive IdleEvent where
  | tick (rawIdle : Int)
  | resume
deriving DecidableEq

def idleStep (threshold : Int) : IdleEvent → IdleState → IdleState
  | .tick rawIdle, s => (idleTick threshold rawIdle s).1
  | .resume, s => { s with isAFK := false }

/-- The state after the first `n` events. -/
def stateAt (threshold : Int) (es : Nat → IdleEvent) : Nat → IdleState
  | 0 => idleStart
  | n + 1 => idleStep threshold (es n) (stateAt threshold es n)

/-! ## What the ring holds -/

/-- The readings of the first `n` events, newest first. -/
def readings (es : Nat → IdleEvent) : Nat → List Int
  | 0 => []
  | n + 1 =>
    match es n with
    | .tick rawIdle => rawIdle :: readings es n
    | .resume => readings es n

/-- The last three readings; a slot that is not filled yet counts as 0. -/
def lastThree (xs : List Int) : List Int := [xs.getD 0 0, xs.getD 1 0, xs.getD 2 0]

def medianOf (xs : List Int) : Int := median (xs.getD 0 0) (xs.getD 1 0) (xs.getD 2 0)

theorem le_medianOf_iff_countP {t : Int} {xs : List Int} : t ≤ medianOf xs ↔ 2 ≤ (lastThree xs).countP (t ≤ ·) := by
  unfold medianOf lastThree
  rw [le_median]
  simp only [List.countP_cons, List.countP_nil, decide_eq_true_eq]
  split_ifs <;> omega

/-- The slot of the ring that the `k`-th reading goes to. -/
def slot (s : IdleState) (k : Nat) : Nat := s.idleSamples[k % 3]

/-- The ring holds the last three readings, the newest just before the index. -/
structure Recent (xs : List Int) (s : IdleState) : Prop where
  idx : s.idleSampleIdx = xs.length
  newest : slot s (xs.length + 2) = uint32 (xs.getD 0 0)
  second : slot s (xs.length + 1) = uint32 (xs.getD 1 0)
  third : slot s xs.length = uint32 (xs.getD 2 0)

theorem recent_start : Recent [] idleStart := ⟨rfl, rfl, rfl, rfl⟩

theorem slot_tick (threshold rawIdle : Int) (s : IdleState) (k : Nat) :
    slot (idleTick threshold rawIdle s).1 k = if k % 3 = s.idleSampleIdx % 3 then uint32 rawIdle else slot s k := by
  unfold slot idleTick
  dsimp only
  rw [Vector.getElem_set]
  by_cases h : k % 3 = s.idleSampleIdx % 3
  · simp [h]
  · rw [if_neg (Ne.symm h), if_neg h]

theorem Recent.tick {xs : List Int} {s : IdleState} (h : Recent xs s) (threshold rawIdle : Int) :
    Recent (rawIdle :: xs) (idleTick threshold rawIdle s).1 where
  idx := congrArg (· + 1) h.idx
  newest := by
    rw [slot_tick, h.idx, if_pos (by rw [List.length_cons]; omega), List.getD_cons_zero]
  second := by
    rw [slot_tick, h.idx, if_neg (by rw [List.length_cons]; omega), List.length_cons, List.getD_cons_succ]
    exact h.newest
  third := by
    rw [slot_tick, h.idx, if_neg (by rw [List.length_cons]; omega), List.length_cons, List.getD_cons_succ]
    exact h.second

theorem Recent.resume {xs : List Int} {s : IdleState} (h : Recent xs s) : Recent xs { s with isAFK := false } :=
  ⟨h.idx, h.newest, h.second, h.third⟩

theorem idleSamples_recent (threshold : Int) (es : Nat → IdleEvent) (n : Nat) :
    Recent (readings es n) (stateAt threshold es n) := by
  induction n with
  | zero => exact recent_start
  | succ n ih =>
      unfold readings stateAt
      cases es n with
      | tick rawIdle => exact ih.tick threshold rawIdle
      | resume => exact ih.resume

/-- The median of the ring is that of the last three readings, in whatever slots they are. -/
theorem Recent.median {xs : List Int} {s : IdleState} (h : Recent xs s) :
    medianUint32 s.idleSamples = median (uint32 (xs.getD 0 0)) (uint32 (xs.getD 1 0)) (uint32 (xs.getD 2 0)) := by
  have hslots : (slot s (xs.length + 2), slot s (xs.length + 1), slot s xs.length) ∈
      [(s.idleSamples[2], s.idleSamples[1], s.idleSamples[0]), (s.idleSamples[0], s.idleSamples[2], s.idleSamples[1]),
        (s.idleSamples[1], s.idleSamples[0], s.idleSamples[2])] := by
    have hmod : xs.length % 3 = 0 ∨ xs.length % 3 = 1 ∨ xs.length % 3 = 2 := by omega
    unfold slot
    rcases hmod with h0 | h0 | h0 <;> simp [Nat.add_mod, h0]
  rw [medianUint32_eq, ← h.newest, ← h.second, ← h.third]
  apply eq_of_forall_le_iff
  intro c
  rw [le_median, le_median]
  simp only [List.mem_cons, List.not_mem_nil, or_false, Prod.mk.injEq] at hslots
  rcases hslots with ⟨h2, h1, h0⟩ | ⟨h2, h1, h0⟩ | ⟨h2, h1, h0⟩ <;> rw [h2, h1, h0] <;> tauto

/-! ## Thresholds and readings that fit -/

/-- What 32 bits hold. -/
def InRange (n : Int) : Prop := 0 ≤ n ∧ n < 2 ^ 32

instance : DecidablePred InRange := fun n => inferInstanceAs (Decidable (0 ≤ n ∧ n < 2 ^ 32))

theorem InRange.getD {xs : List Int} (h : ∀ x ∈ xs, InRange x) (k : Nat) : InRange (xs.getD k 0) := by
  rw [List.getD_eq_getElem?_getD]
  cases hk : xs[k]? with
  | none => decide
  | some x => exact h x (List.mem_of_getElem? hk)

theorem readings_inRange {es : Nat → IdleEvent} (hes : ∀ n r, es n = .tick r → InRange r) (n : Nat) :
    ∀ x ∈ readings es n, InRange x := by
  induction n with
  | zero => simp [readings]
  | succ n ih =>
      unfold readings
      cases he : es n with
      | tick r => exact List.forall_mem_cons.mpr ⟨hes n r he, ih⟩
      | resume => exact ih

section Spec
variable {t : Int} {xs : List Int} {s : IdleState}

/-- The comparison of the tick is that of the median of the last three readings with the threshold. -/
theorem Recent.uint32_le_median (h : Recent xs s) (ht : InRange t) (hxs : ∀ x ∈ xs, InRange x) :
    uint32 t ≤ medianUint32 s.idleSamples ↔ t ≤ medianOf xs := by
  have hfit : ∀ k, uint32 t ≤ uint32 (xs.getD k 0) ↔ t ≤ xs.getD k 0 := by
    intro k
    have hk := InRange.getD hxs k
    rw [← Int.ofNat_le, uint32_eq ht.1 ht.2, uint32_eq hk.1 hk.2]
  unfold medianOf
  rw [h.median, le_median, le_median, hfit, hfit, hfit]

/-- **What a tick does**: the count is that of the medians below the threshold in a row; the flag is set when the median
is not below, and cleared when the count reaches two. -/
theorem Recent.tick_spec {r : Int} (h : Recent xs s) (ht : InRange t) (hxs : ∀ x ∈ r :: xs, InRange x) :
    (idleTick t r s).1.activeConfirmCount = (if medianOf (r :: xs) < t then s.activeConfirmCount + 1 else 0) ∧
      (idleTick t r s).1.isAFK =
        if medianOf (r :: xs) < t then s.isAFK && decide (s.activeConfirmCount = 0) else true := by
  have hcmp := (h.tick t r).uint32_le_median ht hxs
  have hlt : medianUint32 (idleTick t r s).1.idleSamples < uint32 t ↔ medianOf (r :: xs) < t := by omega
  by_cases hm : medianOf (r :: xs) < t
  · rw [if_pos hm, if_pos hm]
    exact idleTick_below (hlt.mpr hm)
  · rw [if_neg hm, if_neg hm]
    exact idleTick_above (Nat.not_lt.mp (mt hlt.mp hm))

/-- While the user is away the last median below the threshold was the first: the count is at most one. -/
structure Confirming (t : Int) (xs : List Int) (s : IdleState) : Prop where
  below : 0 < s.activeConfirmCount → xs ≠ [] ∧ medianOf xs < t
  afk : s.isAFK = true → s.activeConfirmCount ≤ 1

theorem Recent.confirming {r : Int} (h : Recent xs s) (ht : InRange t) (hxs : ∀ x ∈ r :: xs, InRange x) :
    Confirming t (r :: xs) (idleTick t r s).1 := by
  obtain ⟨hcount, hflag⟩ := h.tick_spec ht hxs
  constructor
  · intro hpos
    rw [hcount] at hpos
    refine ⟨List.cons_ne_nil _ _, ?_⟩
    by_contra hm
    rw [if_neg hm] at hpos
    omega
  · intro hafk
    rw [hflag] at hafk
    rw [hcount]
    split at hafk
    next hm =>
      rw [if_pos hm]
      have := (Bool.and_eq_true_iff.mp hafk).2
      simp only [decide_eq_true_eq] at this
      omega
    next hm =>
      rw [if_neg hm]
      omega

end Spec

theorem confirming {t : Int} (ht : InRange t) {es : Nat → IdleEvent} (hes : ∀ n r, es n = .tick r → InRange r) (n : Nat) :
    Confirming t (readings es n) (stateAt t es n) := by
  induction n with
  | zero => exact ⟨fun h => absurd h (Nat.lt_irrefl 0), fun h => Bool.noConfusion h⟩
  | succ n ih =>
      have hxs := readings_inRange hes (n + 1)
      unfold readings at hxs ⊢
      unfold stateAt
      cases he : es n with
      | tick r =>
          rw [he] at hxs
          exact (idleSamples_recent t es n).confirming ht hxs
      | resume => exact ⟨ih.below, fun h => Bool.noConfusion h⟩

/-- Nothing resets the count when the user leaves, and nothing needs to. -/
theorem count_of_isAFK {t : Int} (ht : InRange t) {es : Nat → IdleEvent} (hes : ∀ n r, es n = .tick r → InRange r) {n : Nat}
    (h : (stateAt t es n).isAFK = true) : (stateAt t es n).activeConfirmCount ≤ 1 :=
  (confirming ht hes n).afk h

/-! ## A spike -/

/-- All on one side of the threshold. -/
def SameSide (t : Int) (xs : List Int) : Prop := (∀ x ∈ xs, t ≤ x) ∨ ∀ x ∈ xs, x < t

/-- The two readings before event `p`, and the first two of the `m` events after it. -/
def neighbours (es : Nat → IdleEvent) (p m : Nat) : List Int :=
  (readings es p).getD 0 0 :: (readings es p).getD 1 0 :: (readings (fun i => es (p + 1 + i)) m).reverse.take 2

theorem readings_congr {es es' : Nat → IdleEvent} {n : Nat} (h : ∀ i < n, es i = es' i) : readings es n = readings es' n := by
  induction n with
  | zero => rfl
  | succ n ih =>
      unfold readings
      rw [h n (Nat.lt_succ_self n), ih fun i hi => h i (Nat.lt_succ_of_lt hi)]

theorem stateAt_congr {t : Int} {es es' : Nat → IdleEvent} {n : Nat} (h : ∀ i < n, es i = es' i) :
    stateAt t es n = stateAt t es' n := by
  induction n with
  | zero => rfl
  | succ n ih =>
      unfold stateAt
      rw [h n (Nat.lt_succ_self n), ih fun i hi => h i (Nat.lt_succ_of_lt hi)]

theorem readings_add (es : Nat → IdleEvent) (p m : Nat) :
    readings es (p + m) = readings (fun i => es (p + i)) m ++ readings es p := by
  induction m with
  | zero => rfl
  | succ m ih =>
      simp only [readings]
      cases es (p + m) with
      | tick r => exact congrArg (r :: ·) ih
      | resume => exact ih

/-- With two neighbours before and up to two after on one side, the reading in the middle decides no median. -/
theorem le_medianOf_spike {t : Int} {before later : List Int}
    (h : SameSide t (before.getD 0 0 :: before.getD 1 0 :: later.reverse.take 2)) (r v : Int) :
    t ≤ medianOf (later ++ r :: before) ↔ t ≤ medianOf (later ++ v :: before) := by
  unfold medianOf
  rw [le_median, le_median]
  match later with
  | [] =>
      rcases h with h | h <;> simp at h <;> grind
  | [a] =>
      rcases h with h | h <;> simp at h <;> grind
  | [b, a] =>
      rcases h with h | h <;> simp at h <;> grind
  | c :: b :: a :: later => simp

/-- What the flag depends on besides the readings. -/
def SameFlag (s s' : IdleState) : Prop := s.activeConfirmCount = s'.activeConfirmCount ∧ s.isAFK = s'.isAFK

theorem SameFlag.resume {s s' : IdleState} (h : SameFlag s s') :
    SameFlag { s with isAFK := false } { s' with isAFK := false } := ⟨h.1, rfl⟩

theorem SameFlag.tick {t r r' : Int} {xs xs' : List Int} {s s' : IdleState} (h : SameFlag s s') (hs : Recent xs s)
    (hs' : Recent xs' s') (ht : InRange t) (hxs : ∀ x ∈ r :: xs, InRange x) (hxs' : ∀ x ∈ r' :: xs', InRange x)
    (hmed : t ≤ medianOf (r :: xs) ↔ t ≤ medianOf (r' :: xs')) :
    SameFlag (idleTick t r s).1 (idleTick t r' s').1 := by
  have hlt : medianOf (r :: xs) < t ↔ medianOf (r' :: xs') < t := by omega
  obtain ⟨hcount, hflag⟩ := hs.tick_spec ht hxs
  obtain ⟨hcount', hflag'⟩ := hs'.tick_spec ht hxs'
  unfold SameFlag
  rw [hcount, hcount', hflag, hflag', h.1, h.2]
  simp only [hlt, and_self]

section Spike
variable {t : Int} {es : Nat → IdleEvent} {p : Nat} {r v : Int}

theorem update_before (es : Nat → IdleEvent) (p : Nat) (v : Int) :
    ∀ i < p, Function.update es p (.tick v) i = es i := fun _ hi => Function.update_of_ne hi.ne _ _

theorem inRange_update (hes : ∀ n r, es n = .tick r → InRange r) (hv : InRange v) (n : Nat) (r' : Int)
    (hn : Function.update es p (.tick v) n = .tick r') : InRange r' := by
  by_cases hnp : n = p
  · subst hnp
    rw [Function.update_self] at hn
    rw [← IdleEvent.tick.inj hn]
    exact hv
  · rw [Function.update_of_ne hnp] at hn
    exact hes n r' hn

theorem readings_after (hp : es p = .tick r) (m : Nat) :
    readings es (p + 1 + m) = readings (fun i => es (p + 1 + i)) m ++ r :: readings es p := by
  rw [readings_add, show readings es (p + 1) = r :: readings es p by simp only [readings, hp]]

theorem readings_update (es : Nat → IdleEvent) (p : Nat) (v : Int) (m : Nat) :
    readings (Function.update es p (.tick v)) (p + 1 + m) =
      readings (fun i => es (p + 1 + i)) m ++ v :: readings es p := by
  have hlater : ∀ i < m, Function.update es p (.tick v) (p + 1 + i) = es (p + 1 + i) :=
    fun i _ => Function.update_of_ne (by omega) _ _
  rw [readings_after (Function.update_self p _ es), readings_congr (update_before es p v), readings_congr hlater]

/-- The reading decides no median. -/
theorem le_medianOf_update (hp : es p = .tick r) (hside : ∀ m, SameSide t (neighbours es p m)) (m : Nat) :
    t ≤ medianOf (readings es (p + 1 + m)) ↔ t ≤ medianOf (readings (Function.update es p (.tick v)) (p + 1 + m)) := by
  rw [readings_after hp, readings_update]
  exact le_medianOf_spike (hside m) r v

/-- **A spike changes nothing after it.** -/
theorem sameFlag_after (ht : InRange t) (hes : ∀ n r, es n = .tick r → InRange r) (hp : es p = .tick r) (hv : InRange v)
    (hside : ∀ m, SameSide t (neighbours es p m)) (m : Nat) :
    SameFlag (stateAt t es (p + 1 + m)) (stateAt t (Function.update es p (.tick v)) (p + 1 + m)) := by
  have hsame : Function.update es p (.tick v) p = .tick v := Function.update_self _ _ _
  have hes' := inRange_update (p := p) hes hv
  -- at the reading itself, and then at each event after it
  induction m with
  | zero =>
      have hnow := le_medianOf_update (v := v) hp hside 0
      have hbefore := readings_inRange hes (p + 1)
      have hbefore' := readings_inRange hes' (p + 1)
      simp only [readings, hp, hsame, stateAt, idleStep, readings_congr (update_before es p v),
        stateAt_congr (update_before es p v)] at hnow hbefore hbefore' ⊢
      have hstart := idleSamples_recent t es p
      exact SameFlag.tick ⟨rfl, rfl⟩ hstart hstart ht hbefore hbefore' hnow
  | succ m ih =>
      have hnow := le_medianOf_update (v := v) hp hside (m + 1)
      have hbefore := readings_inRange hes (p + 1 + (m + 1))
      have hbefore' := readings_inRange hes' (p + 1 + (m + 1))
      have hev : Function.update es p (.tick v) (p + 1 + m) = es (p + 1 + m) := Function.update_of_ne (by omega) _ _
      have hs := idleSamples_recent t es (p + 1 + m)
      have hs' := idleSamples_recent t (Function.update es p (.tick v)) (p + 1 + m)
      rw [← Nat.add_assoc] at hnow hbefore hbefore' ⊢
      simp only [readings, stateAt, hev] at hnow hbefore hbefore' ⊢
      cases he : es (p + 1 + m) with
      | tick x =>
          rw [he] at hnow hbefore hbefore'
          exact ih.tick hs hs' ht hbefore hbefore' hnow
      | resume => exact ih.resume

end Spike

/-! ## The flag -/

/-- **What is said of the flag**, for one threshold. -/
structure Filtered (t : Int) (es : Nat → IdleEvent) : Prop where
  /-- It is set at a tick only, when two of the last three readings are at or above the threshold. -/
  set : ∀ n, (stateAt t es n).isAFK = false → (stateAt t es (n + 1)).isAFK = true →
    (∃ r, es n = .tick r) ∧ 2 ≤ (lastThree (readings es (n + 1))).countP (t ≤ ·)
  /-- A tick clears it only when its median and that of the tick before are both below. -/
  cleared : ∀ n r, es n = .tick r → (stateAt t es n).isAFK = true → (stateAt t es (n + 1)).isAFK = false →
    medianOf (readings es (n + 1)) < t ∧ readings es n ≠ [] ∧ medianOf (readings es n) < t
  /-- A reading between neighbours on one side may be any other. -/
  spike : ∀ p r v, es p = .tick r → InRange v → (∀ m, SameSide t (neighbours es p m)) →
    ∀ n, (stateAt t (Function.update es p (.tick v)) n).isAFK = (stateAt t es n).isAFK

theorem filtered {t : Int} (ht : InRange t) {es : Nat → IdleEvent} (hes : ∀ n r, es n = .tick r → InRange r) :
    Filtered t es where
  set n hbefore hafter := by
    have hrec := idleSamples_recent t es n
    have hxs := readings_inRange hes (n + 1)
    unfold stateAt at hafter
    cases he : es n with
    | resume =>
        rw [he] at hafter
        exact absurd hafter (Bool.false_ne_true)
    | tick r =>
        refine ⟨⟨r, rfl⟩, le_medianOf_iff_countP.mp ?_⟩
        simp only [readings, he] at hxs ⊢
        rw [he] at hafter
        have hflag := (hrec.tick_spec ht hxs).2
        by_contra hm
        rw [if_pos (by omega), hbefore, Bool.false_and] at hflag
        exact absurd (hflag.symm.trans hafter) Bool.false_ne_true
  cleared n r he hbefore hafter := by
    have hrec := idleSamples_recent t es n
    have hxs := readings_inRange hes (n + 1)
    have hconf := confirming ht hes n
    simp only [stateAt, readings, he] at hafter hxs ⊢
    have hflag := (hrec.tick_spec ht hxs).2
    by_cases hm : medianOf (r :: readings es n) < t
    · refine ⟨hm, hconf.below ?_⟩
      rw [if_pos hm, hbefore, Bool.true_and] at hflag
      have hne : ¬ (stateAt t es n).activeConfirmCount = 0 := of_decide_eq_false (hflag.symm.trans hafter)
      omega
    · rw [if_neg hm] at hflag
      exact absurd (hafter.symm.trans hflag) Bool.false_ne_true
  spike p r v hp hv hside n := by
    by_cases hn : n ≤ p
    · exact congrArg _ (stateAt_congr fun i hi => Function.update_of_ne (by omega) _ _)
    · obtain ⟨m, rfl⟩ : ∃ m, n = p + 1 + m := ⟨n - (p + 1), by omega⟩
      exact (sameFlag_after ht hes hp hv hside m).2.symm

/-- A threshold that does not fit is compared through its low 32 bits: a user idle for that long is away. -/
theorem isAFK_of_large {t : Int} (es : Nat → IdleEvent) (hes : ∀ n, es n = .tick (uint32 t)) :
    (stateAt t es 2).isAFK = true := by
  have hfit : uint32 (uint32 t) = uint32 t := by
    unfold uint32
    omega
  have hrec := idleSamples_recent t es 2
  have hxs : readings es 2 = [(uint32 t : Int), uint32 t] := by simp only [readings, hes]
  have hmed : uint32 t ≤ medianUint32 (stateAt t es 2).idleSamples := by
    rw [hrec.median, hxs, le_median]
    exact Or.inl ⟨hfit.ge, hfit.ge⟩
  have hstep : stateAt t es 2 = (idleTick t (uint32 t) (stateAt t es 1)).1 := by
    show idleStep t (es 1) (stateAt t es 1) = _
    rw [hes 1]
    rfl
  rw [hstep] at hmed ⊢
  exact (idleTick_above hmed).2

theorem not_filtered_of_large {t : Int} (ht : 2 ^ 32 ≤ t) {es : Nat → IdleEvent} (hes : ∀ n, es n = .tick (uint32 t)) :
    ¬ Filtered t es := by
  intro h
  have hsmall : (uint32 t : Int) < t := by
    unfold uint32
    omega
  have hbelow : ∀ n, ¬ 2 ≤ (lastThree (readings es n)).countP (t ≤ ·) := by
    intro n
    have hall : ∀ x ∈ readings es n, x < t := by
      induction n with
      | zero => simp [readings]
      | succ n ih =>
          simp only [readings, hes]
          exact List.forall_mem_cons.mpr ⟨hsmall, ih⟩
    have hnone : (lastThree (readings es n)).countP (t ≤ ·) = 0 := by
      rw [List.countP_eq_zero]
      intro x hx
      rw [decide_eq_true_eq, not_le]
      have hget : ∀ k, (readings es n).getD k 0 < t := by
        intro k
        rw [List.getD_eq_getElem?_getD]
        cases hk : (readings es n)[k]? with
        | none => exact lt_of_lt_of_le (by decide) ht
        | some y => exact hall y (List.mem_of_getElem? hk)
      simp only [lastThree, List.mem_cons, List.not_mem_nil, or_false] at hx
      rcases hx with rfl | rfl | rfl <;> exact hget _
    omega
  -- the flag is set by the first or by the second tick
  by_cases hone : (stateAt t es 1).isAFK = true
  · exact hbelow 1 (h.set 0 rfl hone).2
  · exact hbelow 2 (h.set 1 (Bool.not_eq_true _ ▸ hone) (isAFK_of_large es hes)).2

/-- **The idle flag** does as said for every sequence of readings and resumes, exactly when the configured threshold fits
the 32 bits it is compared in. -/
theorem spikesFiltered_iff (env : Option Int) :
    (∀ es : Nat → IdleEvent, (∀ n r, es n = .tick r → InRange r) → Filtered (idleThreshold env) es) ↔
      idleThreshold env < 2 ^ 32 := by
  constructor
  · intro h
    by_contra hlarge
    refine not_filtered_of_large (Int.not_lt.mp hlarge) (fun _ => rfl) (h (fun _ => .tick (uint32 (idleThreshold env))) ?_)
    intro n r hr
    rw [← IdleEvent.tick.inj hr]
    unfold InRange uint32
    omega
  · intro h es hes
    exact filtered ⟨(idleThreshold_pos env).le, h⟩ hes

/-- With the threshold at 136 years and three minutes, a user idle for three minutes is away. -/
theorem away_after_three_minutes : ¬ Filtered (idleThreshold (some 4294967476)) fun _ => .tick 180 :=
  not_filtered_of_large (by decide) fun _ => by decide

end TimeChamp.Agent.IdleTick
