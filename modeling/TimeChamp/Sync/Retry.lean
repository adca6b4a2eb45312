import TimeChamp.Lib.Floats

/-!
# The intervals of the retry loop

`internal/sync/retry.go`: `WithRetryTag` with its guards, the interval it draws each sleep from, and how that grows.

* `Arch.toInt64` : the conversion of a product to a duration; `growth`, `intervals` : the interval of each round;
* `State`, `attempt`, `after` : the loop round by round, whatever `fn`, the clock and the draws answer;
* `Meets` : at least one call, `nil` exactly for a success, an end at the first permanent error, no sleep past the
  budget, and from the second draw on an interval that is positive and at most `MaxInterval`;
* `GrowsPositive` : what of the configuration decides this; `withRetry_iff` : **it does**.

The log lines, and the tag that is in them, decide nothing here.
-/

namespace TimeChamp.Sync.Retry
open Lib

/-! ## Durations -/

def second : Int := 1000000000

/-- The processors that the agent is built for. -/
inductive Arch where
  | amd64
  | arm64
deriving DecidableEq

/-- Towards zero. -/
def truncate (q : ℚ) : Int := if q < 0 then ⌈q⌉ else ⌊q⌋

/-- `time.Duration(x)`. The language leaves what does not fit to the processor: one has a value for all of it, the other
the nearest duration, and zero for what is not a number. -/
def Arch.toInt64 : Arch → Double → Int
  | arch, .finite q =>
      if -2 ^ 63 ≤ truncate q ∧ truncate q < 2 ^ 63 then truncate q
      else if arch = .amd64 ∨ q < 0 then -2 ^ 63 else 2 ^ 63 - 1
  | arch, .infinite negative => if arch = .amd64 ∨ negative then -2 ^ 63 else 2 ^ 63 - 1
  | .amd64, .nan => -2 ^ 63
  | .arm64, .nan => 0

/-! ## Configuration -/

structure RetryConfig where
  initialInterval : Int
  maxInterval : Int
  multiplier : Double
  maxElapsedTime : Int
deriving DecidableEq

/-- The guards against degenerate configurations. -/
def RetryConfig.guarded (cfg : RetryConfig) : RetryConfig :=
  { cfg with
    initialInterval := if cfg.initialInterval ≤ 0 then second else cfg.initialInterval
    multiplier := if cfg.multiplier.lt 1 then .finite 1 else cfg.multiplier }

theorem RetryConfig.guarded_initialInterval (cfg : RetryConfig) : 0 < cfg.guarded.initialInterval := by
  unfold RetryConfig.guarded
  dsimp only
  split_ifs with h
  · decide
  · exact not_le.mp h

theorem RetryConfig.guarded_multiplier (cfg : RetryConfig) : cfg.guarded.multiplier.lt 1 = false := by
  unfold RetryConfig.guarded
  dsimp only
  split_ifs with h
  · exact decide_eq_false (lt_irrefl 1)
  · exact Bool.eq_false_iff.mpr h

/-- `float64(interval) * multiplier`. -/
def product (multiplier : Double) (interval : Int) : Double := (Double.ofRat interval).mul multiplier

/-- The interval that follows, before it is capped. -/
def growth (arch : Arch) (cfg : RetryConfig) (interval : Int) : Int := arch.toInt64 (product cfg.multiplier interval)

/-- Grow interval with cap. -/
def grow (arch : Arch) (cfg : RetryConfig) (interval : Int) : Int := min (growth arch cfg interval) cfg.maxInterval

/-! ## The loop -/

/-- What an attempt comes to. -/
inductive Outcome where
  | success
  | permanent
  | transient
deriving DecidableEq

/-- What a round is answered: by `fn`, by the clock when it is read before the draw and after it, and by
`rand.Float64`. -/
structure Round where
  outcome : Outcome
  first : Int
  second : Int
  draw : ℚ

inductive Result where
  | ok
  | err
deriving DecidableEq

/-- The state between two rounds, with what was done: the intervals that sleeps were drawn from, and the sleeps, each
with the reading before it. -/
structure State where
  attempt : Nat
  interval : Int
  returned : Option Result
  drawn : List Int
  sleeps : List (Int × Int)

def State.initial (cfg : RetryConfig) : State := ⟨0, cfg.initialInterval, none, [], []⟩

def State.give (s : State) (result : Result) : State := { s with returned := some result }

section
variable (arch : Arch) (cfg : RetryConfig) (start : Int)

/-- The end of a round: `time.Sleep`, and the next interval. -/
def sleepAndGrow (s : State) (reading sleep : Int) : State :=
  { s with sleeps := s.sleeps ++ [(reading, sleep)], interval := grow arch cfg s.interval }

/-- The draw, and the sleep clamped to the remaining budget. -/
def jitter (s : State) (r : Round) : State :=
  let sleep := arch.toInt64 ((Double.finite r.draw).mul (Double.ofRat s.interval))
  let s := { s with drawn := s.drawn ++ [s.interval] }
  if 0 < cfg.maxElapsedTime then
    let remaining := cfg.maxElapsedTime - (r.second - start)
    if remaining ≤ 0 then s.give .err
    else sleepAndGrow arch cfg s r.second (if remaining < sleep then remaining else sleep)
  else sleepAndGrow arch cfg s r.second sleep

/-- One round of the loop, with the guarded configuration. -/
def attempt (s : State) (r : Round) : State :=
  let s := { s with attempt := s.attempt + 1 }
  match r.outcome with
  | .success => s.give .ok
  | .permanent => s.give .err
  | .transient =>
      if 0 < cfg.maxElapsedTime ∧ cfg.maxElapsedTime ≤ r.first - start then s.give .err else jitter arch cfg start s r

def step (s : State) (r : Round) : State := if s.returned.isSome then s else attempt arch cfg start s r

end

/-- `WithRetryTag` after so many rounds. -/
def after (arch : Arch) (cfg : RetryConfig) (start : Int) (rounds : Nat → Round) : Nat → State
  | 0 => State.initial cfg.guarded
  | n + 1 => step arch cfg.guarded start (after arch cfg start rounds n) (rounds n)

/-- A clock that does not go backwards. -/
structure Clocked (start : Int) (rounds : Nat → Round) : Prop where
  first : start ≤ (rounds 0).first
  second : ∀ k, (rounds k).first ≤ (rounds k).second
  next : ∀ k, (rounds k).second ≤ (rounds (k + 1)).first

/-- What is expected of the state after one round or more. -/
structure Meets (cfg : RetryConfig) (start : Int) (rounds : Nat → Round) (s : State) : Prop where
  called : 0 < s.attempt
  success : s.returned = some .ok ↔ ∃ k < s.attempt, (rounds k).outcome = .success
  permanent : ∀ k < s.attempt, (rounds k).outcome = .permanent → s.attempt = k + 1 ∧ s.returned = some .err
  budget : 0 < cfg.maxElapsedTime → ∀ p ∈ s.sleeps, p.1 + p.2 ≤ start + cfg.maxElapsedTime
  interval : ∀ i ∈ s.drawn.tail, 0 < i ∧ i ≤ cfg.maxInterval

/-! ## What a configuration decides -/

/-- The product is a number that a duration can hold. -/
def Fits (multiplier : Double) (interval : Int) : Prop := ∃ q, product multiplier interval = .finite q ∧ q < 2 ^ 63

/-- A length that multiplying does not bring to the next whole number. -/
def Stays (multiplier : Double) (interval : Int) : Prop :=
  ∃ q, product multiplier interval = .finite q ∧ q < 2 ^ 63 ∧ q < interval + 1

/-- The interval stays positive as it grows: there is a cap, and no product goes past what a duration can hold. The
product of the cap is never formed where a length between the first interval and the cap stays as it is. -/
def GrowsPositive (cfg : RetryConfig) : Arch → Prop
  | .arm64 => 0 < cfg.maxInterval ∧ cfg.multiplier ≠ .nan
  | .amd64 => 0 < cfg.maxInterval ∧ Fits cfg.multiplier cfg.initialInterval ∧
      (Fits cfg.multiplier cfg.maxInterval ∨
        ∃ i, cfg.initialInterval ≤ i ∧ i < cfg.maxInterval ∧ Stays cfg.multiplier i)

/-! ## Runs -/

section
variable {arch : Arch} {cfg : RetryConfig} {start : Int} {rounds : Nat → Round} {s : State} {r : Round}

/-- The interval of each draw. -/
def intervals (arch : Arch) (cfg : RetryConfig) (k : Nat) : Int := (grow arch cfg)^[k] cfg.initialInterval

theorem intervals_succ (k : Nat) : intervals arch cfg (k + 1) = grow arch cfg (intervals arch cfg k) :=
  Function.iterate_succ_apply' _ _ _

theorem intervals_succ_le (k : Nat) : intervals arch cfg (k + 1) ≤ cfg.maxInterval := by
  rw [intervals_succ]
  exact min_le_right _ _

/-- A round that ends in a sleep. -/
structure Slept (arch : Arch) (cfg : RetryConfig) (start : Int) (s : State) (r : Round) (s' : State) : Prop where
  outcome : r.outcome = .transient
  attempt : s'.attempt = s.attempt + 1
  returned : s'.returned = s.returned
  drawn : s'.drawn = s.drawn ++ [s.interval]
  interval : s'.interval = grow arch cfg s.interval
  sleeps : ∃ sleep, s'.sleeps = s.sleeps ++ [(r.second, sleep)] ∧
    (0 < cfg.maxElapsedTime → r.second + sleep ≤ start + cfg.maxElapsedTime)

/-- A round in which the call returns. It may be after a draw, where the budget is spent. -/
structure Returned (cfg : RetryConfig) (start : Int) (s : State) (r : Round) (s' : State) : Prop where
  spent : r.outcome = .transient → 0 < cfg.maxElapsedTime ∧
    (cfg.maxElapsedTime ≤ r.first - start ∨ cfg.maxElapsedTime ≤ r.second - start)
  attempt : s'.attempt = s.attempt + 1
  returned : s'.returned = some (if r.outcome = .success then .ok else .err)
  drawn : s'.drawn = s.drawn ∨ s'.drawn = s.drawn ++ [s.interval]
  sleeps : s'.sleeps = s.sleeps

theorem jitter_cases (hr : r.outcome = .transient) :
    Slept arch cfg start s r (jitter arch cfg start { s with attempt := s.attempt + 1 } r) ∨
      Returned cfg start s r (jitter arch cfg start { s with attempt := s.attempt + 1 } r) := by
  unfold jitter
  dsimp only
  split_ifs with hmax hremaining hsleep
  · exact Or.inr ⟨fun _ => ⟨hmax, Or.inr (by omega)⟩, rfl, by rw [hr]; rfl, Or.inr rfl, rfl⟩
  · exact Or.inl ⟨hr, rfl, rfl, rfl, rfl, _, rfl, fun _ => by omega⟩
  · exact Or.inl ⟨hr, rfl, rfl, rfl, rfl, _, rfl, fun _ => by omega⟩
  · exact Or.inl ⟨hr, rfl, rfl, rfl, rfl, _, rfl, fun h => absurd h hmax⟩

/-- **What a round can do.** -/
theorem attempt_cases (arch : Arch) (cfg : RetryConfig) (start : Int) (s : State) (r : Round) :
    Slept arch cfg start s r (attempt arch cfg start s r) ∨ Returned cfg start s r (attempt arch cfg start s r) := by
  unfold attempt
  cases hr : r.outcome with
  | success => exact Or.inr ⟨fun h => absurd (hr ▸ h) (by decide), rfl, by rw [hr]; rfl, Or.inl rfl, rfl⟩
  | permanent => exact Or.inr ⟨fun h => absurd (hr ▸ h) (by decide), rfl, by rw [hr]; rfl, Or.inl rfl, rfl⟩
  | transient =>
      dsimp only
      split_ifs with hspent
      · exact Or.inr ⟨fun _ => ⟨hspent.1, Or.inl hspent.2⟩, rfl, by rw [hr]; rfl, Or.inl rfl, rfl⟩
      · exact jitter_cases hr

/-- What a run keeps of its rounds: it goes on as long as they fail for a time, and each draw is from the next
interval. -/
structure Loop (arch : Arch) (cfg : RetryConfig) (start : Int) (rounds : Nat → Round) (n : Nat) (s : State) : Prop where
  running : s.returned = none → s.attempt = n ∧ (∀ k < n, (rounds k).outcome = .transient) ∧
    s.interval = intervals arch cfg s.drawn.length
  ended : ∀ result, s.returned = some result → ∃ k < n, s.attempt = k + 1 ∧
    (∀ j < k, (rounds j).outcome = .transient) ∧ result = if (rounds k).outcome = .success then .ok else .err
  drawn : s.drawn = (List.range s.drawn.length).map (intervals arch cfg)
  budget : 0 < cfg.maxElapsedTime → ∀ p ∈ s.sleeps, p.1 + p.2 ≤ start + cfg.maxElapsedTime

theorem Loop.initial (rounds : Nat → Round) : Loop arch cfg start rounds 0 (State.initial cfg) :=
  ⟨fun _ => ⟨rfl, fun k hk => absurd hk (by omega), rfl⟩, fun result h => absurd h (by simp [State.initial]), rfl,
    fun _ p hp => absurd hp List.not_mem_nil⟩

/-- One more draw, from the interval that is next. -/
theorem drawn_append {drawn : List Int} {interval : Int}
    (h : drawn = (List.range drawn.length).map (intervals arch cfg)) (hnext : interval = intervals arch cfg drawn.length) :
    drawn ++ [interval] = (List.range (drawn ++ [interval]).length).map (intervals arch cfg) := by
  rw [List.length_append, List.length_singleton, List.range_succ, List.map_append, ← h, hnext]
  rfl

theorem Loop.slept {n : Nat} {s' : State} (h : Loop arch cfg start rounds n s) (hnone : s.returned = none)
    (hslept : Slept arch cfg start s (rounds n) s') : Loop arch cfg start rounds (n + 1) s' := by
  obtain ⟨hattempt, htransient, hinterval⟩ := h.running hnone
  have hlength : s'.drawn.length = s.drawn.length + 1 := by
    rw [hslept.drawn, List.length_append, List.length_singleton]
  refine ⟨fun _ => ⟨by rw [hslept.attempt, hattempt], fun k hk => ?_, ?_⟩, fun result hresult => ?_, ?_, ?_⟩
  · obtain hlt | rfl := Nat.lt_succ_iff_lt_or_eq.mp hk
    · exact htransient k hlt
    · exact hslept.outcome
  · rw [hslept.interval, hlength, intervals_succ, hinterval]
  · rw [hslept.returned, hnone] at hresult
    exact absurd hresult (by simp)
  · rw [hslept.drawn]
    exact drawn_append h.drawn hinterval
  · intro hmax p hp
    obtain ⟨sleep, hsleeps, hle⟩ := hslept.sleeps
    rw [hsleeps, List.mem_append, List.mem_singleton] at hp
    obtain hp | rfl := hp
    · exact h.budget hmax p hp
    · exact hle hmax

theorem Loop.returned {n : Nat} {s' : State} (h : Loop arch cfg start rounds n s) (hnone : s.returned = none)
    (hend : Returned cfg start s (rounds n) s') : Loop arch cfg start rounds (n + 1) s' := by
  obtain ⟨hattempt, htransient, hinterval⟩ := h.running hnone
  refine ⟨fun hrunning => ?_, fun result hresult => ?_, ?_, ?_⟩
  · rw [hend.returned] at hrunning
    exact absurd hrunning (by simp)
  · rw [hend.returned, Option.some.injEq] at hresult
    exact ⟨n, by omega, by rw [hend.attempt, hattempt], htransient, hresult.symm⟩
  · obtain hdrawn | hdrawn := hend.drawn <;> rw [hdrawn]
    · exact h.drawn
    · exact drawn_append h.drawn hinterval
  · rw [hend.sleeps]
    exact h.budget

theorem Loop.step {n : Nat} (h : Loop arch cfg start rounds n s) :
    Loop arch cfg start rounds (n + 1) (step arch cfg start s (rounds n)) := by
  unfold Retry.step
  cases hreturned : s.returned with
  | some result =>
      rw [if_pos (by simp)]
      refine ⟨fun hnone => absurd hnone (by simp [hreturned]), fun result' hresult => ?_, h.drawn, h.budget⟩
      obtain ⟨k, hk, hended⟩ := h.ended result' hresult
      exact ⟨k, by omega, hended⟩
  | none =>
      rw [if_neg (by simp)]
      obtain hslept | hend := attempt_cases arch cfg start s (rounds n)
      · exact h.slept hreturned hslept
      · exact h.returned hreturned hend

/-- **Every run** keeps it. -/
theorem loop_after (arch : Arch) (cfg : RetryConfig) (start : Int) (rounds : Nat → Round) (n : Nat) :
    Loop arch cfg.guarded start rounds n (after arch cfg start rounds n) := by
  induction n with
  | zero => exact Loop.initial rounds
  | succ n ih => exact ih.step

theorem Loop.mem_tail {n : Nat} (h : Loop arch cfg start rounds n s) {i : Int} (hi : i ∈ s.drawn.tail) :
    ∃ k, i = intervals arch cfg (k + 1) := by
  rw [h.drawn, ← List.map_tail, List.mem_map] at hi
  obtain ⟨k, hk, rfl⟩ := hi
  rw [List.range_eq_range', List.tail_range', List.mem_range'] at hk
  obtain ⟨j, -, rfl⟩ := hk
  exact ⟨j, congrArg _ (by omega)⟩

/-- A run does what is expected of it as far as the intervals are positive. -/
theorem Loop.meets {n : Nat} (h : Loop arch cfg start rounds (n + 1) s)
    (hpos : ∀ k, 0 < intervals arch cfg (k + 1)) : Meets cfg start rounds s := by
  have hinterval : ∀ i ∈ s.drawn.tail, 0 < i ∧ i ≤ cfg.maxInterval := by
    intro i hi
    obtain ⟨k, rfl⟩ := h.mem_tail hi
    exact ⟨hpos k, intervals_succ_le k⟩
  cases hreturned : s.returned with
  | none =>
      obtain ⟨hattempt, htransient, -⟩ := h.running hreturned
      refine ⟨by omega, ?_, fun k hk hperm => ?_, h.budget, hinterval⟩
      · rw [hreturned]
        apply iff_of_false (by simp)
        rintro ⟨k, hk, hsuccess⟩
        rw [htransient k (by omega)] at hsuccess
        exact absurd hsuccess (by decide)
      · rw [htransient k (by omega)] at hperm
        exact absurd hperm (by decide)
  | some result =>
      obtain ⟨k, hk, hattempt, htransient, hresult⟩ := h.ended result hreturned
      have hlast : ∀ j < s.attempt, (rounds j).outcome ≠ .transient → j = k := by
        intro j hj hne
        obtain hlt | heq := Nat.lt_succ_iff_lt_or_eq.mp (hattempt ▸ hj)
        · exact absurd (htransient j hlt) hne
        · exact heq
      refine ⟨by omega, ?_, fun j hj hperm => ?_, h.budget, hinterval⟩
      · rw [hreturned, Option.some.injEq, hresult]
        constructor
        · intro hok
          refine ⟨k, by omega, ?_⟩
          by_contra hne
          rw [if_neg hne] at hok
          exact absurd hok (by decide)
        · rintro ⟨j, hj, hsuccess⟩
          rw [← hlast j hj (by simp [hsuccess]), if_pos hsuccess]
      · have hjk := hlast j hj (by simp [hperm])
        rw [hjk] at hperm
        rw [hreturned, hresult, hjk, hperm]
        exact ⟨hattempt, rfl⟩

/-- A clock that stands still, draws of zero, and errors that are not permanent. -/
def still : Nat → Round := fun _ => ⟨.transient, 0, 0, 0⟩

theorem clocked_still : Clocked 0 still := ⟨le_rfl, fun _ => le_rfl, fun _ => le_rfl⟩

/-- There no budget is ever spent, and every round draws. -/
theorem slept_still (arch : Arch) (cfg : RetryConfig) (s : State) (n : Nat) :
    Slept arch cfg 0 s (still n) (attempt arch cfg 0 s (still n)) := by
  obtain hslept | hend := attempt_cases arch cfg 0 s (still n)
  · exact hslept
  · have hspent := hend.spent rfl
    simp only [still] at hspent
    omega

theorem length_drawn_still (arch : Arch) (cfg : RetryConfig) (n : Nat) :
    (after arch cfg 0 still n).returned = none ∧ (after arch cfg 0 still n).drawn.length = n := by
  induction n with
  | zero => exact ⟨rfl, rfl⟩
  | succ n ih =>
      have hslept := slept_still arch cfg.guarded (after arch cfg 0 still n) n
      rw [after, step, ih.1, if_neg (by simp), hslept.returned, hslept.drawn, List.length_append, ih.2]
      exact ⟨ih.1, rfl⟩

/-- **The intervals decide.** -/
theorem meets_iff_intervals (arch : Arch) (cfg : RetryConfig) :
    (∀ start rounds, Clocked start rounds → (∀ k, 0 ≤ (rounds k).draw ∧ (rounds k).draw < 1) →
      ∀ n, Meets cfg start rounds (after arch cfg start rounds (n + 1))) ↔
        ∀ k, 0 < intervals arch cfg.guarded (k + 1) := by
  constructor
  · intro h k
    have hmeets := h 0 still clocked_still (fun _ => ⟨le_rfl, zero_lt_one⟩) (k + 1)
    have hloop := loop_after arch cfg 0 still (k + 1 + 1)
    refine (hmeets.interval _ ?_).1
    rw [hloop.drawn, (length_drawn_still arch cfg _).2, ← List.map_tail]
    apply List.mem_map_of_mem
    rw [List.range_eq_range', List.tail_range', List.mem_range']
    exact ⟨k, by omega, by omega⟩
  · intro h start rounds _ _ n
    obtain ⟨hcalled, hsuccess, hpermanent, hbudget, hinterval⟩ := (loop_after arch cfg start rounds (n + 1)).meets h
    exact ⟨hcalled, hsuccess, hpermanent, hbudget, hinterval⟩

end

/-! ## Products -/

section
variable {multiplier : Double} {interval longer : Int}

/-- What is at least one is rounded to a number that is, or it is past all numbers. -/
theorem ofRat_cases {q : ℚ} (h : 1 ≤ q) :
    Double.ofRat q = .infinite false ∨ ∃ r, Double.ofRat q = .finite r ∧ 1 ≤ r := by
  have hone : (1 : ℚ) ≤ roundBits 53 q := by
    refine le_roundBits (by omega) ?_ (le_trans zero_le_one h) h
    simpa using ofBits_intCast (K := ℚ) (p := 53) (n := 1) (by norm_num)
  unfold Double.ofRat
  split_ifs with hlt
  · exact Or.inr ⟨_, rfl, hone⟩
  · rw [decide_eq_false (by linarith)]
    exact Or.inl rfl

theorem product_nan (interval : Int) : product .nan interval = .nan := by
  unfold product
  cases Double.ofRat interval <;> rfl

/-- **The product** of a positive interval is at least one, or past all numbers, or the multiplier is not a number. -/
theorem product_cases (hm : multiplier.lt 1 = false) (hi : 0 < interval) :
    (multiplier = .nan ∧ product multiplier interval = .nan) ∨ product multiplier interval = .infinite false ∨
      ∃ q, product multiplier interval = .finite q ∧ 1 ≤ q := by
  have hone : (1 : ℚ) ≤ interval := by exact_mod_cast hi
  unfold product
  obtain hinterval | ⟨a, hinterval, ha⟩ := ofRat_cases hone <;> rw [hinterval]
  · cases multiplier with
    | nan => exact Or.inl ⟨rfl, rfl⟩
    | infinite negative =>
        change negative = false at hm
        subst hm
        exact Or.inr (Or.inl rfl)
    | finite c =>
        have hc : 1 ≤ c := not_lt.mp (of_decide_eq_false hm)
        refine Or.inr (Or.inl ?_)
        rw [Double.mul, if_neg (by linarith), decide_eq_false (by linarith)]
        rfl
  · cases multiplier with
    | nan => exact Or.inl ⟨rfl, rfl⟩
    | infinite negative =>
        change negative = false at hm
        subst hm
        refine Or.inr (Or.inl ?_)
        rw [Double.mul, if_neg (by linarith), decide_eq_false (by linarith)]
        rfl
    | finite c =>
        have hc : 1 ≤ c := not_lt.mp (of_decide_eq_false hm)
        exact Or.inr (ofRat_cases (one_le_mul_of_one_le_of_one_le ha hc))

/-- A shorter interval has a product that is no greater. -/
theorem product_of_le (hm : multiplier.lt 1 = false) (hi : 0 < interval) (h : interval ≤ longer) {r : ℚ}
    (hr : product multiplier longer = .finite r) :
    ∃ q, product multiplier interval = .finite q ∧ 1 ≤ q ∧ q ≤ r := by
  obtain ⟨b, c, hb, rfl, hbc⟩ := Double.mul_eq_finite hr
  have hc : 1 ≤ c := not_lt.mp (of_decide_eq_false hm)
  obtain ⟨ha, hab⟩ := Double.ofRat_of_le (Int.cast_nonneg hi.le) (Int.cast_le.mpr h) hb
  have hnonneg : 0 ≤ roundBits 53 (interval : ℚ) := roundBits_nonneg (Int.cast_nonneg hi.le)
  obtain ⟨hq, hqr⟩ := Double.ofRat_of_le (mul_nonneg hnonneg (by linarith))
    (mul_le_mul_of_nonneg_right hab (by linarith)) hbc
  have hproduct : product (.finite c) interval = .finite (roundBits 53 (roundBits 53 (interval : ℚ) * c)) := by
    rw [product, ha]
    exact hq
  obtain ⟨hnan, -⟩ | hinfinite | ⟨q, hfinite, hone⟩ := product_cases hm hi
  · exact absurd hnan (by simp)
  · rw [hproduct] at hinfinite
    exact absurd hinfinite (by simp)
  · rw [hproduct, Double.finite.injEq] at hfinite
    exact ⟨_, hproduct, hfinite ▸ hone, hqr⟩

theorem Fits.of_le (hm : multiplier.lt 1 = false) (hi : 0 < interval) (h : interval ≤ longer)
    (hfits : Fits multiplier longer) : Fits multiplier interval := by
  obtain ⟨r, hr, hlt⟩ := hfits
  obtain ⟨q, hq, -, hle⟩ := product_of_le hm hi h hr
  exact ⟨q, hq, lt_of_le_of_lt hle hlt⟩

end

/-! ## Growth -/

section
variable {arch : Arch} {cfg : RetryConfig} {interval : Int} (hm : cfg.multiplier.lt 1 = false)

theorem truncate_of_nonneg {q : ℚ} (h : 0 ≤ q) : truncate q = ⌊q⌋ := if_neg (not_lt.mpr h)

/-- A product that fits is cut down to a whole number. -/
theorem growth_of_finite {q : ℚ} (hq : product cfg.multiplier interval = .finite q) (hone : 1 ≤ q) (hlt : q < 2 ^ 63) :
    growth arch cfg interval = ⌊q⌋ := by
  have hfloor : ⌊q⌋ < 2 ^ 63 := Int.floor_lt.mpr (by exact_mod_cast hlt)
  have hnonneg : 0 ≤ ⌊q⌋ := Int.floor_nonneg.mpr (by linarith)
  rw [growth, hq, Arch.toInt64, truncate_of_nonneg (by linarith), if_pos (by omega)]

include hm

theorem growth_pos_of_fits (hi : 0 < interval) (h : Fits cfg.multiplier interval) : 0 < growth arch cfg interval := by
  obtain ⟨q, hq, hlt⟩ := h
  obtain ⟨q', hq', hone, -⟩ := product_of_le hm hi le_rfl hq
  rw [hq, Double.finite.injEq] at hq'
  rw [← hq'] at hone
  rw [growth_of_finite hq hone hlt]
  exact Int.floor_pos.mpr hone

/-- The one processor makes a product that does not fit the least duration. -/
theorem growth_amd64 (hi : 0 < interval) (h : ¬ Fits cfg.multiplier interval) :
    growth .amd64 cfg interval = -2 ^ 63 := by
  unfold growth
  obtain ⟨-, hp⟩ | hp | ⟨q, hp, hone⟩ := product_cases hm hi <;> rw [hp]
  · rfl
  · rfl
  · have hge : 2 ^ 63 ≤ q := le_of_not_gt fun hlt => h ⟨q, hp, hlt⟩
    have hfloor : 2 ^ 63 ≤ ⌊q⌋ := Int.le_floor.mpr (by exact_mod_cast hge)
    rw [Arch.toInt64, truncate_of_nonneg (by linarith), if_neg (by omega), if_pos (Or.inl rfl)]

/-- The other makes it the greatest. -/
theorem growth_arm64_pos (hi : 0 < interval) (hnan : cfg.multiplier ≠ .nan) : 0 < growth .arm64 cfg interval := by
  unfold growth
  obtain ⟨h, -⟩ | hp | ⟨q, hp, hone⟩ := product_cases hm hi
  · exact absurd h hnan
  · rw [hp]
    decide
  · rw [hp, Arch.toInt64, truncate_of_nonneg (by linarith)]
    have hpos : 0 < ⌊q⌋ := Int.floor_pos.mpr hone
    split_ifs with hfits hneg
    · exact hpos
    · obtain h | h := hneg
      · exact absurd h (by decide)
      · linarith
    · decide

/-- Below a bound that no step goes past, and whose product fits, the intervals are positive. -/
theorem intervals_bounded {bound : Int} (hmax : 0 < cfg.maxInterval) (hinit : 0 < cfg.initialInterval)
    (hle : cfg.initialInterval ≤ bound) (hfits : Fits cfg.multiplier bound)
    (hstep : ∀ i, 0 < i → i ≤ bound → grow arch cfg i ≤ bound) (k : Nat) :
    0 < intervals arch cfg k ∧ intervals arch cfg k ≤ bound := by
  induction k with
  | zero => exact ⟨hinit, hle⟩
  | succ k ih =>
      rw [intervals_succ]
      exact ⟨lt_min (growth_pos_of_fits hm ih.1 (hfits.of_le hm ih.1 ih.2)) hmax, hstep _ ih.1 ih.2⟩

/-- A length that stays as it is is a bound. -/
theorem Stays.growth_le {bound : Int} (h : Stays cfg.multiplier bound) (hi : 0 < interval) (hle : interval ≤ bound) :
    growth arch cfg interval ≤ bound := by
  obtain ⟨r, hr, hlt, hnext⟩ := h
  obtain ⟨q, hq, hone, hqr⟩ := product_of_le hm hi hle hr
  rw [growth_of_finite hq hone (lt_of_le_of_lt hqr hlt)]
  apply Int.lt_add_one_iff.mp
  apply Int.floor_lt.mpr
  push_cast
  exact lt_of_le_of_lt hqr hnext

theorem intervals_pos (hinit : 0 < cfg.initialInterval) (h : GrowsPositive cfg arch) (k : Nat) :
    0 < intervals arch cfg (k + 1) := by
  cases arch with
  | arm64 =>
      obtain ⟨hmax, hnan⟩ := h
      have hall : ∀ k, 0 < intervals .arm64 cfg k := by
        intro k
        induction k with
        | zero => exact hinit
        | succ k ih =>
            rw [intervals_succ]
            exact lt_min (growth_arm64_pos hm ih hnan) hmax
      exact hall (k + 1)
  | amd64 =>
      obtain ⟨hmax, hfits, hcap | ⟨bound, hle, hlt, hstays⟩⟩ := h
      · refine (intervals_bounded hm hmax hinit (le_max_left cfg.initialInterval cfg.maxInterval) ?_
          (fun i _ _ => le_trans (min_le_right _ _) (le_max_right _ _)) (k + 1)).1
        obtain heq | heq := max_choice cfg.initialInterval cfg.maxInterval <;> rw [heq] <;> assumption
      · have hbound : Fits cfg.multiplier bound := by
          obtain ⟨q, hq, hfit, -⟩ := hstays
          exact ⟨q, hq, hfit⟩
        exact (intervals_bounded hm hmax hinit hle hbound
          (fun i hi hib => le_trans (min_le_left _ _) (hstays.growth_le hm hi hib)) (k + 1)).1

omit hm in
theorem growth_pos_of_intervals {k : Nat} (h : 0 < intervals arch cfg (k + 1)) :
    0 < growth arch cfg (intervals arch cfg k) := by
  rw [intervals_succ] at h
  exact lt_of_lt_of_le h (min_le_left _ _)

/-- On the one processor, a positive interval comes of a product that fits. -/
theorem fits_of_growth_pos (hi : 0 < interval) (h : 0 < growth .amd64 cfg interval) : Fits cfg.multiplier interval := by
  by_contra hno
  rw [growth_amd64 hm hi hno] at h
  exact absurd h (by decide)

/-- Where no length stays as it is, and the product of the cap does not fit, the interval grows by one at least in each
round and never comes to the cap. -/
theorem intervals_climb (hinit : 0 < cfg.initialInterval) (hlt : cfg.initialInterval < cfg.maxInterval)
    (hpos : ∀ k, 0 < intervals .amd64 cfg (k + 1)) (hno : ¬ Fits cfg.multiplier cfg.maxInterval)
    (hmoves : ∀ i, cfg.initialInterval ≤ i → i < cfg.maxInterval → ¬ Stays cfg.multiplier i) (k : Nat) :
    cfg.initialInterval + k ≤ intervals .amd64 cfg k ∧ intervals .amd64 cfg k < cfg.maxInterval := by
  induction k with
  | zero => exact ⟨le_of_eq (add_zero _), hlt⟩
  | succ k ih =>
      have hcurrent : 0 < intervals .amd64 cfg k := by omega
      obtain ⟨q, hq, hfit⟩ := fits_of_growth_pos hm hcurrent (growth_pos_of_intervals (hpos k))
      obtain ⟨q', hq', hone, -⟩ := product_of_le hm hcurrent le_rfl hq
      rw [hq, Double.finite.injEq] at hq'
      subst hq'
      have hmove : ((intervals .amd64 cfg k + 1 : Int) : ℚ) ≤ q := by
        push_cast
        exact le_of_not_gt fun hless => hmoves _ (by omega) ih.2 ⟨q, hq, hfit, hless⟩
      have hnext : intervals .amd64 cfg k + 1 ≤ intervals .amd64 cfg (k + 1) := by
        rw [intervals_succ, grow, growth_of_finite hq hone hfit]
        exact le_min (Int.le_floor.mpr hmove) ih.2
      refine ⟨by push_cast; omega, lt_of_le_of_ne (intervals_succ_le k) fun hcap => hno ?_⟩
      have hnextnext := growth_pos_of_intervals (hpos (k + 1))
      rw [hcap] at hnextnext
      exact fits_of_growth_pos hm (by omega) hnextnext

theorem grows_of_intervals_pos (hinit : 0 < cfg.initialInterval) (hpos : ∀ k, 0 < intervals arch cfg (k + 1)) :
    GrowsPositive cfg arch := by
  have hmax : 0 < cfg.maxInterval := lt_of_lt_of_le (hpos 0) (intervals_succ_le 0)
  have hfirst := growth_pos_of_intervals (hpos 0)
  cases arch with
  | arm64 =>
      refine ⟨hmax, fun hnan => ?_⟩
      rw [growth, hnan, product_nan] at hfirst
      exact absurd hfirst (by decide)
  | amd64 =>
      refine ⟨hmax, fits_of_growth_pos hm hinit hfirst, ?_⟩
      by_contra hneither
      obtain ⟨hno, hmoves⟩ := not_or.mp hneither
      have hlt : cfg.initialInterval < cfg.maxInterval := by
        by_contra hle
        exact hno ((fits_of_growth_pos hm hinit hfirst).of_le hm hmax (not_lt.mp hle))
      have hclimb := intervals_climb hm hinit hlt hpos hno
        (fun i hle hlt hstays => hmoves ⟨i, hle, hlt, hstays⟩) (cfg.maxInterval - cfg.initialInterval).toNat
      omega

end

/-- **The retry loop.** On every run, whatever `fn`, the clock and the draws answer, the loop calls `fn` at least once,
returns `nil` exactly for a success, ends at the first permanent error and sleeps within its budget, and every interval
drawn from after the first is positive and at most `MaxInterval`, exactly when the configuration lets the interval grow
and stay positive. -/
theorem withRetry_iff (arch : Arch) (cfg : RetryConfig) :
    (∀ start rounds, Clocked start rounds → (∀ k, 0 ≤ (rounds k).draw ∧ (rounds k).draw < 1) →
      ∀ n, Meets cfg start rounds (after arch cfg start rounds (n + 1))) ↔ GrowsPositive cfg.guarded arch := by
  rw [meets_iff_intervals]
  exact ⟨grows_of_intervals_pos cfg.guarded_multiplier cfg.guarded_initialInterval,
    intervals_pos cfg.guarded_multiplier cfg.guarded_initialInterval⟩

section Runs

/-- A configuration that leaves `MaxInterval` unset, with an hour to try in. -/
def noCap : RetryConfig := ⟨second, 0, .finite 2, 3600 * second⟩

/-- With no cap set, the second sleep is drawn from an interval of zero. -/
theorem not_withRetry : ¬ ∀ (arch : Arch) (cfg : RetryConfig) (start : Int) (rounds : Nat → Round),
    Clocked start rounds → (∀ k, 0 ≤ (rounds k).draw ∧ (rounds k).draw < 1) →
      ∀ n, Meets cfg start rounds (after arch cfg start rounds (n + 1)) := by
  intro h
  have hpos := (meets_iff_intervals .amd64 noCap).mp (h .amd64 noCap) 0
  have hcap : intervals .amd64 noCap.guarded (0 + 1) ≤ 0 := intervals_succ_le 0
  omega

end Runs

end TimeChamp.Sync.Retry
