import Mathlib.Algebra.Order.Ring.Int
import TimeChamp.Heartbeat.Merge

/-!
# The circuit breaker of the API client

The fields of `internal/sync/client.go`'s `Client` that its mutex guards, and the operations on them. Every operation
runs under the mutex, so an interleaving of goroutines is a list of calls; `now` is what the call reads on the clock.

* `Sound k c` : the joint invariant of the five fields, `k` failures having been recorded half-open;
* `sound_run` : it holds after every list of calls, whatever the clock does;
* `granted_window` : after the reset timeout the breaker lets in its first caller *and the next one*, since the open
  arm of `IsAvailable` leaves `probeInFlight` unset; `at_most_one_probe_iff` draws the consequence.
-/

namespace TimeChamp.Sync
open TimeChamp.Heartbeat (second)

/-- `circuitState`. -/
inductive CircuitState where
  | stateClosed
  | stateOpen
  | stateHalfOpen
deriving DecidableEq

/-- Consecutive failures before opening circuit. -/
def circuitOpenThreshold : Nat := 3

def circuitResetAfter : Int := 60 * second

/-- The guarded fields of `Client`; instants and durations are nanoseconds, and the zero `time.Time` is `0`. -/
structure Client where
  state : CircuitState
  failures : Nat
  openedAt : Int
  resetTimeout : Int
  probeInFlight : Bool
deriving DecidableEq

def newClient : Client := ⟨.stateClosed, 0, 0, circuitResetAfter, false⟩

/-- `isBlocked`: definitively open, not half-open. -/
def Client.isBlocked (c : Client) (now : Int) : Bool :=
  if c.state ≠ .stateOpen then false else decide (now - c.openedAt < c.resetTimeout)

/-- `IsAvailable`: the answer, and the breaker after it. -/
def Client.isAvailable (c : Client) (now : Int) : Bool × Client :=
  match c.state with
  | .stateClosed => (true, c)
  | .stateOpen =>
    if c.resetTimeout ≤ now - c.openedAt then (true, { c with state := .stateHalfOpen }) else (false, c)
  | .stateHalfOpen => if c.probeInFlight then (false, c) else (true, { c with probeInFlight := true })

def Client.recordFailure (c : Client) (now : Int) : Client :=
  let failures := c.failures + 1
  match c.state with
  | .stateHalfOpen =>
    { state := .stateOpen, failures, openedAt := now, probeInFlight := false,
      resetTimeout := min (c.resetTimeout * 2) (4 * circuitResetAfter) }
  | _ =>
    if circuitOpenThreshold ≤ failures then { c with failures, state := .stateOpen, openedAt := now }
    else { c with failures }

def Client.recordSuccess (c : Client) : Client :=
  { c with probeInFlight := false, state := .stateClosed, failures := 0, resetTimeout := circuitResetAfter }

/-- `ResetCircuit` assigns the same four fields as `recordSuccess`. -/
def Client.resetCircuit (c : Client) : Client :=
  { c with probeInFlight := false, state := .stateClosed, failures := 0, resetTimeout := circuitResetAfter }

/-- What `Post` and `GetPresignedUploadURL` do on a permanent status: release the slot if half-open. -/
def Client.releaseProbe (c : Client) : Client :=
  if c.state = .stateHalfOpen then { c with probeInFlight := false } else c

/-- The operations on the breaker. -/
inductive BreakerOp where
  | isAvailable
  | isBlocked
  | recordFailure
  | recordSuccess
  | releaseProbe
  | resetCircuit
deriving DecidableEq

/-- A call of goroutine `caller`, at the clock reading `now`. -/
structure Call (ι : Type) where
  caller : ι
  op : BreakerOp
  now : Int

def Client.call {ι : Type} (c : Client) (e : Call ι) : Client :=
  match e.op with
  | .isAvailable => (c.isAvailable e.now).2
  | .isBlocked => c
  | .recordFailure => c.recordFailure e.now
  | .recordSuccess => c.recordSuccess
  | .releaseProbe => c.releaseProbe
  | .resetCircuit => c.resetCircuit

def Client.run {ι : Type} (c : Client) (calls : List (Call ι)) : Client := calls.foldl Client.call c

/-! ### The five answers of `IsAvailable` -/

section Answers
variable {c : Client} {now : Int}

theorem isAvailable_closed (hc : c.state = .stateClosed) : c.isAvailable now = (true, c) := by
  unfold Client.isAvailable
  rw [hc]

/-- The open arm grants the probe without taking the slot. -/
theorem isAvailable_late (hc : c.state = .stateOpen) (ht : c.resetTimeout ≤ now - c.openedAt) :
    c.isAvailable now = (true, { c with state := .stateHalfOpen }) := by
  unfold Client.isAvailable
  rw [hc]
  exact if_pos ht

theorem isAvailable_early (hc : c.state = .stateOpen) (ht : now - c.openedAt < c.resetTimeout) :
    c.isAvailable now = (false, c) := by
  unfold Client.isAvailable
  rw [hc]
  exact if_neg (not_le.mpr ht)

theorem isAvailable_free (hc : c.state = .stateHalfOpen) (hp : c.probeInFlight = false) :
    c.isAvailable now = (true, { c with probeInFlight := true }) := by
  unfold Client.isAvailable
  rw [hc]
  simp only [hp, Bool.false_eq_true, if_false]

theorem isAvailable_busy (hc : c.state = .stateHalfOpen) (hp : c.probeInFlight = true) :
    c.isAvailable now = (false, c) := by
  unfold Client.isAvailable
  rw [hc]
  simp only [hp, if_true]

/-- What one `IsAvailable` can do: leave the breaker alone, leave the open state, or take the slot. -/
theorem isAvailable_cases (c : Client) (now : Int) :
    (c.isAvailable now).2 = c ∨
    c.state = .stateOpen ∧ c.isAvailable now = (true, { c with state := .stateHalfOpen }) ∨
    c.state = .stateHalfOpen ∧ c.probeInFlight = false ∧
      c.isAvailable now = (true, { c with probeInFlight := true }) := by
  cases hc : c.state with
  | stateClosed => exact Or.inl (by rw [isAvailable_closed hc])
  | stateOpen =>
      rcases le_or_gt c.resetTimeout (now - c.openedAt) with ht | ht
      · exact Or.inr (Or.inl ⟨rfl, isAvailable_late hc ht⟩)
      · exact Or.inl (by rw [isAvailable_early hc ht])
  | stateHalfOpen =>
      by_cases hp : c.probeInFlight = true
      · exact Or.inl (by rw [isAvailable_busy hc hp])
      · have hfree : c.probeInFlight = false := by simpa using hp
        exact Or.inr (Or.inr ⟨rfl, hfree, hc ▸ isAvailable_free hc hfree⟩)

end Answers

/-! ## The invariant of the five fields -/

/-- Failures recorded in the half-open state since the last `recordSuccess` or `ResetCircuit`: `k` before `calls`,
which start at `c`. -/
def halfOpenFailures {ι : Type} (c : Client) (k : Nat) : List (Call ι) → Nat
  | [] => k
  | e :: calls =>
    halfOpenFailures (c.call e)
      (match e.op with
        | .recordSuccess | .resetCircuit => 0
        | .recordFailure => if c.state = .stateHalfOpen then k + 1 else k
        | _ => k)
      calls

/-- The breaker fields agree with each other, after `k` half-open failures. -/
structure Sound (k : Nat) (c : Client) : Prop where
  closed : c.state = .stateClosed → c.failures < 3
  tripped : c.state = .stateOpen ∨ c.state = .stateHalfOpen → 3 ≤ c.failures
  probe : c.probeInFlight = true → c.state = .stateHalfOpen
  timeout : c.resetTimeout = min (circuitResetAfter * 2 ^ k) (4 * circuitResetAfter)
  refuses : ∀ t : Int, c.state = .stateOpen → t - c.openedAt < c.resetTimeout → (c.isAvailable t).1 = false

theorem Sound.mk' {k : Nat} {c : Client} (closed : c.state = .stateClosed → c.failures < 3)
    (tripped : c.state ≠ .stateClosed → 3 ≤ c.failures) (probe : c.probeInFlight = true → c.state = .stateHalfOpen)
    (timeout : c.resetTimeout = min (circuitResetAfter * 2 ^ k) (4 * circuitResetAfter)) : Sound k c where
  closed := closed
  tripped h := tripped (by rcases h with h | h <;> simp [h])
  probe := probe
  timeout := timeout
  refuses _ ho ht := by rw [isAvailable_early ho ht]

theorem sound_newClient : Sound 0 newClient :=
  Sound.mk' (fun _ => by decide) (fun h => absurd rfl h) (fun h => by cases h) (by decide)

/-- Doubling under the cap: one more half-open failure. -/
theorem capped_double (k : Nat) :
    min (min (circuitResetAfter * 2 ^ k) (4 * circuitResetAfter) * 2) (4 * circuitResetAfter) =
      min (circuitResetAfter * 2 ^ (k + 1)) (4 * circuitResetAfter) := by
  have hpos : 0 ≤ circuitResetAfter := by decide
  have hpow : circuitResetAfter * 2 ^ (k + 1) = circuitResetAfter * 2 ^ k * 2 := by rw [pow_succ, mul_assoc]
  rw [hpow]
  generalize circuitResetAfter * 2 ^ k = x
  omega

section Steps
variable {k : Nat} {c : Client}

theorem Sound.isAvailable (hs : Sound k c) (now : Int) : Sound k (c.isAvailable now).2 := by
  rcases isAvailable_cases c now with h | ⟨hc, h⟩ | ⟨hc, -, h⟩ <;> rw [h]
  · exact hs
  · exact .mk' (fun h => by cases h) (fun _ => hs.tripped (Or.inl hc)) (fun _ => rfl) hs.timeout
  · exact .mk' (fun h => by simp [hc] at h) (fun _ => hs.tripped (Or.inr hc)) (fun _ => hc) hs.timeout

/-- A late failure may trip a closed breaker or re-stamp an open one; only a half-open one doubles the timeout. -/
theorem Sound.recordFailure (hs : Sound k c) (now : Int) :
    Sound (if c.state = .stateHalfOpen then k + 1 else k) (c.recordFailure now) := by
  have hbelow : c.state ≠ .stateHalfOpen → c.probeInFlight = true → False := fun h hp => h (hs.probe hp)
  unfold Client.recordFailure
  cases hc : c.state with
  | stateHalfOpen =>
      have h3 := hs.tripped (Or.inr hc)
      refine .mk' (fun h => by cases h) (fun _ => ?_) (fun h => by cases h) ?_
      · exact Nat.le_succ_of_le h3
      · dsimp only
        rw [hs.timeout, if_pos rfl, capped_double]
  | stateClosed =>
      have hp : c.probeInFlight = true → False := hbelow (by rw [hc]; decide)
      simp only [reduceCtorEq, if_false]
      split_ifs with ht
      · exact .mk' (fun h => by cases h) (fun _ => ht) (fun h => (hp h).elim) hs.timeout
      · exact .mk' (fun _ => not_le.mp ht) (fun h => absurd rfl h) (fun h => (hp h).elim) hs.timeout
  | stateOpen =>
      have hp : c.probeInFlight = true → False := hbelow (by rw [hc]; decide)
      have h3 := hs.tripped (Or.inl hc)
      simp only [reduceCtorEq, if_false]
      rw [if_pos (show circuitOpenThreshold ≤ c.failures + 1 from Nat.le_succ_of_le h3)]
      exact .mk' (fun h => by cases h) (fun _ => Nat.le_succ_of_le h3) (fun h => (hp h).elim) hs.timeout

theorem sound_recordSuccess (c : Client) : Sound 0 c.recordSuccess :=
  .mk' (fun _ => Nat.zero_lt_succ 2) (fun h => absurd rfl h) (fun h => by cases h)
    (show circuitResetAfter = _ by decide)

theorem Sound.releaseProbe (hs : Sound k c) : Sound k c.releaseProbe := by
  unfold Client.releaseProbe
  split_ifs with hc
  · exact .mk' (fun h => by simp [hc] at h) (fun _ => hs.tripped (Or.inr hc)) (fun h => by cases h) hs.timeout
  · exact hs

end Steps

theorem Sound.run {ι : Type} (calls : List (Call ι)) {k : Nat} {c : Client} (hs : Sound k c) :
    Sound (halfOpenFailures c k calls) (c.run calls) := by
  induction calls generalizing k c with
  | nil => exact hs
  | cons e calls ih =>
      obtain ⟨g, op, now⟩ := e
      cases op with
      | isAvailable => exact ih (hs.isAvailable now)
      | isBlocked => exact ih hs
      | recordFailure => exact ih (hs.recordFailure now)
      | recordSuccess => exact ih (sound_recordSuccess c)
      | releaseProbe => exact ih hs.releaseProbe
      | resetCircuit => exact ih (sound_recordSuccess c)

/-- **The breaker invariant.** After any calls of any goroutines, with any clock readings: closed means fewer than
three failures, open and half-open mean at least three, a probe in flight means half-open, the reset timeout is the
capped doubling of the half-open failures, and an open breaker refuses until its timeout. -/
theorem sound_run {ι : Type} (calls : List (Call ι)) :
    Sound (halfOpenFailures newClient 0 calls) (newClient.run calls) :=
  Sound.run calls sound_newClient

/-! ## The half-open window -/

/-- The goroutines whose `IsAvailable` is answered yes, in order. -/
def granted {ι : Type} (c : Client) : List (Call ι) → List ι
  | [] => []
  | e :: calls =>
    if e.op = .isAvailable ∧ (c.isAvailable e.now).1 = true then e.caller :: granted (c.call e) calls
    else granted (c.call e) calls

/-- The goroutines that ask, in order. -/
def askers {ι : Type} (calls : List (Call ι)) : List ι :=
  (calls.filter fun e => e.op = .isAvailable).map Call.caller

/-- Calls made before any outcome is recorded: nothing but questions. -/
def Unrecorded {ι : Type} (calls : List (Call ι)) : Prop :=
  ∀ e ∈ calls, e.op = .isAvailable ∨ e.op = .isBlocked

section Window
variable {ι : Type}

theorem granted_yes {c c' : Client} {e : Call ι} (he : e.op = .isAvailable) (h : c.isAvailable e.now = (true, c'))
    (calls : List (Call ι)) : granted c (e :: calls) = e.caller :: granted c' calls := by
  have hnext : c.call e = c' := by
    unfold Client.call
    rw [he]
    simp only [h]
  rw [granted, if_pos ⟨he, by rw [h]⟩, hnext]

/-- With the probe in flight nobody is let in. -/
theorem granted_inFlight (calls : List (Call ι)) {c : Client} (hc : c.state = .stateHalfOpen)
    (hp : c.probeInFlight = true) (hu : Unrecorded calls) : granted c calls = [] := by
  induction calls with
  | nil => rfl
  | cons e calls ih =>
      have hrest := ih fun e' he' => hu e' (List.mem_cons_of_mem _ he')
      have hsame : c.call e = c := by
        unfold Client.call
        rcases hu e List.mem_cons_self with h | h <;> rw [h]
        simp only [isAvailable_busy hc hp]
      rw [granted, if_neg (by simp [isAvailable_busy hc hp]), hsame, hrest]

/-- Half-open with a free slot: exactly the first asker is let in. -/
theorem granted_free (calls : List (Call ι)) {c : Client} (hc : c.state = .stateHalfOpen)
    (hp : c.probeInFlight = false) (hu : Unrecorded calls) : granted c calls = (askers calls).take 1 := by
  induction calls with
  | nil => rfl
  | cons e calls ih =>
      have hrest : Unrecorded calls := fun e' he' => hu e' (List.mem_cons_of_mem _ he')
      rcases hu e List.mem_cons_self with h | h
      · rw [granted_yes h (isAvailable_free hc hp),
          granted_inFlight (c := { c with probeInFlight := true }) calls hc rfl hrest]
        simp [askers, h]
      · have hsame : c.call e = c := by
          unfold Client.call
          rw [h]
        rw [granted, if_neg (by simp [h]), hsame, ih hrest]
        simp [askers, h]

/-- Who is let in from the end of the reset timeout until an outcome is recorded: the caller that finds the breaker
open, and the next one. -/
theorem granted_window {c : Client} (ho : c.state = .stateOpen) {e : Call ι} (he : e.op = .isAvailable)
    (ht : c.resetTimeout ≤ e.now - c.openedAt) (hp : c.probeInFlight = false) {window : List (Call ι)}
    (hu : Unrecorded window) : granted c (e :: window) = e.caller :: (askers window).take 1 := by
  rw [granted_yes he (isAvailable_late ho ht), granted_free (c := { c with state := .stateHalfOpen }) window rfl hp hu]

end Window

/-- **When a half-open breaker lets only one probe through.** Take any run that left the breaker open, the call of
`IsAvailable` that finds its timeout elapsed, and any further calls before an outcome is recorded. One answer at most
is yes exactly when no further call asks; and only one goroutine is answered yes exactly when the next question, if
any, comes from the same goroutine. -/
theorem at_most_one_probe_iff {ι : Type} (history : List (Call ι)) (e : Call ι) (window : List (Call ι))
    (ho : (newClient.run history).state = .stateOpen) (he : e.op = .isAvailable)
    (ht : (newClient.run history).resetTimeout ≤ e.now - (newClient.run history).openedAt)
    (hu : Unrecorded window) :
    ((granted (newClient.run history) (e :: window)).length ≤ 1 ↔ askers window = []) ∧
      ((∀ g ∈ granted (newClient.run history) (e :: window), g = e.caller) ↔
        ∀ g ∈ (askers window).head?, g = e.caller) := by
  have hp : (newClient.run history).probeInFlight = false := by
    by_contra hne
    have := (sound_run history).probe (by simpa using hne)
    rw [ho] at this
    cases this
  rw [granted_window ho he ht hp hu]
  cases askers window with
  | nil => simp
  | cons g gs => simp

/-- Three failures at time zero, then two goroutines asking after a minute. -/
def trippedAtZero : List (Call Nat) := List.replicate 3 ⟨0, .recordFailure, 0⟩

theorem at_most_one_probe_iff_two_askers :
    ¬ (granted (newClient.run trippedAtZero)
        [⟨1, .isAvailable, 60 * second⟩, ⟨2, .isAvailable, 60 * second⟩]).length ≤ 1 := by
  have h := (at_most_one_probe_iff trippedAtZero ⟨1, .isAvailable, 60 * second⟩ [⟨2, .isAvailable, 60 * second⟩]
    (by decide) rfl (by decide) (by simp [Unrecorded])).1
  rw [h]
  decide

/-- The breaker is open and its timeout has elapsed; both goroutines are answered yes, nothing recorded in between. -/
theorem two_probes_let_through :
    let c := newClient.run trippedAtZero
    c.state = .stateOpen ∧ c.resetTimeout ≤ 60 * second - c.openedAt ∧
      granted c [⟨1, .isAvailable, 60 * second⟩, ⟨2, .isAvailable, 60 * second⟩] = [1, 2] := by
  decide

end TimeChamp.Sync
