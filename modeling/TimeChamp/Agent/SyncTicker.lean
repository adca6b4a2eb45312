import Mathlib.Data.List.Perm.Basic
import TimeChamp.Heartbeat.Merge
import TimeChamp.Lib.Runs

/-!
# The sync ticker and the loop that resets it

`internal/sync/jitter.go`'s ticker together with the two places of the main loop that use it: the sync tick, which ends
with `syncTicker.Reset`, and the resume from sleep. Instants and durations are nanoseconds; a timer may fire late but
not early.

* `circulating` : the `Reset` timers that are pending, the tick waiting in the channel, and the sync in progress. Each
  of them becomes another one in the end, so only ticks that come in from outside or get lost change their number
  (`circulating_step`);
* `resets_bounded_iff` : the pending timers and the rate of the syncs stay bounded exactly when at most boundedly more
  ticks come in than get lost;
* `resets_pile_up` : in prompt runs they do not.
-/

namespace TimeChamp.Agent
open TimeChamp.Heartbeat (second)
open TimeChamp.Lib (Run)

/-- `adaptiveSyncInterval`. -/
def adaptiveSyncInterval (depth : Int) : Int :=
  if depth < 2000 then 30 * second
  else if depth < 6000 then 15 * second
  else if depth < 8000 then 7 * second
  else 3 * second

/-- `jitteredTicker`; the configured interval is positive. -/
structure JitteredTicker where
  base : Int
  base_pos : 0 < base

/-- The intervals `run` draws: base ± 30%. -/
def JitteredTicker.Interval (t : JitteredTicker) := { d : Int // 7 * t.base ≤ 10 * d ∧ 10 * d ≤ 13 * t.base }

/-- The clock, the timer of `run`, the deadlines of the timers `Reset` started, whether a tick waits in the channel,
and whether the main loop is in the handler of a sync tick. -/
structure SyncLoop where
  now : Int
  tickAt : Int
  resets : List Int
  full : Bool
  syncing : Bool

namespace SyncLoop

/-- `Reset`: a goroutine with a timer of its own. -/
def reset (s : SyncLoop) (d : Int) : SyncLoop := { s with resets := s.resets ++ [s.now + d] }

/-- The `select` with a `default`: the channel holds one tick, another one is dropped. -/
def send (s : SyncLoop) : SyncLoop := { s with full := true }

/-- `NewJitteredTicker`. -/
def newJitteredTicker {t : JitteredTicker} (interval : t.Interval) : SyncLoop := ⟨0, interval.1, [], false, false⟩

/-- What happens next: time passes, the timer of `run` or one of `Reset` fires, the main loop receives a tick, its
handler ends with `Reset` or without (the breaker is open, or a panic was recovered), the system resumes from sleep. -/
inductive Event (t : JitteredTicker) where
  | elapse (ns : Nat)
  | tick (interval : t.Interval)
  | fire (i : Nat)
  | receive
  | finish (depth : Int)
  | skip
  | resume

/-- `none` when the event is not possible. -/
def step {t : JitteredTicker} : Event t → SyncLoop → Option SyncLoop
  | .elapse ns, s => some { s with now := s.now + ns }
  | .tick interval, s => if s.tickAt ≤ s.now then some { s.send with tickAt := s.now + interval.1 } else none
  | .fire i, s =>
    match s.resets[i]? with
    | none => none
    | some deadline => if deadline ≤ s.now then some { s.send with resets := s.resets.eraseIdx i } else none
  | .receive, s => if s.full ∧ ¬ s.syncing then some { s with full := false, syncing := true } else none
  | .finish depth, s => if s.syncing then some ({ s with syncing := false }.reset (adaptiveSyncInterval depth)) else none
  | .skip, s => if s.syncing then some { s with syncing := false } else none
  | .resume, s => if s.syncing then none else some (s.reset (5 * second))

/-- What each event needs and does. -/
inductive Steps {t : JitteredTicker} (s : SyncLoop) : Event t → SyncLoop → Prop where
  | elapse (ns : Nat) : Steps s (.elapse ns) { s with now := s.now + ns }
  | tick (interval : t.Interval) (due : s.tickAt ≤ s.now) :
      Steps s (.tick interval) { s.send with tickAt := s.now + interval.1 }
  | fire (i : Nat) (hi : i < s.resets.length) (due : s.resets[i] ≤ s.now) :
      Steps s (.fire i) { s.send with resets := s.resets.eraseIdx i }
  | receive (full : s.full = true) (idle : s.syncing = false) :
      Steps s .receive { s with full := false, syncing := true }
  | finish (depth : Int) (syncing : s.syncing = true) :
      Steps s (.finish depth) ({ s with syncing := false }.reset (adaptiveSyncInterval depth))
  | skip (syncing : s.syncing = true) : Steps s .skip { s with syncing := false }
  | resume : Steps s .resume (s.reset (5 * second))

theorem steps {t : JitteredTicker} {s s' : SyncLoop} {e : Event t} (h : step e s = some s') : Steps s e s' := by
  cases e with
  | elapse ns =>
      cases h
      exact .elapse ns
  | tick interval =>
      obtain ⟨due, h⟩ := Option.ite_none_right_eq_some.mp h
      cases h
      exact .tick interval due
  | fire i =>
      simp only [step] at h
      split at h
      next => cases h
      next deadline hd =>
        obtain ⟨hi, rfl⟩ := List.getElem?_eq_some_iff.mp hd
        obtain ⟨due, h⟩ := Option.ite_none_right_eq_some.mp h
        cases h
        exact .fire i hi due
  | receive =>
      obtain ⟨⟨full, idle⟩, h⟩ := Option.ite_none_right_eq_some.mp h
      cases h
      exact .receive full (by simpa using idle)
  | finish depth =>
      obtain ⟨syncing, h⟩ := Option.ite_none_right_eq_some.mp h
      cases h
      exact .finish depth syncing
  | skip =>
      obtain ⟨syncing, h⟩ := Option.ite_none_right_eq_some.mp h
      cases h
      exact .skip syncing
  | resume =>
      obtain ⟨-, h⟩ := Option.ite_none_left_eq_some.mp h
      cases h
      exact .resume

/-! ## What circulates -/

/-- Ticks that come in: those of `run` that find the channel empty, and those a resume asks for. -/
def comesIn {t : JitteredTicker} (s : SyncLoop) : Event t → Nat
  | .tick _ => if s.full then 0 else 1
  | .resume => 1
  | _ => 0

/-- Ticks that get lost: those of `Reset` that find the channel full, and those whose handler ends without `Reset`. -/
def getsLost {t : JitteredTicker} (s : SyncLoop) : Event t → Nat
  | .fire _ => if s.full then 1 else 0
  | .skip => 1
  | _ => 0

def circulating (s : SyncLoop) : Nat := s.resets.length + s.full.toNat + s.syncing.toNat

section Step
variable {t : JitteredTicker} {s s' : SyncLoop} {e : Event t}

/-- **One step.** A timer that fires, a tick that is received and a sync that ends hand on what they had. -/
theorem circulating_step (h : step e s = some s') : s'.circulating + getsLost s e = s.circulating + comesIn s e := by
  cases steps h with
  | elapse => rfl
  | tick => cases hfull : s.full <;> simp [circulating, send, getsLost, comesIn, hfull, Nat.add_right_comm]
  | fire i hi =>
      have hlen := List.length_eraseIdx_add_one hi
      cases hfull : s.full <;> simp [circulating, send, getsLost, comesIn, hfull] <;> omega
  | receive full idle => simp [circulating, getsLost, comesIn, full, idle]
  | finish depth syncing => simp [circulating, reset, getsLost, comesIn, syncing, Nat.add_right_comm]
  | skip syncing => simp [circulating, getsLost, comesIn, syncing]
  | resume => simp [circulating, reset, getsLost, comesIn, Nat.add_right_comm]

end Step

/-! ## How often the loop syncs -/

def fires {t : JitteredTicker} (_ : SyncLoop) : Event t → Nat
  | .fire _ => 1
  | _ => 0

def ticks {t : JitteredTicker} (_ : SyncLoop) : Event t → Nat
  | .tick _ => 1
  | _ => 0

def syncs {t : JitteredTicker} (_ : SyncLoop) : Event t → Nat
  | .finish _ => 1
  | _ => 0

/-- The timers of `Reset` whose deadline is before `θ`. -/
def early (θ : Int) (s : SyncLoop) : Nat := s.resets.countP (· < θ)

theorem early_reset_of_le {θ d : Int} {s : SyncLoop} (h : θ ≤ s.now + d) : early θ (s.reset d) = early θ s := by
  simp [early, reset, h]

theorem adaptiveSyncInterval_ge (depth : Int) : 3 * second ≤ adaptiveSyncInterval depth := by
  unfold adaptiveSyncInterval second
  split_ifs <;> omega

/-- A tick not received yet, and a sync not ended yet. -/
def underWay (s : SyncLoop) : Nat := s.full.toNat + s.syncing.toNat

section Step
variable {t : JitteredTicker} {s s' : SyncLoop} {e : Event t}

/-- Each sync needs a tick, of `run` or of `Reset`. -/
theorem underWay_step (h : step e s = some s') : s'.underWay + syncs s e ≤ s.underWay + (fires s e + ticks s e) := by
  cases steps h with
  | elapse => exact le_rfl
  | tick | fire =>
      simp only [underWay, send, syncs, fires, ticks, Bool.toNat_true]
      omega
  | receive full idle => simp [underWay, syncs, fires, ticks, full, idle]
  | finish depth syncing => simp [underWay, reset, syncs, fires, ticks, syncing]
  | skip syncing => simp [underWay, syncs, fires, ticks, syncing]
  | resume => exact le_rfl

/-- The ticks of `run` are at least 0.7 base intervals apart. -/
theorem ticks_step (h : step e s = some s') :
    10 * max s.tickAt s.now + 7 * t.base * ticks s e ≤ 10 * max s'.tickAt s'.now := by
  cases steps h with
  | elapse =>
      simp only [ticks]
      omega
  | tick interval due =>
      have hbase := t.base_pos
      have hdraw := interval.2.1
      simp only [ticks, send]
      omega
  | _ => simp [ticks, send, reset]

/-- The timer of `run` is at most 1.3 base intervals ahead. -/
theorem tickAt_step (h : step e s = some s') (hs : 10 * s.tickAt ≤ 10 * s.now + 13 * t.base) :
    10 * s'.tickAt ≤ 10 * s'.now + 13 * t.base := by
  cases steps h with
  | elapse ns =>
      simp only
      omega
  | tick interval =>
      have hdraw := interval.2.2
      simp only [send]
      omega
  | _ => exact hs

end Step

/-- `Reset` is called with three seconds at least. -/
theorem timers (t : JitteredTicker) : Run.Timers (step (t := t)) now early fires (3 * second) where
  mono h := by
    cases steps h with
    | elapse ns => exact Int.le_add_of_nonneg_right (Int.natCast_nonneg ns)
    | _ => exact le_rfl
  early_step {s e s' θ} h hlt hle := by
    cases steps h with
    | fire i hi due =>
        have hperm := (List.getElem_cons_eraseIdx_perm hi).countP_eq fun x => decide (x < θ)
        rw [List.countP_cons_of_pos (by simpa using due.trans_lt hlt)] at hperm
        exact hperm.le
    | finish depth =>
        exact (early_reset_of_le (hle.trans (Int.add_le_add_left (adaptiveSyncInterval_ge depth) s.now))).le
    | resume =>
        refine (early_reset_of_le ?_).le
        unfold second at *
        omega
    | _ => exact le_rfl

end SyncLoop

/-! ## Runs -/

open SyncLoop

/-- A run of the agent from its start. -/
structure LoopRun (t : JitteredTicker) extends Run (step (t := t)) where
  start : ∃ interval : t.Interval, state 0 = newJitteredTicker interval

section LoopRun
variable {t : JitteredTicker}

/-- **The balance of a run.** -/
theorem circulating_run (r : LoopRun t) (n : Nat) :
    (r.state n).circulating + r.total getsLost 0 n = r.total comesIn 0 n := by
  obtain ⟨interval, hstart⟩ := r.start
  have h := r.balance circulating_step 0 n
  rwa [Nat.zero_add, hstart, show (newJitteredTicker interval).circulating = 0 from rfl, Nat.zero_add] at h

theorem tickAt_le (r : LoopRun t) (n : Nat) : 10 * (r.state n).tickAt ≤ 10 * (r.state n).now + 13 * t.base := by
  induction n with
  | zero =>
      obtain ⟨interval, hstart⟩ := r.start
      simpa [hstart, newJitteredTicker] using interval.2.2
  | succ n ih => exact tickAt_step (r.next n) ih

/-- With at most `b` timers pending, syncs come at most `b` for every three seconds, and one for each tick of `run`. -/
theorem syncs_le (r : LoopRun t) {b : Nat} (hb : ∀ n, (r.state n).resets.length ≤ b) (i n : Nat) :
    ∃ ticked : Nat, 7 * t.base * ticked ≤ 10 * ((r.state (i + n)).now - (r.state i).now) + 13 * t.base ∧
      (r.total syncs i n : Int) ≤ 2 + b * (((r.state (i + n)).now - (r.state i).now) / (3 * second) + 1) + ticked := by
  have hfires := r.fires_le (timers t) (by decide) (fun k θ => List.countP_le_length.trans (hb k)) i n
  have hticks := r.charge ticks_step i n
  have hsyncs := r.balance_le underWay_step i n
  have hfull := Bool.toNat_le (r.state i).full
  have hsyncing := Bool.toNat_le (r.state i).syncing
  have htick := tickAt_le r (i + n)
  have hbase := t.base_pos
  rw [Run.total_add] at hsyncs
  simp only [underWay] at hsyncs
  refine ⟨r.total ticks i n, by omega, by omega⟩

theorem now_mono (r : LoopRun t) (i n : Nat) : (r.state i).now ≤ (r.state (i + n)).now := by
  induction n with
  | zero => exact le_rfl
  | succ n ih => exact ih.trans ((timers t).mono (r.next (i + n)))

/-- Never more than a fixed number of `Reset` timers is pending, in none of the runs. -/
def PendingBounded (R : Set (LoopRun t)) : Prop :=
  ∃ b : Nat, ∀ r ∈ R, ∀ n, (r.state n).resets.length ≤ b

/-- The syncs of a window of length `T` are at most a fixed multiple of `T / d`, rounded up. -/
def RateBounded (R : Set (LoopRun t)) (d : Int) : Prop :=
  ∃ c : Nat, ∀ r ∈ R, ∀ i n, (r.total syncs i n : Int) ≤ c * (((r.state (i + n)).now - (r.state i).now) / d + 1)

/-- At most a fixed number of ticks more come in than get lost. -/
def InflowBounded (R : Set (LoopRun t)) : Prop :=
  ∃ b : Nat, ∀ r ∈ R, ∀ n, r.total comesIn 0 n ≤ r.total getsLost 0 n + b

theorem pendingBounded_iff (R : Set (LoopRun t)) : PendingBounded R ↔ InflowBounded R := by
  constructor
  · rintro ⟨b, hb⟩
    refine ⟨b + 2, fun r hr n => ?_⟩
    have hbal := circulating_run r n
    have hn := hb r hr n
    have hfull := Bool.toNat_le (r.state n).full
    have hsyncing := Bool.toNat_le (r.state n).syncing
    unfold circulating at hbal
    omega
  · rintro ⟨b, hb⟩
    refine ⟨b, fun r hr n => ?_⟩
    have hbal := circulating_run r n
    have hn := hb r hr n
    unfold circulating at hbal
    omega

theorem adaptiveSyncInterval_le (depth : Int) : adaptiveSyncInterval depth ≤ 30 * second := by
  unfold adaptiveSyncInterval second
  split_ifs <;> omega

/-- A window has at most ten times as many spans of three seconds as of an adaptive interval. -/
theorem spans_le {T : Int} (hT : 0 ≤ T) (depth : Int) :
    T / (3 * second) + 1 ≤ 10 * (T / adaptiveSyncInterval depth + 1) := by
  have hd := adaptiveSyncInterval_ge depth
  have hle := adaptiveSyncInterval_le depth
  have hpos : 0 < adaptiveSyncInterval depth := lt_of_lt_of_le (by decide) hd
  have hq : 0 ≤ T / adaptiveSyncInterval depth := Int.ediv_nonneg hT hpos.le
  refine Int.add_one_le_iff.mpr (Int.ediv_lt_of_lt_mul (by decide) ?_)
  calc T < (T / adaptiveSyncInterval depth + 1) * adaptiveSyncInterval depth := Int.lt_ediv_add_one_mul_self T hpos
    _ ≤ (T / adaptiveSyncInterval depth + 1) * (30 * second) := mul_le_mul_of_nonneg_left hle (by omega)
    _ = 10 * (T / adaptiveSyncInterval depth + 1) * (3 * second) := by ring

theorem ticked_le {T d : Int} {ticked : Nat} (hT : 0 ≤ T) (hd : 0 < d)
    (h : 7 * t.base * ticked ≤ 10 * T + 13 * t.base) :
    (ticked : Int) ≤ ((10 * d + 13 * t.base) / (7 * t.base) + 1) * (T / d + 1) := by
  have hbase : 0 < 7 * t.base := by linarith [t.base_pos]
  have hspan := Int.lt_ediv_add_one_mul_self T hd
  have hq : 0 ≤ T / d := Int.ediv_nonneg hT hd.le
  refine le_of_mul_le_mul_left ?_ hbase
  calc 7 * t.base * ticked ≤ 10 * T + 13 * t.base := h
    _ ≤ 10 * ((T / d + 1) * d) + 13 * t.base * (T / d + 1) := by
        refine add_le_add (by omega) (le_mul_of_one_le_right ?_ (by omega))
        linarith
    _ = (10 * d + 13 * t.base) * (T / d + 1) := by ring
    _ ≤ (((10 * d + 13 * t.base) / (7 * t.base) + 1) * (7 * t.base)) * (T / d + 1) :=
        mul_le_mul_of_nonneg_right (Int.lt_ediv_add_one_mul_self _ hbase).le (by omega)
    _ = 7 * t.base * (((10 * d + 13 * t.base) / (7 * t.base) + 1) * (T / d + 1)) := by ring

theorem rateBounded_of_pendingBounded {R : Set (LoopRun t)} (h : PendingBounded R) (depth : Int) :
    RateBounded R (adaptiveSyncInterval depth) := by
  obtain ⟨b, hb⟩ := h
  have hd : 0 < adaptiveSyncInterval depth := lt_of_lt_of_le (by decide) (adaptiveSyncInterval_ge depth)
  refine ⟨2 + b * 10 + ((10 * adaptiveSyncInterval depth + 13 * t.base) / (7 * t.base) + 1).toNat, fun r hr i n => ?_⟩
  obtain ⟨ticked, htick, hsyncs⟩ := syncs_le r (hb r hr) i n
  have hT : 0 ≤ (r.state (i + n)).now - (r.state i).now := Int.sub_nonneg_of_le (now_mono r i n)
  generalize (r.state (i + n)).now - (r.state i).now = T at *
  have hq : 0 ≤ T / adaptiveSyncInterval depth := Int.ediv_nonneg hT hd.le
  have hspans := mul_le_mul_of_nonneg_left (spans_le hT depth) (Int.natCast_nonneg b)
  have hticked := (ticked_le hT hd htick).trans
    (mul_le_mul_of_nonneg_right (Int.self_le_toNat _) (Int.add_nonneg hq zero_le_one))
  push_cast
  linarith

/-- **When the pending timers stay bounded.** In a family of runs, the number of `Reset` timers pending at the same
time and the rate of the syncs are bounded by constants exactly when the ticks that come in, of `run` into an empty
channel or by a resume, are but for a constant no more than those that get lost, of `Reset` into a full channel or in
a handler that ends without `Reset`: every other step of the loop hands a tick on. -/
theorem resets_bounded_iff (R : Set (LoopRun t)) (depth : Int) :
    PendingBounded R ∧ RateBounded R (adaptiveSyncInterval depth) ↔ InflowBounded R := by
  rw [← pendingBounded_iff]
  exact and_iff_left_of_imp fun h => rateBounded_of_pendingBounded h depth

end LoopRun

/-! ## The timers pile up -/

/-- No timer fires late, no tick waits while the main loop is free, every handler ends with `Reset` and the system
never sleeps. -/
def Prompt {t : JitteredTicker} (s : SyncLoop) : Event t → Prop
  | .elapse ns =>
    s.now + ns ≤ s.tickAt ∧ (∀ x ∈ s.resets, s.now + ns ≤ x) ∧ (ns = 0 ∨ s.full = false ∨ s.syncing = true)
  | .skip | .resume => False
  | _ => True

def promptRuns (t : JitteredTicker) : Set (LoopRun t) := {r | ∀ n, Prompt (r.state n) (r.event n)}

section PileUp
variable {t : JitteredTicker}

/-- Some prompt run comes through `s`. -/
def Visited (t : JitteredTicker) (s : SyncLoop) : Prop :=
  Prompt s (.elapse 0 : Event t) ∧ ∃ r ∈ promptRuns t, ∃ n, r.state n = s

theorem prompt_step {s s' : SyncLoop} {e : Event t} (h : step e s = some s') (hp : Prompt s e)
    (hs : Prompt s (.elapse 0 : Event t)) : Prompt s' (.elapse 0 : Event t) := by
  simp only [Prompt, Nat.cast_zero, Int.add_zero, true_or, and_true] at hs ⊢
  cases steps h with
  | elapse ns => exact ⟨hp.1, hp.2.1⟩
  | tick interval =>
      have hbase := t.base_pos
      have hdraw := interval.2.1
      exact ⟨by simp only [send]; omega, hs.2⟩
  | fire i => exact ⟨hs.1, fun x hx => hs.2 x (List.mem_of_mem_eraseIdx hx)⟩
  | receive | skip => exact hs
  | finish depth =>
      have hd := adaptiveSyncInterval_ge depth
      refine ⟨hs.1, fun x hx => (List.mem_append.mp hx).elim (hs.2 x) fun hx => ?_⟩
      rw [List.mem_singleton.mp hx]
      exact Int.le_add_of_nonneg_right (le_trans (by decide) hd)
  | resume => exact hp.elim

theorem Visited.next {s s' : SyncLoop} (hs : Visited t s) (e : Event t) (hp : Prompt s e) (h : step e s = some s') :
    Visited t s' := by
  obtain ⟨hidle, r, hr, n, rfl⟩ := hs
  have hidle' := prompt_step h hp hidle
  have hstay : step (.elapse 0 : Event t) s' = some s' := by simp [step]
  let r' : LoopRun t :=
    { toRun := r.extend n h hstay
      start := by simpa [Run.extend] using r.start }
  exact ⟨hidle', r', r.extend_forall n h hstay hr hp hidle', n + 1, r.extend_state_succ n h hstay⟩

/-- `n` deadlines, `δ` apart. -/
def file (δ : Nat) : Nat → Int → List Int
  | 0, _ => []
  | n + 1, x => x :: file δ n (x + δ)

theorem le_of_mem_file {δ n : Nat} {x y : Int} (h : y ∈ file δ n x) : x ≤ y := by
  induction n generalizing x with
  | zero => cases h
  | succ n ih =>
      rcases List.mem_cons.mp h with rfl | h
      · exact le_rfl
      · exact (Int.le_add_of_nonneg_right (Int.natCast_nonneg δ)).trans (ih h)

theorem length_file (δ n : Nat) (x : Int) : (file δ n x).length = n := by
  induction n generalizing x with
  | zero => rfl
  | succ n ih => rw [file, List.length_cons, ih]

/-- The default `TC_SYNC_INTERVAL`. -/
def every30s : JitteredTicker := ⟨30 * second, by decide⟩

def drawn30s : every30s.Interval := ⟨30 * second, by decide⟩

/-- A tick waits in the channel: it is received, synced for `δ`, and becomes a timer again. -/
theorem visited_sync {T at' : Int} {l : List Int} {δ : Nat} (h : Visited t ⟨T, at', l, true, false⟩) (hat : T + δ ≤ at')
    (hl : ∀ x ∈ l, T + δ ≤ x) : Visited t ⟨T + δ, at', l ++ [T + δ + 30 * second], false, false⟩ :=
  ((h.next .receive trivial rfl).next (.elapse δ) ⟨hat, hl, Or.inr (Or.inr rfl)⟩ rfl).next (.finish 0) trivial rfl

/-- Timers `δ` apart fire one after the other, each when the sync before it ends. -/
theorem visited_file {δ : Nat} (n : Nat) {x at' : Int} {l : List Int}
    (h : Visited t ⟨x, at', file δ n x ++ l, false, false⟩) (hat : x + n * δ ≤ at') (hnew : at' ≤ x + 30 * second)
    (hl : ∀ y ∈ l, at' ≤ y) :
    Visited t ⟨x + n * δ, at', l ++ file δ n (x + δ + 30 * second), false, false⟩ := by
  induction n generalizing x l with
  | zero => simpa [file] using h
  | succ n ih =>
      have hδ : x + δ + n * δ ≤ at' := by
        push_cast at hat
        linarith
      have hle : x + δ ≤ at' := le_trans (Int.le_add_of_nonneg_right (by positivity)) hδ
      have hfired : Visited t ⟨x, at', file δ n (x + δ) ++ l, true, false⟩ := h.next (.fire 0) trivial (if_pos le_rfl)
      have hsynced := visited_sync hfired hle fun y hy =>
        (List.mem_append.mp hy).elim le_of_mem_file fun hy => hle.trans (hl y hy)
      rw [List.append_assoc] at hsynced
      have hrest := ih hsynced hδ (by omega) fun y hy => (List.mem_append.mp hy).elim (hl y) fun hy => by
        rw [List.mem_singleton.mp hy]
        omega
      have hnow : x + δ + n * δ = x + (n + 1 : Nat) * δ := by
        push_cast
        ring
      have hnext : x + δ + δ + 30 * second = x + δ + 30 * second + δ := by ring
      rwa [hnow, hnext, List.append_assoc] at hrest

/-- One turn of thirty seconds: the tick of `run` and then each timer leads to a sync, and so to a timer. -/
theorem visited_turn {δ k : Nat} {T : Int} (h : Visited every30s ⟨T, T, file δ k (T + δ), false, false⟩)
    (hk : (k + 1 : Nat) * (δ : Int) ≤ 30 * second) :
    Visited every30s ⟨T + 30 * second, T + 30 * second, file δ (k + 1) (T + 30 * second + δ), false, false⟩ := by
  have hk' : δ + k * (δ : Int) ≤ 30 * second := by
    push_cast at hk
    linarith
  have hδ : (δ : Int) ≤ 30 * second := le_trans (Int.le_add_of_nonneg_right (by positivity)) hk'
  have hticked : Visited every30s ⟨T, T + 30 * second, file δ k (T + δ), true, false⟩ :=
    h.next (.tick drawn30s) trivial (if_pos le_rfl)
  have hsynced := visited_sync hticked (by omega) fun x => le_of_mem_file
  have hfile := visited_file k hsynced (by linarith) (by omega) (by simp)
  have hlist : [T + δ + 30 * second] ++ file δ k (T + δ + δ + 30 * second) = file δ (k + 1) (T + 30 * second + δ) := by
    rw [file, show T + 30 * second + δ = T + δ + 30 * second by ring,
      show T + δ + 30 * second + δ = T + δ + δ + 30 * second by ring]
    rfl
  rw [hlist] at hfile
  -- nothing happens until the next tick is due
  have hrest : T + δ + k * δ + ((30 * second - (δ + k * δ)).toNat : Int) = T + 30 * second := by
    rw [Int.toNat_of_nonneg (by linarith)]
    ring
  refine hfile.next (.elapse (30 * second - (δ + k * δ)).toNat) ⟨hrest.le, fun x hx => ?_, Or.inr (Or.inl rfl)⟩
    (congrArg some (congrArg (SyncLoop.mk · _ _ _ _) hrest))
  rw [hrest]
  exact le_trans (Int.le_add_of_nonneg_right (Int.natCast_nonneg δ)) (le_of_mem_file hx)

/-- The ticker just started: nothing happens for thirty seconds. -/
theorem visited_start : Visited every30s ⟨30 * second, 30 * second, [], false, false⟩ := by
  let r : LoopRun every30s :=
    { state := fun _ => newJitteredTicker drawn30s
      event := fun _ => .elapse 0
      next := fun _ => rfl
      start := ⟨drawn30s, rfl⟩ }
  have hidle : Prompt (newJitteredTicker drawn30s) (.elapse 0 : Event every30s) :=
    ⟨by decide, by simp [newJitteredTicker], Or.inl rfl⟩
  have hstart : Visited every30s (newJitteredTicker drawn30s) := ⟨hidle, r, fun _ => hidle, 0, rfl⟩
  exact hstart.next (.elapse (30 * second).toNat)
    ⟨by decide, by simp [newJitteredTicker], Or.inr (Or.inl rfl)⟩ rfl

theorem visited_pile {δ : Nat} (k : Nat) (hk : k * (δ : Int) ≤ 30 * second) :
    ∃ T, Visited every30s ⟨T, T, file δ k (T + δ), false, false⟩ := by
  induction k with
  | zero => exact ⟨_, visited_start⟩
  | succ k ih =>
      obtain ⟨T, h⟩ := ih (le_trans (mul_le_mul_of_nonneg_right (by simp) (Int.natCast_nonneg δ)) hk)
      exact ⟨_, visited_turn h hk⟩

end PileUp

/-- With a buffer that stays empty, a base interval of thirty seconds and every timer on time, there is no bound. -/
theorem resets_pile_up : ¬ PendingBounded (promptRuns every30s) := by
  rintro ⟨b, hb⟩
  have hδ : ((b + 1 : Nat) : Int) * ((30 * second).toNat / (b + 1) : Nat) ≤ (30 * second).toNat := by
    exact_mod_cast Nat.mul_div_le _ _
  obtain ⟨T, -, r, hr, n, hn⟩ := visited_pile (b + 1) hδ
  have hle := hb r hr n
  rw [hn, length_file] at hle
  exact Nat.not_succ_le_self b hle

end TimeChamp.Agent
