import Mathlib.Data.List.Infix
import TimeChamp.Updater.Supervisors

/-!
# The watchdog's backoff

`runWatchdogLoop` alone with a clock: agents start or fail to, end, and the watchdog sleeps between. It counts the crashes in
a window that opens at the first of them, and opens the next one at the first crash after that is over.

* `timed` : what the effects of the loop do to the clock, and the log of starts, crashes and sleeps;
* `FiveWithin` : the fifth crash within a minute since the last backoff;
* `BacksOff` : each of these is followed by the backoff, and no minute has more than five starts;
* `windowStart` : when the counting window opened that a crash falls in; `OneWindow` : it opened no later than the first of
  the five and is not over;
* `starts_apart` : a watchdog that backs off starts no more than five agents a minute;
* `backsOff_iff` : **exactly the runs in which no five such crashes straddle two windows.**
-/

namespace TimeChamp.Updater.Supervisors
open TimeChamp.Lib

/-! ## The loop with a clock -/

/-- What the watchdog did and saw. -/
inductive Entry where
  | failed (t : Int)
  | started (t : Int)
  | crashed (t : Int)
  | slept (duration : Int)
deriving DecidableEq

/-- The monotonic clock, and the log, the last entry first. -/
structure Timed where
  time : Int
  log : List Entry
deriving DecidableEq

/-- What happens at an effect: how long it takes besides, and whether a start or an agent ends well. -/
structure Happens where
  delay : Nat
  ok : Bool
deriving DecidableEq

/-- The effects of the loop. The crash time is the reading of the clock after the agent ended. -/
def timed (h : Happens) (op : SupOp) (w : Timed) : Option (op.Reply × Timed) :=
  let t := w.time + h.delay
  match op with
  | .startAgent _ => some (if h.ok then (.ok 0, ⟨t, .started t :: w.log⟩) else (.error "fork/exec", ⟨t, .failed t :: w.log⟩))
  | .wait _ => some (if h.ok then .ok () else .error "exit status 1", ⟨t, w.log⟩)
  | .now => some (t, ⟨t, .crashed t :: w.log⟩)
  | .sleep d => some ((), ⟨t + d, .slept d :: w.log⟩)
  | .stop => some ((), ⟨t, w.log⟩)
  | .tray _ => none
  | .agent _ _ => none

/-- The loop for some rounds, from a state of its counters. -/
def watched (path : String) (rounds crashes : Nat) (firstCrash : Int) (s : (Nat → Happens) × Timed) :
    Option (Unit × (Nat → Happens) × Timed) :=
  (runWatchdogLoop path rounds crashes firstCrash).run (Prog.fed timed) s

/-! ## What is said of the log -/

/-- The crashes since the last backoff, the last first. -/
def recentCrashes : List Entry → List Int
  | [] => []
  | .failed _ :: log => recentCrashes log
  | .started _ :: log => recentCrashes log
  | .crashed t :: log => t :: recentCrashes log
  | .slept d :: log => if d = backoffDuration then [] else recentCrashes log

/-- The starts, the last first. -/
def starts : List Entry → List Int
  | [] => []
  | .failed _ :: log => starts log
  | .started t :: log => t :: starts log
  | .crashed _ :: log => starts log
  | .slept _ :: log => starts log

/-- With the crash at `t`, the agent has crashed five times within a minute since the last backoff. -/
def FiveWithin (t : Int) (earlier : List Int) : Prop := ∃ first, earlier[3]? = some first ∧ t - first ≤ maxCrashWindow

instance (t : Int) (earlier : List Int) : Decidable (FiveWithin t earlier) :=
  decidable_of_iff (∃ first ∈ earlier[3]?, t - first ≤ maxCrashWindow) Iff.rfl

/-- The sleep after the fifth crash within a minute is the backoff. -/
def Rests (log : List Entry) : Prop :=
  ∀ d t older, .slept d :: .crashed t :: older <:+ log → FiveWithin t (recentCrashes older) → d = backoffDuration

/-- **What is said of a run.** -/
structure BacksOff (log : List Entry) : Prop where
  backoff : Rests log
  /-- A sixth start is more than a minute after the first of them. -/
  apart : ∀ (i : Nat) (a b : Int), (starts log)[i]? = some a → (starts log)[i + 5]? = some b → maxCrashWindow < a - b

/-! ## The counting window -/

/-- The first crash of the window that the last of these crashes falls in. -/
def windowStart : List Int → Option Int
  | [] => none
  | t :: earlier =>
    match windowStart earlier with
    | none => some t
    | some first => if t - first > maxCrashWindow then some t else some first

/-- The window that the crash at `t` falls in opened no later than at the fourth crash before. -/
def SameWindow (t : Int) (earlier : List Int) : Prop :=
  ∃ first ∈ earlier[3]?, ∃ opened ∈ windowStart (t :: earlier), opened ≤ first

instance (t : Int) (earlier : List Int) : Decidable (SameWindow t earlier) :=
  inferInstanceAs (Decidable (∃ first ∈ earlier[3]?, ∃ opened ∈ windowStart (t :: earlier), opened ≤ first))

/-- Five crashes within a minute fall in one window. -/
def OneWindow (log : List Entry) : Prop :=
  ∀ t older, .crashed t :: older <:+ log → FiveWithin t (recentCrashes older) → SameWindow t (recentCrashes older)

/-- A suffix that ends in a crash has it in one window. -/
def endsInWindow : List Entry → Bool
  | .crashed t :: older => decide (FiveWithin t (recentCrashes older) → SameWindow t (recentCrashes older))
  | _ => true

instance (log : List Entry) : Decidable (OneWindow log) :=
  decidable_of_iff (∀ l ∈ log.tails, endsInWindow l = true) (by
    constructor
    · intro h t older hsuf
      exact of_decide_eq_true (h _ ((List.mem_tails _ _).mpr hsuf))
    · intro h l hl
      match l, (List.mem_tails _ _).mp hl with
      | [], _ => rfl
      | .failed _ :: _, _ => rfl
      | .started _ :: _, _ => rfl
      | .slept _ :: _, _ => rfl
      | .crashed t :: older, hsuf => exact decide_eq_true (h t older hsuf))

/-! ## One round -/

/-- The count and the first crash of the window after a crash. -/
def counted (crashes : Nat) (firstCrash now : Int) : Nat × Int :=
  if crashes = 0 ∨ now - firstCrash > maxCrashWindow then (1, now) else (crashes + 1, firstCrash)

/-- The sleep after a crash. -/
def sleepAfter (count : Nat) : Int := if count ≥ maxCrashCount then backoffDuration else restartDelay

section Effects
variable {h : Happens} {w w' : Timed}

theorem timed_startAgent {path : String} {r : Except String Nat} (he : timed h (.startAgent path) w = some (r, w')) :
    ∃ t, w.time ≤ t ∧ w' = match r with
      | .ok _ => ⟨t, .started t :: w.log⟩
      | .error _ => ⟨t, .failed t :: w.log⟩ := by
  refine ⟨w.time + h.delay, by omega, ?_⟩
  simp only [timed, Option.some.injEq] at he
  split_ifs at he <;> obtain ⟨rfl, rfl⟩ := Prod.mk.inj he <;> rfl

theorem timed_wait {pid : Nat} {r : Except String Unit} (he : timed h (.wait pid) w = some (r, w')) :
    ∃ t, w.time ≤ t ∧ w' = ⟨t, w.log⟩ := by
  obtain ⟨-, rfl⟩ := Prod.mk.inj (Option.some.inj he)
  exact ⟨w.time + h.delay, by omega, rfl⟩

theorem timed_stop {r : Unit} (he : timed h .stop w = some (r, w')) : ∃ t, w.time ≤ t ∧ w' = ⟨t, w.log⟩ := by
  obtain ⟨-, rfl⟩ := Prod.mk.inj (Option.some.inj he)
  exact ⟨w.time + h.delay, by omega, rfl⟩

theorem timed_now {now : Int} (he : timed h .now w = some (now, w')) : w.time ≤ now ∧ w' = ⟨now, .crashed now :: w.log⟩ := by
  obtain ⟨rfl, rfl⟩ := Prod.mk.inj (Option.some.inj he)
  exact ⟨by omega, rfl⟩

theorem timed_sleep {d : Int} {r : Unit} (he : timed h (.sleep d) w = some (r, w')) :
    ∃ t, w.time ≤ t ∧ w' = ⟨t + d, .slept d :: w.log⟩ := by
  obtain ⟨-, rfl⟩ := Prod.mk.inj (Option.some.inj he)
  exact ⟨w.time + h.delay, by omega, rfl⟩

end Effects

section Round
variable {path : String} {n crashes : Nat} {firstCrash : Int} {f f' : Nat → Happens} {w w' : Timed}

/-- The sleep at the end of a round that crashed, and the rounds after it. -/
theorem watched_sleep {count : Nat} {g : Nat → Happens}
    (h : (if count ≥ maxCrashCount then
            (Prog.perform (E := SupOp) (.sleep backoffDuration) >>= fun _ => runWatchdogLoop path n 0 firstCrash :
              Program Unit)
          else (Prog.perform (E := SupOp) (.sleep restartDelay) >>= fun _ => runWatchdogLoop path n count firstCrash :
              Program Unit)).run (Prog.fed timed) (g, w) = some ((), f', w')) :
    ∃ v g, w.time ≤ v ∧ watched path n (if count ≥ maxCrashCount then 0 else count) firstCrash
      (g, ⟨v + sleepAfter count, .slept (sleepAfter count) :: w.log⟩) = some ((), f', w') := by
  unfold sleepAfter
  by_cases hmany : count ≥ maxCrashCount
  · rw [if_pos hmany] at h
    obtain ⟨_, ⟨g, w₁⟩, hsleep, hrest⟩ := Prog.run_op_eq_some (e := SupOp.sleep backoffDuration) (Prog.fed timed) h
    obtain ⟨v, hv, rfl⟩ := timed_sleep (Prog.fed_eq_some hsleep)
    rw [if_pos hmany, if_pos hmany]
    exact ⟨v, g, hv, hrest⟩
  · rw [if_neg hmany] at h
    obtain ⟨_, ⟨g, w₁⟩, hsleep, hrest⟩ := Prog.run_op_eq_some (e := SupOp.sleep restartDelay) (Prog.fed timed) h
    obtain ⟨v, hv, rfl⟩ := timed_sleep (Prog.fed_eq_some hsleep)
    rw [if_neg hmany, if_neg hmany]
    exact ⟨v, g, hv, hrest⟩

/-- **What a round can be**: a start that fails, an agent that ends well and the loop with it, or a crash. -/
theorem watched_cases (h : watched path (n + 1) crashes firstCrash (f, w) = some ((), f', w')) :
    (∃ t u g, w.time ≤ t ∧ t ≤ u ∧
        watched path n crashes firstCrash (g, ⟨u + restartDelay, .slept restartDelay :: .failed t :: w.log⟩) =
          some ((), f', w')) ∨
      (∃ t, w.time ≤ t ∧ w'.log = .started t :: w.log) ∨
      ∃ t u v g, w.time ≤ t ∧ t ≤ u ∧ u ≤ v ∧
        watched path n (if (counted crashes firstCrash u).1 ≥ maxCrashCount then 0 else (counted crashes firstCrash u).1)
          (counted crashes firstCrash u).2
          (g, ⟨v + sleepAfter (counted crashes firstCrash u).1,
            .slept (sleepAfter (counted crashes firstCrash u).1) :: .crashed u :: .started t :: w.log⟩) =
          some ((), f', w') := by
  unfold watched at h
  obtain ⟨started, ⟨g, w₁⟩, hstart, h⟩ := Prog.run_op_eq_some (e := SupOp.startAgent path) (Prog.fed timed) h
  obtain ⟨t, ht, hw₁⟩ := timed_startAgent (Prog.fed_eq_some hstart)
  cases started with
  | error e =>
      obtain rfl : w₁ = ⟨t, .failed t :: w.log⟩ := hw₁
      obtain ⟨_, ⟨g, w₂⟩, hsleep, h⟩ := Prog.run_op_eq_some (e := SupOp.sleep restartDelay) (Prog.fed timed) h
      obtain ⟨u, hu, rfl⟩ := timed_sleep (Prog.fed_eq_some hsleep)
      exact Or.inl ⟨t, u, g, ht, hu, h⟩
  | ok pid =>
      obtain rfl : w₁ = ⟨t, .started t :: w.log⟩ := hw₁
      obtain ⟨exited, ⟨g, w₂⟩, hwait, h⟩ := Prog.run_op_eq_some (e := SupOp.wait pid) (Prog.fed timed) h
      obtain ⟨u₀, hu₀, rfl⟩ := timed_wait (Prog.fed_eq_some hwait)
      cases exited with
      | ok _ =>
          obtain ⟨_, ⟨g, w₃⟩, hstop, h⟩ := Prog.run_op_eq_some (e := SupOp.stop) (Prog.fed timed) h
          obtain ⟨u, hu, rfl⟩ := timed_stop (Prog.fed_eq_some hstop)
          refine Or.inr (Or.inl ⟨t, ht, ?_⟩)
          obtain rfl : _ = w' := congrArg (fun x => x.2.2) (Option.some.inj h)
          rfl
      | error e =>
          obtain ⟨now, ⟨g, w₃⟩, hnow, h⟩ := Prog.run_op_eq_some (e := SupOp.now) (Prog.fed timed) h
          obtain ⟨hu, rfl⟩ := timed_now (Prog.fed_eq_some hnow)
          obtain ⟨v, g, hv, hrest⟩ := watched_sleep h
          exact Or.inr (Or.inr ⟨t, now, v, g, ht, hu₀.trans hu, hv, hrest⟩)

end Round

/-! ## The counters -/

/-- The counters are those of the crashes since the last backoff, which are a restart apart. -/
structure Counting (crashes : Nat) (firstCrash : Int) (w : Timed) : Prop where
  lt : crashes < maxCrashCount
  none_ : crashes = 0 → recentCrashes w.log = []
  first : 0 < crashes →
    windowStart (recentCrashes w.log) = some firstCrash ∧ (recentCrashes w.log)[crashes - 1]? = some firstCrash
  decreasing : (recentCrashes w.log).Pairwise (· > ·)
  before : ∀ c ∈ recentCrashes w.log, c + restartDelay ≤ w.time

section Counting
variable {crashes : Nat} {firstCrash t u v d : Int} {w : Timed}

theorem restartDelay_pos : 0 < restartDelay := by decide

theorem restartDelay_ne : restartDelay ≠ backoffDuration := by decide

theorem one_le_maxCrashCount : 1 ≤ maxCrashCount := by decide

theorem counting_start (t : Int) : Counting 0 0 ⟨t, []⟩ :=
  ⟨by decide, fun _ => rfl, fun h => absurd h (Nat.lt_irrefl 0), List.Pairwise.nil, fun _ h => absurd h List.not_mem_nil⟩

/-- The count after a crash, in terms of the crashes since the last backoff. -/
theorem Counting.count_spec (h : Counting crashes firstCrash w) (u : Int) :
    1 ≤ (counted crashes firstCrash u).1 ∧ (counted crashes firstCrash u).1 ≤ maxCrashCount ∧
      windowStart (u :: recentCrashes w.log) = some (counted crashes firstCrash u).2 ∧
      (u :: recentCrashes w.log)[(counted crashes firstCrash u).1 - 1]? = some (counted crashes firstCrash u).2 := by
  have hlt := h.lt
  unfold counted
  by_cases hzero : crashes = 0
  · rw [if_pos (Or.inl hzero), h.none_ hzero]
    exact ⟨le_rfl, one_le_maxCrashCount, rfl, rfl⟩
  · obtain ⟨hstart, hget⟩ := h.first (Nat.pos_of_ne_zero hzero)
    unfold windowStart
    rw [hstart]
    dsimp only
    by_cases hover : u - firstCrash > maxCrashWindow
    · rw [if_pos (Or.inr hover), if_pos hover]
      exact ⟨le_rfl, one_le_maxCrashCount, rfl, rfl⟩
    · rw [if_neg (not_or_intro hzero hover), if_neg hover]
      refine ⟨by omega, hlt, rfl, ?_⟩
      obtain ⟨k, rfl⟩ := Nat.exists_eq_succ_of_ne_zero hzero
      exact hget

/-- **The loop backs off after five crashes within a minute exactly if they fall in one window.** -/
theorem Counting.backs_off_iff (h : Counting crashes firstCrash w) (hu : w.time ≤ u)
    (hfive : FiveWithin u (recentCrashes w.log)) :
    maxCrashCount ≤ (counted crashes firstCrash u).1 ↔ SameWindow u (recentCrashes w.log) := by
  obtain ⟨hone, hle, hstart, hget⟩ := h.count_spec u
  obtain ⟨first, hfirst, -⟩ := hfive
  have hdecreasing : (u :: recentCrashes w.log).Pairwise (· > ·) := by
    refine List.pairwise_cons.mpr ⟨fun c hc => ?_, h.decreasing⟩
    have := h.before c hc
    have := restartDelay_pos
    omega
  constructor
  · intro hmany
    have hcount : (counted crashes firstCrash u).1 = 5 := Nat.le_antisymm hle hmany
    rw [hcount] at hget
    exact ⟨first, hfirst, _, hstart, (Option.some.inj (hfirst.symm.trans hget)).ge⟩
  · rintro ⟨first', hfirst', o, ho, hle'⟩
    obtain rfl := Option.some.inj (hfirst.symm.trans hfirst')
    obtain rfl := Option.some.inj (hstart.symm.trans ho)
    by_contra hfew
    have hfew : (counted crashes firstCrash u).1 - 1 < 4 := by
      unfold maxCrashCount at hfew
      omega
    -- the window began at a later crash than the first of the five
    obtain ⟨hi, hgeti⟩ := List.getElem?_eq_some_iff.mp hget
    obtain ⟨hj, hgetj⟩ := List.getElem?_eq_some_iff.mp (show (u :: recentCrashes w.log)[4]? = some first from hfirst)
    have := List.pairwise_iff_getElem.mp hdecreasing _ _ hi hj hfew
    omega

theorem Counting.crash (h : Counting crashes firstCrash w) (hu : w.time ≤ u) (hv : u ≤ v) :
    Counting (if (counted crashes firstCrash u).1 ≥ maxCrashCount then 0 else (counted crashes firstCrash u).1)
      (counted crashes firstCrash u).2 ⟨v + sleepAfter (counted crashes firstCrash u).1,
        .slept (sleepAfter (counted crashes firstCrash u).1) :: .crashed u :: .started t :: w.log⟩ := by
  obtain ⟨hone, hle, hstart, hget⟩ := h.count_spec u
  have hpos := restartDelay_pos
  unfold sleepAfter
  by_cases hmany : (counted crashes firstCrash u).1 ≥ maxCrashCount
  · rw [if_pos hmany, if_pos hmany]
    have hnone : recentCrashes (.slept backoffDuration :: .crashed u :: .started t :: w.log) = [] := if_pos rfl
    refine ⟨by decide, fun _ => hnone, fun h => absurd h (Nat.lt_irrefl 0), ?_, ?_⟩
    · rw [hnone]
      exact List.Pairwise.nil
    · rw [hnone]
      exact fun _ h => absurd h List.not_mem_nil
  · rw [if_neg hmany, if_neg hmany]
    have hrec : recentCrashes (.slept restartDelay :: .crashed u :: .started t :: w.log) = u :: recentCrashes w.log :=
      if_neg restartDelay_ne
    refine ⟨Nat.lt_of_not_le hmany, fun h0 => absurd hone (by omega), fun _ => ?_, ?_, ?_⟩
    · rw [hrec]
      exact ⟨hstart, hget⟩
    · rw [hrec]
      refine List.pairwise_cons.mpr ⟨fun c hc => ?_, h.decreasing⟩
      have := h.before c hc
      omega
    · rw [hrec]
      refine List.forall_mem_cons.mpr ⟨?_, fun c hc => ?_⟩
      · show u + restartDelay ≤ v + restartDelay
        omega
      · have := h.before c hc
        show c + restartDelay ≤ v + restartDelay
        omega

theorem Counting.failed (h : Counting crashes firstCrash w) (ht : w.time ≤ t) (hu : t ≤ u) :
    Counting crashes firstCrash ⟨u + restartDelay, .slept restartDelay :: .failed t :: w.log⟩ := by
  have hrec : recentCrashes (.slept restartDelay :: .failed t :: w.log) = recentCrashes w.log := if_neg restartDelay_ne
  have hpos := restartDelay_pos
  refine ⟨h.lt, ?_, ?_, ?_, ?_⟩
  · rw [hrec]
    exact h.none_
  · rw [hrec]
    exact h.first
  · rw [hrec]
    exact h.decreasing
  · rw [hrec]
    intro c hc
    have := h.before c hc
    show c + restartDelay ≤ u + restartDelay
    omega

end Counting

/-! ## Sleeps -/

section Log
variable {log : List Entry} {t u d : Int}

theorem rests_crash :
    Rests (.slept d :: .crashed u :: .started t :: log) ↔
      Rests log ∧ (FiveWithin u (recentCrashes log) → d = backoffDuration) := by
  constructor
  · intro h
    refine ⟨fun d' t' older hsuf => h d' t' older (hsuf.trans ⟨[_, _, _], rfl⟩), fun hfive => ?_⟩
    exact h d u (.started t :: log) (List.suffix_refl _) hfive
  · rintro ⟨hrest, hlast⟩ d' t' older hsuf hfive
    simp only [List.suffix_cons_iff, List.cons.injEq, reduceCtorEq, false_and, false_or] at hsuf
    rcases hsuf with ⟨hd, ht, rfl⟩ | hsuf
    · rw [Entry.slept.inj hd]
      rw [Entry.crashed.inj ht] at hfive
      exact hlast hfive
    · exact hrest d' t' older hsuf hfive

theorem rests_failed : Rests (.slept d :: .failed t :: log) ↔ Rests log := by
  unfold Rests
  simp only [List.suffix_cons_iff, List.cons.injEq, reduceCtorEq, false_and, and_false, false_or]

theorem rests_started : Rests (.started t :: log) ↔ Rests log := by
  unfold Rests
  simp only [List.suffix_cons_iff, List.cons.injEq, reduceCtorEq, false_and, false_or]

theorem oneWindow_crash :
    OneWindow (.slept d :: .crashed u :: .started t :: log) ↔
      OneWindow log ∧ (FiveWithin u (recentCrashes log) → SameWindow u (recentCrashes log)) := by
  constructor
  · intro h
    refine ⟨fun t' older hsuf => h t' older (hsuf.trans ⟨[_, _, _], rfl⟩), fun hfive => ?_⟩
    exact h u (.started t :: log) (List.suffix_cons _ _) hfive
  · rintro ⟨hrest, hlast⟩ t' older hsuf hfive
    simp only [List.suffix_cons_iff, List.cons.injEq, reduceCtorEq, false_and, false_or] at hsuf
    rcases hsuf with ⟨ht, rfl⟩ | hsuf
    · rw [Entry.crashed.inj ht] at hfive ⊢
      exact hlast hfive
    · exact hrest t' older hsuf hfive

theorem oneWindow_failed : OneWindow (.slept d :: .failed t :: log) ↔ OneWindow log := by
  unfold OneWindow
  simp only [List.suffix_cons_iff, List.cons.injEq, reduceCtorEq, false_and, false_or]

theorem oneWindow_started : OneWindow (.started t :: log) ↔ OneWindow log := by
  unfold OneWindow
  simp only [List.suffix_cons_iff, List.cons.injEq, reduceCtorEq, false_and, false_or]

end Log

theorem sleepAfter_eq_backoff {count : Nat} : sleepAfter count = backoffDuration ↔ maxCrashCount ≤ count := by
  unfold sleepAfter
  split_ifs with h
  · exact iff_of_true rfl h
  · exact iff_of_false restartDelay_ne h

/-- From one round to the next, and so to the end. -/
theorem rests_iff {path : String} {n crashes : Nat} {firstCrash : Int} {f f' : Nat → Happens} {w w' : Timed}
    (h : watched path n crashes firstCrash (f, w) = some ((), f', w')) (hc : Counting crashes firstCrash w)
    (hw : Rests w.log ↔ OneWindow w.log) : Rests w'.log ↔ OneWindow w'.log := by
  induction n generalizing crashes firstCrash f w with
  | zero =>
      obtain rfl : w = w' := congrArg (fun x => x.2.2) (Option.some.inj h)
      exact hw
  | succ n ih =>
      rcases watched_cases h with ⟨t, u, g, ht, hu, hrest⟩ | ⟨t, -, hlog⟩ | ⟨t, u, v, g, ht, hu, hv, hrest⟩
      · apply ih hrest (hc.failed ht hu)
        rw [rests_failed, oneWindow_failed]
        exact hw
      · rw [hlog, rests_started, oneWindow_started]
        exact hw
      · apply ih hrest (hc.crash (ht.trans hu) hv)
        rw [rests_crash, oneWindow_crash, hw, sleepAfter_eq_backoff]
        refine and_congr_right fun _ => ?_
        exact imp_congr_right fun hfive => hc.backs_off_iff (ht.trans hu) hfive

/-! ## Starts -/

/-- Each start has its crash since the last backoff, or lies before that; the last five crashes, and six starts, are more
than a minute apart. -/
structure Apart (w : Timed) : Prop where
  paired : ∀ (i : Nat) (s : Int), (starts w.log)[i]? = some s →
    (∃ c, (recentCrashes w.log)[i]? = some c ∧ s ≤ c) ∨ s + backoffDuration ≤ w.time
  before : ∀ c ∈ recentCrashes w.log, c ≤ w.time
  spread : ∀ c first, (recentCrashes w.log)[0]? = some c → (recentCrashes w.log)[4]? = some first →
    maxCrashWindow < c - first
  apart : ∀ (i : Nat) (a b : Int), (starts w.log)[i]? = some a → (starts w.log)[i + 5]? = some b → maxCrashWindow < a - b

theorem apart_start (t : Int) : Apart ⟨t, []⟩ :=
  ⟨fun _ _ h => by simp [starts] at h, fun _ h => absurd h List.not_mem_nil, fun _ _ h => by simp [recentCrashes] at h,
    fun _ _ _ h => by simp [starts] at h⟩

section Apart
variable {w : Timed} {t u v d : Int}

/-- A start is more than a minute after the fifth before it. -/
theorem Apart.start (h : Apart w) (ht : w.time ≤ t) (i : Nat) (a b : Int) (ha : (t :: starts w.log)[i]? = some a)
    (hb : (t :: starts w.log)[i + 5]? = some b) : maxCrashWindow < a - b := by
  cases i with
  | succ i => exact h.apart i a b ha hb
  | zero =>
      obtain rfl : t = a := Option.some.inj ha
      rcases h.paired 4 b hb with ⟨first, hfirst, hle⟩ | hold
      · -- five crashes since that start, and no backoff
        obtain ⟨hlen, -⟩ := List.getElem?_eq_some_iff.mp hfirst
        have hlast : (recentCrashes w.log)[0]? = some (recentCrashes w.log)[0] := List.getElem?_eq_getElem (by omega)
        have hspread := h.spread _ first hlast hfirst
        have hbefore := h.before _ (List.mem_of_getElem? hlast)
        omega
      · have hlong : maxCrashWindow < backoffDuration := by decide
        omega

theorem Apart.failed (h : Apart w) (ht : w.time ≤ t) (hu : t ≤ u) :
    Apart ⟨u + restartDelay, .slept restartDelay :: .failed t :: w.log⟩ := by
  have hrec : recentCrashes (.slept restartDelay :: .failed t :: w.log) = recentCrashes w.log := if_neg restartDelay_ne
  have hpos := restartDelay_pos
  refine ⟨?_, ?_, ?_, h.apart⟩
  · rw [hrec]
    intro i s hs
    apply (h.paired i s hs).imp id
    intro hold
    show s + backoffDuration ≤ u + restartDelay
    omega
  · rw [hrec]
    intro c hc
    have := h.before c hc
    show c ≤ u + restartDelay
    omega
  · rw [hrec]
    exact h.spread

/-- A start and its crash, then the backoff. -/
theorem Apart.backoff (h : Apart w) (ht : w.time ≤ t) (hu : t ≤ u) (hv : u ≤ v) :
    Apart ⟨v + backoffDuration, .slept backoffDuration :: .crashed u :: .started t :: w.log⟩ := by
  have hrec : recentCrashes (.slept backoffDuration :: .crashed u :: .started t :: w.log) = [] := if_pos rfl
  have hlong : 0 < backoffDuration := by decide
  refine ⟨fun i s hs => Or.inr ?_, ?_, ?_, h.start ht⟩
  · show s + backoffDuration ≤ v + backoffDuration
    have hs : (t :: starts w.log)[i]? = some s := hs
    have hle : s ≤ u := by
      cases i with
      | zero =>
          obtain rfl : t = s := Option.some.inj hs
          exact hu
      | succ i =>
          rcases h.paired i s hs with ⟨c, hc, hle⟩ | hold
          · have := h.before c (List.mem_of_getElem? hc)
            omega
          · omega
    omega
  · rw [hrec]
    exact fun _ h => absurd h List.not_mem_nil
  · rw [hrec]
    exact fun _ _ h => nomatch h

/-- A start and its crash, which is not the fifth within a minute, then the restart. -/
theorem Apart.restart (h : Apart w) (ht : w.time ≤ t) (hu : t ≤ u) (hv : u ≤ v)
    (hfew : ¬ FiveWithin u (recentCrashes w.log)) :
    Apart ⟨v + restartDelay, .slept restartDelay :: .crashed u :: .started t :: w.log⟩ := by
  have hrec : recentCrashes (.slept restartDelay :: .crashed u :: .started t :: w.log) = u :: recentCrashes w.log :=
    if_neg restartDelay_ne
  have hpos := restartDelay_pos
  refine ⟨?_, ?_, ?_, h.start ht⟩
  · rw [hrec]
    intro i s hs
    have hs : (t :: starts w.log)[i]? = some s := hs
    cases i with
    | zero =>
        obtain rfl : t = s := Option.some.inj hs
        exact Or.inl ⟨u, rfl, hu⟩
    | succ i =>
        apply (h.paired i s hs).imp id
        intro hold
        show s + backoffDuration ≤ v + restartDelay
        omega
  · rw [hrec]
    refine List.forall_mem_cons.mpr ⟨?_, fun c hc => ?_⟩
    · show u ≤ v + restartDelay
      omega
    · have := h.before c hc
      show c ≤ v + restartDelay
      omega
  · rw [hrec]
    intro c first hc hfirst
    obtain rfl : u = c := Option.some.inj hc
    by_contra hclose
    exact hfew ⟨first, hfirst, by omega⟩

theorem Apart.crash (h : Apart w) (ht : w.time ≤ t) (hu : t ≤ u) (hv : u ≤ v) (hd : d = restartDelay ∨ d = backoffDuration)
    (hrests : FiveWithin u (recentCrashes w.log) → d = backoffDuration) :
    Apart ⟨v + d, .slept d :: .crashed u :: .started t :: w.log⟩ := by
  rcases hd with rfl | rfl
  · exact h.restart ht hu hv fun hfive => restartDelay_ne (hrests hfive)
  · exact h.backoff ht hu hv

end Apart

section Run
variable {path : String} {n crashes : Nat} {firstCrash : Int} {f f' : Nat → Happens} {w w' : Timed}

theorem log_suffix (h : watched path n crashes firstCrash (f, w) = some ((), f', w')) : w.log <:+ w'.log := by
  induction n generalizing crashes firstCrash f w with
  | zero =>
      obtain rfl : w = w' := congrArg (fun x => x.2.2) (Option.some.inj h)
      exact List.suffix_refl _
  | succ n ih =>
      rcases watched_cases h with ⟨t, u, g, -, -, hrest⟩ | ⟨t, -, hlog⟩ | ⟨t, u, v, g, -, -, -, hrest⟩
      · exact List.IsSuffix.trans ⟨[_, _], rfl⟩ (ih hrest)
      · rw [hlog]
        exact List.suffix_cons _ _
      · exact List.IsSuffix.trans ⟨[_, _, _], rfl⟩ (ih hrest)

/-- **A watchdog that backs off starts at most five agents a minute.** -/
theorem starts_apart (h : watched path n crashes firstCrash (f, w) = some ((), f', w')) (hw : Apart w)
    (hrests : Rests w'.log) (i : Nat) (a b : Int) (ha : (starts w'.log)[i]? = some a)
    (hb : (starts w'.log)[i + 5]? = some b) : maxCrashWindow < a - b := by
  induction n generalizing crashes firstCrash f w with
  | zero =>
      obtain rfl : w = w' := congrArg (fun x => x.2.2) (Option.some.inj h)
      exact hw.apart i a b ha hb
  | succ n ih =>
      rcases watched_cases h with ⟨t, u, g, ht, hu, hrest⟩ | ⟨t, ht, hlog⟩ | ⟨t, u, v, g, ht, hu, hv, hrest⟩
      · exact ih hrest (hw.failed ht hu)
      · rw [hlog] at ha hb
        exact hw.start ht i a b ha hb
      · have hthen : Rests _ := fun d' t' older hsuf => hrests d' t' older (hsuf.trans (log_suffix hrest))
        refine ih hrest (hw.crash ht hu hv ?_ (rests_crash.mp hthen).2)
        unfold sleepAfter
        split_ifs
        · exact Or.inr rfl
        · exact Or.inl rfl

end Run

/-- **The watchdog backs off** after every fifth crash within a minute, and never starts more than five agents in one, exactly
when no five such crashes fall in two counting windows. -/
theorem backsOff_iff (path : String) (rounds : Nat) (f f' : Nat → Happens) (t : Int) (w : Timed)
    (h : watched path rounds 0 0 (f, ⟨t, []⟩) = some ((), f', w)) : BacksOff w.log ↔ OneWindow w.log := by
  have hnone : Rests [] ↔ OneWindow [] := by
    refine iff_of_true (fun d t' older hsuf => ?_) (fun t' older hsuf => ?_)
    · exact absurd (List.suffix_nil.mp hsuf) (List.cons_ne_nil _ _)
    · exact absurd (List.suffix_nil.mp hsuf) (List.cons_ne_nil _ _)
  rw [← rests_iff h (counting_start t) hnone]
  constructor
  · exact fun hb => hb.backoff
  · exact fun hrests => ⟨hrests, starts_apart h (apart_start t) hrests⟩

/-- What happens in rounds that each start an agent, which crashes after so many seconds. -/
def crashing (seconds : List Nat) (n : Nat) : Happens :=
  if n % 4 = 1 then ⟨seconds.getD (n / 4) 0 * 1000000000, false⟩ else ⟨0, true⟩

/-- The log of a run of such rounds from time 0. -/
def logOf (seconds : List Nat) : List Entry :=
  match watched "agent" seconds.length 0 0 (crashing seconds, ⟨0, []⟩) with
  | some r => r.2.2.log
  | none => []

/-- Agents that crash at once: the watchdog backs off. -/
theorem backsOff_atOnce : BacksOff (logOf [0, 0, 0, 0, 0, 0]) := by
  have hsome : (watched "agent" 6 0 0 (crashing [0, 0, 0, 0, 0, 0], ⟨0, []⟩)).isSome = true := by decide +kernel
  have hone : OneWindow (logOf [0, 0, 0, 0, 0, 0]) := by decide +kernel
  obtain ⟨⟨_, f', w⟩, hw⟩ := Option.isSome_iff_exists.mp hsome
  have hlog : logOf [0, 0, 0, 0, 0, 0] = w.log := by
    unfold logOf
    rw [show ([0, 0, 0, 0, 0, 0] : List Nat).length = 6 from rfl, hw]
  rw [hlog] at hone ⊢
  exact (backsOff_iff "agent" 6 _ f' 0 w hw).mpr hone

/-- Crashes at 0, 50, 53, 56, 61 and 64 seconds: the first window is over before its fifth crash, and the next has two. -/
theorem not_backsOff_straddling : ¬ BacksOff (logOf [0, 47, 0, 0, 2, 0]) := by
  intro h
  have hsuffix : .slept restartDelay :: .crashed (64 * second) :: (logOf [0, 47, 0, 0, 2, 0]).drop 2 <:+
      logOf [0, 47, 0, 0, 2, 0] := by decide +kernel
  have hfive : FiveWithin (64 * second) (recentCrashes ((logOf [0, 47, 0, 0, 2, 0]).drop 2)) := by decide +kernel
  exact restartDelay_ne (h.backoff _ _ _ hsuffix hfive)

end TimeChamp.Updater.Supervisors
