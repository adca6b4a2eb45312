import TimeChamp.Lib.Duration
import TimeChamp.Lib.Runs

/-!
# The sleep watcher

`internal/sleepwatch/watcher.go` reports a resume of the system when the wall clock jumped between two ticks, and when one is
injected; resumes closer than the debounce interval are collapsed. It reads nanoseconds of the wall clock, which may be set
back; real time only passes (`elapse`), and the watcher does not see it. The channels hold 4 events and 8 signals.

* `Watcher` : the watcher with its two channels, and the resumes it emitted, by both times; `watchStep` : what may happen
  next;
* `spaced` : two resumes never fall within one debounce interval of the clock, in any run;
* `Answered` : what is asked of a step, where only a resume of the last three real seconds excuses; `Guarded` : **when a
  step does that**;
* `guarded_of_delivered` : it does while the clock loses no time since the last resume and that resume was not dropped;
* `resumes_iff` : the runs in which every resume is reported.
-/

namespace TimeChamp.Agent.Sleepwatch
open Lib Lib.Duration

/-! ## The source -/

inductive EventType where
  | suspend
  | resume
deriving DecidableEq

structure Event where
  type : EventType
  at_ : Int
  duration : Int
deriving DecidableEq

def second : Int := 1000000000

def defaultDebounce : Int := 3 * second

theorem defaultDebounce_eq : defaultDebounce = 3000000000 := rfl

/-- What `newWatcher` is given; it sets the debounce interval to the default. -/
structure Timing where
  poll : Int
  threshold : Int

/-- The production watcher, of `New`. -/
def production : Timing := ⟨5 * second, 10 * second⟩

/-- What the wall clock showed, and when that really was. -/
structure Moment where
  wall : Int
  real : Nat
deriving DecidableEq

/-- `lastResumeAt` is `none` while it is the zero time. The rest is not the watcher's: the real time since its start, and
the moments of the resumes put in the channel, the last first. -/
structure Watcher where
  prev : Int
  lastResumeAt : Option Int
  ch : List Event
  sigCh : List EventType
  real : Nat
  emitted : List Moment
deriving DecidableEq

/-- `run` begins with a reading of the clock. -/
def startWatcher (now : Int) : Watcher := ⟨now, none, [], [], 0, []⟩

/-- A non-blocking send to the channel of events. -/
def emit (w : Watcher) (evt : Event) : Watcher := if w.ch.length < 4 then { w with ch := w.ch ++ [evt] } else w

/-- The test of `emitResume`: a resume at `now` is suppressed. -/
def debounced (w : Watcher) (now : Int) : Bool :=
  match w.lastResumeAt with
  | none => false
  | some last => decide (sub now last < defaultDebounce)

/-- `emitResume`, with its reading of the clock. -/
def emitResume (w : Watcher) (now gap : Int) : Watcher :=
  if debounced w now then w
  else
    let w' := emit { w with lastResumeAt := some now } ⟨.resume, now, gap⟩
    if w.ch.length < 4 then { w' with emitted := ⟨now, w.real⟩ :: w.emitted } else w'

/-- What may happen: real time passes; a tick with its reading of the clock, and the one of `emitResume` if it comes to
that; a call of `Signal`; the loop taking a signal; the consumer receiving an event. -/
inductive WatchEvent where
  | elapse (d : Nat)
  | tick (now at_ : Int)
  | signal (t : EventType)
  | take (at_ : Int)
  | receive
deriving DecidableEq

/-- The gap a tick sees. -/
def gapAt (c : Timing) (w : Watcher) (now : Int) : Int := wrap (sub now w.prev - c.poll)

def watchStep (c : Timing) (e : WatchEvent) (w : Watcher) : Option Watcher :=
  match e with
  | .elapse d => some { w with real := w.real + d }
  | .tick now at_ =>
    let gap := gapAt c w now
    let w := { w with prev := now }
    some (if gap > c.threshold then emitResume w at_ gap else w)
  | .signal t => some (if w.sigCh.length < 8 then { w with sigCh := w.sigCh ++ [t] } else w)
  | .take at_ =>
    match w.sigCh with
    | [] => none
    | .resume :: rest => some (emitResume { w with sigCh := rest } at_ 0)
    | .suspend :: rest => some (emit { w with sigCh := rest } ⟨.suspend, at_, 0⟩)
  | .receive =>
    match w.ch with
    | [] => none
    | _ :: rest => some { w with ch := rest }

/-! ## What is asked of a step -/

/-- The two times of the clock lie in one debounce interval. -/
def Together (a b : Int) : Prop := ∃ t, t ≤ a ∧ a < t + defaultDebounce ∧ t ≤ b ∧ b < t + defaultDebounce

/-- No two resumes emitted lie in one debounce interval. -/
def Spaced (w : Watcher) : Prop := w.emitted.Pairwise fun a b => ¬ Together a.wall b.wall

/-- The channel of events is full, or a resume was really emitted within the debounce interval before. -/
def Excused (w : Watcher) : Prop := 4 ≤ w.ch.length ∨ ∃ e ∈ w.emitted, e.real ≤ w.real ∧ w.real < e.real + defaultDebounce

instance (w : Watcher) : Decidable (Excused w) := inferInstanceAs (Decidable (_ ∨ _))

/-- The clock at the resume that a step asks for: a tick that sees a gap above the threshold, or a resume taken. -/
def requested (c : Timing) (w : Watcher) : WatchEvent → Option Int
  | .elapse _ => none
  | .tick now at_ => if gapAt c w now > c.threshold then some at_ else none
  | .take at_ => if w.sigCh.head? = some .resume then some at_ else none
  | .signal _ => none
  | .receive => none

/-- The step injects a resume. -/
def Injects (e : WatchEvent) : Prop := e = .signal .resume

instance (e : WatchEvent) : Decidable (Injects e) := inferInstanceAs (Decidable (_ = _))

/-- **A step answers** what asks for a resume: it emits the resume, unless excused; and a resume injected waits to be taken,
or the same excuses hold. -/
def Answered (c : Timing) (w : Watcher) (e : WatchEvent) : Prop :=
  ∀ w' ∈ watchStep c e w,
    (∀ now ∈ requested c w e, w'.emitted = ⟨now, w.real⟩ :: w.emitted ∨ Excused w) ∧
      (Injects e → .resume ∈ w'.sigCh ∨ Excused w)

/-! ## When it does -/

/-- A resume asked for comes a debounce interval of the clock after the last one recorded, or is excused; and a resume
injected finds room, or another resume that waits, or is excused. -/
def Guarded (c : Timing) (w : Watcher) (e : WatchEvent) : Prop :=
  (∀ now ∈ requested c w e, (∀ last ∈ w.lastResumeAt, defaultDebounce ≤ sub now last) ∨ Excused w) ∧
    (Injects e → w.sigCh.length < 8 ∨ .resume ∈ w.sigCh ∨ Excused w)

instance (c : Timing) (w : Watcher) (e : WatchEvent) : Decidable (Guarded c w e) := inferInstanceAs (Decidable (_ ∧ _))

section Step
variable {c : Timing} {w w' : Watcher} {now gap : Int}

theorem emit_emitted (w : Watcher) (evt : Event) : (emit w evt).emitted = w.emitted := by
  unfold emit
  split_ifs <;> rfl

theorem emit_lastResumeAt (w : Watcher) (evt : Event) : (emit w evt).lastResumeAt = w.lastResumeAt := by
  unfold emit
  split_ifs <;> rfl

theorem emit_sigCh (w : Watcher) (evt : Event) : (emit w evt).sigCh = w.sigCh := by
  unfold emit
  split_ifs <;> rfl

theorem emitResume_sigCh (w : Watcher) (now gap : Int) : (emitResume w now gap).sigCh = w.sigCh := by
  unfold emitResume
  split_ifs
  · rfl
  · exact emit_sigCh _ _
  · exact emit_sigCh _ _

theorem debounced_eq_false_iff : debounced w now = false ↔ ∀ last ∈ w.lastResumeAt, defaultDebounce ≤ sub now last := by
  unfold debounced
  cases w.lastResumeAt with
  | none => simp
  | some last => simp

/-- A resume is suppressed, dropped for want of room, or emitted; it is recorded unless suppressed. -/
theorem emitResume_cases (w : Watcher) (now gap : Int) :
    debounced w now = true ∧ emitResume w now gap = w ∨
      debounced w now = false ∧ (emitResume w now gap).lastResumeAt = some now ∧
        (4 ≤ w.ch.length ∧ (emitResume w now gap).emitted = w.emitted ∨
          w.ch.length < 4 ∧ (emitResume w now gap).emitted = ⟨now, w.real⟩ :: w.emitted) := by
  unfold emitResume
  by_cases hd : debounced w now = true
  · rw [if_pos hd]
    exact Or.inl ⟨hd, rfl⟩
  · rw [if_neg hd]
    refine Or.inr ⟨Bool.not_eq_true _ ▸ hd, ?_⟩
    by_cases hroom : w.ch.length < 4
    · simp only [if_pos hroom, emit_lastResumeAt]
      exact ⟨trivial, Or.inr ⟨hroom, trivial⟩⟩
    · simp only [if_neg hroom, emit_lastResumeAt, emit_emitted]
      exact ⟨trivial, Or.inl ⟨Nat.not_lt.mp hroom, trivial⟩⟩

/-- A resume asked for is emitted or excused, exactly if the last one recorded is far enough or it is excused. -/
theorem emitted_iff (w : Watcher) (now gap : Int) :
    (emitResume w now gap).emitted = ⟨now, w.real⟩ :: w.emitted ∨ Excused w ↔
      (∀ last ∈ w.lastResumeAt, defaultDebounce ≤ sub now last) ∨ Excused w := by
  rw [← debounced_eq_false_iff]
  rcases emitResume_cases w now gap with ⟨hd, heq⟩ | ⟨hd, -, ⟨hfull, -⟩ | ⟨-, hemitted⟩⟩
  · rw [heq, hd]
    have hne : w.emitted ≠ ⟨now, w.real⟩ :: w.emitted := fun h => absurd (congrArg List.length h) (Nat.ne_of_lt (Nat.lt_succ_self _))
    simp only [hne, Bool.true_eq_false, false_or]
  · exact iff_of_true (Or.inr (Or.inl hfull)) (Or.inl hd)
  · exact iff_of_true (Or.inl hemitted) (Or.inl hd)

/-- **Which steps answer.** -/
theorem answered_iff_guarded (c : Timing) (w : Watcher) (e : WatchEvent) : Answered c w e ↔ Guarded c w e := by
  unfold Answered Guarded
  cases e with
  | elapse d => simp [watchStep, requested, Injects]
  | tick now at_ =>
      unfold watchStep requested Injects
      simp only [Option.mem_def, Option.some.injEq, forall_eq']
      by_cases hgap : gapAt c w now > c.threshold
      · simp only [if_pos hgap, Option.some.injEq, forall_eq', reduceCtorEq, false_imp_iff, and_true]
        exact emitted_iff { w with prev := now } at_ _
      · simp [if_neg hgap]
  | signal t =>
      unfold watchStep requested Injects
      cases t with
      | suspend => simp
      | resume =>
          simp only [Option.mem_def, Option.some.injEq, forall_eq', reduceCtorEq, false_imp_iff, implies_true, true_and,
            forall_const]
          by_cases hroom : w.sigCh.length < 8
          · simp [hroom]
          · simp [hroom]
  | take at_ =>
      unfold watchStep requested Injects
      match hsig : w.sigCh with
      | [] => simp
      | .suspend :: rest => simp
      | .resume :: rest =>
          simp only [Option.mem_def, Option.some.injEq, forall_eq', List.head?_cons, if_true, reduceCtorEq, false_imp_iff,
            and_true]
          exact emitted_iff { w with sigCh := rest } at_ 0
  | receive =>
      unfold watchStep requested Injects
      simp

/-- What a step can be. -/
inductive Stepped (c : Timing) (w : Watcher) : WatchEvent → Watcher → Prop where
  | elapse {d : Nat} : Stepped c w (.elapse d) { w with real := w.real + d }
  | awake {now at_ : Int} (h : ¬ gapAt c w now > c.threshold) : Stepped c w (.tick now at_) { w with prev := now }
  | gap {now at_ : Int} (h : gapAt c w now > c.threshold) :
      Stepped c w (.tick now at_) (emitResume { w with prev := now } at_ (gapAt c w now))
  | signal {t : EventType} (h : w.sigCh.length < 8) : Stepped c w (.signal t) { w with sigCh := w.sigCh ++ [t] }
  | full {t : EventType} (h : ¬ w.sigCh.length < 8) : Stepped c w (.signal t) w
  | resume {at_ : Int} {rest : List EventType} (h : w.sigCh = .resume :: rest) :
      Stepped c w (.take at_) (emitResume { w with sigCh := rest } at_ 0)
  | suspend {at_ : Int} {rest : List EventType} (h : w.sigCh = .suspend :: rest) :
      Stepped c w (.take at_) (emit { w with sigCh := rest } ⟨.suspend, at_, 0⟩)
  | receive {evt : Event} {rest : List Event} (h : w.ch = evt :: rest) : Stepped c w .receive { w with ch := rest }

theorem stepped_of_watchStep {e : WatchEvent} (hs : watchStep c e w = some w') : Stepped c w e w' := by
  unfold watchStep at hs
  cases e with
  | elapse d =>
      obtain rfl := Option.some.inj hs
      exact .elapse
  | tick now at_ =>
      obtain rfl := Option.some.inj hs
      split_ifs with hgap
      · exact .gap hgap
      · exact .awake hgap
  | signal t =>
      obtain rfl := Option.some.inj hs
      split_ifs with hroom
      · exact .signal hroom
      · exact .full hroom
  | take at_ =>
      match hsig : w.sigCh with
      | [] => simp [hsig] at hs
      | .suspend :: rest =>
          simp only [hsig, Option.some.injEq] at hs
          exact hs ▸ .suspend hsig
      | .resume :: rest =>
          simp only [hsig, Option.some.injEq] at hs
          exact hs ▸ .resume hsig
  | receive =>
      match hch : w.ch with
      | [] => simp [hch] at hs
      | evt :: rest =>
          simp only [hch, Option.some.injEq] at hs
          exact hs ▸ .receive hch

/-- A resume that waits is still there, or this step takes it. -/
theorem waits_or_taken {e : WatchEvent} (h : .resume ∈ w.sigCh) (hs : watchStep c e w = some w') :
    .resume ∈ w'.sigCh ∨ ∃ now, e = .take now ∧ requested c w e = some now := by
  cases stepped_of_watchStep hs with
  | elapse => exact Or.inl h
  | awake => exact Or.inl h
  | gap =>
      rw [emitResume_sigCh]
      exact Or.inl h
  | signal => exact Or.inl (List.mem_append_left _ h)
  | full => exact Or.inl h
  | suspend hsig =>
      rw [hsig] at h
      rw [emit_sigCh]
      exact Or.inl ((List.mem_cons.mp h).resolve_left (by decide))
  | resume hsig =>
      refine Or.inr ⟨_, rfl, ?_⟩
      unfold requested
      rw [hsig]
      exact if_pos rfl
  | receive => exact Or.inl h

/-- The last resume recorded went out, and the clock has lost no time since. -/
def Delivered (w : Watcher) (now : Int) : Prop :=
  ∀ last ∈ w.lastResumeAt, ∃ e ∈ w.emitted, e.wall = last ∧ e.real ≤ w.real ∧ last + (w.real - e.real) ≤ now

/-- While that is so, a resume asked for is as it should be: suppressed only by one just emitted. -/
theorem guarded_of_delivered (h : Delivered w now) :
    (∀ last ∈ w.lastResumeAt, defaultDebounce ≤ sub now last) ∨ Excused w := by
  cases hlast : w.lastResumeAt with
  | none => exact Or.inl fun _ h => nomatch h
  | some last =>
      obtain ⟨e, hmem, -, hreal, hlost⟩ := h last hlast
      by_cases hfar : (w.real : Int) < e.real + defaultDebounce
      · exact Or.inr (Or.inr ⟨e, hmem, hreal, hfar⟩)
      · apply Or.inl
        intro last' hlast'
        obtain rfl := Option.some.inj hlast'
        exact (le_sub_iff (by decide)).mpr (by omega)

/-! ## In every run -/

/-- What keeps the resumes apart: none emitted is later than the last recorded. -/
structure Paced (w : Watcher) : Prop where
  spaced : Spaced w
  le_last : ∀ e ∈ w.emitted, ∃ last, w.lastResumeAt = some last ∧ e.wall ≤ last

theorem paced_start (now : Int) : Paced (startWatcher now) := ⟨List.Pairwise.nil, fun _ h => absurd h List.not_mem_nil⟩

theorem Paced.congr (h : Paced w) (he : w'.emitted = w.emitted) (hl : w'.lastResumeAt = w.lastResumeAt) : Paced w' := by
  refine ⟨?_, ?_⟩
  · unfold Spaced
    rw [he]
    exact h.spaced
  · rw [he, hl]
    exact h.le_last

theorem add_le_of_sub {last : Int} (h : defaultDebounce ≤ sub now last) : last + defaultDebounce ≤ now := by
  have hle := (le_sub_iff (by decide)).mp h
  omega

theorem Paced.emitResume (h : Paced w) (now gap : Int) : Paced (emitResume w now gap) := by
  rcases emitResume_cases w now gap with ⟨-, heq⟩ | ⟨hd, hlast, hch⟩
  · rw [heq]
    exact h
  · have hbefore : ∀ e ∈ w.emitted, e.wall + defaultDebounce ≤ now := by
      intro e he
      obtain ⟨last, hsome, hle⟩ := h.le_last e he
      have := add_le_of_sub (debounced_eq_false_iff.mp hd last hsome)
      omega
    have hle : ∀ e ∈ w.emitted, e.wall ≤ now := by
      intro e he
      have := hbefore e he
      rw [defaultDebounce_eq] at this
      omega
    rcases hch with ⟨-, hemitted⟩ | ⟨-, hemitted⟩
    · refine ⟨?_, ?_⟩
      · unfold Spaced
        rw [hemitted]
        exact h.spaced
      · rw [hemitted, hlast]
        exact fun e he => ⟨now, rfl, hle e he⟩
    · refine ⟨?_, ?_⟩
      · unfold Spaced
        rw [hemitted]
        refine List.pairwise_cons.mpr ⟨?_, h.spaced⟩
        rintro e he ⟨t, -, hnow, hte, -⟩
        have := hbefore e he
        dsimp only at hnow
        omega
      · rw [hemitted, hlast]
        refine List.forall_mem_cons.mpr ⟨⟨now, rfl, le_rfl⟩, fun e he => ⟨now, rfl, hle e he⟩⟩

theorem Paced.step {e : WatchEvent} (h : Paced w) (hs : watchStep c e w = some w') : Paced w' := by
  cases stepped_of_watchStep hs with
  | elapse => exact h.congr rfl rfl
  | awake => exact h.congr rfl rfl
  | @gap now =>
      have hprev : Paced { w with prev := now } := h.congr rfl rfl
      exact hprev.emitResume _ _
  | signal => exact h.congr rfl rfl
  | full => exact h
  | suspend => exact h.congr (emit_emitted _ _) (emit_lastResumeAt _ _)
  | @resume _ rest =>
      have hrest : Paced { w with sigCh := rest } := h.congr rfl rfl
      exact hrest.emitResume _ _
  | receive => exact h.congr rfl rfl

end Step

/-- **Two resumes never fall within one debounce interval of the clock**, whatever it does. -/
theorem spaced {c : Timing} {start : Int} {es : List WatchEvent} {w : Watcher}
    (h : play (watchStep c) (startWatcher start) es = some w) : Spaced w :=
  (play_inv (I := fun _ w => Paced w) h (paced_start start) fun _ _ _ _ hw hs => hw.step hs).spaced

/-- **Every resume is reported, once**, in exactly the runs that guard each step. -/
theorem resumes_iff (c : Timing) (start : Int) (es : List WatchEvent) :
    ((∀ pre, pre <+: es → ∀ w, play (watchStep c) (startWatcher start) pre = some w → Spaced w) ∧
      Allowed (watchStep c) (Answered c) (startWatcher start) es) ↔
        Allowed (watchStep c) (Guarded c) (startWatcher start) es := by
  rw [allowed_congr (answered_iff_guarded c)]
  constructor
  · exact fun h => h.2
  · exact fun h => ⟨fun _ _ _ hw => spaced hw, h⟩

/-- At nine o'clock a resume is injected and reported, and the clock is set back by ten seconds. The next resume really
comes eleven seconds later, at one second past nine. -/
def setBack : List WatchEvent :=
  [.signal .resume, .take (32400 * second), .receive, .elapse (4 * 10 ^ 9), .tick (32394 * second) (32394 * second),
    .elapse (5 * 10 ^ 9), .tick (32399 * second) (32399 * second), .elapse (2 * 10 ^ 9), .signal .resume,
    .take (32401 * second)]

theorem not_answered_setBack :
    ¬ Allowed (watchStep production) (Answered production) (startWatcher (32399 * second)) setBack := by
  rw [allowed_congr (answered_iff_guarded production)]
  decide

end TimeChamp.Agent.Sleepwatch
