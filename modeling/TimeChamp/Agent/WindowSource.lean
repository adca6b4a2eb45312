import TimeChamp.Heartbeat.Cap

/-!
# The two window sources of the main loop

`cmd/agent/main.go` pushes one-second window events into the heartbeat queue, either from the foreground hook
(`StartWindowEventStream`, one event per foreground change) or from a one-second poll.

* `Timeline` : which window is in front when; `SteadyAt t` : no foreground change during the three seconds up to `t`;
* `Delivers src tl T loop` : the window events of the main loop up to `T` are those of the source;
* `Recorded` : every steady instant up to three seconds before `T` lies in a committed event of the window in front;
* `focus_recorded_iff` : the poll records every timeline; the hook records one only when no instant of it is steady,
  since a window that stays in front sends no further event.
-/

namespace TimeChamp.Agent
open TimeChamp.Heartbeat TimeChamp.Lib.Pulse

/-- The focused window, as the platform reports it. -/
structure ActiveWindow where
  appName : String
  windowTitle : String
  url : String
  bundleID : String
  pid : Int
deriving DecidableEq

/-- The payload of a window event: the four keys of `heartbeat.Event.Data`. -/
structure WindowData where
  app : String
  title : String
  url : String
  category : String
deriving DecidableEq

def windowStream : String := "window"

/-- `poll_time(1s) + 1s margin`. -/
def pulsetime : Int := 2 * second

def commitThresh : Int := 60 * second

/-- `pushWindow`; `url` and `cat` are what `ResolveURL` and the classifier cache answered for the window. -/
def pushWindow (hq : Queue WindowData) (win : ActiveWindow) (url cat : String) (ts : Int) : Queue WindowData :=
  hq.push windowStream ⟨ts, 1 * second, ⟨win.appName, win.windowTitle, url, cat⟩, inRange_second⟩ pulsetime

/-- What the main loop does to the heartbeat queue while nobody sleeps or goes idle: a window delivered by either
source, or the `FlushAll` of a sync tick. -/
inductive LoopEvent where
  | window (win : ActiveWindow) (url cat : String)
  | flushAll

/-- The window cases of the main loop, and its flush. -/
def handle (isAFK : Bool) (hq : Queue WindowData) (ts : Int) : LoopEvent → Queue WindowData
  | .window win url cat => if isAFK || win.appName == "" then hq else pushWindow hq win url cat ts
  | .flushAll => hq.flushAll

/-- The main loop over timed events, the user never idle. -/
def runLoop (loop : List (Int × LoopEvent)) : Queue WindowData :=
  loop.foldl (fun hq e => handle false hq e.1 e.2) (newQueue commitThresh)

/-! ## Timelines -/

/-- The windows in front from `start` on: the first one, and every later foreground change. The platform never
reports a window without a name (`"Desktop"` and `"Unknown"` stand in). -/
structure Timeline where
  start : Int
  first : ActiveWindow
  changes : List (Int × ActiveWindow)
  ordered : changes.Pairwise fun c d => c.1 ≤ d.1
  started : ∀ c ∈ changes, start ≤ c.1
  named : first.appName ≠ "" ∧ ∀ c ∈ changes, c.2.appName ≠ ""

/-- The window in front at `t`. -/
def Timeline.front (tl : Timeline) (t : Int) : ActiveWindow :=
  (((tl.changes.filter fun c => c.1 ≤ t).getLast?).map Prod.snd).getD tl.first

/-- The same window has been in front since at least `t - 3s`. -/
def Timeline.SteadyAt (tl : Timeline) (t : Int) : Prop :=
  tl.start ≤ t - 3 * second ∧ ∀ c ∈ tl.changes, c.1 ≤ t → c.1 ≤ t - 3 * second

theorem Timeline.front_named (tl : Timeline) (t : Int) : (tl.front t).appName ≠ "" := by
  unfold Timeline.front
  cases h : (tl.changes.filter fun c => c.1 ≤ t).getLast? with
  | none => exact tl.named.1
  | some c => exact tl.named.2 c (List.mem_of_mem_filter (List.mem_of_getLast? h))

/-- No change between two instants: the same window is in front. -/
theorem Timeline.front_eq (tl : Timeline) {a b : Int} (hab : a ≤ b)
    (h : ∀ c ∈ tl.changes, c.1 ≤ b → c.1 ≤ a) : tl.front a = tl.front b := by
  have hfilter : (tl.changes.filter fun c => c.1 ≤ a) = tl.changes.filter fun c => c.1 ≤ b := by
    apply List.filter_congr
    intro c hc
    rw [decide_eq_decide]
    exact ⟨fun hca => hca.trans hab, h c hc⟩
  rw [Timeline.front, Timeline.front, hfilter]

/-! ## Sources -/

/-- Where the main loop takes its windows from. -/
inductive Source where
  | hook
  | poll
deriving DecidableEq

/-- The windows delivered to the main loop, with the time it handled them. -/
def deliveries (loop : List (Int × LoopEvent)) : List (Int × ActiveWindow) :=
  loop.filterMap fun e =>
    match e.2 with
    | .window win _ _ => some (e.1, win)
    | .flushAll => none

/-- The window events up to `T` come from the source: the hook delivers every foreground change and nothing else,
the poll delivers the window in front at least once a second. No event is dropped. -/
def Delivers (src : Source) (tl : Timeline) (T : Int) (loop : List (Int × LoopEvent)) : Prop :=
  match src with
  | .hook => deliveries loop = tl.changes.filter fun c => c.1 ≤ T
  | .poll => (∀ d ∈ deliveries loop, d.1 ≤ T ∧ d.2 = tl.front d.1) ∧
      ∀ t, tl.start + second ≤ t → t ≤ T → ∃ d ∈ deliveries loop, t - second < d.1 ∧ d.1 ≤ t

/-- After a `FlushAll` at `T`, every steady instant up to three seconds before `T` lies in a committed event of the
window in front. -/
def Recorded (tl : Timeline) (T : Int) (loop : List (Int × LoopEvent)) : Prop :=
  ∀ t, t ≤ T - 3 * second → tl.SteadyAt t →
    ∃ e, (windowStream, e) ∈ (runLoop loop).flushAll.committed ∧ e.data.app = (tl.front t).appName ∧
      e.data.title = (tl.front t).windowTitle ∧ t ∈ e.span.set

/-! ## The main loop as queue operations -/

/-- The queue operation of a loop event, if it makes one. -/
def loopOp (e : Int × LoopEvent) : Option (QueueOp WindowData) :=
  match e.2 with
  | .window win url cat =>
    if win.appName = "" then none
    else some (.push windowStream (.of e.1 (1 * second) ⟨win.appName, win.windowTitle, url, cat⟩) pulsetime)
  | .flushAll => some .flushAll

theorem runLoop_eq_run (loop : List (Int × LoopEvent)) :
    runLoop loop = (newQueue commitThresh).run (loop.filterMap loopOp) := by
  unfold runLoop Queue.run
  rw [List.foldl_filterMap]
  congr 1
  funext hq e
  obtain ⟨ts, win | _⟩ := e
  · by_cases h : win.appName = "" <;> simp [handle, loopOp, h, pushWindow, Queue.apply]
  · rfl

/-- Every push is of a second, at the pulse time of the loop. -/
def Seconds (ops : List (QueueOp WindowData)) : Prop :=
  ∀ s e p, .push s e p ∈ ops → e.duration = second ∧ p = pulsetime

theorem Seconds.paced {ops : List (QueueOp WindowData)} (h : Seconds ops) : Paced pulsetime ops := by
  intro s e p hmem
  obtain ⟨hdur, rfl⟩ := h s e p hmem
  rw [hdur]
  exact ⟨by decide, le_rfl⟩

theorem Seconds.covers {ops : List (QueueOp WindowData)} (h : Seconds ops) :
    Covers ops ((newQueue commitThresh).run ops) := by
  refine covers_run h.paced (allFit_of_short (show 0 ≤ second by decide) (show 0 ≤ pulsetime by decide) ?_ (by decide))
  intro s e p hmem
  obtain ⟨hdur, rfl⟩ := h s e p hmem
  exact ⟨hdur.le, le_rfl⟩

theorem seconds_loop (loop : List (Int × LoopEvent)) : Seconds (loop.filterMap loopOp ++ [.flushAll]) := by
  intro s e p hmem
  simp only [List.mem_append, List.mem_filterMap, List.mem_singleton, reduceCtorEq, or_false] at hmem
  obtain ⟨⟨ts, win | _⟩, -, hop⟩ := hmem
  · simp only [loopOp] at hop
    split_ifs at hop
    cases hop
    exact ⟨Int.one_mul _, rfl⟩
  · cases hop

/-- What the loop pushed is a delivered window: its second of time, under its name and title. -/
theorem pushed_loop {loop : List (Int × LoopEvent)} {s : String} {e : Event WindowData}
    (h : Pushed (loop.filterMap loopOp ++ [.flushAll]) s e) :
    ∃ d ∈ deliveries loop, e.span = ⟨d.1, d.1 + second⟩ ∧ e.data.app = d.2.appName ∧
      e.data.title = d.2.windowTitle := by
  obtain ⟨p, hmem⟩ := h
  simp only [List.mem_append, List.mem_filterMap, List.mem_singleton, reduceCtorEq, or_false] at hmem
  obtain ⟨⟨ts, win | _⟩, hin, hop⟩ := hmem
  · rename_i url cat
    simp only [loopOp] at hop
    split_ifs at hop
    cases hop
    refine ⟨(ts, win), List.mem_filterMap.mpr ⟨_, hin, rfl⟩, ?_, rfl, rfl⟩
    simp [Event.span]
  · cases hop

theorem pushed_of_delivered {loop : List (Int × LoopEvent)} {d : Int × ActiveWindow} (hd : d ∈ deliveries loop)
    (hn : d.2.appName ≠ "") :
    ∃ e, Pushed (loop.filterMap loopOp ++ [.flushAll]) windowStream e ∧ e.span = ⟨d.1, d.1 + second⟩ ∧
      e.data.app = d.2.appName ∧ e.data.title = d.2.windowTitle := by
  obtain ⟨⟨ts, win | _⟩, hin, hw⟩ := List.mem_filterMap.mp hd
  · rename_i url cat
    cases hw
    refine ⟨⟨ts, 1 * second, ⟨win.appName, win.windowTitle, url, cat⟩, inRange_second⟩, ⟨pulsetime, ?_⟩, ?_, rfl, rfl⟩
    · exact List.mem_append_left _ (List.mem_filterMap.mpr ⟨_, hin, by simp [loopOp, hn]⟩)
    · simp [Event.span]
  · cases hw

theorem accounts_loop (loop : List (Int × LoopEvent)) :
    Accounts pulsetime (loop.filterMap loopOp ++ [.flushAll]) (runLoop loop).flushAll := by
  have ha := accounts_run (seconds_loop loop).paced commitThresh
  rwa [run_snoc, ← runLoop_eq_run] at ha

theorem covers_loop (loop : List (Int × LoopEvent)) :
    Covers (loop.filterMap loopOp ++ [.flushAll]) (runLoop loop).flushAll := by
  have hc := (seconds_loop loop).covers
  rwa [run_snoc, ← runLoop_eq_run] at hc

/-! ## What is recorded -/

/-- Every committed instant is within three seconds after a delivery of a window of that name and title. -/
theorem committed_near_delivery {loop : List (Int × LoopEvent)} {s : String} {e : Event WindowData} {t : Int}
    (he : (s, e) ∈ (runLoop loop).flushAll.committed) (ht : t ∈ e.span.set) :
    ∃ d ∈ deliveries loop, d.1 ≤ t ∧ t < d.1 + 3 * second := by
  obtain ⟨x, ⟨h, hp, -, rfl⟩, hnear⟩ := ((accounts_loop loop).grown s e (Or.inr he)).near ht
  obtain ⟨d, hd, hspan, -, -⟩ := pushed_loop hp
  refine ⟨d, hd, ?_⟩
  rw [hspan] at hnear
  simp only [Span.mem_set, pulsetime, second] at hnear ⊢
  omega

theorem delivery_committed {loop : List (Int × LoopEvent)} {d : Int × ActiveWindow} (hd : d ∈ deliveries loop)
    (hn : d.2.appName ≠ "") {t : Int} (h1 : d.1 ≤ t) (h2 : t < d.1 + second) :
    ∃ e, (windowStream, e) ∈ (runLoop loop).flushAll.committed ∧ e.data.app = d.2.appName ∧
      e.data.title = d.2.windowTitle ∧ t ∈ e.span.set := by
  obtain ⟨e, hp, hspan, happ, htitle⟩ := pushed_of_delivered hd hn
  obtain ⟨c, hc, hdata, hsub⟩ := covers_loop loop _ _ hp
  refine ⟨c, holds_flushAll_committed hc, by rw [hdata, happ], by rw [hdata, htitle], hsub ?_⟩
  rw [hspan]
  exact ⟨h1, h2⟩

theorem recorded_of_poll {tl : Timeline} {T : Int} {loop : List (Int × LoopEvent)} (h : Delivers .poll tl T loop) :
    Recorded tl T loop := by
  intro t hT hs
  obtain ⟨hcur, hevery⟩ := h
  have hsec : second = 1000000000 := rfl
  have hstart := hs.1
  obtain ⟨d, hd, hlo, hhi⟩ := hevery t (by omega) (by omega)
  have hfront : tl.front d.1 = tl.front t := tl.front_eq hhi fun c hc hct => by
    have := hs.2 c hc hct
    omega
  have hwin : d.2 = tl.front t := (hcur d hd).2.trans hfront
  have hn : d.2.appName ≠ "" := by
    rw [hwin]
    exact tl.front_named t
  obtain ⟨e, he, happ, htitle, hin⟩ := delivery_committed hd hn hhi (show t < d.1 + second by omega)
  exact ⟨e, he, by rw [happ, hwin], by rw [htitle, hwin], hin⟩

/-- Under the hook no steady instant is recorded: its window's only event is at least three seconds old. -/
theorem not_steady_of_hook {tl : Timeline} {T : Int} {loop : List (Int × LoopEvent)} (h : Delivers .hook tl T loop)
    (hr : Recorded tl T loop) {t : Int} (hT : t ≤ T - 3 * second) : ¬ tl.SteadyAt t := by
  intro hs
  obtain ⟨e, he, -, -, hin⟩ := hr t hT hs
  obtain ⟨d, hd, hlo, hhi⟩ := committed_near_delivery he hin
  have hchange : d ∈ tl.changes := by
    rw [show deliveries loop = _ from h] at hd
    exact List.mem_of_mem_filter hd
  have := hs.2 d hchange hlo
  omega

/-- **Which timelines are recorded.** The poll records the focus time of every timeline; the hook records a timeline
exactly when no instant of it is steady, that is when no window stays in front for three seconds. -/
theorem focus_recorded_iff (src : Source) (tl : Timeline) (T : Int) (loop : List (Int × LoopEvent))
    (h : Delivers src tl T loop) :
    Recorded tl T loop ↔ src = .poll ∨ ∀ t, t ≤ T - 3 * second → ¬ tl.SteadyAt t := by
  constructor
  · intro hr
    cases src with
    | hook => exact Or.inr fun t hT => not_steady_of_hook h hr hT
    | poll => exact Or.inl rfl
  · rintro (rfl | hnone)
    · exact recorded_of_poll h
    · exact fun t hT hs => absurd hs (hnone t hT)

/-- An editor that comes to the front one second after start and stays there. -/
def editing : Timeline where
  start := 0
  first := ⟨"explorer.exe", "Program Manager", "", "", 0⟩
  changes := [(second, ⟨"Code.exe", "main.go", "", "", 0⟩)]
  ordered := by simp
  started := by decide
  named := by decide

/-- Polled at seconds 1 to 6. -/
theorem focus_recorded_iff_polled :
    Recorded editing (6 * second) ((List.range 6).map fun i : Nat =>
        ((i + 1) * second, .window ⟨"Code.exe", "main.go", "", "", 0⟩ "" "Work.Development")) ↔
      Source.poll = .poll ∨ ∀ t, t ≤ 6 * second - 3 * second → ¬ editing.SteadyAt t := by
  refine focus_recorded_iff .poll editing (6 * second) _ ⟨by decide, ?_⟩
  intro t hlo hhi
  have hsec : second = 1000000000 := rfl
  have hstart : editing.start = 0 := rfl
  have hmem : ∀ i : Nat, i < 6 → (((i : Int) + 1) * second, (⟨"Code.exe", "main.go", "", "", 0⟩ : ActiveWindow)) ∈
      deliveries ((List.range 6).map fun i : Nat =>
        ((i + 1) * second, .window ⟨"Code.exe", "main.go", "", "", 0⟩ "" "Work.Development")) := by
    decide
  obtain ⟨n, hn⟩ : ∃ n : Nat, (n : Int) = t / 1000000000 - 1 := ⟨(t / 1000000000 - 1).toNat, by omega⟩
  exact ⟨_, hmem n (by omega), by simp only [hsec]; omega, by simp only [hsec]; omega⟩

/-- With the hook the editor's only event is its first second; ten seconds in, it is not recorded. -/
theorem editing_not_recorded_by_hook :
    Delivers .hook editing (60 * second)
        [(second, .window ⟨"Code.exe", "main.go", "", "", 0⟩ "" "Work.Development")] ∧
      ¬ Recorded editing (60 * second)
        [(second, .window ⟨"Code.exe", "main.go", "", "", 0⟩ "" "Work.Development")] := by
  refine ⟨show deliveries _ = _ by decide, fun hr => ?_⟩
  have hsteady : editing.SteadyAt (10 * second) := by
    refine ⟨by decide, fun c hc _ => ?_⟩
    obtain rfl := List.mem_singleton.mp hc
    decide
  obtain ⟨e, he, -, -, hin⟩ := hr (10 * second) (by decide) hsteady
  have hcommitted :
      (runLoop [(second, .window ⟨"Code.exe", "main.go", "", "", 0⟩ "" "Work.Development")]).flushAll.committed =
        [(windowStream, .of second second ⟨"Code.exe", "main.go", "", "Work.Development"⟩)] := by decide
  rw [hcommitted] at he
  cases List.mem_singleton.mp he
  revert hin
  simp [second]

end TimeChamp.Agent
