import TimeChamp.Agent.WindowSource
import TimeChamp.Buffer.Batcher

/-!
# What the barriers of the main loop make durable

`cmd/agent/main.go`: window events go into the heartbeat queue, from there into the write batcher, and from there into
`activity_events`. A Suspend event, the flush phase of a sync tick and the shutdown branch each drain them by their own calls.

* One goroutine runs the loop; the timers of the batcher run beside it, between any two of its calls. Every transaction
  succeeds. Uploads, which only take rows out of the table, are left out.
* `Loop.queue` : a call on the queue, whose commits `onCommit` hands to the batcher;
* `Drains s` : where a `FlushAll` would leave nothing in the batcher;
* `LoopInv` : what holds after every step;
* `barriers_durable` : **when Suspend events and sync ticks happen only where `FlushAll` drains the batcher, every barrier
  leaves every earlier event in a row.** The shutdown branch needs no condition: it flushes the batcher itself.
-/

namespace TimeChamp.Agent
open TimeChamp.Lib TimeChamp.Lib.Pulse TimeChamp.Heartbeat TimeChamp.Buffer

/-- `cfg.EmployeeID` and `cfg.OrgID`. -/
structure Identity where
  employeeID : String
  orgID : String

/-- The event `onCommit` hands to the batcher. -/
def activityOf (cfg : Identity) (e : Event WindowData) : ActivityEvent where
  id := 0
  employeeID := cfg.employeeID
  orgID := cfg.orgID
  appName := e.data.app
  windowTitle := e.data.title
  url := e.data.url
  category := e.data.category
  durationMs := e.duration.tdiv 1000000
  startedAt := e.timestamp
  endedAt := e.timestamp + e.duration
  synced := false

/-- What a branch still has to call after its `FlushAll`. -/
inductive Call where
  | flushBatcher
  | checkpoint
deriving DecidableEq

inductive Barrier where
  | suspend
  | syncTick
  | shutdown
deriving DecidableEq

/-- The loop, its queue and its batcher. `barrier` is the barrier whose branch runs or was the last to run, and `ops` records
the calls on the queue. -/
structure Loop where
  hq : Queue WindowData
  batcher : WriteBatcher
  isAFK : Bool
  todo : List Call
  barrier : Option Barrier
  stopped : Bool
  ops : List (QueueOp WindowData)

def startLoop : Loop := ⟨newQueue commitThresh, newWriteBatcher 200, false, [], none, false, []⟩

/-- The calls of `onCommit` that a call on the queue makes. -/
def commitsOf (hq : Queue WindowData) (op : QueueOp WindowData) : List (Event WindowData) :=
  ((hq.apply op).committed.drop hq.committed.length).map Prod.snd

/-- `batcher.Add` for each of them. -/
def addAll (cfg : Identity) (b : WriteBatcher) (cs : List (Event WindowData)) : WriteBatcher :=
  cs.foldl (fun b c => b.add (activityOf cfg c) none) b

/-- A call on the queue. -/
def Loop.queue (cfg : Identity) (s : Loop) (op : QueueOp WindowData) : Loop :=
  { s with hq := s.hq.apply op, batcher := addAll cfg s.batcher (commitsOf s.hq op), ops := s.ops ++ [op] }

/-- What the loop may receive next, what its branch calls next, and the timers of the batcher. -/
inductive MainEvent where
  | window (win : ActiveWindow) (url cat : String) (ts : Int)
  | idle (afk : Bool)
  | suspend
  | resume
  | syncTick (available : Bool)
  | shutdown
  | call
  | fire (t : Nat)
  | callback (t : Nat)
deriving DecidableEq

/-- The branches of the `select`, up to the first call after a `FlushAll`. `idle` gives what the idle tick makes of the
samples. -/
def branch (cfg : Identity) (s : Loop) : MainEvent → Loop
  | .window win url cat ts =>
    if s.isAFK || win.appName == "" then s
    else s.queue cfg (.push windowStream ⟨ts, 1 * second, ⟨win.appName, win.windowTitle, url, cat⟩, inRange_second⟩ pulsetime)
  | .idle afk => if s.isAFK ≠ afk ∧ afk = true then Loop.queue cfg { s with isAFK := afk } .flushAll else { s with isAFK := afk }
  | .suspend => { s.queue cfg .flushAll with todo := [.checkpoint], barrier := some .suspend }
  | .resume => { s.queue cfg .flushAll with isAFK := false }
  | .syncTick available => if available then { s.queue cfg .flushAll with barrier := some .syncTick } else s
  | .shutdown =>
    { s.queue cfg .flushAll with todo := [.flushBatcher, .checkpoint], barrier := some .shutdown, stopped := true }
  | .call | .fire _ | .callback _ => s

/-- One step. A branch runs to its end before the next event is received, and the shutdown branch returns. -/
def mainStep (cfg : Identity) (e : MainEvent) (s : Loop) : Option Loop :=
  match e with
  | .fire t => (batchStep (.fire t) s.batcher).map fun b => { s with batcher := b }
  | .callback t => (batchStep (.callback t none) s.batcher).map fun b => { s with batcher := b }
  | .call =>
    match s.todo with
    | [] => none
    | .flushBatcher :: todo => some { s with batcher := s.batcher.flush none, todo := todo }
    | .checkpoint :: todo => some { s with todo := todo }
  | e => if s.todo = [] ∧ s.stopped = false then some (branch cfg { s with barrier := none } e) else none

/-- `e` is part of a row. -/
def Durable (rows : ActivityRows) (e : Event WindowData) : Prop :=
  ∃ r ∈ rows.rows, r.appName = e.data.app ∧ r.windowTitle = e.data.title ∧ r.url = e.data.url ∧
    r.category = e.data.category ∧ r.startedAt ≤ e.timestamp ∧ e.timestamp + e.duration ≤ r.endedAt

/-- Pending and cached events together fill whole batches, or there are none. -/
def Drains (s : Loop) : Prop := 200 ∣ s.batcher.pending.length + (commitsOf s.hq .flushAll).length

instance (s : Loop) : Decidable (Drains s) := Nat.decidable_dvd ..

/-- Suspend events and sync ticks happen only where `FlushAll` drains the batcher. -/
def Drained (s : Loop) : MainEvent → Prop
  | .suspend => Drains s
  | .syncTick available => available = true → Drains s
  | _ => True

instance (s : Loop) : ∀ e, Decidable (Drained s e)
  | .suspend => inferInstanceAs (Decidable (Drains s))
  | .syncTick available => inferInstanceAs (Decidable (available = true → Drains s))
  | .window .. | .idle _ | .resume | .shutdown | .call | .fire _ | .callback _ => isTrue trivial

/-! ## The two stages -/

section Stages
variable {cfg : Identity}

theorem committed_isPrefix (hq : Queue WindowData) (op : QueueOp WindowData) :
    hq.committed <+: (hq.apply op).committed := by
  cases op with
  | push t h p =>
      show hq.committed <+: (hq.push t h p).committed
      rcases push_cases hq t h p with ⟨-, hp⟩ | ⟨_, -, ⟨_, -, -, hp⟩ | ⟨_, -, -, hp⟩ | ⟨-, hp⟩⟩ <;> rw [hp] <;> simp
  | flush t =>
      show hq.committed <+: (hq.flush t).committed
      rcases flush_cases hq t with hp | ⟨_, -, -, hp, -⟩
      · simp [hp]
      · simp [hp]
  | flushAll => exact List.prefix_append _ _

theorem commits_apply (hq : Queue WindowData) (op : QueueOp WindowData) :
    (hq.apply op).committed.map Prod.snd = hq.committed.map Prod.snd ++ commitsOf hq op := by
  rw [commitsOf, ← List.map_append, List.prefix_iff_eq_append.mp (committed_isPrefix hq op)]

theorem addAll_concat (b : WriteBatcher) (cs : List (Event WindowData)) (c : Event WindowData) :
    addAll cfg b (cs ++ [c]) = (addAll cfg b cs).add (activityOf cfg c) none := by
  simp [addAll]

/-- The batcher of the loop: nothing was dropped, and its batch is not full. -/
structure Sized (b : WriteBatcher) : Prop where
  maxBatch : b.maxBatch = (200 : Nat)
  small : b.pending.length < 200
  kept : b.droppedEvents = 0

theorem Sized.of_flush {b : WriteBatcher} (hmax : b.maxBatch = (200 : Nat)) (hkept : b.droppedEvents = 0) :
    Sized (b.flushLocked none) where
  maxBatch := by rw [WriteBatcher.maxBatch_flushLocked, hmax]
  small := by simp
  kept := by rw [WriteBatcher.droppedEvents_flushLocked, hkept]

theorem Sized.addAll (cfg : Identity) {b : WriteBatcher} (h : Sized b) (cs : List (Event WindowData)) :
    Sized (addAll cfg b cs) ∧ (addAll cfg b cs).pending.length = (b.pending.length + cs.length) % 200 := by
  induction cs using List.reverseRecOn with
  | nil => exact ⟨h, (Nat.mod_eq_of_lt h.small).symm⟩
  | append_singleton cs c ih =>
      obtain ⟨hs, hlen⟩ := ih
      have hnew := WriteBatcher.length_pending_add hs.maxBatch hs.small (activityOf cfg c) none
      rw [addAll_concat]
      refine ⟨⟨by rw [WriteBatcher.maxBatch_add, hs.maxBatch], ?_, by rw [WriteBatcher.droppedEvents_add, hs.kept]⟩, ?_⟩
      · rw [hnew]
        exact Nat.mod_lt _ (by decide)
      · rw [hnew, hlen, List.length_append, List.length_singleton]
        omega

theorem batching_addAll (cfg : Identity) {events : List ActivityEvent} {b : WriteBatcher} (h : Batching events b)
    (cs : List (Event WindowData)) : Batching (events ++ cs.map (activityOf cfg)) (addAll cfg b cs) := by
  induction cs using List.reverseRecOn with
  | nil => exact (List.append_nil events).symm ▸ h
  | append_singleton cs c ih =>
      rw [addAll_concat, List.map_append, List.map_singleton, ← List.append_assoc]
      exact ih.add _ none

/-! ## The loop -/

/-- What the queue committed went into the batcher. -/
structure Flows (cfg : Identity) (s : Loop) : Prop where
  run : s.hq = (newQueue commitThresh).run s.ops
  seconds : Seconds s.ops
  batching : Batching (s.hq.committed.map fun c => activityOf cfg c.2) s.batcher
  sized : Sized s.batcher

theorem Flows.start (cfg : Identity) : Flows cfg startLoop where
  run := rfl
  seconds s e p h := by simp [startLoop] at h
  batching := Batching.start 200
  sized := ⟨rfl, by decide, rfl⟩

/-- The branch that runs and what it has still to do do not matter. -/
theorem Flows.congr {s s' : Loop} (h : Flows cfg s) (hhq : s'.hq = s.hq) (hops : s'.ops = s.ops)
    (hbatcher : s'.batcher = s.batcher) : Flows cfg s' where
  run := by rw [hhq, hops, h.run]
  seconds := by
    rw [hops]
    exact h.seconds
  batching := by
    rw [hhq, hbatcher]
    exact h.batching
  sized := by
    rw [hbatcher]
    exact h.sized

/-- A call on the queue, and how much it leaves pending. -/
theorem Flows.queue {s : Loop} (h : Flows cfg s) {op : QueueOp WindowData} (hop : Seconds [op]) :
    Flows cfg (s.queue cfg op) ∧
      (s.queue cfg op).batcher.pending.length = (s.batcher.pending.length + (commitsOf s.hq op).length) % 200 := by
  obtain ⟨hsized, hlen⟩ := h.sized.addAll cfg (commitsOf s.hq op)
  refine ⟨⟨?_, ?_, ?_, hsized⟩, hlen⟩
  · show s.hq.apply op = (newQueue commitThresh).run (s.ops ++ [op])
    rw [run_snoc, ← h.run]
  · intro t e p hmem
    rcases List.mem_append.mp hmem with hmem | hmem
    · exact h.seconds t e p hmem
    · exact hop t e p hmem
  · have hcs := batching_addAll cfg h.batching (commitsOf s.hq op)
    show Batching ((s.hq.apply op).committed.map fun c => activityOf cfg c.2) (addAll cfg s.batcher (commitsOf s.hq op))
    have hmap : ((s.hq.apply op).committed.map fun c => activityOf cfg c.2) =
        (s.hq.committed.map fun c => activityOf cfg c.2) ++ (commitsOf s.hq op).map (activityOf cfg) := by
      have := congrArg (List.map (activityOf cfg)) (commits_apply s.hq op)
      simpa [Function.comp_def] using this
    rw [hmap]
    exact hcs

theorem seconds_flushAll : Seconds [.flushAll] := by
  intro t e p hmem
  simp at hmem

/-- **A `FlushAll` leaves nothing in the batcher exactly where the pending and the cached events fill whole batches.** -/
theorem Flows.flushAll {s : Loop} (h : Flows cfg s) :
    Flows cfg (s.queue cfg .flushAll) ∧ ((s.queue cfg .flushAll).batcher.pending = [] ↔ Drains s) := by
  obtain ⟨hflows, hlen⟩ := h.queue seconds_flushAll
  refine ⟨hflows, ?_⟩
  rw [← List.length_eq_zero_iff, hlen, Drains, Nat.dvd_iff_mod_eq_zero]

/-- After the `FlushAll` of a barrier the queue is empty, and the batcher is or will be. -/
def AtBarrier (s : Loop) : Prop :=
  s.barrier ≠ none → (∀ t, s.hq.cached t = none) ∧ (.flushBatcher ∈ s.todo ∨ s.batcher.pending = [])

/-- What holds after every step. -/
structure LoopInv (cfg : Identity) (s : Loop) : Prop where
  flows : Flows cfg s
  atBarrier : AtBarrier s

theorem atBarrier_of_none {s : Loop} (h : s.barrier = none) : AtBarrier s := fun hb => absurd h hb

theorem LoopInv.branch {s : Loop} (h : Flows cfg s) (hb : s.barrier = none) {e : MainEvent} (hG : Drained s e) :
    LoopInv cfg (branch cfg s e) := by
  have hcached : ∀ t, (s.queue cfg .flushAll).hq.cached t = none := fun t => cached_flushAll s.hq t
  obtain ⟨hflush, hdrains⟩ := h.flushAll
  cases e with
  | window win url cat ts =>
      simp only [Agent.branch]
      split
      · exact ⟨h, atBarrier_of_none hb⟩
      · refine ⟨(h.queue ?_).1, atBarrier_of_none hb⟩
        intro t e p hmem
        simp only [List.mem_singleton, QueueOp.push.injEq] at hmem
        obtain ⟨-, rfl, rfl⟩ := hmem
        exact ⟨Int.one_mul _, rfl⟩
  | idle afk =>
      have h' : Flows cfg { s with isAFK := afk } := h.congr rfl rfl rfl
      simp only [Agent.branch]
      split
      · exact ⟨h'.flushAll.1, atBarrier_of_none hb⟩
      · exact ⟨h', atBarrier_of_none hb⟩
  | suspend =>
      exact ⟨hflush.congr rfl rfl rfl, fun _ => ⟨hcached, Or.inr (hdrains.mpr hG)⟩⟩
  | resume => exact ⟨hflush.congr rfl rfl rfl, atBarrier_of_none hb⟩
  | syncTick available =>
      simp only [Agent.branch]
      split
      next ha =>
        exact ⟨hflush.congr rfl rfl rfl, fun _ => ⟨hcached, Or.inr (hdrains.mpr (hG ha))⟩⟩
      next => exact ⟨h, atBarrier_of_none hb⟩
  | shutdown =>
      exact ⟨hflush.congr rfl rfl rfl, fun _ => ⟨hcached, Or.inl List.mem_cons_self⟩⟩
  | call => exact ⟨h, atBarrier_of_none hb⟩
  | fire t => exact ⟨h, atBarrier_of_none hb⟩
  | callback t => exact ⟨h, atBarrier_of_none hb⟩

theorem Flows.flushBatcher {s : Loop} (h : Flows cfg s) (todo : List Call) :
    Flows cfg { s with batcher := s.batcher.flush none, todo := todo } :=
  ⟨h.run, h.seconds, Batching.of_flush h.batching.settles h.batching.paired none,
    Sized.of_flush h.sized.maxBatch h.sized.kept⟩

/-- A step of the batcher's timers, which leaves what is pending or flushes it. -/
theorem LoopInv.timer {s : Loop} (h : LoopInv cfg s) {e : BatchEvent} (hadded : added [e] = []) {b : WriteBatcher}
    (hb : batchStep e s.batcher = some b) (hsized : Sized b)
    (hpend : b.pending = s.batcher.pending ∨ b.pending = []) : LoopInv cfg { s with batcher := b } := by
  have hbatching := h.flows.batching.step hb
  rw [hadded, List.append_nil] at hbatching
  refine ⟨⟨h.flows.run, h.flows.seconds, hbatching, hsized⟩, fun hne => ?_⟩
  obtain ⟨hcached, hdrained⟩ := h.atBarrier hne
  refine ⟨hcached, hdrained.imp_right fun hnil => ?_⟩
  rcases hpend with hsame | hnone
  · exact hsame.trans hnil
  · exact hnone

/-- **One step keeps the invariant.** -/
theorem LoopInv.step {s s' : Loop} (h : LoopInv cfg s) {e : MainEvent} (hG : Drained s e) (hn : mainStep cfg e s = some s') :
    LoopInv cfg s' := by
  have hmain : ∀ {e}, Drained s e → (if s.todo = [] ∧ s.stopped = false then
      some (Agent.branch cfg { s with barrier := none } e) else none) = some s' → LoopInv cfg s' := by
    intro e hG hn
    split at hn
    next =>
      obtain rfl := Option.some.inj hn
      apply LoopInv.branch (s := { s with barrier := none }) (h.flows.congr rfl rfl rfl) rfl
      cases e <;> exact hG
    next => cases hn
  cases e with
  | fire t =>
      obtain ⟨b, hb, rfl⟩ := Option.map_eq_some_iff.mp hn
      have hfires := hb
      simp only [batchStep] at hfires
      split_ifs at hfires
      obtain rfl := Option.some.inj hfires
      exact h.timer rfl hb ⟨h.flows.sized.maxBatch, h.flows.sized.small, h.flows.sized.kept⟩ (Or.inl rfl)
  | callback t =>
      obtain ⟨b, hb, rfl⟩ := Option.map_eq_some_iff.mp hn
      have hruns := hb
      simp only [batchStep] at hruns
      split_ifs at hruns
      obtain rfl := Option.some.inj hruns
      exact h.timer rfl hb (Sized.of_flush h.flows.sized.maxBatch h.flows.sized.kept)
        (Or.inr (WriteBatcher.pending_flushLocked _ _))
  | call =>
      simp only [mainStep] at hn
      split at hn
      next => cases hn
      next todo htodo =>
        obtain rfl := Option.some.inj hn
        exact ⟨h.flows.flushBatcher todo,
          fun hne => ⟨(h.atBarrier hne).1, Or.inr (WriteBatcher.pending_flushLocked _ _)⟩⟩
      next todo htodo =>
        obtain rfl := Option.some.inj hn
        refine ⟨h.flows.congr rfl rfl rfl, fun hne => ?_⟩
        obtain ⟨hcached, hpend⟩ := h.atBarrier hne
        rw [htodo] at hpend
        exact ⟨hcached, hpend.imp_left fun hmem => by simpa using hmem⟩
  | window win url cat ts => exact hmain hG hn
  | idle afk => exact hmain hG hn
  | suspend => exact hmain hG hn
  | resume => exact hmain hG hn
  | syncTick available => exact hmain hG hn
  | shutdown => exact hmain hG hn

/-! ## What is durable -/

/-- A committed event that is not pending is in a row. -/
theorem Flows.row_of_committed {s : Loop} (h : Flows cfg s) (hpend : s.batcher.pending = []) {t : String}
    {e : Event WindowData} (he : (t, e) ∈ s.hq.committed) :
    ∃ r ∈ s.batcher.rows.rows, r.columns = (activityOf cfg e).columns := by
  obtain ⟨settled, hevents, hrows, hdropped⟩ := h.batching.settles
  have hin : activityOf cfg e ∈ settled.map Prod.fst := by
    rw [hpend, List.append_nil] at hevents
    rw [← hevents]
    exact List.mem_map_of_mem he
  obtain ⟨x, hx, hxe⟩ := List.mem_map.mp hin
  have hnot : ¬ x.2 = .dropped := by
    intro hd
    have hpos : 0 < settled.countP fun x => x.2 = .dropped := List.countP_pos_iff.mpr ⟨x, hx, by simpa using hd⟩
    rw [← hdropped, h.sized.kept] at hpos
    exact absurd hpos (Nat.lt_irrefl 0)
  have hinserted : x.2 = .inserted := by
    cases hf : x.2 with
    | inserted => rfl
    | dropped => exact absurd hf hnot
  have hstored : (activityOf cfg e).columns ∈ stored s.batcher.rows := by
    rw [hrows, ← hxe]
    exact List.mem_map_of_mem (f := fun x => x.1.columns)
      ((List.mem_filter (p := fun x => decide (x.2 = .inserted))).mpr ⟨hx, decide_eq_true hinserted⟩)
  obtain ⟨r, hr, heq⟩ := List.mem_map.mp hstored
  exact ⟨r, hr, heq⟩

/-- With both stages empty every event pushed so far is in a row. -/
theorem Flows.durable {s : Loop} (h : Flows cfg s) (hcached : ∀ t, s.hq.cached t = none)
    (hpend : s.batcher.pending = []) {t : String} {e : Event WindowData} (he : Pushed s.ops t e) :
    Durable s.batcher.rows e := by
  obtain ⟨p, hp⟩ := he
  have hpos := (h.seconds.paced t e p hp).1
  obtain ⟨c, hc, hdata, hsub⟩ := h.seconds.covers t e ⟨p, hp⟩
  rw [← h.run] at hc
  have hcom : (t, c) ∈ s.hq.committed := by
    rcases hc with hc | hc
    · rw [hcached t] at hc
      cases hc
    · exact hc
  obtain ⟨r, hr, hrow⟩ := h.row_of_committed hpend hcom
  have hspan : c.timestamp ≤ e.timestamp ∧ e.timestamp + e.duration ≤ c.timestamp + c.duration :=
    (Set.Ico_subset_Ico_iff (by simpa using hpos)).mp hsub
  simp only [ActivityEvent.columns, activityOf, ActivityEvent.mk.injEq] at hrow
  obtain ⟨-, -, -, happ, htitle, hurl, hcat, -, hstart, hend, -⟩ := hrow
  refine ⟨r, hr, happ.trans (by rw [hdata]), htitle.trans (by rw [hdata]), hurl.trans (by rw [hdata]),
    hcat.trans (by rw [hdata]), ?_, ?_⟩ <;> omega

end Stages

/-- **What a barrier leaves behind.** In every run in which Suspend events and sync ticks happen only where the pending and the
cached events fill whole batches: when the branch of a barrier has finished, every event pushed before is part of a row. -/
theorem barriers_durable (cfg : Identity) (s : Loop) (h : Reached (mainStep cfg) Drained startLoop s)
    (hbarrier : s.barrier ≠ none) (htodo : s.todo = []) (t : String) (e : Event WindowData) (he : Pushed s.ops t e) :
    Durable s.batcher.rows e := by
  have hinv : LoopInv cfg s :=
    h.inv (I := LoopInv cfg) ⟨Flows.start cfg, atBarrier_of_none rfl⟩ fun s e s' hs hG hn => hs.step hG hn
  obtain ⟨hcached, hpend⟩ := hinv.atBarrier hbarrier
  rw [htodo] at hpend
  exact hinv.flows.durable hcached (hpend.resolve_left List.not_mem_nil) he

/-! ## A lid closed too soon -/

/-- Some agent. -/
def laptop : Identity := ⟨"e1", "o1"⟩

/-- The first window in front. -/
def firstWindow : MainEvent := .window ⟨"Code", "main.go", "", "", 1⟩ "" "Work.Development" 0

def firstEvent : Event WindowData := ⟨0, 1 * second, ⟨"Code", "main.go", "", "Work.Development"⟩, inRange_second⟩

theorem not_durable_of_no_rows {rows : ActivityRows} (h : rows.rows = []) (e : Event WindowData) : ¬ Durable rows e := by
  rintro ⟨r, hr, -⟩
  rw [h] at hr
  cases hr

/-- Where a list of events leads. -/
abbrev after (es : List MainEvent) : Loop := endOf (mainStep laptop) startLoop es

/-- **A Suspend event and a sync tick leave events in the batcher.** Neither branch flushes it. -/
theorem barriers_leave_events :
    (∃ s, Reached (mainStep laptop) (fun _ _ => True) startLoop s ∧ s.barrier = some .suspend ∧ s.todo = [] ∧
      Pushed s.ops windowStream firstEvent ∧ ¬ Durable s.batcher.rows firstEvent) ∧
    ∃ s, Reached (mainStep laptop) (fun _ _ => True) startLoop s ∧ s.barrier = some .syncTick ∧ s.todo = [] ∧
      Pushed s.ops windowStream firstEvent ∧ ¬ Durable s.batcher.rows firstEvent := by
  refine ⟨⟨after [firstWindow, .suspend, .call], reached_endOf (allowed_true _ _) rfl, rfl, rfl, ⟨pulsetime, ?_⟩,
    not_durable_of_no_rows rfl _⟩, ⟨after [firstWindow, .syncTick true], reached_endOf (allowed_true _ _) rfl, rfl, rfl,
    ⟨pulsetime, ?_⟩, not_durable_of_no_rows rfl _⟩⟩
  · exact List.mem_cons_self
  · exact List.mem_cons_self

/-- The user goes idle, the batch is written, and only then the lid is closed. -/
theorem barriers_durable_sample :
    Durable (after [firstWindow, .idle true, .fire 0, .callback 0, .suspend, .call]).batcher.rows firstEvent :=
  barriers_durable laptop (after [firstWindow, .idle true, .fire 0, .callback 0, .suspend, .call])
    (reached_endOf (by decide) rfl) (by decide) rfl windowStream firstEvent ⟨pulsetime, List.mem_cons_self⟩

end TimeChamp.Agent
