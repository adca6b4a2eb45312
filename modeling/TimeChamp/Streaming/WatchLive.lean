import TimeChamp.Lib.Memo
import TimeChamp.Streaming.LiveWatch

/-!
# Watching a screen live, from the dashboard to the agent

The event loop of `cmd/agent/main.go` polls the API whether anyone watches, and takes screenshots in a burst while it is
told so. Between the answer of the API and its arrival, and between two polls, the dashboards, the clock and the ticker
of the burst go on; a poll may fail before or after the API answered.

* `Agent`, `Agent.onCommands`, `fetchCommands` : what the event loop keeps for it, and what an answer changes;
* `Entry` : what is logged of grants, stops, answers and screenshots; `lastMark`, `live`, what a log says last;
* `Watch.step` : the dashboards, the API and any number of agents;
* `screens_watched` : **a screenshot of a burst goes back to a viewer of the organization who asked for that device less
  than a minute before the API said so**.
-/

namespace TimeChamp.LiveWatch
open Lib
open Function (update)

/-! ## The agent -/

/-- What the API sends: the data of the envelope, or the field without one. -/
structure Response where
  status : Nat
  data : Bool
  liveView : Bool
deriving DecidableEq

/-- `FetchCommands`; none is an error. -/
def fetchCommands (response : Response) : Option Bool :=
  if response.status ≠ 200 then none
  else
    let cmds := response.data
    some (if !cmds && response.liveView then response.liveView else cmds)

/-- How far the poll is that the event loop waits for. -/
inductive Poll where
  | none
  | sent
  | answered (response : Response)
deriving DecidableEq

/-- The ticker of the burst runs or not, and may have left a tick in its channel, which a stop does not remove. -/
structure Agent where
  liveViewOn : Bool
  isAFK : Bool
  hasScreenRecording : Bool
  burstTicker : Bool
  burstTick : Bool
  poll : Poll
deriving DecidableEq

def Agent.start : Agent := ⟨false, false, true, false, false, .none⟩

/-- What the event loop does with an answer. -/
def Agent.onCommands (agent : Agent) (liveView : Bool) : Agent :=
  if liveView && !agent.liveViewOn then { agent with liveViewOn := true, burstTicker := true }
  else if !liveView && agent.liveViewOn then { agent with liveViewOn := false, burstTicker := false }
  else agent

/-! ## What is logged -/

inductive Entry (ι V : Type) where
  | granted (viewer : V) (organizationId : Uuid) (device : AgentDevice) (at_ : Int)
  | cleared (flag : Flag)
  | served (agent : ι) (at_ : Int) (liveView : Bool)
  | received (agent : ι) (liveView : Bool)
  | captured (agent : ι)
deriving DecidableEq

section
variable {ι V : Type} [DecidableEq ι]

/-- The last grant of a device that was not stopped since. -/
def lastMark (flag : Flag) (log : List (Entry ι V)) : Option Int :=
  log.foldl (fun acc e =>
    match e with
    | .granted _ _ device at_ => if device.flag = flag then some at_ else acc
    | .cleared flag' => if flag' = flag then none else acc
    | _ => acc) none

/-- The last answer that reached the agent. -/
def live (i : ι) (log : List (Entry ι V)) : Bool :=
  log.foldl (fun acc e =>
    match e with
    | .received j liveView => if j = i then liveView else acc
    | _ => acc) false

/-! ## The system -/

/-- The API with its viewers, the agents, and the log. -/
structure Watch.State (ι V : Type) where
  server : Controller V
  agent : ι → Agent
  log : List (Entry ι V)

def Watch.start (devices : List AgentDevice) (now : Int) : Watch.State ι V :=
  ⟨Controller.start devices now, fun _ => Agent.start, []⟩

/-- A request of a dashboard, or a change of the server; a poll that is sent, answered, lost, received; a tick of the
ticker, and what the loop does with it; a change of what the loop knows of the user and of its permission. -/
inductive Watch.Event (ι V : Type) where
  | request (e : LiveWatch.Event V)
  | poll (i : ι)
  | serve (i : ι) (now : Int)
  | lose (i : ι)
  | receive (i : ι)
  | fire (i : ι)
  | burst (i : ι) (capErr : Bool)
  | setAFK (i : ι) (isAFK : Bool)
  | permit (i : ι) (hasScreenRecording : Bool)

variable [DecidableEq V]

/-- What a request is granted. -/
def Controller.grants (s : Controller V) : LiveWatch.Event V → List (Entry ι V)
  | .requestStreamByDevice viewer organizationId deviceId now =>
    (s.findDevice organizationId deviceId).toList.map fun device => .granted viewer organizationId device now
  | .requestStream viewer organizationId userId now =>
    ((s.activeDevices organizationId userId).mergeSort seenLater).head?.toList.map fun device =>
      .granted viewer organizationId device now
  | _ => []

/-- What is logged of a request. -/
def Controller.entries (s : Controller V) (e : LiveWatch.Event V) : List (Entry ι V) :=
  s.grants e ++ (s.cleared e).map .cleared

namespace Watch

def State.setAgent (s : State ι V) (i : ι) (agent : Agent) : State ι V := { s with agent := update s.agent i agent }

def State.logged (s : State ι V) (entry : Entry ι V) : State ι V := { s with log := s.log ++ [entry] }

/-- The event loop does one thing at a time: while it waits for a poll it takes no tick. -/
def step (flagOf : ι → Flag) : Event ι V → State ι V → Option (State ι V)
  | .request e, s => some { s with server := handle e s.server, log := s.log ++ s.server.entries e }
  | .poll i, s => if (s.agent i).poll = .none then some (s.setAgent i { s.agent i with poll := .sent }) else none
  | .serve i now, s =>
    if (s.agent i).poll = .sent then
      let liveView := (s.server.cache.isWatched now (flagOf i)).1
      some ((({ s with server := handle (.getCommands (flagOf i) now) s.server } : State ι V).setAgent i
        { s.agent i with poll := .answered ⟨200, liveView, false⟩ }).logged (.served i now liveView))
    else none
  | .lose i, s => if (s.agent i).poll = .none then none else some (s.setAgent i { s.agent i with poll := .none })
  | .receive i, s =>
    match (s.agent i).poll with
    | .answered response =>
      match fetchCommands response with
      | none => some (s.setAgent i { s.agent i with poll := .none })
      | some liveView =>
        some ((s.setAgent i { (s.agent i).onCommands liveView with poll := .none }).logged (.received i liveView))
    | _ => none
  | .fire i, s => if (s.agent i).burstTicker then some (s.setAgent i { s.agent i with burstTick := true }) else none
  | .burst i capErr, s =>
    if (s.agent i).poll = .none ∧ (s.agent i).burstTick = true then
      let s' := s.setAgent i { s.agent i with burstTick := false }
      if (s.agent i).isAFK || !(s.agent i).hasScreenRecording || capErr then some s' else some (s'.logged (.captured i))
    else none
  | .setAFK i isAFK, s => some (s.setAgent i { s.agent i with isAFK })
  | .permit i hasScreenRecording, s => some (s.setAgent i { s.agent i with hasScreenRecording })

end Watch

/-! ## Logs -/

/-- The entry is not about the answers and the screenshots of the agent. -/
def Quiet {ι V : Type} (i : ι) : Entry ι V → Prop
  | .served j _ _ => j ≠ i
  | .received j _ => j ≠ i
  | .captured j => j ≠ i
  | _ => True

end

section
variable {ι V : Type} {log es : List (Entry ι V)} {i : ι} {flag : Flag}

theorem lastMark_concat (flag : Flag) (log : List (Entry ι V)) (e : Entry ι V) :
    lastMark flag (log ++ [e]) =
      match e with
      | .granted _ _ device at_ => if device.flag = flag then some at_ else lastMark flag log
      | .cleared flag' => if flag' = flag then none else lastMark flag log
      | _ => lastMark flag log := by
  unfold lastMark
  rw [List.foldl_append]
  cases e <;> rfl

theorem live_concat [DecidableEq ι] (i : ι) (log : List (Entry ι V)) (e : Entry ι V) :
    live i (log ++ [e]) =
      match e with
      | .received j liveView => if j = i then liveView else live i log
      | _ => live i log := by
  unfold live
  rw [List.foldl_append]
  cases e <;> rfl

theorem live_append [DecidableEq ι] (h : ∀ e ∈ es, Quiet i e) : live i (log ++ es) = live i log := by
  induction es generalizing log with
  | nil => rw [List.append_nil]
  | cons e es ih =>
      obtain ⟨he, hes⟩ := List.forall_mem_cons.mp h
      rw [← List.singleton_append, ← List.append_assoc, ih hes, live_concat]
      cases e with
      | received j b => exact if_neg he
      | _ => rfl

/-- The stop of some devices. -/
theorem lastMark_cleared (flag : Flag) (log : List (Entry ι V)) (flags : List Flag) :
    lastMark flag (log ++ flags.map .cleared) = if flag ∈ flags then none else lastMark flag log := by
  induction flags generalizing log with
  | nil => simp
  | cons f flags ih =>
      rw [List.map_cons, ← List.singleton_append, ← List.append_assoc, ih, lastMark_concat]
      by_cases hmem : flag ∈ flags
      · rw [if_pos hmem, if_pos (List.mem_cons_of_mem _ hmem)]
      · rw [if_neg hmem]
        dsimp only
        by_cases hf : f = flag
        · rw [if_pos hf, if_pos (by rw [hf]; exact List.mem_cons_self)]
        · rw [if_neg hf, if_neg]
          rintro (_ | ⟨_, h⟩)
          · exact hf rfl
          · exact hmem h

theorem exists_of_lastMark {at_ : Int} (h : lastMark flag log = some at_) :
    ∃ before viewer organizationId device between,
      log = before ++ .granted viewer organizationId device at_ :: between ∧ device.flag = flag ∧
        Entry.cleared flag ∉ between := by
  induction log using List.reverseRecOn with
  | nil => cases h
  | append_singleton log e ih =>
      have keep : lastMark flag log = some at_ → Entry.cleared flag ≠ e →
          ∃ before viewer organizationId device between,
            log ++ [e] = before ++ .granted viewer organizationId device at_ :: between ∧ device.flag = flag ∧
              Entry.cleared flag ∉ between := by
        intro hlast hne
        obtain ⟨before, viewer, organizationId, device, between, rfl, hflag, hnot⟩ := ih hlast
        refine ⟨before, viewer, organizationId, device, between ++ [e], ?_, hflag, fun hmem => ?_⟩
        · rw [List.append_assoc, List.cons_append]
        · rcases List.mem_append.mp hmem with hmem | hmem
          · exact hnot hmem
          · exact hne (List.mem_singleton.mp hmem)
      rw [lastMark_concat] at h
      cases e with
      | granted viewer organizationId device t =>
          dsimp only at h
          split at h
          next hflag =>
            obtain rfl := Option.some.inj h
            exact ⟨log, viewer, organizationId, device, [], rfl, hflag, List.not_mem_nil⟩
          next => exact keep h (by simp)
      | cleared flag' =>
          dsimp only at h
          split at h
          next => cases h
          next hne => exact keep h fun heq => hne (Entry.cleared.inj heq).symm
      | served j t b => exact keep h (by simp)
      | received j b => exact keep h (by simp)
      | captured j => exact keep h (by simp)

theorem exists_of_live [DecidableEq ι] (h : live i log = true) :
    ∃ told late, log = told ++ .received i true :: late ∧ ∀ b, Entry.received i b ∉ late := by
  induction log using List.reverseRecOn with
  | nil => cases h
  | append_singleton log e ih =>
      have keep : live i log = true → (∀ b, Entry.received i b ≠ e) →
          ∃ told late, log ++ [e] = told ++ .received i true :: late ∧ ∀ b, Entry.received i b ∉ late := by
        intro hlive hne
        obtain ⟨told, late, rfl, hnot⟩ := ih hlive
        refine ⟨told, late ++ [e], by rw [List.append_assoc, List.cons_append], fun b hmem => ?_⟩
        rcases List.mem_append.mp hmem with hmem | hmem
        · exact hnot b hmem
        · exact hne b (List.mem_singleton.mp hmem)
      rw [live_concat] at h
      cases e with
      | received j b =>
          dsimp only at h
          split at h
          next hj =>
            subst hj h
            exact ⟨log, [], rfl, fun _ => List.not_mem_nil⟩
          next hj => exact keep h fun b' heq => hj (Entry.received.inj heq).1.symm
      | granted viewer organizationId device t => exact keep h (by simp)
      | cleared flag' => exact keep h (by simp)
      | served j t b => exact keep h (by simp)
      | captured j => exact keep h (by simp)

/-! ## What the cache holds -/

/-- Every entry of the cache is a minute after the last grant of its device, which was not stopped since. -/
def Marks (cache : LiveWatchCache) (log : List (Entry ι V)) : Prop :=
  ∀ flag expiresAt, cache (Flag.key flag) = some expiresAt → lastMark flag log = some (expiresAt - 60000)

section
variable {cache : LiveWatchCache}

/-- A grant is the last one of its device. -/
theorem Marks.granted (h : Marks cache log) (viewer : V) (organizationId : Uuid) (device : AgentDevice) (now : Int) :
    Marks (cache.markWatched now device.flag WATCH_FLAG_TTL_SECONDS)
      (log ++ [.granted viewer organizationId device now]) := by
  intro flag expiresAt hflag
  rw [lastMark_concat]
  unfold LiveWatchCache.markWatched at hflag
  dsimp only
  by_cases hdevice : device.flag = flag
  · rw [hdevice, Function.update_self] at hflag
    rw [if_pos hdevice, ← Option.some.inj hflag]
    show some now = some (now + 60 * 1000 - 60000)
    congr 1
    omega
  · rw [Function.update_of_ne fun hkey => hdevice (Flag.key_inj hkey).symm] at hflag
    rw [if_neg hdevice]
    exact h flag expiresAt hflag

theorem Marks.cleared (h : Marks cache log) (flags : List Flag) :
    Marks (flags.foldl LiveWatchCache.clearWatched cache) (log ++ flags.map .cleared) := by
  intro flag expiresAt hflag
  rw [lastMark_cleared]
  by_cases hmem : flag ∈ flags
  · rw [foldl_clearWatched_of_mem hmem] at hflag
    cases hflag
  · rw [foldl_clearWatched hmem] at hflag
    rw [if_neg hmem]
    exact h flag expiresAt hflag

theorem Marks.less {cache' : LiveWatchCache} (h : Marks cache log)
    (hless : ∀ key expiresAt, cache' key = some expiresAt → cache key = some expiresAt) : Marks cache' log :=
  fun flag expiresAt hflag => h flag expiresAt (hless _ _ hflag)

/-- What agents do is no mark. -/
theorem Marks.agent (h : Marks cache log) {e : Entry ι V} (he : ∀ flag, lastMark flag (log ++ [e]) = lastMark flag log) :
    Marks cache (log ++ [e]) :=
  fun flag expiresAt hflag => (he flag).trans (h flag expiresAt hflag)

theorem of_isWatched {now : Int} {key : String} {expiresAt : Int}
    (h : (cache.isWatched now flag).2 key = some expiresAt) : cache key = some expiresAt := by
  unfold LiveWatchCache.isWatched at h
  split at h
  next => exact h
  next =>
    split_ifs at h
    · dsimp only at h
      by_cases hkey : key = flag.key
      · rw [hkey, Function.update_self] at h
        cases h
      · rwa [Function.update_of_ne hkey] at h
    · exact h

theorem of_sweep {now : Int} {key : String} {expiresAt : Int} (h : cache.sweep now key = some expiresAt) :
    cache key = some expiresAt :=
  (Option.filter_eq_some_iff.mp h).1

theorem Marks.watched (h : Marks cache log) {now : Int} (hwatched : (cache.isWatched now flag).1 = true) :
    ∃ at_, lastMark flag log = some at_ ∧ now ≤ at_ + 60000 := by
  unfold LiveWatchCache.isWatched at hwatched
  split at hwatched
  next => cases hwatched
  next expiresAt hflag =>
    split_ifs at hwatched with hnow
    exact ⟨expiresAt - 60000, h flag expiresAt hflag, by omega⟩

/-- **One request.** -/
theorem Marks.handle [DecidableEq V] {server : Controller V} (h : Marks server.cache log) (e : LiveWatch.Event V) :
    Marks (handle e server).cache (log ++ server.entries e) := by
  cases e with
  | requestStreamByDevice viewer organizationId deviceId now =>
      simp only [LiveWatch.handle, Controller.entries, Controller.grants, Controller.cleared, Controller.findDevice]
      cases server.devices.find? fun d => d.id = deviceId && d.organizationId = organizationId with
      | none => simpa using h
      | some device => exact h.granted viewer organizationId device now
  | requestStream viewer organizationId userId now =>
      simp only [LiveWatch.handle, Controller.entries, Controller.grants, Controller.cleared, Controller.activeDevices]
      cases ((server.devices.filter fun d => d.userId = userId && d.organizationId = organizationId &&
        d.isActive).mergeSort seenLater).head? with
      | none => simpa using h
      | some device => exact h.granted viewer organizationId device now
  | stopStreamByDevice viewer organizationId deviceId now => exact h.cleared _
  | stopStream viewer organizationId userId now => exact h.cleared _
  | getCommands flag now =>
      show Marks _ (log ++ [])
      rw [List.append_nil]
      exact h.less fun _ _ => of_isWatched
  | sweep now =>
      show Marks _ (log ++ [])
      rw [List.append_nil]
      exact h.less fun _ _ => of_sweep
  | devices devices now =>
      show Marks _ (log ++ [])
      rw [List.append_nil]
      exact h

theorem organizationId_of_granted [DecidableEq V] {server : Controller V} {e : LiveWatch.Event V} {viewer : V}
    {organizationId : Uuid} {device : AgentDevice} {at_ : Int}
    (h : (Entry.granted viewer organizationId device at_ : Entry ι V) ∈ server.entries e) :
    device.organizationId = organizationId := by
  have hgrant : (Entry.granted viewer organizationId device at_ : Entry ι V) ∈ server.grants e := by
    refine (List.mem_append.mp h).resolve_right fun hmem => ?_
    obtain ⟨_, _, heq⟩ := List.mem_map.mp hmem
    cases heq
  cases e with
  | requestStreamByDevice viewer' organizationId' deviceId now =>
      obtain ⟨d, hd, heq⟩ := List.mem_map.mp hgrant
      obtain ⟨-, rfl, rfl, -⟩ := Entry.granted.inj heq
      have := List.find?_some (Option.mem_toList.mp hd)
      simp only [Bool.and_eq_true, decide_eq_true_eq] at this
      exact this.2
  | requestStream viewer' organizationId' userId now =>
      obtain ⟨d, hd, heq⟩ := List.mem_map.mp hgrant
      obtain ⟨-, rfl, rfl, -⟩ := Entry.granted.inj heq
      have hmem := List.mem_mergeSort.mp (List.mem_of_mem_head? (Option.mem_toList.mp hd))
      have := (List.mem_filter.mp hmem).2
      simp only [Bool.and_eq_true, decide_eq_true_eq] at this
      exact this.1.2
  | _ => exact absurd hgrant List.not_mem_nil

/-- The entries of a request are about no agent. -/
theorem quiet_of_entries [DecidableEq V] {server : Controller V} {e : LiveWatch.Event V} {entry : Entry ι V}
    (h : entry ∈ server.entries e) (i : ι) : Quiet i entry := by
  rcases List.mem_append.mp h with hmem | hmem
  · cases e with
    | requestStreamByDevice viewer organizationId deviceId now =>
        obtain ⟨d, -, rfl⟩ := List.mem_map.mp hmem
        trivial
    | requestStream viewer organizationId userId now =>
        obtain ⟨d, -, rfl⟩ := List.mem_map.mp hmem
        trivial
    | _ => exact absurd hmem List.not_mem_nil
  · obtain ⟨_, -, rfl⟩ := List.mem_map.mp hmem
    trivial

end

/-! ## What an agent knows -/

/-- The agent was told so, and nothing since; or it was then told otherwise, and has taken no screenshot after that. -/
def Fresh (i : ι) (log : List (Entry ι V)) : Prop :=
  ∃ told late, log = told ++ .received i true :: late ∧
    ((∀ b, Entry.received i b ∉ late) ∨
      ∃ before after, late = before ++ .received i false :: after ∧ (∀ b, Entry.received i b ∉ before) ∧
        Entry.received i true ∉ after ∧ Entry.captured i ∉ after)

/-- The API answered the agent so, and nothing has come of it yet. -/
def Waiting (i : ι) (liveView : Bool) (log : List (Entry ι V)) : Prop :=
  ∃ before now waiting, log = before ++ .served i now liveView :: waiting ∧ ∀ e ∈ waiting, Quiet i e

section
variable {e : Entry ι V} {b : Bool}

theorem Fresh.concat (h : Fresh i log) (hreceived : ∀ b, Entry.received i b ≠ e) (hcaptured : Entry.captured i ≠ e) :
    Fresh i (log ++ [e]) := by
  obtain ⟨told, late, rfl, hlate⟩ := h
  refine ⟨told, late ++ [e], by rw [List.append_assoc, List.cons_append], ?_⟩
  rcases hlate with hnone | ⟨before, after, rfl, hnone, htrue, hcapt⟩
  · left
    intro b hb
    rcases List.mem_append.mp hb with hb | hb
    · exact hnone b hb
    · exact hreceived b (List.mem_singleton.mp hb)
  · refine .inr ⟨before, after ++ [e], by rw [List.append_assoc, List.cons_append], hnone, fun hb => ?_, fun hb => ?_⟩
    · rcases List.mem_append.mp hb with hb | hb
      · exact htrue hb
      · exact hreceived true (List.mem_singleton.mp hb)
    · rcases List.mem_append.mp hb with hb | hb
      · exact hcapt hb
      · exact hcaptured (List.mem_singleton.mp hb)

theorem Fresh.append (h : Fresh i log) (hquiet : ∀ e ∈ es, Quiet i e) : Fresh i (log ++ es) := by
  induction es generalizing log with
  | nil => rwa [List.append_nil]
  | cons e es ih =>
      obtain ⟨he, hes⟩ := List.forall_mem_cons.mp hquiet
      rw [← List.singleton_append, ← List.append_assoc]
      apply ih _ hes
      apply h.concat
      · rintro b rfl
        exact he rfl
      · rintro rfl
        exact he rfl

theorem fresh_of_live [DecidableEq ι] (h : live i log = true) : Fresh i log := by
  obtain ⟨told, late, heq, hnone⟩ := exists_of_live h
  exact ⟨told, late, heq, .inl hnone⟩

/-- After the first negative answer a tick may be left, which further ones do not take away. -/
theorem Fresh.toldOff (h : Fresh i log) : Fresh i (log ++ [.received i false]) := by
  obtain ⟨told, late, rfl, hlate⟩ := h
  refine ⟨told, late ++ [.received i false], by rw [List.append_assoc, List.cons_append], .inr ?_⟩
  rcases hlate with hnone | ⟨before, after, rfl, hnone, htrue, hcapt⟩
  · exact ⟨late, [], rfl, hnone, List.not_mem_nil, List.not_mem_nil⟩
  · refine ⟨before, after ++ [.received i false], by rw [List.append_assoc, List.cons_append], hnone, ?_, ?_⟩ <;>
      simpa

theorem Waiting.append (h : Waiting i b log) (hquiet : ∀ e ∈ es, Quiet i e) : Waiting i b (log ++ es) := by
  obtain ⟨before, now, waiting, rfl, hwaiting⟩ := h
  refine ⟨before, now, waiting ++ es, by rw [List.append_assoc, List.cons_append], fun e he => ?_⟩
  rcases List.mem_append.mp he with he | he
  · exact hwaiting e he
  · exact hquiet e he

end

section
variable [DecidableEq ι]

/-- What an agent keeps, by the log. -/
structure AgentSound (i : ι) (agent : Agent) (log : List (Entry ι V)) : Prop where
  on : agent.liveViewOn = live i log
  ticker : agent.burstTicker = agent.liveViewOn
  tick : agent.burstTick = true → Fresh i log
  answer : ∀ response, agent.poll = .answered response →
    ∃ liveView, response = ⟨200, liveView, false⟩ ∧ Waiting i liveView log

theorem AgentSound.append {agent : Agent} (h : AgentSound i agent log) (hquiet : ∀ e ∈ es, Quiet i e) :
    AgentSound i agent (log ++ es) where
  on := h.on.trans (live_append hquiet).symm
  ticker := h.ticker
  tick htick := (h.tick htick).append hquiet
  answer response hresponse := by
    obtain ⟨liveView, rfl, hwaiting⟩ := h.answer response hresponse
    exact ⟨liveView, rfl, hwaiting.append hquiet⟩

theorem agentSound_start (i : ι) : AgentSound i Agent.start ([] : List (Entry ι V)) := ⟨rfl, rfl, nofun, nofun⟩

/-- The event loop starts and stops the burst as it is told. -/
theorem onCommands_liveViewOn (agent : Agent) (b : Bool) : (agent.onCommands b).liveViewOn = b := by
  unfold Agent.onCommands
  cases b <;> cases h : agent.liveViewOn <;> simp [h]

theorem onCommands_burstTicker {agent : Agent} (h : agent.burstTicker = agent.liveViewOn) (b : Bool) :
    (agent.onCommands b).burstTicker = b := by
  unfold Agent.onCommands
  cases b <;> cases hon : agent.liveViewOn <;> simp [h, hon]

theorem onCommands_burstTick (agent : Agent) (b : Bool) : (agent.onCommands b).burstTick = agent.burstTick := by
  unfold Agent.onCommands
  split_ifs <;> rfl

/-- **An answer is received**; a tick of the burst that is pending was left by it or by an earlier one. -/
theorem AgentSound.received {agent : Agent} (h : AgentSound i agent log) (b : Bool) :
    AgentSound i { agent.onCommands b with poll := .none } (log ++ [.received i b]) where
  on := by
    show (agent.onCommands b).liveViewOn = _
    rw [onCommands_liveViewOn, live_concat]
    exact (if_pos rfl).symm
  ticker := by
    show (agent.onCommands b).burstTicker = (agent.onCommands b).liveViewOn
    rw [onCommands_burstTicker h.ticker, onCommands_liveViewOn]
  tick htick := by
    cases b with
    | true =>
        apply fresh_of_live
        rw [live_concat]
        exact if_pos rfl
    | false => exact (h.tick ((onCommands_burstTick agent false).symm.trans htick)).toldOff
  answer response hresponse := nomatch hresponse

/-! ## The whole system -/

/-- How each entry of the log came about. -/
def Justified (flagOf : ι → Flag) (before : List (Entry ι V)) : Entry ι V → Prop
  | .granted _ organizationId device _ => device.organizationId = organizationId
  | .cleared _ => True
  | .served i now liveView =>
    liveView = true → ∃ at_, lastMark (flagOf i) before = some at_ ∧ now ≤ at_ + 60000
  | .received i liveView => Waiting i liveView before
  | .captured i => Fresh i before

/-- The invariant of the runs. -/
structure Sound (flagOf : ι → Flag) (s : Watch.State ι V) : Prop where
  marks : Marks s.server.cache s.log
  agents : ∀ i, AgentSound i (s.agent i) s.log
  history : ∀ before e after, s.log = before ++ e :: after → Justified flagOf before e

namespace Sound
variable {flagOf : ι → Flag} {s : Watch.State ι V} {agent : Agent}

theorem request [DecidableEq V] (h : Sound flagOf s) (e : LiveWatch.Event V) :
    Sound flagOf { s with server := handle e s.server, log := s.log ++ s.server.entries e } where
  marks := h.marks.handle e
  agents i := (h.agents i).append fun _ hentry => quiet_of_entries hentry i
  history := by
    have hentries : ∀ entry ∈ (s.server.entries e : List (Entry ι V)), ∀ before, Justified flagOf before entry := by
      intro entry hentry before
      cases entry with
      | granted viewer organizationId device at_ => exact organizationId_of_granted hentry
      | cleared flag => trivial
      | served i now b => exact absurd rfl (quiet_of_entries hentry i)
      | received i b => exact absurd rfl (quiet_of_entries hentry i)
      | captured i => exact absurd rfl (quiet_of_entries hentry i)
    show ∀ before entry after, s.log ++ s.server.entries e = before ++ entry :: after → Justified flagOf before entry
    generalize (s.server.entries e : List (Entry ι V)) = entries at hentries
    induction entries using List.reverseRecOn with
    | nil =>
        rw [List.append_nil]
        exact h.history
    | append_singleton entries entry ih =>
        rw [← List.append_assoc]
        apply (Memo.forall_split_concat (P := Justified flagOf)).mpr
        constructor
        · exact ih fun entry' hentry' => hentries entry' (List.mem_append_left _ hentry')
        · exact hentries entry (List.mem_append_right _ List.mem_cons_self) _

theorem setAgent (h : Sound flagOf s) (ha : AgentSound i agent s.log) : Sound flagOf (s.setAgent i agent) where
  marks := h.marks
  agents j := by
    show AgentSound j (update s.agent i agent j) s.log
    by_cases hj : j = i
    · subst hj
      rwa [Function.update_self]
    · rw [Function.update_of_ne hj]
      exact h.agents j
  history := h.history

theorem logged {e : Entry ι V} (h : Sound flagOf s) (ha : AgentSound i agent (s.log ++ [e])) (he : ∀ j ≠ i, Quiet j e)
    (hmark : ∀ flag, lastMark flag (s.log ++ [e]) = lastMark flag s.log) (hjust : Justified flagOf s.log e) :
    Sound flagOf ((s.setAgent i agent).logged e) where
  marks := h.marks.agent hmark
  agents j := by
    show AgentSound j (update s.agent i agent j) (s.log ++ [e])
    by_cases hj : j = i
    · subst hj
      rwa [Function.update_self]
    · rw [Function.update_of_ne hj]
      exact (h.agents j).append (List.forall_mem_singleton.mpr (he j hj))
  history := Memo.forall_split_concat.mpr ⟨h.history, hjust⟩

end Sound

theorem sound_start (flagOf : ι → Flag) (devices : List AgentDevice) (now : Int) :
    Sound flagOf (Watch.start devices now : Watch.State ι V) where
  marks := nofun
  agents i := agentSound_start i
  history before e after heq := by
    cases before <;> cases heq

/-- **One step of the system.** -/
theorem sound_step [DecidableEq V] {flagOf : ι → Flag} {s s' : Watch.State ι V} {e : Watch.Event ι V}
    (h : Sound flagOf s) (hstep : Watch.step flagOf e s = some s') : Sound flagOf s' := by
  cases e with
  | request e =>
      obtain rfl := Option.some.inj hstep
      exact h.request e
  | poll i =>
      obtain ⟨-, hstep⟩ := Option.ite_none_right_eq_some.mp hstep
      obtain rfl := Option.some.inj hstep
      obtain ⟨on, ticker, tick, -⟩ := h.agents i
      exact h.setAgent ⟨on, ticker, tick, nofun⟩
  | serve i now =>
      obtain ⟨-, hstep⟩ := Option.ite_none_right_eq_some.mp hstep
      obtain rfl := Option.some.inj hstep
      have hserver := h.request (.getCommands (flagOf i) now)
      have hlog : s.log ++ s.server.entries (.getCommands (flagOf i) now) = s.log := List.append_nil _
      rw [hlog] at hserver
      obtain ⟨on, ticker, tick, -⟩ := h.agents i
      apply hserver.logged
      · constructor
        · exact on.trans (live_concat i s.log (.served i now _)).symm
        · exact ticker
        · intro htick
          exact (tick htick).concat nofun nofun
        · intro response hresponse
          exact ⟨_, (Poll.answered.inj hresponse).symm, s.log, now, [], rfl, nofun⟩
      · intro j hj
        exact hj.symm
      · intro flag
        exact lastMark_concat flag s.log _
      · exact fun hwatched => h.marks.watched hwatched
  | lose i =>
      obtain ⟨-, hstep⟩ := Option.ite_none_left_eq_some.mp hstep
      obtain rfl := Option.some.inj hstep
      obtain ⟨on, ticker, tick, -⟩ := h.agents i
      exact h.setAgent ⟨on, ticker, tick, nofun⟩
  | receive i =>
      simp only [Watch.step] at hstep
      split at hstep
      next response hpoll =>
        obtain ⟨liveView, rfl, hwaiting⟩ := (h.agents i).answer response hpoll
        have hfetch : fetchCommands ⟨200, liveView, false⟩ = some liveView := by
          cases liveView <;> rfl
        rw [hfetch] at hstep
        obtain rfl := Option.some.inj hstep
        apply h.logged ((h.agents i).received liveView)
        · intro j hj
          exact hj.symm
        · intro flag
          exact lastMark_concat flag s.log _
        · exact hwaiting
      next => cases hstep
  | fire i =>
      obtain ⟨hticker, hstep⟩ := Option.ite_none_right_eq_some.mp hstep
      obtain rfl := Option.some.inj hstep
      obtain ⟨on, ticker, -, answer⟩ := h.agents i
      apply h.setAgent
      refine ⟨on, ticker, fun _ => fresh_of_live ?_, answer⟩
      rw [← on, ← ticker, hticker]
  | burst i capErr =>
      obtain ⟨⟨hpoll, htick⟩, hstep⟩ := Option.ite_none_right_eq_some.mp hstep
      obtain ⟨on, ticker, tick, answer⟩ := h.agents i
      split_ifs at hstep
      · obtain rfl := Option.some.inj hstep
        exact h.setAgent ⟨on, ticker, nofun, answer⟩
      · obtain rfl := Option.some.inj hstep
        apply h.logged
        · refine ⟨on.trans (live_concat i s.log (.captured i)).symm, ticker, nofun, fun response hresponse => ?_⟩
          rw [hpoll] at hresponse
          cases hresponse
        · intro j hj
          exact hj.symm
        · intro flag
          exact lastMark_concat flag s.log _
        · exact tick htick
  | setAFK i isAFK =>
      obtain rfl := Option.some.inj hstep
      obtain ⟨on, ticker, tick, answer⟩ := h.agents i
      exact h.setAgent ⟨on, ticker, tick, answer⟩
  | permit i hasScreenRecording =>
      obtain rfl := Option.some.inj hstep
      obtain ⟨on, ticker, tick, answer⟩ := h.agents i
      exact h.setAgent ⟨on, ticker, tick, answer⟩

theorem sound_of_reached [DecidableEq V] {flagOf : ι → Flag} {devices : List AgentDevice} {now : Int}
    {s : Watch.State ι V} (h : Reached (Watch.step flagOf) (fun _ _ => True) (Watch.start devices now) s) :
    Sound flagOf s :=
  h.inv (sound_start flagOf devices now) fun _ _ _ hI _ hstep => sound_step hI hstep

/-- **Where a screenshot of a burst comes from.** The agent was told that it is watched, and told nothing since, or told
otherwise and has taken none after that. Before it was told, with nothing of the agent in between, the API had
answered so; and less than a minute before that answer a viewer of the device's organization had asked for this device,
which nobody stopped in between. -/
theorem screens_watched [DecidableEq V] {flagOf : ι → Flag} {devices : List AgentDevice} {now : Int}
    {s : Watch.State ι V} (h : Reached (Watch.step flagOf) (fun _ _ => True) (Watch.start devices now) s)
    {before after : List (Entry ι V)} {i : ι} (hlog : s.log = before ++ .captured i :: after) :
    ∃ told late, before = told ++ .received i true :: late ∧
      ((∀ b, Entry.received i b ∉ late) ∨
        ∃ mid last, late = mid ++ .received i false :: last ∧ (∀ b, Entry.received i b ∉ mid) ∧
          Entry.received i true ∉ last ∧ Entry.captured i ∉ last) ∧
      ∃ asked answered waiting, told = asked ++ .served i answered true :: waiting ∧ (∀ e ∈ waiting, Quiet i e) ∧
        ∃ earlier viewer device at_ between,
          asked = earlier ++ .granted viewer device.organizationId device at_ :: between ∧ device.flag = flagOf i ∧
            answered ≤ at_ + 60000 ∧ Entry.cleared (flagOf i) ∉ between := by
  have hhistory := (sound_of_reached h).history
  obtain ⟨told, late, rfl, hlate⟩ : Fresh i before := hhistory before (.captured i) after hlog
  refine ⟨told, late, rfl, hlate, ?_⟩
  rw [List.append_assoc, List.cons_append] at hlog
  obtain ⟨asked, answered, waiting, rfl, hwaiting⟩ : Waiting i true told := hhistory told (.received i true) _ hlog
  refine ⟨asked, answered, waiting, rfl, hwaiting, ?_⟩
  rw [List.append_assoc, List.cons_append] at hlog
  obtain ⟨at_, hlast, hminute⟩ := hhistory asked (.served i answered true) _ hlog rfl
  obtain ⟨earlier, viewer, organizationId, device, between, rfl, hflag, hnot⟩ := exists_of_lastMark hlast
  rw [List.append_assoc, List.cons_append] at hlog
  obtain rfl : device.organizationId = organizationId := hhistory earlier (.granted viewer _ device at_) _ hlog
  exact ⟨earlier, viewer, device, at_, between, rfl, hflag, hminute, hnot⟩

end

end

/-! ### A late tick -/

section Late

/-- The agent is told to stop when a tick of the burst is pending, which it takes all the same. -/
def lateTick : List (Watch.Event Unit Nat) :=
  [.request (.requestStreamByDevice 1 office.organizationId office.id 0), .poll (), .serve () 1000, .receive (),
    .fire (), .poll (), .request (.stopStreamByDevice 1 office.organizationId office.id 2000), .serve () 3000,
    .receive (), .burst () false]

def afterLateTick : Watch.State Unit Nat :=
  endOf (Watch.step fun _ => office.flag) (Watch.start [office] 0) lateTick

theorem reached_afterLateTick :
    Reached (Watch.step fun _ => office.flag) (fun _ _ => True) (Watch.start [office] 0) afterLateTick :=
  reached_endOf (allowed_true _ lateTick) (by decide +kernel)

theorem afterLateTick_log : afterLateTick.log = afterLateTick.log.dropLast ++ .captured () :: [] := by decide +kernel

theorem screens_watched_lateTick :
    ∃ told late, afterLateTick.log.dropLast = told ++ .received () true :: late ∧
      ((∀ b, Entry.received () b ∉ late) ∨
        ∃ mid last, late = mid ++ .received () false :: last ∧ (∀ b, Entry.received () b ∉ mid) ∧
          Entry.received () true ∉ last ∧ Entry.captured () ∉ last) ∧
      ∃ asked answered waiting, told = asked ++ .served () answered true :: waiting ∧ (∀ e ∈ waiting, Quiet () e) ∧
        ∃ earlier viewer device at_ between,
          asked = earlier ++ .granted viewer device.organizationId device at_ :: between ∧ device.flag = office.flag ∧
            answered ≤ at_ + 60000 ∧ Entry.cleared office.flag ∉ between :=
  screens_watched reached_afterLateTick afterLateTick_log

end Late

end TimeChamp.LiveWatch
