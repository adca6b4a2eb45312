import TimeChamp.Tray.App

/-!
# One agent at a time

Each way to launch checks that no agent is running, writes the executable and starts it, one after the other.

* `launching` : a goroutine has written the executable and not started it yet;
* `Alone` : a write goes through only while no other goroutine is launching;
* `launchProtocol`, `OneInv` : the executable is started only by a goroutine that has written it, and then no agent is
  alive: the file of a running one could not have been written;
* `one_agent` : **in every run in which writes are alone at most one agent is alive**.
-/

namespace TimeChamp.Tray
open TimeChamp.Lib
open Updater (Bytes)
open Function (update)

/-! ## Launching -/

/-- Whether the executable is written and not started yet, after an effect. -/
def launchMark (b : Bool) : (op : TrayOp) → op.Reply → Bool
  | .writeFile _ _, .ok _ => true
  | .start _ _, _ => false
  | _, _ => b

def TrayOp.writes : TrayOp → Bool
  | .writeFile _ _ => true
  | _ => false

section Condition
variable {ι : Type} [DecidableEq ι]

/-- Whether the goroutine is between its write and its start, from what it has done. -/
def launching (i : ι) (tr : List (Performed ι TrayOp TrayOp.Reply)) : Bool :=
  tr.foldl (fun b p => if p.1 = i then launchMark b p.2.1 p.2.2 else b) false

/-- The executable is written only while no other goroutine is launching. -/
def Alone (c : Config ι TrayOp TrayOp.Reply World) (a : Act ι Choice Job) : Prop :=
  ∀ p ∈ c.performs a, p.2.writes = true → p.1.fs = .ok → ∀ j, j ≠ a.who → launching j c.trace = false

instance [Fintype ι] (c : Config ι TrayOp TrayOp.Reply World) (a : Act ι Choice Job) : Decidable (Alone c a) :=
  inferInstanceAs (Decidable (∀ p ∈ c.performs a, p.2.writes = true → p.1.fs = .ok →
    ∀ j, j ≠ a.who → launching j c.trace = false))

end Condition

/-! ## The programs follow the protocol -/

/-- Only the executable is written, with the embedded binary, and it is started after it was written. -/
def launchProtocol (app : App) : Protocol TrayOp TrayOp.Reply Bool where
  pre b
    | .writeFile path data => path = app.dest ∧ data = app.agentBinary
    | .start path _ => b = true ∧ path = app.dest
    | _ => True
  post b op r b' := b' = launchMark b op r

/-- Effects that neither write nor start. -/
def Quiet : TrayOp → Prop
  | .writeFile _ _ | .start _ _ => False
  | _ => True

section Programs
variable {app : App} {α β : Type} {b : Bool}

theorem quiet_mark {op : TrayOp} (hop : Quiet op) (b : Bool) (r : op.Reply) : launchMark b op r = b := by
  cases op <;> first | rfl | exact hop.elim

/-- The program follows the protocol; nothing is said of how it ends. -/
abbrev Launches (app : App) (b : Bool) (p : Goroutine α) : Prop := Follows (launchProtocol app) (fun _ _ => True) b p

theorem launches_quiet {op : TrayOp} {f : op.Reply → Goroutine α} (hop : Quiet op) (hf : ∀ r, Launches app b (f r)) :
    Launches app b (Prog.perform op >>= f) := by
  refine follows_perform_bind.mpr ⟨?_, fun r b' hb' => ?_⟩
  · cases op <;> trivial
  · obtain rfl : b' = b := hb'.trans (quiet_mark hop b r)
    exact hf r

theorem launches_one {op : TrayOp} (hop : Quiet op) : Launches app b (Prog.perform op) :=
  launches_quiet hop fun _ => trivial

theorem launches_bind {p : Goroutine α} {f : α → Goroutine β} (hp : Launches app b p)
    (hf : ∀ b a, Launches app b (f a)) : Launches app b (p >>= f) :=
  Follows.bind hp fun b' a _ => hf b' a

theorem launches_isAgentRunning : Launches app b isAgentRunning := by
  refine launches_quiet trivial fun answer => ?_
  cases answer with
  | ok status => trivial
  | error e =>
      refine launches_quiet trivial fun pid => ?_
      cases pid with
      | none => trivial
      | some pid => exact launches_one trivial

/-- The path is returned once the executable is written. -/
theorem follows_extractAgent : Follows (launchProtocol app)
    (fun b' extracted => ∀ path, extracted = .ok path → b' = true ∧ path = app.dest) b (extractAgent app) := by
  refine follows_perform_bind.mpr ⟨trivial, fun made b' _ => ?_⟩
  cases made with
  | error e =>
      intro path h
      cases h
  | ok _ =>
      refine follows_perform_bind.mpr ⟨⟨rfl, rfl⟩, fun written b'' hb'' => ?_⟩
      cases written with
      | error e =>
          intro path h
          cases h
      | ok _ =>
          intro path h
          cases h
          exact ⟨hb'', rfl⟩

theorem launches_extractAndStart {apiURL : String} {failed : String → Goroutine α}
    {started : Except String Nat → Goroutine α} (hfailed : ∀ b e, Launches app b (failed e))
    (hstarted : ∀ b r, Launches app b (started r)) :
    Launches app b (extractAgent app >>= fun extracted =>
      match extracted with
      | .error e => failed e
      | .ok path => Goroutine.start path apiURL >>= started) := by
  apply follows_extractAgent.bind
  intro b' extracted h
  cases extracted with
  | error e => exact hfailed b' e
  | ok path => exact follows_perform_bind.mpr ⟨h path rfl, fun r b'' _ => hstarted b'' r⟩

theorem launches_launch : Launches app b (launch app) := by
  refine launches_quiet trivial fun identity => ?_
  refine launches_extractAndStart (fun _ _ => trivial) fun b' started => ?_
  cases started with
  | error e => exact launches_one trivial
  | ok pid => trivial

theorem launches_autoLaunchIfRegistered : Launches app b (autoLaunchIfRegistered app) := by
  refine launches_quiet trivial fun token => ?_
  cases token with
  | error e => trivial
  | ok token =>
      show Launches app b (if token = "" then pure () else isAgentRunning >>= fun running => _)
      split_ifs
      · trivial
      · apply launches_bind launches_isAgentRunning
        intro b' running
        cases running with
        | true => trivial
        | false => exact launches_launch

theorem launches_monitorAgent (backoff : Nat) (woken : Bool) : Launches app b (monitorAgent app backoff woken) := by
  unfold monitorAgent
  cases woken with
  | true => trivial
  | false =>
      refine launches_quiet trivial fun token => ?_
      cases token with
      | error e => trivial
      | ok token =>
          show Launches app b (if token = "" then pure minBackoff else isAgentRunning >>= fun running => _)
          split_ifs
          · trivial
          · apply launches_bind launches_isAgentRunning
            intro b' running
            cases running with
            | true => trivial
            | false => exact launches_bind launches_autoLaunchIfRegistered fun _ _ => trivial

theorem launches_stopAgentByPID : Launches app b stopAgentByPID := by
  refine launches_quiet trivial fun pid => ?_
  cases pid with
  | none => trivial
  | some pid =>
      refine launches_quiet trivial fun found => ?_
      cases found with
      | error e => trivial
      | ok _ => exact launches_one trivial

theorem launches_restartAgentIfNeeded : Launches app b (restartAgentIfNeeded app) := by
  have hrestart : ∀ b, Launches app b (do stopAgentByPID; autoLaunchIfRegistered app; Goroutine.unlock) := fun b =>
    launches_bind launches_stopAgentByPID fun _ _ =>
      launches_bind launches_autoLaunchIfRegistered fun _ _ => launches_one trivial
  refine launches_quiet trivial fun locked => ?_
  cases locked with
  | false => trivial
  | true =>
      refine launches_quiet trivial fun answer => ?_
      cases answer with
      | error e => exact hrestart b
      | ok status =>
          show Launches app b (if status = 200 then Goroutine.unlock else _)
          split_ifs
          · exact launches_one trivial
          · exact hrestart b

theorem launches_register (apiURL displayName personalToken : String) :
    Launches app b (register app apiURL displayName personalToken) := by
  refine launches_quiet trivial fun registered => ?_
  rcases registered with e | ⟨agentToken, employeeID, orgID⟩
  · trivial
  · refine launches_quiet trivial fun saved => ?_
    cases saved with
    | error e => trivial
    | ok _ =>
        refine launches_quiet trivial fun identity => ?_
        cases identity with
        | error e => trivial
        | ok _ =>
            refine launches_extractAndStart (fun _ _ => trivial) fun b' started => ?_
            cases started <;> trivial

theorem launches_body (job : Job) : Launches app b (job.body app) := by
  cases job with
  | autoLaunchIfRegistered => exact launches_autoLaunchIfRegistered
  | monitorAgent backoff woken => exact launches_bind (launches_monitorAgent backoff woken) fun _ _ => trivial
  | restartAgentIfNeeded => exact launches_restartAgentIfNeeded
  | register apiURL displayName token =>
      exact launches_bind (launches_register apiURL displayName token) fun _ _ => trivial
  | _ => trivial

end Programs

/-! ## At most one -/

section Invariant
variable {ι : Type} [DecidableEq ι] {app : App} {w w' : World} {tr : List (Performed ι TrayOp TrayOp.Reply)}
  {m : ι → Bool} {i : ι} {ch : Choice}

/-- At most one agent is alive, run from the executable, or one goroutine is launching and none is. -/
structure OneInv (app : App) (w : World) (tr : List (Performed ι TrayOp TrayOp.Reply)) (m : ι → Bool) : Prop where
  mark : ∀ i, m i = launching i tr
  file : ∀ a ∈ w.agents, a.file = app.dest
  one : w.agents.length ≤ 1
  none : ∀ i, m i = true → w.agents = []
  alone : ∀ i j, m i = true → m j = true → i = j

theorem launching_concat (j : ι) (op : TrayOp) (r : op.Reply) :
    launching j (tr ++ [(i, ⟨op, r⟩)]) = if i = j then launchMark (launching j tr) op r else launching j tr := by
  unfold launching
  rw [List.foldl_append]
  rfl

theorem OneInv.marks (h : OneInv app w tr m) (op : TrayOp) (r : op.Reply) (j : ι) :
    update m i (launchMark (m i) op r) j = launching j (tr ++ [(i, ⟨op, r⟩)]) := by
  rw [launching_concat]
  by_cases hj : i = j
  · subst hj
    rw [Function.update_self, if_pos rfl, h.mark]
  · rw [Function.update_of_ne (Ne.symm hj), if_neg hj, h.mark]

/-- The agents are some of those there were, maybe changed, and each runs from the same file. -/
def Fewer (w w' : World) : Prop := w'.agents.length ≤ w.agents.length ∧ ∀ a ∈ w'.agents, ∃ b ∈ w.agents, a.file = b.file

theorem fewer_of_agents (h : w'.agents = w.agents) : Fewer w w' :=
  ⟨h ▸ le_rfl, fun a ha => ⟨a, h ▸ ha, rfl⟩⟩

theorem fewer_kill (w : World) (pid : Nat) : Fewer w (w.kill pid) :=
  ⟨List.length_filter_le _ _, fun a ha => ⟨a, (List.mem_filter.mp ha).1, rfl⟩⟩

theorem fewer_listens (w : World) (pid : Nat) : Fewer w (w.modify pid fun a => { a with listening := true }) := by
  refine ⟨by simp [World.modify], fun a ha => ?_⟩
  obtain ⟨b, hb, rfl⟩ := List.mem_map.mp ha
  refine ⟨b, hb, ?_⟩
  split_ifs <;> rfl

theorem Fewer.nil (h : Fewer w w') (hnil : w.agents = []) : w'.agents = [] := by
  have hlength := h.1
  rw [hnil] at hlength
  exact List.eq_nil_of_length_eq_zero (Nat.le_zero.mp hlength)

theorem OneInv.fewer {tr' : List (Performed ι TrayOp TrayOp.Reply)} {m' : ι → Bool} (h : OneInv app w tr m)
    (hfewer : Fewer w w') (hmark : ∀ j, m' j = launching j tr') (hm : ∀ j, m' j = true → m j = true) :
    OneInv app w' tr' m' where
  mark := hmark
  file a ha := by
    obtain ⟨b, hb, hfile⟩ := hfewer.2 a ha
    exact hfile.trans (h.file b hb)
  one := hfewer.1.trans h.one
  none j hj := hfewer.nil (h.none j (hm j hj))
  alone j k hj hk := h.alone j k (hm j hj) (hm k hk)

theorem fewer_exec {op : TrayOp} {r : op.Reply} (hop : ∀ path apiURL, op ≠ .start path apiURL)
    (hexec : exec ch op w = some (r, w')) : Fewer w w' := by
  cases op with
  | start path apiURL => exact absurd rfl (hop path apiURL)
  | terminate pid =>
      cases hexec
      split_ifs
      · exact fewer_kill w pid
      · exact fewer_of_agents rfl
  | saveToken _ | saveIdentity _ _ _ | readPID =>
      simp only [exec] at hexec
      split at hexec <;> cases hexec <;> exact fewer_of_agents rfl
  | writeFile path data =>
      simp only [exec] at hexec
      split_ifs at hexec
      · cases hexec
        exact fewer_of_agents rfl
      · split at hexec <;> cases hexec <;> exact fewer_of_agents rfl
  | _ =>
      cases hexec
      exact fewer_of_agents rfl

theorem OneInv.no_agents {path : String} {data : Bytes} (h : OneInv app w tr m) (hpath : path = app.dest)
    (hexec : exec ch (.writeFile path data) w = some (.ok (), w')) : w'.agents = [] ∧ ch.fs = .ok := by
  simp only [exec] at hexec
  split_ifs at hexec with hrunning
  · cases hexec
  · split at hexec
    all_goals cases hexec
    refine ⟨?_, ‹_›⟩
    by_contra hne
    obtain ⟨a, ha⟩ := List.exists_mem_of_ne_nil _ hne
    exact hrunning (List.any_eq_true.mpr ⟨a, ha, decide_eq_true ((h.file a ha).trans hpath.symm)⟩)

theorem OneInv.write {path : String} {data : Bytes} {r : Except String Unit} (h : OneInv app w tr m)
    (hpath : path = app.dest) (halone : ch.fs = .ok → ∀ j, j ≠ i → launching j tr = false)
    (hexec : exec ch (.writeFile path data) w = some (r, w')) :
    OneInv app w' (tr ++ [(i, ⟨.writeFile path data, r⟩)])
      (update m i (launchMark (m i) (.writeFile path data) r)) := by
  cases r with
  | error e =>
      refine h.fewer (fewer_exec (fun _ _ hop => by cases hop) hexec) (h.marks _ _) fun j hj => ?_
      have hsame : launchMark (m i) (.writeFile path data) (.error e) = m i := rfl
      rwa [hsame, Function.update_eq_self] at hj
  | ok _ =>
      obtain ⟨hnil, hok⟩ := h.no_agents hpath hexec
      have hothers : ∀ j, j ≠ i → m j = false := fun j hj => (h.mark j).trans (halone hok j hj)
      refine ⟨h.marks _ _, ?_, ?_, fun _ _ => hnil, fun j k hj hk => ?_⟩
      · rw [hnil]
        exact fun a ha => absurd ha List.not_mem_nil
      · rw [hnil]
        exact Nat.zero_le 1
      · refine exclusive_update (fun b (_ : Unit) => b = true) (fun a b _ => h.alone a b) ?_ j k () hj hk
        intro _ _ l hl hml
        rw [hothers l hl] at hml
        cases hml

theorem OneInv.start {path apiURL : String} {r : Except String Nat} (h : OneInv app w tr m) (hm : m i = true)
    (hpath : path = app.dest) (hexec : exec ch (.start path apiURL) w = some (r, w')) :
    OneInv app w' (tr ++ [(i, ⟨.start path apiURL, r⟩)]) (update m i (launchMark (m i) (.start path apiURL) r)) := by
  have hnil := h.none i hm
  have hlaunching : ∀ j, update m i (launchMark (m i) (.start path apiURL) r) j = true → False := by
    intro j hj
    by_cases hij : j = i
    · subst hij
      rw [Function.update_self] at hj
      cases hj
    · rw [Function.update_of_ne hij] at hj
      exact hij (h.alone j i hj hm)
  have hagents : w'.agents = [] ∨ ∃ a, w'.agents = [a] ∧ a.file = path := by
    simp only [exec] at hexec
    split at hexec
    all_goals cases hexec
    · exact Or.inr ⟨_, congrArg _ hnil, rfl⟩
    · exact Or.inl hnil
    · exact Or.inl hnil
  refine ⟨h.marks _ _, ?_, ?_, fun j hj => (hlaunching j hj).elim, fun j _ hj => (hlaunching j hj).elim⟩
  · intro a ha
    rcases hagents with hnone | ⟨b, hb, hfile⟩
    · rw [hnone] at ha
      exact absurd ha List.not_mem_nil
    · rw [hb] at ha
      rw [List.mem_singleton.mp ha, hfile, hpath]
  · rcases hagents with hnone | ⟨b, hb, -⟩
    · rw [hnone]
      exact Nat.zero_le 1
    · rw [hb]
      exact le_rfl

/-- **One effect.** -/
theorem OneInv.step {op : TrayOp} {r : op.Reply} (h : OneInv app w tr m) (hpre : (launchProtocol app).pre (m i) op)
    (halone : op.writes = true → ch.fs = .ok → ∀ j, j ≠ i → launching j tr = false)
    (hexec : exec ch op w = some (r, w')) :
    OneInv app w' (tr ++ [(i, ⟨op, r⟩)]) (update m i (launchMark (m i) op r)) := by
  have hquiet : Quiet op → OneInv app w' (tr ++ [(i, ⟨op, r⟩)]) (update m i (launchMark (m i) op r)) := by
    intro hop
    refine h.fewer (fewer_exec ?_ hexec) (h.marks op r) fun j hj => ?_
    · rintro path apiURL rfl
      exact hop
    · rwa [quiet_mark hop, Function.update_eq_self] at hj
  cases op with
  | writeFile path data => exact h.write hpre.1 (halone rfl) hexec
  | start path apiURL => exact h.start hpre.1 hpre.2 hexec
  | _ => exact hquiet trivial

theorem fewer_admits {job : Job} (h : job.admits w = some w') : Fewer w w' := by
  cases job with
  | writesPID pid =>
      simp only [Job.admits] at h
      split_ifs at h
      cases h
      exact fewer_of_agents rfl
  | listens pid =>
      simp only [Job.admits] at h
      split_ifs at h
      cases h
      exact fewer_listens w pid
  | crashes pid =>
      simp only [Job.admits] at h
      split_ifs at h
      cases h
      exact fewer_kill w pid
  | quits pid =>
      simp only [Job.admits] at h
      split_ifs at h
      cases h
      exact fewer_kill w pid
  | _ =>
      cases h
      exact fewer_of_agents rfl

end Invariant

/-! ## Runs -/

section Runs
variable {ι : Type} [DecidableEq ι] {app : App} {w : World} {c : Config ι TrayOp TrayOp.Reply World}

/-- No agent, or one that was started from the executable. -/
structure World.Fit (app : App) (w : World) : Prop where
  one : w.agents.length ≤ 1
  file : ∀ a ∈ w.agents, a.file = app.dest

theorem oneInv_of_reaches (hw : w.Fit app) (h : Reaches (tray app) Alone (Config.start w) c) :
    ∃ m : ι → Bool, OneInv app c.world c.trace m ∧ ∀ i, Launches app (m i) (c.thread i) := by
  refine Reaches.inv (P := launchProtocol app) (F := fun _ => True) (OneInv app) ?_ ?_ ?_ h
  · exact ⟨fun _ => false, ⟨fun _ => rfl, hw.file, hw.one, fun _ hm => (by cases hm), fun _ _ hm => (by cases hm)⟩,
      fun _ => trivial⟩
  · intro c m i job w' hI _ _ hadmits
    refine ⟨m i, ?_, launches_body job⟩
    rw [Function.update_eq_self]
    exact hI.fewer (fewer_admits hadmits) hI.mark fun _ hj => hj
  · intro c m i ch op k r w' hI hG hop hpre hexec
    have hperf := Config.performs_step (J := Job) hop ch
    exact ⟨launchMark (m i) op r, rfl, hI.step hpre (hG _ hperf) hexec⟩

/-- **One agent.** From a tray without an agent, or with one, in every run in which the executable is not written while
another goroutine is between its write and its start, at most one agent is alive. -/
theorem one_agent (hw : w.Fit app) (h : Reaches (tray app) Alone (Config.start w) c) :
    c.world.agents.length ≤ 1 := by
  obtain ⟨m, hinv, -⟩ := oneInv_of_reaches hw h
  exact hinv.one

end Runs

/-- A tray that is registered, with no agent, and a file where it is extracted to. -/
def registered : World where
  fs := ⟨"C:\\timechamp-agent.exe", fun _ => none⟩
  agents := []
  nextPID := 100
  pidFile := some 42
  token := "00000000-0000-4000-8000-000000000001"
  identity := "https://api.timechamp.io"
  restartMu := false

def trayApp : App := ⟨[77, 90], "C:", "https://api.timechamp.io"⟩

/-- The goroutine of `monitorAgent` and one that a resume starts. -/
inductive Goroutines where
  | monitor
  | resume
deriving DecidableEq

instance : Fintype Goroutines where
  elems := ⟨([.monitor, .resume] : List Goroutines), by decide⟩
  complete g := by cases g <;> decide

abbrev Schedule := List (Act Goroutines Choice Job)

/-- A resume and a crash of the agent it launched, which the monitor finds gone. -/
def resumeThenCrash : Schedule :=
  (.call .resume .restartAgentIfNeeded :: List.replicate 13 (.step .resume {}) : Schedule) ++
    ([.call .resume (.writesPID 100), .call .resume (.listens 100), .call .resume (.crashes 100),
      .call .monitor (.monitorAgent 10 false)] : Schedule) ++ (List.replicate 12 (.step .monitor {}) : Schedule)

theorem one_agent_resumeThenCrash :
    registered.agents = [] ∧
      ((tray trayApp).endOf (Config.start registered) resumeThenCrash).world.agents.length ≤ 1 :=
  ⟨rfl, one_agent ⟨by decide, by decide⟩ (reaches_endOf (by decide +kernel) (by decide +kernel))⟩

/-- The timer of the monitor fires as the system resumes: both check, both write, then both start. -/
def resumeAndTimer : Schedule :=
  ([.call .resume .restartAgentIfNeeded, .call .monitor (.monitorAgent 10 false)] : Schedule) ++
    (List.replicate 11 (.step .resume {}) : Schedule) ++ (List.replicate 11 (.step .monitor {}) : Schedule) ++
    ([.step .resume {}, .step .monitor {}] : Schedule)

/-- Two agents are alive. -/
theorem two_agents :
    ∃ c : Config Goroutines TrayOp TrayOp.Reply World,
      Reaches (tray trayApp) (fun _ _ => True) (Config.start registered) c ∧ registered.agents = [] ∧
      ¬ c.world.agents.length ≤ 1 :=
  ⟨(tray trayApp).endOf (Config.start registered) resumeAndTimer, reaches_endOf ((tray trayApp).allowed_true _ _)
    (by decide +kernel), rfl, by decide +kernel⟩

end TimeChamp.Tray
