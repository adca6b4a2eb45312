import Mathlib.Data.List.Lex
import TimeChamp.Tray.OneAgent
import TimeChamp.Updater.Replace
import TimeChamp.Updater.Supervisors

/-!
# What is started after an update

Watchdog, tray and any number of agents share one executable path. An agent that updates itself puts a release there
that it has downloaded, or the binary back that it took away; the tray puts the binary there that is embedded in it.

* `Kept` : what was started after an update is at least as new as it, and the watchdog has not stopped;
* `Newer`, `OnWatch` : the embedded binary and the staged release are at least as new as every binary that an update
  has put at the path; the watchdog finds no agent that ended with status 0 in a run with a complete update;
* `supProtocol`, `supervised_body` : what each program may do, by its role;
* `Exclusive` : **while the updater of a living agent has the executable renamed, no other has**, as that agent runs
  from it;
* `releases_installed` : **what updates put at the path was downloaded and verified**;
* `versions_kept` : **in every run of such steps all of it is kept**.
-/

namespace TimeChamp.Updater.Supervisors
open TimeChamp.Lib
open Function (update)

/-! ## What is kept -/

section Conditions
variable {β : Type} [Preorder β] (setup : Setup) (rank : String → β)

/-- A binary is at least as new as another. -/
def Setup.AtLeast (data image : Bytes) : Prop := rank (setup.version data) ≤ rank (setup.version image)

/-- A binary started after an update is at least as new. -/
def InOrder : Event → Event → Prop
  | .updated data, .started _ image => setup.AtLeast rank data image
  | _, _ => True

structure Kept (history : List Event) : Prop where
  newer : history.Pairwise (InOrder setup rank)
  watching : ∀ data, .updated data ∈ history → .stopped ∉ history

/-! ## When -/

/-- What a write leaves in the file. -/
def written (fs : FsOutcome) (data : Bytes) : Option Bytes :=
  match fs with
  | .ok => some data
  | .failed => none
  | .cut n => some (data.take n)

/-- What comes to the path: what is written of the binary embedded in the tray, or the release that is staged. -/
def supplied (ch : Choice) (w : World) : SupOp → Option Bytes
  | .tray (.writeFile dst _) => if w.tray.running dst = false then written ch.tray.fs setup.app.agentBinary else none
  | .agent _ (.rename src dst) =>
    if src = setup.app.dest ++ ".update" ∧ w.tray.running dst = false ∧ ch.agent.fs = .ok then w.files src else none
  | _ => none

/-- The process that an effect waits for. -/
def SupOp.waits : SupOp → Option Nat
  | .wait pid => some pid
  | _ => none

/-- The agent ends with status 0 after an update. -/
def SupOp.completes (w : World) : SupOp → Bool
  | .agent pid (.exit code) => code == 0 && (w.installs.lookup pid).isSome
  | _ => false

def World.updated (w : World) : Bool := w.history.any fun
  | .updated _ => true
  | _ => false

variable {ι : Type} [DecidableEq ι]

/-- The watchdog found that its agent ended with status 0. -/
def found : Performed ι SupOp SupOp.Reply → Bool
  | (_, ⟨.wait _, .ok _⟩) => true
  | _ => false

variable (c : Lib.Config ι SupOp SupOp.Reply World) (a : Act ι Choice Job)

/-- What comes to the path is at least as new as every binary that an update has put there. -/
def Newer : Prop :=
  ∀ p ∈ c.performs a, ∀ image ∈ supplied setup p.1 c.world p.2, ∀ i ∈ c.world.installs,
    setup.AtLeast rank i.2 image

/-- No update is complete when the watchdog finds that its agent ended with status 0, and none is completed later. -/
def OnWatch : Prop :=
  ∀ p ∈ c.performs a, (∀ pid ∈ p.2.waits, c.world.ended.lookup pid = some 0 → c.world.updated = false) ∧
    (p.2.completes c.world = true → c.trace.any found = false)

instance [DecidableLE β] (data image : Bytes) : Decidable (setup.AtLeast rank data image) :=
  inferInstanceAs (Decidable (rank (setup.version data) ≤ rank (setup.version image)))

instance [DecidableLE β] : Decidable (Newer setup rank c a) :=
  inferInstanceAs (Decidable (∀ p ∈ c.performs a, ∀ image ∈ supplied setup p.1 c.world p.2,
    ∀ i ∈ c.world.installs, setup.AtLeast rank i.2 image))

instance : Decidable (OnWatch c a) :=
  inferInstanceAs (Decidable (∀ p ∈ c.performs a,
    (∀ pid ∈ p.2.waits, c.world.ended.lookup pid = some 0 → c.world.updated = false) ∧
      (p.2.completes c.world = true → c.trace.any found = false)))

end Conditions

/-! ## The programs follow the protocol -/

/-- What a goroutine is: one of watchdog and tray, with a wait that has found an agent ended with status 0 or without,
or the updater of a process. -/
inductive Role where
  | supervising (stopping : Bool)
  | updating (pid : Nat) (mode : Mode)

def Role.next : Role → (op : SupOp) → op.Reply → Role
  | .supervising _, .wait _, .ok _ => .supervising true
  | .updating pid mode, .agent _ op, r => .updating pid (mode.next op r)
  | role, _, _ => role

/-- The key of the updates; the version is not read. -/
def Setup.config (setup : Setup) : Config := ⟨"", "timechamp/agent", setup.publicKeyPEM⟩

/-- What watchdog and tray do: they start agents from the path, and write the embedded binary there. -/
def Permitted (setup : Setup) : SupOp → Prop
  | .tray (.start dst _) | .startAgent dst => dst = setup.app.dest
  | .tray (.writeFile dst data) => dst = setup.app.dest ∧ data = setup.app.agentBinary
  | .agent _ _ => False
  | _ => True

/-- The watchdog stops once a wait found its agent ended with status 0; an update goes on as it does alone. -/
def supProtocol (setup : Setup) : Protocol SupOp SupOp.Reply Role where
  pre
    | .supervising stopping, op => Permitted setup op ∧ (op = .stop → stopping = true)
    | .updating pid mode, .agent pid' op => pid' = pid ∧ (protocol setup.ec setup.config setup.app.dest).pre mode op
    | .updating _ _, _ => False
  post role op r role' := role' = role.next op r ∧
    match op, r with
    | .agent _ op, r => Located setup.app.dest op r
    | _, _ => True

section Programs
variable {setup : Setup} {stopping : Bool} {α : Type}

abbrev Supervised (setup : Setup) (role : Role) (p : Prog SupOp SupOp.Reply α) : Prop :=
  Follows (supProtocol setup) (fun _ _ => True) role p

/-- The role after an effect of watchdog or tray. -/
theorem supervising_next (op : SupOp) (r : op.Reply) (stopping : Bool) :
    ∃ stopping', (Role.supervising stopping).next op r = .supervising stopping' := by
  unfold Role.next
  split
  · exact ⟨true, rfl⟩
  · rename_i heq
    cases heq
  · exact ⟨stopping, rfl⟩

theorem supervised_permitted {p : Program α} (h : Performs (fun op => Permitted setup op ∧ op ≠ .stop) p) :
    Supervised setup (.supervising stopping) p := by
  refine (h.follows (F := fun role => ∃ b, role = .supervising b) ?_ ⟨stopping, rfl⟩).mono fun _ _ _ => trivial
  rintro _ op ⟨b, rfl⟩ ⟨hop, hstop⟩
  exact ⟨⟨hop, fun heq => absurd heq hstop⟩, fun r role hpost => hpost.1 ▸ supervising_next op r b⟩

theorem supervised_perform {op : SupOp} {f : op.Reply → Program α} (hop : Permitted setup op) (hstop : op ≠ .stop)
    (hf : ∀ r stopping, Supervised setup (.supervising stopping) (f r)) :
    Supervised setup (.supervising stopping) (Prog.perform op >>= f) := by
  refine follows_perform_bind.mpr ⟨⟨hop, fun heq => absurd heq hstop⟩, fun r role hpost => ?_⟩
  obtain ⟨b, hnext⟩ := supervising_next op r stopping
  rw [hpost.1, hnext]
  exact hf r b

theorem supervised_runWatchdogLoop (rounds crashes : Nat) (firstCrash : Int) :
    Supervised setup (.supervising stopping) (runWatchdogLoop setup.app.dest rounds crashes firstCrash) := by
  induction rounds generalizing stopping crashes firstCrash with
  | zero => trivial
  | succ rounds ih =>
      refine supervised_perform rfl (by simp) fun started b => ?_
      cases started with
      | error e => exact supervised_perform trivial (by simp) fun _ _ => ih _ _
      | ok pid =>
          refine follows_perform_bind.mpr ⟨⟨trivial, fun h => (by cases h)⟩, fun exited role hpost => ?_⟩
          cases exited with
          | ok _ =>
              -- the only way to the end of the loop
              obtain ⟨rfl, -⟩ := hpost
              exact ⟨⟨trivial, fun _ => rfl⟩, fun _ _ _ => trivial⟩
          | error e =>
              obtain ⟨rfl, -⟩ := hpost
              refine supervised_perform trivial (by simp) fun now b => ?_
              dsimp only
              split_ifs
              all_goals exact supervised_perform trivial (by simp) fun _ _ => ih _ _

theorem supervised_tray (job : Tray.Job) :
    Supervised setup (.supervising stopping) ((job.body setup.app).embed SupOp.tray fun _ r => r) := by
  have hperforms : Performs (fun op => Permitted setup (.tray op) ∧ SupOp.tray op ≠ .stop) (job.body setup.app) := by
    refine (Tray.launches_body (b := false) job).performs (fun b op hop => ⟨?_, by simp⟩) fun b op r => ⟨_, rfl⟩
    cases op with
    | start dst apiURL => exact hop.2
    | writeFile dst data => exact hop
    | _ => trivial
  exact supervised_permitted hperforms.embed

theorem supervised_update (pid : Nat) (currentVersion : String) :
    Supervised setup (.updating pid (.intact [])) ((Job.update pid currentVersion).body setup) := by
  apply Follows.embed (Role.updating pid) follows_autoUpdate
  · exact fun mode op hop => ⟨rfl, hop⟩
  · rintro mode op r _ ⟨rfl, hlocated⟩
    exact ⟨mode.next op r, rfl, rfl, hlocated⟩
  · exact fun _ _ _ => trivial

/-- The role of a job that begins. -/
def Job.role : Job → Role
  | .watchdog _ | .tray _ => .supervising false
  | .update pid _ => .updating pid (.intact [])

theorem supervised_body (job : Job) : Supervised setup job.role (job.body setup) := by
  cases job with
  | watchdog rounds => exact supervised_runWatchdogLoop rounds 0 0
  | tray job => exact supervised_tray job
  | update pid currentVersion => exact supervised_update pid currentVersion

end Programs

/-! ## One effect -/

section Effects
variable {setup : Setup} {w w' : World}

/-- A file set, or removed. -/
def World.setFile (w : World) (path : String) (content : Option Bytes) : World :=
  { w with tray := { w.tray with fs := w.tray.fs.set path content } }

theorem files_setFile (w : World) (dst : String) (content : Option Bytes) (path : String) :
    (w.setFile dst content).files path = if path = dst then content else w.files path := rfl

/-- A rename by the updater of a process. -/
abbrev World.moved (w : World) (pid : Nat) (src dst : String) (content : Bytes) : World :=
  w.renamed pid src dst ((w.tray.fs.set src none).set dst (some content))

theorem files_moved (w : World) (pid : Nat) (src dst : String) (content : Bytes) (path : String) :
    (w.moved pid src dst content).files path =
      if path = dst then some content else if path = src then none else w.files path := rfl

theorem installs_moved (w : World) (pid : Nat) (src dst : String) (content : Bytes) :
    (w.moved pid src dst content).installs =
      if dst = w.tray.fs.exePath ∧ src = w.tray.fs.exePath ++ ".update" then (pid, content) :: w.installs
      else w.installs := by
  simp only [World.renamed, Updater.World.set_files_self]

/-- What an effect of an agent does. -/
inductive AgentEffect (ch : Updater.Choice) (pid : Nat) (w : World) : (op : Updater.Op) → op.Reply → World → Prop
  | same {op : Updater.Op} {r : op.Reply} (hrename : ∀ src dst, op ≠ .rename src dst)
      (hwrite : ∀ dst data, op ≠ .writeFile dst data) : AgentEffect ch pid w op r w
  | stays {src dst e : String} : AgentEffect ch pid w (.rename src dst) (.error e) w
  | refused {dst : String} {data : Bytes} {e : String} : AgentEffect ch pid w (.writeFile dst data) (.error e) w
  | writes {dst : String} {data content : Bytes} {r : Except String Unit}
      (hcontent : written ch.fs data = some content) :
      AgentEffect ch pid w (.writeFile dst data) r (w.setFile dst (some content))
  | removes {dst : String} {r : Except String Unit} (hrunning : w.tray.running dst = false) :
      AgentEffect ch pid w (.remove dst) r (w.setFile dst none)
  | renames {src dst : String} {content : Bytes} (hrunning : w.tray.running dst = false) (hok : ch.fs = .ok)
      (hsrc : w.files src = some content) :
      AgentEffect ch pid w (.rename src dst) (.ok ()) (w.moved pid src dst content)
  | exits {code : Nat} : AgentEffect ch pid w (.exit code) () (w.exits pid code)

theorem agentEffect_renamed {ch : Updater.Choice} {pid : Nat} {src dst : String} {fs : Updater.World}
    (hrunning : w.tray.running dst = false) (h : Updater.exec ch (.rename src dst) w.tray.fs = some (.ok (), fs)) :
    AgentEffect ch pid w (.rename src dst) (.ok ()) (w.renamed pid src dst fs) := by
  simp only [Updater.exec, Updater.World.rename] at h
  split at h
  next hok =>
    split at h
    next => cases h
    next content hsrc =>
      cases h
      exact .renames hrunning hok hsrc
  next => cases h
  next => cases h

theorem agentEffect_writeFile {ch : Updater.Choice} {pid : Nat} {dst : String} {data : Bytes} {r : Except String Unit}
    {fs : Updater.World} (h : Updater.exec ch (.writeFile dst data) w.tray.fs = some (r, fs)) :
    AgentEffect ch pid w (.writeFile dst data) r { w with tray := { w.tray with fs := fs } } := by
  simp only [Updater.exec] at h
  split at h
  next hok =>
    cases h
    exact .writes (by simp [written, hok])
  next =>
    cases h
    exact .refused
  next n hcut =>
    cases h
    exact .writes (by simp [written, hcut])

theorem agentEffect_remove {ch : Updater.Choice} {pid : Nat} {dst : String} {r : Except String Unit}
    {fs : Updater.World} (hrunning : w.tray.running dst = false)
    (h : Updater.exec ch (.remove dst) w.tray.fs = some (r, fs)) :
    AgentEffect ch pid w (.remove dst) r { w with tray := { w.tray with fs := fs } } := by
  simp only [Updater.exec] at h
  split at h <;> cases h
  · exact .removes hrunning
  · exact .same (by simp) (by simp)
  · exact .same (by simp) (by simp)

/-- **What an agent does**, while it is alive. -/
theorem agentEffect_of_exec {ch : Updater.Choice} {pid : Nat} {op : Updater.Op} {r : op.Reply}
    (h : execAgent pid ch op w = some (r, w')) : w.tray.alive pid = true ∧ AgentEffect ch pid w op r w' := by
  unfold execAgent at h
  split_ifs at h with halive
  refine ⟨halive, ?_⟩
  cases op with
  | rename src dst =>
      dsimp only at h
      split_ifs at h with hrunning
      · cases h
        exact .stays
      · split at h
        next hexec =>
          cases h
          exact agentEffect_renamed (by simpa using hrunning) hexec
        next =>
          cases h
          exact .stays
        next => cases h
  | writeFile dst data =>
      dsimp only at h
      split_ifs at h with hrunning
      · cases h
        exact .refused
      · obtain ⟨⟨r', fs⟩, hexec, heq⟩ := Option.map_eq_some_iff.mp h
        cases heq
        exact agentEffect_writeFile hexec
  | remove dst =>
      dsimp only at h
      split_ifs at h with hrunning
      · cases h
        exact .same (by simp) (by simp)
      · obtain ⟨⟨r', fs⟩, hexec, heq⟩ := Option.map_eq_some_iff.mp h
        cases heq
        exact agentEffect_remove (by simpa using hrunning) hexec
  | exit code =>
      cases h
      exact .exits
  | evalSymlinks dst =>
      simp only [Updater.exec] at h
      split at h <;> cases h <;> exact .same (by simp) (by simp)
  | _ =>
      cases h
      exact .same (by simp) (by simp)

theorem located_of_execAgent {ch : Updater.Choice} {pid : Nat} {op : Updater.Op} {r : op.Reply}
    (hpath : w.tray.fs.exePath = setup.app.dest) (h : execAgent pid ch op w = some (r, w')) :
    Located setup.app.dest op r := by
  cases op with
  | evalSymlinks path =>
      unfold execAgent at h
      split_ifs at h
      obtain ⟨⟨r', fs⟩, hexec, heq⟩ := Option.map_eq_some_iff.mp h
      cases heq
      exact located_of_exec hpath hexec
  | _ => trivial

/-- Each process is one of those there were, or a new one that runs from the path. -/
def Descends (path : String) (t t' : Tray.World) : Prop :=
  t.nextPID ≤ t'.nextPID ∧ ∀ a ∈ t'.agents, (∃ b ∈ t.agents, a.pid = b.pid ∧ a.file = b.file) ∨
    a.pid = t.nextPID ∧ t.nextPID < t'.nextPID ∧ a.file = path

theorem descends_of_agents {path : String} {t t' : Tray.World} (hagents : t'.agents = t.agents)
    (hnext : t'.nextPID = t.nextPID) : Descends path t t' :=
  ⟨hnext.ge, fun a ha => Or.inl ⟨a, hagents ▸ ha, rfl, rfl⟩⟩

theorem descends_kill {path : String} (t : Tray.World) (pid : Nat) : Descends path t (t.kill pid) :=
  ⟨Nat.le_refl _, fun a ha => Or.inl ⟨a, (List.mem_filter.mp ha).1, rfl, rfl⟩⟩

/-- Why an event joins the history. -/
def Justified (setup : Setup) (op : SupOp) (w : World) : Event → Prop
  | .updated data => op.completes w = true ∧ ∃ pid, (pid, data) ∈ w.installs
  | .started _ image => w.files setup.app.dest = some image
  | .stopped => op = .stop

/-- What an effect of watchdog or tray does. -/
structure Supervises (setup : Setup) (ch : Choice) (op : SupOp) (w w' : World) : Prop where
  files : w'.tray.fs = w.tray.fs ∨ ∃ content, supplied setup ch w op = some content ∧
    w'.tray.fs = w.tray.fs.set setup.app.dest (some content)
  agents : Descends setup.app.dest w.tray w'.tray
  installs : w'.installs = w.installs
  history : w'.history = w.history ∨ ∃ e, w'.history = w.history ++ [e] ∧ Justified setup op w e

/-- An effect that leaves the files and the processes alone. -/
theorem Supervises.of_tray {ch : Choice} {op : SupOp} (htray : w'.tray = w.tray) (hinstalls : w'.installs = w.installs)
    (hhistory : w'.history = w.history ∨ ∃ e, w'.history = w.history ++ [e] ∧ Justified setup op w e) :
    Supervises setup ch op w w' where
  files := Or.inl (by rw [htray])
  agents := by
    rw [htray]
    exact descends_of_agents rfl rfl
  installs := hinstalls
  history := hhistory

theorem supervises_starts {ch : Choice} {op : SupOp} {starter : Starter} {apiURL : String} {r : Except String Nat}
    {t : Tray.World} (h : Tray.exec ch.tray (.start setup.app.dest apiURL) w.tray = some (r, t)) :
    Supervises setup ch op w (w.starts starter setup.app.dest r t) := by
  simp only [Tray.exec] at h
  split at h
  next image _ hfile =>
    obtain ⟨rfl, rfl⟩ := Prod.mk.inj (Option.some.inj h)
    have hthere : w.files setup.app.dest = some image := hfile
    refine ⟨Or.inl rfl, ⟨Nat.le_succ _, fun a ha => ?_⟩, rfl, Or.inr ⟨.started starter image, ?_, hthere⟩⟩
    · rcases List.mem_cons.mp ha with rfl | ha
      · exact Or.inr ⟨rfl, Nat.lt_succ_self _, rfl⟩
      · exact Or.inl ⟨a, ha, rfl, rfl⟩
    · simp only [World.starts, hthere]
  next =>
    obtain ⟨rfl, rfl⟩ := Prod.mk.inj (Option.some.inj h)
    exact Supervises.of_tray rfl rfl (Or.inl rfl)
  next =>
    obtain ⟨rfl, rfl⟩ := Prod.mk.inj (Option.some.inj h)
    exact Supervises.of_tray rfl rfl (Or.inl rfl)

theorem supervises_writeFile {ch : Choice} {r : Except String Unit} {t : Tray.World}
    (h : Tray.exec ch.tray (.writeFile setup.app.dest setup.app.agentBinary) w.tray = some (r, t)) :
    Supervises setup ch (.tray (.writeFile setup.app.dest setup.app.agentBinary)) w { w with tray := t } := by
  have hsame : ∀ {op : SupOp}, Supervises setup ch op w { w with tray := w.tray } :=
    Supervises.of_tray rfl rfl (Or.inl rfl)
  have hset : ∀ content, w.tray.running setup.app.dest = false →
      written ch.tray.fs setup.app.agentBinary = some content →
      Supervises setup ch (.tray (.writeFile setup.app.dest setup.app.agentBinary)) w
        { w with tray := { w.tray with fs := w.tray.fs.set setup.app.dest (some content) } } :=
    fun content hrunning hcontent =>
      ⟨Or.inr ⟨content, (if_pos hrunning).trans hcontent, rfl⟩, descends_of_agents rfl rfl, rfl, Or.inl rfl⟩
  simp only [Tray.exec] at h
  split_ifs at h with hrunning
  · cases h
    exact hsame
  · have hnot : w.tray.running setup.app.dest = false := by simpa using hrunning
    cases hfs : ch.tray.fs with
    | ok =>
        rw [hfs] at h
        cases h
        exact hset _ hnot (by rw [hfs]; rfl)
    | failed =>
        rw [hfs] at h
        cases h
        exact hsame
    | cut n =>
        rw [hfs] at h
        cases h
        exact hset _ hnot (by rw [hfs]; rfl)

theorem supervises_tray {ch : Choice} {op : Tray.TrayOp} {r : op.Reply} {t : Tray.World}
    (hop : Permitted setup (.tray op)) (hstart : ∀ dst apiURL, op ≠ .start dst apiURL)
    (h : Tray.exec ch.tray op w.tray = some (r, t)) : Supervises setup ch (.tray op) w { w with tray := t } := by
  have hquiet : t.fs = w.tray.fs → t.agents = w.tray.agents → t.nextPID = w.tray.nextPID →
      Supervises setup ch (.tray op) w { w with tray := t } := fun hfs hagents hnext =>
    ⟨Or.inl hfs, descends_of_agents hagents hnext, rfl, Or.inl rfl⟩
  cases op with
  | start dst apiURL => exact absurd rfl (hstart dst apiURL)
  | writeFile dst data =>
      obtain ⟨rfl, rfl⟩ := hop
      exact supervises_writeFile h
  | terminate pid =>
      simp only [Tray.exec] at h
      split_ifs at h <;> cases h
      · exact ⟨Or.inl rfl, descends_kill _ _, rfl, Or.inl rfl⟩
      · exact hquiet rfl rfl rfl
  | saveToken _ | saveIdentity _ _ _ | readPID =>
      simp only [Tray.exec] at h
      split at h <;> cases h <;> exact hquiet rfl rfl rfl
  | _ =>
      cases h
      exact hquiet rfl rfl rfl

/-- **What watchdog and tray do.** -/
theorem supervises_of_exec {ch : Choice} {op : SupOp} {r : op.Reply} (hop : Permitted setup op)
    (h : exec ch op w = some (r, w')) : Supervises setup ch op w w' := by
  cases op with
  | tray op =>
      by_cases hstart : ∃ dst apiURL, op = .start dst apiURL
      · obtain ⟨dst, apiURL, rfl⟩ := hstart
        obtain rfl : dst = setup.app.dest := hop
        obtain ⟨⟨r', t⟩, ht, heq⟩ := Option.map_eq_some_iff.mp h
        cases heq
        exact supervises_starts ht
      · have hmap : exec ch (.tray op) w =
            (Tray.exec ch.tray op w.tray).map fun r => (r.1, { w with tray := r.2 }) := by
          cases op <;> first | rfl | exact absurd ⟨_, _, rfl⟩ hstart
        rw [hmap] at h
        obtain ⟨⟨r', t⟩, ht, heq⟩ := Option.map_eq_some_iff.mp h
        cases heq
        exact supervises_tray hop (fun dst apiURL heq => hstart ⟨dst, apiURL, heq⟩) ht
  | agent pid op => exact hop.elim
  | startAgent dst =>
      obtain rfl : dst = setup.app.dest := hop
      obtain ⟨⟨r', t⟩, ht, heq⟩ := Option.map_eq_some_iff.mp h
      cases heq
      exact supervises_starts ht
  | wait pid =>
      simp only [exec] at h
      split_ifs at h <;> cases h <;> exact Supervises.of_tray rfl rfl (Or.inl rfl)
  | now =>
      cases h
      exact Supervises.of_tray rfl rfl (Or.inl rfl)
  | sleep duration =>
      cases h
      exact Supervises.of_tray rfl rfl (Or.inl rfl)
  | stop =>
      cases h
      exact Supervises.of_tray rfl rfl (Or.inr ⟨.stopped, rfl, rfl⟩)

theorem descends_admits {job : Tray.Job} {t : Tray.World} (h : job.admits w.tray = some t) :
    t.fs = w.tray.fs ∧ Descends setup.app.dest w.tray t := by
  cases job with
  | writesPID pid =>
      simp only [Tray.Job.admits] at h
      split_ifs at h
      cases h
      exact ⟨rfl, descends_of_agents rfl rfl⟩
  | listens pid =>
      simp only [Tray.Job.admits] at h
      split_ifs at h
      cases h
      refine ⟨rfl, Nat.le_refl _, fun a ha => Or.inl ?_⟩
      obtain ⟨b, hb, rfl⟩ := List.mem_map.mp ha
      refine ⟨b, hb, ?_⟩
      split_ifs <;> exact ⟨rfl, rfl⟩
  | crashes pid =>
      simp only [Tray.Job.admits] at h
      split_ifs at h
      cases h
      exact ⟨rfl, descends_kill _ _⟩
  | quits pid =>
      simp only [Tray.Job.admits] at h
      split_ifs at h
      cases h
      exact ⟨rfl, descends_kill w.tray pid⟩
  | _ =>
      cases h
      exact ⟨rfl, descends_of_agents rfl rfl⟩

theorem world_admits {job : Job} (hadmits : job.admits setup w = some w') :
    w'.tray.fs = w.tray.fs ∧ Descends setup.app.dest w.tray w'.tray ∧ w'.installs = w.installs ∧
      w'.history = w.history := by
  cases job with
  | watchdog rounds =>
      cases hadmits
      exact ⟨rfl, descends_of_agents rfl rfl, rfl, rfl⟩
  | update pid currentVersion =>
      simp only [Job.admits] at hadmits
      split_ifs at hadmits
      cases hadmits
      exact ⟨rfl, descends_of_agents rfl rfl, rfl, rfl⟩
  | tray job =>
      obtain ⟨t, ht, rfl⟩ := Option.map_eq_some_iff.mp hadmits
      obtain ⟨hfs, hagents⟩ := descends_admits ht
      exact ⟨hfs, hagents, rfl, rfl⟩

end Effects

/-! ## The executable is away -/

/-- The executable is renamed, and no other is in its place. -/
def isAway : Mode → Bool
  | .moved _ | .lost => true
  | _ => false

section Modes
variable {ec : EC} {cfg : Config} {exe : String} {mode : Mode}

theorem isAway_next {op : Updater.Op} {r : op.Reply} (hrename : ∀ src dst, op ≠ .rename src dst)
    (h : isAway (mode.next op r) = true) : isAway mode = true := by
  cases op with
  | rename src dst => exact absurd rfl (hrename src dst)
  | httpGet url =>
      cases r with
      | error e => exact h
      | ok body => cases mode <;> exact h
  | writeFile path data =>
      cases r with
      | error e => exact h
      | ok _ => cases h
  | log message => cases h
  | _ => exact h

/-- And only one that succeeds. -/
theorem isAway_refused {src dst e : String} (hpre : (protocol ec cfg exe).pre mode (.rename src dst))
    (h : isAway (mode.next (.rename src dst) (.error e)) = true) : isAway mode = true := by
  cases mode with
  | moved _ | lost => rfl
  | staged _ => cases h
  | _ => exact hpre.elim

end Modes

section Exclusive
variable {ι : Type} {setup : Setup} {w w' : World} {m : ι → Role} {i : ι} {role : Role}

/-- The updater of an agent that is alive has the executable renamed. -/
def Away (w : World) (m : ι → Role) (i : ι) : Prop :=
  ∃ pid mode, m i = .updating pid mode ∧ isAway mode = true ∧ w.tray.alive pid = true

/-- Agents run from the path, or from where an update has renamed the executable to: then no other update can rename it
there. -/
structure Exclusive (setup : Setup) (w : World) (m : ι → Role) : Prop where
  below : ∀ a ∈ w.tray.agents, a.pid < w.tray.nextPID
  files : ∀ a ∈ w.tray.agents, a.file = setup.app.dest ∨ a.file = setup.app.dest ++ ".bak"
  known : ∀ i pid mode, m i = .updating pid mode → pid < w.tray.nextPID
  away : ∀ i pid mode, m i = .updating pid mode → isAway mode = true →
    ∀ a ∈ w.tray.agents, a.pid = pid → a.file = setup.app.dest ++ ".bak"
  alone : ∀ i j, Away w m i → Away w m j → i = j

theorem alive_iff {t : Tray.World} {pid : Nat} : t.alive pid = true ↔ ∃ a ∈ t.agents, a.pid = pid := by
  simp [Tray.World.alive]

theorem running_of_mem {t : Tray.World} {a : Tray.Agent} {path : String} (ha : a ∈ t.agents) (hfile : a.file = path) :
    t.running path = true :=
  List.any_eq_true.mpr ⟨a, ha, decide_eq_true hfile⟩

/-- While no agent runs from the backup, no executable is away. -/
theorem Exclusive.not_away (h : Exclusive setup w m) (hrunning : w.tray.running (setup.app.dest ++ ".bak") = false)
    (i : ι) : ¬ Away w m i := by
  rintro ⟨pid, mode, hi, haway, halive⟩
  obtain ⟨a, ha, hpid⟩ := alive_iff.mp halive
  rw [running_of_mem ha (h.away i pid mode hi haway a ha hpid)] at hrunning
  cases hrunning

theorem Descends.alive {path : String} {t t' : Tray.World} (h : Descends path t t') {pid : Nat} (hpid : pid < t.nextPID)
    (halive : t'.alive pid = true) : t.alive pid = true := by
  obtain ⟨a, ha, rfl⟩ := alive_iff.mp halive
  rcases h.2 a ha with ⟨b, hb, heq, -⟩ | ⟨heq, -, -⟩
  · exact alive_iff.mpr ⟨b, hb, heq.symm⟩
  · omega

/-- A role that takes no executable away that was not. -/
def Steady (w : World) (m : ι → Role) (i : ι) (role : Role) : Prop :=
  ∀ pid mode, role = .updating pid mode → pid < w.tray.nextPID ∧
    (isAway mode = true → ∃ mode', m i = .updating pid mode' ∧ isAway mode' = true)

/-- An updater that goes on without taking the executable away. -/
theorem steady_updating (h : Exclusive setup w m) {pid : Nat} {mode mode' : Mode} (hi : m i = .updating pid mode)
    (haway : isAway mode' = true → isAway mode = true) : Steady w m i (.updating pid mode') := by
  intro pid' mode'' heq
  cases heq
  exact ⟨h.known i pid mode hi, fun hmode => ⟨mode, hi, haway hmode⟩⟩

variable [DecidableEq ι]

theorem Exclusive.away_of_later (h : Exclusive setup w m) (hagents : Descends setup.app.dest w.tray w'.tray)
    (hrole : Steady w m i role) {j : ι} (haway : Away w' (update m i role) j) : Away w m j := by
  obtain ⟨pid, mode, hj, hmode, halive⟩ := haway
  by_cases hji : j = i
  · subst hji
    rw [Function.update_self] at hj
    obtain ⟨hpid, hwas⟩ := hrole pid mode hj
    obtain ⟨mode', hm, hmode'⟩ := hwas hmode
    exact ⟨pid, mode', hm, hmode', hagents.alive hpid halive⟩
  · rw [Function.update_of_ne hji] at hj
    exact ⟨pid, mode, hj, hmode, hagents.alive (h.known j pid mode hj) halive⟩

/-- Processes that were there, or start from the path, and a role that is as steady. -/
theorem Exclusive.later (h : Exclusive setup w m) (hagents : Descends setup.app.dest w.tray w'.tray)
    (hrole : Steady w m i role) : Exclusive setup w' (update m i role) where
  below a ha := by
    rcases hagents.2 a ha with ⟨b, hb, hpid, -⟩ | ⟨hpid, hlt, -⟩
    · have hbelow := h.below b hb
      have hle := hagents.1
      omega
    · omega
  files a ha := by
    rcases hagents.2 a ha with ⟨b, hb, -, hfile⟩ | ⟨-, -, hfile⟩
    · rw [hfile]
      exact h.files b hb
    · exact Or.inl hfile
  known j pid mode hj := by
    by_cases hji : j = i
    · subst hji
      rw [Function.update_self] at hj
      exact Nat.lt_of_lt_of_le (hrole pid mode hj).1 hagents.1
    · rw [Function.update_of_ne hji] at hj
      exact Nat.lt_of_lt_of_le (h.known j pid mode hj) hagents.1
  away j pid mode hj hmode a ha hpid := by
    have hwas : ∃ mode', m j = .updating pid mode' ∧ isAway mode' = true := by
      by_cases hji : j = i
      · subst hji
        rw [Function.update_self] at hj
        exact (hrole pid mode hj).2 hmode
      · rw [Function.update_of_ne hji] at hj
        exact ⟨mode, hj, hmode⟩
    obtain ⟨mode', hm, hmode'⟩ := hwas
    rcases hagents.2 a ha with ⟨b, hb, heq, hfile⟩ | ⟨heq, -, -⟩
    · rw [hfile]
      exact h.away j pid mode' hm hmode' b hb (heq ▸ hpid)
    · have hknown := h.known j pid mode' hm
      omega
  alone j k hj hk := h.alone j k (h.away_of_later hagents hrole hj) (h.away_of_later hagents hrole hk)

/-! ### Renames -/

variable {pid : Nat} {src dst : String} {fs : Updater.World}

theorem mem_renamed {a : Tray.Agent} (ha : a ∈ (w.renamed pid src dst fs).tray.agents) :
    ∃ b ∈ w.tray.agents, a.pid = b.pid ∧ a.file = if b.file = src then dst else b.file := by
  obtain ⟨b, hb, rfl⟩ := List.mem_map.mp ha
  refine ⟨b, hb, ?_⟩
  split_ifs <;> exact ⟨rfl, rfl⟩

theorem alive_renamed {p : Nat} (h : (w.renamed pid src dst fs).tray.alive p = true) : w.tray.alive p = true := by
  obtain ⟨a, ha, rfl⟩ := alive_iff.mp h
  obtain ⟨b, hb, hpid, -⟩ := mem_renamed ha
  exact alive_iff.mpr ⟨b, hb, hpid.symm⟩

theorem descends_renamed {path : String} (hsrc : ∀ a ∈ w.tray.agents, a.file ≠ src) :
    Descends path w.tray (w.renamed pid src dst fs).tray := by
  refine ⟨Nat.le_refl _, fun a ha => Or.inl ?_⟩
  obtain ⟨b, hb, hpid, hfile⟩ := mem_renamed ha
  rw [if_neg (hsrc b hb)] at hfile
  exact ⟨b, hb, hpid, hfile⟩

/-- The executable is renamed: no other was away, and the agents run from the backup now. -/
theorem Exclusive.backup (h : Exclusive setup w m) {mode mode' : Mode} (hi : m i = .updating pid mode)
    (hrunning : w.tray.running (setup.app.dest ++ ".bak") = false) :
    Exclusive setup (w.renamed pid setup.app.dest (setup.app.dest ++ ".bak") fs)
      (update m i (.updating pid mode')) := by
  have hbak : ∀ a ∈ (w.renamed pid setup.app.dest (setup.app.dest ++ ".bak") fs).tray.agents,
      a.file = setup.app.dest ++ ".bak" := by
    intro a ha
    obtain ⟨b, hb, -, hfile⟩ := mem_renamed ha
    rw [hfile]
    split_ifs with hdest
    · rfl
    · exact (h.files b hb).resolve_left hdest
  have hother : ∀ j, j ≠ i → ¬ Away (w.renamed pid setup.app.dest (setup.app.dest ++ ".bak") fs)
      (update m i (.updating pid mode')) j := by
    rintro j hji ⟨pid', mode', hj, hmode, halive⟩
    rw [Function.update_of_ne hji] at hj
    exact h.not_away hrunning j ⟨pid', mode', hj, hmode, alive_renamed halive⟩
  refine ⟨fun a ha => ?_, fun a ha => Or.inr (hbak a ha), fun j pid' mode' hj => ?_, fun _ _ _ _ _ a ha _ => hbak a ha,
    fun j k hj hk => ?_⟩
  · obtain ⟨b, hb, hpid, -⟩ := mem_renamed ha
    rw [hpid]
    exact h.below b hb
  · by_cases hji : j = i
    · subst hji
      rw [Function.update_self] at hj
      cases hj
      exact h.known j pid mode hi
    · rw [Function.update_of_ne hji] at hj
      exact h.known j pid' mode' hj
  · have hj' := not_imp_comm.mp (hother j) (not_not_intro hj)
    have hk' := not_imp_comm.mp (hother k) (not_not_intro hk)
    rw [hj', hk']

theorem Exclusive.rollback (h : Exclusive setup w m) {mode mode' : Mode} (hi : m i = .updating pid mode)
    (hmode : isAway mode = true) (halive : w.tray.alive pid = true) (hmode' : isAway mode' = false) :
    Exclusive setup (w.renamed pid (setup.app.dest ++ ".bak") setup.app.dest fs)
      (update m i (.updating pid mode')) := by
  have hnone : ∀ j, ¬ Away (w.renamed pid (setup.app.dest ++ ".bak") setup.app.dest fs)
      (update m i (.updating pid mode')) j := by
    rintro j ⟨pid', mode'', hj, haway, halive'⟩
    by_cases hji : j = i
    · subst hji
      rw [Function.update_self] at hj
      cases hj
      rw [hmode'] at haway
      cases haway
    · rw [Function.update_of_ne hji] at hj
      exact hji (h.alone j i ⟨pid', mode'', hj, haway, alive_renamed halive'⟩ ⟨pid, mode, hi, hmode, halive⟩)
  refine ⟨fun a ha => ?_, fun a ha => ?_, fun j pid' mode'' hj => ?_, fun j pid' mode'' hj haway a ha hpid => ?_,
    fun j _ hj => (hnone j hj).elim⟩
  · obtain ⟨b, hb, hpid, -⟩ := mem_renamed ha
    rw [hpid]
    exact h.below b hb
  · obtain ⟨b, hb, -, hfile⟩ := mem_renamed ha
    rw [hfile]
    split_ifs with hbak
    · exact Or.inl rfl
    · exact Or.inl ((h.files b hb).resolve_right hbak)
  · by_cases hji : j = i
    · subst hji
      rw [Function.update_self] at hj
      cases hj
      exact h.known j pid mode hi
    · rw [Function.update_of_ne hji] at hj
      exact h.known j pid' mode'' hj
  · exact (hnone j ⟨pid', mode'', hj, haway, alive_iff.mpr ⟨a, ha, hpid⟩⟩).elim

end Exclusive

/-! ## What is at the path -/

section Path
variable {β : Type} [Preorder β] {ι : Type} {setup : Setup} {rank : String → β} {w w' : World} {m : ι → Role}

/-- What is at the path, and what is to be renamed back to it, is at least as new as what updates have put there. -/
structure Newest (setup : Setup) (rank : String → β) (w : World) (m : ι → Role) : Prop where
  current : ∀ image, w.files setup.app.dest = some image → ∀ k ∈ w.installs, setup.AtLeast rank k.2 image
  backup : ∀ i, Away w m i → ∀ image, w.files (setup.app.dest ++ ".bak") = some image →
    ∀ k ∈ w.installs, setup.AtLeast rank k.2 image

structure PathInv (setup : Setup) (rank : String → β) (w : World) (m : ι → Role) : Prop where
  path : w.tray.fs.exePath = setup.app.dest
  exclusive : Exclusive setup w m
  newest : Newest setup rank w m

variable [DecidableEq ι] {i : ι} {role : Role}

/-- Nothing new at the path, and nothing new to be renamed back. -/
theorem PathInv.later (h : PathInv setup rank w m) (hpath : w'.tray.fs.exePath = w.tray.fs.exePath)
    (hagents : Descends setup.app.dest w.tray w'.tray) (hrole : Steady w m i role)
    (hfiles : ∀ path, path = setup.app.dest ∨ path = setup.app.dest ++ ".bak" → ∀ image, w'.files path = some image →
      w.files path = some image)
    (hinstalls : w'.installs = w.installs) : PathInv setup rank w' (update m i role) where
  path := hpath.trans h.path
  exclusive := h.exclusive.later hagents hrole
  newest.current image himage := by
    rw [hinstalls]
    exact h.newest.current image (hfiles _ (Or.inl rfl) image himage)
  newest.backup j haway image himage := by
    rw [hinstalls]
    exact h.newest.backup j (h.exclusive.away_of_later hagents hrole haway) image (hfiles _ (Or.inr rfl) image himage)

/-- **An effect of watchdog or tray.** -/
theorem PathInv.supervises {ch : Choice} {op : SupOp} (h : PathInv setup rank w m)
    (hs : Supervises setup ch op w w') (hrole : Steady w m i role)
    (hnewer : ∀ image ∈ supplied setup ch w op, ∀ k ∈ w.installs, setup.AtLeast rank k.2 image) :
    PathInv setup rank w' (update m i role) := by
  rcases hs.files with hfs | ⟨content, hcontent, hfs⟩
  · refine h.later (by rw [hfs]) hs.agents hrole (fun path _ image himage => ?_) hs.installs
    rw [World.files, hfs] at himage
    exact himage
  · have hfile : ∀ path, w'.files path = if path = setup.app.dest then some content else w.files path := by
      intro path
      rw [World.files, hfs]
      rfl
    refine ⟨by rw [hfs]; exact h.path, h.exclusive.later hs.agents hrole, fun image himage => ?_,
      fun j haway image himage => ?_⟩
    · rw [hfile, if_pos rfl] at himage
      rw [hs.installs]
      exact hnewer image (hcontent.trans himage)
    · rw [hfile, if_neg (bak_ne _)] at himage
      rw [hs.installs]
      exact h.newest.backup j (h.exclusive.away_of_later hs.agents hrole haway) image himage

section Agent
variable {pid : Nat} {mode : Mode}

/-- A file that is neither at the path nor at the backup, or is removed. -/
theorem PathInv.setFile {dst : String} {content : Option Bytes} {mode' : Mode} (h : PathInv setup rank w m)
    (hi : m i = .updating pid mode) (haway : isAway mode' = true → isAway mode = true)
    (hdst : content = none ∨ dst = setup.app.dest ++ ".update") :
    PathInv setup rank (w.setFile dst content) (update m i (.updating pid mode')) := by
  refine h.later rfl (descends_of_agents rfl rfl) (steady_updating h.exclusive hi haway) ?_ rfl
  intro path hpath image himage
  rw [files_setFile] at himage
  split_ifs at himage with heq
  · subst heq
    rcases hdst with rfl | hupdate
    · cases himage
    · rcases hpath with rfl | rfl
      · exact absurd hupdate.symm (update_ne _)
      · exact absurd hupdate.symm (update_ne_bak _)
  · exact himage

theorem PathInv.backup {content : Bytes} {mode' : Mode} (h : PathInv setup rank w m) (hi : m i = .updating pid mode)
    (hrunning : w.tray.running (setup.app.dest ++ ".bak") = false) (hsrc : w.files setup.app.dest = some content) :
    PathInv setup rank (w.moved pid setup.app.dest (setup.app.dest ++ ".bak") content)
      (update m i (.updating pid mode')) := by
  have hinstalls : (w.moved pid setup.app.dest (setup.app.dest ++ ".bak") content).installs = w.installs := by
    rw [installs_moved, h.path]
    exact if_neg fun hboth => bak_ne _ hboth.1
  refine ⟨h.path, h.exclusive.backup hi hrunning, fun image himage => ?_, fun j _ image himage => ?_⟩
  · rw [files_moved, if_neg (bak_ne _).symm, if_pos rfl] at himage
    cases himage
  · rw [files_moved, if_pos rfl] at himage
    rw [hinstalls]
    exact h.newest.current image (hsrc.trans himage)

theorem PathInv.install {content : Bytes} {mode' : Mode} (h : PathInv setup rank w m) (hi : m i = .updating pid mode)
    (hmode : isAway mode = true) (halive : w.tray.alive pid = true) (hmode' : isAway mode' = false)
    (hnewer : ∀ k ∈ w.installs, setup.AtLeast rank k.2 content) :
    PathInv setup rank (w.moved pid (setup.app.dest ++ ".update") setup.app.dest content)
      (update m i (.updating pid mode')) := by
  have hagents : Descends setup.app.dest w.tray
      (w.moved pid (setup.app.dest ++ ".update") setup.app.dest content).tray := by
    refine descends_renamed fun a ha hupdate => ?_
    rcases h.exclusive.files a ha with hfile | hfile
    · exact update_ne _ (hupdate.symm.trans hfile)
    · exact update_ne_bak _ (hupdate.symm.trans hfile)
  have hsteady : Steady w m i (.updating pid mode') := by
    refine steady_updating h.exclusive hi fun haway => ?_
    rw [hmode'] at haway
    cases haway
  refine ⟨h.path, h.exclusive.later hagents hsteady, fun image himage k hk => ?_, fun j haway => ?_⟩
  · rw [files_moved, if_pos rfl] at himage
    obtain rfl := Option.some.inj himage
    rw [installs_moved, h.path, if_pos ⟨rfl, rfl⟩] at hk
    rcases List.mem_cons.mp hk with rfl | hk
    · exact le_rfl
    · exact hnewer k hk
  · -- the executable was away for this update only
    have hbefore := h.exclusive.away_of_later hagents hsteady haway
    obtain rfl := h.exclusive.alone j i hbefore ⟨pid, mode, hi, hmode, halive⟩
    obtain ⟨pid', mode'', hj, hmode'', -⟩ := haway
    rw [Function.update_self] at hj
    cases hj
    rw [hmode'] at hmode''
    cases hmode''

theorem PathInv.rollback {content : Bytes} {mode' : Mode} (h : PathInv setup rank w m) (hi : m i = .updating pid mode)
    (hmode : isAway mode = true) (halive : w.tray.alive pid = true) (hmode' : isAway mode' = false)
    (hsrc : w.files (setup.app.dest ++ ".bak") = some content) :
    PathInv setup rank (w.moved pid (setup.app.dest ++ ".bak") setup.app.dest content)
      (update m i (.updating pid mode')) := by
  have hinstalls : (w.moved pid (setup.app.dest ++ ".bak") setup.app.dest content).installs = w.installs := by
    rw [installs_moved, h.path]
    exact if_neg fun hboth => update_ne_bak _ hboth.2.symm
  refine ⟨h.path, h.exclusive.rollback hi hmode halive hmode', fun image himage => ?_, fun j _ image himage => ?_⟩
  · rw [files_moved, if_pos rfl] at himage
    rw [hinstalls]
    exact h.newest.backup i ⟨pid, mode, hi, hmode, halive⟩ image (hsrc.trans himage)
  · rw [files_moved, if_neg (bak_ne _), if_pos rfl] at himage
    cases himage

/-- **An effect of an agent.** -/
theorem PathInv.agent {ch : Choice} {op : Updater.Op} {r : op.Reply} (h : PathInv setup rank w m)
    (hi : m i = .updating pid mode) (hpre : (protocol setup.ec setup.config setup.app.dest).pre mode op)
    (halive : w.tray.alive pid = true) (he : AgentEffect ch.agent pid w op r w')
    (hnewer : ∀ image ∈ supplied setup ch w (.agent pid op), ∀ k ∈ w.installs, setup.AtLeast rank k.2 image) :
    PathInv setup rank w' (update m i (.updating pid (mode.next op r))) := by
  have hsame : ∀ {mode' : Mode}, (isAway mode' = true → isAway mode = true) →
      PathInv setup rank w (update m i (.updating pid mode')) := fun haway =>
    h.later rfl (descends_of_agents rfl rfl) (steady_updating h.exclusive hi haway) (fun _ _ _ himage => himage) rfl
  cases he with
  | same hrename _ => exact hsame (isAway_next hrename)
  | stays => exact hsame (isAway_refused hpre)
  | refused => exact hsame id
  | writes hcontent =>
      cases mode with
      | intact got => exact h.setFile hi (isAway_next (by simp)) (Or.inr hpre.1)
      | _ => exact hpre.elim
  | removes hrunning => exact h.setFile hi (isAway_next (by simp)) (Or.inl rfl)
  | exits =>
      exact h.later rfl (descends_kill _ _) (steady_updating h.exclusive hi id) (fun _ _ _ himage => himage) rfl
  | renames hrunning hok hsrc =>
      cases mode with
      | staged data =>
          obtain ⟨rfl, rfl⟩ := hpre
          exact h.backup hi hrunning hsrc
      | moved data =>
          obtain ⟨rfl, rfl⟩ := hpre
          exact h.install hi rfl halive rfl (hnewer _ ((if_pos ⟨rfl, hrunning, hok⟩).trans hsrc))
      | lost =>
          obtain ⟨rfl, rfl⟩ := hpre
          exact h.rollback hi rfl halive rfl hsrc
      | _ => exact hpre.elim

end Agent

end Path

/-! ## The history -/

section History
variable {β : Type} [Preorder β] {ι : Type} {setup : Setup} {rank : String → β} {w w' : World}
  {tr : List (Performed ι SupOp SupOp.Reply)} {m : ι → Role} {i : ι} {op : SupOp} {r : op.Reply}

/-- Updates that are complete were put at the path, what was started since is as new; the watchdog stops only after it
found its agent ended with status 0, and then no update is complete. -/
structure Recorded (setup : Setup) (rank : String → β) (w : World) (tr : List (Performed ι SupOp SupOp.Reply))
    (m : ι → Role) : Prop where
  complete : ∀ data, .updated data ∈ w.history → ∃ pid, (pid, data) ∈ w.installs
  newer : w.history.Pairwise (InOrder setup rank)
  stopping : ∀ i, m i = .supervising true → tr.any found = true
  stopped : .stopped ∈ w.history → tr.any found = true
  watching : w.updated = true → tr.any found = false

theorem Recorded.kept (h : Recorded setup rank w tr m) : Kept setup rank w.history := by
  refine ⟨h.newer, fun data hdata hstopped => ?_⟩
  have hfound := h.stopped hstopped
  rw [h.watching (List.any_eq_true.mpr ⟨_, hdata, rfl⟩)] at hfound
  cases hfound

abbrev did (i : ι) (op : SupOp) (r : op.Reply) : Performed ι SupOp SupOp.Reply := (i, ⟨op, r⟩)

theorem any_found_concat (i : ι) (op : SupOp) (r : op.Reply) :
    (tr ++ [did i op r]).any found = (tr.any found || found (did i op r)) := by
  simp

theorem next_stopping {role : Role} (h : role.next op r = .supervising true) :
    found (did i op r) = true ∨ role = .supervising true := by
  cases role with
  | updating pid mode =>
      cases op <;> cases h
  | supervising stopping =>
      cases op with
      | wait pid =>
          cases r with
          | ok _ => exact Or.inl rfl
          | error e => exact Or.inr h
      | _ => exact Or.inr h

/-- What joins the history is at least as new as the updates in it. -/
theorem Recorded.inOrder {e : Event} (h : Recorded setup rank w tr m)
    (hcurrent : ∀ image, w.files setup.app.dest = some image → ∀ k ∈ w.installs, setup.AtLeast rank k.2 image)
    (hjust : Justified setup op w e) : ∀ a ∈ w.history, InOrder setup rank a e := by
  intro a ha
  cases a with
  | updated data =>
      cases e with
      | started starter image =>
          obtain ⟨pid, hpid⟩ := h.complete data ha
          exact hcurrent image hjust _ hpid
      | _ => trivial
  | _ => trivial

theorem found_append (x : Performed ι SupOp SupOp.Reply) (h : tr.any found = true) : (tr ++ [x]).any found = true := by
  rw [List.any_append, h, Bool.true_or]

/-- The watchdog stops because of what it found. -/
theorem Recorded.found_of_stop (h : Recorded setup rank w tr m) (hpre : (supProtocol setup).pre (m i) .stop) :
    tr.any found = true := by
  cases hrole : m i with
  | updating pid mode =>
      rw [hrole] at hpre
      exact hpre.elim
  | supervising stopping =>
      rw [hrole] at hpre
      obtain rfl := hpre.2 rfl
      exact h.stopping i hrole

theorem Recorded.watching_next (h : Recorded setup rank w tr m) (hbefore : w.updated = true)
    (hfound : found (did i op r) = true → w.updated = false) : (tr ++ [did i op r]).any found = false := by
  rw [any_found_concat, h.watching hbefore, Bool.false_or]
  by_contra hnot
  rw [hfound (by simpa using hnot)] at hbefore
  cases hbefore

theorem not_found_of_completes (h : op.completes w = true) : found (did i op r) = false := by
  cases op with
  | wait pid => cases h
  | _ => rfl

variable [DecidableEq ι]

theorem Recorded.stopping_next (h : Recorded setup rank w tr m) (j : ι)
    (hj : update m i ((m i).next op r) j = .supervising true) : (tr ++ [did i op r]).any found = true := by
  by_cases hji : j = i
  · subst hji
    rw [Function.update_self] at hj
    rcases next_stopping (i := j) hj with hnow | hbefore
    · rw [any_found_concat, hnow, Bool.or_true]
    · exact found_append _ (h.stopping j hbefore)
  · rw [Function.update_of_ne hji] at hj
    exact found_append _ (h.stopping j hj)

/-- **The history after an effect.** -/
theorem Recorded.step (h : Recorded setup rank w tr m) (hinstalls : ∀ k ∈ w.installs, k ∈ w'.installs)
    (hhistory : w'.history = w.history ∨ ∃ e, w'.history = w.history ++ [e] ∧ Justified setup op w e)
    (hcurrent : ∀ image, w.files setup.app.dest = some image → ∀ k ∈ w.installs, setup.AtLeast rank k.2 image)
    (hpre : (supProtocol setup).pre (m i) op) (hfound : found (did i op r) = true → w.updated = false)
    (hcompletes : op.completes w = true → tr.any found = false) :
    Recorded setup rank w' (tr ++ [did i op r]) (update m i ((m i).next op r)) := by
  have hcomplete : ∀ data, .updated data ∈ w.history → ∃ pid, (pid, data) ∈ w'.installs := by
    intro data hdata
    obtain ⟨pid, hpid⟩ := h.complete data hdata
    exact ⟨pid, hinstalls _ hpid⟩
  rcases hhistory with hsame | ⟨e, hconcat, hjust⟩
  · refine ⟨?_, hsame ▸ h.newer, h.stopping_next, ?_, fun hupdated => ?_⟩
    · rw [hsame]
      exact hcomplete
    · exact fun hstopped => found_append _ (h.stopped (hsame ▸ hstopped))
    · rw [World.updated, hsame] at hupdated
      exact h.watching_next hupdated hfound
  · refine ⟨fun data hdata => ?_, ?_, h.stopping_next, fun hstopped => ?_, fun hupdated => ?_⟩
    · rw [hconcat] at hdata
      rcases List.mem_append.mp hdata with hdata | hdata
      · exact hcomplete data hdata
      · obtain rfl := List.mem_singleton.mp hdata
        obtain ⟨-, pid, hpid⟩ := hjust
        exact ⟨pid, hinstalls _ hpid⟩
    · rw [hconcat]
      refine List.pairwise_append.mpr ⟨h.newer, List.pairwise_singleton _ _, fun a ha b hb => ?_⟩
      obtain rfl := List.mem_singleton.mp hb
      exact h.inOrder hcurrent hjust a ha
    · rw [hconcat] at hstopped
      rcases List.mem_append.mp hstopped with hstopped | hstopped
      · exact found_append _ (h.stopped hstopped)
      · obtain rfl := List.mem_singleton.mp hstopped
        obtain rfl : op = .stop := hjust
        exact found_append _ (h.found_of_stop hpre)
    · rw [World.updated, hconcat, List.any_append, Bool.or_eq_true] at hupdated
      rcases hupdated with hbefore | hnow
      · exact h.watching_next hbefore hfound
      · -- an update that is completed now
        cases e with
        | updated data =>
            rw [any_found_concat, hcompletes hjust.1, Bool.false_or]
            exact not_found_of_completes hjust.1
        | _ => simp at hnow

end History

/-! ## What updates put at the path -/

section Releases
variable {ι : Type} [DecidableEq ι] {setup : Setup} {w w' : World} {tr : List (Performed ι SupOp SupOp.Reply)}
  {m : ι → Role} {i : ι}

/-- The bodies that agents got. -/
def bodies (tr : List (Performed ι SupOp SupOp.Reply)) : List Bytes :=
  tr.filterMap fun
    | (_, ⟨.agent _ (.httpGet _), .ok body⟩) => some body
    | _ => none

/-- A binary that came with a signature that verifies, or the beginning of one. -/
def Released (setup : Setup) (tr : List (Performed ι SupOp SupOp.Reply)) (image : Bytes) : Prop :=
  ∃ release, Verified setup.ec setup.config (bodies tr) release ∧ ∃ n, image = release.take n

/-- A binary is staged. -/
def isStaged : Mode → Bool
  | .staged _ | .moved _ => true
  | _ => false

/-- What agents have got; and what is staged, and what was staged, is a release. -/
structure Sourced (setup : Setup) (w : World) (tr : List (Performed ι SupOp SupOp.Reply)) (m : ι → Role) : Prop where
  path : w.tray.fs.exePath = setup.app.dest
  got : ∀ i pid bodies', m i = .updating pid (.intact bodies') → bodies' ⊆ bodies tr
  staged : ∀ i pid mode, m i = .updating pid mode → isStaged mode = true →
    ∀ image, w.files (setup.app.dest ++ ".update") = some image → Released setup tr image
  installs : ∀ k ∈ w.installs, Released setup tr k.2

omit [DecidableEq ι] in
theorem bodies_append (tr : List (Performed ι SupOp SupOp.Reply)) (x : Performed ι SupOp SupOp.Reply) :
    bodies tr ⊆ bodies (tr ++ [x]) := by
  unfold bodies
  rw [List.filterMap_append]
  exact List.subset_append_left _ _

omit [DecidableEq ι] in
theorem Released.append {image : Bytes} (h : Released setup tr image) (x : Performed ι SupOp SupOp.Reply) :
    Released setup (tr ++ [x]) image := by
  obtain ⟨release, hverified, hprefix⟩ := h
  exact ⟨release, hverified.mono (bodies_append tr x), hprefix⟩

omit [DecidableEq ι] in
/-- What a write leaves of a release. -/
theorem released_of_written {got : List Bytes} {data content : Bytes} {fs : FsOutcome} (hgot : got ⊆ bodies tr)
    (hverified : Verified setup.ec setup.config got data) (h : written fs data = some content) :
    Released setup tr content := by
  refine ⟨data, hverified.mono hgot, ?_⟩
  cases fs with
  | ok =>
      obtain rfl := Option.some.inj h
      exact ⟨data.length, List.take_length.symm⟩
  | failed => cases h
  | cut n =>
      obtain rfl := Option.some.inj h
      exact ⟨n, rfl⟩

omit [DecidableEq ι] in
/-- What an updater has got is among what agents got. -/
theorem got_next {pid : Nat} {mode : Mode} {op : Updater.Op} {r : op.Reply} {got : List Bytes}
    (hgot : ∀ got', mode = .intact got' → got' ⊆ bodies tr) (h : mode.next op r = .intact got) :
    got ⊆ bodies (tr ++ [did i (.agent pid op) r]) := by
  have hbefore : mode = .intact got → got ⊆ bodies (tr ++ [did i (.agent pid op) r]) := fun heq =>
    List.Subset.trans (hgot got heq) (bodies_append _ _)
  cases op with
  | httpGet url =>
      cases r with
      | error e => exact hbefore h
      | ok body =>
          cases mode with
          | intact got' =>
              cases h
              refine List.append_subset.mpr ⟨List.Subset.trans (hgot got' rfl) (bodies_append _ _), ?_⟩
              simp [bodies]
          | _ => cases h
  | writeFile path data =>
      cases r with
      | error e => exact hbefore h
      | ok _ => cases h
  | rename src dst =>
      cases r with
      | error e =>
          cases mode with
          | staged data =>
              cases h
              exact List.nil_subset _
          | _ => cases h
      | ok _ =>
          cases mode with
          | staged data | moved data => cases h
          | _ =>
              cases h
              exact List.nil_subset _
  | log message => cases h
  | _ => exact hbefore h

omit [DecidableEq ι] in
theorem staged_next {mode : Mode} {op : Updater.Op} {r : op.Reply} (hwrite : ∀ dst data, op ≠ .writeFile dst data)
    (h : isStaged (mode.next op r) = true) : isStaged mode = true := by
  cases op with
  | writeFile dst data => exact absurd rfl (hwrite dst data)
  | httpGet url =>
      cases r with
      | error e => exact h
      | ok body => cases mode <;> exact h
  | rename src dst =>
      cases r with
      | error e => cases mode <;> cases h
      | ok _ =>
          cases mode with
          | staged data => rfl
          | _ => cases h
  | log message => cases h
  | _ => exact h

/-- Nothing is staged or installed but releases. -/
theorem Sourced.later {tr' : List (Performed ι SupOp SupOp.Reply)} {role : Role} (h : Sourced setup w tr m)
    (htr : bodies tr ⊆ bodies tr') (hpath : w'.tray.fs.exePath = w.tray.fs.exePath)
    (hgot : ∀ pid got, role = .updating pid (.intact got) → got ⊆ bodies tr')
    (hstaged : ∀ pid mode, role = .updating pid mode → isStaged mode = true →
      (∃ mode', m i = .updating pid mode' ∧ isStaged mode' = true) ∨
        ∀ image, w'.files (setup.app.dest ++ ".update") = some image → Released setup tr' image)
    (hfiles : ∀ image, w'.files (setup.app.dest ++ ".update") = some image →
      w.files (setup.app.dest ++ ".update") = some image ∨ Released setup tr' image)
    (hinstalls : ∀ k ∈ w'.installs, k ∈ w.installs ∨ Released setup tr' k.2) :
    Sourced setup w' tr' (update m i role) := by
  have hmono : ∀ image, Released setup tr image → Released setup tr' image := by
    rintro image ⟨release, hverified, hprefix⟩
    exact ⟨release, hverified.mono htr, hprefix⟩
  have hkept : ∀ j pid mode, m j = .updating pid mode → isStaged mode = true →
      ∀ image, w'.files (setup.app.dest ++ ".update") = some image → Released setup tr' image := by
    intro j pid mode hj hmode image himage
    rcases hfiles image himage with hbefore | hreleased
    · exact hmono image (h.staged j pid mode hj hmode image hbefore)
    · exact hreleased
  refine ⟨hpath.trans h.path, fun j pid got hj => ?_, fun j pid mode hj hmode => ?_, fun k hk => ?_⟩
  · by_cases hji : j = i
    · subst hji
      rw [Function.update_self] at hj
      exact hgot pid got hj
    · rw [Function.update_of_ne hji] at hj
      exact List.Subset.trans (h.got j pid got hj) htr
  · by_cases hji : j = i
    · subst hji
      rw [Function.update_self] at hj
      rcases hstaged pid mode hj hmode with ⟨mode', hm, hmode'⟩ | hreleased
      · exact hkept j pid mode' hm hmode'
      · exact hreleased
    · rw [Function.update_of_ne hji] at hj
      exact hkept j pid mode hj hmode
  · rcases hinstalls k hk with hk | hreleased
    · exact hmono k.2 (h.installs k hk)
    · exact hreleased

theorem Sourced.supervises {ch : Choice} {op : SupOp} {stopping : Bool} (h : Sourced setup w tr m)
    (hs : Supervises setup ch op w w') (x : Performed ι SupOp SupOp.Reply) :
    Sourced setup w' (tr ++ [x]) (update m i (.supervising stopping)) := by
  refine h.later (bodies_append tr x) ?_ (by rintro _ _ ⟨⟩) (by rintro _ _ ⟨⟩) (fun image himage => Or.inl ?_)
    fun k hk => Or.inl (hs.installs ▸ hk)
  · rcases hs.files with hfs | ⟨content, -, hfs⟩
    · rw [hfs]
    · rw [hfs]
      rfl
  · rcases hs.files with hfs | ⟨content, -, hfs⟩
    · rw [World.files, hfs] at himage
      exact himage
    · rw [World.files, hfs, Updater.World.set_files_ne (update_ne _)] at himage
      exact himage

section Agent
variable {ch : Updater.Choice} {pid : Nat} {mode : Mode} {op : Updater.Op} {r : op.Reply}

omit [DecidableEq ι] in
theorem got_agent (h : Sourced setup w tr m) (hi : m i = .updating pid mode) (pid' : Nat) (got : List Bytes)
    (heq : Role.updating pid (mode.next op r) = .updating pid' (.intact got)) :
    got ⊆ bodies (tr ++ [did i (.agent pid op) r]) := by
  refine got_next (fun got' hmode => h.got i pid got' ?_) (Role.updating.inj heq).2
  rw [hi, hmode]

/-- An effect that writes no file. -/
theorem Sourced.unwritten (h : Sourced setup w tr m) (hi : m i = .updating pid mode)
    (hwrite : ∀ dst data, op ≠ .writeFile dst data) (hpath : w'.tray.fs.exePath = w.tray.fs.exePath)
    (hfiles : ∀ image, w'.files (setup.app.dest ++ ".update") = some image →
      w.files (setup.app.dest ++ ".update") = some image)
    (hinstalls : ∀ k ∈ w'.installs, k ∈ w.installs ∨ Released setup (tr ++ [did i (.agent pid op) r]) k.2) :
    Sourced setup w' (tr ++ [did i (.agent pid op) r]) (update m i (.updating pid (mode.next op r))) := by
  refine h.later (bodies_append tr _) hpath (got_agent h hi) ?_ (fun image himage => Or.inl (hfiles image himage)) hinstalls
  rintro _ _ ⟨⟩ hmode'
  exact Or.inl ⟨mode, hi, staged_next hwrite hmode'⟩

theorem Sourced.moved {src dst : String} {content : Bytes} (h : Sourced setup w tr m) (hi : m i = .updating pid mode)
    (hdst : dst ≠ setup.app.dest ++ ".update")
    (hinstalls : ∀ k ∈ (w.moved pid src dst content).installs,
      k ∈ w.installs ∨ Released setup (tr ++ [did i (.agent pid (.rename src dst)) (.ok ())]) k.2) :
    Sourced setup (w.moved pid src dst content) (tr ++ [did i (.agent pid (.rename src dst)) (.ok ())])
      (update m i (.updating pid (mode.next (.rename src dst) (.ok ())))) := by
  refine h.unwritten hi (by simp) rfl (fun image himage => ?_) hinstalls
  rw [files_moved, if_neg hdst.symm] at himage
  split_ifs at himage
  exact himage

/-- The binary that is moved to the path is the one that was staged. -/
theorem Sourced.renamed {src dst : String} {content : Bytes} (h : Sourced setup w tr m) (hi : m i = .updating pid mode)
    (hpre : (protocol setup.ec setup.config setup.app.dest).pre mode (.rename src dst)) (hsrc : w.files src = some content) :
    Sourced setup (w.moved pid src dst content) (tr ++ [did i (.agent pid (.rename src dst)) (.ok ())])
      (update m i (.updating pid (mode.next (.rename src dst) (.ok ())))) := by
  cases mode with
  | staged data =>
      obtain ⟨rfl, rfl⟩ := hpre
      refine h.moved hi (update_ne_bak _).symm fun k hk => Or.inl ?_
      rw [installs_moved, h.path, if_neg fun hboth => bak_ne _ hboth.1] at hk
      exact hk
  | moved data =>
      obtain ⟨rfl, rfl⟩ := hpre
      refine h.moved hi (update_ne _).symm fun k hk => ?_
      rw [installs_moved, h.path, if_pos ⟨rfl, rfl⟩] at hk
      rcases List.mem_cons.mp hk with rfl | hk
      · exact Or.inr ((h.staged i pid _ hi rfl _ hsrc).append _)
      · exact Or.inl hk
  | lost =>
      obtain ⟨rfl, rfl⟩ := hpre
      refine h.moved hi (update_ne _).symm fun k hk => Or.inl ?_
      rw [installs_moved, h.path, if_neg fun hboth => update_ne_bak _ hboth.2.symm] at hk
      exact hk
  | _ => exact hpre.elim

/-- **An effect of an agent.** -/
theorem Sourced.agent (h : Sourced setup w tr m) (hi : m i = .updating pid mode)
    (hpre : (protocol setup.ec setup.config setup.app.dest).pre mode op) (he : AgentEffect ch pid w op r w') :
    Sourced setup w' (tr ++ [did i (.agent pid op) r]) (update m i (.updating pid (mode.next op r))) := by
  cases he with
  | same _ hwrite => exact h.unwritten hi hwrite rfl (fun _ himage => himage) fun _ hk => Or.inl hk
  | stays => exact h.unwritten hi (by simp) rfl (fun _ himage => himage) fun _ hk => Or.inl hk
  | exits => exact h.unwritten hi (by simp) rfl (fun _ himage => himage) fun _ hk => Or.inl hk
  | refused =>
      exact h.later (bodies_append tr _) rfl (got_agent h hi) (by rintro _ _ ⟨⟩ hmode'; exact Or.inl ⟨mode, hi, hmode'⟩)
        (fun _ himage => Or.inl himage) fun _ hk => Or.inl hk
  | removes hrunning =>
      refine h.unwritten hi (by simp) rfl (fun image himage => ?_) fun _ hk => Or.inl hk
      rw [files_setFile] at himage
      split_ifs at himage
      exact himage
  | writes hcontent =>
      cases mode with
      | intact got =>
          obtain ⟨rfl, hverified⟩ := hpre
          have hreleased := (released_of_written (h.got i pid got hi) hverified hcontent).append
          refine h.later (bodies_append tr _) rfl (got_agent h hi) (fun _ _ _ _ => Or.inr fun image himage => ?_)
            (fun image himage => Or.inr ?_) fun _ hk => Or.inl hk
          all_goals
            rw [files_setFile, if_pos rfl] at himage
            obtain rfl := Option.some.inj himage
            exact hreleased _
      | _ => exact hpre.elim
  | renames _ _ hsrc => exact h.renamed hi hpre hsrc

end Agent

variable {c : Lib.Config ι SupOp SupOp.Reply World} {G : Lib.Config ι SupOp SupOp.Reply World → Act ι Choice Job → Prop}

/-- **Releases.** In every run, what updates put at the path is what was written of a binary that an agent downloaded
with a signature that verifies. -/
theorem releases_installed (hpath : w.tray.fs.exePath = setup.app.dest) (hinstalls : w.installs = [])
    (h : Reaches (supervise setup) G (Config.start w) c) : ∀ k ∈ c.world.installs, Released setup c.trace k.2 := by
  have hrun : ∃ m : ι → Role, Sourced setup c.world c.trace m ∧ ∀ i, Supervised setup (m i) (c.thread i) := by
    refine Reaches.inv (F := fun _ => True) (Sourced setup) ?_ ?_ ?_ h
    · refine ⟨fun _ => .supervising false, ⟨hpath, ?_, ?_, ?_⟩, fun _ => trivial⟩
      · rintro _ _ _ ⟨⟩
      · rintro _ _ _ ⟨⟩
      · simp [Config.start, hinstalls]
    · intro c m i job w' hI _ _ hadmits
      obtain ⟨hfs, -, hsame, -⟩ := world_admits hadmits
      refine ⟨job.role, hI.later (List.Subset.refl _) (by rw [hfs]) ?_ ?_ ?_ ?_, supervised_body job⟩
      · cases job with
        | update pid currentVersion =>
            rintro _ _ ⟨⟩
            exact List.nil_subset _
        | _ => rintro _ _ ⟨⟩
      · cases job <;> rintro _ _ ⟨⟩ ⟨⟩
      · intro image himage
        rw [World.files, hfs] at himage
        exact Or.inl himage
      · exact fun k hk => Or.inl (hsame ▸ hk)
    · intro c m i ch op k r w' hI _ _ hpre hexec
      refine ⟨(m i).next op r, ⟨rfl, ?_⟩, ?_⟩
      · cases op with
        | agent pid op => exact located_of_execAgent hI.path hexec
        | _ => trivial
      · cases hrole : m i with
        | supervising stopping =>
            rw [hrole] at hpre
            obtain ⟨stopping', hnext⟩ := supervising_next op r stopping
            rw [hnext]
            exact hI.supervises (supervises_of_exec hpre.1 hexec) _
        | updating pid mode =>
            rw [hrole] at hpre
            cases op with
            | agent pid' op =>
                obtain ⟨rfl, hpre'⟩ := hpre
                exact hI.agent hrole hpre' (agentEffect_of_exec hexec).2
            | _ => exact hpre.elim
  obtain ⟨m, hm, -⟩ := hrun
  exact hm.installs

end Releases

/-! ## Runs -/

section Runs
variable {β : Type} [Preorder β] {ι : Type} {setup : Setup} {rank : String → β} {w w' : World}

structure SupInv (setup : Setup) (rank : String → β) (w : World) (tr : List (Performed ι SupOp SupOp.Reply))
    (m : ι → Role) : Prop where
  path : PathInv setup rank w m
  recorded : Recorded setup rank w tr m

/-- Before any update: the agents, if there are any, run from the path or from its backup. -/
structure Installed (setup : Setup) (w : World) : Prop where
  path : w.tray.fs.exePath = setup.app.dest
  agents : ∀ a ∈ w.tray.agents, a.pid < w.tray.nextPID ∧
    (a.file = setup.app.dest ∨ a.file = setup.app.dest ++ ".bak")
  installs : w.installs = []
  history : w.history = []

theorem Installed.supInv (h : Installed setup w) : SupInv setup rank w [] (fun _ : ι => .supervising false) where
  path :=
    { path := h.path
      exclusive := by
        refine ⟨fun a ha => (h.agents a ha).1, fun a ha => (h.agents a ha).2, ?_, ?_, ?_⟩
        · rintro _ _ _ ⟨⟩
        · rintro _ _ _ ⟨⟩
        · rintro _ _ ⟨_, _, ⟨⟩, -⟩
      newest := by
        constructor
        all_goals simp [h.installs] }
  recorded := by
    constructor
    all_goals simp [h.history, World.updated]

variable [DecidableEq ι] {tr : List (Performed ι SupOp SupOp.Reply)} {m : ι → Role} {i : ι}

/-- An event of an agent: its end, when that completes an update. -/
theorem AgentEffect.history (setup : Setup) {ch : Updater.Choice} {pid : Nat} {op : Updater.Op} {r : op.Reply}
    (h : AgentEffect ch pid w op r w') : (∀ k ∈ w.installs, k ∈ w'.installs) ∧ (w'.history = w.history ∨
      ∃ e, w'.history = w.history ++ [e] ∧ Justified setup (.agent pid op) w e) := by
  cases h with
  | renames hrunning hok hsrc =>
      refine ⟨fun k hk => ?_, Or.inl rfl⟩
      rw [installs_moved]
      split_ifs
      · exact List.mem_cons_of_mem _ hk
      · exact hk
  | exits =>
      refine ⟨fun _ hk => hk, ?_⟩
      rename_i code
      cases hlookup : w.installs.lookup pid with
      | none => exact Or.inl (by simp only [World.exits, hlookup])
      | some data =>
          by_cases hcode : code = 0
          · obtain ⟨l₁, l₂, heq, -⟩ := List.lookup_eq_some_iff.mp hlookup
            refine Or.inr ⟨.updated data, by simp only [World.exits, hlookup, if_pos hcode], ?_, pid, ?_⟩
            · simp [SupOp.completes, hcode, hlookup]
            · simp [heq]
          · exact Or.inl (by simp only [World.exits, hlookup, if_neg hcode])
  | _ => exact ⟨fun _ hk => hk, Or.inl rfl⟩

/-- **One effect.** -/
theorem SupInv.step {ch : Choice} {op : SupOp} {r : op.Reply} (h : SupInv setup rank w tr m)
    (hpre : (supProtocol setup).pre (m i) op) (hexec : exec ch op w = some (r, w'))
    (hnewer : ∀ image ∈ supplied setup ch w op, ∀ k ∈ w.installs, setup.AtLeast rank k.2 image)
    (hwaits : ∀ pid ∈ op.waits, w.ended.lookup pid = some 0 → w.updated = false)
    (hcompletes : op.completes w = true → tr.any found = false) :
    SupInv setup rank w' (tr ++ [did i op r]) (update m i ((m i).next op r)) := by
  have hfound : found (did i op r) = true → w.updated = false := by
    intro hnow
    cases op with
    | wait pid =>
        simp only [exec] at hexec
        split_ifs at hexec with halive hzero
        · exact hwaits pid rfl hzero
        · cases hexec
          cases hnow
    | _ => cases hnow
  cases hrole : m i with
  | supervising stopping =>
      have hboth := hpre
      rw [hrole] at hboth
      have hs := supervises_of_exec hboth.1 hexec
      obtain ⟨stopping', hnext⟩ := supervising_next op r stopping
      refine ⟨h.path.supervises hs ?_ hnewer, ?_⟩
      · rw [hnext]
        rintro _ _ ⟨⟩
      · rw [← hrole]
        exact h.recorded.step (fun k hk => hs.installs ▸ hk) hs.history h.path.newest.current hpre hfound hcompletes
  | updating pid mode =>
      have hboth := hpre
      rw [hrole] at hboth
      cases op with
      | agent pid' op =>
          obtain ⟨rfl, hpre'⟩ := hboth
          obtain ⟨halive, he⟩ := agentEffect_of_exec hexec
          obtain ⟨hinstalls, hhistory⟩ := he.history setup
          refine ⟨h.path.agent hrole hpre' halive he hnewer, ?_⟩
          rw [← hrole]
          exact h.recorded.step hinstalls hhistory h.path.newest.current hpre hfound hcompletes
      | _ => exact hboth.elim

theorem SupInv.admits {job : Job} (h : SupInv setup rank w tr m) (hadmits : job.admits setup w = some w') :
    SupInv setup rank w' tr (update m i job.role) := by
  obtain ⟨hfs, hagents, hinstalls, hhistory⟩ := world_admits hadmits
  have hsteady : Steady w m i job.role := by
    cases job with
    | update pid currentVersion =>
        rintro _ _ ⟨⟩
        refine ⟨?_, fun haway => by cases haway⟩
        simp only [Job.admits] at hadmits
        split_ifs at hadmits with hthere
        simp only [Bool.and_eq_true, List.any_eq_true, decide_eq_true_eq] at hthere
        obtain ⟨a, ha, rfl, -⟩ := hthere.1
        exact h.path.exclusive.below a ha
    | _ => rintro _ _ ⟨⟩
  refine ⟨h.path.later (by rw [hfs]) hagents hsteady (fun path _ image himage => ?_) hinstalls, ?_⟩
  · rw [World.files, hfs] at himage
    exact himage
  · have hupdated : w'.updated = w.updated := by rw [World.updated, World.updated, hhistory]
    refine ⟨?_, hhistory ▸ h.recorded.newer, fun j hj => ?_, fun hstopped => h.recorded.stopped (hhistory ▸ hstopped),
      fun hup => h.recorded.watching (hupdated ▸ hup)⟩
    · intro data hdata
      rw [hinstalls]
      exact h.recorded.complete data (hhistory ▸ hdata)
    · by_cases hji : j = i
      · subst hji
        rw [Function.update_self] at hj
        cases job <;> cases hj
      · rw [Function.update_of_ne hji] at hj
        exact h.recorded.stopping j hj

variable {c : Lib.Config ι SupOp SupOp.Reply World}

/-- **Versions and the watchdog.** Before any update, in every run in which the binary embedded in the tray and the
staged releases are new enough when they come to the path, and the watchdog finds no agent ended with status 0 in a run
with a complete update, every agent started after an update is at least as new as it, and the watchdog has not
stopped. -/
theorem versions_kept (hw : Installed setup w)
    (h : Reaches (supervise setup) (fun c a => Newer setup rank c a ∧ OnWatch c a) (Config.start w) c) :
    Kept setup rank c.world.history := by
  have hrun : ∃ m : ι → Role, SupInv setup rank c.world c.trace m ∧ ∀ i, Supervised setup (m i) (c.thread i) := by
    refine Reaches.inv (F := fun _ => True) (SupInv setup rank) ?_ ?_ ?_ h
    · exact ⟨fun _ => .supervising false, hw.supInv, fun _ => trivial⟩
    · intro c m i job w' hI _ _ hadmits
      exact ⟨job.role, hI.admits hadmits, supervised_body job⟩
    · intro c m i ch op k r w' hI hG hop hpre hexec
      have hperf := Config.performs_step (J := Job) hop ch
      refine ⟨(m i).next op r, ⟨rfl, ?_⟩, hI.step hpre hexec (hG.1 _ hperf) (hG.2 _ hperf).1 (hG.2 _ hperf).2⟩
      cases op with
      | agent pid op => exact located_of_execAgent hI.path.path hexec
      | _ => trivial
  obtain ⟨m, hm, -⟩ := hrun
  exact hm.recorded.kept

end Runs

/-- The numbers of a version, compared as in a dictionary. -/
def versionNumbers (version : String) : List Nat :=
  (version.toList.splitOn '.').map fun part => part.foldl (fun n c => 10 * n + (c.toNat - 48)) 0

/-- The tray embeds the old binary, and the release is the new one. -/
def releaseSetup : Setup where
  ec := releaseEC
  platform := windows
  publicKeyPEM := releaseKey
  app := ⟨oldBinary, "C:", "https://api.timechamp.io"⟩
  version image := if image = newBinary then "1.1.0" else "1.0.0"

/-- The old binary is installed, and nothing runs. -/
def oldInstalled : World where
  tray :=
    { fs := installed, agents := [], nextPID := 100, pidFile := none, token := "00000000-0000-4000-8000-000000000001",
      identity := "", restartMu := false }
  ended := []
  installs := []
  history := []

inductive Goroutines where
  | watchdog
  | agent
  | tray
deriving DecidableEq

/-- What an agent is answered: the release, this body, and that its calls on the file system go well. -/
def answered (body : Bytes) : Choice := { agent := ⟨.ok newRelease, .ok body, .ok agentExe, .ok⟩ }

abbrev Schedule := List (Act Goroutines Choice Job)

/-- The updater of an agent downloads the release, installs it and exits. -/
def selfUpdate (pid : Nat) : Schedule :=
  .call .agent (.update pid "1.0.0") :: .step .agent (answered []) :: .step .agent (answered newBinary) ::
    .step .agent (answered newSigHex) :: List.replicate 7 (.step .agent (answered []))

/-- The tray starts the agent, which updates itself; the watchdog then starts it from the same path. -/
def updateThenStart : Schedule :=
  (.call .tray (.tray .autoLaunchIfRegistered) :: List.replicate 7 (.step .tray (answered [])) : Schedule) ++
    selfUpdate 100 ++ ([.call .watchdog (.watchdog 1), .step .watchdog (answered [])] : Schedule)

/-- The watchdog's agent updates itself and exits, at which the watchdog stops; the tray extracts the old binary and
starts it. -/
def updateThenRelaunch : Schedule :=
  (.call .watchdog (.watchdog 1) :: .step .watchdog (answered []) :: selfUpdate 100 : Schedule) ++
    (List.replicate 2 (.step .watchdog (answered [])) : Schedule) ++
    (.call .tray (.tray (.monitorAgent 10 false)) :: List.replicate 10 (.step .tray (answered [])) : Schedule)

theorem versions_kept_updateThenStart :
    Kept releaseSetup versionNumbers
      ((supervise releaseSetup).endOf (Config.start oldInstalled) updateThenStart).world.history :=
  versions_kept ⟨rfl, by simp [oldInstalled], rfl, rfl⟩ (reaches_endOf (by decide +kernel) (by decide +kernel))

/-- The old binary runs after the update, and the watchdog has stopped. -/
theorem not_versions_kept :
    ∃ c : Lib.Config Goroutines SupOp SupOp.Reply World,
      Reaches (supervise releaseSetup) (fun _ _ => True) (Config.start oldInstalled) c ∧
      c.world.history = [.started .watchdog oldBinary, .updated newBinary, .stopped, .started .tray oldBinary] ∧
      ¬ Kept releaseSetup versionNumbers c.world.history := by
  have hhistory : ((supervise releaseSetup).endOf (Config.start oldInstalled) updateThenRelaunch).world.history =
      [.started .watchdog oldBinary, .updated newBinary, .stopped, .started .tray oldBinary] := by decide +kernel
  refine ⟨_, reaches_endOf ((supervise releaseSetup).allowed_true _ _) (by decide +kernel), hhistory, fun hkept => ?_⟩
  refine hkept.watching newBinary ?_ ?_
  · rw [hhistory]
    exact List.mem_cons_of_mem _ List.mem_cons_self
  · rw [hhistory]
    exact List.mem_cons_of_mem _ (List.mem_cons_of_mem _ List.mem_cons_self)

end TimeChamp.Updater.Supervisors
