import TimeChamp.Tray.App

/-!
# The agent and its supervisors

`cmd/watchdog` and the tray start the agent from one file, which the agent itself replaces by a release.

* `SupOp`, `World`, `exec` : what they do, and what it does to the processes, the files and the history;
* `Event` : the updates that ended with status 0, the agents started, and the watchdog's stop;
* `runWatchdogLoop` : the watchdog; `supervise`, the system of watchdog, tray and agents.
-/

namespace TimeChamp.Updater.Supervisors
open TimeChamp.Lib

/-! ## Effects -/

/-- What watchdog, tray and agents do; `stop` when the loop of the watchdog returns. -/
inductive SupOp where
  | tray (op : Tray.TrayOp)
  | agent (pid : Nat) (op : Updater.Op)
  | startAgent (path : String)
  | wait (pid : Nat)
  | now
  | sleep (duration : Int)
  | stop
deriving DecidableEq

abbrev SupOp.Reply : SupOp → Type
  | .tray op => op.Reply
  | .agent _ op => op.Reply
  | .startAgent _ => Except String Nat
  | .wait _ => Except String Unit
  | .now => Int
  | .sleep _ => Unit
  | .stop => Unit

inductive Starter where
  | watchdog
  | tray
deriving DecidableEq

/-- What is to be kept of a run. -/
inductive Event where
  | updated (data : Bytes)
  | started (starter : Starter) (image : Bytes)
  | stopped
deriving DecidableEq

/-- What the tray sees, the status with which processes ended, what updates have put at the path, and the history. -/
structure World where
  tray : Tray.World
  ended : List (Nat × Nat)
  installs : List (Nat × Bytes)
  history : List Event

structure Choice where
  tray : Tray.Choice := {}
  agent : Updater.Choice
  now : Int := 0

/-- The binary at a path. -/
def World.files (w : World) (path : String) : Option Bytes := w.tray.fs.files path

/-- The file of a running executable may be renamed, not replaced. -/
def World.renamed (w : World) (pid : Nat) (src dst : String) (fs : Updater.World) : World :=
  { w with
    tray := { w.tray with
      fs := fs
      agents := w.tray.agents.map fun a => if a.file = src then { a with file := dst } else a }
    installs :=
      match fs.files dst with
      | some data =>
        if dst = w.tray.fs.exePath ∧ src = w.tray.fs.exePath ++ ".update" then (pid, data) :: w.installs else w.installs
      | none => w.installs }

/-- The process ends; with status 0 after an update, the update is complete. -/
def World.exits (w : World) (pid code : Nat) : World :=
  { w with
    tray := w.tray.kill pid
    ended := (pid, code) :: w.ended
    history :=
      match w.installs.lookup pid with
      | some data => if code = 0 then w.history ++ [.updated data] else w.history
      | none => w.history }

/-- An effect of an agent: none once it is dead. -/
def execAgent (pid : Nat) (ch : Updater.Choice) (op : Updater.Op) (w : World) : Option (op.Reply × World) :=
  if w.tray.alive pid then
    match op with
    | .rename src dst =>
      if w.tray.running dst then some (.error "Access is denied.", w)
      else
        match Updater.exec ch (.rename src dst) w.tray.fs with
        | some (.ok _, fs) => some (.ok (), w.renamed pid src dst fs)
        | some (.error e, _) => some (.error e, w)
        | none => none
    | .writeFile path data =>
      if w.tray.running path then some (.error "Access is denied.", w)
      else
        (Updater.exec ch (.writeFile path data) w.tray.fs).map fun r =>
          (r.1, { w with tray := { w.tray with fs := r.2 } })
    | .remove path =>
      if w.tray.running path then some (.error "Access is denied.", w)
      else (Updater.exec ch (.remove path) w.tray.fs).map fun r => (r.1, { w with tray := { w.tray with fs := r.2 } })
    | .exit code => some ((), w.exits pid code)
    | op => (Updater.exec ch op w.tray.fs).map fun r => (r.1, { w with tray := { w.tray with fs := r.2 } })
  else none

/-- The binary of a process that was started joins the history. -/
def World.starts (w : World) (starter : Starter) (path : String) (r : Except String Nat) (tray : Tray.World) : World :=
  { w with
    tray := tray
    history :=
      match r, w.files path with
      | .ok _, some image => w.history ++ [.started starter image]
      | _, _ => w.history }

def exec (ch : Choice) : (op : SupOp) → World → Option (op.Reply × World)
  | .tray (.start path apiURL), w =>
    (Tray.exec ch.tray (.start path apiURL) w.tray).map fun r => (r.1, w.starts .tray path r.1 r.2)
  | .tray op, w => (Tray.exec ch.tray op w.tray).map fun r => (r.1, { w with tray := r.2 })
  | .agent pid op, w => execAgent pid ch.agent op w
  | .startAgent path, w =>
    (Tray.exec ch.tray (.start path "") w.tray).map fun r => (r.1, w.starts .watchdog path r.1 r.2)
  | .wait pid, w =>
    if w.tray.alive pid then none
    else some (if w.ended.lookup pid = some 0 then .ok () else .error "exit status", w)
  | .now, w => some (ch.now, w)
  | .sleep _, w => some ((), w)
  | .stop, w => some ((), { w with history := w.history ++ [.stopped] })

abbrev Program := Prog SupOp SupOp.Reply

/-! ## The watchdog -/

/-- In nanoseconds, as the readings of the clock are. -/
def second : Int := 1000000000

def restartDelay : Int := 3 * second

def maxCrashWindow : Int := 60 * second

def maxCrashCount : Nat := 5

def backoffDuration : Int := 5 * 60 * second

/-- The next rounds of the loop, with the crashes counted and the time of the first of them. -/
def runWatchdogLoop (agentPath : String) : Nat → Nat → Int → Program Unit
  | 0, _, _ => pure ()
  | rounds + 1, crashes, firstCrash => do
    let started : Except String Nat ← Prog.perform (E := SupOp) (.startAgent agentPath)
    match started with
    | .error _ =>
      Prog.perform (E := SupOp) (.sleep restartDelay)
      runWatchdogLoop agentPath rounds crashes firstCrash
    | .ok pid =>
      let exited : Except String Unit ← Prog.perform (E := SupOp) (.wait pid)
      match exited with
      | .ok _ => Prog.perform (E := SupOp) .stop
      | .error _ =>
        let now : Int ← Prog.perform (E := SupOp) .now
        let crash := if crashes = 0 ∨ now - firstCrash > maxCrashWindow then (1, now) else (crashes + 1, firstCrash)
        if crash.1 ≥ maxCrashCount then
          Prog.perform (E := SupOp) (.sleep backoffDuration)
          runWatchdogLoop agentPath rounds 0 crash.2
        else
          Prog.perform (E := SupOp) (.sleep restartDelay)
          runWatchdogLoop agentPath rounds crash.1 crash.2

/-! ## The system -/

/-- What is fixed: the cryptography, the platform, the key of the updates, the tray, and the version that is compiled
into a binary. -/
structure Setup where
  ec : EC
  platform : Platform
  publicKeyPEM : String
  app : Tray.App
  version : Bytes → String

/-- The watchdog for some rounds, what the tray does, or an update of a running agent. -/
inductive Job where
  | watchdog (rounds : Nat)
  | tray (job : Tray.Job)
  | update (pid : Nat) (currentVersion : String)

/-- An agent that is asked to stop ends with status 0. -/
def Job.admits (setup : Setup) : Job → World → Option World
  | .watchdog _, w => some w
  | .tray job, w =>
    (job.admits w.tray).map fun tray =>
      { w with
        tray := tray
        ended :=
          match job with
          | .quits pid => (pid, 0) :: w.ended
          | _ => w.ended }
  | .update pid currentVersion, w =>
    if (w.tray.agents.any fun a => a.pid = pid && setup.version a.image = currentVersion) && currentVersion ≠ "dev" then
      some w
    else none

def Job.body (setup : Setup) : Job → Program Unit
  | .watchdog rounds => runWatchdogLoop setup.app.dest rounds 0 0
  | .tray job => (job.body setup.app).embed SupOp.tray fun _ r => r
  | .update pid currentVersion =>
    (autoUpdate setup.ec setup.platform ⟨currentVersion, "timechamp/agent", setup.publicKeyPEM⟩).embed (SupOp.agent pid)
      fun _ r => r

def supervise (setup : Setup) : System SupOp SupOp.Reply World Choice Job :=
  ⟨exec, Job.admits setup, Job.body setup⟩

end TimeChamp.Updater.Supervisors
