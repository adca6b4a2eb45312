import TimeChamp.Updater.Update

/-!
# The tray

`cmd/tray/app.go`: the goroutines that launch the agent, and what they see of it.

* `TrayOp`, `World`, `exec` : the effects, what they act on, and what each does given the `Choice` of the outside;
* `isAgentRunning`, `extractAgent`, `stopAgentByPID` : the checks and steps, of which `autoLaunchIfRegistered`,
  `monitorAgent`, `restartAgentIfNeeded` and `register` are made;
* `Job`, `tray` : the goroutines that run them, and what an agent does meanwhile.

An agent started by the tray writes its PID file and then listens, some time after it was started; it may end at any
time. The file of a running executable cannot be written.
-/

namespace TimeChamp.Tray
open TimeChamp.Lib
open Updater (Bytes FsOutcome)

/-- What is fixed: the embedded binary, `cfg.DataDir` and `cfg.APIURL`. -/
structure App where
  agentBinary : Bytes
  dataDir : String
  apiURL : String

/-! ## Effects -/

inductive TrayOp where
  | loadToken
  | saveToken (token : String)
  | loadIdentity
  | saveIdentity (orgID employeeID apiURL : String)
  | register (apiURL displayName token : String)
  | health
  | readPID
  | openProcess (pid : Nat)
  | findProcess (pid : Nat)
  | terminate (pid : Nat)
  | mkdirAll (dir : String)
  | writeFile (path : String) (data : Bytes)
  | start (path apiURL : String)
  | tryLock
  | unlock
  | log (message : String)
deriving DecidableEq

/-- `start` answers with the process; a registration with the token, the employee and the organization. -/
abbrev TrayOp.Reply : TrayOp → Type
  | .loadToken => Except String String
  | .saveToken _ => Except String Unit
  | .loadIdentity => Except String String
  | .saveIdentity _ _ _ => Except String Unit
  | .register _ _ _ => Except String (String × String × String)
  | .health => Except String Nat
  | .readPID => Option Nat
  | .openProcess _ => Bool
  | .findProcess _ => Except String Unit
  | .terminate _ => Unit
  | .mkdirAll _ => Except String Unit
  | .writeFile _ _ => Except String Unit
  | .start _ _ => Except String Nat
  | .tryLock => Bool
  | .unlock => Unit
  | .log _ => Unit

/-- A process that is alive: what it runs, where the file of it is, and whether its health endpoint is up. -/
structure Agent where
  pid : Nat
  image : Bytes
  file : String
  listening : Bool
deriving DecidableEq

structure World where
  fs : Updater.World
  agents : List Agent
  nextPID : Nat
  pidFile : Option Nat
  token : String
  identity : String
  restartMu : Bool

/-- What the outside decides; `taken` when another program has the id of a process. -/
structure Choice where
  error : Option String := none
  fs : FsOutcome := .ok
  taken : Bool := false
  killed : Bool := true
  credentials : String × String × String := ("", "", "")

/-- The answer of a call that may fail. -/
def Choice.answer {α : Type} (ch : Choice) (a : α) : Except String α :=
  match ch.error with
  | some e => .error e
  | none => .ok a

/-- An agent runs from the file. -/
def World.running (w : World) (path : String) : Bool := w.agents.any fun a => a.file = path

def World.alive (w : World) (pid : Nat) : Bool := w.agents.any fun a => a.pid = pid

def World.kill (w : World) (pid : Nat) : World := { w with agents := w.agents.filter fun a => a.pid ≠ pid }

/-- The agents, with one changed. -/
def World.modify (w : World) (pid : Nat) (f : Agent → Agent) : World :=
  { w with agents := w.agents.map fun a => if a.pid = pid then f a else a }

def exec (ch : Choice) : (op : TrayOp) → World → Option (op.Reply × World)
  | .loadToken, w => some (ch.answer w.token, w)
  | .saveToken token, w =>
    match ch.error with
    | some e => some (.error e, w)
    | none => some (.ok (), { w with token := token })
  | .loadIdentity, w => some (ch.answer w.identity, w)
  | .saveIdentity _ _ apiURL, w =>
    match ch.error with
    | some e => some (.error e, w)
    | none => some (.ok (), { w with identity := apiURL })
  | .register _ _ _, w => some (ch.answer ch.credentials, w)
  | .health, w => some (if w.agents.any Agent.listening then ch.answer 200 else .error "connection refused", w)
  | .readPID, w =>
    match ch.error with
    | some _ => some (none, w)
    | none => some (w.pidFile, w)
  | .openProcess pid, w => some (w.alive pid || ch.taken, w)
  | .findProcess pid, w => some (if w.alive pid || ch.taken then .ok () else .error "The parameter is incorrect.", w)
  | .terminate pid, w => some ((), if ch.killed then w.kill pid else w)
  | .mkdirAll _, w => some (ch.answer (), w)
  | .writeFile path data, w =>
    if w.running path then
      some (.error "The process cannot access the file because it is being used by another process.", w)
    else
      match ch.fs with
      | .ok => some (.ok (), { w with fs := w.fs.set path (some data) })
      | .failed => some (.error "Access is denied.", w)
      | .cut written =>
        some (.error "There is not enough space on the disk.",
          { w with fs := w.fs.set path (some (data.take written)) })
  | .start path _, w =>
    match ch.error, w.fs.files path with
    | none, some image =>
      some (.ok w.nextPID, { w with agents := ⟨w.nextPID, image, path, false⟩ :: w.agents, nextPID := w.nextPID + 1 })
    | none, none => some (.error "The system cannot find the file specified.", w)
    | some e, _ => some (.error e, w)
  | .tryLock, w => some (!w.restartMu, { w with restartMu := true })
  | .unlock, w => some ((), { w with restartMu := false })
  | .log _, w => some ((), w)

abbrev Goroutine := Prog TrayOp TrayOp.Reply

namespace Goroutine
abbrev loadToken : Goroutine (Except String String) := .perform (E := TrayOp) .loadToken
abbrev saveToken (token : String) : Goroutine (Except String Unit) := .perform (E := TrayOp) (.saveToken token)
abbrev loadIdentity : Goroutine (Except String String) := .perform (E := TrayOp) .loadIdentity
abbrev saveIdentity (orgID employeeID apiURL : String) : Goroutine (Except String Unit) :=
  .perform (E := TrayOp) (.saveIdentity orgID employeeID apiURL)
abbrev register (apiURL displayName token : String) : Goroutine (Except String (String × String × String)) :=
  .perform (E := TrayOp) (.register apiURL displayName token)
abbrev health : Goroutine (Except String Nat) := .perform (E := TrayOp) .health
abbrev readPID : Goroutine (Option Nat) := .perform (E := TrayOp) .readPID
abbrev openProcess (pid : Nat) : Goroutine Bool := .perform (E := TrayOp) (.openProcess pid)
abbrev findProcess (pid : Nat) : Goroutine (Except String Unit) := .perform (E := TrayOp) (.findProcess pid)
abbrev terminate (pid : Nat) : Goroutine Unit := .perform (E := TrayOp) (.terminate pid)
abbrev mkdirAll (dir : String) : Goroutine (Except String Unit) := .perform (E := TrayOp) (.mkdirAll dir)
abbrev writeFile (path : String) (data : Bytes) : Goroutine (Except String Unit) :=
  .perform (E := TrayOp) (.writeFile path data)
abbrev start (path apiURL : String) : Goroutine (Except String Nat) := .perform (E := TrayOp) (.start path apiURL)
abbrev tryLock : Goroutine Bool := .perform (E := TrayOp) .tryLock
abbrev unlock : Goroutine Unit := .perform (E := TrayOp) .unlock
abbrev log (message : String) : Goroutine Unit := .perform (E := TrayOp) (.log message)
end Goroutine

/-! ## The programs -/

section
variable (app : App)

def isAgentRunning : Goroutine Bool := do
  match ← Goroutine.health with
  | .ok status => pure (decide (status = 200))
  | .error _ =>
    match ← Goroutine.readPID with
    | none => pure false
    | some pid => Goroutine.openProcess pid

/-- Where the agent is extracted to. -/
def App.dest : String := app.dataDir ++ "\\timechamp-agent.exe"

def extractAgent : Goroutine (Except String String) := do
  match ← Goroutine.mkdirAll app.dataDir with
  | .error e => pure (.error e)
  | .ok _ =>
    match ← Goroutine.writeFile app.dest app.agentBinary with
    | .error e => pure (.error e)
    | .ok _ => pure (.ok app.dest)

/-- Extract the agent and start it; an identity that is not empty gives the API. -/
def launch : Goroutine Unit := do
  let identity ← Goroutine.loadIdentity
  let apiURL :=
    match identity with
    | .ok url => if url = "" then app.apiURL else url
    | .error _ => app.apiURL
  match ← extractAgent app with
  | .error _ => pure ()
  | .ok path =>
    match ← Goroutine.start path apiURL with
    | .error e => Goroutine.log ("autoLaunch: failed to start agent: " ++ e)
    | .ok _ => pure ()

def autoLaunchIfRegistered : Goroutine Unit := do
  match ← Goroutine.loadToken with
  | .error _ => pure ()
  | .ok token =>
    if token = "" then pure ()
    else
      if ← isAgentRunning then pure () else launch app

/-- Seconds between two rounds of `monitorAgent`. -/
def minBackoff : Nat := 10

def maxBackoff : Nat := 120

/-- A round of `monitorAgent`, woken by a resume or by its timer; the seconds to the next. -/
def monitorAgent (backoff : Nat) (woken : Bool) : Goroutine Nat := do
  if woken then pure minBackoff
  else
    match ← Goroutine.loadToken with
    | .error _ => pure minBackoff
    | .ok token =>
      if token = "" then pure minBackoff
      else
        if ← isAgentRunning then pure minBackoff
        else
          autoLaunchIfRegistered app
          pure (min (2 * backoff) maxBackoff)

/-- The process of the PID file is asked to stop, which on Windows it cannot be, and killed after three seconds. -/
def stopAgentByPID : Goroutine Unit := do
  match ← Goroutine.readPID with
  | none => pure ()
  | some pid =>
    match ← Goroutine.findProcess pid with
    | .error _ => pure ()
    | .ok _ => Goroutine.terminate pid

def restartAgentIfNeeded : Goroutine Unit := do
  if ← Goroutine.tryLock then
    match ← Goroutine.health with
    | .ok status =>
      if status = 200 then Goroutine.unlock
      else
        stopAgentByPID
        autoLaunchIfRegistered app
        Goroutine.unlock
    | .error _ =>
      stopAgentByPID
      autoLaunchIfRegistered app
      Goroutine.unlock
  else pure ()

/-- `Register`; without a display name the token is an invitation. -/
def register (apiURL displayName personalToken : String) : Goroutine (Except String Unit) := do
  match ← Goroutine.register apiURL displayName personalToken with
  | .error e => pure (.error ("registration failed: " ++ e))
  | .ok (agentToken, employeeID, orgID) =>
    match ← Goroutine.saveToken agentToken with
    | .error e => pure (.error ("save token: " ++ e))
    | .ok _ =>
      match ← Goroutine.saveIdentity orgID employeeID apiURL with
      | .error e => pure (.error ("save identity: " ++ e))
      | .ok _ =>
        match ← extractAgent app with
        | .error e => pure (.error ("extract agent: " ++ e))
        | .ok path =>
          match ← Goroutine.start path apiURL with
          | .error e => pure (.error ("launch agent: " ++ e))
          | .ok _ => pure (.ok ())

/-! ## The goroutines -/

/-- What a goroutine is given: one of the four ways to launch, or what an agent does by itself. `quits` removes the PID
file, as an agent that is asked to stop does; `crashes` leaves it. -/
inductive Job where
  | autoLaunchIfRegistered
  | monitorAgent (backoff : Nat) (woken : Bool)
  | restartAgentIfNeeded
  | register (apiURL displayName personalToken : String)
  | writesPID (pid : Nat)
  | listens (pid : Nat)
  | crashes (pid : Nat)
  | quits (pid : Nat)

def Job.admits : Job → World → Option World
  | .writesPID pid, w => if w.alive pid then some { w with pidFile := some pid } else none
  | .listens pid, w => if w.alive pid then some (w.modify pid fun a => { a with listening := true }) else none
  | .crashes pid, w => if w.alive pid then some (w.kill pid) else none
  | .quits pid, w => if w.alive pid then some { w.kill pid with pidFile := none } else none
  | _, w => some w

def Job.body : Job → Goroutine Unit
  | .autoLaunchIfRegistered => Tray.autoLaunchIfRegistered app
  | .monitorAgent backoff woken => Tray.monitorAgent app backoff woken >>= fun _ => pure ()
  | .restartAgentIfNeeded => Tray.restartAgentIfNeeded app
  | .register apiURL displayName personalToken =>
    Tray.register app apiURL displayName personalToken >>= fun _ => pure ()
  | _ => pure ()

def tray : System TrayOp TrayOp.Reply World Choice Job := ⟨exec, Job.admits, Job.body app⟩

end

end TimeChamp.Tray
