import Mathlib.Data.List.AList
import TimeChamp.Agent.Jobs

/-!
# Screenshot files

The files of the screenshots directory, beside the buffer: the capture that writes them, and the daily maintenance of
`cmd/agent/main.go` with its janitor, which removes stale files that no row tracks.

* `FileOp`, `FileReply` : the effects on files, over those of the sync code (`embed`);
* `FileWorld`, `execFile` : the files with their modification times; `pending` and `backed` are history;
* `captureScreenshot`, `screenshotWorker`, `janitor`, `pruneTick` : the code; `fileAgent` : the jobs that touch files
  or rows of screenshots.
-/

namespace TimeChamp.Agent
open TimeChamp.Lib TimeChamp.Heartbeat TimeChamp.Buffer TimeChamp.Sync

/-! ## Effects -/

inductive FileOp where
  | sync (op : Sync.Op)
  /-- The image of the display, encoded. -/
  | grab
  | writeFile (path : String)
  | readDir (dir : String)
  /-- The janitor's clock. `known` are the paths of the rows it has got by then, `listed` those of the images. -/
  | sweepClock (known listed : List String)
  /-- `ent.Info()`: the modification time. -/
  | info (path : String)
  | checkpoint

abbrev FileReply : FileOp → Type
  | .sync op => Reply op
  | .grab | .writeFile _ | .checkpoint => Except String Unit
  | .readDir _ => List String
  | .sweepClock _ _ => Int
  | .info _ => Except String Int

abbrev FileAgent (α : Type) := Prog FileOp FileReply α

/-- A program of the sync code. -/
def ofSync {α : Type} (p : Sync.Agent α) : FileAgent α := p.embed FileOp.sync fun _ r => r

namespace FileAgent
abbrev now : FileAgent Int := .perform (E := FileOp) (.sync .now)
abbrev listUnsynced (t : TableName) (limit : Nat) : FileAgent (Except String (List (Row t))) :=
  .perform (E := FileOp) (.sync (.listUnsynced t limit))
abbrev insert (t : TableName) (rows : List (Row t)) : FileAgent (Except String Unit) :=
  .perform (E := FileOp) (.sync (.insert t rows))
abbrev remove (path : String) : FileAgent Unit := .perform (E := FileOp) (.sync (.remove path))
abbrev grab : FileAgent (Except String Unit) := .perform (E := FileOp) .grab
abbrev writeFile (path : String) : FileAgent (Except String Unit) := .perform (E := FileOp) (.writeFile path)
abbrev readDir (dir : String) : FileAgent (List String) := .perform (E := FileOp) (.readDir dir)
abbrev sweepClock (known listed : List String) : FileAgent Int := .perform (E := FileOp) (.sweepClock known listed)
abbrev info (path : String) : FileAgent (Except String Int) := .perform (E := FileOp) (.info path)
abbrev checkpoint : FileAgent (Except String Unit) := .perform (E := FileOp) .checkpoint
end FileAgent

/-! ## The world -/

/-- The sync code's world and the files, by path, with their modification times. The rest is history: the paths of
captures whose row may still be inserted, and the rows whose file existed when they were inserted. -/
structure FileWorld where
  agent : World
  files : AList fun _ : String => Int
  pending : List String
  backed : List Nat

def FileWorld.screenshots (w : FileWorld) : List ScreenshotRecord := (w.agent.db.table .screenshots).rows

/-- Nothing is running; the rows that have their file count as inserted with it. -/
def FileWorld.start (db : DB) (files : AList fun _ : String => Int) : FileWorld where
  agent := World.start db
  files := files
  pending := []
  backed := ((db.table .screenshots).rows.filter fun r : ScreenshotRecord => (files.lookup r.localPath).isSome).map
    fun r : ScreenshotRecord => r.id

/-- What the outside decides about an effect; also which files of a directory a listing gives, and whether a write that
fails leaves a file. -/
structure FileChoice extends Choice where
  names : List String := []
  leaves : Bool := false

def noSuchFile : String := "no such file or directory"

/-- `filepath.Join` of a directory and a name in it. -/
def joinPath (dir name : String) : String := dir ++ "/" ++ name

/-- An insert of screenshots: the rows are no longer to come, and those whose file is there are backed. -/
def FileWorld.inserted (w : FileWorld) (rows : List ScreenshotRecord) (agent : World) : FileWorld :=
  { w with
    agent := agent
    pending := w.pending.filter fun p => !rows.any fun r => r.localPath == p
    backed := w.backed ++
      (((agent.db.table .screenshots).rows.filter fun r : ScreenshotRecord =>
        decide ((w.agent.db.table .screenshots).nextKey ≤ r.id) && (w.files.lookup r.localPath).isSome).map
          fun r : ScreenshotRecord => r.id) }

/-- An effect of the sync code. A stat and a read find what is there; a removal that fails leaves the file. -/
def execSync (ch : FileChoice) : (op : Sync.Op) → FileWorld → Option (Reply op × FileWorld)
  | .stat path, w =>
    some (if ch.error.isSome then .failed else if (w.files.lookup path).isSome then .found ch.number else .notExist, w)
  | .readFile path, w =>
    some (if (w.files.lookup path).isSome then ch.fallible () else .error noSuchFile, w)
  | .remove path, w => some ((), if ch.error.isSome then w else { w with files := w.files.erase path })
  | .insert .screenshots rows, w =>
    (exec ch.toChoice (.insert .screenshots rows) w.agent).map fun r => (r.1, w.inserted rows r.2)
  | op, w => (exec ch.toChoice op w.agent).map fun r => (r.1, { w with agent := r.2 })

def execFile (ch : FileChoice) : (e : FileOp) → FileWorld → Option (FileReply e × FileWorld)
  | .sync op, w => execSync ch op w
  | .grab, w => some (ch.fallible (), w)
  | .writeFile path, w =>
    some (ch.fallible (), { w with
      files := if ch.error.isNone || ch.leaves then w.files.insert path ch.now else w.files.erase path
      pending := if ch.error.isNone then path :: w.pending else w.pending })
  | .readDir dir, w => some (ch.names.filter fun name => (w.files.lookup (joinPath dir name)).isSome, w)
  | .sweepClock _ _, w => some (ch.now, w)
  | .info path, w =>
    some (match w.files.lookup path with
      | some modTime => ch.fallible modTime
      | none => .error noSuchFile, w)
  | .checkpoint, w => some (ch.fallible (), w)

/-! ## The code -/

/-- `CaptureScreenshot`: the path of the file written. -/
def captureScreenshot (dir : String) : FileAgent (Except String String) := do
  match ← FileAgent.grab with
  | .error err => return .error err
  | .ok () =>
    let t : Int ← FileAgent.now
    let path := joinPath dir s!"ss_{t / 1000000}.jpg"
    match ← FileAgent.writeFile path with
    | .error err => return .error ("write file: " ++ err)
    | .ok () => return .ok path

/-- One turn of the screenshot worker. -/
def screenshotWorker (dir employeeID orgID : String) : FileAgent Unit := do
  match ← captureScreenshot dir with
  | .error _ => return
  | .ok path =>
    let capturedAt : Int ← FileAgent.now
    let _ ← FileAgent.insert .screenshots [⟨0, employeeID, orgID, path, "", capturedAt, false⟩]

/-- `filepath.Ext(name) == ".jpg"`. -/
def isJpg (name : String) : Bool := name.endsWith ".jpg"

def staleAfter : Int := 7 * day

/-- The janitor's loop over the directory. -/
def sweep (dir : String) (known : List String) (now : Int) : List String → FileAgent Unit
  | [] => return
  | name :: names => do
    if !isJpg name then sweep dir known now names
    else if known.contains (joinPath dir name) then sweep dir known now names
    else
      match ← FileAgent.info (joinPath dir name) with
      | .error _ => sweep dir known now names
      | .ok modTime =>
        if now - modTime < staleAfter then sweep dir known now names
        else
          FileAgent.remove (joinPath dir name)
          sweep dir known now names

/-- The paths of the rows, none when the list fails. -/
def knownPaths : Except String (List ScreenshotRecord) → List String
  | .ok rows => rows.map ScreenshotRecord.localPath
  | .error _ => []

/-- The stale screenshot janitor. -/
def janitor (dir : String) : FileAgent Unit := do
  let rows ← FileAgent.listUnsynced .screenshots 100000
  let known := knownPaths rows
  let entries : List String ← FileAgent.readDir dir
  let now : Int ← FileAgent.sweepClock known ((entries.filter isJpg).map (joinPath dir))
  sweep dir known now entries

def maxBufferedRows : Int := 10000

/-- The daily tick. -/
def pruneTick (dir : String) (maxBufferDays : Int) : FileAgent Unit := do
  let _ ← ofSync (pruneSynced maxBufferDays)
  let _ ← ofSync (capBuffer maxBufferedRows)
  let _ ← FileAgent.checkpoint
  janitor dir

/-! ## The jobs -/

inductive FileJob where
  | screenshotWorker (dir employeeID orgID : String)
  | flushScreenshots
  | capBuffer (maxRows : Int)
  | pruneSynced (maxDays : Int)
  | pruneTick (dir : String) (maxBufferDays : Int)

def FileJob.body : FileJob → FileAgent Unit
  | .screenshotWorker dir employeeID orgID => Agent.screenshotWorker dir employeeID orgID
  | .flushScreenshots => ofSync (discard Sync.flushScreenshots)
  | .capBuffer maxRows => ofSync (discard (Agent.capBuffer maxRows))
  | .pruneSynced maxDays => ofSync (discard (Agent.pruneSynced maxDays))
  | .pruneTick dir maxBufferDays => Agent.pruneTick dir maxBufferDays

/-- The jobs on any number of goroutines. -/
def fileAgent : System FileOp FileReply FileWorld FileChoice FileJob := ⟨execFile, fun _ w => some w, FileJob.body⟩

end TimeChamp.Agent
