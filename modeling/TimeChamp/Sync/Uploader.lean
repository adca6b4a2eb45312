import TimeChamp.Sync.Client

/-!
# The uploader

`internal/sync/uploader.go`. Three of the four flushes are one function, `Flush.run`, at three values; `FlushScreenshots`
and `BurstUploadScreenshot` have bodies of their own.
-/

namespace TimeChamp.Sync
open TimeChamp.Lib TimeChamp.Heartbeat TimeChamp.Buffer TimeChamp.Sync.Agent

def batchSize : Nat := 100

/-- `deleteByIDs`: no statement at all for no ids. -/
def deleteByIDs (t : TableName) (ids : List Nat) : Agent (Except String Unit) :=
  if ids.isEmpty then pure (.ok ()) else execDelete t ids

/-- What the three list-post-delete flushes differ in: the error of a refused flush, the texts put before the others,
the number reported with a failed delete, the endpoint and the payload. -/
structure Flush (t : TableName) where
  refused : Option String
  listErr : String
  uploadErr : String
  markErr : Nat → String → Nat × Option String
  path : String
  payload : List (Row t) → Body

/-- The request for a batch. -/
def Flush.request {t : TableName} (f : Flush t) (events : List (Row t)) : Request :=
  ⟨f.path, f.payload events, (events.map Row.id).map fun id => (t, id)⟩

/-- Upload the oldest unsynced rows, then delete them: the number of rows flushed, and the error. -/
def Flush.run {t : TableName} (f : Flush t) : Agent (Nat × Option String) := do
  if !(← isAvailable (.flush t)) then return (0, f.refused)
  match ← listUnsynced t batchSize with
  | .error err => return (0, some (f.listErr ++ err))
  | .ok events =>
    if events.isEmpty then return (0, none)
    match ← post (f.request events) with
    | some err => return (0, some (f.uploadErr ++ err))
    | none =>
      match ← deleteByIDs t (events.map Row.id) with
      | .error err => return f.markErr events.length err
      | .ok () => return (events.length, none)

def activityEventDTO (e : ActivityEvent) : ActivityEventDTO :=
  ⟨e.employeeID, e.orgID, e.appName, e.windowTitle, e.url, e.category, e.durationMs, e.startedAt, e.endedAt⟩

def keystrokeEventDTO (e : KeystrokeEvent) : KeystrokeEventDTO :=
  ⟨e.employeeID, e.orgID, e.keysPerMin, e.mousePerMin, e.recordedAt⟩

def metricsEventDTO (e : SystemMetricsEvent) : MetricsEventDTO :=
  ⟨e.employeeID, e.orgID, e.cpuPercent, e.memUsedMB, e.memTotalMB, e.agentCPUPercent, e.agentMemMB, e.recordedAt⟩

def activityFlush : Flush .activityEvents where
  refused := some "API unavailable (circuit open)"
  listErr := "list activity: "
  uploadErr := "upload activity: "
  markErr _ err := (0, some ("mark synced: " ++ err))
  path := "/agent/sync/activity"
  payload events := .activityPayload (events.map activityEventDTO)

def keystrokesFlush : Flush .keystrokeEvents where
  refused := none
  listErr := ""
  uploadErr := ""
  markErr n err := (n, some err)
  path := "/agent/sync/keystrokes"
  payload events := .keystrokePayload (events.map keystrokeEventDTO)

def metricsFlush : Flush .systemMetrics where
  refused := none
  listErr := ""
  uploadErr := ""
  markErr n err := (n, some err)
  path := "/agent/sync/metrics"
  payload events := .metricsPayload (events.map metricsEventDTO)

def flushActivity : Agent (Nat × Option String) := activityFlush.run

def flushKeystrokes : Agent (Nat × Option String) := keystrokesFlush.run

def flushMetrics : Agent (Nat × Option String) := metricsFlush.run

/-! ## Screenshots -/

/-- `MarkScreenshotSynced` deletes the record; the key is not used. -/
def markScreenshotSynced (id : Nat) (_s3Key : String) : Agent (Except String Unit) := execDelete .screenshots [id]

/-- `filepath.Base` on Unix: the last element of a path, trailing separators removed. -/
def basename (path : String) : String :=
  let stripped := path.toList.reverse.dropWhile (· == '/')
  if path.isEmpty then "." else if stripped.isEmpty then "/"
  else String.ofList (stripped.takeWhile (· != '/')).reverse

/-- The size a stat reports, zero when it fails. -/
def StatReply.size : StatReply → Int
  | .found size => size
  | _ => 0

/-- One attempt at a screenshot. -/
def screenshotAttempt (r : ScreenshotRecord) : Agent (Bool × Option String) := do
  if !(← isAvailable .screenshotRetry) then return (true, some "circuit open")
  match ← getPresignedUploadURL (basename r.localPath) with
  | .error err => return (false, some ("presign: " ++ err))
  | .ok (uploadURL, s3Key) =>
    let fi ← stat r.localPath
    match ← uploadFileToS3 r.localPath uploadURL with
    | some err => return (false, some ("S3 upload: " ++ err))
    | none =>
      match ← saveScreenshotMeta s3Key r.capturedAt fi.size with
      | some err => return (false, some ("save meta: " ++ err))
      | none =>
        match ← markScreenshotSynced r.id s3Key with
        | .error err => return (false, some ("mark synced: " ++ err))
        | .ok () =>
          remove r.localPath
          return (false, none)

/-- The `MaxElapsedTime` of `screenshotRetry`. -/
def screenshotRetry : Int := 90 * second

/-- The loop of `FlushScreenshots`: a record whose file is gone is discarded, a record that fails is skipped. -/
def uploadScreenshots : List ScreenshotRecord → Nat → Agent Nat
  | [], flushed => return flushed
  | r :: records, flushed => do
    match ← stat r.localPath with
    | .notExist =>
      let _ ← markScreenshotSynced r.id "discarded"
      uploadScreenshots records (flushed + 1)
    | _ =>
      match ← withRetry screenshotRetry (screenshotAttempt r) with
      | none => uploadScreenshots records (flushed + 1)
      | some _ => uploadScreenshots records flushed

def flushScreenshots : Agent (Nat × Option String) := do
  if !(← isAvailable (.flush .screenshots)) then return (0, none)
  match ← listUnsynced .screenshots 10 with
  | .error err => return (0, some err)
  | .ok records =>
    let flushed ← uploadScreenshots records 0
    return (flushed, none)

/-- `BurstUploadScreenshot`: one attempt, and the local file is removed whatever happens. -/
def burstUploadScreenshot (localPath : String) (capturedAt : Int) : Agent (Option String) := do
  if !(← isAvailable .burst) then
    remove localPath
    return some "circuit open"
  match ← getPresignedUploadURL (basename localPath) with
  | .error err =>
    remove localPath
    return some ("presign: " ++ err)
  | .ok (uploadURL, s3Key) =>
    let fi ← stat localPath
    match ← uploadFileToS3 localPath uploadURL with
    | some err =>
      remove localPath
      return some ("upload: " ++ err)
    | none =>
      match ← saveScreenshotMeta s3Key capturedAt fi.size with
      | some err =>
        remove localPath
        return some ("save meta: " ++ err)
      | none =>
        remove localPath
        return none

end TimeChamp.Sync
