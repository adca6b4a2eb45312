import TimeChamp.Sync.Effects

/-!
# Requests under the breaker

`internal/sync/retry.go`, `client.go` and `s3.go`: the retry loop, `Post`, and the requests of the screenshot pipeline.
Logging, headers and the gzip encoding of a body decide nothing here and are left out, and so are the lengths of the
sleeps between attempts: other goroutines may run for as long between any two effects.
-/

namespace TimeChamp.Sync
open TimeChamp.Lib TimeChamp.Heartbeat TimeChamp.Sync.Agent

/-- 400/422 = bad payload, 401/403 = auth failure, 404 = not found. -/
def isPermanentHTTPStatus (code : Nat) : Bool :=
  code == 400 || code == 401 || code == 403 || code == 404 || code == 422

/-- The statuses `Post` counts as success: below 400, none of them permanent. -/
def isSuccess (code : Nat) : Bool := !isPermanentHTTPStatus code && decide (code < 400)

/-- The `MaxElapsedTime` of `DefaultRetry`. -/
def defaultRetry : Int := 30 * 60 * second

section Retry

/-- The loop of `WithRetryTag` from `start` on: `fn` answers whether its error is permanent, and the error. -/
def retryLoop (maxElapsedTime start : Int) (fn : Agent (Bool × Option String)) : Nat → Agent (Option String)
  | 0 => diverge
  | rounds + 1 => do
    match ← fn with
    | (_, none) => return none
    | (true, some err) => return some err
    | (false, some err) =>
      if maxElapsedTime ≤ 0 then retryLoop maxElapsedTime start fn rounds
      else
        let afterAttempt : Int ← now
        if maxElapsedTime ≤ afterAttempt - start then return some err
        let beforeSleep : Int ← now
        if maxElapsedTime - (beforeSleep - start) ≤ 0 then return some err
        retryLoop maxElapsedTime start fn rounds

/-- `WithRetryTag`; `MaxElapsedTime` zero retries for ever. -/
def withRetry (maxElapsedTime : Int) (fn : Agent (Bool × Option String)) : Agent (Option String) := do
  let start : Int ← now
  let rounds : Nat ← rounds
  retryLoop maxElapsedTime start fn rounds

end Retry

/-! ## Posting -/

/-- What an attempt of `Post` makes of the answer: whether its error is permanent, and the error. -/
def postOutcome (req : Request) : Except String Nat → Agent (Bool × Option String)
  | .error err => do
    recordFailure
    return (false, some ("request failed: " ++ err))
  | .ok status =>
    if isPermanentHTTPStatus status then do
      releaseProbe
      return (true, some s!"permanent HTTP {status} for {req.path}")
    else if 400 ≤ status then do
      recordFailure
      return (false, some s!"HTTP {status} for {req.path}")
    else do
      recordSuccess
      return (false, none)

/-- One attempt of `Post`. -/
def postAttempt (req : Request) : Agent (Bool × Option String) := do
  if ← isBlocked then return (true, some "circuit open: giving up after breaker tripped")
  match ← newRequest req.path with
  | .error err => return (true, some ("build request: " ++ err))
  | .ok () =>
    let answer ← httpPost req
    postOutcome req answer

/-- `Client.Post`: the error, if any. -/
def post (req : Request) : Agent (Option String) := do
  if !(← isAvailable .post) then return some "circuit open: API unavailable"
  match ← marshal req.body with
  | .error err => return some ("marshal body: " ++ err)
  | .ok () => withRetry defaultRetry (postAttempt req)

/-- `PostBestEffort`: one attempt, whose outcome nobody looks at and the breaker does not record. -/
def postBestEffort (req : Request) : Agent Unit := do
  match ← marshal req.body with
  | .error _ => return
  | .ok () =>
    match ← newRequest req.path with
    | .error _ => return
    | .ok () =>
      let _ ← httpPost req
      return

/-! ## The screenshot pipeline -/

def putPresigned (url : String) : Agent (Option String) := do
  match ← newRequest url with
  | .error err => return some err
  | .ok () =>
    match ← httpPut url with
    | .error err => return some ("S3 upload failed: " ++ err)
    | .ok status => if status ≠ 200 ∧ status ≠ 204 then return some s!"S3 upload status: {status}" else return none

def uploadFileToS3 (localPath presignedURL : String) : Agent (Option String) := do
  match ← readFile localPath with
  | .error err => return some ("read file " ++ localPath ++ ": " ++ err)
  | .ok () =>
    match ← putPresigned presignedURL with
    | some err => return some ("S3 upload: " ++ err)
    | none => return none

/-- `GetPresignedUploadURL`: the URL and the S3 key. It asks no `IsAvailable` of its own. -/
def getPresignedUploadURL (filename : String) : Agent (Except String (String × String)) := do
  match ← newRequest "/agent/sync/screenshots/upload-url" with
  | .error err => return .error err
  | .ok () =>
    match ← httpGetUploadURL filename with
    | .error err =>
      recordFailure
      return .error err
    | .ok reply =>
      if isPermanentHTTPStatus reply.status then
        releaseProbe
        return .error s!"presign URL request failed (HTTP {reply.status}): {reply.body}"
      else if reply.status ≠ 200 then
        recordFailure
        return .error s!"presign URL request failed (HTTP {reply.status}): {reply.body}"
      else
        match reply.readErr, reply.decodeErr with
        | some err, _ | none, some err =>
          recordFailure
          return .error err
        | none, none =>
          -- the wrapped format first, then the flat one
          let flat := reply.dataUploadURL == "" && reply.uploadURL != ""
          let uploadURL := if flat then reply.uploadURL else reply.dataUploadURL
          let s3Key := if flat then reply.s3Key else reply.dataS3Key
          if uploadURL == "" then
            recordFailure
            return .error "presign URL response contained empty uploadUrl"
          else
            recordSuccess
            return .ok (uploadURL, s3Key)

def saveScreenshotMeta (s3Key : String) (capturedAt fileSizeBytes : Int) : Agent (Option String) :=
  post ⟨"/agent/sync/screenshots", .screenshotMeta s3Key capturedAt fileSizeBytes, []⟩

end TimeChamp.Sync
