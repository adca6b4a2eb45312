import TimeChamp.Sync.Uploader

/-!
# The goroutines of the agent

The jobs that touch the breaker and the buffer: the flushes, the sync tick and the sleep-resume flush of
`cmd/agent/main.go`, the inserts, and the maintenance of `internal/buffer` (`CapBuffer`, `PruneSynced`). `agent` is
the pool that runs any of them on any number of goroutines, interleaved effect by effect.
-/

namespace TimeChamp.Agent
open TimeChamp.Lib TimeChamp.Heartbeat TimeChamp.Buffer TimeChamp.Sync TimeChamp.Sync.Agent

/-! ## Maintenance -/

/-- The loop of `CapBuffer`. The count and the delete are two statements. -/
def capTables : List (TableName × Int) → Option String → Agent (Option String)
  | [], firstErr => return firstErr
  | (t, limit) :: tables, firstErr => do
    match ← countUnsynced t with
    | .error err => capTables tables (firstErr.or (some s!"cap buffer count {t.sql}: {err}"))
    | .ok count =>
      let overflow := (count : Int) - limit
      if overflow ≤ 0 then capTables tables firstErr
      else
        match ← trimOldest t limit overflow.toNat with
        | .error err => capTables tables (firstErr.or (some s!"cap buffer trim {t.sql}: {err}"))
        | .ok () => capTables tables firstErr

/-- The per-table limits of `CapBuffer`. -/
def capLimit (maxRows : Int) : TableName → Int
  | .screenshots => max (maxRows.tdiv 5) 1
  | _ => maxRows

def capBuffer (maxRows : Int) : Agent (Option String) :=
  capTables
    ([.activityEvents, .screenshots, .keystrokeEvents, .systemMetrics].map fun t => (t, capLimit maxRows t)) none

def pruneTables (cutoff : Int) : List TableName → Agent (Option String)
  | [] => return none
  | t :: tables => do
    match ← pruneBefore t cutoff with
    | .error err => return some err
    | .ok () => pruneTables cutoff tables

def day : Int := 24 * hour

def pruneSynced (maxDays : Int) : Agent (Option String) := do
  let today ← now
  pruneTables (today - maxDays * day) [.activityEvents, .screenshots, .keystrokeEvents, .systemMetrics]

/-! ## The main loop's flushes -/

/-- The sync tick: ask the breaker, then run the four flushes in goroutines of their own and wait for them. -/
def syncTick : Agent Unit := do
  if !(← isAvailable .syncTick) then return
  let wg ← newWaitGroup
  go wg .flushActivity
  go wg .flushKeystrokes
  go wg .flushScreenshots
  go wg .flushMetrics
  wait wg

/-- The goroutine started when the system resumes from sleep. -/
def sleepResumeFlush : Agent Unit := do
  resetCircuit
  postBestEffort ⟨"/agent/sync/heartbeat", .empty, []⟩
  let _ ← flushActivity
  let _ ← flushScreenshots
  let _ ← flushMetrics
  return

/-- What a goroutine may be started with. -/
inductive Job where
  | post (path : String) (body : Body)
  | flushActivity
  | flushKeystrokes
  | flushMetrics
  | flushScreenshots
  | burstUploadScreenshot (localPath : String) (capturedAt : Int)
  | syncTick
  | spawned (wg : Nat) (task : Task)
  | sleepResumeFlush
  | resetCircuit
  | insert (t : TableName) (rows : List (Row t))
  | capBuffer (maxRows : Int)
  | pruneSynced (maxDays : Int)

/-- What a goroutine of the sync tick runs. -/
def taskBody : Task → Agent (Nat × Option String)
  | .flushActivity => Sync.flushActivity
  | .flushKeystrokes => Sync.flushKeystrokes
  | .flushScreenshots => Sync.flushScreenshots
  | .flushMetrics => Sync.flushMetrics

def Job.body : Job → Agent Unit
  | .post path body => discard (Sync.post ⟨path, body, []⟩)
  | .flushActivity => discard Sync.flushActivity
  | .flushKeystrokes => discard Sync.flushKeystrokes
  | .flushMetrics => discard Sync.flushMetrics
  | .flushScreenshots => discard Sync.flushScreenshots
  | .burstUploadScreenshot localPath capturedAt => discard (Sync.burstUploadScreenshot localPath capturedAt)
  | .syncTick => Agent.syncTick
  | .spawned wg task => do
    let _ ← taskBody task
    done wg
  | .sleepResumeFlush => Agent.sleepResumeFlush
  | .resetCircuit => Sync.Agent.resetCircuit
  | .insert t rows => discard (Sync.Agent.insert t rows)
  | .capBuffer maxRows => discard (Agent.capBuffer maxRows)
  | .pruneSynced maxDays => discard (Agent.pruneSynced maxDays)

/-- A spawned goroutine starts once; anything else may start at any time. -/
def Job.admits : Job → World → Option World
  | .spawned wg task, w =>
    if (wg, task) ∈ w.ready then some { w with ready := w.ready.erase (wg, task) } else none
  | _, w => some w

theorem admits_world {j : Job} {w w' : World} (h : j.admits w = some w') : w'.client = w.client ∧ w'.db = w.db := by
  cases j with
  | spawned wg task =>
      simp only [Job.admits, Option.ite_none_right_eq_some, Option.some.injEq] at h
      rw [← h.2]
      exact ⟨rfl, rfl⟩
  | _ => cases h; exact ⟨rfl, rfl⟩

/-- The agent: its jobs, on any number of goroutines. -/
def agent : System Op Reply World Choice Job := ⟨exec, Job.admits, Job.body⟩

/-- The goroutines of the concrete schedules. -/
inductive Goroutine where
  | main
  | worker
  | other
deriving DecidableEq

instance : Fintype Goroutine where
  elems := ⟨([.main, .worker, .other] : List Goroutine), by decide⟩
  complete i := by cases i <;> decide

/-- Three goroutines over a buffer, nothing done yet. -/
abbrev startFrom (db : DB) : Config Goroutine Op Reply World := Config.start (World.start db)

/-- A schedule of theirs. -/
abbrev Schedule := List (Act Goroutine Choice Job)

/-- At time zero, nothing failing, loops going round once. -/
def atStart : Choice := { number := 1 }

/-! ## What the programs perform -/

/-- **The retry rule.** An attempt starts in `A`; one without error ends the loop in `Q`, one with an error in `B`, where
the next attempt may start and the loop may give up. -/
theorem follows_retryLoop {μ : Type} {P : Protocol Op Reply μ} {A B : μ → Prop} {Q : μ → Option String → Prop}
    {fn : Agent (Bool × Option String)}
    (htry : ∀ m, A m → Follows P (fun m' answer => if answer.2.isSome then B m' else Q m' none) m fn)
    (hagain : ∀ m, B m → A m) (hgive : ∀ m err, B m → Q m (some err))
    (hnow : ∀ m, B m → P.pre m .now ∧ ∀ r m', P.post m .now r m' → B m') (hnever : ∀ m, A m → P.pre m .diverge)
    (maxElapsedTime start : Int) (rounds : Nat) {m : μ} (hm : A m) :
    Follows P Q m (retryLoop maxElapsedTime start fn rounds) := by
  induction rounds generalizing m with
  | zero => exact ⟨hnever m hm, fun never => never.elim⟩
  | succ rounds ih =>
      unfold retryLoop
      apply (htry m hm).bind
      intro m answer h
      obtain ⟨permanent, _ | err⟩ := answer
      · exact h
      · cases permanent with
        | true => exact hgive m err h
        | false =>
            have hB : B m := h
            dsimp only
            split_ifs
            · exact ih (hagain m hB)
            · refine follows_perform_bind.mpr ⟨(hnow m hB).1, fun now m' hpost => ?_⟩
              have hB' := (hnow m hB).2 now m' hpost
              split_ifs
              · exact hgive m' err hB'
              · refine follows_perform_bind.mpr ⟨(hnow m' hB').1, fun now' m'' hpost' => ?_⟩
                have hB'' := (hnow m' hB').2 now' m'' hpost'
                split_ifs
                · exact hgive m'' err hB''
                · exact ih (hagain m'' hB'')

section Performs
variable {S : Op → Prop}

theorem performs_retryLoop (hnow : S .now) (hnever : S .diverge) (maxElapsedTime start : Int)
    {fn : Agent (Bool × Option String)} (hfn : Performs S fn) (rounds : Nat) :
    Performs S (retryLoop maxElapsedTime start fn rounds) := by
  induction rounds with
  | zero => exact ⟨hnever, fun never => never.elim⟩
  | succ rounds ih =>
      apply hfn.bind
      intro answer
      obtain ⟨permanent, _ | err⟩ := answer
      · trivial
      · cases permanent with
        | true => trivial
        | false =>
            dsimp only
            split_ifs
            · exact ih
            · refine performs_perform hnow fun _ => ?_
              split_ifs
              · trivial
              · refine performs_perform hnow fun _ => ?_
                split_ifs
                · trivial
                · exact ih

theorem performs_withRetry (hnow : S .now) (hrounds : S .rounds) (hnever : S .diverge) (maxElapsedTime : Int)
    {fn : Agent (Bool × Option String)} (hfn : Performs S fn) : Performs S (withRetry maxElapsedTime fn) :=
  performs_perform hnow fun _ => performs_perform hrounds fun _ => performs_retryLoop hnow hnever _ _ hfn _

theorem performs_uploadFileToS3 (hread : ∀ path, S (.readFile path)) (hbuild : ∀ path, S (.newRequest path))
    (hput : ∀ url, S (.putPresigned url)) (localPath url : String) : Performs S (uploadFileToS3 localPath url) := by
  apply performs_perform (hread _)
  intro data
  rcases data with err | ⟨⟩
  · trivial
  · refine Performs.bind (p := putPresigned url) ?_ fun err => by cases err <;> trivial
    apply performs_perform (hbuild _)
    intro built
    rcases built with err | ⟨⟩
    · trivial
    · apply performs_perform (hput _)
      intro answer
      cases answer with
      | error err => trivial
      | ok status =>
          dsimp only
          split_ifs <;> trivial

theorem performs_capTables (hcount : ∀ t, S (.countUnsynced t)) (htrim : ∀ t limit n, S (.trimOldest t limit n))
    (tables : List (TableName × Int)) (firstErr : Option String) : Performs S (capTables tables firstErr) := by
  induction tables generalizing firstErr with
  | nil => trivial
  | cons tl tables ih =>
      apply performs_perform (hcount _)
      intro counted
      cases counted with
      | error err => exact ih _
      | ok count =>
          dsimp only
          split_ifs
          · exact ih _
          · apply performs_perform (htrim _ _ _)
            intro trimmed
            rcases trimmed with err | ⟨⟩ <;> exact ih _

theorem performs_pruneTables (hprune : ∀ t cutoff, S (.pruneBefore t cutoff)) (cutoff : Int) (tables : List TableName) :
    Performs S (pruneTables cutoff tables) := by
  induction tables with
  | nil => trivial
  | cons t tables ih =>
      apply performs_perform (hprune _ _)
      intro pruned
      rcases pruned with err | ⟨⟩
      · trivial
      · exact ih

/-- The effects of a request that carries no rows: the breaker, the network, the file uploaded, the clock. -/
def Requests : Op → Prop
  | .isAvailable _ | .isBlocked | .recordFailure | .recordSuccess | .releaseProbe | .marshal _ | .newRequest _
  | .getUploadURL _ | .putPresigned _ | .readFile _ | .now | .rounds | .diverge => True
  | .post req => req.rows = []
  | _ => False

theorem requests_postAttempt {req : Request} (hreq : req.rows = []) : Performs Requests (postAttempt req) := by
  apply performs_perform trivial
  intro blocked
  cases blocked with
  | true => trivial
  | false =>
      apply performs_perform trivial
      intro built
      rcases built with err | ⟨⟩
      · trivial
      · refine performs_perform hreq fun reply => ?_
        cases reply with
        | error err => exact performs_perform trivial fun _ => trivial
        | ok status =>
            simp only [postOutcome]
            split_ifs <;> exact performs_perform trivial fun _ => trivial

theorem requests_post {req : Request} (hreq : req.rows = []) : Performs Requests (post req) := by
  apply performs_perform trivial
  intro available
  cases available with
  | false => trivial
  | true =>
      apply performs_perform trivial
      intro encoded
      rcases encoded with err | ⟨⟩
      · trivial
      · exact performs_withRetry trivial trivial trivial _ (requests_postAttempt hreq)

theorem requests_getPresignedUploadURL (filename : String) : Performs Requests (getPresignedUploadURL filename) := by
  have hrecord : ∀ {β : Type} (e : Op) (b : β), Requests e →
      Performs Requests (Prog.perform e >>= fun _ => (pure b : Agent β)) :=
    fun e b he => performs_perform he fun _ => trivial
  apply performs_perform trivial
  intro built
  rcases built with err | ⟨⟩
  · trivial
  · apply performs_perform trivial
    intro answer
    cases answer with
    | error err => exact hrecord .recordFailure _ trivial
    | ok reply =>
        dsimp only
        split
        · exact hrecord .releaseProbe _ trivial
        · split
          · exact hrecord .recordFailure _ trivial
          · split
            · exact hrecord .recordFailure _ trivial
            · exact hrecord .recordFailure _ trivial
            · split_ifs <;> exact performs_perform trivial fun _ => trivial

theorem requests_uploadFileToS3 (localPath url : String) : Performs Requests (uploadFileToS3 localPath url) :=
  performs_uploadFileToS3 (fun _ => trivial) (fun _ => trivial) (fun _ => trivial) localPath url

end Performs

/-! ## Plain programs -/

/-- Effects that neither ask the breaker nor record an outcome with it, and touch no batch of rows. -/
def Plain : Op → Prop
  | .isAvailable _ | .isBlocked | .recordFailure | .recordSuccess | .releaseProbe | .resetCircuit => False
  | .listUnsynced t _ | .deleteByIDs t _ => t = .screenshots
  | .post req => req.rows = []
  | _ => True

theorem plain_uploadFileToS3 (localPath url : String) : Performs Plain (uploadFileToS3 localPath url) :=
  performs_uploadFileToS3 (fun _ => trivial) (fun _ => trivial) (fun _ => trivial) localPath url

theorem plain_postBestEffort {req : Request} (hreq : req.rows = []) : Performs Plain (postBestEffort req) := by
  apply performs_perform trivial
  intro encoded
  rcases encoded with err | ⟨⟩
  · trivial
  · apply performs_perform trivial
    intro built
    rcases built with err | ⟨⟩
    · trivial
    · exact performs_perform hreq fun _ => trivial

theorem plain_capTables (tables : List (TableName × Int)) (firstErr : Option String) :
    Performs Plain (capTables tables firstErr) :=
  performs_capTables (fun _ => trivial) (fun _ _ _ => trivial) tables firstErr

theorem plain_pruneTables (cutoff : Int) (tables : List TableName) : Performs Plain (pruneTables cutoff tables) :=
  performs_pruneTables (fun _ _ => trivial) cutoff tables

theorem plain_pruneSynced (maxDays : Int) : Performs Plain (pruneSynced maxDays) :=
  performs_perform trivial fun _ => plain_pruneTables _ _

end TimeChamp.Agent
