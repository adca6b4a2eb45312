import TimeChamp.Agent.Jobs

/-!
# List, post, delete

A flush lists the oldest unsynced rows of its table, posts them, and deletes the rows it listed. The three are separate
statements, and what ties them together is only the goroutine that carries the batch from one to the next.

* `Batch` : the ghost mode of a goroutine, `idle`, a batch `listed`, or a batch `posted` and accepted by the API;
* `uploadProtocol lossy` : rows of an uploaded table are deleted only as the batch the same goroutine posted; with
  `lossy` lists, posts and deletes may fail, without it they succeed and every batch is finished before the next;
* `follows_body` : every job of the agent follows it.
-/

namespace TimeChamp.Agent
open TimeChamp.Lib TimeChamp.Heartbeat TimeChamp.Buffer TimeChamp.Sync

/-- The rows of a request the API accepted. -/
def acceptedRows : (e : Op) → Reply e → List (TableName × Nat)
  | .post req, .ok status => if isSuccess status then req.rows else []
  | _, _ => []

/-- The ghost mode of a goroutine. -/
inductive Batch where
  | idle
  | listed (t : TableName) (ids : List Nat)
  | posted (t : TableName) (ids : List Nat)

/-- The rows of table `t` with the given ids. -/
def rowsOf (t : TableName) (ids : List Nat) : List (TableName × Nat) := ids.map fun id => (t, id)

/-- A listed batch is posted once a request made of its rows is accepted. -/
def Batch.accept (rows : List (TableName × Nat)) : Batch → Batch
  | .listed t ids => if rows = rowsOf t ids then .posted t ids else .listed t ids
  | m => m

/-- The mode an answer leaves a goroutine in. Screenshots are uploaded one by one and are not batches. -/
def Batch.next (m : Batch) : (e : Op) → Reply e → Batch
  | .listUnsynced t _, .ok events =>
    if t = .screenshots then m else if events.isEmpty then .idle else .listed t (events.map Row.id)
  | .post req, .ok status => if isSuccess status then m.accept req.rows else m
  | .deleteByIDs t _, .ok _ => if t = .screenshots then m else .idle
  | _, _ => m

/-- The answers on which a flush gives its batch up, or tries again. -/
def failed : (e : Op) → Reply e → Bool
  | .listUnsynced _ _, .error _ | .deleteByIDs _ _, .error _ | .post _, .error _ | .marshal _, .error _
  | .newRequest _, .error _ => true
  | .post _, .ok status => !isSuccess status
  | .isAvailable .post, available => !available
  | .isBlocked, blocked => blocked
  | _, _ => false

/-- A failed answer to a goroutine that carries a batch is a loss. -/
def uploadProtocol (lossy : Bool) : Protocol Op Reply Batch where
  pre m
    | .listUnsynced t _ => t = .screenshots ∨ lossy = true ∨ m = .idle
    | .deleteByIDs t ids => t = .screenshots ∨ m = .posted t ids
    | .post req => req.rows = [] ∨ ∃ t ids, m = .listed t ids ∧ req.rows = rowsOf t ids
    | _ => True
  post m e r m' := (failed e r = true → lossy = true ∨ m = .idle) ∧ m' = m.next e r

/-- Between flushes: without losses no goroutine is left with a batch. -/
def Settled (lossy : Bool) (m : Batch) : Prop := lossy = false → m = .idle

/-- From `m` the program uploads by the protocol and ends settled. -/
abbrev Uploads {α : Type} (lossy : Bool) (m : Batch) (p : Agent α) : Prop :=
  Follows (uploadProtocol lossy) (fun m' _ => Settled lossy m') m p

/-! ## Everything but the three flushes -/

/-- The effects that touch no batch. -/
def Neutral : Op → Prop
  | .listUnsynced t _ | .deleteByIDs t _ => t = .screenshots
  | .post req => req.rows = []
  | _ => True

theorem Batch.accept_settled {lossy : Bool} {m : Batch} (hm : Settled lossy m) (rows : List (TableName × Nat)) :
    Settled lossy (m.accept rows) := fun hl => by
  rw [hm hl]
  rfl

/-- A neutral effect is permitted in every settled mode and leaves the goroutine settled. -/
theorem neutral_settled {lossy : Bool} (m : Batch) (e : Op) (hm : Settled lossy m) (he : Neutral e) :
    (uploadProtocol lossy).pre m e ∧ ∀ r m', (uploadProtocol lossy).post m e r m' → Settled lossy m' := by
  refine ⟨?_, fun r m' h => ?_⟩
  · cases e with
    | listUnsynced t limit => exact Or.inl he
    | deleteByIDs t ids => exact Or.inl he
    | post req => exact Or.inl he
    | _ => trivial
  · rw [h.2]
    cases e with
    | listUnsynced t limit =>
        cases r with
        | error err => exact hm
        | ok events =>
            have hskip : m.next (.listUnsynced t limit) (.ok events) = m := if_pos he
            rwa [hskip]
    | deleteByIDs t ids =>
        cases r with
        | error err => exact hm
        | ok _ =>
            have hskip : m.next (.deleteByIDs t ids) (.ok ()) = m := if_pos he
            rwa [hskip]
    | post req =>
        cases r with
        | error err => exact hm
        | ok status =>
            simp only [Batch.next]
            split_ifs
            · exact Batch.accept_settled hm _
            · exact hm
    | _ => exact hm

theorem uploads_of_neutral {α : Type} {lossy : Bool} {m : Batch} {p : Agent α} (hp : Performs Neutral p)
    (hm : Settled lossy m) : Uploads lossy m p :=
  hp.follows (fun m e => neutral_settled m e) hm

section NeutralPrograms
variable {α : Type}

theorem neutral_of_plain {p : Agent α} (hp : Performs Plain p) : Performs Neutral p :=
  hp.mono fun e he => by cases e <;> first | exact he | trivial

theorem neutral_of_requests {p : Agent α} (hp : Performs Requests p) : Performs Neutral p :=
  hp.mono fun e he => by cases e <;> first | exact he | trivial

theorem neutral_screenshotAttempt (r : ScreenshotRecord) : Performs Neutral (screenshotAttempt r) := by
  apply performs_perform trivial
  intro available
  cases available with
  | false => trivial
  | true =>
      apply (neutral_of_requests (requests_getPresignedUploadURL _)).bind
      intro target
      cases target with
      | error err => trivial
      | ok target =>
          apply performs_perform trivial
          intro fi
          apply (neutral_of_plain (plain_uploadFileToS3 _ _)).bind
          intro uploaded
          cases uploaded with
          | some err => trivial
          | none =>
              apply Performs.bind (neutral_of_requests (requests_post rfl))
              intro saved
              cases saved with
              | some err => trivial
              | none =>
                  refine performs_perform rfl fun marked => ?_
                  rcases marked with err | ⟨⟩
                  · trivial
                  · exact performs_perform trivial fun _ => trivial

theorem neutral_uploadScreenshots (records : List ScreenshotRecord) (flushed : Nat) :
    Performs Neutral (uploadScreenshots records flushed) := by
  induction records generalizing flushed with
  | nil => trivial
  | cons r records ih =>
      apply performs_perform trivial
      intro fi
      split
      · exact performs_perform rfl fun _ => ih _
      · exact (performs_withRetry trivial trivial trivial _ (neutral_screenshotAttempt r)).bind fun err => by
          cases err <;> exact ih _

theorem neutral_flushScreenshots : Performs Neutral flushScreenshots := by
  apply performs_perform trivial
  intro available
  cases available with
  | false => trivial
  | true =>
      refine performs_perform rfl fun listed => ?_
      cases listed with
      | error err => trivial
      | ok records => exact (neutral_uploadScreenshots records 0).bind fun _ => trivial

theorem neutral_burstUploadScreenshot (localPath : String) (capturedAt : Int) :
    Performs Neutral (burstUploadScreenshot localPath capturedAt) := by
  have hremove : ∀ err : Option String, Performs Neutral (Sync.Agent.remove localPath >>= fun _ => pure err) :=
    fun err => performs_perform trivial fun _ => trivial
  apply performs_perform trivial
  intro available
  cases available with
  | false => exact hremove _
  | true =>
      apply (neutral_of_requests (requests_getPresignedUploadURL _)).bind
      intro target
      cases target with
      | error err => exact hremove _
      | ok target =>
          apply performs_perform trivial
          intro fi
          apply (neutral_of_plain (plain_uploadFileToS3 _ _)).bind
          intro uploaded
          cases uploaded with
          | some err => exact hremove _
          | none =>
              exact Performs.bind (neutral_of_requests (requests_post rfl)) fun saved => by
                cases saved <;> exact hremove _

end NeutralPrograms

/-! ## The three flushes -/

section Flushes
variable {lossy : Bool} {t : TableName} {ids : List Nat} {req : Request}

theorem listed_ne_idle (h : lossy = true ∨ Batch.listed t ids = .idle) : lossy = true :=
  h.resolve_right fun hne => by cases hne

theorem accept_listed (hreq : req.rows = rowsOf t ids) : (Batch.listed t ids).accept req.rows = .posted t ids :=
  if_pos hreq

theorem uploads_postAttempt (hreq : req.rows = rowsOf t ids) :
    Follows (uploadProtocol lossy)
      (fun m answer => (answer.2 = none ∧ m = .posted t ids) ∨ (answer.2 ≠ none ∧ m = .listed t ids ∧ lossy = true))
      (.listed t ids) (postAttempt req) := by
  refine follows_perform_bind.mpr ⟨trivial, fun blocked m ⟨hfail, hm⟩ => ?_⟩
  cases blocked with
  | true => exact Or.inr ⟨by simp, hm, listed_ne_idle (hfail rfl)⟩
  | false =>
      subst hm
      refine follows_perform_bind.mpr ⟨trivial, fun built m ⟨hfail, hm⟩ => ?_⟩
      rcases built with err | ⟨⟩
      · exact Or.inr ⟨by simp, hm, listed_ne_idle (hfail rfl)⟩
      · subst hm
        refine follows_perform_bind.mpr ⟨Or.inr ⟨t, ids, rfl, hreq⟩, fun reply m ⟨hfail, hm⟩ => ?_⟩
        cases reply with
        | error err =>
            refine follows_perform_bind.mpr ⟨trivial, fun _ m' h => ?_⟩
            exact Or.inr ⟨by simp, h.2.trans hm, listed_ne_idle (hfail rfl)⟩
        | ok status =>
            simp only [Batch.next, accept_listed hreq] at hm
            simp only [postOutcome]
            split_ifs with hperm hbad
            · have hno : isSuccess status = false := by simp [isSuccess, hperm]
              rw [hno, if_neg Bool.false_ne_true] at hm
              refine follows_perform_bind.mpr ⟨trivial, fun _ m' h => ?_⟩
              exact Or.inr ⟨by simp, h.2.trans hm, listed_ne_idle (hfail (by simp [failed, hno]))⟩
            · have hno : isSuccess status = false := by simp [isSuccess, not_lt.mpr hbad]
              rw [hno, if_neg Bool.false_ne_true] at hm
              refine follows_perform_bind.mpr ⟨trivial, fun _ m' h => ?_⟩
              exact Or.inr ⟨by simp, h.2.trans hm, listed_ne_idle (hfail (by simp [failed, hno]))⟩
            · have hyes : isSuccess status = true := by simp [isSuccess, hperm, not_le.mp hbad]
              rw [if_pos hyes] at hm
              refine follows_perform_bind.mpr ⟨trivial, fun _ m' h => ?_⟩
              exact Or.inl ⟨rfl, h.2.trans hm⟩

/-- A returned error means the batch may not have been accepted; no error means it was. -/
def Posts (lossy : Bool) (t : TableName) (ids : List Nat) (m : Batch) (err : Option String) : Prop :=
  err = none ∧ m = .posted t ids ∨ err ≠ none ∧ lossy = true

theorem uploads_retryLoop (maxElapsedTime start : Int) (hreq : req.rows = rowsOf t ids) (rounds : Nat) :
    Follows (uploadProtocol lossy) (Posts lossy t ids) (.listed t ids)
      (retryLoop maxElapsedTime start (postAttempt req) rounds) := by
  refine follows_retryLoop (A := fun m => m = .listed t ids) (B := fun m => m = .listed t ids ∧ lossy = true)
    (fun m hm => ?_) (fun _ h => h.1) (fun _ _ h => Or.inr ⟨by simp, h.2⟩)
    (fun m ⟨hm, hlossy⟩ => ⟨trivial, fun now m' hpost => ?_⟩) (fun _ _ => trivial) _ _ _ rfl
  · subst hm
    refine (uploads_postAttempt hreq).mono fun m ⟨permanent, err⟩ h => ?_
    rcases h with ⟨rfl, hposted⟩ | ⟨herr, hlisted, hlossy⟩
    · exact Or.inl ⟨rfl, hposted⟩
    · cases err with
      | none => exact absurd rfl herr
      | some err => exact ⟨hlisted, hlossy⟩
  · exact ⟨hpost.2.trans hm, hlossy⟩

theorem uploads_post (hreq : req.rows = rowsOf t ids) :
    Follows (uploadProtocol lossy) (Posts lossy t ids) (.listed t ids) (post req) := by
  refine follows_perform_bind.mpr ⟨trivial, fun available m ⟨hfail, hm⟩ => ?_⟩
  cases available with
  | false => exact Or.inr ⟨by simp, listed_ne_idle (hfail rfl)⟩
  | true =>
      subst hm
      refine follows_perform_bind.mpr ⟨trivial, fun encoded m ⟨hfail, hm⟩ => ?_⟩
      rcases encoded with err | ⟨⟩
      · exact Or.inr ⟨by simp, listed_ne_idle (hfail rfl)⟩
      · subst hm
        refine follows_perform_bind.mpr ⟨trivial, fun start m ⟨_, hm⟩ => ?_⟩
        subst hm
        refine follows_perform_bind.mpr ⟨trivial, fun rounds m ⟨_, hm⟩ => ?_⟩
        subst hm
        exact uploads_retryLoop _ _ hreq _

theorem uploads_deleteByIDs (ht : t ≠ .screenshots) (hids : ids ≠ []) :
    Follows (uploadProtocol lossy) (fun m _ => Settled lossy m) (.posted t ids) (deleteByIDs t ids) := by
  unfold deleteByIDs
  rw [if_neg (by simpa using hids)]
  refine ⟨Or.inr rfl, fun r m ⟨hfail, hm⟩ hl => ?_⟩
  cases r with
  | error err => exact absurd ((hfail rfl).resolve_right fun hne => by cases hne) (by simp [hl])
  | ok _ => exact hm.trans (if_neg ht)

/-- **A flush follows the protocol**: what it deletes is what it posted, and what it posted is what it listed. -/
theorem uploads_flush {m : Batch} (f : Flush t) (ht : t ≠ .screenshots) (hm : Settled lossy m) :
    Uploads lossy m f.run := by
  unfold Flush.run
  refine follows_perform_bind.mpr ⟨trivial, fun available m' ⟨_, h⟩ => ?_⟩
  obtain rfl : m' = m := h
  cases available with
  | false => exact hm
  | true =>
      have hpre : t = .screenshots ∨ lossy = true ∨ m' = .idle := by
        cases lossy with
        | true => exact Or.inr (Or.inl rfl)
        | false => exact Or.inr (Or.inr (hm rfl))
      refine follows_perform_bind.mpr ⟨hpre, fun listed m ⟨_, h⟩ => ?_⟩
      cases listed with
      | error err =>
          obtain rfl : m = m' := h
          exact hm
      | ok events =>
          simp only [Batch.next, if_neg ht] at h
          dsimp only
          split_ifs with hempty
          · rw [if_pos hempty] at h
            exact fun _ => h
          · rw [if_neg hempty] at h
            subst h
            apply (uploads_post rfl).bind
            intro m err h
            rcases h with ⟨rfl, rfl⟩ | ⟨herr, hlossy⟩
            · have hids : events.map Row.id ≠ [] := by simpa using hempty
              exact (uploads_deleteByIDs ht hids).bind fun m marked h => by cases marked <;> exact h
            · cases err with
              | none => exact absurd rfl herr
              | some err => exact fun hl => by simp [hlossy] at hl

end Flushes

/-! ## The jobs -/

section Jobs
variable {lossy : Bool} {m : Batch} {α : Type}

theorem Uploads.discard {p : Agent α} (hp : Uploads lossy m p) : Uploads lossy m (discard p) :=
  Follows.bind hp fun _ _ h => h

theorem uploads_taskBody (task : Task) (hm : Settled lossy m) : Uploads lossy m (taskBody task) := by
  cases task with
  | flushActivity => exact uploads_flush activityFlush (by decide) hm
  | flushKeystrokes => exact uploads_flush keystrokesFlush (by decide) hm
  | flushScreenshots => exact uploads_of_neutral neutral_flushScreenshots hm
  | flushMetrics => exact uploads_flush metricsFlush (by decide) hm

theorem uploads_body (j : Job) (hm : Settled lossy m) : Uploads lossy m j.body := by
  cases j with
  | post path body => exact (uploads_of_neutral (neutral_of_requests (requests_post rfl)) hm).discard
  | flushActivity => exact (uploads_taskBody .flushActivity hm).discard
  | flushKeystrokes => exact (uploads_taskBody .flushKeystrokes hm).discard
  | flushMetrics => exact (uploads_taskBody .flushMetrics hm).discard
  | flushScreenshots => exact (uploads_taskBody .flushScreenshots hm).discard
  | burstUploadScreenshot localPath capturedAt =>
      exact (uploads_of_neutral (neutral_burstUploadScreenshot _ _) hm).discard
  | syncTick =>
      refine uploads_of_neutral (performs_perform trivial fun available => ?_) hm
      cases available with
      | false => trivial
      | true =>
          exact performs_perform trivial fun _ => performs_perform trivial fun _ => performs_perform trivial fun _ =>
            performs_perform trivial fun _ => performs_perform trivial fun _ => performs_one trivial
  | spawned wg task =>
      exact (uploads_taskBody task hm).bind fun m' _ hm' => uploads_of_neutral (performs_one trivial) hm'
  | sleepResumeFlush =>
      refine follows_perform_bind.mpr ⟨trivial, fun _ m' ⟨_, h⟩ => ?_⟩
      subst h
      apply (uploads_of_neutral (neutral_of_plain (plain_postBestEffort rfl)) hm).bind
      intro m _ hm
      apply (uploads_taskBody .flushActivity hm).bind
      intro m _ hm
      apply (uploads_taskBody .flushScreenshots hm).bind
      intro m _ hm
      exact (uploads_taskBody .flushMetrics hm).bind fun m _ hm => hm
  | resetCircuit => exact uploads_of_neutral (performs_one trivial) hm
  | insert t rows => exact Uploads.discard (uploads_of_neutral (performs_one (e := Op.insert t rows) trivial) hm)
  | capBuffer maxRows => exact (uploads_of_neutral (neutral_of_plain (plain_capTables _ _)) hm).discard
  | pruneSynced maxDays =>
      exact (uploads_of_neutral (neutral_of_plain (plain_pruneSynced _)) hm).discard

end Jobs

end TimeChamp.Agent
