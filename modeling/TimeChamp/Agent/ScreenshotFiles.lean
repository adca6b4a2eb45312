import TimeChamp.Agent.Janitor

/-!
# Screenshot files are kept

* `FilesKept` : every row inserted with its file still has it;
* `FileMode`, `fileProtocol` : the files a goroutine has listed, and those of them it may remove; every job follows it;
* `NewName` : a capture's file is named by no row and in nobody's hands; `KnowsStale` : when the janitor reads the
  clock, it knows every stale file it listed that a row names, or will name;
* `filesKept` : in every run that meets the two the rows keep their files;
* `not_filesKept` : the janitor whose list of rows failed removes a file that a row names.
-/

namespace TimeChamp.Agent
open TimeChamp.Lib TimeChamp.Heartbeat TimeChamp.Buffer TimeChamp.Sync
open Function (update)

/-! ## The files of rows -/

/-- The paths that a row names, or a row still to be inserted. -/
def FileWorld.tracked (w : FileWorld) : List String := w.pending ++ w.screenshots.map ScreenshotRecord.localPath

/-- Every row whose file existed when it was inserted has its file. -/
def FilesKept (w : FileWorld) : Prop :=
  ∀ r ∈ w.screenshots, r.id ∈ w.backed → (w.files.lookup r.localPath).isSome = true

instance (w : FileWorld) : Decidable (FilesKept w) :=
  inferInstanceAs (Decidable (∀ r ∈ w.screenshots, r.id ∈ w.backed → (w.files.lookup r.localPath).isSome = true))

/-! ## Which files a goroutine may remove -/

/-- The ghost mode of a goroutine: a capture not inserted yet, the records listed for upload and the keys it has
deleted, or the files the janitor listed and does not know, with those found stale. -/
inductive FileMode where
  | idle
  | captured (path : String)
  | uploading (records : List ScreenshotRecord) (deleted : List Nat)
  | sweeping (paths : List String) (now : Int) (stale : List String)

/-- The files in the hands of the goroutine. -/
def FileMode.paths : FileMode → List String
  | .idle | .captured _ => []
  | .uploading records _ => records.map ScreenshotRecord.localPath
  | .sweeping paths _ _ => paths

/-- Those of them it may remove. -/
def FileMode.free : FileMode → List String
  | .idle | .captured _ => []
  | .uploading records deleted => (records.filter fun r => deleted.contains r.id).map ScreenshotRecord.localPath
  | .sweeping paths _ stale => paths.filter fun p => stale.contains p

def FileMode.next (m : FileMode) : (e : FileOp) → FileReply e → FileMode
  | .writeFile path, .ok _ => .captured path
  | .sync (.insert .screenshots _), _ => .idle
  | .sync (.listUnsynced .screenshots _), .ok records => .uploading records []
  | .sync (.deleteByIDs .screenshots ids), .ok _ =>
    match m with
    | .uploading records deleted => .uploading records (ids ++ deleted)
    | m => m
  | .sweepClock known listed, now => .sweeping (listed.filter fun p => !known.contains p) now []
  | .info path, .ok modTime =>
    match m with
    | .sweeping paths now stale => if now - modTime < staleAfter then m else .sweeping paths now (path :: stale)
    | m => m
  | _, _ => m

/-- Only a free file is removed, and only what was captured is inserted. -/
def fileProtocol : Protocol FileOp FileReply FileMode where
  pre m
    | .sync (.remove path) => path ∈ m.free
    | .sync (.insert .screenshots rows) => ∃ r : ScreenshotRecord, rows = [r] ∧ m = .captured r.localPath
    | _ => True
  post m e r m' := m' = m.next e r

/-- The mode of a goroutine, from what it has done. -/
def modeOf {ι : Type} [DecidableEq ι] (i : ι) (tr : List (Performed ι FileOp FileReply)) : FileMode :=
  tr.foldl (fun m p => if p.1 = i then m.next p.2.1 p.2.2 else m) .idle

/-! ## The condition -/

/-- The file an effect writes. -/
def writes : FileOp → Option String
  | .writeFile path => some path
  | _ => none

/-- What the janitor knows and has listed when it reads the clock. -/
def sweeps : FileOp → Option (List String × List String)
  | .sweepClock known listed => some (known, listed)
  | _ => none

section Condition
variable {ι : Type} [DecidableEq ι] (c : Config ι FileOp FileReply FileWorld) (a : Act ι FileChoice FileJob)

/-- A capture's file is one that no row names or is about to name, and that is in nobody's hands. -/
def NewName : Prop :=
  ∀ p ∈ c.performs a, ∀ path ∈ writes p.2, path ∉ c.world.tracked ∧ ∀ i, path ∉ (modeOf i c.trace).paths

/-- When the janitor reads the clock, each file it has listed that a row names or is about to name is known to it, or
not stale. -/
def KnowsStale : Prop :=
  ∀ p ∈ c.performs a, ∀ s ∈ sweeps p.2, ∀ path ∈ s.2, path ∈ c.world.tracked →
    path ∈ s.1 ∨ ∀ modTime ∈ c.world.files.lookup path, p.1.now - modTime < staleAfter

instance [Fintype ι] : Decidable (NewName c a) :=
  inferInstanceAs (Decidable (∀ p ∈ c.performs a, ∀ path ∈ writes p.2,
    path ∉ c.world.tracked ∧ ∀ i, path ∉ (modeOf i c.trace).paths))

instance : Decidable (KnowsStale c a) :=
  inferInstanceAs (Decidable (∀ p ∈ c.performs a, ∀ s ∈ sweeps p.2, ∀ path ∈ s.2, path ∈ c.world.tracked →
    path ∈ s.1 ∨ ∀ modTime ∈ c.world.files.lookup path, p.1.now - modTime < staleAfter))

end Condition

/-! ## The programs follow the protocol -/

/-- The protocol for the sync code alone. -/
abbrev syncFiles : Protocol Op Reply FileMode := fileProtocol.pull FileOp.sync fun _ r => r

/-- Effects of the sync code that neither remove a file nor list, delete or insert screenshots. -/
def Quiet : Op → Prop
  | .remove _ => False
  | .listUnsynced t _ | .deleteByIDs t _ | .insert t _ => t ≠ .screenshots
  | _ => True

theorem quiet_next {op : Op} (hop : Quiet op) (m : FileMode) (r : Reply op) : m.next (.sync op) r = m := by
  cases op with
  | remove path => exact hop.elim
  | listUnsynced t limit => cases t <;> first | rfl | exact absurd rfl hop
  | deleteByIDs t ids => cases t <;> first | rfl | exact absurd rfl hop
  | insert t rows => cases t <;> first | rfl | exact absurd rfl hop
  | _ => rfl

theorem quiet_pre {op : Op} (hop : Quiet op) (m : FileMode) : syncFiles.pre m op := by
  cases op with
  | remove path => exact hop.elim
  | insert t rows => cases t <;> first | exact absurd rfl hop | trivial
  | _ => trivial

section SyncPrograms
variable {α : Type} {m : FileMode}

theorem quiet_post {op : Op} (hop : Quiet op) {r : Reply op} {m' : FileMode} (h : syncFiles.post m op r m') :
    m' = m := by
  obtain ⟨r', -, hm'⟩ := h
  exact hm'.trans (quiet_next hop m r')

theorem files_of_quiet {p : Sync.Agent α} (hp : Performs Quiet p) : Follows syncFiles (fun m' _ => m' = m) m p :=
  hp.follows (F := fun m' => m' = m)
    (fun m' _ hm hop => ⟨quiet_pre hop m', fun _ _ h => (quiet_post hop h).trans hm⟩) rfl

theorem quiet_of_requests {p : Sync.Agent α} (hp : Performs Requests p) : Performs Quiet p :=
  hp.mono fun e he => by cases e <;> first | exact he.elim | trivial

theorem files_perform {Q : FileMode → α → Prop} {op : Op} {f : Reply op → Sync.Agent α} (hop : Quiet op)
    (hf : ∀ r, Follows syncFiles Q m (f r)) : Follows syncFiles Q m (Prog.perform op >>= f) := by
  refine follows_perform_bind.mpr ⟨quiet_pre hop m, fun r m' h => ?_⟩
  rw [quiet_post hop h]
  exact hf r

theorem files_bind_quiet {β : Type} {Q : FileMode → β → Prop} {p : Sync.Agent α} {f : α → Sync.Agent β}
    (hp : Performs Quiet p) (hf : ∀ a, Follows syncFiles Q m (f a)) : Follows syncFiles Q m (p >>= f) :=
  (files_of_quiet hp).bind fun m' a h => by
    rw [h]
    exact hf a

/-- The goroutine is uploading the records, some of them deleted by now. -/
def Uploading (records : List ScreenshotRecord) (m : FileMode) : Prop := ∃ deleted, m = .uploading records deleted

variable {records : List ScreenshotRecord} {r : ScreenshotRecord}

/-- Deleting a row while uploading: the file of its record is free from then on. -/
theorem files_delete {Q : FileMode → α → Prop} {f : Except String Unit → Sync.Agent α} (hm : Uploading records m)
    (hf : ∀ m' deleted, Uploading records m' → (deleted = .ok () → r ∈ records → r.localPath ∈ m'.free) →
      Follows syncFiles Q m' (f deleted)) :
    Follows syncFiles Q m (Prog.perform (E := Op) (.deleteByIDs .screenshots [r.id]) >>= f) := by
  obtain ⟨deleted, rfl⟩ := hm
  refine follows_perform_bind.mpr ⟨trivial, fun answer m' ⟨r', hr', hm'⟩ => ?_⟩
  subst hr' hm'
  rcases r' with err | ⟨⟩
  · exact hf _ _ ⟨deleted, rfl⟩ fun h => by cases h
  · apply hf _ _ ⟨[r.id] ++ deleted, rfl⟩
    intro _ hr
    exact List.mem_map_of_mem (List.mem_filter.mpr ⟨hr, by simp⟩)

theorem files_screenshotAttempt (hr : r ∈ records) (hm : Uploading records m) :
    Follows syncFiles (fun m' _ => Uploading records m') m (screenshotAttempt r) := by
  refine files_perform trivial fun available => ?_
  cases available with
  | false => exact hm
  | true =>
      apply files_bind_quiet (quiet_of_requests (requests_getPresignedUploadURL _))
      intro target
      cases target with
      | error err => exact hm
      | ok target =>
          refine files_perform trivial fun fi => ?_
          apply files_bind_quiet (quiet_of_requests (requests_uploadFileToS3 _ _))
          intro uploaded
          cases uploaded with
          | some err => exact hm
          | none =>
              apply files_bind_quiet (quiet_of_requests (requests_post rfl))
              intro saved
              cases saved with
              | some err => exact hm
              | none =>
                  apply files_delete hm
                  intro m' deleted hm' hfree
                  rcases deleted with err | ⟨⟩
                  · exact hm'
                  · -- the row is gone, so its file may go
                    refine follows_perform_bind.mpr ⟨hfree rfl hr, fun _ m'' ⟨_, _, hm''⟩ => ?_⟩
                    rw [hm'']
                    exact hm'

theorem files_withRetry (hr : r ∈ records) (hm : Uploading records m) :
    Follows syncFiles (fun m' _ => Uploading records m') m (withRetry screenshotRetry (screenshotAttempt r)) := by
  refine files_perform trivial fun start => files_perform trivial fun rounds => ?_
  refine follows_retryLoop (A := Uploading records) (B := Uploading records) (fun m hm => ?_) (fun _ h => h)
    (fun _ _ h => h) (fun m hm => ⟨trivial, fun now m' hpost => ?_⟩) (fun _ _ => trivial) _ _ _ hm
  · exact (files_screenshotAttempt hr hm).mono fun m' answer hm' => by split_ifs <;> exact hm'
  · have hnow : Quiet .now := trivial
    rw [quiet_post hnow hpost]
    exact hm

theorem files_uploadScreenshots {rs : List ScreenshotRecord} (hrs : ∀ r ∈ rs, r ∈ records) (hm : Uploading records m)
    (flushed : Nat) : Follows syncFiles (fun m' _ => Uploading records m') m (uploadScreenshots rs flushed) := by
  induction rs generalizing m flushed with
  | nil => exact hm
  | cons r rs ih =>
      have hrest : ∀ r ∈ rs, r ∈ records := fun r hr => hrs r (List.mem_cons_of_mem _ hr)
      unfold uploadScreenshots
      refine files_perform trivial fun fi => ?_
      split
      · exact files_delete hm fun m' _ hm' _ => ih hrest hm' _
      · apply (files_withRetry (hrs r List.mem_cons_self) hm).bind
        intro m' err hm'
        cases err <;> exact ih hrest hm' _

theorem files_flushScreenshots : Follows syncFiles (fun _ _ => True) m flushScreenshots := by
  refine files_perform trivial fun available => ?_
  cases available with
  | false => trivial
  | true =>
      refine follows_perform_bind.mpr ⟨trivial, fun listed m' ⟨r', hr', hm'⟩ => ?_⟩
      subst hr' hm'
      cases r' with
      | error err => trivial
      | ok records =>
          exact (files_uploadScreenshots (fun _ h => h) ⟨[], rfl⟩ 0).bind fun _ _ _ => trivial

theorem quiet_capBuffer (maxRows : Int) : Performs Quiet (capBuffer maxRows) :=
  performs_capTables (fun _ => trivial) (fun _ _ _ => trivial) _ none

theorem quiet_pruneSynced (maxDays : Int) : Performs Quiet (pruneSynced maxDays) :=
  performs_perform trivial fun _ => performs_pruneTables (fun _ _ => trivial) _ _

end SyncPrograms

section FilePrograms
variable {α : Type} {m : FileMode}

/-- The program follows the protocol for files; nothing is said of how it ends. -/
abbrev FollowsFiles (m : FileMode) (p : FileAgent α) : Prop := Follows fileProtocol (fun _ _ => True) m p

theorem followsFiles_bind {β : Type} {p : FileAgent α} {f : α → FileAgent β} (hp : FollowsFiles m p)
    (hf : ∀ m a, FollowsFiles m (f a)) : FollowsFiles m (p >>= f) :=
  Follows.bind hp fun m' a _ => hf m' a

theorem followsFiles_ofSync {p : Sync.Agent α} (hp : Follows syncFiles (fun _ _ => True) m p) :
    FollowsFiles m (ofSync p) :=
  follows_embed.mpr hp

theorem followsFiles_quiet {p : Sync.Agent α} (hp : Performs Quiet p) : FollowsFiles m (ofSync p) :=
  followsFiles_ofSync ((files_of_quiet hp).mono fun _ _ _ => trivial)

/-- A capture that returns a path leaves the goroutine with that capture. -/
theorem files_captureScreenshot (dir : String) :
    Follows fileProtocol (fun m' captured => ∀ path, captured = .ok path → m' = .captured path) m
      (captureScreenshot dir) := by
  refine follows_perform_bind.mpr ⟨trivial, fun grabbed m' _ => ?_⟩
  rcases grabbed with err | ⟨⟩
  · intro path h
    cases h
  · refine follows_perform_bind.mpr ⟨trivial, fun t m' _ => ?_⟩
    refine follows_perform_bind.mpr ⟨trivial, fun written m'' hm'' => ?_⟩
    rcases written with err | ⟨⟩
    · intro path h
      cases h
    · intro path h
      cases h
      exact hm''

theorem followsFiles_screenshotWorker (dir employeeID orgID : String) :
    FollowsFiles m (screenshotWorker dir employeeID orgID) := by
  apply (files_captureScreenshot dir).bind
  intro m' captured hm'
  cases captured with
  | error err => trivial
  | ok path =>
      rw [hm' path rfl]
      refine follows_perform_bind.mpr ⟨trivial, fun capturedAt m' hm' => ?_⟩
      subst hm'
      exact follows_perform_bind.mpr ⟨⟨_, rfl, rfl⟩, fun _ _ _ => trivial⟩

/-- The loop only removes files it has found stale, out of those listed and not known. -/
theorem followsFiles_sweep {dir : String} {known paths : List String} {now : Int} {names : List String}
    (hnames : ∀ name ∈ names, isJpg name = true → joinPath dir name ∉ known → joinPath dir name ∈ paths)
    (stale : List String) : FollowsFiles (.sweeping paths now stale) (sweep dir known now names) := by
  induction names generalizing stale with
  | nil => trivial
  | cons name names ih =>
      have hrest := ih fun name h => hnames name (List.mem_cons_of_mem _ h)
      unfold sweep
      split_ifs with hjpg hknown
      · exact hrest stale
      · exact hrest stale
      · have hpath : joinPath dir name ∈ paths :=
          hnames name List.mem_cons_self (by simpa using hjpg) (by simpa using hknown)
        refine follows_perform_bind.mpr ⟨trivial, fun found m' hm' => ?_⟩
        subst hm'
        cases found with
        | error err => exact hrest stale
        | ok modTime =>
            by_cases hfresh : now - modTime < staleAfter
            · simp only [FileMode.next, if_pos hfresh]
              exact hrest stale
            · simp only [FileMode.next, if_neg hfresh]
              refine follows_perform_bind.mpr ⟨List.mem_filter.mpr ⟨hpath, by simp⟩, fun _ m'' hm'' => ?_⟩
              rw [hm'']
              exact hrest _

theorem followsFiles_janitor (dir : String) : FollowsFiles m (janitor dir) := by
  refine follows_perform_bind.mpr ⟨trivial, fun rows m' _ => ?_⟩
  refine follows_perform_bind.mpr ⟨trivial, fun entries m' _ => ?_⟩
  refine follows_perform_bind.mpr ⟨trivial, fun now m' hm' => ?_⟩
  rw [hm']
  refine followsFiles_sweep (fun name hname hjpg hknown => ?_) []
  exact List.mem_filter.mpr ⟨List.mem_map_of_mem (List.mem_filter.mpr ⟨hname, hjpg⟩), by simpa using hknown⟩

theorem followsFiles_body (j : FileJob) : FollowsFiles m j.body := by
  have hdiscard : ∀ {β : Type} {m : FileMode} {p : Sync.Agent β}, Follows syncFiles (fun _ _ => True) m p →
      FollowsFiles m (ofSync (discard p)) := fun hp =>
    followsFiles_ofSync (hp.bind fun _ _ _ => trivial)
  have hquiet : ∀ {β : Type} {m : FileMode} {p : Sync.Agent β}, Performs Quiet p →
      FollowsFiles m (ofSync (discard p)) := fun hp =>
    hdiscard ((files_of_quiet hp).mono fun _ _ _ => trivial)
  cases j with
  | screenshotWorker dir employeeID orgID => exact followsFiles_screenshotWorker dir employeeID orgID
  | flushScreenshots => exact hdiscard files_flushScreenshots
  | capBuffer maxRows => exact hquiet (quiet_capBuffer maxRows)
  | pruneSynced maxDays => exact hquiet (quiet_pruneSynced maxDays)
  | pruneTick dir maxBufferDays =>
      apply followsFiles_bind (followsFiles_quiet (quiet_pruneSynced _))
      intro m _
      apply followsFiles_bind (followsFiles_quiet (quiet_capBuffer _))
      intro m _
      exact follows_perform_bind.mpr ⟨trivial, fun _ m' _ => followsFiles_janitor dir⟩

end FilePrograms

/-! ## What the effects change -/

/-- Deletes of rows, at most. -/
structure FileWorld.Shrinks (w w' : FileWorld) : Prop where
  table : Table.Shrinks (w.agent.db.table .screenshots) (w'.agent.db.table .screenshots)
  files : w'.files = w.files
  pending : w'.pending = w.pending
  backed : w'.backed = w.backed

theorem FileWorld.Shrinks.refl (w : FileWorld) : w.Shrinks w := ⟨.refl _, rfl, rfl, rfl⟩

section Effects
variable {ch : FileChoice} {w w' : FileWorld}

theorem execSync_shrinks {op : Op} {r : Reply op} (h : execSync ch op w = some (r, w'))
    (hremove : ∀ path, op ≠ .remove path) (hinsert : ∀ rows, op ≠ .insert .screenshots rows) : w.Shrinks w' := by
  have delegated : ∀ {r : Reply op}, (exec ch.toChoice op w.agent).map (fun x => (x.1, { w with agent := x.2 })) =
      some (r, w') → w.Shrinks w' := by
    intro _ h
    obtain ⟨⟨r', agent⟩, hexec, heq⟩ := Option.map_eq_some_iff.mp h
    cases heq
    exact ⟨exec_shrinks hexec hinsert, rfl, rfl, rfl⟩
  cases op with
  | stat path =>
      cases h
      exact .refl w
  | readFile path =>
      cases h
      exact .refl w
  | remove path => exact absurd rfl (hremove path)
  | insert t rows =>
      cases t with
      | screenshots => exact absurd rfl (hinsert rows)
      | _ => exact delegated h
  | _ => exact delegated h

theorem deleted_gone {ids : List Nat} {answer : Unit} {r : ScreenshotRecord}
    (h : execSync ch (.deleteByIDs .screenshots ids) w = some (.ok answer, w')) (hr : r ∈ w'.screenshots) :
    r.id ∉ ids := by
  have hmap : (exec ch.toChoice (.deleteByIDs .screenshots ids) w.agent).map (fun x => (x.1, { w with agent := x.2 })) =
      some (.ok answer, w') := h
  obtain ⟨⟨r', agent⟩, hexec, heq⟩ := Option.map_eq_some_iff.mp hmap
  cases heq
  have hok : ch.error = none := (Choice.fallible_ok.mp (congrArg Prod.fst (Option.some.inj hexec))).1
  have hdb := exec_db hexec
  rw [if_pos hok] at hdb
  simp only [FileWorld.screenshots, hdb, Op.onDB, DB.deleteByIDs, DB.table_modify_self] at hr
  exact (Table.mem_removeKeys (t := w.agent.db.table .screenshots)).mp hr |>.2

theorem execSync_insert {rows : List (Row .screenshots)} {r : Except String Unit}
    (h : execSync ch (.insert .screenshots rows) w = some (r, w')) :
    ∃ agent, exec ch.toChoice (.insert .screenshots rows) w.agent = some (r, agent) ∧ w' = w.inserted rows agent := by
  rw [execSync] at h
  obtain ⟨⟨r', agent⟩, hexec, heq⟩ := Option.map_eq_some_iff.mp h
  cases heq
  exact ⟨agent, hexec, rfl⟩

end Effects

/-! ## The invariant -/

/-- The rows and the captures not inserted yet name different files, and the rows keep their files. -/
structure SoundFiles (w : FileWorld) : Prop where
  distinct : w.tracked.Nodup
  backed : ∀ id ∈ w.backed, id < (w.agent.db.table .screenshots).nextKey
  kept : FilesKept w

section Sound
variable {w w' : FileWorld}

theorem mem_tracked {p : String} : p ∈ w.tracked ↔ p ∈ w.pending ∨ ∃ r ∈ w.screenshots, r.localPath = p := by
  rw [FileWorld.tracked, List.mem_append, List.mem_map]

theorem tracked_row {r : ScreenshotRecord} (hr : r ∈ w.screenshots) : r.localPath ∈ w.tracked :=
  mem_tracked.mpr (Or.inr ⟨r, hr, rfl⟩)

theorem SoundFiles.path (h : SoundFiles w) {r : ScreenshotRecord} (hr : r ∈ w.screenshots) :
    r.localPath ∉ w.pending ∧ ∀ s ∈ w.screenshots, s.localPath = r.localPath → s = r := by
  obtain ⟨-, hrows, hapart⟩ := List.nodup_append.mp h.distinct
  refine ⟨fun hp => hapart _ hp _ (List.mem_map_of_mem hr) rfl, fun s hs hpath => ?_⟩
  exact List.inj_on_of_nodup_map hrows hs hr hpath

theorem SoundFiles.shrinks (h : SoundFiles w) (hs : w.Shrinks w') : SoundFiles w' where
  distinct := by
    refine h.distinct.sublist ?_
    rw [FileWorld.tracked, hs.pending]
    exact (List.Sublist.refl _).append (hs.table.1.map ScreenshotRecord.localPath)
  backed id hid := by
    rw [hs.table.2]
    exact h.backed id (hs.backed ▸ hid)
  kept r hr hid := by
    rw [hs.files]
    exact h.kept r (hs.table.1.subset hr) (hs.backed ▸ hid)

theorem SoundFiles.refile (h : SoundFiles w) {p : String} (hp : p ∉ w.tracked) (hagent : w'.agent = w.agent)
    (hbacked : w'.backed = w.backed) (hpending : w'.pending = w.pending ∨ w'.pending = p :: w.pending)
    (hfiles : ∀ q, q ≠ p → w'.files.lookup q = w.files.lookup q) : SoundFiles w' where
  distinct := by
    have hrows : w'.screenshots = w.screenshots := by rw [FileWorld.screenshots, hagent, FileWorld.screenshots]
    rw [FileWorld.tracked, hrows]
    rcases hpending with hsame | hnew
    · rw [hsame]
      exact h.distinct
    · rw [hnew]
      exact List.nodup_cons.mpr ⟨hp, h.distinct⟩
  backed id hid := by
    rw [hagent]
    exact h.backed id (hbacked ▸ hid)
  kept r hr hid := by
    have hr' : r ∈ w.screenshots := by
      rw [FileWorld.screenshots, hagent] at hr
      exact hr
    have hne : r.localPath ≠ p := fun heq => hp (heq ▸ tracked_row hr')
    rw [hfiles _ hne]
    exact h.kept r hr' (hbacked ▸ hid)

theorem localPaths_inserted {ch : Choice} {r : ScreenshotRecord} {x : Except String Unit} {agent : World}
    (hexec : exec ch (.insert .screenshots [r]) w.agent = some (x, agent)) :
    (w.inserted [r] agent).screenshots.map ScreenshotRecord.localPath =
        w.screenshots.map ScreenshotRecord.localPath ∨
      (w.inserted [r] agent).screenshots.map ScreenshotRecord.localPath =
        w.screenshots.map ScreenshotRecord.localPath ++ [r.localPath] := by
  have hdb := exec_db hexec
  simp only [FileWorld.screenshots, FileWorld.inserted, hdb]
  split_ifs
  · apply Or.inr
    rw [Op.onDB, DB.insert, DB.table_modify_self]
    exact List.map_append
  · exact Or.inl rfl

theorem SoundFiles.inserted (h : SoundFiles w) {ch : Choice} {r : ScreenshotRecord} {x : Except String Unit}
    {agent : World} (hr : r.localPath ∈ w.pending)
    (hexec : exec ch (.insert .screenshots [r]) w.agent = some (x, agent)) : SoundFiles (w.inserted [r] agent) where
  distinct := by
    obtain ⟨hpending, hrows, hapart⟩ := List.nodup_append.mp h.distinct
    have hleft : ∀ p ∈ (w.inserted [r] agent).pending, p ∈ w.pending ∧ p ≠ r.localPath := by
      intro p hp
      obtain ⟨hp, hne⟩ := List.mem_filter.mp hp
      refine ⟨hp, ?_⟩
      rintro rfl
      simp at hne
    have htable := localPaths_inserted hexec
    refine List.nodup_append.mpr ⟨hpending.filter _, ?_, ?_⟩
    · rcases htable with hsame | hnew
      · rw [hsame]
        exact hrows
      · rw [hnew]
        refine List.nodup_append.mpr ⟨hrows, List.nodup_singleton _, fun p hp q hq heq => ?_⟩
        rw [heq, List.mem_singleton.mp hq] at hp
        exact hapart _ hr _ hp rfl
    · intro p hp q hq heq
      obtain ⟨hp, hne⟩ := hleft p hp
      subst heq
      rcases htable with hsame | hnew
      · rw [hsame] at hq
        exact hapart _ hp _ hq rfl
      · rw [hnew] at hq
        rcases List.mem_append.mp hq with hold | hlast
        · exact hapart _ hp _ hold rfl
        · exact hne (List.mem_singleton.mp hlast)
  backed id hid := by
    have hev := exec_evolves hexec .screenshots
    rcases List.mem_append.mp hid with hold | hnew
    · exact Nat.lt_of_lt_of_le (h.backed id hold) hev.1
    · obtain ⟨s, hs, rfl⟩ := List.mem_map.mp hnew
      exact (agent.db.table .screenshots).bounded s (List.mem_filter.mp hs).1
  kept s hs hid := by
    have hev := exec_evolves hexec .screenshots
    rcases List.mem_append.mp hid with hold | hnew
    · have hs' : s ∈ w.screenshots := (hev.2 s hs).resolve_right (Nat.not_le.mpr (h.backed _ hold))
      exact h.kept s hs' hold
    · -- a key added now is that of a row inserted now, whose file is there
      obtain ⟨s', hs', hkey⟩ := List.mem_map.mp hnew
      obtain ⟨hmem, hthere⟩ := List.mem_filter.mp hs'
      obtain rfl : s' = s := (agent.db.table .screenshots).eq_of_key hmem hs hkey
      exact ((Bool.and_eq_true _ _).mp hthere).2

end Sound

/-- What a goroutine's mode says of the world: its capture is still to be inserted; the path of a listed record names at
most its row, and none once that is deleted; a file found stale is tracked by nothing, and no tracked one will be. -/
def Facts (w : FileWorld) : FileMode → Prop
  | .idle => True
  | .captured path => path ∈ w.pending
  | .uploading records deleted => ∀ r ∈ records, r.localPath ∉ w.pending ∧
      ∀ s ∈ w.screenshots, s.localPath = r.localPath → s.id = r.id ∧ s.id ∉ deleted
  | .sweeping paths now stale => ∀ p ∈ paths, p ∈ w.tracked →
      p ∉ stale ∧ ∀ modTime ∈ w.files.lookup p, now - modTime < staleAfter

/-- At the path `p` there is nothing new: no file written, and no row unless a capture was pending. -/
structure NothingNew (w w' : FileWorld) (p : String) : Prop where
  file : ∀ t ∈ w'.files.lookup p, t ∈ w.files.lookup p
  row : p ∉ w.pending → p ∉ w'.pending ∧ ∀ s ∈ w'.screenshots, s.localPath = p → s ∈ w.screenshots

section Facts
variable {w w' : FileWorld} {m : FileMode}

theorem NothingNew.tracked {p : String} (h : NothingNew w w' p) (hp : p ∈ w'.tracked) : p ∈ w.tracked := by
  by_cases hpending : p ∈ w.pending
  · exact mem_tracked.mpr (Or.inl hpending)
  · obtain ⟨hout, hrows⟩ := h.row hpending
    obtain ⟨s, hs, rfl⟩ := (mem_tracked.mp hp).resolve_left hout
    exact tracked_row (hrows s hs rfl)

/-- Nothing new at the paths in the hands of a goroutine, and its capture still pending: its facts stay true. -/
theorem Facts.later (h : Facts w m) (hcaptured : ∀ p, m = .captured p → p ∈ w'.pending)
    (hpaths : ∀ p ∈ m.paths, NothingNew w w' p) : Facts w' m := by
  cases m with
  | idle => trivial
  | captured p => exact hcaptured p rfl
  | uploading records deleted =>
      intro r hr
      obtain ⟨hpending, hrow⟩ := h r hr
      obtain ⟨hpending', hrows⟩ := (hpaths _ (List.mem_map_of_mem hr)).row hpending
      exact ⟨hpending', fun s hs hpath => hrow s (hrows s hs hpath) hpath⟩
  | sweeping paths now stale =>
      intro p hp htracked
      obtain ⟨hstale, hfresh⟩ := h p hp ((hpaths p hp).tracked htracked)
      exact ⟨hstale, fun t ht => hfresh t ((hpaths p hp).file t ht)⟩

theorem Facts.free (h : Facts w m) {p : String} (hp : p ∈ m.free) : p ∉ w.tracked := by
  cases m with
  | uploading records deleted =>
      obtain ⟨r, hr, rfl⟩ := List.mem_map.mp hp
      obtain ⟨hr, hdeleted⟩ := List.mem_filter.mp hr
      obtain ⟨hpending, hrow⟩ := h r hr
      intro htracked
      obtain ⟨s, hs, hpath⟩ := (mem_tracked.mp htracked).resolve_left hpending
      obtain ⟨hid, hkept⟩ := hrow s hs hpath
      exact hkept (hid ▸ List.contains_iff_mem.mp hdeleted)
  | sweeping paths now stale =>
      obtain ⟨hp, hstale⟩ := List.mem_filter.mp hp
      exact fun htracked => (h p hp htracked).1 (List.contains_iff_mem.mp hstale)
  | _ => cases hp

theorem nothingNew_shrinks (hs : w.Shrinks w') (p : String) : NothingNew w w' p where
  file _ ht := hs.files ▸ ht
  row hp := ⟨hs.pending ▸ hp, fun _ hr _ => hs.table.1.subset hr⟩

theorem Facts.shrinks (h : Facts w m) (hs : w.Shrinks w') : Facts w' m := by
  refine h.later (fun p hm => ?_) fun p _ => nothingNew_shrinks hs p
  subst hm
  exact hs.pending ▸ h

theorem nothingNew_remove (w : FileWorld) (p q : String) : NothingNew w { w with files := w.files.erase p } q where
  file t ht := by
    by_cases hq : q = p
    · subst hq
      rw [AList.lookup_erase] at ht
      cases ht
    · rwa [AList.lookup_erase_ne hq] at ht
  row hq := ⟨hq, fun _ hr _ => hr⟩

/-- An insert is news only at the path of its row, where a capture was pending. -/
theorem nothingNew_inserted {ch : Choice} {r : ScreenshotRecord} {x : Except String Unit} {agent : World}
    (hr : r.localPath ∈ w.pending)
    (hexec : exec ch (.insert .screenshots [r]) w.agent = some (x, agent)) (p : String) :
    NothingNew w (w.inserted [r] agent) p where
  file _ ht := ht
  row hp := by
    refine ⟨fun hmem => hp (List.mem_filter.mp hmem).1, fun s hs hpath => ?_⟩
    have hdb := exec_db hexec
    simp only [FileWorld.screenshots, FileWorld.inserted, hdb] at hs
    split_ifs at hs
    · rw [Op.onDB, DB.insert, DB.table_modify_self] at hs
      rcases (Table.mem_insert (t := w.agent.db.table .screenshots)).mp hs with hold | rfl
      · exact hold
      · exact absurd (hpath ▸ hr) hp
    · exact hs

end Facts

/-- The files and the rows are sound, each goroutine is in the mode its effects say, what the mode says is true, and no
two goroutines are about to insert the same capture. -/
structure FileInv {ι : Type} [DecidableEq ι] (w : FileWorld) (tr : List (Performed ι FileOp FileReply))
    (m : ι → FileMode) : Prop where
  sound : SoundFiles w
  mode : ∀ i, m i = modeOf i tr
  facts : ∀ i, Facts w (m i)
  alone : ∀ i j p, m i = .captured p → m j = .captured p → i = j

section Steps
variable {ι : Type} [DecidableEq ι] {w w' : FileWorld} {tr : List (Performed ι FileOp FileReply)} {m : ι → FileMode}
  {i : ι} {e : FileOp} {r : FileReply e}

theorem modeOf_snoc (i j : ι) (tr : List (Performed ι FileOp FileReply)) (e : FileOp) (r : FileReply e) :
    modeOf j (tr ++ [(i, ⟨e, r⟩)]) = if i = j then (modeOf j tr).next e r else modeOf j tr := by
  simp [modeOf]

variable {mode : FileMode}

theorem FileInv.captured (h : FileInv w tr m) {p : String} (hp : m i = .captured p) : p ∈ w.pending := by
  have hfacts := h.facts i
  rwa [hp] at hfacts

/-- After an effect: the world, the goroutine that acted, and the others. -/
theorem FileInv.snoc (h : FileInv w tr m) (hmode : mode = (m i).next e r) (hsound : SoundFiles w') (hi : Facts w' mode)
    (hothers : ∀ j, j ≠ i → Facts w' (m j)) (hcap : ∀ p, mode = .captured p → ∀ j, j ≠ i → m j ≠ .captured p) :
    FileInv w' (tr ++ [(i, ⟨e, r⟩)]) (update m i mode) where
  sound := hsound
  mode := by
    refine (Function.forall_update_iff m fun j mode => mode = modeOf j (tr ++ [(i, ⟨e, r⟩)])).mpr ⟨?_, fun j hj => ?_⟩
    · rw [modeOf_snoc, if_pos rfl, ← h.mode]
      exact hmode
    · rw [modeOf_snoc, if_neg (Ne.symm hj), h.mode]
  facts := (Function.forall_update_iff m fun _ mode => Facts w' mode).mpr ⟨hi, hothers⟩
  alone := exclusive_update (fun (mode : FileMode) p => mode = .captured p) h.alone hcap

/-- An effect that at most deletes rows, and leaves its goroutine with no new capture. -/
theorem FileInv.shrinks (h : FileInv w tr m) (hs : w.Shrinks w') (hmode : mode = (m i).next e r) (hi : Facts w' mode)
    (hcap : ∀ p, mode = .captured p → m i = .captured p) : FileInv w' (tr ++ [(i, ⟨e, r⟩)]) (update m i mode) :=
  h.snoc hmode (h.sound.shrinks hs) hi (fun j _ => (h.facts j).shrinks hs)
    fun p hp j hj hjp => hj (h.alone j i p hjp (hcap p hp))

theorem FileInv.quiet (h : FileInv w tr m) (hs : w.Shrinks w') (hmode : m i = (m i).next e r) :
    FileInv w' (tr ++ [(i, ⟨e, r⟩)]) (update m i (m i)) :=
  h.shrinks hs hmode ((h.facts i).shrinks hs) fun _ hp => hp

/-- Listing the records to upload: the path of each names its row. -/
theorem FileInv.list {ch : FileChoice} {limit : Nat} {r : Except String (List (Row .screenshots))} (h : FileInv w tr m)
    (hexec : execSync ch (.listUnsynced .screenshots limit) w = some (r, w'))
    (hmode : mode = (m i).next (.sync (.listUnsynced .screenshots limit)) r) :
    FileInv w' (tr ++ [(i, ⟨.sync (.listUnsynced .screenshots limit), r⟩)]) (update m i mode) := by
  have hs : w.Shrinks w' := execSync_shrinks hexec (fun _ h => nomatch h) fun _ h => nomatch h
  cases r with
  | error err =>
      obtain rfl : mode = m i := hmode
      exact h.quiet hs rfl
  | ok records =>
      obtain rfl : mode = .uploading records [] := hmode
      refine h.shrinks hs rfl (Facts.shrinks (fun r hr => ?_) hs) fun p hp => nomatch hp
      have hlisted : ch.fallible (w.agent.db.listUnsynced .screenshots limit) = .ok records :=
        congrArg Prod.fst (Option.some.inj hexec)
      rw [← (Choice.fallible_ok.mp hlisted).2] at hr
      have hrow : r ∈ w.screenshots := (Table.mem_of_mem_select (t := w.agent.db.table .screenshots) hr).1
      obtain ⟨hpending, hone⟩ := h.sound.path hrow
      exact ⟨hpending, fun s hs hpath => ⟨congrArg ScreenshotRecord.id (hone s hs hpath), List.not_mem_nil⟩⟩

theorem FileInv.delete {ch : FileChoice} {ids : List Nat} {r : Except String Unit} (h : FileInv w tr m)
    (hexec : execSync ch (.deleteByIDs .screenshots ids) w = some (r, w'))
    (hmode : mode = (m i).next (.sync (.deleteByIDs .screenshots ids)) r) :
    FileInv w' (tr ++ [(i, ⟨.sync (.deleteByIDs .screenshots ids), r⟩)]) (update m i mode) := by
  have hs : w.Shrinks w' := execSync_shrinks hexec (fun _ h => nomatch h) fun _ h => nomatch h
  have hfacts := (h.facts i).shrinks hs
  cases r with
  | error err =>
      obtain rfl : mode = m i := hmode
      exact h.quiet hs rfl
  | ok answer =>
      cases hm : m i with
      | uploading records deleted =>
          rw [hm] at hmode hfacts
          obtain rfl : mode = .uploading records (ids ++ deleted) := hmode
          have hgone : ∀ s ∈ w'.screenshots, s.id ∉ ids := fun s hs' => deleted_gone hexec hs'
          refine h.shrinks hs (by rw [hm]; rfl) (fun r hr => ?_) fun p hp => nomatch hp
          obtain ⟨hpending, hrow⟩ := hfacts r hr
          refine ⟨hpending, fun s hs' hpath => ?_⟩
          obtain ⟨hid, hkept⟩ := hrow s hs' hpath
          exact ⟨hid, fun hmem => (List.mem_append.mp hmem).elim (hgone s hs') hkept⟩
      | _ =>
          obtain rfl : mode = m i := by rw [hmode, hm]; rfl
          exact h.quiet hs hmode

theorem FileInv.sync {ch : FileChoice} {op : Op} {r : Reply op} (h : FileInv w tr m)
    (hpre : fileProtocol.pre (m i) (.sync op)) (hexec : execSync ch op w = some (r, w'))
    (hmode : mode = (m i).next (.sync op) r) : FileInv w' (tr ++ [(i, ⟨.sync op, r⟩)]) (update m i mode) := by
  have hquiet : Quiet op → FileInv w' (tr ++ [(i, ⟨.sync op, r⟩)]) (update m i mode) := by
    intro hop
    obtain rfl : mode = m i := hmode.trans (quiet_next hop _ _)
    refine h.quiet (execSync_shrinks hexec (fun path hremove => ?_) fun rows hinsert => ?_) hmode
    · subst hremove
      exact hop
    · subst hinsert
      exact hop rfl
  cases op with
  | remove path =>
      obtain rfl : mode = m i := hmode
      have hfree := (h.facts i).free hpre
      rw [execSync] at hexec
      cases hexec
      split_ifs
      · exact h.quiet (.refl w) rfl
      · have hlater : ∀ j, Facts { w with files := w.files.erase path } (m j) := fun j =>
          (h.facts j).later (fun p hp => h.captured hp) fun p _ => nothingNew_remove w path p
        refine h.snoc rfl (h.sound.refile hfree rfl rfl (Or.inl rfl) fun q hq => AList.lookup_erase_ne hq) (hlater i)
          (fun j _ => hlater j) fun p hp j hj hjp => hj (h.alone j i p hjp hp)
  | insert t rows =>
      cases t with
      | screenshots =>
          obtain ⟨s, rfl, hcaptured⟩ := hpre
          obtain ⟨agent, hinsert, rfl⟩ := execSync_insert hexec
          obtain rfl : mode = .idle := hmode
          have hpending : s.localPath ∈ w.pending := h.captured hcaptured
          refine h.snoc rfl (h.sound.inserted hpending hinsert) trivial (fun j hj => ?_) fun p hp => nomatch hp
          refine (h.facts j).later (fun p hp => ?_) fun p _ => nothingNew_inserted hpending hinsert p
          -- another capture stays pending: it is not the one inserted
          have hne : p ≠ s.localPath := by
            rintro rfl
            exact hj (h.alone j i _ hp hcaptured)
          exact List.mem_filter.mpr ⟨h.captured hp, by simpa using Ne.symm hne⟩
      | _ => exact hquiet fun ht => nomatch ht
  | listUnsynced t limit =>
      cases t with
      | screenshots => exact h.list hexec hmode
      | _ => exact hquiet fun ht => nomatch ht
  | deleteByIDs t ids =>
      cases t with
      | screenshots => exact h.delete hexec hmode
      | _ => exact hquiet fun ht => nomatch ht
  | _ => exact hquiet trivial

theorem FileInv.write {ch : FileChoice} {path : String} {r : Except String Unit} (h : FileInv w tr m)
    (hnew : path ∉ w.tracked) (hhands : ∀ j, path ∉ (modeOf j tr).paths)
    (hexec : execFile ch (.writeFile path) w = some (r, w')) (hmode : mode = (m i).next (.writeFile path) r) :
    FileInv w' (tr ++ [(i, ⟨.writeFile path, r⟩)]) (update m i mode) := by
  obtain ⟨hr, hw'⟩ := Prod.mk.inj (Option.some.inj hexec)
  have hfiles : ∀ q, q ≠ path → w'.files.lookup q = w.files.lookup q := by
    intro q hq
    rw [← hw']
    dsimp only
    split_ifs
    · exact AList.lookup_insert_ne hq
    · exact AList.lookup_erase_ne hq
  have hagent : w'.agent = w.agent := by rw [← hw']
  have hrows : w'.screenshots = w.screenshots := by rw [FileWorld.screenshots, hagent, FileWorld.screenshots]
  have hpending : w'.pending = w.pending ∧ mode = m i ∨ w'.pending = path :: w.pending ∧ mode = .captured path := by
    rw [← hw', hmode, ← hr]
    cases herr : ch.error with
    | some err => exact Or.inl ⟨by simp, by rw [Choice.fallible, herr]; rfl⟩
    | none => exact Or.inr ⟨by simp, by rw [Choice.fallible, herr]; rfl⟩
  have hgrows : ∀ p ∈ w.pending, p ∈ w'.pending := by
    intro p hp
    rcases hpending with ⟨hsame, -⟩ | ⟨hcons, -⟩
    · exact hsame ▸ hp
    · exact hcons ▸ List.mem_cons_of_mem _ hp
  have hnothing : ∀ q, q ≠ path → NothingNew w w' q := by
    intro q hq
    refine ⟨fun t ht => hfiles q hq ▸ ht, fun hout => ⟨?_, fun s hs _ => hrows ▸ hs⟩⟩
    rcases hpending with ⟨hsame, -⟩ | ⟨hcons, -⟩
    · exact hsame ▸ hout
    · rw [hcons]
      exact List.not_mem_cons_of_ne_of_not_mem hq hout
  have hlater : ∀ j, Facts w' (m j) := by
    intro j
    refine (h.facts j).later (fun p hp => hgrows p (h.captured hp)) fun p hp => hnothing p ?_
    rintro rfl
    exact hhands j (h.mode j ▸ hp)
  refine h.snoc hmode (h.sound.refile hnew hagent (by rw [← hw']) (hpending.imp And.left And.left) hfiles) ?_
    (fun j _ => hlater j) ?_
  · rcases hpending with ⟨-, hsame⟩ | ⟨hcons, hcaptured⟩
    · rw [hsame]
      exact hlater i
    · have hmem : path ∈ w'.pending := hcons ▸ List.mem_cons_self
      rw [hcaptured]
      exact hmem
  · intro p hp j hj hjp
    rcases hpending with ⟨-, hsame⟩ | ⟨-, hcaptured⟩
    · exact hj (h.alone j i p hjp (hsame ▸ hp))
    · -- a pending capture is tracked, and this one was not
      obtain rfl : path = p := FileMode.captured.inj (hcaptured ▸ hp)
      exact hnew (mem_tracked.mpr (Or.inl (h.captured hjp)))

theorem FileInv.sweepClock {ch : FileChoice} {known listed : List String} {now : Int} (h : FileInv w tr m)
    (hknows : ∀ p ∈ listed, p ∈ w.tracked → p ∈ known ∨ ∀ modTime ∈ w.files.lookup p, ch.now - modTime < staleAfter)
    (hexec : execFile ch (.sweepClock known listed) w = some (now, w'))
    (hmode : mode = (m i).next (.sweepClock known listed) now) :
    FileInv w' (tr ++ [(i, ⟨.sweepClock known listed, now⟩)]) (update m i mode) := by
  cases hexec
  obtain rfl : mode = .sweeping (listed.filter fun p => !known.contains p) ch.now [] := hmode
  refine h.shrinks (.refl w) rfl (fun p hp htracked => ⟨List.not_mem_nil, ?_⟩) fun p hp => nomatch hp
  obtain ⟨hlisted, hunknown⟩ := List.mem_filter.mp hp
  exact (hknows p hlisted htracked).resolve_left (by simpa using hunknown)

theorem FileInv.info {ch : FileChoice} {path : String} {r : Except String Int} (h : FileInv w tr m)
    (hexec : execFile ch (.info path) w = some (r, w')) (hmode : mode = (m i).next (.info path) r) :
    FileInv w' (tr ++ [(i, ⟨.info path, r⟩)]) (update m i mode) := by
  obtain ⟨hr, rfl⟩ := Prod.mk.inj (Option.some.inj hexec)
  cases r with
  | error err =>
      obtain rfl : mode = m i := hmode
      exact h.quiet (.refl w) rfl
  | ok modTime =>
      have hthere : modTime ∈ w.files.lookup path := by
        cases hlookup : w.files.lookup path with
        | none => simp [hlookup] at hr
        | some t =>
            rw [hlookup] at hr
            exact congrArg some (Choice.fallible_ok.mp hr).2
      cases hm : m i with
      | sweeping paths now stale =>
          have hfacts := h.facts i
          rw [hm] at hfacts
          by_cases hfresh : now - modTime < staleAfter
          · have hsame : (m i).next (.info path) (.ok modTime) = m i := by
              rw [hm]
              exact if_pos hfresh
            obtain rfl : mode = m i := hmode.trans hsame
            exact h.quiet (.refl w) hmode
          · have hnext : (m i).next (.info path) (.ok modTime) = .sweeping paths now (path :: stale) := by
              rw [hm]
              exact if_neg hfresh
            obtain rfl : mode = .sweeping paths now (path :: stale) := hmode.trans hnext
            refine h.shrinks (.refl w) hmode (fun p hp htracked => ?_) fun p hp => nomatch hp
            obtain ⟨hstale, hall⟩ := hfacts p hp htracked
            refine ⟨?_, hall⟩
            rintro (_ | ⟨_, hmem⟩)
            · exact hfresh (hall modTime hthere)
            · exact hstale hmem
      | _ =>
          obtain rfl : mode = m i := by rw [hmode, hm]; rfl
          exact h.quiet (.refl w) hmode

/-- **One effect.** It keeps the invariant, when its goroutine may do it, a file it writes is new, and the janitor that
reads the clock knows the stale files. -/
theorem FileInv.step {ch : FileChoice} (h : FileInv w tr m) (hpre : fileProtocol.pre (m i) e)
    (hnew : ∀ path ∈ writes e, path ∉ w.tracked ∧ ∀ j, path ∉ (modeOf j tr).paths)
    (hknows : ∀ s ∈ sweeps e, ∀ path ∈ s.2, path ∈ w.tracked →
      path ∈ s.1 ∨ ∀ modTime ∈ w.files.lookup path, ch.now - modTime < staleAfter)
    (hexec : execFile ch e w = some (r, w')) :
    FileInv w' (tr ++ [(i, ⟨e, r⟩)]) (update m i ((m i).next e r)) := by
  cases e with
  | sync op => exact h.sync hpre hexec rfl
  | writeFile path => exact h.write (hnew path rfl).1 (hnew path rfl).2 hexec rfl
  | sweepClock known listed => exact h.sweepClock (hknows (known, listed) rfl) hexec rfl
  | info path => exact h.info hexec rfl
  | _ =>
      cases hexec
      exact h.quiet (.refl w) rfl

end Steps

/-! ## Runs -/

theorem soundFiles_start {db : DB} {files : AList fun _ : String => Int}
    (h : (FileWorld.start db files).tracked.Nodup) : SoundFiles (FileWorld.start db files) where
  distinct := h
  backed id hid := by
    obtain ⟨s, hs, rfl⟩ := List.mem_map.mp hid
    exact (db.table .screenshots).bounded s (List.mem_filter.mp hs).1
  kept s hs hid := by
    obtain ⟨s', hs', hkey⟩ := List.mem_map.mp hid
    obtain ⟨hmem, hthere⟩ := List.mem_filter.mp hs'
    obtain rfl : s' = s := (db.table .screenshots).eq_of_key hmem hs hkey
    exact hthere

theorem fileInv_of_reaches {ι : Type} [DecidableEq ι] {db : DB} {files : AList fun _ : String => Int}
    {c : Config ι FileOp FileReply FileWorld} (hpaths : (FileWorld.start db files).tracked.Nodup)
    (h : Reaches fileAgent (fun c a => NewName c a ∧ KnowsStale c a) (Config.start (FileWorld.start db files)) c) :
    ∃ m : ι → FileMode, FileInv c.world c.trace m ∧ ∀ i, FollowsFiles (m i) (c.thread i) := by
  refine Reaches.inv (P := fileProtocol) (F := fun _ => True) FileInv ?_ ?_ ?_ h
  · exact ⟨fun _ => .idle, ⟨soundFiles_start hpaths, fun _ => rfl, fun _ => trivial, fun _ _ _ h => nomatch h⟩,
      fun _ => trivial⟩
  · intro c m i j w hI _ _ hadmits
    cases hadmits
    refine ⟨m i, ?_, followsFiles_body j⟩
    rw [Function.update_eq_self]
    exact hI
  · intro c m i ch e k r w hI hG hop hpre hexec
    have hperf := Config.performs_step (J := FileJob) hop ch
    exact ⟨(m i).next e r, rfl, hI.step hpre (hG.1 _ hperf) (hG.2 _ hperf) hexec⟩

/-- **Rows keep their files.** From rows that name different files, in every run of captures, flushes, caps, prunes and
daily ticks in which each capture takes a new name and the janitor knows the stale files, every row that was inserted
with its file has it. -/
theorem filesKept {ι : Type} [DecidableEq ι] {db : DB} {files : AList fun _ : String => Int}
    {c : Config ι FileOp FileReply FileWorld} (hpaths : (FileWorld.start db files).tracked.Nodup)
    (h : Reaches fileAgent (fun c a => NewName c a ∧ KnowsStale c a) (Config.start (FileWorld.start db files)) c) :
    FilesKept c.world := by
  obtain ⟨m, hinv, -⟩ := fileInv_of_reaches hpaths h
  exact hinv.sound.kept

/-- Files with their modification times. -/
def filesOf (l : List (String × Int)) : AList fun _ : String => Int := l.foldl (fun files f => files.insert f.1 f.2) ∅

/-- Three goroutines over a buffer and files, nothing done yet. -/
abbrev filesFrom (db : DB) (files : List (String × Int)) : Config Goroutine FileOp FileReply FileWorld :=
  Config.start (FileWorld.start db (filesOf files))

/-- A capture on the tenth day, then the daily tick, which removes an old file that no row names. -/
def captureThenTick : List (Act Goroutine FileChoice FileJob) :=
  (.call .worker (.screenshotWorker "shots" "e1" "o1") :: List.replicate 5 (.step .worker { now := 10 * day }) :
      List (Act Goroutine FileChoice FileJob)) ++
    (.call .main (.pruneTick "shots" 7) ::
      List.replicate 15 (.step .main { now := 10 * day + hour, names := ["ss_1.jpg", "ss_864000000.jpg"] }) :
      List (Act Goroutine FileChoice FileJob))

theorem filesKept_captureThenTick :
    FilesKept (fileAgent.endOf (filesFrom DB.empty [("shots/ss_1.jpg", 0)]) captureThenTick).world :=
  filesKept (by decide +kernel) (reaches_endOf (by decide +kernel) (by decide +kernel))

/-- A buffer with one screenshot, captured at the second millisecond. -/
def oneScreenshot : DB := DB.empty.insert .screenshots [⟨0, "e1", "o1", "shots/ss_1.jpg", "", 2000000, false⟩]

/-- The daily tick of the eighth day, each of its statements failing. -/
def tickWhileLocked : List (Act Goroutine FileChoice FileJob) :=
  .call .main (.pruneTick "shots" 7) ::
    List.replicate 8 (.step .main { now := 8 * day, error := some "database is locked" }) ++
    List.replicate 4 (.step .main { now := 8 * day, names := ["ss_1.jpg"] })

/-- The row is still in the buffer, and its file is gone. -/
theorem not_filesKept :
    ∃ c, Reaches fileAgent (fun _ _ => True) (filesFrom oneScreenshot [("shots/ss_1.jpg", 1000000)]) c ∧
      (filesFrom oneScreenshot [("shots/ss_1.jpg", 1000000)]).world.tracked.Nodup ∧
      c.world.screenshots.map ScreenshotRecord.localPath = ["shots/ss_1.jpg"] ∧ c.world.backed = [1] ∧
      c.world.files.keys = [] ∧ ¬ FilesKept c.world :=
  ⟨fileAgent.endOf (filesFrom oneScreenshot [("shots/ss_1.jpg", 1000000)]) tickWhileLocked,
    reaches_endOf (fileAgent.allowed_true _ _) (by decide +kernel), by decide +kernel, by decide +kernel,
    by decide +kernel, by decide +kernel, by decide +kernel⟩

end TimeChamp.Agent
