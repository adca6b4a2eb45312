import TimeChamp.Lib.LocalTime
import TimeChamp.Lib.Pool
import TimeChamp.Screenshots.Storage

/-!
# Old screenshots

Every night the rows of old screenshots are removed, each after a request to delete its object. Uploads prefer Supabase,
deletions know only the S3 client, and without one they return as if all was well.

* `Store`, `Op`, `exec` : the rows and the objects, with what was deleted and removed so far;
* `cleanupOldScreenshots` : the job, and `maintenance` : any number of them, of uploads and of rows that are saved;
* `RemovedAfterDeleted` : a row was removed only after its object was deleted from the store of uploads;
* `Names`, `Later` : an id that stands for a key, and what any call can do to the store;
* `removedAfterDeleted_iff` : **it holds in every run exactly when Supabase is not configured**.
-/

namespace TimeChamp.Screenshots
open Lib
open Function (update)

/-! ## Calls -/

/-- The rows and the objects, and what was deleted of each. -/
structure Store where
  screenshots : Table Screenshot
  objects : List (Backend × String)
  deleted : List (Backend × String)
  removed : List Screenshot

def Store.empty : Store := ⟨Table.empty, [], [], []⟩

inductive Op where
  | generateUploadUrl (user : User)
  | put (url : Url)
  | insert (row : Screenshot)
  | findOld
  | deleteObject (backend : Backend) (key : String)
  | deleteRow (id : Nat)

abbrev Op.Reply : Op → Type
  | .generateUploadUrl _ => Except String UploadUrl
  | .findOld => Except String (List (Nat × String))
  | _ => Except String Unit

/-- What the outside decides: how a call ends, the clock, and what a store answers that is asked to sign a URL. -/
structure Choice where
  outcome : Outcome
  now : Int
  reply : SignReply

/-- `cutoff.setDate(cutoff.getDate() - 90)`. -/
def cutoff (zone : Zone) (now : Int) : Int := zone.addLocalDays now (-90)

def Store.put (s : Store) : Url → Store
  | .signed backend key => { s with objects := (backend, key) :: s.objects }
  | _ => s

def Store.deleteObject (s : Store) (backend : Backend) (key : String) : Store :=
  { s with objects := s.objects.filter (· ≠ (backend, key)), deleted := (backend, key) :: s.deleted }

def Store.deleteRow (s : Store) (id : Nat) : Store :=
  { s with
    screenshots := s.screenshots.removeKeys [id]
    removed := s.screenshots.rows.filter (fun row => row.id = id) ++ s.removed }

def exec (service : AgentService) (zone : Zone) (ch : Choice) : (op : Op) → Store → Option (op.Reply × Store)
  | .generateUploadUrl user, s => some (service.generateUploadUrl user ch.now ch.reply, s)
  | .put url, s => some (ch.outcome.answer "put" () s (s.put url))
  | .insert row, s =>
    some (ch.outcome.answer "insert" () s { s with screenshots := s.screenshots.insert row })
  | .findOld, s =>
    let old := s.screenshots.select (fun row => row.capturedAt < cutoff zone ch.now) 500
    some (ch.outcome.answer "find" (old.map fun row => (row.id, row.s3Key)) s s)
  | .deleteObject backend key, s => some (ch.outcome.answer "delete" () s (s.deleteObject backend key))
  | .deleteRow id, s => some (ch.outcome.answer "delete" () s (s.deleteRow id))

/-! ## Jobs -/

abbrev Program := Prog Op Op.Reply

namespace Program
abbrev generateUploadUrl (user : User) : Program (Except String UploadUrl) := .perform (E := Op) (.generateUploadUrl user)
abbrev put (url : Url) : Program (Except String Unit) := .perform (E := Op) (.put url)
abbrev insert (row : Screenshot) : Program (Except String Unit) := .perform (E := Op) (.insert row)
abbrev findOld : Program (Except String (List (Nat × String))) := .perform (E := Op) .findOld
abbrev deleteObject (backend : Backend) (key : String) : Program (Except String Unit) :=
  .perform (E := Op) (.deleteObject backend key)
abbrev deleteRow (id : Nat) : Program (Except String Unit) := .perform (E := Op) (.deleteRow id)
end Program

open Program

/-- The deletion of an object. -/
def deleteS3Object (service : AgentService) (key : String) : Program (Except String Unit) :=
  match service.deleteS3Object key with
  | none => pure (.ok ())
  | some (backend, key) => deleteObject backend key

/-- The rows that were found, one after the other. An error is logged, and the row stays. -/
def sweep (service : AgentService) : List (Nat × String) → Program Unit
  | [] => pure ()
  | (id, s3Key) :: old => do
    match ← deleteS3Object service s3Key with
    | .error _ => pure ()
    | .ok _ => do let _ ← deleteRow id
    sweep service old

def cleanupOldScreenshots (service : AgentService) : Program Unit := do
  match ← findOld with
  | .error _ => pure ()
  | .ok old => sweep service old

/-- The agent asks for a URL and puts a screenshot there. -/
def upload (user : User) : Program Unit := do
  match ← generateUploadUrl user with
  | .error _ => pure ()
  | .ok upload => do let _ ← put upload.uploadUrl

/-- The agent saves a row. -/
def save (user : User) (dto : SyncScreenshotDto) (deviceId : Option Uuid) : Program Unit :=
  match dto.row user deviceId with
  | none => pure ()
  | some row => do let _ ← insert row

inductive Job where
  | upload (user : User)
  | save (user : User) (dto : SyncScreenshotDto) (deviceId : Option Uuid)
  | cleanup

def Job.body (service : AgentService) : Job → Program Unit
  | .upload user => Screenshots.upload user
  | .save user dto deviceId => Screenshots.save user dto deviceId
  | .cleanup => cleanupOldScreenshots service

def maintenance (service : AgentService) (zone : Zone) : System Op Op.Reply Store Choice Job :=
  ⟨exec service zone, fun _ s => some s, Job.body service⟩

theorem body_save {service : AgentService} {zone : Zone} {user : User} {dto : SyncScreenshotDto}
    {deviceId : Option Uuid} {row : Screenshot} (h : dto.row user deviceId = some row) :
    (maintenance service zone).body (.save user dto deviceId) = (Program.insert row >>= fun _ => pure ()) := by
  show save user dto deviceId = _
  unfold save
  rw [h]

abbrev Maintained (ι : Type) := Config ι Op Op.Reply Store

/-- A row was removed only after its object was deleted from the store that uploads go to. -/
def RemovedAfterDeleted (service : AgentService) (s : Store) : Prop :=
  ∀ row ∈ s.removed, ∀ backend ∈ service.uploadBackend, (backend, row.s3Key) ∈ s.deleted

/-! ## What a call can do -/

/-- The id was handed out, and only to a row with this key. -/
def Names (s : Store) (entry : Nat × String) : Prop :=
  entry.1 < s.screenshots.nextKey ∧ ∀ row ∈ s.screenshots.rows, row.id = entry.1 → row.s3Key = entry.2

/-- Ids are not used again, and what was deleted stays so. -/
def Later (s s' : Store) : Prop := Table.Evolves s.screenshots s'.screenshots ∧ s.deleted ⊆ s'.deleted

theorem Later.refl (s : Store) : Later s s := ⟨Table.Evolves.refl _, List.Subset.refl _⟩

theorem Names.later {s s' : Store} {entry : Nat × String} (h : Names s entry) (hlater : Later s s') :
    Names s' entry := by
  obtain ⟨⟨hkey, hrows⟩, -⟩ := hlater
  refine ⟨Nat.lt_of_lt_of_le h.1 hkey, fun row hrow hid => ?_⟩
  rcases hrows row hrow with hrow | hnew
  · exact h.2 row hrow hid
  · have hlt := h.1
    change s.screenshots.nextKey ≤ row.id at hnew
    omega

section
variable {service : AgentService} {zone : Zone} {ch : Choice} {op : Op} {s s' : Store} {r : op.Reply}

theorem later_exec (h : exec service zone ch op s = some (r, s')) : Later s s' := by
  have answer : ∀ {t : Store} {e : String} {r : Except String Unit},
      Later s t → ch.outcome.answer e () s t = (r, s') → Later s s' := by
    intro t e r hlater hr
    rcases Outcome.answer_cases hr with ⟨rfl, -⟩ | ⟨-, rfl | rfl⟩
    · exact hlater
    · exact Later.refl _
    · exact hlater
  cases op with
  | generateUploadUrl user =>
      obtain ⟨-, rfl⟩ := Prod.mk.inj (Option.some.inj h)
      exact Later.refl _
  | put url =>
      refine answer ?_ (Option.some.inj h)
      cases url <;> exact Later.refl _
  | insert row =>
      refine answer ?_ (Option.some.inj h)
      exact ⟨Table.evolves_insert _ _, List.Subset.refl _⟩
  | findOld =>
      obtain ⟨rfl, -⟩ := Outcome.answer_read (Option.some.inj h)
      exact Later.refl _
  | deleteObject backend key =>
      refine answer ?_ (Option.some.inj h)
      exact ⟨Table.Evolves.refl _, List.subset_cons_self _ _⟩
  | deleteRow id =>
      refine answer ?_ (Option.some.inj h)
      exact ⟨Table.evolves_remove _ _, List.Subset.refl _⟩

theorem removed_cases (h : exec service zone ch op s = some (r, s')) :
    s'.removed = s.removed ∨ ∃ id, op = .deleteRow id ∧ s' = s.deleteRow id := by
  have answer : ∀ {t : Store} {e : String} {r : Except String Unit},
      t.removed = s.removed → ch.outcome.answer e () s t = (r, s') → s'.removed = s.removed := by
    intro t e r hsame hr
    rcases Outcome.answer_cases hr with ⟨rfl, -⟩ | ⟨-, rfl | rfl⟩
    · exact hsame
    · rfl
    · exact hsame
  cases op with
  | generateUploadUrl user =>
      obtain ⟨-, rfl⟩ := Prod.mk.inj (Option.some.inj h)
      exact Or.inl rfl
  | put url =>
      refine Or.inl (answer ?_ (Option.some.inj h))
      cases url <;> rfl
  | insert row =>
      refine Or.inl (answer ?_ (Option.some.inj h))
      rfl
  | findOld =>
      obtain ⟨rfl, -⟩ := Outcome.answer_read (Option.some.inj h)
      exact Or.inl rfl
  | deleteObject backend key =>
      refine Or.inl (answer ?_ (Option.some.inj h))
      rfl
  | deleteRow id =>
      rcases Outcome.answer_cases (Option.some.inj h) with ⟨rfl, -⟩ | ⟨-, rfl | rfl⟩
      · exact Or.inr ⟨id, rfl, rfl⟩
      · exact Or.inl rfl
      · exact Or.inr ⟨id, rfl, rfl⟩

end

/-! ## Stages of a cleanup -/

/-- Where a job stands: rows that it found and has not seen to, and one of them whose object it has deleted. -/
inductive Stage where
  | idle
  | sweeping (old : List (Nat × String))
  | cleared (entry : Nat × String) (old : List (Nat × String))

/-- A row that was found is removed after its object was deleted. -/
def cleanupProtocol (backend : Backend) : Protocol Op Op.Reply Stage where
  pre m
    | .deleteObject b key => b = backend ∧ ∃ id old, m = .sweeping ((id, key) :: old)
    | .deleteRow id => ∃ key old, m = .cleared (id, key) old
    | _ => True
  post m op r m' :=
    match op, r with
    | .findOld, .ok old => m' = .sweeping old
    | .deleteObject _ key, .ok _ => ∃ id old, m = .sweeping ((id, key) :: old) ∧ m' = .cleared (id, key) old
    | .deleteObject _ key, .error _ => ∃ id old, m = .sweeping ((id, key) :: old) ∧ m' = .sweeping old
    | .deleteRow id, _ => ∃ key old, m = .cleared (id, key) old ∧ m' = .sweeping old
    | _, _ => m' = .idle

section
variable {service : AgentService} {backend : Backend}

theorem follows_sweep (h : service.s3Backend = some backend) (old : List (Nat × String)) :
    Follows (cleanupProtocol backend) (fun _ _ => True) (.sweeping old) (sweep service old) := by
  have hdelete : ∀ key, deleteS3Object service key = deleteObject backend key := by
    intro key
    simp only [deleteS3Object, AgentService.deleteS3Object, h, Option.map_some]
  induction old with
  | nil => trivial
  | cons entry old ih =>
      obtain ⟨id, key⟩ := entry
      rw [sweep, hdelete]
      refine follows_perform_bind.mpr ⟨⟨rfl, id, old, rfl⟩, fun r m hm => ?_⟩
      cases r with
      | error e =>
          obtain ⟨id', old', heq, rfl⟩ := hm
          obtain ⟨-, rfl⟩ := List.cons.inj (Stage.sweeping.inj heq)
          exact ih
      | ok u =>
          obtain ⟨id', old', heq, rfl⟩ := hm
          obtain ⟨hentry, rfl⟩ := List.cons.inj (Stage.sweeping.inj heq)
          obtain ⟨rfl, -⟩ := Prod.mk.inj hentry
          refine follows_perform_bind.mpr ⟨⟨key, old, rfl⟩, fun r m hm => ?_⟩
          obtain ⟨key', old', heq, rfl⟩ := hm
          obtain ⟨-, rfl⟩ := Stage.cleared.inj heq
          exact ih

theorem follows_body (h : service.s3Backend = some backend) (job : Job) :
    Follows (cleanupProtocol backend) (fun _ _ => True) .idle (job.body service) := by
  cases job with
  | upload user =>
      refine follows_perform_bind.mpr ⟨trivial, fun r m _ => ?_⟩
      cases r with
      | error e => trivial
      | ok upload => exact ⟨trivial, fun _ _ _ => trivial⟩
  | save user dto deviceId =>
      show Follows (cleanupProtocol backend) (fun _ _ => True) .idle (save user dto deviceId)
      unfold save
      cases dto.row user deviceId with
      | none => trivial
      | some row => exact ⟨trivial, fun _ _ _ => trivial⟩
  | cleanup =>
      refine follows_perform_bind.mpr ⟨trivial, fun r m hm => ?_⟩
      cases r with
      | error e => trivial
      | ok old =>
          cases hm
          exact follows_sweep h old

end

/-! ## Runs -/

/-- What a job knows in each stage. -/
def Sound (backend : Backend) (s : Store) : Stage → Prop
  | .idle => True
  | .sweeping old => ∀ entry ∈ old, Names s entry
  | .cleared entry old => (backend, entry.2) ∈ s.deleted ∧ ∀ e ∈ entry :: old, Names s e

theorem Sound.later {backend : Backend} {s s' : Store} {m : Stage} (h : Sound backend s m) (hlater : Later s s') :
    Sound backend s' m := by
  cases m with
  | idle => trivial
  | sweeping old => exact fun entry hentry => (h entry hentry).later hlater
  | cleared entry old => exact ⟨hlater.2 h.1, fun e he => (h.2 e he).later hlater⟩

theorem names_of_mem {s : Store} {row : Screenshot} (h : row ∈ s.screenshots.rows) : Names s (row.id, row.s3Key) := by
  refine ⟨s.screenshots.bounded row h, fun other hother hid => ?_⟩
  rw [s.screenshots.eq_of_key hother h hid]

/-- The rows that were removed had their objects deleted. -/
def Cleared (backend : Backend) (s : Store) : Prop := ∀ row ∈ s.removed, (backend, row.s3Key) ∈ s.deleted

section
variable {service : AgentService} {zone : Zone} {backend : Backend} {s s' : Store} {ch : Choice} {op : Op}
  {r : op.Reply} {m : Stage}

/-- **One call** of a job that follows the protocol. -/
theorem sound_exec (hclear : Cleared backend s) (hm : Sound backend s m) (hpre : (cleanupProtocol backend).pre m op)
    (h : exec service zone ch op s = some (r, s')) :
    Cleared backend s' ∧ ∃ m', (cleanupProtocol backend).post m op r m' ∧ Sound backend s' m' := by
  have hlater := later_exec h
  refine ⟨fun row hrow => ?_, ?_⟩
  · rcases removed_cases h with hsame | ⟨id, rfl, rfl⟩
    · rw [hsame] at hrow
      exact hlater.2 (hclear row hrow)
    · rcases List.mem_append.mp hrow with hrow | hrow
      · -- its object was deleted just before
        obtain ⟨key, old, rfl⟩ := hpre
        obtain ⟨hmem, hid⟩ := List.mem_filter.mp hrow
        have hkey := (hm.2 (id, key) List.mem_cons_self).2 row hmem (of_decide_eq_true hid)
        rw [hkey]
        exact hm.1
      · exact hclear row hrow
  · cases op with
    | findOld =>
        cases r with
        | error e => exact ⟨.idle, rfl, trivial⟩
        | ok old =>
            refine ⟨.sweeping old, rfl, fun entry hentry => ?_⟩
            rcases Outcome.answer_cases (Option.some.inj h) with ⟨-, hr⟩ | ⟨hr, -⟩
            · obtain rfl := Except.ok.inj hr
              obtain ⟨row, hrow, rfl⟩ := List.mem_map.mp hentry
              exact (names_of_mem (Table.mem_of_mem_select hrow).1).later hlater
            · cases hr
    | deleteObject b key =>
        obtain ⟨rfl, id, old, rfl⟩ := hpre
        cases r with
        | error e =>
            refine ⟨.sweeping old, ⟨id, old, rfl, rfl⟩, fun entry hentry => ?_⟩
            exact (hm entry (List.mem_cons_of_mem _ hentry)).later hlater
        | ok u =>
            refine ⟨.cleared (id, key) old, ⟨id, old, rfl, rfl⟩, ?_, fun e he => (hm e he).later hlater⟩
            rcases Outcome.answer_cases (Option.some.inj h) with ⟨rfl, -⟩ | ⟨hr, -⟩
            · exact List.mem_cons_self
            · cases hr
    | deleteRow id =>
        obtain ⟨key, old, rfl⟩ := hpre
        refine ⟨.sweeping old, ⟨key, old, rfl, rfl⟩, fun entry hentry => ?_⟩
        exact (hm.2 entry (List.mem_cons_of_mem _ hentry)).later hlater
    | _ => exact ⟨.idle, rfl, trivial⟩

end

/-- With the S3 client as the store of uploads, rows are removed after their objects. -/
theorem cleared_of_reaches {service : AgentService} {zone : Zone} {backend : Backend}
    (h : service.s3Backend = some backend) {ι : Type} [DecidableEq ι] {c : Maintained ι}
    (hc : Reaches (maintenance service zone) (fun _ _ => True) (Config.start Store.empty) c) :
    Cleared backend c.world := by
  have hinv : ∃ m : ι → Stage, (Cleared backend c.world ∧ ∀ i, Sound backend c.world (m i)) ∧
      ∀ i, Follows (cleanupProtocol backend) (fun _ _ => True) (m i) (c.thread i) := by
    refine Reaches.inv (P := cleanupProtocol backend) (F := fun _ => True)
      (fun s _ m => Cleared backend s ∧ ∀ i, Sound backend s (m i)) ?_ ?_ ?_ hc
    · exact ⟨fun _ => .idle, ⟨nofun, fun _ => trivial⟩, fun _ => trivial⟩
    · intro c m i job s hI _ _ hs
      obtain rfl := Option.some.inj hs
      refine ⟨.idle, ⟨hI.1, ?_⟩, follows_body h job⟩
      exact (Function.forall_update_iff m fun _ stage => Sound backend c.world stage).mpr
        ⟨trivial, fun j _ => hI.2 j⟩
    · intro c m i ch op k r s hI _ _ hpre hr
      obtain ⟨hclear, m', hpost, hm'⟩ := sound_exec hI.1 (hI.2 i) hpre hr
      refine ⟨m', hpost, hclear, ?_⟩
      exact (Function.forall_update_iff m fun _ stage => Sound backend s stage).mpr
        ⟨hm', fun j _ => (hI.2 j).later (later_exec hr)⟩
  obtain ⟨m, hI, -⟩ := hinv
  exact hI.1

/-! ### A screenshot in Supabase -/

section Runs

/-- A screenshot of the first of January 1970. -/
def annKey : String := screenshotKey ann 0

def annDto : SyncScreenshotDto := ⟨some annKey, some 0, some 204800⟩

def annRow : Screenshot := ⟨0, ann.id, ann.organizationId, none, annKey, 0, 204800⟩

theorem row_annDto : annDto.row ann none = some annRow := by decide +kernel

/-- All calls go well, at this moment. -/
def smooth (now : Int) : Nat → Choice := fun _ => ⟨.ok, now, .url⟩

/-- The next year. -/
def nextYear : Nat → Choice := smooth (365 * msPerDay)

def uploaded (url : String) : Store := { Store.empty with objects := [(.supabase url, annKey)] }

def saved (url : String) : Store := { uploaded url with screenshots := Table.empty.insert annRow }

theorem run_upload {service : AgentService} {url : String} (h : service.supabase = some url) (zone : Zone) :
    ((maintenance service zone).body (.upload ann)).run (Prog.fed (maintenance service zone).exec)
      (smooth 0, Store.empty) = some ((), smooth 0, uploaded url) := by
  have hurl : service.generateUploadUrl ann 0 .url = .ok ⟨.signed (.supabase url) annKey, annKey⟩ := by
    simp only [AgentService.generateUploadUrl, h]
    rfl
  have hgenerate : Prog.fed (exec service zone) (.generateUploadUrl ann) (smooth 0, Store.empty) =
      some (.ok ⟨.signed (.supabase url) annKey, annKey⟩, smooth 0, Store.empty) := by
    apply Prog.fed_eq
    simp only [exec, smooth, hurl]
  have hput : Prog.fed (exec service zone) (.put (.signed (.supabase url) annKey)) (smooth 0, Store.empty) =
      some (.ok (), smooth 0, uploaded url) := Prog.fed_eq rfl
  apply (Prog.run_bind_of _ (Prog.run_op _ hgenerate)).trans
  apply (Prog.run_bind_of _ (Prog.run_op _ hput)).trans
  exact Prog.run_pure _ _ _

theorem run_save (service : AgentService) (zone : Zone) (url : String) :
    ((maintenance service zone).body (.save ann annDto none)).run (Prog.fed (maintenance service zone).exec)
      (smooth 0, uploaded url) = some ((), smooth 0, saved url) := by
  have hinsert : Prog.fed (exec service zone) (.insert annRow) (smooth 0, uploaded url) =
      some (.ok (), smooth 0, saved url) := Prog.fed_eq rfl
  rw [body_save row_annDto]
  apply (Prog.run_bind_of _ (Prog.run_op _ hinsert)).trans
  exact Prog.run_pure _ _ _

theorem findOld_saved (service : AgentService) (zone : Zone) (url : String) :
    exec service zone (nextYear 0) .findOld (saved url) = some (.ok [(1, annKey)], saved url) := by
  have hdrift := zone.drift_bound (365 * msPerDay) (-90)
  have hcutoff : (0 : Int) < cutoff zone (365 * msPerDay) := by
    rw [cutoff, zone.addLocalDays_eq]
    unfold msPerDay at hdrift ⊢
    omega
  have hold : (saved url).screenshots.select (fun row => row.capturedAt < cutoff zone (365 * msPerDay)) 500 =
      [Keyed.withKey 1 annRow] := by
    refine congrArg (List.take 500) (List.filter_cons_of_pos ?_)
    exact decide_eq_true hcutoff
  have hexec : exec service zone (nextYear 0) .findOld (saved url) =
      some (.ok (((saved url).screenshots.select (fun row => row.capturedAt < cutoff zone (365 * msPerDay)) 500).map
        fun row => (row.id, row.s3Key)), saved url) := rfl
  rw [hexec, hold]
  rfl

/-- The row is removed, what was deleted was not in Supabase, and the object is still there. -/
theorem exists_run_cleanup (service : AgentService) (zone : Zone) (url : String) : ∃ f s,
    (Job.cleanup.body service).run (Prog.fed (exec service zone)) (nextYear, saved url) = some ((), f, s) ∧
      (∃ row ∈ s.removed, row.s3Key = annKey) ∧ (.supabase url, annKey) ∉ s.deleted ∧
        (.supabase url, annKey) ∈ s.objects := by
  have hrun : (Job.cleanup.body service).run (Prog.fed (exec service zone)) (nextYear, saved url) =
      (sweep service [(1, annKey)]).run (Prog.fed (exec service zone)) (nextYear, saved url) :=
    Prog.run_op _ (Prog.fed_eq (findOld_saved service zone url))
  rw [hrun, sweep]
  obtain ⟨s3, bucket, cdnUrl, supabase⟩ := service
  cases s3 <;> cases bucket
  case some.some client bucket =>
    refine ⟨_, _, rfl, ⟨_, List.mem_cons_self, rfl⟩, fun hmem => (nomatch List.mem_singleton.mp hmem), ?_⟩
    exact List.mem_filter.mpr ⟨List.mem_cons_self, decide_eq_true nofun⟩
  all_goals exact ⟨_, _, rfl, ⟨_, List.mem_cons_self, rfl⟩, fun hmem => (nomatch hmem), List.mem_cons_self⟩

/-- With Supabase, a row is removed and its object stays. -/
theorem exists_not_removedAfterDeleted {service : AgentService} {url : String} (h : service.supabase = some url)
    (zone : Zone) : ∃ c : Maintained Nat,
      Reaches (maintenance service zone) (fun _ _ => True) (Config.start Store.empty) c ∧
        ∃ row ∈ c.world.removed, service.uploadBackend = some (.supabase url) ∧
          (.supabase url, row.s3Key) ∈ c.world.objects ∧ (.supabase url, row.s3Key) ∉ c.world.deleted := by
  obtain ⟨c, hc, hworld, hidle⟩ :=
    Reaches.start.job (c := Config.start Store.empty) (fun _ => rfl) 0 rfl (run_upload h zone)
  obtain ⟨c, hc, hworld, hidle⟩ :=
    hc.job (j := .save ann annDto none) hidle 0 rfl (by rw [hworld]; exact run_save service zone url)
  obtain ⟨f, s, hrun, ⟨row, hrow, hkey⟩, hdeleted, hobjects⟩ := exists_run_cleanup service zone url
  obtain ⟨c', hc', hworld', -⟩ := hc.job (j := .cleanup) hidle 0 rfl (by rw [hworld]; exact hrun)
  rw [← hkey, ← hworld'] at hdeleted hobjects
  refine ⟨c', hc', row, hworld' ▸ hrow, ?_, hobjects, hdeleted⟩
  rw [AgentService.uploadBackend, h]
  rfl

end Runs

/-- **Rows are removed after their objects in every run** exactly when Supabase is not configured. -/
theorem removedAfterDeleted_iff (service : AgentService) (zone : Zone) :
    (∀ (ι : Type) [DecidableEq ι] (c : Maintained ι),
      Reaches (maintenance service zone) (fun _ _ => True) (Config.start Store.empty) c →
        RemovedAfterDeleted service c.world) ↔ service.supabase = none := by
  constructor
  · intro h
    cases hsupabase : service.supabase with
    | none => rfl
    | some url =>
        obtain ⟨c, hc, row, hrow, hbackend, -, hdeleted⟩ := exists_not_removedAfterDeleted hsupabase zone
        exact absurd (h Nat c hc row hrow _ hbackend) hdeleted
  · intro h ι _ c hc row hrow backend hbackend
    rw [AgentService.uploadBackend, h] at hbackend
    exact cleared_of_reaches hbackend hc row hrow

theorem not_removedAfterDeleted :
    ¬ ∀ (service : AgentService) (zone : Zone) (ι : Type) [DecidableEq ι] (c : Maintained ι),
      Reaches (maintenance service zone) (fun _ _ => True) (Config.start Store.empty) c →
        RemovedAfterDeleted service c.world := by
  intro h
  have hurl : onSupabase.supabase = some "https://project.supabase.co" := rfl
  obtain ⟨c, hc, row, hrow, hbackend, -, hdeleted⟩ :=
    exists_not_removedAfterDeleted hurl (Zone.fixed 0 (by decide))
  exact hdeleted (h onSupabase (Zone.fixed 0 (by decide)) Nat c hc row hrow _ hbackend)

end TimeChamp.Screenshots
