import TimeChamp.Lib.LocalTime
import TimeChamp.TimeTracking.Service

/-!
# Timesheets

The weekly timesheets of the time-tracking service: submitting, approving and rejecting one. As for the attendance, a
request is a program over database calls that others can come between.

* `Timesheet`, `Sheets` : the rows and the tables read;
* `SheetOp`, `execSheet` : one effect for each awaited call;
* `Saves` : which columns saving a loaded row writes;
* `weekEnd`, `totalMinutes`, `submitTimesheet`, `approveTimesheet`, `rejectTimesheet` : the operations; `sheetService` :
  any number of requests.
-/

namespace TimeChamp.TimeTracking
open Lib

inductive TimesheetStatus where
  | draft
  | submitted
  | approved
  | rejected
deriving DecidableEq

def TimesheetStatus.text : TimesheetStatus → String
  | .draft => "draft"
  | .submitted => "submitted"
  | .approved => "approved"
  | .rejected => "rejected"

/-- A timesheet; `weekStart` is the day, counted from the epoch. -/
structure Timesheet where
  id : Nat
  userId : String
  organizationId : String
  weekStart : Int
  totalMinutes : Int
  status : TimesheetStatus
  submittedAt : Option Int
  approvedBy : Option String
  approvedAt : Option Int
  rejectionNote : Option String
deriving DecidableEq

instance : Keyed Timesheet := ⟨Timesheet.id, fun k r => { r with id := k }, fun _ _ => rfl⟩

structure Sheets where
  timesheets : Table Timesheet
  timeEntries : Table TimeEntry

/-! ## Database calls -/

/-- The columns that saving a loaded row writes: those the request changed, or every column the entity holds. -/
inductive Saves where
  | changed
  | all
deriving DecidableEq

/-- One column: stored now, as it was loaded, and as it is saved. -/
def Saves.column {α : Type} [DecidableEq α] (saves : Saves) (stored loaded saved : α) : α :=
  match saves with
  | .changed => if saved = loaded then stored else saved
  | .all => saved

/-- The stored row after a save. -/
def Saves.row (saves : Saves) (stored loaded saved : Timesheet) : Timesheet :=
  { stored with
    totalMinutes := saves.column stored.totalMinutes loaded.totalMinutes saved.totalMinutes
    status := saves.column stored.status loaded.status saved.status
    submittedAt := saves.column stored.submittedAt loaded.submittedAt saved.submittedAt
    approvedBy := saves.column stored.approvedBy loaded.approvedBy saved.approvedBy
    approvedAt := saves.column stored.approvedAt loaded.approvedAt saved.approvedAt
    rejectionNote := saves.column stored.rejectionNote loaded.rejectionNote saved.rejectionNote }

/-- The awaited calls. The answer to a find carries the clock, which the caller reads before anything else runs. -/
inductive SheetOp where
  | findByWeek (userId organizationId : String) (weekStart : Int)
  | findById (id : Nat) (organizationId : String)
  | findEntries (userId organizationId : String) (start stop : Int)
  | insertTimesheet (sheet : Timesheet)
  | saveTimesheet (loaded saved : Timesheet)

abbrev SheetOp.Reply : SheetOp → Type
  | .findByWeek _ _ _ => Except String (Option Timesheet)
  | .findById _ _ => Except String (Option Timesheet × Int)
  | .findEntries _ _ _ _ => Except String (List TimeEntry × Int)
  | .insertTimesheet _ => Except String Timesheet
  | .saveTimesheet _ _ => Except String Timesheet

/-- `Between(start, stop)`: both ends included. -/
def between (start stop : Int) (t : Int) : Bool := decide (start ≤ t) && decide (t ≤ stop)

/-- One call. An insert that breaks `UNIQUE(user_id, week_start)` fails. -/
def execSheet (saves : Saves) (ch : Choice) : (op : SheetOp) → Sheets → Option (op.Reply × Sheets)
  | .findByWeek userId organizationId weekStart, db =>
    some (ch.answer (db.timesheets.rows.find? fun s =>
      s.userId == userId && s.organizationId == organizationId && s.weekStart == weekStart) db db)
  | .findById id organizationId, db =>
    some (ch.answer (db.timesheets.rows.find? fun s => s.id == id && s.organizationId == organizationId, ch.now) db db)
  | .findEntries userId organizationId start stop, db =>
    some (ch.answer (db.timeEntries.rows.filter fun e =>
      e.userId == userId && e.organizationId == organizationId && between start stop e.startedAt, ch.now) db db)
  | .insertTimesheet sheet, db =>
    if db.timesheets.rows.any fun s => s.userId == sheet.userId && s.weekStart == sheet.weekStart then
      some (.error databaseError, db)
    else
      some (ch.answer (Keyed.withKey db.timesheets.nextKey sheet) db
        { db with timesheets := db.timesheets.insert sheet })
  | .saveTimesheet loaded saved, db =>
    match db.timesheets.rows.find? fun s => s.id == saved.id with
    | none => some (.error databaseError, db)
    | some stored =>
      some (ch.answer saved db { db with timesheets := db.timesheets.update (saves.row stored loaded saved) })

/-! ## Operations -/

abbrev SheetRequest := Prog SheetOp SheetOp.Reply

namespace SheetRequest
abbrev findByWeek (userId organizationId : String) (weekStart : Int) : SheetRequest (Except String (Option Timesheet)) :=
  .perform (E := SheetOp) (.findByWeek userId organizationId weekStart)
abbrev findById (id : Nat) (organizationId : String) : SheetRequest (Except String (Option Timesheet × Int)) :=
  .perform (E := SheetOp) (.findById id organizationId)
abbrev findEntries (userId organizationId : String) (start stop : Int) :
    SheetRequest (Except String (List TimeEntry × Int)) :=
  .perform (E := SheetOp) (.findEntries userId organizationId start stop)
abbrev insertTimesheet (sheet : Timesheet) : SheetRequest (Except String Timesheet) :=
  .perform (E := SheetOp) (.insertTimesheet sheet)
abbrev saveTimesheet (loaded saved : Timesheet) : SheetRequest (Except String Timesheet) :=
  .perform (E := SheetOp) (.saveTimesheet loaded saved)
end SheetRequest

open SheetRequest

/-- `new Date(weekStart)`: midnight UTC of the day. -/
def newDate (weekStart : Int) : Int := weekStart * msPerDay

/-- `weekEnd.setDate(weekEnd.getDate() + 7)`, in the server's time zone. -/
def weekEnd (zone : Zone) (weekStart : Int) : Int := zone.addLocalDays (newDate weekStart) 7

/-- The minutes of an entry; none while it runs. -/
def minutes (e : TimeEntry) : Int :=
  match e.endedAt with
  | none => 0
  | some endedAt => (endedAt - e.startedAt) / 60000

def totalMinutes (entries : List TimeEntry) : Int := entries.foldl (fun sum e => sum + minutes e) 0

def submitTimesheet (zone : Zone) (userId organizationId : String) (weekStart : Int) :
    SheetRequest (Except String Timesheet) := do
  match ← findByWeek userId organizationId weekStart with
  | .error e => pure (.error e)
  | .ok existing =>
    if existing.any fun s => s.status == .approved || s.status == .submitted then
      pure (.error ("Timesheet is already " ++ ((existing.map fun s => s.status.text).getD "")))
    else
      match ← findEntries userId organizationId (newDate weekStart) (weekEnd zone weekStart) with
      | .error e => pure (.error e)
      | .ok (entries, now) =>
        match existing with
        | some sheet =>
          saveTimesheet sheet
            { sheet with totalMinutes := totalMinutes entries, status := .submitted, submittedAt := some now }
        | none =>
          insertTimesheet
            { id := 0, userId, organizationId, weekStart, totalMinutes := totalMinutes entries, status := .submitted,
              submittedAt := some now, approvedBy := none, approvedAt := none, rejectionNote := none }

/-- Load a submitted sheet and save it changed. -/
def review (organizationId : String) (timesheetId : Nat) (refusal : String) (change : Timesheet → Int → Timesheet) :
    SheetRequest (Except String Timesheet) := do
  match ← findById timesheetId organizationId with
  | .error e => pure (.error e)
  | .ok (none, _) => pure (.error "Timesheet not found")
  | .ok (some sheet, now) =>
    if sheet.status ≠ .submitted then pure (.error refusal)
    else saveTimesheet sheet (change sheet now)

def approveTimesheet (approverId organizationId : String) (timesheetId : Nat) :
    SheetRequest (Except String Timesheet) :=
  review organizationId timesheetId "Only submitted timesheets can be approved" fun sheet now =>
    { sheet with status := .approved, approvedBy := some approverId, approvedAt := some now }

def rejectTimesheet (organizationId : String) (timesheetId : Nat) (rejectionNote : String) :
    SheetRequest (Except String Timesheet) :=
  review organizationId timesheetId "Only submitted timesheets can be rejected" fun sheet _ =>
    { sheet with status := .rejected, rejectionNote := some rejectionNote }

/-! ## The service -/

/-- A request, or any change of the time entries. -/
inductive SheetCall where
  | submit (zone : Zone) (userId organizationId : String) (weekStart : Int)
  | approve (approverId organizationId : String) (timesheetId : Nat)
  | reject (organizationId : String) (timesheetId : Nat) (rejectionNote : String)
  | entries (timeEntries : Table TimeEntry)

def SheetCall.body : SheetCall → SheetRequest Unit
  | .submit zone userId organizationId weekStart => do
    let _ ← submitTimesheet zone userId organizationId weekStart
  | .approve approverId organizationId timesheetId => do
    let _ ← approveTimesheet approverId organizationId timesheetId
  | .reject organizationId timesheetId rejectionNote => do
    let _ ← rejectTimesheet organizationId timesheetId rejectionNote
  | .entries _ => pure ()

def SheetCall.admits : SheetCall → Sheets → Option Sheets
  | .entries timeEntries, db => some { db with timeEntries }
  | _, db => some db

/-- Requests of any users at any time. -/
def sheetService (saves : Saves) : System SheetOp SheetOp.Reply Sheets Choice SheetCall :=
  ⟨execSheet saves, SheetCall.admits, SheetCall.body⟩

/-- A running request. -/
abbrev Reviewing (ι : Type) := Config ι SheetOp SheetOp.Reply Sheets

/-! ## What the calls do -/

section
variable {saves : Saves} {ch : Choice} {db db' : Sheets}

theorem execSheet_findByWeek {userId organizationId : String} {weekStart : Int}
    {r : Except String (Option Timesheet)}
    (h : execSheet saves ch (.findByWeek userId organizationId weekStart) db = some (r, db')) :
    db' = db ∧ ∀ s, r = .ok (some s) → s ∈ db.timesheets.rows := by
  obtain ⟨rfl, rfl | ⟨e, rfl⟩⟩ := Choice.answer_read (Option.some.inj h)
  · exact ⟨rfl, fun s hs => List.mem_of_find?_eq_some (Except.ok.inj hs)⟩
  · exact ⟨rfl, fun _ hs => nomatch hs⟩

theorem execSheet_findById {id : Nat} {organizationId : String} {r : Except String (Option Timesheet × Int)}
    (h : execSheet saves ch (.findById id organizationId) db = some (r, db')) :
    db' = db ∧ ∀ s now, r = .ok (some s, now) → s ∈ db.timesheets.rows := by
  obtain ⟨rfl, rfl | ⟨e, rfl⟩⟩ := Choice.answer_read (Option.some.inj h)
  · exact ⟨rfl, fun s now hs => List.mem_of_find?_eq_some (Prod.mk.inj (Except.ok.inj hs)).1⟩
  · exact ⟨rfl, fun _ _ hs => nomatch hs⟩

theorem execSheet_findEntries {userId organizationId : String} {start stop : Int}
    {r : Except String (List TimeEntry × Int)}
    (h : execSheet saves ch (.findEntries userId organizationId start stop) db = some (r, db')) : db' = db :=
  (Choice.answer_read (Option.some.inj h)).1

theorem execSheet_insertTimesheet {sheet : Timesheet} {r : Except String Timesheet}
    (h : execSheet saves ch (.insertTimesheet sheet) db = some (r, db')) :
    db' = db ∨ db' = { db with timesheets := db.timesheets.insert sheet } := by
  rw [execSheet] at h
  split_ifs at h
  · exact Or.inl (Prod.mk.inj (Option.some.inj h)).2.symm
  · rcases Choice.answer_cases (Option.some.inj h) with ⟨-, -, hdb⟩ | ⟨-, -, hdb⟩ | ⟨-, -, hdb⟩
    · exact Or.inr hdb
    · exact Or.inl hdb
    · exact Or.inr hdb

theorem execSheet_saveTimesheet {loaded saved : Timesheet} {r : Except String Timesheet}
    (h : execSheet saves ch (.saveTimesheet loaded saved) db = some (r, db')) :
    db' = db ∨ ch.outcome ≠ .failed ∧ ∃ stored ∈ db.timesheets.rows, stored.id = saved.id ∧
      db' = { db with timesheets := db.timesheets.update (saves.row stored loaded saved) } := by
  rw [execSheet] at h
  cases hfind : db.timesheets.rows.find? fun s => s.id == saved.id with
  | none =>
      simp only [hfind] at h
      exact Or.inl (Prod.mk.inj (Option.some.inj h)).2.symm
  | some stored =>
      simp only [hfind] at h
      have hid : (stored.id == saved.id) = true :=
        List.find?_some (p := fun s : Timesheet => s.id == saved.id) hfind
      have hmem : stored ∈ db.timesheets.rows := List.mem_of_find?_eq_some hfind
      rcases Choice.answer_cases (Option.some.inj h) with ⟨hout, -, hdb⟩ | ⟨-, -, hdb⟩ | ⟨hout, -, hdb⟩
      · exact Or.inr ⟨by rw [hout]; decide, stored, hmem, beq_iff_eq.mp hid, hdb⟩
      · exact Or.inl hdb
      · exact Or.inr ⟨by rw [hout]; decide, stored, hmem, beq_iff_eq.mp hid, hdb⟩

end

end TimeChamp.TimeTracking
