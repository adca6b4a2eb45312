import TimeChamp.Lib.Csv
import TimeChamp.Lib.Texts

/-!
# The exporters

What the four CSV exports make of the rows that their queries return.

* `csvField`, `escapeCsv` : the two copies of the helper that puts a field in quotes;
* `exportTimeEntriesCSV`, `exportUsersCSV`, `exportTimesheetCSV` : they join the fields of each row by commas, and the
  lines by line feeds;
* `getPayrollReport`, `exportPayrollCsv` : the report on approved timesheets, with the names in quotes as they are.
-/

namespace TimeChamp.Exports
open Lib

/-! ## Rows -/

inductive TimeEntrySource where
  | automatic
  | manual
  | edited
deriving DecidableEq

def TimeEntrySource.text : TimeEntrySource → String
  | automatic => "automatic"
  | manual => "manual"
  | edited => "edited"

structure TimeEntry where
  startedAt : Int
  endedAt : Option Int
  source : TimeEntrySource
  description : Option String

inductive UserRole where
  | admin
  | manager
  | employee
deriving DecidableEq

def UserRole.text : UserRole → String
  | admin => "admin"
  | manager => "manager"
  | employee => "employee"

structure User where
  id : Uuid
  email : String
  firstName : String
  lastName : String
  role : UserRole
  isActive : Bool
  createdAt : Int

inductive TimesheetStatus where
  | draft
  | submitted
  | approved
  | rejected
deriving DecidableEq

def TimesheetStatus.text : TimesheetStatus → String
  | draft => "draft"
  | submitted => "submitted"
  | approved => "approved"
  | rejected => "rejected"

/-- A timesheet with its user, if that could be joined. `weekStart` is a day. -/
structure Timesheet where
  id : Uuid
  userId : Uuid
  user : Option User
  weekStart : Int
  totalMinutes : Int
  status : TimesheetStatus
  approvedBy : Option Uuid
  approvedAt : Option Int

/-! ## Fields -/

/-- The field needs quotes, as far as the helper knows. -/
def needsQuotes (value : String) : Bool := value.toList.any fun c => c = ',' || c = '"' || c = '\n'

/-- In quotes, with its quotes doubled, if it has a comma, a quote or a line feed. -/
def quoteIfNeeded (value : String) : String :=
  if needsQuotes value then String.ofList (Csv.quote value.toList) else value

/-- The helper of the analytics service. -/
def csvField (value : String) : String := quoteIfNeeded value

/-- The helper of the admin service. -/
def escapeCsv (value : String) : String := quoteIfNeeded value

/-- `toISOString()`. -/
def isoString (t : Int) : String := String.ofList (toISOString t)

/-- `toISOString().slice(a, b)`. -/
def isoSlice (t : Int) (a b : Nat) : String := String.ofList (((toISOString t).take b).drop a)

/-- `Math.round(ms / 60_000)`, which rounds halves up. -/
def roundedMinutes (ms : Int) : Int := (ms + 30000) / 60000

/-! ## Exports -/

def timeEntriesHeader : List String := ["Date", "Start", "End", "Duration (min)", "Description", "Source"]

/-- The fields of a time entry, as they are written. -/
def timeEntryFields (e : TimeEntry) : List String :=
  [isoSlice e.startedAt 0 10, isoSlice e.startedAt 11 16, (e.endedAt.map fun t => isoSlice t 11 16).getD "",
    String.ofList (intText ((e.endedAt.map fun t => roundedMinutes (t - e.startedAt)).getD 0)),
    csvField (e.description.getD ""), e.source.text]

/-- The lines of an export. -/
def csvLines (header : List String) (rows : List (List String)) : String :=
  "\n".intercalate ((header :: rows).map fun fields => ",".intercalate fields)

def exportTimeEntriesCSV (entries : List TimeEntry) : String :=
  csvLines timeEntriesHeader (entries.map timeEntryFields)

def usersHeader : List String := ["id", "email", "firstName", "lastName", "role", "isActive", "createdAt"]

def userFields (u : User) : List String :=
  [u.id.text, u.email, escapeCsv u.firstName, escapeCsv u.lastName, u.role.text, if u.isActive then "true" else "false",
    isoString u.createdAt]

def exportUsersCSV (users : List User) : String := csvLines usersHeader (users.map userFields)

def timesheetsHeader : List String :=
  ["timesheetId", "userId", "userEmail", "weekStart", "totalMinutes", "totalHours", "status", "approvedBy",
    "approvedAt"]

def Timesheet.userEmail (ts : Timesheet) : String := (ts.user.map User.email).getD ""

def timesheetFields (ts : Timesheet) : List String :=
  [ts.id.text, ts.userId.text, ts.userEmail, String.ofList (dateText ts.weekStart),
    String.ofList (intText ts.totalMinutes), String.ofList (sixtieths ts.totalMinutes), ts.status.text,
    (ts.approvedBy.map Uuid.text).getD "", (ts.approvedAt.map isoString).getD ""]

def exportTimesheetCSV (timesheets : List Timesheet) : String :=
  csvLines timesheetsHeader (timesheets.map timesheetFields)

structure PayrollRow where
  userId : Uuid
  firstName : String
  lastName : String
  weekStart : Int
  totalMinutes : Int
  overtimeMinutes : Int
  status : TimesheetStatus

/-- The report on the timesheets that its query returns: those of an organization, approved, of some weeks. -/
def getPayrollReport (timesheets : List Timesheet) : List PayrollRow :=
  timesheets.map fun ts =>
    let regularMinutes := min ts.totalMinutes (8 * 5 * 60)
    { userId := ts.userId
      firstName := (ts.user.map User.firstName).getD ""
      lastName := (ts.user.map User.lastName).getD ""
      weekStart := ts.weekStart
      totalMinutes := ts.totalMinutes
      overtimeMinutes := max 0 (ts.totalMinutes - regularMinutes)
      status := ts.status }

def payrollHeader : List String := ["Employee", "Week Start", "Total Hours", "Overtime Hours", "Status"]

def PayrollRow.employee (r : PayrollRow) : String := r.firstName ++ " " ++ r.lastName

def payrollFields (r : PayrollRow) : List String :=
  ["\"" ++ r.employee ++ "\"", String.ofList (dateText r.weekStart), String.ofList (sixtieths r.totalMinutes),
    String.ofList (sixtieths r.overtimeMinutes), r.status.text]

def exportPayrollCsv (timesheets : List Timesheet) : String :=
  csvLines payrollHeader ((getPayrollReport timesheets).map payrollFields)

example : exportTimeEntriesCSV [⟨1709197200000, some 1709200830000, .manual, some "a, \"b\""⟩] =
    "Date,Start,End,Duration (min),Description,Source\n2024-02-29,09:00,10:00,61,\"a, \"\"b\"\"\",manual" := by
  decide +kernel

end TimeChamp.Exports
