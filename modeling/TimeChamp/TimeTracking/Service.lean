import TimeChamp.Lib.Pool
import TimeChamp.Lib.Table

/-!
# Clocking in and out

The attendance part of the API's time-tracking service. A request is a program over database calls; between two of its
calls any other requests may take theirs.

* `Attendance`, `TimeEntry`, `Db` : the rows and the tables;
* `Op`, `exec` : one effect for each awaited call; `Choice` is how it ends, the row that a `findOne` without order happens
  to return, and the clock;
* `Nulls` : what a `null` in a find condition means to the ORM;
* `clockIn`, `clockOut`, `getStatus` : the operations; `service` : any number of requests.
-/

namespace TimeChamp.TimeTracking
open Lib

structure Attendance where
  id : Nat
  userId : String
  organizationId : String
  clockIn : Int
  clockOut : Option Int
  locationLat : Option Rat
  locationLng : Option Rat
  note : Option String
deriving DecidableEq

inductive TimeEntrySource where
  | automatic
  | manual
  | edited
deriving DecidableEq

structure TimeEntry where
  id : Nat
  userId : String
  organizationId : String
  attendanceId : Option Nat
  startedAt : Int
  endedAt : Option Int
  source : TimeEntrySource
deriving DecidableEq

instance : Keyed Attendance := ⟨Attendance.id, fun k r => { r with id := k }, fun _ _ => rfl⟩
instance : Keyed TimeEntry := ⟨TimeEntry.id, fun k r => { r with id := k }, fun _ _ => rfl⟩

structure ClockInDto where
  locationLat : Option Rat
  locationLng : Option Rat
  note : Option String

structure ClockOutDto where
  note : Option String

/-- The tables the service writes. -/
structure Db where
  attendance : Table Attendance
  timeEntries : Table TimeEntry

def Db.empty : Db := ⟨.empty, .empty⟩

/-- The row is an open session of the user. -/
def isOpen (userId organizationId : String) (r : Attendance) : Bool :=
  r.userId == userId && r.organizationId == organizationId && r.clockOut.isNone

/-! ## Database calls -/

/-- A `null` in a find condition: the condition is dropped, or asks for `IS NULL`. -/
inductive Nulls where
  | dropped
  | isNull
deriving DecidableEq

/-- The condition `{ userId, organizationId, clockOut: null }`. -/
def Nulls.open (nulls : Nulls) (userId organizationId : String) (r : Attendance) : Bool :=
  r.userId == userId && r.organizationId == organizationId &&
    match nulls with
    | .dropped => true
    | .isNull => r.clockOut.isNone

/-- The awaited calls. The answer to `findOpen` carries the clock, which the caller reads before anything else runs. -/
inductive Op where
  | findOpen (userId organizationId : String)
  | insertAttendance (record : Attendance)
  | saveAttendance (row : Attendance)
  | saveTimeEntry (entry : TimeEntry)

abbrev Op.Reply : Op → Type
  | .findOpen _ _ => Except String (Option Attendance × Int)
  | .insertAttendance _ => Except String Attendance
  | .saveAttendance _ => Except String Attendance
  | .saveTimeEntry _ => Except String TimeEntry

/-- What the outside decides about a call. -/
structure Choice where
  outcome : Outcome
  pick : Nat
  now : Int

def databaseError : String := "database error"

/-- The error of a call that took effect and whose answer was lost. -/
def connectionLost : String := "Connection terminated unexpectedly"

def Choice.fails (ch : Choice) : Bool := ch.outcome != .ok

/-- A call that fails changes nothing, unless only its answer is lost. -/
def Choice.answer {α σ : Type} (ch : Choice) (a : α) (s s' : σ) : Except String α × σ :=
  match ch.outcome with
  | .ok => (.ok a, s')
  | .failed => (.error databaseError, s)
  | .lost => (.error connectionLost, s')

/-- One call. -/
def exec (nulls : Nulls) (ch : Choice) : (op : Op) → Db → Option (op.Reply × Db)
  | .findOpen userId organizationId, db =>
    let found := db.attendance.rows.filter (nulls.open userId organizationId)
    some (ch.answer (found[ch.pick % found.length]?, ch.now) db db)
  | .insertAttendance record, db =>
    some (ch.answer (Keyed.withKey db.attendance.nextKey record) db
      { db with attendance := db.attendance.insert record })
  | .saveAttendance row, db => some (ch.answer row db { db with attendance := db.attendance.update row })
  | .saveTimeEntry entry, db =>
    some (ch.answer (Keyed.withKey db.timeEntries.nextKey entry) db
      { db with timeEntries := db.timeEntries.insert entry })

/-! ## Operations -/

abbrev Request := Prog Op Op.Reply

namespace Request
abbrev findOpen (userId organizationId : String) : Request (Except String (Option Attendance × Int)) :=
  .perform (E := Op) (.findOpen userId organizationId)
abbrev insertAttendance (record : Attendance) : Request (Except String Attendance) :=
  .perform (E := Op) (.insertAttendance record)
abbrev saveAttendance (row : Attendance) : Request (Except String Attendance) :=
  .perform (E := Op) (.saveAttendance row)
abbrev saveTimeEntry (entry : TimeEntry) : Request (Except String TimeEntry) :=
  .perform (E := Op) (.saveTimeEntry entry)
end Request

open Request

def clockIn (userId organizationId : String) (dto : ClockInDto) : Request (Except String Attendance) := do
  match ← findOpen userId organizationId with
  | .error e => pure (.error e)
  | .ok (some _, _) => pure (.error "Already clocked in")
  | .ok (none, now) =>
    insertAttendance
      { id := 0, userId, organizationId, clockIn := now, clockOut := none, locationLat := dto.locationLat,
        locationLng := dto.locationLng, note := dto.note }

/-- The row as it is saved: closed, with the note of the request unless that is absent or empty. -/
def closed (row : Attendance) (now : Int) (dto : ClockOutDto) : Attendance :=
  { row with
    clockOut := some now
    note := match dto.note with
      | some n => if n = "" then row.note else some n
      | none => row.note }

/-- The automatic time entry of a session. -/
def entryOf (userId organizationId : String) (row : Attendance) (now : Int) : TimeEntry :=
  { id := 0, userId, organizationId, attendanceId := some row.id, startedAt := row.clockIn, endedAt := some now,
    source := .automatic }

def clockOut (userId organizationId : String) (dto : ClockOutDto) :
    Request (Except String (Attendance × TimeEntry)) := do
  match ← findOpen userId organizationId with
  | .error e => pure (.error e)
  | .ok (none, _) => pure (.error "Not clocked in")
  | .ok (some row, now) =>
    match ← saveAttendance (closed row now dto) with
    | .error e => pure (.error e)
    | .ok attendance =>
      match ← saveTimeEntry (entryOf userId organizationId row now) with
      | .error e => pure (.error e)
      | .ok entry => pure (.ok (attendance, entry))

def getStatus (userId organizationId : String) : Request (Except String (Option Attendance)) := do
  match ← findOpen userId organizationId with
  | .error e => pure (.error e)
  | .ok (row, _) => pure (.ok row)

/-! ## The service -/

/-- A request of a user. -/
inductive Call where
  | clockIn (userId organizationId : String) (dto : ClockInDto)
  | clockOut (userId organizationId : String) (dto : ClockOutDto)
  | getStatus (userId organizationId : String)

def Call.body : Call → Request Unit
  | .clockIn userId organizationId dto => do let _ ← TimeTracking.clockIn userId organizationId dto
  | .clockOut userId organizationId dto => do let _ ← TimeTracking.clockOut userId organizationId dto
  | .getStatus userId organizationId => do let _ ← TimeTracking.getStatus userId organizationId

/-- Requests of any users at any time. -/
def service (nulls : Nulls) : System Op Op.Reply Db Choice Call := ⟨exec nulls, fun _ db => some db, Call.body⟩

/-- A running request. -/
abbrev Running (ι : Type) := Config ι Op Op.Reply Db

/-! ## What the calls do -/

theorem Choice.answer_cases {α σ : Type} {ch : Choice} {a : α} {s s' t : σ} {r : Except String α}
    (h : ch.answer a s s' = (r, t)) :
    ch.outcome = .ok ∧ r = .ok a ∧ t = s' ∨ ch.outcome = .failed ∧ r = .error databaseError ∧ t = s ∨
      ch.outcome = .lost ∧ r = .error connectionLost ∧ t = s' := by
  unfold Choice.answer at h
  cases hout : ch.outcome <;> rw [hout] at h <;> obtain ⟨rfl, rfl⟩ := Prod.mk.inj h <;> simp

theorem Choice.answer_ok {α σ : Type} {ch : Choice} (h : ch.fails = false) (a : α) (s s' : σ) :
    ch.answer a s s' = (.ok a, s') := by
  unfold Choice.fails at h
  unfold Choice.answer
  cases hout : ch.outcome <;> rw [hout] at h <;> first | rfl | exact absurd h (by decide)

theorem Choice.answer_read {α σ : Type} {ch : Choice} {a : α} {s t : σ} {r : Except String α}
    (h : ch.answer a s s = (r, t)) : t = s ∧ (r = .ok a ∨ ∃ e, r = .error e) := by
  rcases Choice.answer_cases h with ⟨-, hr, ht⟩ | ⟨-, hr, ht⟩ | ⟨-, hr, ht⟩
  · exact ⟨ht, Or.inl hr⟩
  · exact ⟨ht, Or.inr ⟨_, hr⟩⟩
  · exact ⟨ht, Or.inr ⟨_, hr⟩⟩

section
variable {nulls : Nulls} {ch : Choice} {db db' : Db}

theorem exec_findOpen {userId organizationId : String} {r : Except String (Option Attendance × Int)}
    (h : exec nulls ch (.findOpen userId organizationId) db = some (r, db')) :
    db' = db ∧ ((∃ e, r = .error e) ∨ ∃ now,
      (r = .ok (none, now) ∧ ∀ a ∈ db.attendance.rows, nulls.open userId organizationId a = false) ∨
        ∃ a ∈ db.attendance.rows, nulls.open userId organizationId a = true ∧ r = .ok (some a, now)) := by
  obtain ⟨rfl, rfl | ⟨e, rfl⟩⟩ := Choice.answer_read (Option.some.inj h)
  · refine ⟨rfl, Or.inr ⟨ch.now, ?_⟩⟩
    cases hget : (db'.attendance.rows.filter (nulls.open userId organizationId))[ch.pick %
        (db'.attendance.rows.filter (nulls.open userId organizationId)).length]? with
    | none =>
        refine Or.inl ⟨rfl, fun a ha => ?_⟩
        have hempty : db'.attendance.rows.filter (nulls.open userId organizationId) = [] := by
          by_contra hne
          exact absurd (List.getElem?_eq_none_iff.mp hget)
            (Nat.not_le.mpr (Nat.mod_lt _ (List.length_pos_iff.mpr hne)))
        exact Bool.eq_false_iff.mpr (List.filter_eq_nil_iff.mp hempty a ha)
    | some a =>
        obtain ⟨hmem, hopen⟩ := List.mem_filter.mp (List.mem_of_getElem? hget)
        exact Or.inr ⟨a, hmem, hopen, rfl⟩
  · exact ⟨rfl, Or.inl ⟨e, rfl⟩⟩

theorem exec_insertAttendance {record : Attendance} {r : Except String Attendance}
    (h : exec nulls ch (.insertAttendance record) db = some (r, db')) :
    (∃ e, r = .error e) ∧ db' = db ∨
      (r = .ok (Keyed.withKey db.attendance.nextKey record) ∨ r = .error connectionLost) ∧
        db' = { db with attendance := db.attendance.insert record } := by
  rcases Choice.answer_cases (Option.some.inj h) with ⟨-, hr, hdb⟩ | ⟨-, hr, hdb⟩ | ⟨-, hr, hdb⟩
  · exact Or.inr ⟨Or.inl hr, hdb⟩
  · exact Or.inl ⟨⟨_, hr⟩, hdb⟩
  · exact Or.inr ⟨Or.inr hr, hdb⟩

theorem exec_saveAttendance {row : Attendance} {r : Except String Attendance}
    (h : exec nulls ch (.saveAttendance row) db = some (r, db')) :
    (∃ e, r = .error e) ∧ db' = db ∨
      (ch.outcome = .ok ∧ r = .ok row ∨ ch.outcome = .lost ∧ r = .error connectionLost) ∧
        db' = { db with attendance := db.attendance.update row } := by
  rcases Choice.answer_cases (Option.some.inj h) with ⟨hout, hr, hdb⟩ | ⟨-, hr, hdb⟩ | ⟨hout, hr, hdb⟩
  · exact Or.inr ⟨Or.inl ⟨hout, hr⟩, hdb⟩
  · exact Or.inl ⟨⟨_, hr⟩, hdb⟩
  · exact Or.inr ⟨Or.inr ⟨hout, hr⟩, hdb⟩

theorem exec_saveTimeEntry {entry : TimeEntry} {r : Except String TimeEntry}
    (h : exec nulls ch (.saveTimeEntry entry) db = some (r, db')) :
    (∃ e, r = .error e) ∧ db' = db ∧ ch.outcome = .failed ∨
      db' = { db with timeEntries := db.timeEntries.insert entry } := by
  rcases Choice.answer_cases (Option.some.inj h) with ⟨-, -, hdb⟩ | ⟨hout, hr, hdb⟩ | ⟨-, -, hdb⟩
  · exact Or.inr hdb
  · exact Or.inl ⟨⟨_, hr⟩, hdb, hout⟩
  · exact Or.inr hdb

end

end TimeChamp.TimeTracking
