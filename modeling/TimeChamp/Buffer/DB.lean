import Mathlib.Logic.Function.Basic
import TimeChamp.Lib.Table

/-!
# The local buffer

`internal/buffer`: the rows of the four SQLite tables, and the statements the agent issues on them. Keys come from
`AUTOINCREMENT`; instants are nanoseconds, and a `float64` is its bit pattern.

A statement is one step: the connection pool holds a single connection, so statements of different goroutines never
overlap.
-/

namespace TimeChamp.Buffer
open TimeChamp.Lib

/-- One application usage period. -/
structure ActivityEvent where
  id : Nat
  employeeID : String
  orgID : String
  appName : String
  windowTitle : String
  url : String
  category : String
  durationMs : Int
  startedAt : Int
  endedAt : Int
  synced : Bool
deriving DecidableEq

/-- A captured screenshot pending upload. -/
structure ScreenshotRecord where
  id : Nat
  employeeID : String
  orgID : String
  localPath : String
  s3Key : String
  capturedAt : Int
  synced : Bool
deriving DecidableEq

/-- Per-minute input intensity. -/
structure KeystrokeEvent where
  id : Nat
  employeeID : String
  orgID : String
  keysPerMin : Int
  mousePerMin : Int
  recordedAt : Int
  synced : Bool
deriving DecidableEq

/-- A point-in-time resource snapshot. -/
structure SystemMetricsEvent where
  id : Nat
  employeeID : String
  orgID : String
  cpuPercent : UInt64
  memUsedMB : UInt64
  memTotalMB : UInt64
  agentCPUPercent : UInt64
  agentMemMB : UInt64
  recordedAt : Int
  synced : Bool
deriving DecidableEq

/-- The tables. -/
inductive TableName where
  | activityEvents
  | screenshots
  | keystrokeEvents
  | systemMetrics
deriving DecidableEq

def TableName.sql : TableName → String
  | .activityEvents => "activity_events"
  | .screenshots => "screenshots"
  | .keystrokeEvents => "keystroke_events"
  | .systemMetrics => "system_metrics"

/-- The rows of a table. -/
def Row : TableName → Type
  | .activityEvents => ActivityEvent
  | .screenshots => ScreenshotRecord
  | .keystrokeEvents => KeystrokeEvent
  | .systemMetrics => SystemMetricsEvent

instance : (t : TableName) → DecidableEq (Row t)
  | .activityEvents => inferInstanceAs (DecidableEq ActivityEvent)
  | .screenshots => inferInstanceAs (DecidableEq ScreenshotRecord)
  | .keystrokeEvents => inferInstanceAs (DecidableEq KeystrokeEvent)
  | .systemMetrics => inferInstanceAs (DecidableEq SystemMetricsEvent)

instance (t : TableName) : Keyed (Row t) where
  key r := match t, r with
    | .activityEvents, r => r.id
    | .screenshots, r => r.id
    | .keystrokeEvents, r => r.id
    | .systemMetrics, r => r.id
  withKey k r := match t, r with
    | .activityEvents, r => { r with id := k }
    | .screenshots, r => { r with id := k }
    | .keystrokeEvents, r => { r with id := k }
    | .systemMetrics, r => { r with id := k }
  key_withKey k r := by cases t <;> rfl

/-- The column `id`. -/
abbrev Row.id {t : TableName} (r : Row t) : Nat := Keyed.key r

/-- `synced = 0`. -/
def unsynced {t : TableName} (r : Row t) : Bool :=
  match t, r with
  | .activityEvents, r => !r.synced
  | .screenshots, r => !r.synced
  | .keystrokeEvents, r => !r.synced
  | .systemMetrics, r => !r.synced

/-- The column `PruneSynced` compares with its cutoff: `started_at`, `captured_at` or `recorded_at`. -/
def stamp {t : TableName} (r : Row t) : Int :=
  match t, r with
  | .activityEvents, r => r.startedAt
  | .screenshots, r => r.capturedAt
  | .keystrokeEvents, r => r.recordedAt
  | .systemMetrics, r => r.recordedAt

/-- The database: its four tables. -/
structure DB where
  table : (t : TableName) → Table (Row t)

namespace DB

def empty : DB := ⟨fun _ => Table.empty⟩

/-- Change one table. -/
def modify (db : DB) (t : TableName) (f : Table (Row t) → Table (Row t)) : DB :=
  ⟨Function.update db.table t (f (db.table t))⟩

@[simp] theorem table_modify_self (db : DB) (t : TableName) (f : Table (Row t) → Table (Row t)) :
    (db.modify t f).table t = f (db.table t) :=
  Function.update_self ..

theorem table_modify_of_ne (db : DB) {t t' : TableName} (f : Table (Row t) → Table (Row t)) (h : t' ≠ t) :
    (db.modify t f).table t' = db.table t' :=
  Function.update_of_ne h ..

/-- `SELECT … WHERE synced = 0 ORDER BY id ASC LIMIT limit`. -/
def listUnsynced (db : DB) (t : TableName) (limit : Nat) : List (Row t) := (db.table t).select unsynced limit

/-- `SELECT COUNT(*) … WHERE synced = 0`. -/
def countUnsynced (db : DB) (t : TableName) : Nat := (db.table t).count unsynced

/-- `INSERT INTO …`, each row in turn, in one transaction. -/
def insert (db : DB) (t : TableName) (rs : List (Row t)) : DB :=
  db.modify t fun tbl => rs.foldl Table.insert tbl

/-- `DELETE … WHERE id IN (ids)`. -/
def deleteByIDs (db : DB) (t : TableName) (ids : List Nat) : DB := db.modify t fun tbl => tbl.removeKeys ids

/-- `DELETE … WHERE id IN (SELECT id … WHERE synced = 0 ORDER BY id ASC LIMIT overflow)`. -/
def trimOldest (db : DB) (t : TableName) (overflow : Nat) : DB :=
  db.modify t fun tbl => tbl.removeKeys ((tbl.select unsynced overflow).map Keyed.key)

/-- `DELETE … WHERE col < cutoff`. -/
def pruneBefore (db : DB) (t : TableName) (cutoff : Int) : DB :=
  db.modify t fun tbl => tbl.remove fun r => stamp r < cutoff

end DB
end TimeChamp.Buffer
