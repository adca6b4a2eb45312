import TimeChamp.Lib.Pool
import TimeChamp.Lib.Table
import TimeChamp.Lib.Texts

/-!
# The activity queue

The agent's activity batches wait in a queue until a worker inserts their events into `activity_events`. Requests and
drains are programs over awaited calls; between two calls of one program any others may take theirs.

* `ActivityEventItemDto`, `valid` : the request body, and what the agent's validation pipe checks of it;
* `Queued`, `Entity`, `Store` : the queue's rows, the rows to insert, and all that the programs share;
* `Op`, `exec` : the awaited calls, which may fail before or after they took effect;
* `saveActivities`, `drain` : the programs; `service` : any number of requests and of drains, by any number of workers.
-/

namespace TimeChamp.Api
open Lib

/-! ## Requests -/

/-- A property of a request body. -/
inductive Field (α : Type) where
  | undefined
  | null
  | value (a : α)
deriving DecidableEq

namespace Field
variable {α : Type}

/-- `x ?? none`. -/
def toOption : Field α → Option α
  | value a => some a
  | _ => none

/-- What a validator checks of a property when missing ones are skipped. -/
def all (p : α → Bool) : Field α → Bool
  | value a => p a
  | _ => true

end Field

structure ActivityEventItemDto where
  appName : Field String
  windowTitle : Field String
  startedAt : Field String
  endedAt : Field String
  durationSec : Field Int
  durationMs : Field Rat
  keystrokeCount : Field Int

structure SyncActivityDto where
  events : List ActivityEventItemDto

structure User where
  id : String
  organizationId : String
deriving DecidableEq

/-- The validator's idea of an ISO date, and what `new Date(s)` makes of a string: nothing for an invalid one. -/
structure Dates where
  isISO8601 : String → Bool
  parse : String → Option Int

/-- The checks of the agent's validation pipe on one event. -/
def ActivityEventItemDto.valid (dates : Dates) (e : ActivityEventItemDto) : Bool :=
  e.startedAt.all dates.isISO8601 && e.endedAt.all dates.isISO8601 && e.durationSec.all (0 ≤ ·) &&
    e.durationMs.all (0 ≤ ·) && e.keystrokeCount.all (0 ≤ ·)

def SyncActivityDto.valid (dates : Dates) (dto : SyncActivityDto) : Bool := dto.events.all (·.valid dates)

/-! ## The queue -/

/-- One event of a batch, as it is enqueued. -/
structure ActivityItem where
  appName : Option String
  windowTitle : Option String
  startedAt : String
  durationSec : Option Int
  durationMs : Option Rat
  keystrokeCount : Option Int
deriving DecidableEq

structure ActivityQueuePayload where
  userId : String
  organizationId : String
  deviceId : Option String
  events : List ActivityItem
deriving DecidableEq

/-- What a read returns. -/
structure ActivityQueueMessage where
  msgId : Nat
  message : ActivityQueuePayload
deriving DecidableEq

/-- A row of the queue, hidden from readers until `vt`. -/
structure Queued where
  msgId : Nat
  vt : Int
  message : ActivityQueuePayload

instance : Keyed Queued := ⟨Queued.msgId, fun k r => { r with msgId := k }, fun _ _ => rfl⟩

def Queued.asRead (q : Queued) : ActivityQueueMessage := ⟨q.msgId, q.message⟩

/-- The row after a read of it. -/
def Queued.hide (msgIds : List Nat) (until_ : Int) (q : Queued) : Queued :=
  if msgIds.contains q.msgId then { q with vt := until_ } else q

theorem Queued.key_hide (msgIds : List Nat) (until_ : Int) (q : Queued) :
    Keyed.key (q.hide msgIds until_) = Keyed.key q := by
  unfold hide
  split_ifs <;> rfl

/-! ## Rows of `activity_events` -/

/-- A row as `create` builds it; `startedAt` is nothing when the date is invalid. -/
structure ActivityEvent where
  userId : String
  organizationId : String
  deviceId : Option String
  appName : String
  windowTitle : Option String
  startedAt : Option Int
  durationSec : Int
  keystrokeCount : Int
deriving DecidableEq

/-- A row, and the event it comes from: the message and the place in it. -/
structure Entity where
  msgId : Nat
  index : Nat
  row : ActivityEvent
deriving DecidableEq

/-- `Math.round(ms / 1000)`, for the non-negative durations that validation admits. -/
def roundSec (ms : Rat) : Int := (ms / 1000 + 1 / 2).floor

/-- The entity of one event. Without an `appName` the call of `slice` throws; half of a surrogate pair that it leaves is
stored as the replacement character. -/
def create (dates : Dates) (payload : ActivityQueuePayload) (e : ActivityItem) : Except String ActivityEvent :=
  match e.appName with
  | none => .error "Cannot read properties of undefined (reading 'slice')"
  | some appName =>
    .ok {
      userId := payload.userId
      organizationId := payload.organizationId
      deviceId := payload.deviceId
      appName := slice 255 appName
      windowTitle := e.windowTitle.bind fun t => if t = "" then none else some (slice 500 t)
      startedAt := dates.parse e.startedAt
      durationSec := e.durationSec.getD (roundSec (e.durationMs.getD 0))
      keystrokeCount := e.keystrokeCount.getD 0 }

/-- The entities of one message. -/
def entitiesOf (dates : Dates) (m : ActivityQueueMessage) : Except String (List Entity) :=
  m.message.events.zipIdx.mapM fun (e, i) => (create dates m.message e).map (Entity.mk m.msgId i)

/-- Every batch's events in one array. -/
def flattenBatch (dates : Dates) (messages : List ActivityQueueMessage) : Except String (List Entity) :=
  (messages.mapM (entitiesOf dates)).map List.flatten

/-- The largest `integer` of the database. -/
def maxInteger : Int := 2147483647

/-- The columns of the table take the row. -/
def ActivityEvent.storable (row : ActivityEvent) : Bool :=
  row.startedAt.isSome && decide (row.durationSec ≤ maxInteger) && decide (row.keystrokeCount ≤ maxInteger)

/-! ## Awaited calls -/

/-- The queue, the table, and the `flushing` field of each worker instance. -/
structure Store where
  queue : Table Queued
  activityEvents : List Entity
  flushing : Nat → Bool

def Store.empty : Store := ⟨.empty, [], fun _ => false⟩

/-- The effects. `begin` and `finish` are the tests and writes of the `flushing` field, which await nothing. -/
inductive Op where
  | enqueue (payload : ActivityQueuePayload)
  | begin (worker : Nat)
  | read (batchSize visibilityTimeoutSec : Nat)
  | save (entities : List Entity)
  | deleteMany (msgIds : List Nat)
  | finish (worker : Nat)
deriving DecidableEq

abbrev Op.Reply : Op → Type
  | .enqueue _ => Except String Nat
  | .begin _ => Bool
  | .read _ _ => Except String (List ActivityQueueMessage)
  | .save _ => Except String Unit
  | .deleteMany _ => Except String Unit
  | .finish _ => Unit

instance : (op : Op) → DecidableEq op.Reply
  | .enqueue _ => inferInstanceAs (DecidableEq (Except String Nat))
  | .begin _ => inferInstanceAs (DecidableEq Bool)
  | .read _ _ => inferInstanceAs (DecidableEq (Except String (List ActivityQueueMessage)))
  | .save _ => inferInstanceAs (DecidableEq (Except String Unit))
  | .deleteMany _ => inferInstanceAs (DecidableEq (Except String Unit))
  | .finish _ => inferInstanceAs (DecidableEq Unit)

/-- What the outside decides about a call: how it ends, the clock, and the rows another transaction holds locked. -/
structure Choice where
  outcome : Outcome
  now : Int
  locked : List Nat

def databaseError : String := "database error"

/-- The rows a read returns: the oldest ones visible and not locked. -/
def Store.batch (s : Store) (now : Int) (locked : List Nat) (batchSize : Nat) : List Queued :=
  s.queue.select (fun q => decide (q.vt ≤ now) && !locked.contains q.msgId) batchSize

def Store.read (s : Store) (now : Int) (locked : List Nat) (batchSize visibilityTimeoutSec : Nat) : Store :=
  let msgIds := (s.batch now locked batchSize).map Queued.msgId
  { s with
    queue := s.queue.modify (Queued.hide msgIds (now + visibilityTimeoutSec * 1000))
      (Queued.key_hide msgIds (now + visibilityTimeoutSec * 1000)) }

def exec (ch : Choice) : (op : Op) → Store → Option (op.Reply × Store)
  | .enqueue payload, s =>
    some (ch.outcome.answer databaseError s.queue.nextKey s { s with queue := s.queue.insert ⟨0, ch.now, payload⟩ })
  | .begin worker, s =>
    if s.flushing worker then some (false, s)
    else some (true, { s with flushing := Function.update s.flushing worker true })
  | .read batchSize visibilityTimeoutSec, s =>
    some (ch.outcome.answer databaseError ((s.batch ch.now ch.locked batchSize).map Queued.asRead) s
      (s.read ch.now ch.locked batchSize visibilityTimeoutSec))
  | .save entities, s =>
    if entities.all (·.row.storable) then
      some (ch.outcome.answer databaseError () s { s with activityEvents := s.activityEvents ++ entities })
    else some (.error databaseError, s)
  | .deleteMany msgIds, s => some (ch.outcome.answer databaseError () s { s with queue := s.queue.removeKeys msgIds })
  | .finish worker, s => some ((), { s with flushing := Function.update s.flushing worker false })

/-! ## Programs -/

abbrev Program := Prog Op Op.Reply

namespace Program
abbrev enqueue (payload : ActivityQueuePayload) : Program (Except String Nat) := .perform (E := Op) (.enqueue payload)
abbrev begin (worker : Nat) : Program Bool := .perform (E := Op) (.begin worker)
abbrev read (batchSize visibilityTimeoutSec : Nat) : Program (Except String (List ActivityQueueMessage)) :=
  .perform (E := Op) (.read batchSize visibilityTimeoutSec)
abbrev save (entities : List Entity) : Program (Except String Unit) := .perform (E := Op) (.save entities)
abbrev deleteMany (msgIds : List Nat) : Program (Except String Unit) := .perform (E := Op) (.deleteMany msgIds)
abbrev finish (worker : Nat) : Program Unit := .perform (E := Op) (.finish worker)
end Program

open Program

/-- `new Date(null)` is the epoch; `new Date(undefined)` has no ISO string. -/
def startedAtOf : Field String → Except String String
  | .value s => .ok s
  | .null => .ok "1970-01-01T00:00:00.000Z"
  | .undefined => .error "Invalid time value"

def itemOf (e : ActivityEventItemDto) : Except String ActivityItem :=
  (startedAtOf e.startedAt).map fun startedAt =>
    { appName := e.appName.toOption
      windowTitle := e.windowTitle.toOption
      startedAt
      durationSec := e.durationSec.toOption
      durationMs := e.durationMs.toOption
      keystrokeCount := e.keystrokeCount.toOption }

/-- The message of a request. -/
def payloadOf (user : User) (dto : SyncActivityDto) (deviceId : Option String) : Except String ActivityQueuePayload :=
  (dto.events.mapM itemOf).map fun events =>
    { userId := user.id, organizationId := user.organizationId, deviceId, events }

def saveActivities (user : User) (dto : SyncActivityDto) (deviceId : Option String) : Program (Except String Nat) :=
  if dto.events.length = 0 then pure (.ok 0)
  else
    match payloadOf user dto deviceId with
    | .error e => pure (.error e)
    | .ok payload => do
      match ← enqueue payload with
      | .error e => pure (.error e)
      | .ok _ => pure (.ok dto.events.length)

def BATCH_SIZE : Nat := 200

def VISIBILITY_TIMEOUT_SEC : Nat := 30

/-- The `try` block of a drain; what it throws is logged. -/
def drainBatch (dates : Dates) : Program (Except String Unit) := do
  match ← read BATCH_SIZE VISIBILITY_TIMEOUT_SEC with
  | .error e => pure (.error e)
  | .ok messages =>
    if messages.length = 0 then pure (.ok ())
    else
      match flattenBatch dates messages with
      | .error e => pure (.error e)
      | .ok allEntities =>
        match ← save allEntities with
        | .error e => pure (.error e)
        | .ok _ => deleteMany (messages.map ActivityQueueMessage.msgId)

/-- A tick of a worker; also its last drain on shutdown. -/
def drain (dates : Dates) (worker : Nat) : Program Unit := do
  if ← begin worker then
    let _ ← drainBatch dates
    finish worker

/-- What may start at any time: a request, or a tick of a worker. A worker that crashed is one whose program takes no
further step; the process that replaces it is another worker. -/
inductive Call where
  | saveActivities (user : User) (dto : SyncActivityDto) (deviceId : Option String)
  | drain (worker : Nat)

def Call.body (dates : Dates) : Call → Program Unit
  | .saveActivities user dto deviceId => do let _ ← Api.saveActivities user dto deviceId
  | .drain worker => Api.drain dates worker

/-- Requests pass validation first. -/
def Call.admits (dates : Dates) : Call → Bool
  | .saveActivities _ dto _ => dto.valid dates
  | .drain _ => true

def service (dates : Dates) : System Op Op.Reply Store Choice Call :=
  ⟨exec, fun call s => if call.admits dates then some s else none, Call.body dates⟩

abbrev Running (ι : Type) := Config ι Op Op.Reply Store

end TimeChamp.Api
