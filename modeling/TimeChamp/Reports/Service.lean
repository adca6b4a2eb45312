import TimeChamp.Accounts.Service
import TimeChamp.Analytics.Productivity
import TimeChamp.Api.Redis
import TimeChamp.Lib.History
import TimeChamp.Lib.JsonValue

/-!
# Reports that are kept for a while

The productivity by day, the app usage and the report of `analytics.service.ts`, and the live devices of
`monitoring.service.ts`: each is looked up in the store first, and kept there once it was computed. What `new Date` reads
in the text of a day is `parseDate`.

* `Tables`, `Query` : the rows, and what the services ask of them; `uuidIn`, what the database takes for a UUID;
* `Op`, `exec` : the awaited calls, of which each may fail; the tables may have changed at every one;
* `cached` : a result that is kept; `getProductivity`, `getAppUsage`, `getProductivityReport`, `getLiveStatus`;
* `Request`, `route` : what the controllers make of a call; `reports`, any number of calls, and what other services keep.
-/

namespace TimeChamp.Reports
open Lib Analytics
open Api (Mem)
open Accounts (UserRole)
open Json (Value)

/-! ## Tables -/

structure Event extends ActivityEvent where
  deviceId : Option String

structure Device where
  id : String
  organizationId : String
  userId : String
  hostname : Option String
  displayName : Option String
  lastSeenAt : Option Int
  isActive : Bool
  createdAt : Int
deriving DecidableEq

structure Tables where
  attendance : List ClockedIn
  activityEvents : List Event
  agentDevices : List Device
  users : List Registration.User

/-- The hexadecimal digits of so many bytes, with or without a dash after every second one, and what follows. -/
def uuidDigits : Nat → List Char → Option (List Char × List Char)
  | 0, cs => some ([], cs)
  | n + 1, a :: b :: rest =>
    if Registration.isHexDigit a && Registration.isHexDigit b then
      (uuidDigits n (if n % 2 = 0 ∧ n ≠ 0 ∧ rest.head? = some '-' then rest.tail else rest)).map fun p =>
        (a.toLower :: b.toLower :: p.1, p.2)
    else none
  | _ + 1, _ => none

/-- The digits as a UUID is printed. -/
def uuidOut (digits : List Char) : String :=
  String.ofList (digits.take 8 ++ '-' :: (digits.drop 8).take 4 ++ '-' :: (digits.drop 12).take 4 ++
    '-' :: (digits.drop 16).take 4 ++ '-' :: digits.drop 20)

/-- What the database takes a text for, where it wants a UUID. -/
def uuidIn (text : String) : Option String :=
  match text.toList with
  | '{' :: rest =>
    match uuidDigits 16 rest with
    | some (digits, ['}']) => some (uuidOut digits)
    | _ => none
  | cs =>
    match uuidDigits 16 cs with
    | some (digits, []) => some (uuidOut digits)
    | _ => none

example : uuidIn "\x7b123E4567E89b-12d3-a456-426614174000\x7d" = some "123e4567-e89b-12d3-a456-426614174000" := by
  decide +kernel

inductive Query where
  | attendances (w : AttendanceWhere)
  | activities (w : Where) (take : Option Nat)
  | activeDevices (organizationId : String) (since : Int)
  | lastActivity (deviceId organizationId : String)

abbrev Query.Reply : Query → Type
  | .attendances _ => List ClockedIn
  | .activities _ _ => List Event
  | .activeDevices _ _ => List (Device × Option Registration.User)
  | .lastActivity _ _ => Option Event

/-- Where a user is given, the database must take it for a UUID. -/
def withUser {α : Type} (userId : Option String) (rows : Option String → α) : Option α :=
  match userId with
  | none => some (rows none)
  | some text => (uuidIn text).map fun id => rows (some id)

def Query.run (tables : Tables) : (q : Query) → Option q.Reply
  | .attendances w => withUser w.userId fun userId => tables.attendance.filter { w with userId }.matches
  | .activities w take => withUser w.userId fun userId =>
    let rows := tables.activityEvents.filter fun e => { w with userId }.matches e.toActivityEvent
    (take.map rows.take).getD rows
  | .activeDevices organizationId since =>
    let rows := tables.agentDevices.filter fun d =>
      d.organizationId == organizationId && d.isActive && d.lastSeenAt.any fun t => decide (since < t)
    let latest := rows.mergeSort fun d d' => d'.lastSeenAt.getD 0 ≤ d.lastSeenAt.getD 0
    some (latest.map fun d => (d, tables.users.find? fun u => u.id = d.userId))
  | .lastActivity deviceId organizationId =>
    let rows := tables.activityEvents.filter fun e => e.deviceId == some deviceId && e.organizationId == organizationId
    some (rows.mergeSort fun e e' => e'.startedAt ≤ e.startedAt).head?

/-! ## Calls -/

/-- The user that a token names. -/
structure User where
  id : Uuid
  organizationId : Uuid
  role : UserRole
deriving DecidableEq

/-- What the services are asked. -/
inductive Request where
  | productivity (userId : Option String) (organizationId : Uuid) (from_ to_ : String)
  | appUsage (userId : Option String) (organizationId : Uuid) (from_ to_ : String)
  | report (organizationId : Uuid) (userId : Option String) (from_ to_ : String)
  | live (organizationId : Uuid)
deriving DecidableEq

/-- The calls of the store, with the clock at which it made them; a query; the clock of the server; whose turn it is
among the parts of a request; and the answer that goes out. -/
inductive Op where
  | get (key : String)
  | set (key value : String) (ttlSeconds : Nat)
  | find (query : Query)
  | now
  | turn
  | respond (user : User) (request : Request) (answer : Value)

abbrev Op.Reply : Op → Type
  | .get _ => Int × Except Unit (Option String)
  | .set _ _ _ => Int × Except Unit Unit
  | .find query => Except Unit query.Reply
  | .now => Int
  | .turn => Bool
  | .respond _ _ _ => Unit

/-- What the outside decides about a call. -/
structure Choice where
  outcome : Outcome
  now : Int
  tables : Tables
  turn : Bool

def exec (ch : Choice) : (e : Op) → Mem String → Option (e.Reply × Mem String)
  | .get key, mem =>
    let r := ch.outcome.answer () (mem.get ch.now key) mem (mem.afterGet ch.now key)
    some ((ch.now, r.1), r.2)
  | .set key value ttlSeconds, mem =>
    let r := ch.outcome.answer () () mem (mem.set ch.now key value (some ttlSeconds))
    some ((ch.now, r.1), r.2)
  | .find query, mem =>
    match ch.outcome, query.run ch.tables with
    | .ok, some rows => some (.ok rows, mem)
    | _, _ => some (.error (), mem)
  | .now, mem => some (ch.now, mem)
  | .turn, mem => some (ch.turn, mem)
  | .respond _ _ _, mem => some ((), mem)

/-! ## The services -/

inductive HttpException where
  | forbidden
  | internal
deriving DecidableEq

abbrev Method := Throwing HttpException Op Op.Reply

def perform (e : Op) : Method e.Reply := ExceptT.lift (Prog.perform e)

/-- What was answered, or an error thrown. -/
def orThrow {α : Type} (answer : Except Unit α) : Method α :=
  match answer with
  | .ok a => pure a
  | .error () => throw .internal

def find (query : Query) : Method query.Reply := perform (.find query) >>= orThrow

/-- What is computed, and kept if a time is given for it. -/
def computeAndKeep (key : String) (compute : Method (Value × Option Nat)) : Method Value := do
  let result ← compute
  match result.2 with
  | none => return result.1
  | some ttlSeconds =>
    let done ← perform (.set key result.1.stringify ttlSeconds)
    orThrow done.2
    return result.1

/-- What the store has, or else what is computed. -/
def cached (key : String) (compute : Method (Value × Option Nat)) : Method Value := do
  let kept ← perform (.get key)
  match (← orThrow kept.2).filter fun text => text ≠ "" with
  | some text =>
    match Value.parse text with
    | some answer => return answer
    | none => throw .internal
  | none => computeAndKeep key compute

/-- `Promise.all` of two parts. -/
def together {α β : Type} (p : Method α) (q : Method β) : Method (α × β) := Throwing.both (E := Op) .turn id p q

/-- `Promise.all` of any number. -/
def togetherAll {α : Type} (ps : List (Method α)) : Method (List α) := Throwing.all (E := Op) .turn id ps

/-- `new Date().toISOString().slice(0, 10)`. -/
def todayISO : Method String := do
  return dateKey (← perform .now)

/-- A day, unless the range ends before today: five minutes. -/
def rangeTtl (to_ today : String) : Nat := if to_ < today then 86400 else 300

/-! ### Productivity by day -/

def productivityKey (userId : Option String) (organizationId : Uuid) (from_ to_ : String) : String :=
  "productivity:" ++ organizationId.text ++ ":" ++ from_ ++ ":" ++ to_ ++ ":" ++ userId.getD "all"

/-- The rows of the days from `cursor` to `loopEnd`. -/
def productivityRows (now cursor : Int) (loopEnd : Option Int) (attendances : List ClockedIn) (activities : List Event) :
    List DailyProductivity :=
  let dates := (loopEnd.map fun loopEnd => datesUpTo cursor loopEnd).getD []
  dates.map (dailyProductivity (workedSecByDate now attendances) (activeSecByDate (activities.map Event.toActivityEvent)))

def productivityValue (rows : List DailyProductivity) : Value :=
  .arr (rows.map fun row => .obj [("date", .str row.date), ("score", .num row.score), ("workedMins", .num row.workedMins),
    ("activeMins", .num row.activeMins), ("idleMins", .num row.idleMins)])

section
variable (parseDate : String → Option Int)

/-- The first and the last instant of a range, when both are dates. -/
def instants (from_ to_ : String) : Option (Int × Int) := do
  return (← parseDate (from_ ++ "T00:00:00.000Z"), ← parseDate (to_ ++ "T23:59:59.999Z"))

/-- A date that is none cannot be part of a query. -/
def validRange (from_ to_ : String) : Method (Int × Int) :=
  match instants parseDate from_ to_ with
  | some range => pure range
  | none => throw .internal

def getProductivity (userId : Option String) (organizationId : Uuid) (from_ to_ : String) : Method Value := do
  let today ← todayISO
  cached (productivityKey userId organizationId from_ to_) do
    let range ← validRange parseDate from_ to_
    let found ← together (find (.attendances ⟨organizationId.text, givenUser userId, range⟩))
      (find (.activities ⟨organizationId.text, givenUser userId, some range⟩ none))
    let now ← perform .now
    let rows := productivityRows now range.1 (parseDate (to_ ++ "T00:00:00.000Z")) found.1 found.2
    return (productivityValue rows, some (rangeTtl to_ today))

/-! ### App usage -/

def appUsageKey (userId : Option String) (organizationId : Uuid) (from_ to_ : String) : String :=
  "appusage:" ++ organizationId.text ++ ":" ++ from_ ++ ":" ++ to_ ++ ":" ++ userId.getD "all"

/-- The seconds by app, in the order in which the apps came. -/
def appTotals (events : List Event) : List (String × Int) :=
  groupFold ActivityEvent.appName (fun sec ev => sec.getD 0 + ev.durationSec) (events.map Event.toActivityEvent)

def appUsageRows (totals : List (String × Int)) : List AppUsageRow :=
  let totalSec := (totals.map Prod.snd).sum
  (totals.map fun entry =>
    (⟨entry.1, roundMinutes entry.2, percent entry.2 totalSec⟩ : AppUsageRow)).mergeSort fun a b =>
      b.totalMins ≤ a.totalMins

def appUsageValue (rows : List AppUsageRow) : Value :=
  .arr (rows.map fun row =>
    .obj [("appName", .str row.appName), ("totalMins", .num row.totalMins), ("percentage", .num row.percentage)])

/-- Nothing is kept of a range without any time. -/
def getAppUsage (userId : Option String) (organizationId : Uuid) (from_ to_ : String) : Method Value := do
  let today ← todayISO
  cached (appUsageKey userId organizationId from_ to_) do
    let range ← validRange parseDate from_ to_
    let events ← find (.activities ⟨organizationId.text, givenUser userId, some range⟩ (some 10000))
    let totals := appTotals events
    if (totals.map Prod.snd).sum = 0 then return (.arr [], none)
    else return (appUsageValue (appUsageRows totals), some (rangeTtl to_ today))

end

/-! ### The report -/

def reportKey (organizationId : Uuid) (userId : Option String) (from_ to_ : String) : String :=
  "analytics:report:" ++ organizationId.text ++ ":" ++ userId.getD "all" ++ ":" ++ from_ ++ ":" ++ to_

def reportRows (from_ : String) (activities : List Event) : List ReportRow :=
  ((byDate (activities.map Event.toActivityEvent) from_).map reportRow).mergeSort fun a b => localeLe a.date b.date

def categoryText : Category → String
  | .productive => "productive"
  | .unproductive => "unproductive"
  | .neutral => "neutral"

def reportValue (rows : List ReportRow) : Value :=
  .arr (rows.map fun row => .obj [("date", .str row.date), ("productiveMinutes", .num row.productiveMinutes),
    ("unproductiveMinutes", .num row.unproductiveMinutes), ("neutralMinutes", .num row.neutralMinutes),
    ("totalMinutes", .num row.totalMinutes),
    ("topApps", .arr (row.topApps.map fun app => .obj [("appName", .str app.1), ("minutes", .num app.2.minutes),
      ("category", .str (categoryText app.2.category))]))])

/-- A query that fails counts as one that finds nothing. -/
def getProductivityReport (organizationId : Uuid) (userId : Option String) (from_ to_ : String) : Method Value :=
  cached (reportKey organizationId userId from_ to_) do
    let found ← perform (.find (.activities ⟨organizationId.text, givenUser userId, none⟩ none))
    let activities := found.toOption.getD []
    return (reportValue (reportRows from_ activities), some 300)

/-! ### Live devices -/

def ONLINE_WINDOW_MS : Int := 5 * 60 * 1000

def liveKey (organizationId : Uuid) : String := "live:v2:" ++ organizationId.text

def nullableStr (text : Option String) : Value := (text.map Value.str).getD .null

def dateValue (t : Int) : Value := .str (String.ofList (toISOString t))

/-- A device with its user, and its last activity. -/
def liveDevice (device : Device × Option Registration.User) (lastActivity : Option Event) : Value :=
  .obj [("deviceId", .str device.1.id), ("userId", .str device.1.userId),
    ("userName", .str ((device.2.map Registration.userName).getD "")), ("displayName", nullableStr device.1.displayName),
    ("hostname", nullableStr device.1.hostname),
    ("clockedInSince", dateValue (device.1.lastSeenAt.getD device.1.createdAt)),
    ("currentApp", nullableStr (lastActivity.map fun e => e.appName)),
    ("lastSeenAt", (device.1.lastSeenAt.map dateValue).getD .null)]

def getLiveStatus (organizationId : Uuid) : Method Value :=
  cached (liveKey organizationId) do
    let now ← perform .now
    let activeDevices ← find (.activeDevices organizationId.text (now - ONLINE_WINDOW_MS))
    let result ← togetherAll (activeDevices.map fun device => do
      let lastActivity ← find (.lastActivity device.1.id organizationId.text)
      return liveDevice device lastActivity)
    return (.arr result, some 30)

/-! ## The controllers -/

/-- The routes, with their parameters. -/
inductive Call where
  | getProductivity (from_ to_ userId : Option String)
  | getAppUsage (from_ to_ userId : Option String)
  | getProductivityReport (from_ to_ : String) (userId : Option String)
  | getLiveStatus
deriving DecidableEq

/-- Employees see their own. -/
def targetUserId (user : User) (userId : Option String) : Option String :=
  if user.role = .employee then some user.id.text else userId

/-- `from ?? todayISO()`. -/
def orToday (from_ : Option String) : Method String :=
  match from_ with
  | some from_ => pure from_
  | none => todayISO

def route (user : User) : Call → Method Request
  | .getProductivity from_ to_ userId => do
    let from_ ← orToday from_
    return .productivity (targetUserId user userId) user.organizationId from_ (to_.getD from_)
  | .getAppUsage from_ to_ userId => do
    let from_ ← orToday from_
    return .appUsage (targetUserId user userId) user.organizationId from_ (to_.getD from_)
  | .getProductivityReport from_ to_ userId =>
    return .report user.organizationId (targetUserId user (some (userId.getD user.id.text))) from_ to_
  | .getLiveStatus =>
    if user.role = .admin ∨ user.role = .manager then return .live user.organizationId
    else throw .forbidden

def Request.serve (parseDate : String → Option Int) : Request → Method Value
  | .productivity userId organizationId from_ to_ => getProductivity parseDate userId organizationId from_ to_
  | .appUsage userId organizationId from_ to_ => getAppUsage parseDate userId organizationId from_ to_
  | .report organizationId userId from_ to_ => getProductivityReport organizationId userId from_ to_
  | .live organizationId => getLiveStatus organizationId

/-- A call, and its answer if it does not fail. -/
def handle (parseDate : String → Option Int) (user : User) (call : Call) : Prog Op Op.Reply Unit := do
  let result ← (do
    let request ← route user call
    let answer ← request.serve parseDate
    return (request, answer) : Method (Request × Value)).run
  match result with
  | .ok (request, answer) => Prog.perform (E := Op) (.respond user request answer)
  | .error _ => pure ()

/-! ## Many calls -/

/-- The keys that other services use. -/
inductive OtherKey where
  | token (purpose secret : String)
  | blacklist (accessToken : String)
  | agentauth (secret : String)
  | bandwidth (userId today : String)
  | egress (month : String)
deriving DecidableEq

def OtherKey.text : OtherKey → String
  | .token purpose secret => "token:" ++ purpose ++ ":" ++ secret
  | .blacklist accessToken => "blacklist:" ++ accessToken
  | .agentauth secret => "agentauth:v2:" ++ secret
  | .bandwidth userId today => "bw:" ++ userId ++ ":" ++ today
  | .egress month => "egress:monthly:" ++ month

/-- A call of a user; something that another service keeps; an entry that is lost. -/
inductive Job where
  | call (user : User) (call : Call)
  | other (key : OtherKey) (value : String) (ttlSeconds : Option Nat) (now : Int)
  | lose (key : String)

/-- Any number of calls, on one store. -/
def reports (parseDate : String → Option Int) : System Op Op.Reply (Mem String) Choice Job where
  exec := exec
  admits
    | .call _ _, mem => some mem
    | .other key value ttlSeconds now, mem => some (mem.set now key.text value ttlSeconds)
    | .lose key, mem => some (mem.del key)
  body
    | .call user call => handle parseDate user call
    | .other _ _ _ _ => pure ()
    | .lose _ => pure ()

end TimeChamp.Reports
