import Mathlib.Data.Rat.Floor
import Mathlib.Data.Int.Log
import Mathlib.Data.List.Lex
import TimeChamp.Lib.GroupBy
import TimeChamp.Lib.Texts
import TimeChamp.Registration.PersonalToken

/-!
# The analytics service

What the service computes of the activity events, with nothing in its cache.

* `Db`, `find` : the events and the users, and a query that may fail;
* `categorizeApp` : productive, unproductive or neutral, by the name alone;
* `byDate`, `getProductivityReport` : the report by day; `byUser`, `getOrgProductivitySummary` : the summary by user;
* `getAppUsage` : the time spent in each app in a range of days.
-/

namespace TimeChamp.Analytics
open Lib
open Registration (toLowerCase isWhiteSpace)

/-! ## Events -/

/-- An activity event. Its start is a `Date`, and its column is not nullable. -/
structure ActivityEvent where
  userId : String
  organizationId : String
  appName : String
  startedAt : Int
  durationSec : Int
  valid : ValidTime startedAt
deriving DecidableEq

structure UserName where
  firstName : String
  lastName : String
deriving DecidableEq

/-- The tables. `none` for the events when they cannot be queried. -/
structure Db where
  activityEvents : Option (List ActivityEvent)
  users : String → Option UserName

/-- The conditions of a query: the organization, the user if one is given, and a range of instants. -/
structure Where where
  organizationId : String
  userId : Option String
  startedAt : Option (Int × Int)

/-- `if (userId) where.userId = userId`. -/
def givenUser (userId : Option String) : Option String := userId.filter fun u => u ≠ ""

def Where.matches (w : Where) (e : ActivityEvent) : Bool :=
  e.organizationId == w.organizationId && w.userId.all (fun u => e.userId == u) &&
    w.startedAt.all (fun range => range.1 ≤ e.startedAt && e.startedAt ≤ range.2)

def Db.find (db : Db) (w : Where) : Option (List ActivityEvent) := db.activityEvents.map (·.filter w.matches)

/-! ## Numbers -/

/-- `Math.round`, which rounds halves up. -/
def mathRound (q : ℚ) : Int := ⌊q + 1 / 2⌋

/-- The nearest integer, and the even one of two. -/
def roundEven (q : ℚ) : Int :=
  if q - ⌊q⌋ < 1 / 2 then ⌊q⌋ else if 1 / 2 < q - ⌊q⌋ then ⌊q⌋ + 1 else if ⌊q⌋ % 2 = 0 then ⌊q⌋ else ⌊q⌋ + 1

/-- The number of 53 bits that an operation with the exact result `q` returns. -/
def double (q : ℚ) : ℚ :=
  let ulp : ℚ := 2 ^ (Int.log 2 |q| - 52)
  if q = 0 then 0 else roundEven (q / ulp) * ulp

/-- `Math.round((part / whole) * 100)`. -/
def percent (part whole : Int) : Int := mathRound (double (double (part / whole) * 100))

/-- `Math.round(sec / 60)`. The quotient is a half only if `sec` is an odd multiple of thirty, and then it is exact. -/
def roundMinutes (sec : Int) : Int := (sec + 30) / 60

/-- `Math.round((minutes / 60) * 10) / 10`. -/
def roundHours (minutes : Int) : ℚ := double (mathRound (double (double (minutes / 60) * 10)) / 10)

/-! ## Categories -/

inductive Category where
  | productive
  | unproductive
  | neutral
deriving DecidableEq

def productiveApps : List String :=
  ["code", "vscode", "code.exe", "webstorm", "intellij", "pycharm", "goland", "sublime", "vim", "neovim", "emacs",
    "terminal", "iterm", "hyper", "figma", "sketch", "xd", "photoshop", "illustrator", "chrome", "firefox", "safari",
    "edge", "slack", "teams", "zoom", "meet", "discord", "excel", "sheets", "word", "docs", "powerpoint", "notion",
    "obsidian", "jira", "linear", "asana", "trello", "github", "gitlab", "postman", "insomnia", "docker", "kubectl"]

def unproductiveApps : List String :=
  ["youtube", "netflix", "hulu", "disney", "twitch", "tiktok", "facebook", "instagram", "twitter", "reddit", "snapchat",
    "steam", "epic games", "battle.net", "minecraft", "spotify", "vlc", "itunes", "solitaire", "minesweeper"]

/-- The text without the first occurrence of `pat`. -/
def removeFirst (pat : List Char) : List Char → List Char
  | [] => []
  | c :: cs => if pat.isPrefixOf (c :: cs) then (c :: cs).drop pat.length else c :: removeFirst pat cs

def categorizeApp (appName : String) : Category :=
  let cleaned := removeFirst ".app".toList (removeFirst ".exe".toList (appName.toList.flatMap toLowerCase))
  let lower := Registration.trim (String.ofList cleaned)
  if lower ∈ productiveApps then .productive else if lower ∈ unproductiveApps then .unproductive else .neutral

example : categorizeApp "Code.EXE" = .productive ∧ categorizeApp " Steam " = .unproductive := by decide +kernel

/-! ## The report -/

structure AppMinutes where
  minutes : Int
  category : Category
deriving DecidableEq

/-- What the report has of one day. -/
structure Day where
  productive : Int
  unproductive : Int
  neutral : Int
  apps : List (String × AppMinutes)

def Day.empty : Day := ⟨0, 0, 0, []⟩

def Day.totalMinutes (day : Day) : Int := day.productive + day.unproductive + day.neutral

def Day.add (day : Day) (act : ActivityEvent) : Day :=
  let durationMinutes := roundMinutes act.durationSec
  let category := categorizeApp act.appName
  let apps := upsert act.appName (fun existing =>
    let existing := existing.getD ⟨0, category⟩
    { existing with minutes := existing.minutes + durationMinutes }) day.apps
  match category with
  | .productive => { day with productive := day.productive + durationMinutes, apps }
  | .unproductive => { day with unproductive := day.unproductive + durationMinutes, apps }
  | .neutral => { day with neutral := day.neutral + durationMinutes, apps }

/-- The text of the day of an instant, `toISOString().slice(0, 10)`, or `from_` when there is none. -/
def dateStr (startedAt : Option Int) (from_ : String) : String :=
  (startedAt.map fun t => String.ofList ((toISOString t).take 10)).getD from_

/-- The events by day, in the order in which the days came. -/
def byDate (activities : List ActivityEvent) (from_ : String) : List (String × Day) :=
  groupFold (fun act => dateStr (some act.startedAt) from_) (fun day act => (day.getD Day.empty).add act) activities

structure ReportRow where
  date : String
  productiveMinutes : Int
  unproductiveMinutes : Int
  neutralMinutes : Int
  totalMinutes : Int
  topApps : List (String × AppMinutes)

def reportRow (entry : String × Day) : ReportRow where
  date := entry.1
  productiveMinutes := entry.2.productive
  unproductiveMinutes := entry.2.unproductive
  neutralMinutes := entry.2.neutral
  totalMinutes := entry.2.totalMinutes
  topApps := (entry.2.apps.mergeSort fun a b => b.2.minutes ≤ a.2.minutes).take 5

/-- The order of the letters that a date has, in a comparison by `localeCompare`. -/
def collate (c : Char) : Nat := if c = '-' then 0 else if c = '+' then 1 else c.toNat

def localeLe (a b : String) : Bool := decide (a.toList.map collate ≤ b.toList.map collate)

/-- The productivity report. The range is not part of the query. -/
def getProductivityReport (db : Db) (organizationId : String) (userId : Option String) (from_ _to : String) :
    List ReportRow :=
  let activities := (db.find ⟨organizationId, givenUser userId, none⟩).getD []
  ((byDate activities from_).map reportRow).mergeSort fun a b => localeLe a.date b.date

/-! ## The summary -/

structure UserTotals where
  productive : Int
  total : Int
  topApps : List (String × Int)
  user : Option UserName

def UserTotals.add (entry : UserTotals) (act : ActivityEvent) : UserTotals :=
  let mins := roundMinutes act.durationSec
  { entry with
    total := entry.total + mins
    productive := if categorizeApp act.appName = .productive then entry.productive + mins else entry.productive
    topApps := upsert act.appName (fun m => m.getD 0 + mins) entry.topApps }

/-- The events by user, joined with the users. -/
def byUser (db : Db) (activities : List ActivityEvent) : List (String × UserTotals) :=
  groupFold (fun act => act.userId) (fun entry act => (entry.getD ⟨0, 0, [], db.users act.userId⟩).add act) activities

structure SummaryRow where
  userId : String
  firstName : String
  lastName : String
  productivePercent : Int
  totalHours : ℚ
  topApp : String

def summaryRow (entry : String × UserTotals) : SummaryRow where
  userId := entry.1
  firstName := (entry.2.user.map UserName.firstName).getD ""
  lastName := (entry.2.user.map UserName.lastName).getD ""
  productivePercent := if entry.2.total > 0 then percent entry.2.productive entry.2.total else 0
  totalHours := roundHours entry.2.total
  topApp := ((entry.2.topApps.mergeSort fun a b => b.2 ≤ a.2).head?.map Prod.fst).getD "N/A"

/-- The summary of an organization. Neither end of the range is used. -/
def getOrgProductivitySummary (db : Db) (organizationId : String) (_from _to : String) : List SummaryRow :=
  let activities := (db.find ⟨organizationId, none, none⟩).getD []
  (byUser db activities).map summaryRow

/-! ## App usage -/

structure AppUsageRow where
  appName : String
  totalMins : Int
  percentage : Int

/-- The time spent in each app. `from_` and `to_` are days, whose first and last instants bound the query. A failing
query fails the call. -/
def getAppUsage (db : Db) (userId : Option String) (organizationId : String) (from_ to_ : Int) :
    Option (List AppUsageRow) :=
  (db.find ⟨organizationId, givenUser userId, some (from_ * 86400000, to_ * 86400000 + 86399999)⟩).map fun found =>
    let totals := groupFold ActivityEvent.appName (fun sec ev => sec.getD 0 + ev.durationSec) (found.take 10000)
    let totalSec := (totals.map Prod.snd).sum
    if totalSec = 0 then []
    else
      (totals.map fun entry =>
        (⟨entry.1, roundMinutes entry.2, percent entry.2 totalSec⟩ : AppUsageRow)).mergeSort fun a b =>
          b.totalMins ≤ a.totalMins

end TimeChamp.Analytics
