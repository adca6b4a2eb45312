import Mathlib.Algebra.Order.BigOperators.Group.List
import TimeChamp.Analytics.Range

/-!
# Rounding each event, and rounding once

The report rounds the time of each event to minutes and adds the minutes up, the usage of an app adds the seconds up and
rounds once. What rounding an event adds to it, from -29 to 30 seconds, decides how far the two are apart.

* `excess` : what rounding adds to some seconds; `minutes_near_iff` : what it may add to several of them;
* `reportMinutes`, `usageMinutes` : the minutes of an app in the report of a day, and in the usage;
* `OneDay.reportMinutes_eq`, `OneDay.usageMinutes_eq` : **both as sums over its events**;
* `aggregations_agree_iff` : **they are at most a minute apart, and the total of the day at most a minute for each app,
  exactly when the excesses add up to little**.
-/

namespace TimeChamp.Analytics
open Lib

/-- What rounding to minutes adds, in seconds. -/
def excess (sec : Int) : Int := 30 - (sec + 30) % 60

theorem sixty_mul_roundMinutes (sec : Int) : 60 * roundMinutes sec = sec + excess sec := by
  unfold roundMinutes excess
  omega

/-- The seconds of some events, and what rounding each adds to them. -/
def seconds (es : List ActivityEvent) : Int := (es.map ActivityEvent.durationSec).sum

def excesses (es : List ActivityEvent) : Int := (es.map fun e => excess e.durationSec).sum

/-- The minutes of some events, each rounded. -/
def minutes (es : List ActivityEvent) : Int := (es.map fun e => roundMinutes e.durationSec).sum

theorem sixty_mul_minutes (es : List ActivityEvent) : 60 * minutes es = seconds es + excesses es := by
  induction es with
  | nil => rfl
  | cons e es ih =>
      have hstep := sixty_mul_roundMinutes e.durationSec
      simp only [minutes, seconds, excesses, List.map_cons, List.sum_cons] at ih ⊢
      omega

/-- **Rounding each and rounding once** are at most a minute apart exactly when the excesses add up to more than -90 and
at most 90 seconds. -/
theorem minutes_near_iff (es : List ActivityEvent) :
    |minutes es - roundMinutes (seconds es)| ≤ 1 ↔ -90 < excesses es ∧ excesses es ≤ 90 := by
  have hsum := sixty_mul_minutes es
  unfold roundMinutes
  rw [abs_le]
  omega

/-! ## The two aggregations -/

/-- The events of an app. -/
def ofApp (app : String) (es : List ActivityEvent) : List ActivityEvent := es.filter fun e => e.appName = app

theorem ofApp_cons_self (e : ActivityEvent) (es : List ActivityEvent) :
    ofApp e.appName (e :: es) = e :: ofApp e.appName es :=
  List.filter_cons_of_pos (decide_eq_true rfl)

theorem ofApp_cons_of_ne {app : String} {e : ActivityEvent} (h : app ≠ e.appName) (es : List ActivityEvent) :
    ofApp app (e :: es) = ofApp app es :=
  List.filter_cons_of_neg (by simpa using h.symm)

/-- The day of the report with this date. -/
def reportDay (db : Db) (organizationId : String) (userId : Option String) (date : String) : Day :=
  ((byDate ((db.find ⟨organizationId, givenUser userId, none⟩).getD []) date).lookup date).getD Day.empty

/-- The minutes that the report attributes to an app on a day, before it keeps the first five apps. -/
def reportMinutes (db : Db) (organizationId : String) (userId : Option String) (date app : String) : Int :=
  (((reportDay db organizationId userId date).apps.lookup app).map AppMinutes.minutes).getD 0

/-- The minutes that the usage of a day reports for an app. -/
def usageMinutes (db : Db) (organizationId : String) (userId : Option String) (day : Int) (app : String) : Int :=
  ((((getAppUsage db userId organizationId day day).getD []).find? fun row => row.appName = app).map
    AppUsageRow.totalMins).getD 0

theorem Day.apps_add (day : Day) (act : ActivityEvent) :
    (day.add act).apps = upsert act.appName (fun existing =>
      { existing.getD ⟨0, categorizeApp act.appName⟩ with
        minutes := (existing.getD ⟨0, categorizeApp act.appName⟩).minutes + roundMinutes act.durationSec }) day.apps := by
  unfold Day.add
  cases categorizeApp act.appName <;> rfl

theorem Day.totalMinutes_add (day : Day) (act : ActivityEvent) :
    (day.add act).totalMinutes = day.totalMinutes + roundMinutes act.durationSec := by
  unfold Day.add Day.totalMinutes
  cases categorizeApp act.appName <;> dsimp only <;> omega

theorem minutes_foldl_add (es : List ActivityEvent) (day : Day) (app : String) :
    (((es.foldl Day.add day).apps.lookup app).map AppMinutes.minutes).getD 0 =
      ((day.apps.lookup app).map AppMinutes.minutes).getD 0 + minutes (ofApp app es) := by
  induction es generalizing day with
  | nil => simp [minutes, ofApp]
  | cons e es ih =>
      rw [List.foldl_cons, ih, Day.apps_add, lookup_upsert]
      by_cases happ : app = e.appName
      · subst happ
        rw [if_pos rfl, ofApp_cons_self]
        simp only [minutes, List.map_cons, List.sum_cons, Option.map_some, Option.getD_some]
        cases day.apps.lookup e.appName <;> simp only [Option.getD_none, Option.getD_some, Option.map_none,
          Option.map_some] <;> omega
      · rw [if_neg happ, ofApp_cons_of_ne happ]

theorem totalMinutes_foldl_add (es : List ActivityEvent) (day : Day) :
    (es.foldl Day.add day).totalMinutes = day.totalMinutes + minutes es := by
  induction es generalizing day with
  | nil => simp [minutes]
  | cons e es ih =>
      rw [List.foldl_cons, ih, Day.totalMinutes_add]
      simp only [minutes, List.map_cons, List.sum_cons]
      omega

theorem getD_foldl_add (es : List ActivityEvent) (day : Option Day) :
    (es.foldl (fun day act => some ((day.getD Day.empty).add act)) day).getD Day.empty =
      es.foldl Day.add (day.getD Day.empty) := by
  induction es generalizing day with
  | nil => rw [List.foldl_nil, List.foldl_nil]
  | cons e es ih => rw [List.foldl_cons, List.foldl_cons, ih, Option.getD_some]

/-- The minutes of an app in rows that have the seconds of each app, rounded. -/
theorem minutes_of_rows {rows : List AppUsageRow} {totals : List (String × Int)}
    (hnodup : (totals.map Prod.fst).Nodup)
    (hrows : ∀ row ∈ rows, ∃ sec, (row.appName, sec) ∈ totals ∧ row.totalMins = roundMinutes sec)
    (htotals : ∀ entry ∈ totals, ∃ row ∈ rows, row.appName = entry.1) (app : String) :
    ((rows.find? fun row => row.appName = app).map AppUsageRow.totalMins).getD 0 =
      roundMinutes ((totals.lookup app).getD 0) := by
  cases hfind : rows.find? fun row => row.appName = app with
  | some row =>
      have happ : row.appName = app := by simpa using List.find?_some hfind
      obtain ⟨sec, hentry, hrow⟩ := hrows row (List.mem_of_find?_eq_some hfind)
      rw [happ] at hentry
      rw [(mem_iff_lookup hnodup).mp hentry]
      exact hrow
  | none =>
      cases hlookup : totals.lookup app with
      | none => rfl
      | some sec =>
          obtain ⟨row, hrow, happ⟩ := htotals _ ((mem_iff_lookup hnodup).mpr hlookup)
          exact absurd (decide_eq_true happ) (List.find?_eq_none.mp hfind row hrow)

/-- At most ten thousand events of one day, all of which the two queries find, with times that are not negative. -/
structure OneDay (z : CalendarDay) (organizationId : String) (userId : Option String) (es : List ActivityEvent) :
    Prop where
  found : ∀ e ∈ es, (reportWhere organizationId userId).matches e = true
  day : ∀ e ∈ es, InRange z z e
  nonneg : ∀ e ∈ es, 0 ≤ e.durationSec
  few : es.length ≤ 10000

section
variable {z : CalendarDay} {organizationId : String} {userId : Option String} {es : List ActivityEvent}
  (h : OneDay z organizationId userId es) (users : String → Option UserName)

include h

theorem OneDay.find_report : (⟨some es, users⟩ : Db).find ⟨organizationId, givenUser userId, none⟩ = some es :=
  congrArg some (List.filter_eq_self.mpr h.found)

theorem OneDay.find_usage : (⟨some es, users⟩ : Db).find
    ⟨organizationId, givenUser userId, some (z.day * 86400000, z.day * 86400000 + 86399999)⟩ = some es := by
  refine congrArg some (List.filter_eq_self.mpr fun e he => ?_)
  have hfound := h.found e he
  have hday := h.day e he
  simp only [reportWhere, Where.matches, Option.all_none, Option.all_some, Bool.and_true, Bool.and_eq_true] at hfound ⊢
  refine ⟨hfound, ?_, ?_⟩
  · exact decide_eq_true hday.1
  · exact decide_eq_true hday.2

theorem OneDay.reportDay_eq :
    reportDay ⟨some es, users⟩ organizationId userId z.text = es.foldl Day.add Day.empty := by
  have hdate : ∀ e ∈ es, decide (dateStr (some e.startedAt) z.text = z.text) = true := by
    intro e he
    obtain ⟨day, hlow, hhigh, hdate⟩ := (dateInRange_iff e z.text).mpr (h.day e he)
    rw [hdate, le_antisymm hhigh hlow]
    exact decide_eq_true rfl
  unfold reportDay byDate
  rw [h.find_report users, Option.getD_some, lookup_groupFold, List.filter_eq_self.mpr hdate, getD_foldl_add]
  apply congrArg (List.foldl Day.add · es)
  exact Option.getD_none

/-- **The report** adds the rounded minutes of the events of an app. -/
theorem OneDay.reportMinutes_eq (app : String) :
    reportMinutes ⟨some es, users⟩ organizationId userId z.text app = minutes (ofApp app es) := by
  rw [reportMinutes, h.reportDay_eq users, minutes_foldl_add]
  exact Int.zero_add _

theorem OneDay.totalMinutes_eq :
    (reportDay ⟨some es, users⟩ organizationId userId z.text).totalMinutes = minutes es := by
  rw [h.reportDay_eq users, totalMinutes_foldl_add]
  exact Int.zero_add _

theorem OneDay.seconds_ofApp_of_zero (hzero : seconds es = 0) (app : String) : seconds (ofApp app es) = 0 := by
  have hnonneg := h.nonneg
  clear h
  unfold seconds at hzero ⊢
  induction es with
  | nil => rfl
  | cons e es ih =>
      obtain ⟨he, hes⟩ := List.forall_mem_cons.mp hnonneg
      have hsum : 0 ≤ (es.map ActivityEvent.durationSec).sum :=
        List.sum_nonneg fun d hd => by
          obtain ⟨x, hx, rfl⟩ := List.mem_map.mp hd
          exact hes x hx
      rw [List.map_cons, List.sum_cons] at hzero
      by_cases happ : app = e.appName
      · subst happ
        rw [ofApp_cons_self, List.map_cons, List.sum_cons, ih (by omega) hes]
        omega
      · rw [ofApp_cons_of_ne happ]
        exact ih (by omega) hes

/-- **The usage** rounds the time of an app once. -/
theorem OneDay.usageMinutes_eq (app : String) :
    usageMinutes ⟨some es, users⟩ organizationId userId z.day app = roundMinutes (seconds (ofApp app es)) := by
  have hnodup : ((groupFold ActivityEvent.appName (fun sec ev => sec.getD 0 + ev.durationSec) es).map
      Prod.fst).Nodup := nodup_keys es
  have htotals : ((groupFold ActivityEvent.appName (fun sec ev => sec.getD 0 + ev.durationSec) es).lookup app).getD 0 =
      seconds (ofApp app es) := getD_lookup_groupFold _ _ es app
  have hsum : ((groupFold ActivityEvent.appName (fun sec ev => sec.getD 0 + ev.durationSec) es).map Prod.snd).sum =
      seconds es := sum_groupFold _ _ es
  unfold usageMinutes getAppUsage
  rw [h.find_usage users, Option.map_some, Option.getD_some, List.take_of_length_le h.few]
  dsimp only
  rw [hsum]
  by_cases hzero : seconds es = 0
  · rw [if_pos hzero, h.seconds_ofApp_of_zero hzero app]
    rfl
  · rw [if_neg hzero, ← htotals]
    apply minutes_of_rows hnodup
    · intro row hrow
      obtain ⟨entry, hentry, rfl⟩ := List.mem_map.mp (List.mem_mergeSort.mp hrow)
      exact ⟨entry.2, hentry, rfl⟩
    · intro entry hentry
      exact ⟨_, List.mem_mergeSort.mpr (List.mem_map_of_mem hentry), rfl⟩

end

/-! ## Agreement -/

/-- The apps of some events. -/
def appsOf (es : List ActivityEvent) : List String := (es.map ActivityEvent.appName).dedup

/-- The two aggregations of a day agree up to a minute for each app, and the total of the report is as close to the time
that was spent. -/
structure Agree (db : Db) (organizationId : String) (userId : Option String) (z : CalendarDay)
    (es : List ActivityEvent) : Prop where
  apps : ∀ app,
    |reportMinutes db organizationId userId z.text app - usageMinutes db organizationId userId z.day app| ≤ 1
  total : |60 * (reportDay db organizationId userId z.text).totalMinutes - seconds es| ≤ 60 * (appsOf es).length

/-- **The aggregations of a day** agree exactly when the excesses of each app add up to more than -90 and at most 90
seconds, and those of all events to at most a minute for each app. -/
theorem aggregations_agree_iff {z : CalendarDay} {organizationId : String} {userId : Option String}
    {es : List ActivityEvent} (h : OneDay z organizationId userId es) (users : String → Option UserName) :
    Agree ⟨some es, users⟩ organizationId userId z es ↔
      (∀ app, -90 < excesses (ofApp app es) ∧ excesses (ofApp app es) ≤ 90) ∧
        |excesses es| ≤ 60 * (appsOf es).length := by
  have hexcess : 60 * (reportDay ⟨some es, users⟩ organizationId userId z.text).totalMinutes - seconds es =
      excesses es := by
    rw [h.totalMinutes_eq users, sixty_mul_minutes]
    omega
  constructor
  · rintro ⟨happs, htotal⟩
    rw [hexcess] at htotal
    refine ⟨fun app => ?_, htotal⟩
    have happ := happs app
    rw [h.reportMinutes_eq users, h.usageMinutes_eq users] at happ
    exact (minutes_near_iff _).mp happ
  · rintro ⟨happs, htotal⟩
    refine ⟨fun app => ?_, by rw [hexcess]; exact htotal⟩
    rw [h.reportMinutes_eq users, h.usageMinutes_eq users]
    exact (minutes_near_iff _).mpr (happs app)

section Runs

/-- Some seconds in an app, at nine o'clock of the second of April 2026. -/
def spent (appName : String) (durationSec : Int) : ActivityEvent :=
  ⟨"u-1", "org-1", appName, 1775120400000, durationSec, by decide⟩

def april2 : CalendarDay := ⟨20545, by decide⟩

def shortDay : List ActivityEvent := [spent "Chrome" 3600, spent "VSCode" 1800, spent "Chrome" 1800]

theorem oneDay_shortDay : OneDay april2 "org-1" (some "u-1") shortDay where
  found := by decide +kernel
  day := by decide
  nonneg := by decide
  few := by decide

theorem aggregations_agree_iff_shortDay :
    OneDay april2 "org-1" (some "u-1") shortDay ∧
      (Agree ⟨some shortDay, fun _ => none⟩ "org-1" (some "u-1") april2 shortDay ↔
        (∀ app, -90 < excesses (ofApp app shortDay) ∧ excesses (ofApp app shortDay) ≤ 90) ∧
          |excesses shortDay| ≤ 60 * (appsOf shortDay).length) :=
  ⟨oneDay_shortDay, aggregations_agree_iff oneDay_shortDay fun _ => none⟩

/-- Half a minute, four times. -/
def halfMinutes : List ActivityEvent := List.replicate 4 (spent "Chrome" 30)

/-- The report has four minutes of an app in which two were spent. -/
theorem not_aggregations_agree :
    ¬ ∀ (z : CalendarDay) (organizationId : String) (userId : Option String) (es : List ActivityEvent)
      (users : String → Option UserName), OneDay z organizationId userId es →
        Agree ⟨some es, users⟩ organizationId userId z es := by
  intro h
  have hday : OneDay april2 "org-1" (some "u-1") halfMinutes := by
    constructor
    · decide +kernel
    · decide
    · decide
    · decide
  have happ := (h april2 "org-1" (some "u-1") halfMinutes (fun _ => none) hday).apps "Chrome"
  rw [hday.reportMinutes_eq, hday.usageMinutes_eq, minutes_near_iff] at happ
  revert happ
  decide +kernel

end Runs

end TimeChamp.Analytics
