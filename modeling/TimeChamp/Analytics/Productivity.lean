import Mathlib.Data.List.Forall2
import TimeChamp.Analytics.Range
import TimeChamp.Lib.Floats
import TimeChamp.TimeTracking.Service

/-!
# Productivity by day

The time worked and the time active on each day of a range, with nothing in the cache.

* `Tables` : the attendances besides the events; `workedSecByDate`, `activeSecByDate` : the seconds by day;
* `datesUpTo` : the loop over the days; `dailyProductivity` : the row of a day;
* `getProductivity_eq` : **the rows are those of the days in turn, each made of what lies on its day alone**;
* `workedMins_near` : the minutes active and idle against those worked, with all that the roundings add;
* `getProductivity_rows` : **ranges one after the other, a row for each day, and what each row satisfies**.
-/

namespace TimeChamp.Analytics
open Lib

/-! ## Tables -/

/-- An attendance whose start is a `Date`. -/
structure ClockedIn extends TimeTracking.Attendance where
  valid : ValidTime clockIn

/-- The tables with the attendances. `none` when they cannot be queried. -/
structure Tables extends Db where
  attendance : Option (List ClockedIn)

structure AttendanceWhere where
  organizationId : String
  userId : Option String
  clockIn : Int × Int

def AttendanceWhere.matches (w : AttendanceWhere) (att : ClockedIn) : Bool :=
  att.organizationId == w.organizationId && w.userId.all (fun u => att.userId == u) &&
    decide (w.clockIn.1 ≤ att.clockIn ∧ att.clockIn ≤ w.clockIn.2)

def Tables.findAttendance (db : Tables) (w : AttendanceWhere) : Option (List ClockedIn) :=
  db.attendance.map (·.filter w.matches)

/-! ## Dates -/

/-- `toISOString().slice(0, 10)`. -/
def dateKey (t : Int) : String := String.ofList ((toISOString t).take 10)

def getUTCDate (t : Int) : Int := (civil (t / 86400000)).day

/-- The day `date` of the month of `t`, counted on where the month has fewer days, at the same time of the day. -/
def setUTCDate (t date : Int) : Int := t + (date - getUTCDate t) * 86400000

theorem setUTCDate_next (t : Int) : setUTCDate t (getUTCDate t + 1) = t + 86400000 := by
  unfold setUTCDate
  omega

/-- The loop over the days, from the cursor on. -/
def datesUpTo (cursor loopEnd : Int) : List String :=
  if cursor ≤ loopEnd then dateKey cursor :: datesUpTo (setUTCDate cursor (getUTCDate cursor + 1)) loopEnd else []
termination_by (loopEnd + 1 - cursor).toNat
decreasing_by
  rw [setUTCDate_next]
  omega

/-! ## Seconds by date -/

/-- The seconds of an attendance. One that is open lasts until now. -/
def workedSec (now : Int) (att : ClockedIn) : ℚ :=
  let end_ := att.clockOut.getD now
  max 0 (double (double (end_ - att.clockIn : Int) / 1000))

def workedSecByDate (now : Int) (attendances : List ClockedIn) : List (String × ℚ) :=
  groupFold (fun att => dateKey att.clockIn) (fun sec att => double (sec.getD 0 + workedSec now att)) attendances

def activeSecByDate (activities : List ActivityEvent) : List (String × ℚ) :=
  groupFold (fun ev => dateKey ev.startedAt) (fun sec ev => double (sec.getD 0 + ev.durationSec)) activities

/-! ## Rows -/

structure DailyProductivity where
  date : String
  score : Int
  workedMins : Int
  activeMins : Int
  idleMins : Int
deriving DecidableEq

/-- The row of a day with so many seconds worked, and so many active. -/
def rowOf (date : String) (workedSec activeSec : ℚ) : DailyProductivity :=
  -- the agent may report more than was worked
  let activeSec := min activeSec workedSec
  let idleSec := max 0 (double (workedSec - activeSec))
  { date
    score := if workedSec > 0 then min 100 (mathRound (double (double (activeSec / workedSec) * 100))) else 0
    workedMins := mathRound (double (workedSec / 60))
    activeMins := mathRound (double (activeSec / 60))
    idleMins := mathRound (double (idleSec / 60)) }

def dailyProductivity (worked active : List (String × ℚ)) (date : String) : DailyProductivity :=
  rowOf date ((worked.lookup date).getD 0) ((active.lookup date).getD 0)

/-- The rows of a range of days. A failing query fails the call. -/
def getProductivity (db : Tables) (now : Int) (userId : Option String) (organizationId : String)
    (from_ to_ : CalendarDay) : Option (List DailyProductivity) := do
  let fromDate := from_.day * 86400000
  let toDate := to_.day * 86400000 + 86399999
  let attendances ← db.findAttendance ⟨organizationId, givenUser userId, (fromDate, toDate)⟩
  let activities ← db.find ⟨organizationId, givenUser userId, some (fromDate, toDate)⟩
  let dates := datesUpTo fromDate (to_.day * 86400000)
  return dates.map (dailyProductivity (workedSecByDate now attendances) (activeSecByDate activities))

/-! ## Sums -/

theorem double_eq_roundBits (q : ℚ) : double q = roundBits 53 q := rfl

/-- The numbers that are not negative and that a number of 53 bits can hold. -/
structure Held (q : ℚ) : Prop where
  nonneg : 0 ≤ q
  bits : OfBits 53 q

theorem held_zero : Held 0 := ⟨le_rfl, by simpa using ofBits_intCast (K := ℚ) (p := 53) (n := 0) (by simp)⟩

theorem held_double {q : ℚ} (h : 0 ≤ q) : Held (double q) := by
  rw [double_eq_roundBits]
  exact ⟨roundBits_nonneg h, ofBits_roundBits h⟩

theorem Held.double_eq {q : ℚ} (h : Held q) : double q = q := by
  rw [double_eq_roundBits]
  exact roundBits_eq_self (by omega) h.nonneg h.bits

theorem double_le {q r : ℚ} (hq : 0 ≤ q) (hr : Held r) (h : q ≤ r) : double q ≤ r := by
  rw [double_eq_roundBits]
  exact roundBits_le (by omega) hr.bits hq h

theorem double_mono {q r : ℚ} (hq : 0 ≤ q) (h : q ≤ r) : double q ≤ double r := by
  rw [double_eq_roundBits, double_eq_roundBits]
  exact roundBits_mono (by omega) hq h

theorem held_mul_two_pow {m : Int} (h : 0 ≤ m ∧ m ≤ 2 ^ 53) (e : Nat) : Held (m * 2 ^ e) :=
  ⟨mul_nonneg (Int.cast_nonneg h.1) (by positivity), m, e, by rw [abs_of_nonneg h.1]; exact h.2, by
    rw [zpow_natCast]⟩

theorem abs_double_sub_le (q : ℚ) : |double q - q| ≤ |q| / 2 ^ 53 := by
  rw [double_eq_roundBits]
  exact abs_roundBits_sub_le 53 q

/-- What numbers added up one after the other come to. -/
def addUp (qs : List ℚ) : ℚ := qs.foldl (fun sum q => double (sum + q)) 0

theorem held_addUp {qs : List ℚ} (h : ∀ q ∈ qs, 0 ≤ q) : Held (addUp qs) := by
  induction qs using List.reverseRecOn with
  | nil => exact held_zero
  | append_singleton qs q ih =>
      have hsum := ih fun q hq => h q (List.mem_append_left _ hq)
      rw [addUp, List.foldl_append]
      exact held_double (add_nonneg hsum.nonneg (h q List.mem_concat_self))

theorem addUp_le {e : Nat} {qs : List ℚ} (h : ∀ q ∈ qs, 0 ≤ q ∧ q ≤ 2 ^ e) (hlength : qs.length ≤ 2 ^ 53) :
    addUp qs ≤ qs.length * 2 ^ e := by
  induction qs using List.reverseRecOn with
  | nil => simp [addUp]
  | append_singleton qs q ih =>
      have hbefore : ∀ q ∈ qs, 0 ≤ q ∧ q ≤ 2 ^ e := fun q hq => h q (List.mem_append_left _ hq)
      have hlast := h q List.mem_concat_self
      rw [List.length_append, List.length_singleton] at hlength ⊢
      have hsum := held_addUp fun q hq => (hbefore q hq).1
      have hheld := held_mul_two_pow (m := (qs.length + 1 : Nat)) (by omega) e
      have hle := ih hbefore (by omega)
      rw [addUp, List.foldl_append]
      apply double_le (add_nonneg hsum.nonneg hlast.1) (by exact_mod_cast hheld)
      push_cast
      rw [add_one_mul]
      exact add_le_add hle hlast.2

theorem lookup_sums {ε : Type} (key : ε → String) (f : ε → ℚ) (es : List ε) (date : String) :
    ((groupFold key (fun sum e => double (sum.getD 0 + f e)) es).lookup date).getD 0 =
      addUp ((es.filter fun e => key e = date).map f) := by
  rw [lookup_groupFold]
  induction es.filter (fun e => key e = date) using List.reverseRecOn with
  | nil => rfl
  | append_singleton es e ih =>
      rw [List.foldl_append, List.map_append, addUp, List.foldl_append]
      simp only [List.foldl_cons, List.foldl_nil, Option.getD_some, List.map_cons, List.map_nil]
      rw [ih]
      rfl

/-! ## Days -/

/-- The days of a range. -/
def daysFrom (first last : Int) : List Int := (List.range (last + 1 - first).toNat).map fun (i : Nat) => first + i

def dayText (z : Int) : String := String.ofList (dateText z)

theorem mem_daysFrom {first last z : Int} : z ∈ daysFrom first last ↔ first ≤ z ∧ z ≤ last := by
  simp only [daysFrom, List.mem_map, List.mem_range]
  constructor
  · rintro ⟨i, hi, rfl⟩
    omega
  · intro h
    exact ⟨(z - first).toNat, by omega, by omega⟩

theorem daysFrom_cons {first last : Int} (h : first ≤ last) :
    daysFrom first last = first :: daysFrom (first + 1) last := by
  have hlength : (last + 1 - first).toNat = (last + 1 - (first + 1)).toNat + 1 := by omega
  rw [daysFrom, daysFrom, hlength, List.range_succ_eq_map, List.map_cons, List.map_map]
  refine List.cons_eq_cons.mpr ⟨by simp, List.map_congr_left fun i _ => ?_⟩
  simp only [Function.comp_apply, Nat.succ_eq_add_one]
  push_cast
  omega

theorem daysFrom_of_lt {first last : Int} (h : last < first) : daysFrom first last = [] := by
  rw [daysFrom, show (last + 1 - first).toNat = 0 by omega]
  rfl

theorem daysFrom_append {first mid last : Int} (h : first ≤ mid + 1) (h' : mid ≤ last) :
    daysFrom first last = daysFrom first mid ++ daysFrom (mid + 1) last := by
  induction hn : (mid + 1 - first).toNat generalizing first with
  | zero => rw [show first = mid + 1 by omega, daysFrom_of_lt (by omega : mid < mid + 1), List.nil_append]
  | succ n ih =>
      rw [daysFrom_cons (by omega : first ≤ last), daysFrom_cons (by omega : first ≤ mid), ih (by omega) (by omega)]
      rfl

theorem dateKey_day {z : Int} (h : FourDigits z) : dateKey (z * 86400000) = dayText z := by
  have hdiv : z * 86400000 / 86400000 = z := by omega
  rw [dateKey, take_toISOString (by rwa [hdiv]), hdiv]
  rfl

/-- **The loop** names the days of the range. -/
theorem datesUpTo_eq {first last : Int} (h : ∀ z, first ≤ z → z ≤ last → FourDigits z) :
    datesUpTo (first * 86400000) (last * 86400000) = (daysFrom first last).map dayText := by
  induction hn : (last + 1 - first).toNat generalizing first with
  | zero =>
      rw [datesUpTo, if_neg (by omega), daysFrom_of_lt (by omega)]
      rfl
  | succ n ih =>
      rw [datesUpTo, if_pos (by omega), setUTCDate_next, daysFrom_cons (by omega), List.map_cons,
        dateKey_day (h first le_rfl (by omega)), ← ih (fun z hz => h z (by omega)) (by omega)]
      rw [show first * 86400000 + 86400000 = (first + 1) * 86400000 by omega]

theorem dateKey_eq_iff {t z : Int} (ht : ValidTime t) (hz : FourDigits z) :
    dateKey t = dayText z ↔ z * 86400000 ≤ t ∧ t ≤ z * 86400000 + 86399999 := by
  constructor
  · intro h
    have hday := eq_of_take_toISOString ht hz (String.ofList_injective h)
    omega
  · intro h
    have hday : t / 86400000 = z := by omega
    rw [dateKey, take_toISOString (by rwa [hday]), hday]
    rfl

/-! ## What lies on a day -/

/-- The attendances of a query that began on a day, as the query for that day alone finds them. -/
def attendanceOn (organizationId : String) (userId : Option String) (z : Int) (attendances : List ClockedIn) :
    List ClockedIn :=
  attendances.filter
    (⟨organizationId, givenUser userId, (z * 86400000, z * 86400000 + 86399999)⟩ : AttendanceWhere).matches

def eventsOn (organizationId : String) (userId : Option String) (z : Int) (events : List ActivityEvent) :
    List ActivityEvent :=
  events.filter (⟨organizationId, givenUser userId, some (z * 86400000, z * 86400000 + 86399999)⟩ : Where).matches

/-- The seconds worked on a day, as they are added up. -/
def workedOn (now : Int) (organizationId : String) (userId : Option String) (attendances : List ClockedIn)
    (z : Int) : ℚ :=
  addUp ((attendanceOn organizationId userId z attendances).map (workedSec now))

def activeOn (organizationId : String) (userId : Option String) (events : List ActivityEvent) (z : Int) : ℚ :=
  addUp ((eventsOn organizationId userId z events).map fun ev => (ev.durationSec : ℚ))

section
variable {now : Int} {organizationId : String} {userId : Option String}

theorem lookup_workedSecByDate {first last z : Int} (hz : FourDigits z) (hfirst : first ≤ z) (hlast : z ≤ last)
    (attendances : List ClockedIn) :
    ((workedSecByDate now (attendances.filter (⟨organizationId, givenUser userId,
      (first * 86400000, last * 86400000 + 86399999)⟩ : AttendanceWhere).matches)).lookup (dayText z)).getD 0 =
      workedOn now organizationId userId attendances z := by
  rw [workedSecByDate, lookup_sums, List.filter_filter]
  unfold workedOn attendanceOn
  refine congrArg (fun found => addUp (List.map (workedSec now) found)) (List.filter_congr fun att _ => ?_)
  rw [Bool.eq_iff_iff]
  simp only [AttendanceWhere.matches, Bool.and_eq_true, decide_eq_true_eq, dateKey_eq_iff att.valid hz]
  constructor
  · rintro ⟨hday, hwho, -⟩
    exact ⟨hwho, hday⟩
  · rintro ⟨hwho, hday⟩
    exact ⟨hday, hwho, by omega, by omega⟩

theorem lookup_activeSecByDate {first last z : Int} (hz : FourDigits z) (hfirst : first ≤ z) (hlast : z ≤ last)
    (events : List ActivityEvent) :
    ((activeSecByDate (events.filter (⟨organizationId, givenUser userId,
      some (first * 86400000, last * 86400000 + 86399999)⟩ : Where).matches)).lookup (dayText z)).getD 0 =
      activeOn organizationId userId events z := by
  rw [activeSecByDate, lookup_sums, List.filter_filter]
  unfold activeOn eventsOn
  refine congrArg (fun found => addUp (List.map (fun ev : ActivityEvent => (ev.durationSec : ℚ)) found))
    (List.filter_congr fun ev _ => ?_)
  rw [Bool.eq_iff_iff]
  simp only [Where.matches, Option.all_some, Bool.and_eq_true, decide_eq_true_eq, dateKey_eq_iff ev.valid hz]
  constructor
  · rintro ⟨hday, hwho, -⟩
    exact ⟨hwho, hday⟩
  · rintro ⟨hwho, hday⟩
    exact ⟨hday, hwho, by omega, by omega⟩

/-- **The rows are those of the days in turn**, each made of what lies on its day alone. -/
theorem getProductivity_eq (db : Tables) (first last : CalendarDay) :
    getProductivity db now userId organizationId first last =
      db.attendance.bind fun attendances => db.activityEvents.map fun events =>
        (daysFrom first.day last.day).map fun z => rowOf (dayText z)
          (workedOn now organizationId userId attendances z) (activeOn organizationId userId events z) := by
  have hdigits : ∀ z, first.day ≤ z → z ≤ last.day → FourDigits z := by
    intro z hz hz'
    have hfirst := first.fourDigits
    have hlast := last.fourDigits
    unfold FourDigits at hfirst hlast ⊢
    omega
  unfold getProductivity Tables.findAttendance Db.find
  cases db.attendance with
  | none => rfl
  | some attendances =>
      cases db.activityEvents with
      | none => rfl
      | some events =>
          apply congrArg some
          rw [datesUpTo_eq hdigits, List.map_map]
          apply List.map_congr_left
          intro z hz
          obtain ⟨hfirst, hlast⟩ := mem_daysFrom.mp hz
          have hday := hdigits z hfirst hlast
          simp only [Function.comp_apply, dailyProductivity, lookup_workedSecByDate hday hfirst hlast,
            lookup_activeSecByDate hday hfirst hlast]

end

/-! ## What a row satisfies -/

theorem mathRound_mono {q r : ℚ} (h : q ≤ r) : mathRound q ≤ mathRound r :=
  Int.floor_mono (by linarith)

theorem abs_mathRound_sub_le (q : ℚ) : |(mathRound q : ℚ) - q| ≤ 1 / 2 := by
  have hlow := Int.floor_le (q + 1 / 2)
  have hhigh := Int.lt_floor_add_one (q + 1 / 2)
  rw [mathRound, abs_le]
  constructor <;> linarith

theorem mathRound_intCast (n : Int) : mathRound n = n := by
  rw [mathRound, Int.floor_intCast_add, show ⌊(1 / 2 : ℚ)⌋ = 0 by norm_num, add_zero]

theorem Held.min {q r : ℚ} (hq : Held q) (hr : Held r) : Held (min q r) := by
  obtain h | h := min_choice q r <;> rw [h] <;> assumption

section
variable {date : String} {worked active : ℚ} (hworked : Held worked) (hactive : Held active)

include hworked hactive

theorem rowOf_score : 0 ≤ (rowOf date worked active).score ∧ (rowOf date worked active).score ≤ 100 := by
  unfold rowOf
  dsimp only
  split_ifs with hpos
  · have hmin := hactive.min hworked
    have hpart : 0 ≤ min active worked / worked := div_nonneg hmin.nonneg hworked.nonneg
    have hrounded := held_double hpart
    have hpercent : 0 ≤ double (double (min active worked / worked) * 100) :=
      (held_double (mul_nonneg hrounded.nonneg (by norm_num))).nonneg
    refine ⟨le_min (by decide) ?_, min_le_left _ _⟩
    have hround := mathRound_mono hpercent
    rwa [show mathRound 0 = 0 from mathRound_intCast 0] at hround
  · exact ⟨le_rfl, by decide⟩

theorem rowOf_activeMins_le : (rowOf date worked active).activeMins ≤ (rowOf date worked active).workedMins := by
  have hmin := hactive.min hworked
  apply mathRound_mono
  exact double_mono (div_nonneg hmin.nonneg (by norm_num)) (div_le_div_of_nonneg_right (min_le_right _ _) (by norm_num))

/-- **The minutes active and idle against those worked.** Three roundings to minutes and four to 53 bits lie between. -/
theorem workedMins_near : |((rowOf date worked active).workedMins - (rowOf date worked active).activeMins -
    (rowOf date worked active).idleMins : ℚ)| ≤ 3 / 2 + worked / 20 / 2 ^ 53 := by
  have hmin := hactive.min hworked
  have hle := min_le_right active worked
  unfold rowOf
  dsimp only
  generalize min active worked = part at hmin hle
  have hrest : 0 ≤ worked - part := by linarith
  -- what is idle is at most what was worked, also after it was rounded
  have hidle := held_double hrest
  have hidle_le : double (worked - part) ≤ worked := double_le hrest hworked (by linarith [hmin.nonneg])
  rw [max_eq_right hidle.nonneg]
  have herror : ∀ q : ℚ, 0 ≤ q → -(q / 2 ^ 53) ≤ double q - q ∧ double q - q ≤ q / 2 ^ 53 := by
    intro q hq
    have habs := abs_double_sub_le q
    rw [abs_of_nonneg hq] at habs
    exact abs_le.mp habs
  have h1 := herror (worked / 60) (div_nonneg hworked.nonneg (by norm_num))
  have h2 := herror (part / 60) (div_nonneg hmin.nonneg (by norm_num))
  have h3 := herror (worked - part) hrest
  have h4 := herror (double (worked - part) / 60) (div_nonneg hidle.nonneg (by norm_num))
  have r1 := abs_le.mp (abs_mathRound_sub_le (double (worked / 60)))
  have r2 := abs_le.mp (abs_mathRound_sub_le (double (part / 60)))
  have r3 := abs_le.mp (abs_mathRound_sub_le (double (double (worked - part) / 60)))
  rw [abs_le]
  constructor <;> linarith

/-- Below two to the 56 seconds the roundings to 53 bits make no difference of a minute. -/
theorem workedMins_near_one (h : worked < 2 ^ 56) : |(rowOf date worked active).workedMins -
    (rowOf date worked active).activeMins - (rowOf date worked active).idleMins| ≤ 1 := by
  have hnear := @workedMins_near date worked active hworked hactive
  have hlt : worked / 20 / 2 ^ 53 < 1 / 2 := by
    rw [div_div, div_lt_iff₀ (by norm_num)]
    linarith
  have hcast : ((|(rowOf date worked active).workedMins - (rowOf date worked active).activeMins -
      (rowOf date worked active).idleMins| : Int) : ℚ) < (2 : Int) := by
    push_cast
    linarith
  exact Int.lt_add_one_iff.mp (Int.cast_lt.mp hcast)

end

/-- What holds of the row of a day on which so many seconds were worked. -/
structure DailyProductivity.Sound (worked : ℚ) (row : DailyProductivity) : Prop where
  score : 0 ≤ row.score ∧ row.score ≤ 100
  active_le : row.activeMins ≤ row.workedMins
  near : worked < 2 ^ 56 → |row.workedMins - row.activeMins - row.idleMins| ≤ 1

theorem sound_rowOf {date : String} {worked active : ℚ} (hworked : Held worked) (hactive : Held active) :
    (rowOf date worked active).Sound worked :=
  ⟨rowOf_score hworked hactive, rowOf_activeMins_le hworked hactive, workedMins_near_one hworked hactive⟩

theorem held_workedOn (now : Int) (organizationId : String) (userId : Option String) (attendances : List ClockedIn)
    (z : Int) : Held (workedOn now organizationId userId attendances z) := by
  apply held_addUp
  intro q hq
  obtain ⟨att, -, rfl⟩ := List.mem_map.mp hq
  exact le_max_left _ _

/-- Fewer than two to the 13 attendances of a day, in the time that a `Date` can hold, come to less than two to the 56
seconds. -/
theorem workedOn_lt {now : Int} {organizationId : String} {userId : Option String} {attendances : List ClockedIn}
    {z : Int} (hz : FourDigits z) (hvalid : ∀ att ∈ attendances, ValidTime (att.clockOut.getD now))
    (hfew : (attendanceOn organizationId userId z attendances).length < 2 ^ 13) :
    workedOn now organizationId userId attendances z < 2 ^ 56 := by
  have hbound : ∀ q ∈ (attendanceOn organizationId userId z attendances).map (workedSec now), 0 ≤ q ∧ q ≤ 2 ^ 43 := by
    intro q hq
    obtain ⟨att, hatt, rfl⟩ := List.mem_map.mp hq
    obtain ⟨hmem, hmatches⟩ := List.mem_filter.mp hatt
    have hend := hvalid att hmem
    simp only [AttendanceWhere.matches, Bool.and_eq_true, decide_eq_true_eq] at hmatches
    unfold ValidTime at hend
    unfold FourDigits at hz
    refine ⟨le_max_left _ _, max_le (by positivity) ?_⟩
    have hms : ((att.clockOut.getD now - att.clockIn : Int) : ℚ) ≤ (8702167219200000 : Int) :=
      Int.cast_le.mpr (by omega)
    have hlow : ((-17280000000000000 : Int) : ℚ) ≤ (att.clockOut.getD now - att.clockIn : Int) :=
      Int.cast_le.mpr (by have hin := att.valid.2; omega)
    generalize ((att.clockOut.getD now - att.clockIn : Int) : ℚ) = ms at hms hlow
    push_cast at hms hlow
    have habs : |ms| ≤ 2 ^ 54 := abs_le.mpr ⟨by linarith, by linarith⟩
    have h1 := abs_le.mp (abs_double_sub_le ms)
    have hquot : |double ms / 1000| ≤ 2 ^ 54 := abs_le.mpr ⟨by linarith, by linarith⟩
    have h2 := abs_le.mp (abs_double_sub_le (double ms / 1000))
    linarith
  have hle := addUp_le hbound (by rw [List.length_map]; omega)
  rw [List.length_map] at hle
  have hlength : ((attendanceOn organizationId userId z attendances).length : ℚ) ≤ 2 ^ 13 - 1 := by
    have hcast : ((attendanceOn organizationId userId z attendances).length : ℚ) ≤ ((2 ^ 13 - 1 : Nat) : ℚ) :=
      Nat.cast_le.mpr (by omega)
    norm_num at hcast ⊢
    exact hcast
  unfold workedOn
  linarith

theorem held_activeOn {events : List ActivityEvent} (h : ∀ ev ∈ events, 0 ≤ ev.durationSec) (organizationId : String)
    (userId : Option String) (z : Int) : Held (activeOn organizationId userId events z) := by
  apply held_addUp
  intro q hq
  obtain ⟨ev, hev, rfl⟩ := List.mem_map.mp hq
  exact Int.cast_nonneg (h ev (List.mem_of_mem_filter hev))

/-- **Productivity by day.** The rows of two ranges one after the other are those of the whole range. There is one row
for each day, in order, with a score from 0 to 100 and no more minutes active than worked; and where less than two to
the 56 seconds were worked, the minutes active and idle are those worked but for one at most. -/
theorem getProductivity_rows (now : Int) (userId : Option String) (organizationId : String)
    (users : String → Option UserName) (attendances : List ClockedIn) (events : List ActivityEvent)
    (hdurations : ∀ ev ∈ events, 0 ≤ ev.durationSec) {first mid next last : CalendarDay} (hmid : first.day ≤ mid.day)
    (hnext : next.day = mid.day + 1) (hlast : next.day ≤ last.day) :
    ∃ rows before after,
      getProductivity ⟨⟨some events, users⟩, some attendances⟩ now userId organizationId first last = some rows ∧
      getProductivity ⟨⟨some events, users⟩, some attendances⟩ now userId organizationId first mid = some before ∧
      getProductivity ⟨⟨some events, users⟩, some attendances⟩ now userId organizationId next last = some after ∧
      rows = before ++ after ∧
      List.Forall₂ (fun z row => row.date = dayText z ∧
        row.Sound (workedOn now organizationId userId attendances z)) (daysFrom first.day last.day) rows := by
  refine ⟨_, _, _, getProductivity_eq _ _ _, getProductivity_eq _ _ _, getProductivity_eq _ _ _, ?_, ?_⟩
  · rw [← List.map_append, hnext, ← daysFrom_append (by omega) (by omega)]
  · rw [List.forall₂_map_right_iff]
    exact List.forall₂_same.mpr fun z _ => ⟨rfl, sound_rowOf (held_workedOn _ _ _ _ _) (held_activeOn hdurations _ _ _)⟩

section Runs

/-- The first two days of 1970. -/
def january1 : CalendarDay := ⟨0, by decide⟩

def january2 : CalendarDay := ⟨1, by decide⟩

/-- An hour worked, and half an hour of activity. -/
def hour : ClockedIn := ⟨⟨1, "u", "o", 0, some 3600000, none, none, none⟩, by decide⟩

def halfHour : ActivityEvent := ⟨"u", "o", "code", 0, 1800, by decide⟩

theorem getProductivity_rows_hour : ∃ rows before after,
    getProductivity ⟨⟨some [halfHour], fun _ => none⟩, some [hour]⟩ 0 (some "u") "o" january1 january2 = some rows ∧
    getProductivity ⟨⟨some [halfHour], fun _ => none⟩, some [hour]⟩ 0 (some "u") "o" january1 january1 = some before ∧
    getProductivity ⟨⟨some [halfHour], fun _ => none⟩, some [hour]⟩ 0 (some "u") "o" january2 january2 = some after ∧
    rows = before ++ after ∧
    List.Forall₂ (fun z row => row.date = dayText z ∧ row.Sound (workedOn 0 "o" (some "u") [hour] z))
      (daysFrom january1.day january2.day) rows :=
  getProductivity_rows 0 (some "u") "o" (fun _ => none) [hour] [halfHour] (by decide) (by decide) (by decide)
    (by decide)

/-- An attendance of two to the 42 seconds, from the beginning of 1970 on. -/
def ages : ClockedIn := ⟨⟨1, "u", "o", 0, some (2 ^ 42 * 1000), none, none, none⟩, by decide⟩

/-- A minute and a half. -/
def ninety : ActivityEvent := ⟨"u", "o", "code", 0, 90, by decide⟩

theorem workedSec_ages (now : Int) : workedSec now ages = 2 ^ 42 := by
  have hms := held_mul_two_pow (m := 1000) (by decide) 42
  have hsec := held_mul_two_pow (m := 1) (by decide) 42
  have hcast : ((2 ^ 42 * 1000 - 0 : Int) : ℚ) = (1000 : Int) * 2 ^ 42 := by norm_num
  have hdiv : ((1000 : Int) * 2 ^ 42 / 1000 : ℚ) = (1 : Int) * 2 ^ 42 := by norm_num
  show max 0 (double (double ((2 ^ 42 * 1000 - 0 : Int) : ℚ) / 1000)) = 2 ^ 42
  rw [hcast, hms.double_eq, hdiv, hsec.double_eq, max_eq_right hsec.nonneg]
  norm_num

theorem addUp_replicate (e : Nat) {n : Nat} (h : n ≤ 2 ^ 53) : addUp (List.replicate n (2 ^ e)) = n * 2 ^ e := by
  induction n with
  | zero => simp [addUp]
  | succ n ih =>
      have hheld : Held (((n + 1 : Nat) : Int) * 2 ^ e) := held_mul_two_pow (by omega) e
      rw [List.replicate_succ', addUp, List.foldl_append]
      show double (addUp (List.replicate n (2 ^ e)) + 2 ^ e) = _
      rw [ih (by omega), ← add_one_mul]
      exact_mod_cast hheld.double_eq

theorem double_eq_of_near {q : ℚ} {e n : Int} (hlow : 2 ^ e ≤ q) (hhigh : q < 2 ^ (e + 1))
    (h : |q / 2 ^ (e - 52) - n| < 1 / 2) : double q = n * 2 ^ (e - 52) := by
  rw [double_eq_roundBits]
  exact roundBits_eq_of_near hlow hhigh (by exact_mod_cast h)

/-- Two to the 59 seconds in minutes, and less 64 seconds: the nearest of the numbers of 53 bits is the same. -/
theorem double_ages : double (2 ^ 59 / 60) = 9607679205057058 := by
  rw [double_eq_of_near (e := 53) (n := 4803839602528529)] <;> norm_num [abs_lt]

theorem double_ages_idle : double ((2 ^ 59 - 64) / 60) = 9607679205057058 := by
  rw [double_eq_of_near (e := 53) (n := 4803839602528529)] <;> norm_num [abs_lt]

/-- Of what is idle the multiple of 64 seconds that is nearest. -/
theorem double_idle : double (2 ^ 59 - 90) = 2 ^ 59 - 64 := by
  rw [double_eq_of_near (e := 58) (n := 9007199254740991)] <;> norm_num [abs_lt]

theorem double_ninety : double (90 / 60) = 3 / 2 := by
  rw [double_eq_of_near (e := 0) (n := 6755399441055744)] <;> norm_num [abs_lt]

/-- The row of two to the 59 seconds, of which ninety were active. -/
theorem rowOf_ages (date : String) : (rowOf date (2 ^ 59) 90).workedMins = 9607679205057058 ∧
    (rowOf date (2 ^ 59) 90).activeMins = 2 ∧ (rowOf date (2 ^ 59) 90).idleMins = 9607679205057058 := by
  have hmin : min (90 : ℚ) (2 ^ 59) = 90 := min_eq_left (by norm_num)
  have hround : mathRound 9607679205057058 = 9607679205057058 := mathRound_intCast 9607679205057058
  unfold rowOf
  dsimp only
  rw [hmin, double_idle, max_eq_right (by norm_num), double_ages, double_ages_idle, double_ninety, hround]
  refine ⟨rfl, ?_, rfl⟩
  norm_num [mathRound]

/-- **The minutes active and idle are two more than those worked** with two to the 59 seconds worked on a day. -/
theorem not_getProductivity_rows : ¬ ∀ (now : Int) (userId : Option String) (organizationId : String)
    (users : String → Option UserName) (attendances : List ClockedIn) (events : List ActivityEvent),
    (∀ ev ∈ events, 0 ≤ ev.durationSec) → ∀ first last : CalendarDay, first.day < last.day → ∀ rows,
      getProductivity ⟨⟨some events, users⟩, some attendances⟩ now userId organizationId first last = some rows →
      ∀ row ∈ rows, |row.workedMins - row.activeMins - row.idleMins| ≤ 1 := by
  intro h
  have hworked : workedOn 0 "o" (some "u") (List.replicate (2 ^ 17) ages) 0 = 2 ^ 59 := by
    rw [workedOn, attendanceOn, List.filter_replicate_of_pos (by decide +kernel), List.map_replicate, workedSec_ages,
      addUp_replicate 42 (by omega)]
    norm_num
  have hactive : activeOn "o" (some "u") [ninety] 0 = 90 := by
    have hfound : eventsOn "o" (some "u") 0 [ninety] = [ninety] := by decide +kernel
    have hheld := held_mul_two_pow (m := 90) (by decide) 0
    rw [activeOn, hfound]
    show double (0 + (90 : Int)) = 90
    rw [zero_add, ← mul_one ((90 : Int) : ℚ), ← pow_zero 2, hheld.double_eq]
    norm_num
  have hday : (0 : Int) ∈ daysFrom january1.day january2.day := by decide
  have hrow := h 0 (some "u") "o" (fun _ => none) (List.replicate (2 ^ 17) ages) [ninety] (by decide) january1 january2
    (by decide) _ (getProductivity_eq _ _ _) _ (List.mem_map_of_mem hday)
  rw [hworked, hactive, (rowOf_ages _).1, (rowOf_ages _).2.1, (rowOf_ages _).2.2] at hrow
  exact absurd hrow (by decide)

end Runs

end TimeChamp.Analytics
