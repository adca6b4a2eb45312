import TimeChamp.Analytics.Productivity
import TimeChamp.Lib.LocalTime

/-!
# The heatmap of productive minutes

`getProductivityHeatmap` of `modules/analytics/analytics.service.ts`: a row for each day from some weeks ago to today.
The loop goes from one local day to the next, and names the days by their UTC dates.

* `setDate` : the same local time some days later, if a `Date` can hold it;
* `heatmapLoop` : the loop; `fuel` bounds the number of its rounds, and `none` is returned if they do not suffice;
* `reported_heatmapDay` : each row has the minutes of the report for its date;
* `OnEachDate` : on each date but the last the clock is not set over midnight, and the last is left behind;
* `heatmap_eachDate_iff` : **each UTC date is returned once and in order exactly when the start is a `Date`, the years
  have four digits, and the cursor is on each date.**
-/

namespace TimeChamp.Analytics
open Lib

/-! ## The source -/

/-- `setDate(getDate() + n)`, if a `Date` can hold it. -/
def setDate (zone : Zone) (t n : Int) : Option Int :=
  if ValidTime (zone.addLocalDays t n) then some (zone.addLocalDays t n) else none

structure HeatmapDay where
  date : String
  productiveMinutes : Int
  level : Fin 5
deriving DecidableEq

/-- `reportMap.get(dateStr) ?? 0`; of two rows with one date a map has the later one. -/
def minutesOf (report : List ReportRow) (date : String) : Int :=
  ((report.reverse.find? fun r => r.date = date).map ReportRow.productiveMinutes).getD 0

def levelOf (mins : Int) : Fin 5 :=
  if mins = 0 then 0 else if mins < 60 then 1 else if mins < 120 then 2 else if mins < 240 then 3 else 4

/-- The row of the day the cursor is on. -/
def heatmapDay (report : List ReportRow) (current : Int) : HeatmapDay :=
  let mins := minutesOf report (dateKey current)
  ⟨dateKey current, mins, levelOf mins⟩

/-- The loop, from the cursor on; an `Invalid Date` is not before anything. -/
def heatmapLoop (zone : Zone) (report : List ReportRow) (to_ : Int) : Nat → Option Int → Option (List HeatmapDay)
  | 0, _ => none
  | _ + 1, none => some []
  | fuel + 1, some current =>
    if current ≤ to_ then
      (heatmapLoop zone report to_ fuel (setDate zone current 1)).map fun days => heatmapDay report current :: days
    else some []

/-- `getProductivityHeatmap`. The clock is read twice, first for today. -/
def getProductivityHeatmap (zone : Zone) (db : Db) (now now' : Int) (organizationId : String) (userId : Option String)
    (weeks : Int) (fuel : Nat) : Option (Except String (List HeatmapDay)) :=
  match setDate zone now' (-(weeks * 7)) with
  | none => some (.error "Invalid time value")
  | some from_ =>
    let report := getProductivityReport db organizationId userId (dateKey from_) (dateKey now)
    (heatmapLoop zone report now fuel (some from_)).map .ok

/-! ## What is to be returned -/

/-- The row has the productive minutes of the report for its date, and none if the report has no row for it. -/
structure Reported (report : List ReportRow) (day : HeatmapDay) : Prop where
  found : ∀ r ∈ report, r.date = day.date → day.productiveMinutes = r.productiveMinutes
  absent : (∀ r ∈ report, r.date ≠ day.date) → day.productiveMinutes = 0

/-- Each UTC date from the start date to today is returned once, in order, with the minutes of the report. -/
def EachDate (zone : Zone) (db : Db) (now now' : Int) (organizationId : String) (userId : Option String) (weeks : Int) :
    Prop :=
  ∃ from_ days fuel, setDate zone now' (-(weeks * 7)) = some from_ ∧
    getProductivityHeatmap zone db now now' organizationId userId weeks fuel = some (.ok days) ∧
    days.map HeatmapDay.date = (daysFrom (from_ / 86400000) (now / 86400000)).map dayText ∧
    ∀ day ∈ days, Reported (getProductivityReport db organizationId userId (dateKey from_) (dateKey now)) day

/-- With so many dates to come after that of the cursor `t`: until the last one, the clock is not set over midnight
(the time of day, less what the clock is set on by the next local day, is one), and the last one is left by the next
step and not before. -/
def OnEachDate (zone : Zone) (to_ : Int) : Nat → Int → Prop
  | 0, t => t ≤ to_ ∧ ∀ t' ∈ setDate zone t 1, to_ < t'
  | n + 1, t => (0 ≤ t % 86400000 - zone.drift t 1 ∧ t % 86400000 - zone.drift t 1 < 86400000) ∧
      ∃ t' ∈ setDate zone t 1, OnEachDate zone to_ n t'

/-! ## Minutes -/

theorem nodup_dates (db : Db) (organizationId : String) (userId : Option String) (from_ to_ : String) :
    ((getProductivityReport db organizationId userId from_ to_).map ReportRow.date).Nodup := by
  unfold getProductivityReport
  dsimp only
  rw [((List.mergeSort_perm _ _).map ReportRow.date).nodup_iff, List.map_map]
  exact nodup_keys _

theorem reported_of_nodup {report : List ReportRow} (h : (report.map ReportRow.date).Nodup) (current : Int) :
    Reported report (heatmapDay report current) where
  found r hr hdate := by
    show minutesOf report (dateKey current) = r.productiveMinutes
    have hfound : report.reverse.find? (fun r => r.date = dateKey current) = some r := by
      cases hfind : report.reverse.find? (fun r => r.date = dateKey current) with
      | none =>
          have hnot := List.find?_eq_none.mp hfind r (List.mem_reverse.mpr hr)
          exact absurd (decide_eq_true hdate) hnot
      | some s =>
          have hs : s.date = dateKey current := by simpa using List.find?_some hfind
          have hmem := List.mem_reverse.mp (List.mem_of_find?_eq_some hfind)
          rw [List.inj_on_of_nodup_map h hmem hr (hs.trans hdate.symm)]
    rw [minutesOf, hfound]
    rfl
  absent hnone := by
    show minutesOf report (dateKey current) = 0
    have hfind : report.reverse.find? (fun r => r.date = dateKey current) = none := by
      apply List.find?_eq_none.mpr
      intro r hr
      exact fun heq => hnone r (List.mem_reverse.mp hr) (of_decide_eq_true heq)
    rw [minutesOf, hfind]
    rfl

theorem exists_of_mem_loop {zone : Zone} {report : List ReportRow} {to_ : Int} {fuel : Nat} {cursor : Option Int}
    {days : List HeatmapDay} (h : heatmapLoop zone report to_ fuel cursor = some days) :
    ∀ day ∈ days, ∃ t, day = heatmapDay report t := by
  induction fuel generalizing cursor days with
  | zero => exact absurd h (by simp [heatmapLoop])
  | succ fuel ih =>
      cases cursor with
      | none =>
          obtain rfl := Option.some.inj h
          intro day hday
          exact absurd hday List.not_mem_nil
      | some t =>
          rw [heatmapLoop] at h
          split_ifs at h
          · obtain ⟨rest, hrest, rfl⟩ := Option.map_eq_some_iff.mp h
            intro day hday
            obtain rfl | htail := List.mem_cons.mp hday
            · exact ⟨t, rfl⟩
            · exact ih hrest day htail
          · obtain rfl := Option.some.inj h
            intro day hday
            exact absurd hday List.not_mem_nil

/-! ## Dates -/

/-- The text of a day is cut off unless its year has four digits. -/
theorem fourDigits_of_dateKey_eq {t z : Int} (h : dateKey t = dayText z) : FourDigits z := by
  rw [fourDigits_iff]
  by_contra hyear
  have hlength := congrArg List.length (String.ofList_injective h)
  have hcut : ((toISOString t).take 10).length ≤ 10 := List.length_take_le _ _
  rw [dateText, List.length_append, length_yearText, if_neg hyear, length_monthDayText] at hlength
  omega

/-- The next cursor is on the next date exactly if the clock is not set over midnight. -/
theorem setDate_next_iff {zone : Zone} {t t' : Int} (h : setDate zone t 1 = some t') :
    t' / 86400000 = t / 86400000 + 1 ↔
      0 ≤ t % 86400000 - zone.drift t 1 ∧ t % 86400000 - zone.drift t 1 < 86400000 := by
  have hnext : t' = t + 86400000 - zone.drift t 1 := by
    unfold setDate at h
    split_ifs at h
    rw [← Option.some.inj h, zone.addLocalDays_eq, msPerDay, Int.one_mul]
  omega

theorem validTime_of_setDate {zone : Zone} {t n t' : Int} (h : setDate zone t n = some t') : ValidTime t' := by
  unfold setDate at h
  split_ifs at h with hvalid
  exact Option.some.inj h ▸ hvalid

section Loop
variable {zone : Zone} {report : List ReportRow} {to_ : Int}

/-- What the loop returns from a cursor that is not after the end. -/
theorem heatmapLoop_of_le {t : Int} (h : t ≤ to_) {dates : List String} :
    (∃ fuel days, heatmapLoop zone report to_ fuel (some t) = some days ∧ days.map HeatmapDay.date = dates) ↔
      ∃ rest, dates = dateKey t :: rest ∧ ∃ fuel days,
        heatmapLoop zone report to_ fuel (setDate zone t 1) = some days ∧ days.map HeatmapDay.date = rest := by
  constructor
  · rintro ⟨fuel, days, hloop, hdates⟩
    cases fuel with
    | zero => exact absurd hloop (by simp [heatmapLoop])
    | succ fuel =>
        rw [heatmapLoop, if_pos h] at hloop
        obtain ⟨rest, hrest, rfl⟩ := Option.map_eq_some_iff.mp hloop
        exact ⟨rest.map HeatmapDay.date, hdates.symm, fuel, rest, hrest, rfl⟩
  · rintro ⟨rest, rfl, fuel, days, hloop, rfl⟩
    refine ⟨fuel + 1, heatmapDay report t :: days, ?_, rfl⟩
    rw [heatmapLoop, if_pos h, hloop, Option.map_some]

/-- And from one that is, or that is not a date. -/
theorem heatmapLoop_of_not_le {cursor : Option Int} (h : ∀ t ∈ cursor, to_ < t) {dates : List String} :
    (∃ fuel days, heatmapLoop zone report to_ fuel cursor = some days ∧ days.map HeatmapDay.date = dates) ↔
      dates = [] := by
  have hnil : ∀ fuel, heatmapLoop zone report to_ (fuel + 1) cursor = some [] := by
    intro fuel
    cases cursor with
    | none => rfl
    | some t => rw [heatmapLoop, if_neg (not_le.mpr (h t rfl))]
  constructor
  · rintro ⟨fuel, days, hloop, rfl⟩
    cases fuel with
    | zero => exact absurd hloop (by simp [heatmapLoop])
    | succ fuel =>
        rw [hnil] at hloop
        obtain rfl := Option.some.inj hloop
        rfl
  · rintro rfl
    exact ⟨1, [], hnil 0, rfl⟩

theorem dateKey_eq_dayText_iff {t z : Int} (ht : ValidTime t) (hz : FourDigits z) :
    dateKey t = dayText z ↔ t / 86400000 = z := by
  rw [dateKey_eq_iff ht hz]
  omega

/-- **On the last date** there is one row exactly if the next cursor is after the end. -/
theorem loop_last_iff {t : Int} (ht : ValidTime t) (hfour : FourDigits (t / 86400000)) :
    (∃ fuel days, heatmapLoop zone report to_ fuel (some t) = some days ∧
      days.map HeatmapDay.date = [dayText (t / 86400000)]) ↔ OnEachDate zone to_ 0 t := by
  have hday := (dateKey_eq_dayText_iff ht hfour).mpr rfl
  rw [OnEachDate]
  by_cases hle : t ≤ to_
  · rw [heatmapLoop_of_le hle, and_iff_right hle]
    constructor
    · rintro ⟨rest, hrest, fuel, days, hloop, hdates⟩ t' ht'
      by_contra hnot
      -- then there is another row
      rw [ht'] at hloop
      obtain ⟨tail, htail, -⟩ := (heatmapLoop_of_le (not_lt.mp hnot)).mp ⟨fuel, days, hloop, hdates⟩
      rw [htail] at hrest
      exact absurd hrest (by simp)
    · intro hnext
      exact ⟨[], by rw [hday], (heatmapLoop_of_not_le hnext).mpr rfl⟩
  · rw [heatmapLoop_of_not_le fun s hs => Option.some.inj hs ▸ not_le.mp hle]
    exact iff_of_false (by simp) fun h => hle h.1

/-- **On an earlier date** the next cursor has to be on the next date, and the rest of the loop to name the others. -/
theorem loop_next_iff {t : Int} (ht : ValidTime t)
    (hfour : ∀ z, t / 86400000 ≤ z → z ≤ to_ / 86400000 → FourDigits z) (hlt : t / 86400000 < to_ / 86400000) :
    (∃ fuel days, heatmapLoop zone report to_ fuel (some t) = some days ∧
        days.map HeatmapDay.date = (daysFrom (t / 86400000) (to_ / 86400000)).map dayText) ↔
      ∃ t' ∈ setDate zone t 1, t' / 86400000 = t / 86400000 + 1 ∧
        ∃ fuel days, heatmapLoop zone report to_ fuel (some t') = some days ∧
          days.map HeatmapDay.date = (daysFrom (t' / 86400000) (to_ / 86400000)).map dayText := by
  have hday := (dateKey_eq_dayText_iff ht (hfour _ le_rfl (by omega))).mpr rfl
  rw [heatmapLoop_of_le (by omega), daysFrom_cons (by omega), List.map_cons, hday]
  constructor
  · rintro ⟨rest, hrest, hloop⟩
    obtain ⟨-, rfl⟩ := List.cons.inj hrest
    -- the loop does not end here, as there is a date to come
    have hmore : ∃ t' ∈ setDate zone t 1, t' ≤ to_ := by
      by_contra hnone
      have hnil := (heatmapLoop_of_not_le fun t' ht' => lt_of_not_ge fun hle => hnone ⟨t', ht', hle⟩).mp hloop
      rw [daysFrom_cons (by omega)] at hnil
      exact absurd hnil (by simp)
    obtain ⟨t', hnext, hle⟩ := hmore
    rw [hnext] at hloop
    obtain ⟨tail, htail, -⟩ := (heatmapLoop_of_le hle).mp hloop
    rw [daysFrom_cons (by omega), List.map_cons] at htail
    have hdate : t' / 86400000 = t / 86400000 + 1 :=
      (dateKey_eq_dayText_iff (validTime_of_setDate hnext) (hfour _ (by omega) (by omega))).mp
        (List.cons.inj htail).1.symm
    refine ⟨t', hnext, hdate, ?_⟩
    rwa [hdate]
  · rintro ⟨t', hnext, hdate, hloop⟩
    refine ⟨_, rfl, ?_⟩
    rw [hnext, ← hdate]
    exact hloop

/-- **The loop** names the dates up to the last one exactly if the cursor is on each of them. -/
theorem loop_dates_iff {n : Nat} {t : Int} (ht : ValidTime t)
    (hfour : ∀ z, t / 86400000 ≤ z → z ≤ to_ / 86400000 → FourDigits z) (hn : t / 86400000 + n = to_ / 86400000) :
    (∃ fuel days, heatmapLoop zone report to_ fuel (some t) = some days ∧
      days.map HeatmapDay.date = (daysFrom (t / 86400000) (to_ / 86400000)).map dayText) ↔ OnEachDate zone to_ n t := by
  induction n generalizing t with
  | zero =>
      have hlast : t / 86400000 = to_ / 86400000 := by omega
      rw [← hlast, daysFrom_cons le_rfl, daysFrom_of_lt (by omega), List.map_singleton]
      exact loop_last_iff ht (hfour _ le_rfl (by omega))
  | succ n ih =>
      have hrest : ∀ t' ∈ setDate zone t 1, t' / 86400000 = t / 86400000 + 1 →
          ((∃ fuel days, heatmapLoop zone report to_ fuel (some t') = some days ∧
            days.map HeatmapDay.date = (daysFrom (t' / 86400000) (to_ / 86400000)).map dayText) ↔
            OnEachDate zone to_ n t') := by
        intro t' hnext hdate
        exact ih (validTime_of_setDate hnext) (fun z hz => hfour z (by omega)) (by omega)
      rw [loop_next_iff ht hfour (by omega), OnEachDate]
      constructor
      · rintro ⟨t', hnext, hdate, hloop⟩
        exact ⟨(setDate_next_iff hnext).mp hdate, t', hnext, (hrest t' hnext hdate).mp hloop⟩
      · rintro ⟨hclock, t', hnext, hon⟩
        have hdate := (setDate_next_iff hnext).mpr hclock
        exact ⟨t', hnext, hdate, (hrest t' hnext hdate).mpr hon⟩

end Loop

/-! ## When each date is returned -/

variable {zone : Zone} {db : Db} {now now' : Int} {organizationId : String} {userId : Option String} {weeks : Int}

theorem getProductivityHeatmap_of_start {from_ : Int} (h : setDate zone now' (-(weeks * 7)) = some from_) (fuel : Nat) :
    getProductivityHeatmap zone db now now' organizationId userId weeks fuel =
      (heatmapLoop zone (getProductivityReport db organizationId userId (dateKey from_) (dateKey now)) now fuel
        (some from_)).map .ok := by
  unfold getProductivityHeatmap
  rw [h]

/-- The minutes are always those of the report, so it is the dates that matter. -/
theorem eachDate_iff_dates : EachDate zone db now now' organizationId userId weeks ↔
    ∃ from_, setDate zone now' (-(weeks * 7)) = some from_ ∧ ∃ fuel days,
      heatmapLoop zone (getProductivityReport db organizationId userId (dateKey from_) (dateKey now)) now fuel
        (some from_) = some days ∧
      days.map HeatmapDay.date = (daysFrom (from_ / 86400000) (now / 86400000)).map dayText := by
  constructor
  · rintro ⟨from_, days, fuel, hfrom, hret, hdates, -⟩
    rw [getProductivityHeatmap_of_start hfrom] at hret
    obtain ⟨days', hloop, hok⟩ := Option.map_eq_some_iff.mp hret
    obtain rfl := Except.ok.inj hok
    exact ⟨from_, hfrom, fuel, days', hloop, hdates⟩
  · rintro ⟨from_, hfrom, fuel, days, hloop, hdates⟩
    refine ⟨from_, days, fuel, hfrom, ?_, hdates, ?_⟩
    · rw [getProductivityHeatmap_of_start hfrom, hloop, Option.map_some]
    · intro day hday
      obtain ⟨t, rfl⟩ := exists_of_mem_loop hloop day hday
      exact reported_of_nodup (nodup_dates db organizationId userId _ _) t

/-- **From a start that is a `Date`.** -/
theorem eachDate_of_start_iff {from_ : Int} (hfrom : setDate zone now' (-(weeks * 7)) = some from_) :
    EachDate zone db now now' organizationId userId weeks ↔ (from_ / 86400000 ≤ now / 86400000 →
      FourDigits (from_ / 86400000) ∧ FourDigits (now / 86400000) ∧
      OnEachDate zone now (now / 86400000 - from_ / 86400000).toNat from_) := by
  have hvalid := validTime_of_setDate hfrom
  rw [eachDate_iff_dates]
  simp only [hfrom, Option.some.injEq, exists_eq_left']
  by_cases hle : from_ / 86400000 ≤ now / 86400000
  · rw [forall_prop_of_true hle]
    constructor
    · rintro ⟨fuel, days, hloop, hdays⟩
      have hfour : ∀ z, from_ / 86400000 ≤ z → z ≤ now / 86400000 → FourDigits z := by
        intro z hz hz'
        have hmem : dayText z ∈ days.map HeatmapDay.date := by
          rw [hdays]
          exact List.mem_map_of_mem (mem_daysFrom.mpr ⟨hz, hz'⟩)
        obtain ⟨day, hday, hdate⟩ := List.mem_map.mp hmem
        obtain ⟨t, rfl⟩ := exists_of_mem_loop hloop day hday
        exact fourDigits_of_dateKey_eq hdate
      refine ⟨hfour _ le_rfl hle, hfour _ hle le_rfl, ?_⟩
      exact (loop_dates_iff hvalid hfour (by omega)).mp ⟨fuel, days, hloop, hdays⟩
    · rintro ⟨hfirst, hlast, hon⟩
      have hfour : ∀ z, from_ / 86400000 ≤ z → z ≤ now / 86400000 → FourDigits z := by
        intro z hz hz'
        unfold FourDigits at hfirst hlast ⊢
        omega
      exact (loop_dates_iff hvalid hfour (by omega)).mpr hon
  · rw [daysFrom_of_lt (by omega), List.map_nil, heatmapLoop_of_not_le fun t ht => Option.some.inj ht ▸ by omega]
    exact iff_of_true rfl fun h => absurd h hle

/-- **When each date is returned.** For every zone, whatever the clock says both times, every number of weeks and all
tables: each UTC date from the start date to today is returned exactly once, in order and with the productive minutes of
the report, exactly when the start is a `Date` and, unless it is after today, the first and the last year have four
digits and the cursor is on each date. -/
theorem heatmap_eachDate_iff (zone : Zone) (db : Db) (now now' : Int) (organizationId : String) (userId : Option String)
    (weeks : Int) : EachDate zone db now now' organizationId userId weeks ↔
      ∃ from_, setDate zone now' (-(weeks * 7)) = some from_ ∧ (from_ / 86400000 ≤ now / 86400000 →
        FourDigits (from_ / 86400000) ∧ FourDigits (now / 86400000) ∧
        OnEachDate zone now (now / 86400000 - from_ / 86400000).toNat from_) := by
  constructor
  · intro h
    have hstart := h
    obtain ⟨from_, -, -, hfrom, -⟩ := hstart
    exact ⟨from_, hfrom, (eachDate_of_start_iff hfrom).mp h⟩
  · rintro ⟨from_, hfrom, hcond⟩
    exact (eachDate_of_start_iff hfrom).mpr hcond

/-- In a zone that never changes its clock, from a cursor no later in its day than the end. -/
theorem onEachDate_of_steady (hzone : ∀ t, zone.drift t 1 = 0) {to_ : Int} (hto : ValidTime to_) {n : Nat} {t : Int}
    (hn : t / 86400000 + n = to_ / 86400000) (hle : t % 86400000 ≤ to_ % 86400000) (ht : ValidTime t) :
    OnEachDate zone to_ n t := by
  have hnext : zone.addLocalDays t 1 = t + 86400000 := by
    rw [zone.addLocalDays_eq, hzone, msPerDay, Int.one_mul, Int.sub_zero]
  induction n generalizing t with
  | zero =>
      refine ⟨by omega, fun t' ht' => ?_⟩
      unfold setDate at ht'
      split_ifs at ht'
      · have heq := Option.some.inj ht'
        omega
      · exact absurd ht' (by simp)
  | succ n ih =>
      unfold ValidTime at hto ht
      have hvalid : ValidTime (t + 86400000) := by
        unfold ValidTime
        omega
      refine ⟨by rw [hzone]; omega, t + 86400000, ?_, ?_⟩
      · unfold setDate
        rw [hnext, if_pos hvalid]
        rfl
      · apply ih (by omega) (by omega) hvalid
        rw [zone.addLocalDays_eq, hzone, msPerDay, Int.one_mul, Int.sub_zero]

/-- **Where the clock never changes** and both readings are the same, each date is returned. -/
theorem eachDate_of_steady (hzone : ∀ t n, zone.drift t n = 0)
    (hstart : FourDigits ((now - weeks * 7 * 86400000) / 86400000)) (hnow : FourDigits (now / 86400000)) :
    EachDate zone db now now organizationId userId weeks := by
  unfold FourDigits at hstart hnow
  have hfrom : setDate zone now (-(weeks * 7)) = some (now - weeks * 7 * 86400000) := by
    have hlocal : zone.addLocalDays now (-(weeks * 7)) = now - weeks * 7 * 86400000 := by
      rw [zone.addLocalDays_eq, hzone, msPerDay]
      omega
    unfold setDate
    rw [hlocal, if_pos]
    unfold ValidTime
    omega
  rw [eachDate_of_start_iff hfrom]
  intro hle
  refine ⟨hstart, hnow, onEachDate_of_steady (fun t => hzone t 1) ?_ (by omega) (by omega) ?_⟩
  · unfold ValidTime
    omega
  · unfold ValidTime
    omega

instance decidableOnEachDate (zone : Zone) (to_ : Int) : ∀ n t, Decidable (OnEachDate zone to_ n t)
  | 0, t => inferInstanceAs (Decidable (t ≤ to_ ∧ ∀ t' ∈ setDate zone t 1, to_ < t'))
  | n + 1, t =>
    have : ∀ t', Decidable (OnEachDate zone to_ n t') := decidableOnEachDate zone to_ n
    inferInstanceAs (Decidable ((0 ≤ t % 86400000 - zone.drift t 1 ∧ t % 86400000 - zone.drift t 1 < 86400000) ∧
      ∃ t' ∈ setDate zone t 1, OnEachDate zone to_ n t'))

/-! ## The end of March -/

theorem winter_bounds : -msPerDay < 3600000 ∧ (3600000 : Int) < msPerDay := by decide

theorem summer_bounds : -msPerDay < 7200000 ∧ (7200000 : Int) < msPerDay := by decide

/-- Central European time about the change of the 31st of March 2024. -/
def centralEurope : Zone := .change 1711846800000 3600000 7200000 winter_bounds summer_bounds

/-- **A date is returned twice.** At half past one on the third of April, local time, the heatmap of the last week
begins at half past midnight UTC, and the cursor after that of the 31st of March is half an hour before midnight. -/
theorem not_eachDate_march :
    ¬ EachDate centralEurope ⟨some [], fun _ => none⟩ 1712100600000 1712100600000 "o" none 1 := by
  have hstart : setDate centralEurope 1712100600000 (-(1 * 7)) = some 1711499400000 := by decide +kernel
  rw [eachDate_of_start_iff hstart]
  intro h
  exact absurd (h (by decide)).2.2 (by decide +kernel)

end TimeChamp.Analytics
