import TimeChamp.Analytics.Service

/-!
# Reports and their range

The report and the summary are asked for a range of days, which is in the key of their cache but not in their query.

* `InRange`, `DateInRange`, `Db.within` : events and dates of a range of days, and what is left of the tables there;
* `AgreeWithin` : two databases with the same events in the range;
* `report_in_range_iff` : **a report is about its range exactly when no event it finds is out of it**;
* `reports_in_range_iff` : over any kind of events, **the report and the summary depend on the range alone exactly when
  no event of that kind that they can find is out of it**.
-/

namespace TimeChamp.Analytics
open Lib

/-- A day of the years 0 to 9999, as `YYYY-MM-DD` names it. -/
structure CalendarDay where
  day : Int
  fourDigits : FourDigits day

def CalendarDay.text (z : CalendarDay) : String := String.ofList (dateText z.day)

/-- The event started in the range. -/
def InRange (first last : CalendarDay) (e : ActivityEvent) : Prop :=
  first.day * 86400000 ≤ e.startedAt ∧ e.startedAt ≤ last.day * 86400000 + 86399999

instance (first last : CalendarDay) (e : ActivityEvent) : Decidable (InRange first last e) :=
  inferInstanceAs (Decidable (_ ∧ _))

/-- The text is that of a day in the range. -/
def DateInRange (first last : CalendarDay) (date : String) : Prop :=
  ∃ z, first.day ≤ z ∧ z ≤ last.day ∧ date = String.ofList (dateText z)

/-- The database with the events of the range alone. -/
def Db.within (first last : CalendarDay) (db : Db) : Db :=
  { db with activityEvents := db.activityEvents.map (·.filter fun e => InRange first last e) }

def AgreeWithin (first last : CalendarDay) (db db' : Db) : Prop := db.within first last = db'.within first last

/-- The events that can be queried. -/
def Db.events (db : Db) : List ActivityEvent := db.activityEvents.getD []

/-- The conditions of the report's query, and of the summary's. -/
def reportWhere (organizationId : String) (userId : Option String) : Where := ⟨organizationId, givenUser userId, none⟩

def summaryWhere (organizationId : String) : Where := ⟨organizationId, none, none⟩

variable {first last : CalendarDay} {db db' : Db} {w : Where} {organizationId : String} {userId : Option String}

/-! ## Dates -/

/-- **The date of an event is in the range exactly when its start is.** -/
theorem dateInRange_iff (e : ActivityEvent) (from_ : String) :
    DateInRange first last (dateStr (some e.startedAt) from_) ↔ InRange first last e := by
  have hfirst := first.fourDigits
  have hlast := last.fourDigits
  unfold FourDigits at hfirst hlast
  unfold InRange
  constructor
  · rintro ⟨z, hz, hz', hdate⟩
    have hday := eq_of_take_toISOString e.valid (by unfold FourDigits; omega) (String.ofList_injective hdate)
    omega
  · intro h
    refine ⟨e.startedAt / 86400000, by omega, by omega, ?_⟩
    exact congrArg String.ofList (take_toISOString (by unfold FourDigits; omega))

theorem date_of_mem_report {row : ReportRow} {from_ to_ : String}
    (h : row ∈ getProductivityReport db organizationId userId from_ to_) :
    ∃ e ∈ (db.find (reportWhere organizationId userId)).getD [], dateStr (some e.startedAt) from_ = row.date := by
  obtain ⟨entry, hentry, rfl⟩ := List.mem_map.mp ((List.mem_mergeSort).mp h)
  exact mem_keys_groupFold.mp (List.mem_map_of_mem hentry)

theorem exists_mem_report {e : ActivityEvent} (h : e ∈ (db.find (reportWhere organizationId userId)).getD [])
    (from_ to_ : String) : ∃ row ∈ getProductivityReport db organizationId userId from_ to_,
      row.date = dateStr (some e.startedAt) from_ := by
  have hdate : dateStr (some e.startedAt) from_ ∈
      (byDate ((db.find (reportWhere organizationId userId)).getD []) from_).map Prod.fst :=
    mem_keys_groupFold.mpr ⟨e, h, rfl⟩
  obtain ⟨entry, hentry, hkey⟩ := List.mem_map.mp hdate
  exact ⟨reportRow entry, List.mem_mergeSort.mpr (List.mem_map_of_mem hentry), hkey⟩

/-! ## Queries -/

theorem mem_find {e : ActivityEvent} : e ∈ (db.find w).getD [] ↔ e ∈ db.events ∧ w.matches e = true := by
  unfold Db.find Db.events
  cases db.activityEvents <;> simp

/-- A query that finds events of the range alone finds them in what is left of the database there. -/
theorem find_within (h : ∀ e ∈ db.events, w.matches e = true → InRange first last e) :
    (db.within first last).find w = db.find w := by
  unfold Db.find Db.within
  cases hevents : db.activityEvents with
  | none => rfl
  | some events =>
      have hfilter : (events.filter fun e => InRange first last e).filter w.matches = events.filter w.matches := by
        rw [List.filter_filter]
        apply List.filter_congr
        intro e he
        cases hw : w.matches e with
        | false => rfl
        | true => exact decide_eq_true (h e (by rw [Db.events, hevents]; exact he) hw)
      exact congrArg some hfilter

theorem find_eq_of_agree (h : ∀ e ∈ db.events, w.matches e = true → InRange first last e)
    (h' : ∀ e ∈ db'.events, w.matches e = true → InRange first last e) (hagree : AgreeWithin first last db db') :
    db.find w = db'.find w := by
  rw [← find_within h, hagree, find_within h']

theorem report_congr (h : db.find (reportWhere organizationId userId) = db'.find (reportWhere organizationId userId))
    (from_ to_ : String) : getProductivityReport db organizationId userId from_ to_ =
      getProductivityReport db' organizationId userId from_ to_ :=
  congrArg (fun found => ((byDate (Option.getD found []) from_).map reportRow).mergeSort fun a b =>
    localeLe a.date b.date) h

theorem summary_congr (h : db.find (summaryWhere organizationId) = db'.find (summaryWhere organizationId))
    (husers : db.users = db'.users) (from_ to_ : String) :
    getOrgProductivitySummary db organizationId from_ to_ = getOrgProductivitySummary db' organizationId from_ to_ := by
  show (byUser db ((db.find (summaryWhere organizationId)).getD [])).map summaryRow = _
  unfold byUser
  rw [h, husers]
  rfl

/-! ## Ranges -/

/-- The report is about its range: its rows are, and the events out of it make no difference. -/
structure AboutRange (first last : CalendarDay) (db : Db) (organizationId : String) (userId : Option String) :
    Prop where
  rows : ∀ row ∈ getProductivityReport db organizationId userId first.text last.text, DateInRange first last row.date
  alone : getProductivityReport db organizationId userId first.text last.text =
    getProductivityReport (db.within first last) organizationId userId first.text last.text

/-- **A report is about its range** exactly when no event that it finds started out of it. -/
theorem report_in_range_iff : AboutRange first last db organizationId userId ↔
    ∀ e ∈ db.events, (reportWhere organizationId userId).matches e = true → InRange first last e := by
  constructor
  · intro h e he hmatches
    obtain ⟨row, hrow, hdate⟩ := exists_mem_report (mem_find.mpr ⟨he, hmatches⟩) first.text last.text
    exact (dateInRange_iff e first.text).mp (hdate ▸ h.rows row hrow)
  · intro h
    constructor
    · intro row hrow
      obtain ⟨e, he, hdate⟩ := date_of_mem_report hrow
      obtain ⟨hmem, hmatches⟩ := mem_find.mp he
      rw [← hdate]
      exact (dateInRange_iff e first.text).mpr (h e hmem hmatches)
    · exact report_congr (find_within h).symm _ _

/-- On the databases with events satisfying `A`, what is computed depends on the events of the range alone. -/
def DependsOnRange {β : Type} (first last : CalendarDay) (A : ActivityEvent → Prop) (f : Db → β) : Prop :=
  ∀ db db', (∀ e ∈ db.events, A e) → (∀ e ∈ db'.events, A e) → AgreeWithin first last db db' → f db = f db'

/-- What finds an event out of the range, and shows that it found one, does not depend on the range alone. -/
theorem inRange_of_dependsOnRange {β : Type} {A : ActivityEvent → Prop} {f : Db → List β}
    (hfound : ∀ e db, e ∈ (db.find w).getD [] → f db ≠ []) (hnone : ∀ db, db.events = [] → f db = [])
    (h : DependsOnRange first last A f) {e : ActivityEvent} (he : A e) (hmatches : w.matches e = true) :
    InRange first last e := by
  apply Classical.byContradiction
  intro hout
  -- a database with the event alone agrees with one that has none
  let alone : Db := ⟨some [e], fun _ => none⟩
  let empty : Db := ⟨some [], fun _ => none⟩
  have hagree : AgreeWithin first last alone empty := by
    have hfilter : [e].filter (fun e => InRange first last e) = [] := List.filter_eq_nil_iff.mpr fun x hx => by
      rw [List.mem_singleton.mp hx, decide_eq_true_eq]
      exact hout
    exact congrArg (fun events => (⟨some events, fun _ => none⟩ : Db)) hfilter
  have heq := h alone empty (fun x hx => List.mem_singleton.mp hx ▸ he) (fun x hx => absurd hx List.not_mem_nil) hagree
  apply hfound e alone (mem_find.mpr ⟨List.mem_singleton_self e, hmatches⟩)
  rw [heq]
  exact hnone empty rfl

theorem report_ne_nil {e : ActivityEvent} (h : e ∈ (db.find (reportWhere organizationId userId)).getD [])
    (from_ to_ : String) : getProductivityReport db organizationId userId from_ to_ ≠ [] := by
  obtain ⟨row, hrow, -⟩ := exists_mem_report h from_ to_
  exact List.ne_nil_of_mem hrow

theorem find_of_events_nil (h : db.events = []) : (db.find w).getD [] = [] :=
  List.eq_nil_iff_forall_not_mem.mpr fun e he => by
    rw [mem_find, h] at he
    exact absurd he.1 List.not_mem_nil

theorem report_of_events_nil (h : db.events = []) (from_ to_ : String) :
    getProductivityReport db organizationId userId from_ to_ = [] := by
  show ((byDate ((db.find (reportWhere organizationId userId)).getD []) from_).map reportRow).mergeSort _ = []
  rw [find_of_events_nil h]
  exact List.mergeSort_nil

theorem summary_ne_nil {e : ActivityEvent} (h : e ∈ (db.find (summaryWhere organizationId)).getD [])
    (from_ to_ : String) : getOrgProductivitySummary db organizationId from_ to_ ≠ [] := by
  obtain ⟨entry, hentry, -⟩ := List.mem_map.mp (mem_keys_groupFold.mpr ⟨e, h, rfl⟩ :
    e.userId ∈ (byUser db ((db.find (summaryWhere organizationId)).getD [])).map Prod.fst)
  exact List.ne_nil_of_mem (List.mem_map_of_mem (f := summaryRow) hentry)

theorem summary_of_events_nil (h : db.events = []) (from_ to_ : String) :
    getOrgProductivitySummary db organizationId from_ to_ = [] := by
  show (byUser db ((db.find (summaryWhere organizationId)).getD [])).map summaryRow = []
  rw [find_of_events_nil h]
  rfl

/-- **What the report and the summary depend on.** A report is about its range exactly when no event that it finds
started out of it. Over any kind of events, reports depend on the range alone exactly when no event of that kind that
they find started out of it, and summaries exactly when no event of the organization did. -/
theorem reports_in_range_iff (first last : CalendarDay) (organizationId : String) (userId : Option String) :
    (∀ db : Db, AboutRange first last db organizationId userId ↔
      ∀ e ∈ db.events, (reportWhere organizationId userId).matches e = true → InRange first last e) ∧
    ∀ A : ActivityEvent → Prop,
      (DependsOnRange first last A (fun db => getProductivityReport db organizationId userId first.text last.text) ↔
        ∀ e, A e → (reportWhere organizationId userId).matches e = true → InRange first last e) ∧
      (DependsOnRange first last A (fun db => getOrgProductivitySummary db organizationId first.text last.text) ↔
        ∀ e, A e → (summaryWhere organizationId).matches e = true → InRange first last e) := by
  refine ⟨fun db => report_in_range_iff, fun A => ⟨⟨fun h e => ?_, fun h db db' hdb hdb' hagree => ?_⟩,
    ⟨fun h e => ?_, fun h db db' hdb hdb' hagree => ?_⟩⟩⟩
  · exact inRange_of_dependsOnRange (fun e db he => report_ne_nil he _ _)
      (fun db hdb => report_of_events_nil hdb _ _) h
  · exact report_congr
      (find_eq_of_agree (fun e he => h e (hdb e he)) (fun e he => h e (hdb' e he)) hagree) _ _
  · exact inRange_of_dependsOnRange (fun e db he => summary_ne_nil he _ _)
      (fun db hdb => summary_of_events_nil hdb _ _) h
  · have husers : (db.within first last).users = (db'.within first last).users := congrArg Db.users hagree
    exact summary_congr
      (find_eq_of_agree (fun e he => h e (hdb e he)) (fun e he => h e (hdb' e he)) hagree) husers _ _

section Runs

/-- An event of the first of January 2024. -/
def january : ActivityEvent := ⟨"u", "o", "code", 1704067200000, 60, by decide⟩

/-- The 29th of February 2024. -/
def february29 : CalendarDay := ⟨19782, by decide⟩

/-- Asked for the 29th of February, the report has a row for the first of January, and an event of that day makes a
difference to the report and to the summary. -/
theorem not_reports_in_range :
    (¬ ∀ (db : Db) (first last : CalendarDay) (organizationId : String) (userId : Option String),
      ∀ row ∈ getProductivityReport db organizationId userId first.text last.text, DateInRange first last row.date) ∧
    (¬ ∀ (first last : CalendarDay) (organizationId : String) (userId : Option String), DependsOnRange first last
      (fun _ => True) fun db => getProductivityReport db organizationId userId first.text last.text) ∧
    ¬ ∀ (first last : CalendarDay) (organizationId : String), DependsOnRange first last (fun _ => True) fun db =>
      getOrgProductivitySummary db organizationId first.text last.text := by
  have hout : ¬ InRange february29 february29 january := by decide
  refine ⟨fun h => ?_, fun h => ?_, fun h => ?_⟩
  · have hfound : january ∈ ((⟨some [january], fun _ => none⟩ : Db).find (reportWhere "o" none)).getD [] :=
      mem_find.mpr ⟨List.mem_singleton_self _, by decide +kernel⟩
    obtain ⟨row, hrow, hdate⟩ := exists_mem_report hfound february29.text february29.text
    exact hout ((dateInRange_iff january _).mp (hdate ▸ h _ february29 february29 "o" none row hrow))
  · exact hout (inRange_of_dependsOnRange (w := reportWhere "o" none) (fun e db he => report_ne_nil he _ _)
      (fun db hdb => report_of_events_nil hdb _ _) (h february29 february29 "o" none) trivial (by decide +kernel))
  · exact hout (inRange_of_dependsOnRange (w := summaryWhere "o") (fun e db he => summary_ne_nil he _ _)
      (fun db hdb => summary_of_events_nil hdb _ _) (h february29 february29 "o") trivial (by decide +kernel))

end Runs

end TimeChamp.Analytics
