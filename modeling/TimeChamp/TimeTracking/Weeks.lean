import TimeChamp.TimeTracking.Timesheets

/-!
# One week for each entry

Which of a user's consecutive weekly timesheets count a time entry. Both ends of a week's range are included, and the
upper one is computed in the server's time zone from a start in UTC.

* `weekEntries` : the entries whose minutes submitting a week sums (`submitTimesheet_total`);
* `weekEnd_eq` : the range of a week ends at the start of the next, earlier by what the clocks are set forward on the way;
* `between_week` : only the week of an instant and the one before may have it in their ranges;
* `countedOnce_iff` : **an entry is counted once exactly if its own week's range has it and the one before's not**.
-/

namespace TimeChamp.TimeTracking
open Lib

section
variable (zone : Zone) (userId organizationId : String) (weekStart : Int) (db : Sheets)

/-- The entries of the week, as the request finds them. -/
def weekEntries : List TimeEntry :=
  db.timeEntries.rows.filter fun e =>
    e.userId == userId && e.organizationId == organizationId &&
      between (newDate weekStart) (weekEnd zone weekStart) e.startedAt

/-- The user has no timesheet of the week, or one that may be submitted again. -/
def Submittable : Prop :=
  ∀ s ∈ db.timesheets.rows, s.userId = userId → s.weekStart = weekStart →
    s.organizationId = organizationId ∧ s.status ≠ .approved ∧ s.status ≠ .submitted

end

/-! ## The total of a week -/

section
variable {zone : Zone} {saves : Saves} {ch : Choice} {userId organizationId : String} {weekStart : Int} {db : Sheets}

/-- The sheet of the week that the request loads. -/
def sheetOf (userId organizationId : String) (weekStart : Int) (db : Sheets) : Option Timesheet :=
  db.timesheets.rows.find? fun s =>
    s.userId == userId && s.organizationId == organizationId && s.weekStart == weekStart

theorem run_findByWeek {α : Type} (hch : ch.fails = false) (f : Except String (Option Timesheet) → SheetRequest α) :
    (SheetRequest.findByWeek userId organizationId weekStart >>= f).run (execSheet saves ch) db =
      (f (.ok (sheetOf userId organizationId weekStart db))).run (execSheet saves ch) db := by
  apply Prog.run_op _
  rw [execSheet, ch.answer_ok hch]
  rfl

theorem run_findEntries {α : Type} (hch : ch.fails = false)
    (f : Except String (List TimeEntry × Int) → SheetRequest α) :
    (SheetRequest.findEntries userId organizationId (newDate weekStart) (weekEnd zone weekStart) >>= f).run
        (execSheet saves ch) db =
      (f (.ok (weekEntries zone userId organizationId weekStart db, ch.now))).run (execSheet saves ch) db := by
  apply Prog.run_op _
  rw [execSheet, ch.answer_ok hch]
  rfl

theorem run_insertTimesheet (hch : ch.fails = false) {sheet : Timesheet}
    (hnew : ∀ s ∈ db.timesheets.rows, ¬(s.userId = sheet.userId ∧ s.weekStart = sheet.weekStart)) :
    (SheetRequest.insertTimesheet sheet).run (execSheet saves ch) db =
      some (.ok (Keyed.withKey db.timesheets.nextKey sheet),
        { db with timesheets := db.timesheets.insert sheet }) := by
  apply Prog.run_op _
  rw [execSheet, if_neg, ch.answer_ok hch]
  simpa using hnew

theorem run_saveTimesheet (saves : Saves) (hch : ch.fails = false) (loaded saved : Timesheet)
    (hstored : ∃ s ∈ db.timesheets.rows, s.id = saved.id) :
    ∃ db', (SheetRequest.saveTimesheet loaded saved).run (execSheet saves ch) db = some (.ok saved, db') := by
  obtain ⟨s, hs, hid⟩ := hstored
  have hsome : (db.timesheets.rows.find? fun s => s.id == saved.id).isSome = true := by
    rw [List.find?_isSome]
    exact ⟨s, hs, by simp [hid]⟩
  obtain ⟨stored, hfind⟩ := Option.isSome_iff_exists.mp hsome
  refine ⟨{ db with timesheets := db.timesheets.update (saves.row stored loaded saved) }, Prog.run_op _ ?_⟩
  rw [execSheet, hfind]
  dsimp only
  rw [ch.answer_ok hch]

/-- **Unless the database fails, submitting a week sums the minutes of its entries.** -/
theorem submitTimesheet_total (hch : ch.fails = false) (h : Submittable userId organizationId weekStart db) :
    ∃ sheet db', (submitTimesheet zone userId organizationId weekStart).run (execSheet saves ch) db =
        some (.ok sheet, db') ∧
      sheet.totalMinutes = totalMinutes (weekEntries zone userId organizationId weekStart db) := by
  rw [submitTimesheet, run_findByWeek hch]
  dsimp only
  cases hfound : sheetOf userId organizationId weekStart db with
  | none =>
      rw [Option.any_none, if_neg Bool.false_ne_true, run_findEntries hch]
      refine ⟨_, _, run_insertTimesheet hch ?_, rfl⟩
      intro s hs ⟨hu, hw⟩
      have hnot := List.find?_eq_none.mp hfound s hs
      simp [hu, hw, (h s hs hu hw).1] at hnot
  | some sheet =>
      have hmem := List.mem_of_find?_eq_some hfound
      have hweek := List.find?_some hfound
      simp only [Bool.and_eq_true, beq_iff_eq] at hweek
      obtain ⟨-, happroved, hsubmitted⟩ := h sheet hmem hweek.1.1 hweek.2
      rw [Option.any_some, if_neg (by simp [happroved, hsubmitted]), run_findEntries hch]
      obtain ⟨db', hrun⟩ := run_saveTimesheet saves hch sheet
        { sheet with
          totalMinutes := totalMinutes (weekEntries zone userId organizationId weekStart db)
          status := .submitted
          submittedAt := some ch.now }
        ⟨sheet, hmem, rfl⟩
      exact ⟨_, _, hrun, rfl⟩

end

/-! ## The ranges -/

section
variable (zone : Zone)

theorem weekEnd_eq (weekStart : Int) :
    weekEnd zone weekStart = newDate (weekStart + 7) - zone.drift (newDate weekStart) 7 := by
  rw [weekEnd, Zone.addLocalDays_eq, newDate, newDate, Int.add_mul]

/-- The week of a sequence in which an instant lies. -/
def weekOf (firstWeek t : Int) : Nat := ((t - newDate firstWeek) / (7 * msPerDay)).toNat

theorem weekOf_spec {firstWeek t : Int} (h : newDate firstWeek ≤ t) :
    newDate (firstWeek + 7 * weekOf firstWeek t) ≤ t ∧ t < newDate (firstWeek + 7 * weekOf firstWeek t + 7) := by
  unfold weekOf newDate msPerDay at *
  omega

/-- Only the week of the instant and the one before it may have it in their ranges. -/
theorem between_week {firstWeek t : Int} (h : newDate firstWeek ≤ t) (k : Nat) :
    between (newDate (firstWeek + 7 * k)) (weekEnd zone (firstWeek + 7 * k)) t = true ↔
      (k = weekOf firstWeek t ∨ k + 1 = weekOf firstWeek t) ∧ t ≤ weekEnd zone (firstWeek + 7 * k) := by
  obtain ⟨hlo, hhi⟩ := weekOf_spec h
  have hend := weekEnd_eq zone (firstWeek + 7 * k)
  have hdrift := zone.drift_bound (newDate (firstWeek + 7 * k)) 7
  rw [between, Bool.and_eq_true, decide_eq_true_eq, decide_eq_true_eq]
  unfold newDate msPerDay at *
  omega

/-! ## Counting an entry -/

/-- Exactly one of `n` consecutive weeks counts the entry. -/
def CountedOnce (db : Sheets) (e : TimeEntry) (firstWeek : Int) (n : Nat) : Prop :=
  ∃! k : Nat, k < n ∧ e ∈ weekEntries zone e.userId e.organizationId (firstWeek + 7 * k) db

/-- The clocks are not set forward over the instant at the end of its week, and it comes after the end of the range of
the week before, if there is one: after its start when the clocks did not change, later when they were set back. -/
def InOneRange (firstWeek t : Int) : Prop :=
  let week := firstWeek + 7 * weekOf firstWeek t
  t ≤ newDate (week + 7) - zone.drift (newDate week) 7 ∧
    (weekOf firstWeek t = 0 ∨ newDate week - zone.drift (newDate (week - 7)) 7 < t)

instance (firstWeek t : Int) : Decidable (InOneRange zone firstWeek t) :=
  inferInstanceAs (Decidable (_ ≤ _ ∧ (_ = 0 ∨ _ < _)))

theorem mem_weekEntries {db : Sheets} {e : TimeEntry} (he : e ∈ db.timeEntries.rows) (weekStart : Int) :
    e ∈ weekEntries zone e.userId e.organizationId weekStart db ↔
      between (newDate weekStart) (weekEnd zone weekStart) e.startedAt = true := by
  simp [weekEntries, he]

theorem inOneRange_iff (firstWeek t : Int) :
    InOneRange zone firstWeek t ↔ t ≤ weekEnd zone (firstWeek + 7 * weekOf firstWeek t) ∧
      ∀ k : Nat, k + 1 = weekOf firstWeek t → weekEnd zone (firstWeek + 7 * k) < t := by
  unfold InOneRange
  dsimp only
  rw [weekEnd_eq]
  refine and_congr_right fun _ => ?_
  constructor
  · rintro (hzero | hlt) k hk
    · omega
    · rw [weekEnd_eq, show firstWeek + 7 * (k : Int) + 7 = firstWeek + 7 * weekOf firstWeek t by omega,
        show firstWeek + 7 * (k : Int) = firstWeek + 7 * weekOf firstWeek t - 7 by omega]
      exact hlt
  · intro h
    rcases Nat.eq_zero_or_pos (weekOf firstWeek t) with hzero | hpos
    · exact Or.inl hzero
    · have hlt := h (weekOf firstWeek t - 1) (by omega)
      rw [weekEnd_eq, show firstWeek + 7 * ((weekOf firstWeek t - 1 : Nat) : Int) + 7 =
          firstWeek + 7 * weekOf firstWeek t by omega,
        show firstWeek + 7 * ((weekOf firstWeek t - 1 : Nat) : Int) = firstWeek + 7 * weekOf firstWeek t - 7 by
          omega] at hlt
      exact Or.inr hlt

/-- An instant past the end of its own week's range is not in the range of the week before. -/
theorem weekEnd_lt_of_lt {firstWeek t : Int} (h : newDate firstWeek ≤ t)
    (hpast : weekEnd zone (firstWeek + 7 * weekOf firstWeek t) < t) {k : Nat} (hk : k + 1 = weekOf firstWeek t) :
    weekEnd zone (firstWeek + 7 * k) < t := by
  obtain ⟨hlo, -⟩ := weekOf_spec h
  have hown := zone.drift_bound (newDate (firstWeek + 7 * weekOf firstWeek t)) 7
  have hbefore := zone.drift_bound (newDate (firstWeek + 7 * k)) 7
  rw [weekEnd_eq] at hpast ⊢
  unfold newDate msPerDay at *
  omega

theorem existsUnique_week_iff {firstWeek t : Int} {n : Nat} (hlo : newDate firstWeek ≤ t)
    (hhi : t < newDate (firstWeek + 7 * n)) :
    (∃! k : Nat, k < n ∧ between (newDate (firstWeek + 7 * k)) (weekEnd zone (firstWeek + 7 * k)) t = true) ↔
      InOneRange zone firstWeek t := by
  have hown : weekOf firstWeek t < n := by
    have hspec := weekOf_spec hlo
    unfold newDate msPerDay at *
    omega
  rw [inOneRange_iff]
  simp only [between_week zone hlo]
  constructor
  · rintro ⟨k, ⟨hk, hweek, hle⟩, huniq⟩
    have hin : t ≤ weekEnd zone (firstWeek + 7 * weekOf firstWeek t) := by
      by_contra hpast
      rcases hweek with rfl | hbefore
      · exact hpast hle
      · exact absurd (weekEnd_lt_of_lt zone hlo (not_le.mp hpast) hbefore) (not_lt.mpr hle)
    refine ⟨hin, fun j hj => not_le.mp fun hle' => ?_⟩
    have h1 := huniq (weekOf firstWeek t) ⟨hown, Or.inl rfl, hin⟩
    have h2 := huniq j ⟨by omega, Or.inr hj, hle'⟩
    omega
  · rintro ⟨hin, hbefore⟩
    refine ⟨weekOf firstWeek t, ⟨hown, Or.inl rfl, hin⟩, ?_⟩
    rintro j ⟨-, rfl | hj, hle⟩
    · rfl
    · exact absurd (hbefore j hj) (not_lt.mpr hle)

/-- **What submitting a week sums, and when the consecutive weeks sum an entry once.** -/
theorem countedOnce_iff {db : Sheets} {e : TimeEntry} (he : e ∈ db.timeEntries.rows) {firstWeek : Int} {n : Nat}
    (hlo : newDate firstWeek ≤ e.startedAt) (hhi : e.startedAt < newDate (firstWeek + 7 * n)) :
    (∀ saves ch weekStart, ch.fails = false → Submittable e.userId e.organizationId weekStart db →
      ∃ sheet db', (submitTimesheet zone e.userId e.organizationId weekStart).run (execSheet saves ch) db =
          some (.ok sheet, db') ∧
        sheet.totalMinutes = totalMinutes (weekEntries zone e.userId e.organizationId weekStart db)) ∧
    (CountedOnce zone db e firstWeek n ↔ InOneRange zone firstWeek e.startedAt) := by
  refine ⟨fun saves ch weekStart => submitTimesheet_total, ?_⟩
  rw [← existsUnique_week_iff zone hlo hhi, CountedOnce]
  simp only [mem_weekEntries zone he]

end

/-! ### An entry at the boundary, and one before the clocks change -/

section Boundary

/-- An hour of manual work, the only entry of its user. -/
def hourFrom (startedAt : Int) : TimeEntry := ⟨1, "u", "o", none, startedAt, some (startedAt + 3600000), .manual⟩

def onlyEntry (e : TimeEntry) : Sheets := ⟨.empty, Table.empty.insert e⟩

theorem noOffset_bounded : -msPerDay < 0 ∧ 0 < msPerDay := by decide

theorem hourOffset_bounded : -msPerDay < 3600000 ∧ 3600000 < msPerDay := by decide

def utc : Zone := Zone.fixed 0 noOffset_bounded

/-- The clocks are set forward by an hour on the third day. -/
def summerTime : Zone := Zone.change (3 * msPerDay) 0 3600000 noOffset_bounded hourOffset_bounded

/-- A minute after the start of the second week. -/
theorem countedOnce_iff_utc :
    hourFrom (newDate 7 + 60000) ∈ (onlyEntry (hourFrom (newDate 7 + 60000))).timeEntries.rows ∧
      CountedOnce utc (onlyEntry (hourFrom (newDate 7 + 60000))) (hourFrom (newDate 7 + 60000)) 0 2 :=
  ⟨by decide, (countedOnce_iff utc (by decide) (by decide) (by decide)).2.mpr (by decide)⟩

/-- An entry that starts as the second week does is counted twice, in UTC already; one that starts half an hour before it,
where the clocks are set forward during the first week, is not counted at all. -/
theorem not_countedOnce_boundary :
    (¬ ∀ (zone : Zone) (db : Sheets), ∀ e ∈ db.timeEntries.rows, ∀ (firstWeek : Int) (n : Nat),
      newDate firstWeek ≤ e.startedAt → e.startedAt < newDate (firstWeek + 7 * n) →
        CountedOnce zone db e firstWeek n) ∧
    ¬CountedOnce summerTime (onlyEntry (hourFrom (newDate 7 - 1800000))) (hourFrom (newDate 7 - 1800000)) 0 2 := by
  constructor
  · intro h
    have htwice := h utc (onlyEntry (hourFrom (newDate 7))) (hourFrom (newDate 7)) (by decide) 0 2 (by decide)
      (by decide)
    exact absurd (htwice.unique ⟨Nat.zero_lt_two, by decide⟩ ⟨Nat.one_lt_two, by decide⟩) Nat.zero_ne_one
  · rintro ⟨k, ⟨hk, hin⟩, -⟩
    have hweek : k = 0 ∨ k = 1 := by omega
    rcases hweek with rfl | rfl <;> exact absurd hin (by decide)

end Boundary

end TimeChamp.TimeTracking
