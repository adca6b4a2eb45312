import TimeChamp.TimeTracking.Service

/-!
# The clock of one user, call after call

The three operations find the open session with `clockOut: null`, a condition the ORM drops.

* `after` : the tables after a sequence of calls of one user;
* `Lawful` : clocking in succeeds without an open row, clocking out with one and on it alone, and the status is open;
* `completes` : a call to clock out comes after one to clock in;
* `lawful_iff` : **the law holds exactly until a first session was completed**.
-/

namespace TimeChamp.TimeTracking
open Lib

/-- A call of the user, with the row a find may pick and the clock. -/
inductive ClockCall where
  | clockIn (dto : ClockInDto) (pick : Nat) (now : Int)
  | clockOut (dto : ClockOutDto) (pick : Nat) (now : Int)

def ClockCall.isOut : ClockCall → Bool
  | .clockIn .. => false
  | .clockOut .. => true

section
variable (nulls : Nulls) (userId organizationId : String)

/-- A request on its own, with no call failing. -/
def alone {α : Type} (pick : Nat) (now : Int) (p : Request (Except String α)) (db : Db) : Except String α × Db :=
  (p.run (exec nulls ⟨.ok, pick, now⟩) db).getD (.error databaseError, db)

/-- The tables after a call. -/
def afterCall (db : Db) : ClockCall → Db
  | .clockIn dto pick now => (alone nulls pick now (clockIn userId organizationId dto) db).2
  | .clockOut dto pick now => (alone nulls pick now (clockOut userId organizationId dto) db).2

def after (db : Db) (calls : List ClockCall) : Db := calls.foldl (afterCall nulls userId organizationId) db

/-- What the operations should do with the tables. -/
structure Lawful (db : Db) : Prop where
  clockIn : ∀ dto pick now, (alone nulls pick now (clockIn userId organizationId dto) db).1.isOk = true ↔
    ¬∃ r ∈ db.attendance.rows, isOpen userId organizationId r = true
  clockOut : ∀ dto pick now, (alone nulls pick now (clockOut userId organizationId dto) db).1.isOk = true ↔
    ∃ r ∈ db.attendance.rows, isOpen userId organizationId r = true
  changes : ∀ dto pick now, (alone nulls pick now (TimeTracking.clockOut userId organizationId dto) db).1.isOk = true →
    ∃ r ∈ db.attendance.rows, isOpen userId organizationId r = true ∧ ∀ s : Attendance, s.id ≠ r.id →
      (s ∈ (alone nulls pick now (TimeTracking.clockOut userId organizationId dto) db).2.attendance.rows ↔
        s ∈ db.attendance.rows)
  status : ∀ pick now r, (alone nulls pick now (getStatus userId organizationId) db).1 = .ok (some r) →
    r.clockOut = none

end

/-- Somewhere in the calls a session is completed. -/
def completes : List ClockCall → Bool
  | [] => false
  | .clockIn .. :: calls => calls.any ClockCall.isOut
  | .clockOut .. :: calls => completes calls

/-! ## One row at most -/

section
variable {userId organizationId : String} {db : Db} {pick : Nat} {now : Int}

/-- The rows the condition finds when the ORM drops the null: all of the user. -/
def sessions (userId organizationId : String) (db : Db) : List Attendance :=
  db.attendance.rows.filter (Nulls.dropped.open userId organizationId)

theorem alone_findOpen {α : Type} (f : Except String (Option Attendance × Int) → Request (Except String α)) :
    alone .dropped pick now (Request.findOpen userId organizationId >>= f) db =
      alone .dropped pick now (f (.ok ((sessions userId organizationId db)[pick %
        (sessions userId organizationId db).length]?, now))) db := rfl

theorem clockIn_none (h : sessions userId organizationId db = []) (dto : ClockInDto) (pick : Nat) (now : Int) :
    ∃ record : Attendance, record.userId = userId ∧ record.organizationId = organizationId ∧ record.clockOut = none ∧
      alone .dropped pick now (clockIn userId organizationId dto) db =
        (.ok (Keyed.withKey db.attendance.nextKey record),
          { db with attendance := db.attendance.insert record }) := by
  refine ⟨⟨0, userId, organizationId, now, none, dto.locationLat, dto.locationLng, dto.note⟩, rfl, rfl, rfl, ?_⟩
  rw [clockIn, alone_findOpen, h]
  rfl

theorem clockIn_some {r : Attendance} (h : sessions userId organizationId db = [r]) (dto : ClockInDto) :
    alone .dropped pick now (clockIn userId organizationId dto) db = (.error "Already clocked in", db) := by
  rw [clockIn, alone_findOpen, h, List.length_singleton, Nat.mod_one]
  rfl

theorem clockOut_none (h : sessions userId organizationId db = []) (dto : ClockOutDto) :
    alone .dropped pick now (clockOut userId organizationId dto) db = (.error "Not clocked in", db) := by
  rw [clockOut, alone_findOpen, h]
  rfl

theorem clockOut_some {r : Attendance} (h : sessions userId organizationId db = [r]) (dto : ClockOutDto) (pick : Nat)
    (now : Int) :
    ∃ entries, alone .dropped pick now (clockOut userId organizationId dto) db =
      (.ok (closed r now dto, Keyed.withKey db.timeEntries.nextKey (entryOf userId organizationId r now)),
        ⟨db.attendance.update (closed r now dto), entries⟩) := by
  refine ⟨db.timeEntries.insert (entryOf userId organizationId r now), ?_⟩
  rw [clockOut, alone_findOpen, h, List.length_singleton, Nat.mod_one]
  rfl

theorem getStatus_eq : (alone .dropped pick now (getStatus userId organizationId) db).1 =
    .ok (sessions userId organizationId db)[pick % (sessions userId organizationId db).length]? := rfl

theorem exists_open_iff : (∃ r ∈ db.attendance.rows, isOpen userId organizationId r = true) ↔
    ∃ r ∈ sessions userId organizationId db, r.clockOut = none := by
  apply exists_congr
  intro r
  simp [sessions, isOpen, Nulls.open, and_assoc]

theorem lawful_of_none (h : sessions userId organizationId db = []) : Lawful .dropped userId organizationId db := by
  have hnone : ¬∃ r ∈ db.attendance.rows, isOpen userId organizationId r = true := by
    rw [exists_open_iff, h]
    simp
  refine ⟨fun dto pick now => ?_, fun dto pick now => ?_, fun dto pick now hok => ?_, fun pick now r hr => ?_⟩
  · obtain ⟨record, -, -, -, heq⟩ := clockIn_none h dto pick now
    rw [heq]
    exact iff_of_true rfl hnone
  · rw [clockOut_none h]
    exact iff_of_false Bool.false_ne_true hnone
  · rw [clockOut_none h] at hok
    exact nomatch hok
  · rw [getStatus_eq, h] at hr
    exact nomatch hr

theorem lawful_of_open {r : Attendance} (h : sessions userId organizationId db = [r]) (hopen : r.clockOut = none) :
    Lawful .dropped userId organizationId db := by
  have hone : ∃ r ∈ db.attendance.rows, isOpen userId organizationId r = true := by
    rw [exists_open_iff, h]
    exact ⟨r, List.mem_singleton_self r, hopen⟩
  have hmem : r ∈ db.attendance.rows ∧ Nulls.dropped.open userId organizationId r = true :=
    List.mem_filter.mp (by rw [← sessions, h]; exact List.mem_singleton_self r)
  refine ⟨fun dto pick now => ?_, fun dto pick now => ?_, fun dto pick now _ => ?_, fun pick now s hs => ?_⟩
  · rw [clockIn_some h]
    exact iff_of_false Bool.false_ne_true (not_not.mpr hone)
  · obtain ⟨entries, heq⟩ := clockOut_some h dto pick now
    rw [heq]
    exact iff_of_true rfl hone
  · obtain ⟨entries, heq⟩ := clockOut_some h dto pick now
    refine ⟨r, hmem.1, ?_, fun s hne => ?_⟩
    · rw [isOpen, hopen]
      simpa [Nulls.open] using hmem.2
    · have hkey : Keyed.key s ≠ Keyed.key (closed r now dto) := hne
      rw [heq, Table.mem_update, and_iff_left hkey]
      apply or_iff_left
      rintro ⟨rfl, -⟩
      exact hne rfl
  · rw [getStatus_eq, h, List.length_singleton, Nat.mod_one] at hs
    obtain rfl : r = s := Option.some.inj (Except.ok.inj hs)
    exact hopen

theorem not_lawful_of_closed {r : Attendance} (h : sessions userId organizationId db = [r])
    (hclosed : r.clockOut ≠ none) : ¬Lawful .dropped userId organizationId db := by
  intro hlaw
  refine hclosed (hlaw.status 0 0 r ?_)
  rw [getStatus_eq, h]
  rfl

/-! ## The calls one after the other -/

theorem sessions_update {r : Attendance} (h : sessions userId organizationId db = [r]) (dto : ClockOutDto)
    (entries : Table TimeEntry) :
    sessions userId organizationId ⟨db.attendance.update (closed r now dto), entries⟩ = [closed r now dto] := by
  have hmem : r ∈ db.attendance.rows := (List.mem_filter.mp (by
    rw [← sessions, h]
    exact List.mem_singleton_self r)).1
  have hfilter : sessions userId organizationId ⟨db.attendance.update (closed r now dto), entries⟩ =
      (sessions userId organizationId db).map fun s => if s.id = r.id then closed r now dto else s := by
    unfold sessions
    simp only [Table.update, List.filter_map]
    refine congrArg _ (List.filter_congr fun s hs => ?_)
    rw [Function.comp_apply]
    split_ifs with hid
    · obtain rfl : s = r := Table.eq_of_key _ hs hmem hid
      rfl
    · rfl
  rw [hfilter, h, List.map_singleton, if_pos rfl]

/-- A closed session is closed again and again, and nothing else ever happens. -/
theorem closed_forever (calls : List ClockCall) {r : Attendance} (h : sessions userId organizationId db = [r])
    (hclosed : r.clockOut ≠ none) :
    ∃ r', sessions userId organizationId (after .dropped userId organizationId db calls) = [r'] ∧
      r'.clockOut ≠ none := by
  induction calls generalizing db r with
  | nil => exact ⟨r, h, hclosed⟩
  | cons call calls ih =>
      rw [after, List.foldl_cons]
      cases call with
      | clockIn dto pick now =>
          rw [afterCall, clockIn_some h]
          exact ih h hclosed
      | clockOut dto pick now =>
          obtain ⟨entries, heq⟩ := clockOut_some h dto pick now
          rw [afterCall, heq]
          exact ih (sessions_update h dto entries) nofun

/-- An open session stays until a call clocks out. -/
theorem lawful_after_open (calls : List ClockCall) {r : Attendance} (h : sessions userId organizationId db = [r])
    (hopen : r.clockOut = none) :
    Lawful .dropped userId organizationId (after .dropped userId organizationId db calls) ↔
      calls.any ClockCall.isOut = false := by
  induction calls with
  | nil => exact iff_of_true (lawful_of_open h hopen) rfl
  | cons call calls ih =>
      rw [after, List.foldl_cons, List.any_cons]
      cases call with
      | clockIn dto pick now =>
          rw [afterCall, clockIn_some h]
          exact ih
      | clockOut dto pick now =>
          obtain ⟨entries, heq⟩ := clockOut_some h dto pick now
          rw [afterCall, heq]
          obtain ⟨r', hr', hclosed⟩ := closed_forever calls (sessions_update h dto entries) nofun
          exact iff_of_false (not_lawful_of_closed hr' hclosed) Bool.noConfusion

/-- **The law holds after a sequence of calls exactly if it completes no session.** -/
theorem lawful_iff (userId organizationId : String) (db : Db) (h : sessions userId organizationId db = [])
    (calls : List ClockCall) :
    Lawful .dropped userId organizationId (after .dropped userId organizationId db calls) ↔
      completes calls = false := by
  induction calls with
  | nil => exact iff_of_true (lawful_of_none h) rfl
  | cons call calls ih =>
      rw [after, List.foldl_cons]
      cases call with
      | clockIn dto pick now =>
          obtain ⟨record, hu, ho, hopen, heq⟩ := clockIn_none h dto pick now
          rw [afterCall, heq, completes]
          refine lawful_after_open calls ?_ (r := Keyed.withKey db.attendance.nextKey record) hopen
          unfold sessions at h ⊢
          simp only [Table.insert, List.filter_append, h, List.nil_append]
          apply List.filter_cons_of_pos
          simp [Nulls.open, Keyed.withKey, hu, ho]
      | clockOut dto pick now =>
          rw [afterCall, clockOut_none h, completes]
          exact ih

/-- A user who only clocks in. -/
theorem lawful_clockIn :
    Lawful .dropped "u" "o" (after .dropped "u" "o" Db.empty [.clockIn ⟨none, none, none⟩ 0 8]) :=
  (lawful_iff "u" "o" Db.empty rfl _).mpr rfl

/-- A user who clocked in and out: the row is closed, and the next clock-in fails. -/
theorem not_lawful_clockOut :
    ¬ ∀ calls : List ClockCall, Lawful .dropped "u" "o" (after .dropped "u" "o" Db.empty calls) := by
  intro h
  have hlaw := h [.clockIn ⟨none, none, none⟩ 0 8, .clockOut ⟨none⟩ 0 17]
  exact absurd ((hlaw.clockIn ⟨none, none, none⟩ 0 18).mpr (by decide +kernel)) (by decide +kernel)

end

end TimeChamp.TimeTracking
