import TimeChamp.TimeTracking.Service

/-!
# Closed sessions are paid once

`clockOut` closes the attendance row and then saves its automatic time entry, in two calls.

* `AllPaid` : every closed row has exactly one automatic entry, with its times;
* `Settles` : a row is saved while it is still open and the answer is not lost, and the entry that follows is saved;
* `PayInv` : every closed row is paid, or one request owes its entry;
* `allPaid` : **if every clock-out settles, all closed rows are paid once no request runs**.
-/

namespace TimeChamp.TimeTracking
open Lib
open Function (update)

/-- The automatic entries that refer to an attendance row. -/
def entriesOf (db : Db) (id : Nat) : List TimeEntry :=
  db.timeEntries.rows.filter fun e => e.attendanceId == some id && e.source == .automatic

/-- The session is paid exactly once, for these times. -/
def Paid (db : Db) (id : Nat) (started ended : Int) : Prop :=
  ∃ e, entriesOf db id = [e] ∧ e.startedAt = started ∧ e.endedAt = some ended

def AllPaid (db : Db) : Prop :=
  ∀ r ∈ db.attendance.rows, ∀ t, r.clockOut = some t → Paid db r.id r.clockIn t

/-- When the action saves an attendance row, the row is open in the table and the answer is not lost, unless nothing is
saved; when it saves a time entry, that takes effect. -/
def Settles {ι : Type} (c : Running ι) (a : Act ι Choice Call) : Prop :=
  (match c.performs a with
    | some (ch, .saveAttendance row) =>
      ch.outcome == .failed ||
        ch.outcome == .ok && c.world.attendance.rows.all fun r => r.id != row.id || r.clockOut.isNone
    | some (ch, .saveTimeEntry _) => ch.outcome != .failed
    | _ => true) = true

instance {ι : Type} (c : Running ι) (a : Act ι Choice Call) : Decidable (Settles c a) :=
  inferInstanceAs (Decidable (_ = true))

/-- What a request has done: nothing to be completed, found a row, or closed a row whose entry it still owes. -/
inductive Mode where
  | free
  | found (row : Attendance) (now : Int)
  | owing (id : Nat) (started ended : Int)

def Mode.Owes (m : Mode) (id : Nat) : Prop := ∃ started ended, m = .owing id started ended

section
variable {ι : Type} [DecidableEq ι] {nulls : Nulls}

/-- A row is saved as it was found, closed; the entry owed is the next thing saved. -/
def payProtocol : Protocol Op Op.Reply Mode where
  pre m
    | .findOpen _ _ => ∀ id, ¬m.Owes id
    | .insertAttendance record => (∀ id, ¬m.Owes id) ∧ record.clockOut = none
    | .saveAttendance row => ∃ a now dto, m = .found a now ∧ row = closed a now dto
    | .saveTimeEntry entry => ∃ userId organizationId a now,
        m = .owing a.id a.clockIn now ∧ entry = entryOf userId organizationId a now
  post m op r m' :=
    match op, r with
    | .findOpen _ _, .ok (some a, now) => m' = .found a now
    | .saveAttendance _, .ok _ => ∀ a now, m = .found a now → m' = .owing a.id a.clockIn now
    | _, _ => m' = .free

theorem not_owes_free (id : Nat) : ¬Mode.free.Owes id := fun ⟨_, _, h⟩ => nomatch h

theorem not_owes_found (row : Attendance) (now : Int) (id : Nat) : ¬(Mode.found row now).Owes id :=
  fun ⟨_, _, h⟩ => nomatch h

theorem follows_clockOut (userId organizationId : String) (dto : ClockOutDto) :
    Follows payProtocol (fun m _ => ∀ id, ¬m.Owes id) .free (clockOut userId organizationId dto) := by
  refine ⟨not_owes_free, fun r m' hm' => ?_⟩
  rcases r with e | ⟨_ | row, now⟩ <;> obtain rfl := hm'
  · exact not_owes_free
  · exact not_owes_free
  · refine ⟨⟨row, now, dto, rfl, rfl⟩, fun r m' hm' => ?_⟩
    rcases r with e | attendance
    · obtain rfl := hm'
      exact not_owes_free
    · obtain rfl := hm' row now rfl
      refine ⟨⟨userId, organizationId, row, now, rfl, rfl⟩, fun r m' hm' => ?_⟩
      rcases r with e | entry <;> obtain rfl := hm' <;> exact not_owes_free

theorem follows_body_pay (call : Call) : Follows payProtocol (fun m _ => ∀ id, ¬m.Owes id) .free call.body := by
  cases call with
  | clockIn userId organizationId dto =>
      refine ⟨not_owes_free, fun r m' hm' => ?_⟩
      rcases r with e | ⟨_ | row, now⟩ <;> obtain rfl := hm'
      · exact not_owes_free
      · refine ⟨⟨not_owes_free, rfl⟩, fun r m' hm' => ?_⟩
        rcases r with e | attendance <;> obtain rfl := hm' <;> exact not_owes_free
      · exact not_owes_found row now
  | clockOut userId organizationId dto => exact (follows_clockOut userId organizationId dto).bind fun _ _ h => h
  | getStatus userId organizationId =>
      refine ⟨not_owes_free, fun r m' hm' => ?_⟩
      rcases r with e | ⟨_ | row, now⟩ <;> obtain rfl := hm'
      · exact not_owes_free
      · exact not_owes_free
      · exact not_owes_found row now

/-! ## The invariant -/

/-- An open row has no entry; a closed one is paid, or has none and exactly one request owes it. -/
def Settled (db : Db) (m : ι → Mode) (r : Attendance) : Prop :=
  match r.clockOut with
  | none => entriesOf db r.id = [] ∧ ∀ i, ¬(m i).Owes r.id
  | some t => Paid db r.id r.clockIn t ∧ (∀ i, ¬(m i).Owes r.id) ∨
      entriesOf db r.id = [] ∧ ∃ i, m i = .owing r.id r.clockIn t ∧ ∀ j, (m j).Owes r.id → j = i

structure PayInv (db : Db) (m : ι → Mode) : Prop where
  refs : ∀ e ∈ db.timeEntries.rows, ∀ id, e.attendanceId = some id → id < db.attendance.nextKey
  owed : ∀ i id, (m i).Owes id → id < db.attendance.nextKey
  found : ∀ i a now, m i = .found a now → ∃ r ∈ db.attendance.rows, r.id = a.id ∧ r.clockIn = a.clockIn
  row : ∀ r ∈ db.attendance.rows, Settled db m r

theorem update_owing {m : ι → Mode} {i : ι} {m' : Mode} {id : Nat} (h : ¬(m i).Owes id) (h' : ¬m'.Owes id) (j : ι)
    (started ended : Int) : update m i m' j = .owing id started ended ↔ m j = .owing id started ended := by
  by_cases hij : j = i
  · subst hij
    rw [Function.update_self]
    exact iff_of_false (fun heq => h' ⟨_, _, heq⟩) fun heq => h ⟨_, _, heq⟩
  · rw [Function.update_of_ne hij]

omit [DecidableEq ι] in
/-- A row stays settled if its entries and those who owe it stay. -/
theorem Settled.congr {db db' : Db} {m m' : ι → Mode} {r : Attendance} (h : Settled db m r)
    (he : entriesOf db' r.id = entriesOf db r.id)
    (hm : ∀ j started ended, m' j = .owing r.id started ended ↔ m j = .owing r.id started ended) :
    Settled db' m' r := by
  have howes : ∀ j, (m' j).Owes r.id ↔ (m j).Owes r.id := fun j =>
    exists_congr fun started => exists_congr fun ended => hm j started ended
  unfold Settled Paid at h ⊢
  cases hout : r.clockOut with
  | none => simpa only [hout, he, howes] using h
  | some t => simpa only [hout, he, howes, hm] using h

theorem PayInv.quiet {db : Db} {m : ι → Mode} (h : PayInv db m) {i : ι} {m' : Mode} (hi : ∀ id, ¬(m i).Owes id)
    (hm' : ∀ id, ¬m'.Owes id)
    (hfound : ∀ a now, m' = .found a now → ∃ r ∈ db.attendance.rows, r.id = a.id ∧ r.clockIn = a.clockIn) :
    PayInv db (update m i m') := by
  refine ⟨h.refs, fun j id hj => ?_, fun j a now hj => ?_, fun r hr => ?_⟩
  · obtain ⟨started, ended, hj⟩ := hj
    exact h.owed j id ⟨_, _, (update_owing (hi id) (hm' id) j started ended).mp hj⟩
  · by_cases hij : j = i
    · subst hij
      exact hfound a now (by rwa [Function.update_self] at hj)
    · exact h.found j a now (by rwa [Function.update_of_ne hij] at hj)
  · exact (h.row r hr).congr rfl (update_owing (hi r.id) (hm' r.id))

theorem PayInv.free {db : Db} {m : ι → Mode} (h : PayInv db m) {i : ι} (hi : ∀ id, ¬(m i).Owes id) :
    PayInv db (update m i .free) :=
  h.quiet hi not_owes_free nofun

theorem PayInv.insert {db : Db} {m : ι → Mode} (h : PayInv db m) {i : ι} (hi : ∀ id, ¬(m i).Owes id)
    {record : Attendance} (hopen : record.clockOut = none) :
    PayInv { db with attendance := db.attendance.insert record } (update m i .free) := by
  have hfree := h.free hi
  refine ⟨fun e he id hid => Nat.lt_succ_of_lt (h.refs e he id hid),
    fun j id hj => Nat.lt_succ_of_lt (hfree.owed j id hj), fun j a now hj => ?_, fun r hr => ?_⟩
  · obtain ⟨r, hr, hid⟩ := hfree.found j a now hj
    exact ⟨r, Table.mem_insert.mpr (Or.inl hr), hid⟩
  · rcases Table.mem_insert.mp hr with hr | rfl
    · exact (hfree.row r hr).congr rfl fun _ _ _ => Iff.rfl
    · have hentries : entriesOf db db.attendance.nextKey = [] := by
        apply List.filter_eq_nil_iff.mpr
        intro e he hmatch
        rw [Bool.and_eq_true, beq_iff_eq] at hmatch
        exact Nat.lt_irrefl _ (h.refs e he _ hmatch.1)
      have hnobody : ∀ j, ¬(update m i .free j).Owes db.attendance.nextKey := fun j hj =>
        Nat.lt_irrefl _ (hfree.owed j _ hj)
      unfold Settled
      rw [show (Keyed.withKey db.attendance.nextKey record).clockOut = none from hopen]
      exact ⟨hentries, hnobody⟩

theorem PayInv.close {db : Db} {m : ι → Mode} (h : PayInv db m) {i : ι} {a : Attendance} {now : Int}
    {dto : ClockOutDto} (hi : m i = .found a now) (hopen : ∀ r ∈ db.attendance.rows, r.id = a.id → r.clockOut = none) :
    PayInv { db with attendance := db.attendance.update (closed a now dto) }
      (update m i (.owing a.id a.clockIn now)) := by
  obtain ⟨r₀, hr₀, hid₀, hin₀⟩ := h.found i a now hi
  have hsettled₀ := h.row r₀ hr₀
  rw [Settled, hopen r₀ hr₀ hid₀, hid₀] at hsettled₀
  obtain ⟨hnone, hnobody⟩ := hsettled₀
  have hself : update m i (.owing a.id a.clockIn now) i = .owing a.id a.clockIn now := Function.update_self ..
  have hothers : ∀ id, id ≠ a.id → ∀ j started ended, update m i (.owing a.id a.clockIn now) j =
      .owing id started ended ↔ m j = .owing id started ended := by
    intro id hne
    apply update_owing (by rw [hi]; exact not_owes_found a now id)
    rintro ⟨started, ended, heq⟩
    exact hne (Mode.owing.inj heq).1.symm
  have honly : ∀ j, (update m i (.owing a.id a.clockIn now) j).Owes a.id → j = i := by
    intro j hj
    by_contra hij
    rw [Function.update_of_ne hij] at hj
    exact hnobody j hj
  refine ⟨h.refs, fun j id hj => ?_, fun j b t hj => ?_, fun r hr => ?_⟩
  · by_cases hid : id = a.id
    · rw [hid, ← hid₀]
      exact db.attendance.bounded r₀ hr₀
    · obtain ⟨started, ended, hj⟩ := hj
      exact h.owed j id ⟨_, _, (hothers id hid j started ended).mp hj⟩
  · by_cases hij : j = i
    · rw [hij, hself] at hj
      exact nomatch hj
    · rw [Function.update_of_ne hij] at hj
      obtain ⟨r, hr, hid, hin⟩ := h.found j b t hj
      by_cases hkey : r.id = a.id
      · obtain rfl : r = r₀ := Table.eq_of_key _ hr hr₀ (hkey.trans hid₀.symm)
        exact ⟨closed a now dto, Table.mem_update.mpr (Or.inr ⟨rfl, r, hr, hid₀⟩), hid₀.symm.trans hid,
          hin₀.symm.trans hin⟩
      · exact ⟨r, Table.mem_update.mpr (Or.inl ⟨hr, hkey⟩), hid, hin⟩
  · rcases Table.mem_update.mp hr with ⟨hr, hkey⟩ | ⟨rfl, -⟩
    · exact (h.row r hr).congr rfl (hothers r.id hkey)
    · exact Or.inr ⟨hnone, i, hself, honly⟩

theorem entriesOf_insert (db : Db) (userId organizationId : String) (a : Attendance) (now : Int) (id : Nat) :
    entriesOf { db with timeEntries := db.timeEntries.insert (entryOf userId organizationId a now) } id =
      entriesOf db id ++
        if a.id = id then [Keyed.withKey db.timeEntries.nextKey (entryOf userId organizationId a now)] else [] := by
  unfold entriesOf
  simp only [Table.insert, List.filter_append]
  congr 1
  by_cases hid : a.id = id
  · rw [if_pos hid]
    exact List.filter_cons_of_pos (by simp [Keyed.withKey, entryOf, hid])
  · rw [if_neg hid]
    exact List.filter_cons_of_neg (by simp [Keyed.withKey, entryOf, hid])

theorem PayInv.pay {db : Db} {m : ι → Mode} (h : PayInv db m) {i : ι} {a : Attendance} {now : Int}
    {userId organizationId : String} (hi : m i = .owing a.id a.clockIn now) :
    PayInv { db with timeEntries := db.timeEntries.insert (entryOf userId organizationId a now) }
      (update m i .free) := by
  have howes : (m i).Owes a.id := ⟨_, _, hi⟩
  have hothers : ∀ id, id ≠ a.id → ∀ j started ended, update m i .free j = .owing id started ended ↔
      m j = .owing id started ended := by
    intro id hne
    refine update_owing ?_ (not_owes_free id)
    rw [hi]
    rintro ⟨started, ended, heq⟩
    exact hne (Mode.owing.inj heq).1.symm
  refine ⟨fun e he id hid => ?_, fun j id hj => ?_, fun j b t hj => ?_, fun r hr => ?_⟩
  · rcases Table.mem_insert.mp he with he | rfl
    · exact h.refs e he id hid
    · obtain rfl : a.id = id := Option.some.inj hid
      exact h.owed i _ howes
  · by_cases hij : j = i
    · rw [hij, Function.update_self] at hj
      exact absurd hj (not_owes_free id)
    · exact h.owed j id (by rwa [Function.update_of_ne hij] at hj)
  · by_cases hij : j = i
    · rw [hij, Function.update_self] at hj
      exact nomatch hj
    · exact h.found j b t (by rwa [Function.update_of_ne hij] at hj)
  · by_cases hkey : r.id = a.id
    · -- the row of the session: its debt is the one paid now
      have hrow := h.row r hr
      unfold Settled at hrow ⊢
      cases hout : r.clockOut with
      | none =>
          rw [hout, hkey] at hrow
          exact absurd howes (hrow.2 i)
      | some t =>
          rw [hout, hkey] at hrow
          rcases hrow with ⟨-, hnobody⟩ | ⟨hnone, i', hi', honly⟩
          · exact absurd howes (hnobody i)
          · obtain rfl := honly i howes
            obtain ⟨-, hin, hnow⟩ := Mode.owing.inj (hi.symm.trans hi')
            refine Or.inl ⟨⟨Keyed.withKey db.timeEntries.nextKey (entryOf userId organizationId a now), ?_, hin,
              congrArg some hnow⟩, fun j hj => ?_⟩
            · rw [entriesOf_insert, hkey, hnone, if_pos rfl, List.nil_append]
            · by_cases hij : j = i
              · rw [hij, Function.update_self] at hj
                exact not_owes_free _ hj
              · rw [Function.update_of_ne hij, hkey] at hj
                exact hij (honly j hj)
    · refine (h.row r hr).congr ?_ (hothers r.id hkey)
      rw [entriesOf_insert, if_neg (Ne.symm hkey), List.append_nil]

/-! ## Every run -/

theorem payInv_step {c : Running ι} {m : ι → Mode} {i : ι} {ch : Choice} {e : Op} {k : e.Reply → Request Unit}
    {r : e.Reply} {db : Db} (hI : PayInv c.world m) (hG : Settles c (.step i ch)) (hop : c.thread i = .op e k)
    (hpre : payProtocol.pre (m i) e) (hr : exec nulls ch e c.world = some (r, db)) :
    ∃ m', payProtocol.post (m i) e r m' ∧ PayInv db (update m i m') := by
  rw [Settles, Config.performs_step hop ch] at hG
  cases e with
  | findOpen userId organizationId =>
      obtain ⟨rfl, ⟨err, rfl⟩ | ⟨now, ⟨rfl, -⟩ | ⟨a, ha, -, rfl⟩⟩⟩ := exec_findOpen hr
      · exact ⟨.free, rfl, hI.free hpre⟩
      · exact ⟨.free, rfl, hI.free hpre⟩
      · refine ⟨.found a now, rfl, hI.quiet hpre (not_owes_found a now) fun b t heq => ?_⟩
        obtain ⟨rfl, -⟩ := Mode.found.inj heq
        exact ⟨a, ha, rfl, rfl⟩
  | insertAttendance record =>
      refine ⟨.free, by cases r <;> rfl, ?_⟩
      rcases exec_insertAttendance hr with ⟨-, rfl⟩ | ⟨-, rfl⟩
      · exact hI.free hpre.1
      · exact hI.insert hpre.1 hpre.2
  | saveAttendance row =>
      obtain ⟨a, now, dto, hi, rfl⟩ := hpre
      rcases exec_saveAttendance hr with ⟨⟨err, rfl⟩, rfl⟩ | ⟨⟨hok, rfl⟩ | ⟨hlost, -⟩, rfl⟩
      · exact ⟨.free, rfl, hI.free (by rw [hi]; exact not_owes_found a now)⟩
      · refine ⟨.owing a.id a.clockIn now, fun b t hb => ?_, hI.close hi fun r hr hid => ?_⟩
        · obtain ⟨rfl, rfl⟩ := Mode.found.inj (hi.symm.trans hb)
          rfl
        · simp only [hok, beq_iff_eq, reduceCtorEq, beq_self_eq_true, Bool.or_eq_true, Bool.and_eq_true,
            List.all_eq_true, bne_iff_ne, false_or, true_and] at hG
          rcases hG r hr with hne | hopen
          · exact absurd hid hne
          · exact Option.isNone_iff_eq_none.mp hopen
      · simp [hlost] at hG
  | saveTimeEntry entry =>
      obtain ⟨userId, organizationId, a, now, hi, rfl⟩ := hpre
      rcases exec_saveTimeEntry hr with ⟨-, -, hfailed⟩ | rfl
      · simp [hfailed] at hG
      · exact ⟨.free, by cases r <;> rfl, hI.pay hi⟩

/-- **If every clock-out settles, every closed session is paid exactly once when no request is running.** -/
theorem allPaid {c : Running ι} (h : Reaches (service nulls) Settles (Config.start Db.empty) c) (hidle : c.Idle) :
    AllPaid c.world := by
  have hinv : ∃ m, PayInv c.world m ∧
      ∀ i, Follows payProtocol (fun m _ => ∀ id, ¬m.Owes id) (m i) (c.thread i) := by
    refine Reaches.inv (P := payProtocol) (F := fun m => ∀ id, ¬m.Owes id) (fun db _ m => PayInv db m) ?_ ?_ ?_ h
    · refine ⟨fun _ => .free, ⟨fun e he => ?_, fun _ id hj => absurd hj (not_owes_free id), fun i a now hm => ?_,
        fun r hr => ?_⟩, fun _ => not_owes_free⟩
      · exact absurd he List.not_mem_nil
      · cases hm
      · exact absurd hr List.not_mem_nil
    · intro c m i call w hI hfree _ hw
      obtain rfl := Option.some.inj hw
      exact ⟨.free, hI.free hfree, follows_body_pay call⟩
    · intro c m i ch e k r w hI hG hop hpre hr
      exact payInv_step hI hG hop hpre hr
  obtain ⟨m, hI, hF⟩ := hinv
  have hnobody : ∀ i id, ¬(m i).Owes id := by
    intro i
    have hi := hF i
    rwa [hidle i] at hi
  intro r hr t hout
  have hrow := hI.row r hr
  rw [Settled, hout] at hrow
  rcases hrow with ⟨hpaid, -⟩ | ⟨-, i, hi, -⟩
  · exact hpaid
  · exact absurd ⟨_, _, hi⟩ (hnobody i r.id)

/-! ### One session -/

section Session

/-- A user clocks in at 8 and out at 17; the saves of the clock-out end so. -/
def session (saves : List Outcome) : List (Act Bool Choice Call) :=
  [.call true (.clockIn "u" "o" ⟨none, none, none⟩), .step true ⟨.ok, 0, 8⟩, .step true ⟨.ok, 0, 8⟩,
    .call true (.clockOut "u" "o" ⟨none⟩), .step true ⟨.ok, 0, 17⟩] ++ saves.map fun outcome => .step true ⟨outcome, 0, 17⟩

theorem allPaid_session :
    AllPaid ((service .isNull).endOf (Config.start Db.empty) (session [.ok, .ok])).world :=
  allPaid (reaches_endOf (by decide +kernel) (by decide +kernel)) (by decide +kernel)

/-- The attendance row is saved closed, and then saving its entry fails. -/
theorem not_allPaid_entry_fails :
    ¬ ∀ (nulls : Nulls) (c : Running Bool),
      Reaches (service nulls) (fun _ _ => True) (Config.start Db.empty) c → c.Idle → AllPaid c.world := by
  intro h
  have hpaid := h .isNull _ (reaches_endOf (System.allowed_true _ _ (session [.ok, .failed])) (by decide +kernel))
    (by decide +kernel)
  obtain ⟨e, he, -⟩ := hpaid ⟨1, "u", "o", 8, some 17, none, none, none⟩ (by decide +kernel) 17 rfl
  have hnone : entriesOf ((service .isNull).endOf (Config.start Db.empty) (session [.ok, .failed])).world 1 = [] := by
    decide +kernel
  exact absurd (he.symm.trans hnone) (List.cons_ne_nil _ _)

/-- The attendance row is saved closed, and the answer is lost: the request ends there. -/
theorem not_allPaid_answer_lost :
    ¬ ∀ (nulls : Nulls) (c : Running Bool),
      Reaches (service nulls) (fun _ _ => True) (Config.start Db.empty) c → c.Idle → AllPaid c.world := by
  intro h
  have hpaid := h .isNull _ (reaches_endOf (System.allowed_true _ _ (session [.lost])) (by decide +kernel))
    (by decide +kernel)
  obtain ⟨e, he, -⟩ := hpaid ⟨1, "u", "o", 8, some 17, none, none, none⟩ (by decide +kernel) 17 rfl
  have hnone : entriesOf ((service .isNull).endOf (Config.start Db.empty) (session [.lost])).world 1 = [] := by
    decide +kernel
  exact absurd (he.symm.trans hnone) (List.cons_ne_nil _ _)

end Session

end

end TimeChamp.TimeTracking
