import TimeChamp.TimeTracking.Timesheets

/-!
# Approval is final

A review loads a timesheet, checks its status and later saves it; a rejected one may be submitted again.

* `Timesheet.Consistent` : the approval columns are set exactly on an approved sheet, the note on a rejected one;
* `Uncontested` : a sheet is saved while its status is the one loaded, or already the one saved, and no rejected sheet is
  submitted again;
* `Change` : what a request makes of the sheet it loaded; `Change.consistent`, `Change.status` : saving it uncontested;
* `approval_final` : **if every save is uncontested, the sheets stay consistent and approval is final**.
-/

namespace TimeChamp.TimeTracking
open Lib
open Function (update)

structure Timesheet.Consistent (s : Timesheet) : Prop where
  approvedBy : s.approvedBy.isSome = true ↔ s.status = .approved
  approvedAt : s.approvedAt.isSome = true ↔ s.status = .approved
  rejectionNote : s.rejectionNote.isSome = true ↔ s.status = .rejected

def Consistent (db : Sheets) : Prop := ∀ s ∈ db.timesheets.rows, s.Consistent

/-- Every approved sheet is still there, and approved. -/
def KeepsApproved (db db' : Sheets) : Prop :=
  ∀ s ∈ db.timesheets.rows, s.status = .approved → ∃ s' ∈ db'.timesheets.rows, s'.id = s.id ∧ s'.status = .approved

/-- When the action saves a sheet, that was not loaded rejected, and its stored status is the one it was loaded with or
the one it is saved with. -/
def Uncontested {ι : Type} (c : Reviewing ι) (a : Act ι Choice SheetCall) : Prop :=
  (match c.performs a with
    | some (ch, .saveTimesheet loaded saved) =>
      ch.outcome == .failed || loaded.status != .rejected &&
        c.world.timesheets.rows.all fun s => s.id != saved.id || s.status == loaded.status || s.status == saved.status
    | _ => true) = true

instance {ι : Type} (c : Reviewing ι) (a : Act ι Choice SheetCall) : Decidable (Uncontested c a) :=
  inferInstanceAs (Decidable (_ = true))

/-! ## Changing a sheet -/

/-- What a request makes of the sheet it loaded. -/
inductive Change (loaded : Timesheet) : Timesheet → Prop where
  | submit (total : Int) (now : Int) (h : loaded.status ≠ .approved ∧ loaded.status ≠ .submitted) :
      Change loaded { loaded with totalMinutes := total, status := .submitted, submittedAt := some now }
  | approve (approverId : String) (now : Int) (h : loaded.status = .submitted) :
      Change loaded { loaded with status := .approved, approvedBy := some approverId, approvedAt := some now }
  | reject (note : String) (h : loaded.status = .submitted) :
      Change loaded { loaded with status := .rejected, rejectionNote := some note }

section
variable {saves : Saves} {stored loaded saved : Timesheet}

theorem column_changed {α : Type} [DecidableEq α] {stored loaded saved : α} (h : saved ≠ loaded) :
    saves.column stored loaded saved = saved := by
  cases saves with
  | changed => rw [Saves.column, if_neg h]
  | all => rfl

/-- A column that is null, stored and loaded, and that the request leaves. -/
theorem column_none {α : Type} [DecidableEq α] {stored loaded : Option α} (hs : stored = none) (hl : loaded = none) :
    saves.column stored loaded loaded = none := by
  subst hs hl
  cases saves <;> rfl

/-- A column that was loaded null, and that the request sets. -/
theorem column_some {α : Type} [DecidableEq α] {stored loaded : Option α} (hl : loaded = none) (a : α) :
    saves.column stored loaded (some a) = some a := by
  subst hl
  exact column_changed (Option.some_ne_none a)

theorem Timesheet.Consistent.approvedBy_none {s : Timesheet} (h : s.Consistent) (hs : s.status ≠ .approved) :
    s.approvedBy = none := by
  rw [← Option.not_isSome_iff_eq_none, h.approvedBy]
  exact hs

theorem Timesheet.Consistent.approvedAt_none {s : Timesheet} (h : s.Consistent) (hs : s.status ≠ .approved) :
    s.approvedAt = none := by
  rw [← Option.not_isSome_iff_eq_none, h.approvedAt]
  exact hs

theorem Timesheet.Consistent.rejectionNote_none {s : Timesheet} (h : s.Consistent) (hs : s.status ≠ .rejected) :
    s.rejectionNote = none := by
  rw [← Option.not_isSome_iff_eq_none, h.rejectionNote]
  exact hs

theorem Change.status (h : Change loaded saved) : saved.status ≠ loaded.status ∧ loaded.status ≠ .approved := by
  cases h with
  | submit total now h => exact ⟨h.2.symm, h.1⟩
  | approve approverId now h => exact ⟨by rw [h]; nofun, by rw [h]; nofun⟩
  | reject note h => exact ⟨by rw [h]; nofun, by rw [h]; nofun⟩

theorem Change.row_status (h : Change loaded saved) (saves : Saves) (stored : Timesheet) :
    (saves.row stored loaded saved).status = saved.status :=
  column_changed h.status.1

theorem isSome_iff_of_none {α : Type} {column : Option α} (h : column = none) {status status' : TimesheetStatus}
    (hs : status ≠ status') : column.isSome = true ↔ status = status' := by
  rw [h]
  exact iff_of_false Bool.false_ne_true hs

theorem isSome_iff_of_some {α : Type} {column : Option α} {a : α} (h : column = some a)
    {status status' : TimesheetStatus} (hs : status = status') : column.isSome = true ↔ status = status' := by
  rw [h]
  exact iff_of_true rfl hs

/-- **Saving an uncontested change** of a consistent sheet. -/
theorem Change.consistent (h : Change loaded saved) (hl : loaded.Consistent) (hs : stored.Consistent)
    (hfirst : loaded.status ≠ .rejected) (hstatus : stored.status = loaded.status ∨ stored.status = saved.status) :
    (saves.row stored loaded saved).Consistent := by
  have hrow := h.row_status saves stored
  have hby := hl.approvedBy_none h.status.2
  have hat := hl.approvedAt_none h.status.2
  have hnote := hl.rejectionNote_none hfirst
  have happroved : saved.status ≠ .approved → stored.status ≠ .approved := by
    rcases hstatus with heq | heq <;> rw [heq]
    exacts [fun _ => h.status.2, id]
  have hrejected : saved.status ≠ .rejected → stored.status ≠ .rejected := by
    rcases hstatus with heq | heq <;> rw [heq]
    exacts [fun _ => hfirst, id]
  cases h with
  | submit total now h =>
      constructor <;> rw [hrow]
      · exact isSome_iff_of_none (column_none (hs.approvedBy_none (happroved nofun)) hby) nofun
      · exact isSome_iff_of_none (column_none (hs.approvedAt_none (happroved nofun)) hat) nofun
      · exact isSome_iff_of_none (column_none (hs.rejectionNote_none (hrejected nofun)) hnote) nofun
  | approve approverId now h =>
      constructor <;> rw [hrow]
      · exact isSome_iff_of_some (column_some hby approverId) rfl
      · exact isSome_iff_of_some (column_some hat now) rfl
      · exact isSome_iff_of_none (column_none (hs.rejectionNote_none (hrejected nofun)) hnote) nofun
  | reject note h =>
      constructor <;> rw [hrow]
      · exact isSome_iff_of_none (column_none (hs.approvedBy_none (happroved nofun)) hby) nofun
      · exact isSome_iff_of_none (column_none (hs.approvedAt_none (happroved nofun)) hat) nofun
      · exact isSome_iff_of_some (column_some hnote note) rfl

end

/-! ## Any number of requests -/

section
variable {ι : Type} [DecidableEq ι] {saves : Saves}

/-- A request inserts consistent sheets, and saves the one it loaded changed. -/
def sheetProtocol : Protocol SheetOp SheetOp.Reply (Option Timesheet) where
  pre m
    | .insertTimesheet sheet => sheet.Consistent
    | .saveTimesheet loaded saved => m = some loaded ∧ Change loaded saved
    | _ => True
  post m op r m' :=
    match op, r with
    | .findByWeek _ _ _, .ok s => m' = s
    | .findById _ _, .ok (s, _) => m' = s
    | .findEntries _ _ _ _, _ => m' = m
    | _, _ => m' = none

theorem follows_submitTimesheet (zone : Zone) (userId organizationId : String) (weekStart : Int)
    (m : Option Timesheet) :
    Follows sheetProtocol (fun _ _ => True) m (submitTimesheet zone userId organizationId weekStart) := by
  refine follows_perform_bind.mpr ⟨trivial, fun r existing hfound => ?_⟩
  rcases r with e | found
  · trivial
  · obtain rfl : existing = found := hfound
    dsimp only
    split_ifs with hdone
    · trivial
    · refine follows_perform_bind.mpr ⟨trivial, fun r m' hm' => ?_⟩
      obtain rfl : m' = existing := hm'
      rcases r with e | ⟨entries, now⟩
      · trivial
      · rcases m' with _ | sheet
        · refine ⟨⟨?_, ?_, ?_⟩, fun _ _ _ => trivial⟩ <;> exact iff_of_false Bool.false_ne_true nofun
        · refine ⟨⟨rfl, .submit _ now ?_⟩, fun _ _ _ => trivial⟩
          simpa [not_or] using hdone

theorem follows_review (organizationId : String) (timesheetId : Nat) (refusal : String)
    (change : Timesheet → Int → Timesheet) (hchange : ∀ s now, s.status = .submitted → Change s (change s now))
    (m : Option Timesheet) :
    Follows sheetProtocol (fun _ _ => True) m (review organizationId timesheetId refusal change) := by
  refine follows_perform_bind.mpr ⟨trivial, fun r m' hm' => ?_⟩
  rcases r with e | ⟨_ | sheet, now⟩
  · trivial
  · trivial
  · obtain rfl := hm'
    dsimp only
    split_ifs with hstatus
    · trivial
    · exact ⟨⟨rfl, hchange sheet now (not_not.mp hstatus)⟩, fun _ _ _ => trivial⟩

theorem follows_sheetCall (call : SheetCall) (m : Option Timesheet) :
    Follows sheetProtocol (fun _ _ => True) m call.body := by
  cases call with
  | submit zone userId organizationId weekStart =>
      exact (follows_submitTimesheet zone userId organizationId weekStart m).bind fun _ _ _ => trivial
  | approve approverId organizationId timesheetId =>
      exact (follows_review organizationId timesheetId _ _ (fun _ now h => .approve approverId now h) m).bind
        fun _ _ _ => trivial
  | reject organizationId timesheetId note =>
      exact (follows_review organizationId timesheetId _ _ (fun _ _ h => .reject note h) m).bind fun _ _ _ => trivial
  | entries timeEntries => trivial

/-- The sheets are consistent, and so are those the requests have loaded. -/
structure SheetInv (db : Sheets) (m : ι → Option Timesheet) : Prop where
  stored : Consistent db
  loaded : ∀ i s, m i = some s → s.Consistent

theorem SheetInv.act {db db' : Sheets} {m : ι → Option Timesheet} (h : SheetInv db m) (i : ι) {m' : Option Timesheet}
    (hdb : Consistent db') (hm' : ∀ s, m' = some s → s.Consistent) : SheetInv db' (update m i m') := by
  refine ⟨hdb, (Function.forall_update_iff m fun _ mode => ∀ s, mode = some s → s.Consistent).mpr ⟨hm', ?_⟩⟩
  intro j _ s hj
  exact h.loaded j s hj

omit [DecidableEq ι] in
theorem saveTimesheet_uncontested {c : Reviewing ι} {i : ι} {ch : Choice} {loaded saved stored : Timesheet}
    {k : (SheetOp.saveTimesheet loaded saved).Reply → SheetRequest Unit} (hI : Consistent c.world)
    (hl : loaded.Consistent) (hchange : Change loaded saved)
    (hG : Uncontested c (.step i ch)) (hop : c.thread i = .op (.saveTimesheet loaded saved) k)
    (hok : ch.outcome ≠ .failed) (hmem : stored ∈ c.world.timesheets.rows) (hid : stored.id = saved.id) :
    Consistent { c.world with timesheets := c.world.timesheets.update (saves.row stored loaded saved) } ∧
      KeepsApproved c.world
        { c.world with timesheets := c.world.timesheets.update (saves.row stored loaded saved) } := by
  rw [Uncontested, Config.performs_step hop ch] at hG
  simp only [hok, beq_iff_eq, false_or, Bool.and_eq_true, bne_iff_ne, List.all_eq_true, Bool.or_eq_true, beq_iff_eq] at hG
  obtain ⟨hfirst, hall⟩ := hG
  have hstatus : stored.status = loaded.status ∨ stored.status = saved.status := by
    rcases hall stored hmem with (hne | heq) | heq
    · exact absurd hid hne
    · exact Or.inl heq
    · exact Or.inr heq
  have hrow := hchange.row_status saves stored
  constructor
  · intro s hs
    rcases Table.mem_update.mp hs with ⟨hold, -⟩ | ⟨rfl, -⟩
    · exact hI s hold
    · exact hchange.consistent hl (hI stored hmem) hfirst hstatus
  · intro s hs happroved
    by_cases hkey : s.id = stored.id
    · obtain rfl : s = stored := Table.eq_of_key _ hs hmem hkey
      refine ⟨_, Table.mem_update.mpr (Or.inr ⟨rfl, s, hmem, rfl⟩), rfl, ?_⟩
      rw [hrow]
      rcases hstatus with heq | heq
      · exact absurd (heq.symm.trans happroved) hchange.status.2
      · exact heq.symm.trans happroved
    · exact ⟨s, Table.mem_update.mpr (Or.inl ⟨hs, hkey⟩), rfl, happroved⟩

theorem KeepsApproved.refl (db : Sheets) : KeepsApproved db db := fun s hs h => ⟨s, hs, rfl, h⟩

theorem sheetInv_step {c : Reviewing ι} {m : ι → Option Timesheet} {i : ι} {ch : Choice} {e : SheetOp}
    {k : e.Reply → SheetRequest Unit} {r : e.Reply} {db : Sheets} (hI : SheetInv c.world m)
    (hG : Uncontested c (.step i ch)) (hop : c.thread i = .op e k) (hpre : sheetProtocol.pre (m i) e)
    (hr : execSheet saves ch e c.world = some (r, db)) :
    (∃ m', sheetProtocol.post (m i) e r m' ∧ SheetInv db (update m i m')) ∧ KeepsApproved c.world db := by
  cases e with
  | findByWeek userId organizationId weekStart =>
      obtain ⟨rfl, hfound⟩ := execSheet_findByWeek hr
      refine ⟨?_, .refl _⟩
      rcases r with e | found
      · exact ⟨none, rfl, hI.act i hI.stored fun _ hs => nomatch hs⟩
      · exact ⟨found, rfl, hI.act i hI.stored fun s hs => hI.stored s (hfound s (by rw [hs]))⟩
  | findById id organizationId =>
      obtain ⟨rfl, hfound⟩ := execSheet_findById hr
      refine ⟨?_, .refl _⟩
      rcases r with e | ⟨found, now⟩
      · exact ⟨none, rfl, hI.act i hI.stored fun _ hs => nomatch hs⟩
      · exact ⟨found, rfl, hI.act i hI.stored fun s hs => hI.stored s (hfound s now (by rw [hs]))⟩
  | findEntries userId organizationId start stop =>
      obtain rfl := execSheet_findEntries hr
      exact ⟨⟨m i, rfl, hI.act i hI.stored (hI.loaded i)⟩, .refl _⟩
  | insertTimesheet sheet =>
      have hdone : Consistent db ∧ KeepsApproved c.world db := by
        rcases execSheet_insertTimesheet hr with rfl | rfl
        · exact ⟨hI.stored, .refl _⟩
        · refine ⟨fun s hs => ?_, fun s hs happroved => ⟨s, Table.mem_insert.mpr (Or.inl hs), rfl, happroved⟩⟩
          rcases Table.mem_insert.mp hs with hold | rfl
          · exact hI.stored s hold
          · exact ⟨hpre.approvedBy, hpre.approvedAt, hpre.rejectionNote⟩
      exact ⟨⟨none, rfl, hI.act i hdone.1 fun _ hs => nomatch hs⟩, hdone.2⟩
  | saveTimesheet loaded saved =>
      have hdone : Consistent db ∧ KeepsApproved c.world db := by
        rcases execSheet_saveTimesheet hr with rfl | ⟨hok, stored, hmem, hid, rfl⟩
        · exact ⟨hI.stored, .refl _⟩
        · exact saveTimesheet_uncontested hI.stored (hI.loaded i loaded hpre.1) hpre.2 hG hop hok hmem hid
      exact ⟨⟨none, rfl, hI.act i hdone.1 fun _ hs => nomatch hs⟩, hdone.2⟩

theorem sheetInv_reached {db : Sheets} (hdb : Consistent db) {c : Reviewing ι}
    (h : Reaches (sheetService saves) Uncontested (Config.start db) c) :
    ∃ m, SheetInv c.world m ∧ ∀ i, Follows sheetProtocol (fun _ _ => True) (m i) (c.thread i) := by
  refine Reaches.inv (P := sheetProtocol) (F := fun _ => True) (fun db _ m => SheetInv db m) ?_ ?_ ?_ h
  · exact ⟨fun _ => none, ⟨hdb, fun _ _ hs => nomatch hs⟩, fun _ => trivial⟩
  · intro c m i call w hI _ _ hw
    refine ⟨none, hI.act i ?_ (fun _ hs => nomatch hs), follows_sheetCall call none⟩
    cases call <;> obtain rfl := Option.some.inj hw <;> exact hI.stored
  · intro c m i ch e k r w hI hG hop hpre hr
    exact (sheetInv_step hI hG hop hpre hr).1

/-- **If every save is uncontested, the sheets stay consistent, and no step changes that a sheet is approved.** -/
theorem approval_final {db : Sheets} (hdb : Consistent db) {c : Reviewing ι}
    (h : Reaches (sheetService saves) Uncontested (Config.start db) c) :
    Consistent c.world ∧ ∀ a c', Uncontested c a → (sheetService saves).next c a = some c' →
      KeepsApproved c.world c'.world := by
  obtain ⟨m, hI, hF⟩ := sheetInv_reached hdb h
  refine ⟨hI.stored, fun a c' hG hn => ?_⟩
  rcases System.next_cases hn with ⟨i, call, w, rfl, -, hw, rfl⟩ | ⟨i, ch, e, k, r, w, rfl, hop, hr, rfl⟩
  · cases call <;> obtain rfl := Option.some.inj hw <;> exact .refl _
  · have hi := hF i
    rw [hop, follows_op] at hi
    exact (sheetInv_step hI hG hop hi.1 hr).2

/-! ### A sheet submitted again, and one reviewed twice -/

section Reviews

def Sheets.empty : Sheets := ⟨.empty, .empty⟩

theorem Sheets.consistent_empty : Consistent Sheets.empty := fun _ hs => nomatch hs

/-- A request of three calls, and one of two. -/
def submits (i : Bool) (now : Int) : List (Act Bool Choice SheetCall) :=
  [.call i (.submit (Zone.fixed 0 (by decide)) "u" "o" 0), .step i ⟨.ok, 0, now⟩, .step i ⟨.ok, 0, now⟩,
    .step i ⟨.ok, 0, now⟩]

def inTurn (call : SheetCall) (now : Int) : List (Act Bool Choice SheetCall) :=
  [.call true call, .step true ⟨.ok, 0, now⟩, .step true ⟨.ok, 0, now⟩]

/-- Submitted and approved. -/
theorem approval_final_in_turn :
    Consistent ((sheetService .changed).endOf (Config.start Sheets.empty)
      (submits true 8 ++ inTurn (.approve "m" "o" 1) 9)).world :=
  (approval_final Sheets.consistent_empty (reaches_endOf (by decide +kernel) (by decide +kernel))).1

/-- The sheet is submitted; an approval and a rejection load it, and the approval is saved. -/
def approvedFirst : List (Act Bool Choice SheetCall) :=
  submits true 8 ++ ([.call true (.approve "m" "o" 1), .call false (.reject "o" 1 "late"), .step true ⟨.ok, 0, 9⟩,
    .step false ⟨.ok, 0, 9⟩, .step true ⟨.ok, 0, 9⟩] : List (Act Bool Choice SheetCall))

/-- Submitted again after a rejection, a sheet keeps the note; rejected by a request that loaded it before its approval,
an approved sheet does not stay approved. -/
theorem not_approval_final :
    (∀ saves, ¬ ∀ c : Reviewing Bool, Reaches (sheetService saves) (fun _ _ => True) (Config.start Sheets.empty) c →
      Consistent c.world) ∧
    ∀ saves, ¬ ∀ (c : Reviewing Bool) a c',
      Reaches (sheetService saves) (fun _ _ => True) (Config.start Sheets.empty) c →
        (sheetService saves).next c a = some c' → KeepsApproved c.world c'.world := by
  constructor
  · intro saves h
    have hend := h _ (reaches_endOf (System.allowed_true _ _
      (submits true 8 ++ inTurn (.reject "o" 1 "late") 9 ++ submits true 10)) (by cases saves <;> decide +kernel))
    have hrow := hend ⟨1, "u", "o", 0, 0, .submitted, some 10, none, none, some "late"⟩
      (by cases saves <;> decide +kernel)
    exact nomatch hrow.rejectionNote.mp rfl
  · intro saves h
    have hstatus : ((sheetService saves).next ((sheetService saves).endOf (Config.start Sheets.empty) approvedFirst)
        (.step false ⟨.ok, 0, 10⟩)).map (fun c => c.world.timesheets.rows.map Timesheet.status) =
          some [.rejected] := by
      cases saves <;> decide +kernel
    obtain ⟨c', hnext, hstatus⟩ := Option.map_eq_some_iff.mp hstatus
    have hreach := reaches_endOf (System.allowed_true (sheetService saves) (Config.start Sheets.empty) approvedFirst)
      (by cases saves <;> decide +kernel)
    obtain ⟨s, hs, -, happroved⟩ := h _ _ c' hreach hnext
      ⟨1, "u", "o", 0, 0, .approved, some 8, some "m", some 9, none⟩ (by cases saves <;> decide +kernel) rfl
    have hmem : s.status ∈ [TimesheetStatus.rejected] := by
      rw [← hstatus]
      exact List.mem_map_of_mem hs
    rw [List.mem_singleton, happroved] at hmem
    exact nomatch hmem

end Reviews

end

end TimeChamp.TimeTracking
