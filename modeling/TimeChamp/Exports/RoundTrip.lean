import TimeChamp.Exports.Exporters

/-!
# Exports that can be read back

An export is meant to be read back as its header and one record for each row, with the texts of the row in it. The
helper puts a field in quotes for a comma, a quote or a line feed, but not for a carriage return; mail addresses and the
names in the payroll go without it.

* `RoundTrips` : what is read back;
* `Safe`, `Bare`, `Unquoted` : the texts that survive the helper, no helper, and plain quotes;
* `roundTrips_exports` : **each export can be read back exactly when the texts of all its rows survive**.
-/

namespace TimeChamp.Exports
open Lib
open Csv (Cell Text plainChar)

/-- The text is read as the header and one record for each row, with as many fields as the header and the texts of the
row in their columns. -/
def RoundTrips {ρ : Type} (header : List String) (texts : ρ → List (Option String)) (rows : List ρ) (csv : String) :
    Prop :=
  ∃ records, Csv.parse csv.toList = some (header.map String.toList :: records) ∧
    List.Forall₂ (fun r record => record.length = header.length ∧
      List.Forall₂ (fun text field => ∀ t ∈ text, field = t.toList) (texts r) record) rows records

/-- The text survives the helper: it has no carriage return, or is put in quotes for another letter. -/
def Safe (value : String) : Prop :=
  '\r' ∈ value.toList → ',' ∈ value.toList ∨ '"' ∈ value.toList ∨ '\n' ∈ value.toList

/-- The text survives without quotes. -/
def Bare (value : String) : Prop :=
  '"' ∉ value.toList ∧ ',' ∉ value.toList ∧ '\n' ∉ value.toList ∧ '\r' ∉ value.toList

/-- The text survives in quotes without being changed. -/
def Unquoted (value : String) : Prop := '"' ∉ value.toList

instance (value : String) : Decidable (Safe value) := inferInstanceAs (Decidable (_ → _))

instance (value : String) : Decidable (Bare value) := inferInstanceAs (Decidable (_ ∧ _))

instance (value : String) : Decidable (Unquoted value) := inferInstanceAs (Decidable (_ ∉ _))

/-! ## Fields -/

/-- A field, and the text that it should be read as. -/
def cellOf (raw : String) (text : Option String) : Cell := ⟨raw.toList, text.map String.toList⟩

theorem bare_iff {value : String} : Bare value ↔ ∀ c ∈ value.toList, plainChar c = true := by
  constructor
  · rintro ⟨h1, h2, h3, h4⟩ c hc
    exact Csv.plainChar_iff.mpr ⟨fun h => h1 (h ▸ hc), fun h => h2 (h ▸ hc), fun h => h3 (h ▸ hc), fun h => h4 (h ▸ hc)⟩
  · intro h
    refine ⟨fun hc => ?_, fun hc => ?_, fun hc => ?_, fun hc => ?_⟩ <;> exact nomatch h _ hc

theorem decides_bare (value : String) : (cellOf value (some value)).Decides (Bare value) := by
  rw [bare_iff]
  exact Csv.decides_bare value.toList

theorem needsQuotes_iff {value : String} :
    needsQuotes value = true ↔ ',' ∈ value.toList ∨ '"' ∈ value.toList ∨ '\n' ∈ value.toList := by
  simp only [needsQuotes, List.any_eq_true, Bool.or_eq_true, decide_eq_true_eq, or_assoc]
  constructor
  · rintro ⟨c, hc, rfl | rfl | rfl⟩
    · exact Or.inl hc
    · exact Or.inr (Or.inl hc)
    · exact Or.inr (Or.inr hc)
  · rintro (hc | hc | hc)
    · exact ⟨_, hc, Or.inl rfl⟩
    · exact ⟨_, hc, Or.inr (Or.inl rfl)⟩
    · exact ⟨_, hc, Or.inr (Or.inr rfl)⟩

/-- **The helper.** -/
theorem decides_quoteIfNeeded (value : String) :
    (cellOf (quoteIfNeeded value) (some value)).Decides (Safe value) := by
  unfold quoteIfNeeded
  by_cases hneeds : needsQuotes value = true
  · rw [if_pos hneeds, cellOf, String.toList_ofList]
    exact ⟨fun _ => ⟨value.toList, Csv.yields_quote _, fun _ hw => Option.some.inj hw⟩,
      fun hunsafe => absurd (fun _ => needsQuotes_iff.mp hneeds) hunsafe⟩
  · have hbare : Safe value ↔ Bare value := by
      have hnone := (not_congr needsQuotes_iff).mp hneeds
      rw [not_or, not_or] at hnone
      unfold Safe Bare
      tauto
    rw [if_neg hneeds, hbare]
    exact decides_bare value

theorem decides_employee (value : String) :
    (cellOf ("\"" ++ value ++ "\"") (some value)).Decides (Unquoted value) := by
  have hraw : ("\"" ++ value ++ "\"").toList = '"' :: value.toList ++ ['"'] := by
    rw [String.toList_append, String.toList_append]
    rfl
  rw [cellOf, hraw]
  exact Csv.decides_undoubled value.toList

/-! ### Fields that are always read as they are -/

theorem plainChar_of {p : Char → Bool} (hp : p '"' = false ∧ p ',' = false ∧ p '\n' = false ∧ p '\r' = false) {c : Char}
    (h : p c = true) : plainChar c = true := by
  refine Csv.plainChar_iff.mpr ⟨?_, ?_, ?_, ?_⟩
  · exact fun hc => absurd (hc ▸ h) (by rw [hp.1]; decide)
  · exact fun hc => absurd (hc ▸ h) (by rw [hp.2.1]; decide)
  · exact fun hc => absurd (hc ▸ h) (by rw [hp.2.2.1]; decide)
  · exact fun hc => absurd (hc ▸ h) (by rw [hp.2.2.2]; decide)

theorem plainChar_isoChar {c : Char} (h : isoChar c = true) : plainChar c = true := plainChar_of (by decide) h

theorem plainChar_uuidChar {c : Char} (h : uuidChar c = true) : plainChar c = true := plainChar_of (by decide) h

theorem good_of_plain {raw : String} (h : ∀ c ∈ raw.toList, plainChar c = true) : (cellOf raw none).Good :=
  Cell.good_of_plain h fun _ hw => nomatch hw

theorem good_of_iso {t : Text} (h : ∀ c ∈ t, isoChar c = true) : (cellOf (String.ofList t) none).Good :=
  good_of_plain fun c hc => plainChar_isoChar (h c (by rwa [String.toList_ofList] at hc))

theorem good_uuid (id : Uuid) : (cellOf id.text none).Good :=
  good_of_plain fun _ hc => plainChar_uuidChar (id.uuidChar_of_mem hc)

theorem good_empty : (cellOf "" none).Good := good_of_plain fun _ hc => absurd hc List.not_mem_nil

theorem good_isoString (t : Int) : (cellOf (isoString t) none).Good := good_of_iso fun _ hc => isoChar_of_mem hc

theorem good_isoSlice (t : Int) (a b : Nat) : (cellOf (isoSlice t a b) none).Good :=
  good_of_iso fun _ hc => isoChar_of_mem (List.mem_of_mem_take (List.mem_of_mem_drop hc))

theorem good_intText (n : Int) : (cellOf (String.ofList (intText n)) none).Good :=
  good_of_iso fun _ hc => isoChar_intText hc

theorem good_sixtieths (n : Int) : (cellOf (String.ofList (sixtieths n)) none).Good :=
  good_of_iso fun _ hc => isoChar_sixtieths hc

theorem good_dateText (z : Int) : (cellOf (String.ofList (dateText z)) none).Good :=
  good_of_iso fun _ hc => isoChar_dateText hc

theorem good_optional {α : Type} {f : α → String} (h : ∀ a, (cellOf (f a) none).Good) (o : Option α) :
    (cellOf ((o.map f).getD "") none).Good := by
  cases o with
  | none => exact good_empty
  | some a => exact h a

/-- One of the texts of the program. -/
theorem good_of_all {raw : String} (h : raw.toList.all plainChar = true) : (cellOf raw none).Good :=
  good_of_plain (List.all_eq_true.mp h)

theorem good_source (s : TimeEntrySource) : (cellOf s.text none).Good := good_of_all (by cases s <;> decide)

theorem good_role (r : UserRole) : (cellOf r.text none).Good := good_of_all (by cases r <;> decide)

theorem good_status (s : TimesheetStatus) : (cellOf s.text none).Good := good_of_all (by cases s <;> decide)

theorem good_isActive (b : Bool) : (cellOf (if b then "true" else "false") none).Good :=
  good_of_all (by cases b <;> decide)

/-! ## Exports as documents -/

section
variable {ρ : Type} (header : List String) (fields : ρ → List String) (texts : ρ → List (Option String))

/-- The cells of a row. -/
def cells (r : ρ) : List Cell := List.zipWith cellOf (fields r) (texts r)

/-- The cells of the header. -/
def headerCells : List Cell := header.map fun name => cellOf name (some name)

variable {header fields texts}

theorem length_cells {r : ρ} {n : Nat} (hf : (fields r).length = n) (ht : (texts r).length = n) :
    (cells fields texts r).length = n := by
  rw [cells, List.length_zipWith, hf, ht, Nat.min_self]

theorem map_zipWith_cellOf {fs : List String} {ts : List (Option String)} (h : fs.length = ts.length) :
    (List.zipWith cellOf fs ts).map Cell.raw = fs.map String.toList ∧
      (List.zipWith cellOf fs ts).map Cell.want = ts.map (Option.map String.toList) := by
  induction fs generalizing ts with
  | nil =>
      rw [List.eq_nil_of_length_eq_zero h.symm]
      exact ⟨rfl, rfl⟩
  | cons f fs ih =>
      match ts, h with
      | t :: ts, h =>
        obtain ⟨hraw, hwant⟩ := ih (Nat.succ.inj h)
        exact ⟨congrArg (f.toList :: ·) hraw, congrArg (t.map String.toList :: ·) hwant⟩

theorem toList_commas {fs : List String} {ts : List (Option String)} (h : fs.length = ts.length) :
    (",".intercalate fs).toList = Csv.row (List.zipWith cellOf fs ts) := by
  rw [Csv.row, (map_zipWith_cellOf h).1]
  exact String.toList_intercalate

theorem zipWith_headerCells (header : List String) :
    List.zipWith cellOf header (header.map some) = headerCells header := by
  induction header with
  | nil => rfl
  | cons name header ih =>
      rw [List.map_cons, List.zipWith_cons_cons, ih]
      rfl

theorem toList_csvLines (hlength : ∀ r, (fields r).length = (texts r).length) (rows : List ρ) :
    (csvLines header (rows.map fields)).toList =
      Csv.document (headerCells header :: rows.map (cells fields texts)) := by
  have hline : (rows.map fields).map (fun fs => (",".intercalate fs).toList) =
      (rows.map (cells fields texts)).map Csv.row := by
    rw [List.map_map, List.map_map]
    exact List.map_congr_left fun r _ => toList_commas (hlength r)
  have hheader : (",".intercalate header).toList = Csv.row (headerCells header) := by
    rw [← zipWith_headerCells]
    exact toList_commas (by rw [List.length_map])
  rw [csvLines, String.toList_intercalate, List.map_map, Csv.document, List.map_cons, List.map_cons, ← hline, ← hheader]
  rfl

theorem agrees_cells {r : ρ} {n : Nat} (hf : (fields r).length = n) (ht : (texts r).length = n) {record : List Text} :
    Csv.Agrees (cells fields texts r) record ↔ record.length = n ∧
      List.Forall₂ (fun text field => ∀ t ∈ text, field = t.toList) (texts r) record := by
  have hagrees : Csv.Agrees (cells fields texts r) record ↔
      List.Forall₂ (fun text field => ∀ t ∈ text, field = t.toList) (texts r) record := by
    rw [Csv.Agrees, ← List.forall₂_map_left_iff (f := Cell.want) (R := fun want field => ∀ w ∈ want, field = w), cells,
      (map_zipWith_cellOf (hf.trans ht.symm)).2,
      List.forall₂_map_left_iff]
    simp only [Option.mem_def, Option.map_eq_some_iff, forall_exists_index, and_imp, forall_apply_eq_imp_iff₂]
  rw [hagrees]
  exact ⟨fun h => ⟨h.length_eq.symm.trans ht, h⟩, And.right⟩

theorem agrees_headerCells {record : List Text} :
    Csv.Agrees (headerCells header) record ↔ record = header.map String.toList := by
  rw [Csv.Agrees, headerCells, List.forall₂_map_left_iff]
  constructor
  · intro h
    induction h with
    | nil => rfl
    | cons hname _ ih => rw [ih, hname _ rfl, List.map_cons]
  · rintro rfl
    induction header with
    | nil => exact .nil
    | cons name header ih => exact .cons (fun w hw => Option.some.inj hw) ih

variable (header fields texts) in
/-- **An export can be read back exactly when the texts of each row survive.** -/
theorem roundTrips_iff {P : ρ → Prop} (n : Nat) (hf : ∀ r, (fields r).length = n) (ht : ∀ r, (texts r).length = n)
    (hlength : header.length = n) (htwo : 2 ≤ n) (hheader : ∀ name ∈ header, Bare name) {rows : List ρ}
    (h : ∀ r ∈ rows, Csv.RowDecides (cells fields texts r) (P r)) :
    RoundTrips header texts rows (csvLines header (rows.map fields)) ↔ ∀ r ∈ rows, P r := by
  have hgood : ∀ c ∈ headerCells header, c.Good := by
    intro c hc
    obtain ⟨name, hname, rfl⟩ := List.mem_map.mp hc
    exact (decides_bare name).1 (hheader name hname)
  have hcells : ∀ row ∈ headerCells header :: rows.map (cells fields texts), 2 ≤ row.length := by
    simp only [List.mem_cons, List.mem_map, forall_eq_or_imp, forall_exists_index, and_imp, forall_apply_eq_imp_iff₂]
    refine ⟨by rwa [headerCells, List.length_map, hlength], fun r _ => ?_⟩
    rwa [length_cells (hf r) (ht r)]
  have hdocument := Csv.parse_document hcells (by
    simp only [List.mem_cons, List.mem_map, forall_eq_or_imp, forall_exists_index, and_imp, forall_apply_eq_imp_iff₂]
    exact ⟨fun c hc => Or.inl (hgood c hc), fun r hr => (h r hr).1⟩)
  simp only [List.mem_cons, List.mem_map, forall_eq_or_imp, forall_exists_index, and_imp,
    forall_apply_eq_imp_iff₂] at hdocument
  rw [RoundTrips, hlength, toList_csvLines fun r => (hf r).trans (ht r).symm]
  refine Iff.trans ?_ (hdocument.trans ((and_iff_right hgood).trans (forall₂_congr fun r hr => (h r hr).2)))
  constructor
  · rintro ⟨records, hparse, hrows⟩
    refine ⟨_, hparse, List.forall₂_cons.mpr ⟨agrees_headerCells.mpr rfl, ?_⟩⟩
    exact List.forall₂_map_left_iff.mpr (hrows.imp fun r record hr => (agrees_cells (hf r) (ht r)).mpr hr)
  · rintro ⟨all, hparse, hrows⟩
    cases hrows with
    | cons hfirst hrest =>
        rw [agrees_headerCells.mp hfirst] at hparse
        refine ⟨_, hparse, (List.forall₂_map_left_iff.mp hrest).imp fun r record hr => ?_⟩
        exact (agrees_cells (hf r) (ht r)).mp hr

end

/-! ## The four exports -/

/-- The texts of each row, in their columns. -/
def timeEntryTexts (e : TimeEntry) : List (Option String) :=
  [none, none, none, none, some (e.description.getD ""), none]

/-- The names of a user, and the mail address if it counts as a text. -/
def userTexts (email : Bool) (u : User) : List (Option String) :=
  [none, if email then some u.email else none, some u.firstName, some u.lastName, none, none, none]

def timesheetTexts (ts : Timesheet) : List (Option String) :=
  [none, none, some ts.userEmail, none, none, none, none, none, none]

def payrollTexts (r : PayrollRow) : List (Option String) := [some r.employee, none, none, none, none]

theorem decides_timeEntry (e : TimeEntry) :
    Csv.RowDecides (cells timeEntryFields timeEntryTexts e) (Safe (e.description.getD "") ∧ True) :=
  .good (good_isoSlice _ _ _) <| .good (good_isoSlice _ _ _) <|
    .good (good_optional (fun t => good_isoSlice t 11 16) _) <| .good (good_intText _) <|
      .decides (decides_quoteIfNeeded _) <| .good (good_source _) Csv.rowDecides_nil

theorem decides_names (u : User) :
    Csv.RowDecides (List.zipWith cellOf (userFields u).tail.tail [some u.firstName, some u.lastName, none, none, none])
      (Safe u.firstName ∧ Safe u.lastName ∧ True) :=
  .decides (decides_quoteIfNeeded _) <| .decides (decides_quoteIfNeeded _) <| .good (good_role _) <|
    .good (good_isActive _) <| .good (good_isoString _) Csv.rowDecides_nil

theorem decides_user (u : User) :
    Csv.RowDecides (cells userFields (userTexts true) u) (Bare u.email ∧ Safe u.firstName ∧ Safe u.lastName ∧ True) :=
  .good (good_uuid _) <| .decides (decides_bare _) (decides_names u)

/-- With an address that survives anyway. -/
theorem decides_user_names {u : User} (h : Bare u.email) :
    Csv.RowDecides (cells userFields (userTexts false) u) (Safe u.firstName ∧ Safe u.lastName ∧ True) :=
  .good (good_uuid _) <| .good (good_of_plain (bare_iff.mp h)) (decides_names u)

theorem decides_timesheet (ts : Timesheet) :
    Csv.RowDecides (cells timesheetFields timesheetTexts ts) (Bare ts.userEmail ∧ True) :=
  .good (good_uuid _) <| .good (good_uuid _) <| .decides (decides_bare _) <| .good (good_dateText _) <|
    .good (good_intText _) <| .good (good_sixtieths _) <| .good (good_status _) <| .good (good_optional good_uuid _) <|
      .good (good_optional good_isoString _) Csv.rowDecides_nil

theorem unquoted_employee (r : PayrollRow) : Unquoted r.employee ↔ Unquoted r.firstName ∧ Unquoted r.lastName := by
  unfold Unquoted PayrollRow.employee
  rw [String.toList_append, String.toList_append, List.mem_append, List.mem_append]
  have hspace : '"' ∉ " ".toList := by decide
  tauto

theorem decides_payroll (r : PayrollRow) :
    Csv.RowDecides (cells payrollFields payrollTexts r) (Unquoted r.employee ∧ True) :=
  .decides (decides_employee _) <| .good (good_dateText _) <| .good (good_sixtieths _) <| .good (good_sixtieths _) <|
    .good (good_status _) Csv.rowDecides_nil

theorem roundTrips_timeEntries (entries : List TimeEntry) :
    RoundTrips timeEntriesHeader timeEntryTexts entries (exportTimeEntriesCSV entries) ↔
      ∀ e ∈ entries, Safe (e.description.getD "") := by
  have h := roundTrips_iff timeEntriesHeader timeEntryFields timeEntryTexts 6 (fun _ => rfl) (fun _ => rfl) rfl
    (by decide) (by decide) fun e (_ : e ∈ entries) => decides_timeEntry e
  simp only [and_true] at h
  exact h

theorem roundTrips_users (users : List User) :
    RoundTrips usersHeader (userTexts true) users (exportUsersCSV users) ↔
      ∀ u ∈ users, Bare u.email ∧ Safe u.firstName ∧ Safe u.lastName := by
  have h := roundTrips_iff usersHeader userFields (userTexts true) 7 (fun _ => rfl) (fun _ => rfl) rfl (by decide)
    (by decide) fun u (_ : u ∈ users) => decides_user u
  simp only [and_true] at h
  exact h

theorem roundTrips_users_names {users : List User} (hbare : ∀ u ∈ users, Bare u.email) :
    RoundTrips usersHeader (userTexts false) users (exportUsersCSV users) ↔
      ∀ u ∈ users, Safe u.firstName ∧ Safe u.lastName := by
  have h := roundTrips_iff usersHeader userFields (userTexts false) 7 (fun _ => rfl) (fun _ => rfl) rfl (by decide)
    (by decide) fun u hu => decides_user_names (hbare u hu)
  simp only [and_true] at h
  exact h

theorem roundTrips_timesheets (timesheets : List Timesheet) :
    RoundTrips timesheetsHeader timesheetTexts timesheets (exportTimesheetCSV timesheets) ↔
      ∀ ts ∈ timesheets, Bare ts.userEmail := by
  have h := roundTrips_iff timesheetsHeader timesheetFields timesheetTexts 9 (fun _ => rfl) (fun _ => rfl) rfl
    (by decide) (by decide) fun ts (_ : ts ∈ timesheets) => decides_timesheet ts
  simp only [and_true] at h
  exact h

theorem roundTrips_payroll (timesheets : List Timesheet) :
    RoundTrips payrollHeader payrollTexts (getPayrollReport timesheets) (exportPayrollCsv timesheets) ↔
      ∀ r ∈ getPayrollReport timesheets, Unquoted r.firstName ∧ Unquoted r.lastName := by
  have h := roundTrips_iff payrollHeader payrollFields payrollTexts 5 (fun _ => rfl) (fun _ => rfl) rfl (by decide)
    (by decide) fun r (_ : r ∈ getPayrollReport timesheets) => decides_payroll r
  simp only [and_true, unquoted_employee] at h
  exact h

/-- **What can be read back.** Time entries: exactly when every description survives the helper. Users: exactly when
every name does and every address survives without it; where the addresses do, whether they are compared makes no
difference. Timesheets: exactly when every address survives. The payroll: exactly when no name has a quote. -/
theorem roundTrips_exports (entries : List TimeEntry) (users : List User) (timesheets : List Timesheet) :
    (RoundTrips timeEntriesHeader timeEntryTexts entries (exportTimeEntriesCSV entries) ↔
      ∀ e ∈ entries, Safe (e.description.getD "")) ∧
    (RoundTrips usersHeader (userTexts true) users (exportUsersCSV users) ↔
      ∀ u ∈ users, Bare u.email ∧ Safe u.firstName ∧ Safe u.lastName) ∧
    ((∀ u ∈ users, Bare u.email) →
      (RoundTrips usersHeader (userTexts false) users (exportUsersCSV users) ↔
        ∀ u ∈ users, Safe u.firstName ∧ Safe u.lastName)) ∧
    (RoundTrips timesheetsHeader timesheetTexts timesheets (exportTimesheetCSV timesheets) ↔
      ∀ ts ∈ timesheets, Bare ts.userEmail) ∧
    (RoundTrips payrollHeader payrollTexts (getPayrollReport timesheets) (exportPayrollCsv timesheets) ↔
      ∀ r ∈ getPayrollReport timesheets, Unquoted r.firstName ∧ Unquoted r.lastName) :=
  ⟨roundTrips_timeEntries entries, roundTrips_users users, fun hbare => roundTrips_users_names hbare,
    roundTrips_timesheets timesheets, roundTrips_payroll timesheets⟩

section Runs

def anId : Uuid := ⟨"123e4567-e89b-12d3-a456-426614174000", by decide +kernel, by decide +kernel⟩

/-- A user whose name has a comma and quotes. -/
def ann : User := ⟨anId, "ann@example.com", "Ann, \"Nan\"", "Lee", .employee, true, 1709164800000⟩

theorem roundTrips_exports_ann : RoundTrips usersHeader (userTexts false) [ann] (exportUsersCSV [ann]) :=
  ((roundTrips_exports [] [ann] []).2.2.1 (by decide +kernel)).mpr (by decide +kernel)

/-- A description with a carriage return; a name with one; and the name of a user with quotes, in the payroll. -/
theorem not_roundTrips_exports :
    (¬ ∀ entries, RoundTrips timeEntriesHeader timeEntryTexts entries (exportTimeEntriesCSV entries)) ∧
    (¬ ∀ users, (∀ u ∈ users, Bare u.email) →
      RoundTrips usersHeader (userTexts false) users (exportUsersCSV users)) ∧
    ¬ ∀ timesheets,
      RoundTrips payrollHeader payrollTexts (getPayrollReport timesheets) (exportPayrollCsv timesheets) := by
  refine ⟨fun h => ?_, fun h => ?_, fun h => ?_⟩
  · exact absurd ((roundTrips_timeEntries _).mp (h [⟨0, none, .manual, some "call\rnotes"⟩])) (by decide +kernel)
  · have hbare : ∀ u ∈ [{ ann with firstName := "Ann\rLee" }], Bare u.email := by decide +kernel
    exact absurd ((roundTrips_users_names hbare).mp (h _ hbare)) (by decide +kernel)
  · exact absurd ((roundTrips_payroll _).mp (h [⟨anId, anId, some ann, 19782, 2400, .approved, some anId, some 0⟩]))
      (by decide +kernel)

end Runs

end TimeChamp.Exports
