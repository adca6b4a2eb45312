import TimeChamp.TimeTracking.Service

/-!
# One open session for each user

`clockIn` looks for an open row and later inserts one; nothing in the schema keeps two requests from doing so together.

* `AtMostOneOpen` : each user has at most one open row in each organization;
* `Alone` : no other request inserted a row of the same user since this one looked for one;
* `atMostOneOpen` : **if every clock-in inserts alone, no user ever has two open rows**.
-/

namespace TimeChamp.TimeTracking
open Lib
open Function (update)

def AtMostOneOpen (db : Db) : Prop :=
  ∀ userId organizationId, db.attendance.count (isOpen userId organizationId) ≤ 1

/-- A row of the user was inserted, also if the answer was lost. -/
def inserts {ι : Type} (userId organizationId : String) : Performed ι Op Op.Reply → Bool
  | (_, ⟨.insertAttendance record, .ok _⟩) => record.userId == userId && record.organizationId == organizationId
  | (_, ⟨.insertAttendance record, .error e⟩) =>
    e == connectionLost && record.userId == userId && record.organizationId == organizationId
  | _ => false

/-- When the action inserts a row, no other request inserted one of the same user since this one's last call, which was
to look for one. -/
def Alone {ι : Type} [DecidableEq ι] (c : Running ι) (a : Act ι Choice Call) : Prop :=
  (match c.performs a with
    | some (_, .insertAttendance record) =>
      (since a.who c.trace).any (inserts record.userId record.organizationId)
    | _ => false) = false

instance {ι : Type} [DecidableEq ι] (c : Running ι) (a : Act ι Choice Call) : Decidable (Alone c a) :=
  inferInstanceAs (Decidable (_ = false))

section
variable {ι : Type} [DecidableEq ι] {nulls : Nulls}

/-- A request that found no open row of a user may insert one; a row is only saved closed. -/
def clockProtocol : Protocol Op Op.Reply (Option (String × String)) where
  pre m
    | .insertAttendance record => m = some (record.userId, record.organizationId)
    | .saveAttendance row => row.clockOut.isNone = false
    | _ => True
  post _ op r m' :=
    match op, r with
    | .findOpen userId organizationId, .ok (none, _) => m' = some (userId, organizationId)
    | _, _ => m' = none

theorem follows_body (call : Call) (m : Option (String × String)) :
    Follows clockProtocol (fun _ _ => True) m call.body := by
  cases call with
  | clockIn userId organizationId dto =>
      refine ⟨trivial, fun r m' hm' => ?_⟩
      rcases r with e | ⟨_ | row, now⟩
      · trivial
      · exact ⟨hm', fun _ _ _ => trivial⟩
      · trivial
  | clockOut userId organizationId dto =>
      refine ⟨trivial, fun r m' _ => ?_⟩
      rcases r with e | ⟨_ | row, now⟩
      · trivial
      · trivial
      · refine ⟨rfl, fun r m' _ => ?_⟩
        rcases r with e | attendance
        · trivial
        · refine ⟨trivial, fun r m' _ => ?_⟩
          rcases r with e | entry <;> trivial
  | getStatus userId organizationId =>
      refine ⟨trivial, fun r m' _ => ?_⟩
      rcases r with e | ⟨row, now⟩ <;> trivial

/-- No user has two open rows, and what a request found is still true unless another inserted since. -/
structure OpenInv (db : Db) (tr : List (Performed ι Op Op.Reply)) (m : ι → Option (String × String)) : Prop where
  unique : AtMostOneOpen db
  found : ∀ i userId organizationId, m i = some (userId, organizationId) →
    (since i tr).any (inserts userId organizationId) = true ∨ db.attendance.count (isOpen userId organizationId) = 0

/-- What an action of `i` must do to keep the invariant. -/
theorem OpenInv.act {db db' : Db} {tr : List (Performed ι Op Op.Reply)} {m : ι → Option (String × String)}
    (h : OpenInv db tr m) {i : ι} {p : (op : Op) × op.Reply} {m' : Option (String × String)} (hu : AtMostOneOpen db')
    (hothers : ∀ userId organizationId, inserts userId organizationId (i, p) = true ∨
      db'.attendance.count (isOpen userId organizationId) ≤ db.attendance.count (isOpen userId organizationId))
    (hself : ∀ userId organizationId, m' = some (userId, organizationId) →
      db'.attendance.count (isOpen userId organizationId) = 0) :
    OpenInv db' (tr ++ [(i, p)]) (update m i m') := by
  refine ⟨hu, fun j userId organizationId hj => ?_⟩
  by_cases hij : j = i
  · subst hij
    rw [Function.update_self] at hj
    exact Or.inr (hself _ _ hj)
  · rw [Function.update_of_ne hij] at hj
    rw [since_concat_of_ne (Ne.symm hij), List.any_cons]
    rcases h.found j userId organizationId hj with hany | hzero
    · exact Or.inl (by rw [hany, Bool.or_true])
    · rcases hothers userId organizationId with hins | hle
      · exact Or.inl (by rw [hins, Bool.true_or])
      · exact Or.inr (Nat.le_zero.mp (hle.trans hzero.le))

/-- A call that leaves the attendance rows and does not insert keeps the invariant. -/
theorem OpenInv.same {db db' : Db} {tr : List (Performed ι Op Op.Reply)} {m : ι → Option (String × String)}
    (h : OpenInv db tr m) (hdb : db'.attendance = db.attendance) (i : ι) (p : (op : Op) × op.Reply) :
    OpenInv db' (tr ++ [(i, p)]) (update m i none) := by
  have hcount : ∀ userId organizationId, db'.attendance.count (isOpen userId organizationId) =
      db.attendance.count (isOpen userId organizationId) := fun _ _ => by rw [hdb]
  exact h.act (fun u o => by rw [hcount]; exact h.unique u o) (fun u o => Or.inr (hcount u o).le) nofun

theorem count_eq_zero_of_not_found {db : Db} {userId organizationId : String}
    (h : ∀ a ∈ db.attendance.rows, nulls.open userId organizationId a = false) :
    db.attendance.count (isOpen userId organizationId) = 0 := by
  rw [Table.count, List.length_eq_zero_iff, List.filter_eq_nil_iff]
  intro a ha hopen
  have hnot := h a ha
  simp only [isOpen, Bool.and_eq_true] at hopen
  cases nulls <;> simp [Nulls.open, hopen.1.1, hopen.1.2, hopen.2] at hnot

theorem AtMostOneOpen.insert {db : Db} (h : AtMostOneOpen db) {record : Attendance}
    (hzero : db.attendance.count (isOpen record.userId record.organizationId) = 0) :
    AtMostOneOpen { db with attendance := db.attendance.insert record } := by
  intro userId organizationId
  rw [Table.count_insert]
  split_ifs with hopen
  · obtain ⟨⟨rfl, rfl⟩, -⟩ : (record.userId = userId ∧ record.organizationId = organizationId) ∧ _ := by
      simpa [isOpen, Keyed.withKey] using hopen
    omega
  · exact h userId organizationId

theorem openInv_step {c : Running ι} {m : ι → Option (String × String)} {i : ι} {ch : Choice} {e : Op}
    {k : e.Reply → Request Unit} {r : e.Reply} {db : Db} (hI : OpenInv c.world c.trace m) (hG : Alone c (.step i ch))
    (hop : c.thread i = .op e k) (hpre : clockProtocol.pre (m i) e) (hr : exec nulls ch e c.world = some (r, db)) :
    ∃ m', clockProtocol.post (m i) e r m' ∧ OpenInv db (c.trace ++ [(i, ⟨e, r⟩)]) (update m i m') := by
  cases e with
  | findOpen userId organizationId =>
      obtain ⟨rfl, ⟨err, rfl⟩ | ⟨now, ⟨rfl, hnot⟩ | ⟨a, -, -, rfl⟩⟩⟩ := exec_findOpen hr
      · exact ⟨none, rfl, hI.same rfl i _⟩
      · refine ⟨some (userId, organizationId), rfl, hI.act hI.unique (fun _ _ => Or.inr le_rfl) fun u o heq => ?_⟩
        obtain ⟨rfl, rfl⟩ := Prod.mk.inj (Option.some.inj heq)
        exact count_eq_zero_of_not_found hnot
      · exact ⟨none, rfl, hI.same rfl i _⟩
  | insertAttendance record =>
      refine ⟨none, rfl, ?_⟩
      rcases exec_insertAttendance hr with ⟨-, rfl⟩ | ⟨hanswer, rfl⟩
      · exact hI.same rfl i _
      · have halone : (since i c.trace).any (inserts record.userId record.organizationId) = false := by
          rwa [Alone, Config.performs_step hop ch] at hG
        have hzero : c.world.attendance.count (isOpen record.userId record.organizationId) = 0 := by
          rcases hI.found i _ _ hpre with hany | hzero
          · exact absurd hany (by rw [halone]; exact Bool.false_ne_true)
          · exact hzero
        refine hI.act (hI.unique.insert hzero) (fun userId organizationId => ?_) nofun
        rw [Table.count_insert]
        split_ifs with hopen
        · rw [isOpen, Bool.and_eq_true] at hopen
          rcases hanswer with rfl | rfl
          · exact Or.inl hopen.1
          · exact Or.inl (by simpa [inserts, Keyed.withKey] using hopen.1)
        · exact Or.inr le_rfl
  | saveAttendance row =>
      refine ⟨none, rfl, ?_⟩
      rcases exec_saveAttendance hr with ⟨-, rfl⟩ | ⟨-, rfl⟩
      · exact hI.same rfl i _
      · have hle : ∀ userId organizationId, (c.world.attendance.update row).count (isOpen userId organizationId) ≤
            c.world.attendance.count (isOpen userId organizationId) := fun userId organizationId =>
          Table.count_update_le (by rw [isOpen, show row.clockOut.isNone = false from hpre, Bool.and_false])
        exact hI.act (fun u o => (hle u o).trans (hI.unique u o)) (fun u o => Or.inr (hle u o)) nofun
  | saveTimeEntry entry =>
      refine ⟨none, rfl, ?_⟩
      rcases exec_saveTimeEntry hr with ⟨-, rfl, -⟩ | rfl
      · exact hI.same rfl i _
      · refine OpenInv.same hI ?_ i _
        rfl

/-- **If every clock-in inserts alone, no user ever has two open rows in an organization.** -/
theorem atMostOneOpen {c : Running ι} (h : Reaches (service nulls) Alone (Config.start Db.empty) c) :
    AtMostOneOpen c.world := by
  have hinv : ∃ m, OpenInv c.world c.trace m ∧
      ∀ i, Follows clockProtocol (fun _ _ => True) (m i) (c.thread i) := by
    refine Reaches.inv (P := clockProtocol) (F := fun _ => True) OpenInv ?_ ?_ ?_ h
    · exact ⟨fun _ => none, ⟨fun _ _ => Nat.zero_le _, nofun⟩, fun _ => trivial⟩
    · intro c m i call w hI _ _ hw
      obtain rfl := Option.some.inj hw
      refine ⟨none, ⟨hI.unique, fun j userId organizationId hj => ?_⟩, follows_body call none⟩
      by_cases hij : j = i
      · subst hij
        rw [Function.update_self] at hj
        exact nomatch hj
      · rw [Function.update_of_ne hij] at hj
        exact hI.found j userId organizationId hj
    · intro c m i ch e k r w hI hG hop hpre hr
      exact openInv_step hI hG hop hpre hr
  obtain ⟨m, hI, -⟩ := hinv
  exact hI.unique

/-! ### Two requests of one user -/

section Race

/-- A clock-in of the same user on each of two connections. -/
def bothCall : List (Act Bool Choice Call) :=
  [.call true (.clockIn "u" "o" ⟨none, none, none⟩), .call false (.clockIn "u" "o" ⟨none, none, none⟩)]

/-- The first inserts before the second looks. -/
theorem atMostOneOpen_in_turn :
    AtMostOneOpen ((service .isNull).endOf (Config.start Db.empty)
      (bothCall ++ [.step true ⟨.ok, 0, 8⟩, .step true ⟨.ok, 0, 8⟩, .step false ⟨.ok, 0, 9⟩])).world :=
  atMostOneOpen (reaches_endOf (by decide +kernel) (by decide +kernel))

/-- Both look before either inserts: the user has two open rows, whatever the ORM makes of the null. -/
theorem not_atMostOneOpen_together :
    (¬ ∀ c : Running Bool, Reaches (service .isNull) (fun _ _ => True) (Config.start Db.empty) c →
      AtMostOneOpen c.world) ∧
    ¬ ∀ c : Running Bool, Reaches (service .dropped) (fun _ _ => True) (Config.start Db.empty) c →
      AtMostOneOpen c.world := by
  let race : List (Act Bool Choice Call) := bothCall ++
    ([.step true ⟨.ok, 0, 8⟩, .step false ⟨.ok, 0, 9⟩, .step true ⟨.ok, 0, 8⟩, .step false ⟨.ok, 0, 9⟩] :
      List (Act Bool Choice Call))
  have two : ∀ nulls : Nulls, ¬ ∀ c : Running Bool,
      Reaches (service nulls) (fun _ _ => True) (Config.start Db.empty) c → AtMostOneOpen c.world := by
    intro nulls h
    have hone := h _ (reaches_endOf (System.allowed_true _ _ race) (by cases nulls <;> decide +kernel)) "u" "o"
    exact absurd hone (by cases nulls <;> decide +kernel)
  exact ⟨two .isNull, two .dropped⟩

end Race

end

end TimeChamp.TimeTracking
