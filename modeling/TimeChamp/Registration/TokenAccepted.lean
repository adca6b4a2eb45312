import TimeChamp.Registration.Service

/-!
# Whether a personal token is accepted

The dashboard hands out tokens, and the endpoint of the registration validates what it is given.

* `TokenRequest` : the two ways to a token; `token_of_request` : what they return;
* `Answering` : the calls succeed and random tokens are new;
* `Registers` : a body, presented to the endpoint, registers a device for a user;
* `registers_iff` : **a token that was handed out and is still its user's registers a device if and only if it was not
  built but found in the table, is a UUID, and the user is active**.
-/

namespace TimeChamp.Registration
open Lib

/-- How a user comes by a token. -/
inductive TokenRequest where
  | getOrGenerate
  | rotate
deriving DecidableEq

def TokenRequest.body (userId : String) : TokenRequest → Request (Except String TokenView)
  | .getOrGenerate => getOrGenerateAgentToken userId
  | .rotate => rotateAgentToken userId

/-- A request on its own, with what the outside decides for each of its calls. -/
def alone {α : Type} (p : Request α) (f : Nat → Choice) (db : Db) : Option (α × (Nat → Choice) × Db) :=
  p.run (Prog.fed exec) (f, db)

/-! ## The token that is handed out -/

section
variable {α : Type} {f : Nat → Choice} {db : Db} {userId : String} {view : TokenView} {s : (Nat → Choice) × Db}

theorem mem_of_findById {id : String} {u : User} (h : db.users.rows.find? (fun u => u.id == id) = some u) :
    u ∈ db.users.rows ∧ u.id = id :=
  ⟨List.mem_of_find?_eq_some h, by simpa using List.find?_some h⟩

theorem token_of_storeNewToken {user : User} (h : alone (storeNewToken userId user) f db = some (.ok view, s)) :
    ∃ uuid, view.token = buildPersonalToken user uuid := by
  obtain ⟨⟨now, uuid⟩, s₁, -, h⟩ := Prog.run_op_eq_some _ h
  obtain ⟨r, s₂, -, h⟩ := Prog.run_op_eq_some _ h
  cases r with
  | error e => exact absurd (congrArg Prod.fst (Option.some.inj h)) (by simp)
  | ok _ =>
      obtain rfl := Except.ok.inj (congrArg Prod.fst (Option.some.inj h))
      exact ⟨uuid, rfl⟩

theorem found_of_findById {id : String} {k : Except String (Option User) → Request (Except String TokenView)}
    (herror : ∀ e, k (.error e) = pure (.error e)) (hnone : k (.ok none) = pure (.error "User not found"))
    (h : alone (Request.findById id >>= k) f db = some (.ok view, s)) :
    ∃ u ∈ db.users.rows, u.id = id ∧ ∃ f', alone (k (.ok (some u))) f' db = some (.ok view, s) := by
  obtain ⟨r, ⟨f', db'⟩, hr, h⟩ := Prog.run_op_eq_some _ h
  replace h : alone (k r) f' db' = some (.ok view, s) := h
  rcases Outcome.answer_cases (Option.some.inj (Prog.fed_eq_some hr)) with ⟨hdb, rfl⟩ | ⟨rfl, -⟩
  · obtain rfl : db' = db := hdb
    cases hu : db'.users.rows.find? (fun u => u.id == id) with
    | none =>
        rw [hu, hnone] at h
        exact absurd (congrArg Prod.fst (Option.some.inj h)) (by simp)
    | some u =>
        rw [hu] at h
        obtain ⟨hmem, hid⟩ := mem_of_findById hu
        exact ⟨u, hmem, hid, f', h⟩
  · rw [herror] at h
    exact absurd (congrArg Prod.fst (Option.some.inj h)) (by simp)

/-- **A token is built, unless the user had one and did not ask for another.** -/
theorem token_of_request {request : TokenRequest} (h : alone (request.body userId) f db = some (.ok view, s)) :
    (request = .getOrGenerate ∧ ∃ u ∈ db.users.rows, u.id = userId ∧ truthy u.agentToken = some view.token) ∨
      ((request = .getOrGenerate → ∃ u ∈ db.users.rows, u.id = userId ∧ truthy u.agentToken = none) ∧
        ∃ u uuid, view.token = buildPersonalToken u uuid) := by
  cases request with
  | getOrGenerate =>
      obtain ⟨u, hu, hid, f', h⟩ := found_of_findById (fun _ => rfl) rfl h
      dsimp only at h
      cases htoken : truthy u.agentToken with
      | some token =>
          rw [htoken] at h
          obtain rfl := Except.ok.inj (congrArg Prod.fst (Option.some.inj h))
          exact Or.inl ⟨rfl, u, hu, hid, htoken⟩
      | none =>
          rw [htoken] at h
          exact Or.inr ⟨fun _ => ⟨u, hu, hid, htoken⟩, u, token_of_storeNewToken h⟩
  | rotate =>
      obtain ⟨u, -, -, f', h⟩ := found_of_findById (fun _ => rfl) rfl h
      exact Or.inr ⟨(nomatch ·), u, token_of_storeNewToken h⟩

end

/-! ## Registrations on their own -/

/-- The calls succeed, and the tokens built from the random numbers are new. -/
structure Answering (f : Nat → Choice) (db : Db) : Prop where
  ok : ∀ n, (f n).outcome = .ok
  new : ∀ n u, db.hasGiven (buildPersonalToken u (f n).uuid) = false
  unheld : ∀ n u, ∀ v ∈ db.users.rows, v.agentToken ≠ some (buildPersonalToken u (f n).uuid)

section
variable {f : Nat → Choice} {db db' : Db}

theorem Answering.tail (h : Answering f db) : Answering (fun n => f (n + 1)) db :=
  ⟨fun n => h.ok (n + 1), fun n => h.new (n + 1), fun n => h.unheld (n + 1)⟩

/-- Only the users and their tokens matter. -/
theorem Answering.of_eq (h : Answering f db) (husers : db'.users = db.users) (hgiven : db'.given = db.given) :
    Answering f db' where
  ok := h.ok
  new := fun n u => by
    rw [Db.hasGiven, hgiven]
    exact h.new n u
  unheld := fun n u => by
    rw [husers]
    exact h.unheld n u

theorem alone_op {α : Type} {op : Op} {k : op.Reply → Request α} {r : op.Reply} (h : exec (f 0) op db = some (r, db')) :
    alone (.op op k) f db = alone (k r) (fun n => f (n + 1)) db' :=
  Prog.run_op _ (Prog.fed_eq h)

theorem exec_fresh (f : Nat → Choice) (db : Db) : exec (f 0) .fresh db = some (((f 0).now, (f 0).uuid), db) := rfl

theorem exec_findByToken (h : Answering f db) (token : String) : exec (f 0) (.findByToken token) db =
    some (.ok (db.users.rows.find? fun u => u.agentToken == some token), db) := by
  rw [exec, h.ok 0]
  rfl

theorem exec_findById (h : Answering f db) (id : String) : exec (f 0) (.findById id) db =
    some (.ok (db.users.rows.find? fun u => u.id == id), db) := by
  rw [exec, h.ok 0]
  rfl

theorem exec_storeToken {ch : Choice} {token : String} (userId : String) (hok : ch.outcome = .ok)
    (hunheld : ∀ u ∈ db.users.rows, u.agentToken ≠ some token) (hnew : db.hasGiven token = false) :
    exec ch (.storeToken userId token) db = some (.ok (), db.giveToken userId token hunheld) := by
  rw [exec, dif_pos hunheld, hnew, hok]
  rfl

theorem alone_storeNewToken (h : Answering f db) (userId : String) (user : User) :
    alone (storeNewToken userId user) f db =
      some (.ok ⟨buildPersonalToken user (f 0).uuid, userName user⟩, fun n => f (n + 1 + 1),
        db.giveToken userId (buildPersonalToken user (f 0).uuid) (h.unheld 0 user)) := by
  have hstore := exec_storeToken userId (h.ok 1) (h.unheld 0 user) (h.new 0 user)
  apply (alone_op (exec_fresh f db)).trans
  exact alone_op (f := fun n => f (n + 1)) hstore

theorem alone_rotateAgentToken (h : Answering f db) (userId : String) : ∃ r f' db',
    alone (rotateAgentToken userId) f db = some (r, f', db') ∧ db'.devices = db.devices := by
  have hread := exec_findById h userId
  cases hu : db.users.rows.find? (fun u => u.id == userId) with
  | none =>
      rw [hu] at hread
      exact ⟨.error "User not found", fun n => f (n + 1), db, alone_op hread, rfl⟩
  | some user =>
      rw [hu] at hread
      exact ⟨_, _, _, (alone_op hread).trans (alone_storeNewToken h.tail userId user), rfl⟩

theorem alone_registerDevice (h : Answering f db) (dto : RegisterAgentDto) (user : User) : ∃ f' db',
    alone (registerDevice dto user) f db = some (.ok ⟨(f 0).uuid, user.id, user.organizationId⟩, f', db') ∧
      db'.devices = db.devices ++ [newDevice dto user (f 0).uuid (f 0).now] := by
  let saved := db.saveDevice (newDevice dto user (f 0).uuid (f 0).now) (truthy dto.personalToken)
  let saved' : Db := { saved with burning := (truthy dto.personalToken).toList ++ saved.burning }
  have hsave : exec (f 1) (.save (newDevice dto user (f 0).uuid (f 0).now) (truthy dto.personalToken)) db =
      some (.ok (), saved') := by
    rw [exec, h.ok 1]
  have hanswering : Answering (fun n => f (n + 1 + 1)) saved' := h.tail.tail.of_eq rfl rfl
  obtain ⟨r, f', db', hrotate, hdevices⟩ := alone_rotateAgentToken hanswering user.id
  have hend : ∃ db'', exec (f' 0) (.registered (truthy dto.personalToken) r.isOk) db' = some ((), db'') ∧
      db''.devices = db'.devices := by
    cases truthy dto.personalToken with
    | none => exact ⟨db', rfl, rfl⟩
    | some token =>
        refine ⟨_, rfl, ?_⟩
        unfold Db.endRegistration
        split_ifs <;> rfl
  obtain ⟨db'', hregistered, hdevices'⟩ := hend
  refine ⟨fun n => f' (n + 1), db'', ?_, hdevices'.trans hdevices⟩
  refine (alone_op (exec_fresh f db)).trans ((alone_op hsave).trans ?_)
  exact (Prog.run_bind_of _ hrotate).trans (alone_op hregistered)

/-! ## The endpoint -/

/-- A body with this token, and otherwise in order. -/
structure RegisterAgentDto.Presents (dto : RegisterAgentDto) (token : String) : Prop where
  personalToken : dto.personalToken = some token
  inviteToken : truthy dto.inviteToken = none
  displayName : ∀ name, dto.displayName = some name → name.length ≤ 255

/-- The body, presented to the endpoint, registers a device for the user. -/
def Registers (userId : String) (dto : RegisterAgentDto) (f : Nat → Choice) (db : Db) : Prop :=
  ∃ r f' db' device, alone (register dto) f db = some (.ok (.ok r), f', db') ∧ r.employeeId = userId ∧
    db'.devices = db.devices ++ [device] ∧ device.userId = userId ∧ device.deviceToken = r.agentToken

variable {dto : RegisterAgentDto} {token : String}

/-- Only the form of the token can be refused. -/
theorem RegisterAgentDto.Presents.errors_eq (h : dto.Presents token) :
    dto.errors = if isUUID token then [] else [⟨"personalToken", "personalToken must be a UUID"⟩] := by
  have hname : checkOptional "displayName" "displayName must be shorter than or equal to 255 characters"
      (·.length ≤ 255) dto.displayName = [] := by
    cases hd : dto.displayName with
    | none => rfl
    | some name => exact if_pos (decide_eq_true (h.displayName name hd))
  rw [RegisterAgentDto.errors, hname, List.append_nil, h.personalToken]
  rfl

theorem truthy_of_isUUID (h : isUUID token = true) : truthy (some token) = some token := by
  have hne : token ≠ "" := by
    rintro rfl
    exact absurd h (by decide)
  simp [truthy, hne]

theorem findByToken_eq {u : User} (hu : u ∈ db.users.rows) (htoken : u.agentToken = some token) :
    db.users.rows.find? (fun u => u.agentToken == some token) = some u := by
  cases hfind : db.users.rows.find? (fun u => u.agentToken == some token) with
  | none => simpa [htoken] using List.find?_eq_none.mp hfind u hu
  | some v =>
      have hv : v.agentToken = some token := by simpa using List.find?_some hfind
      rw [db.users.eq_of_token (List.mem_of_find?_eq_some hfind) hu hv htoken]

theorem alone_registerAgent (h : Answering f db) (hdto : dto.Presents token) (huuid : isUUID token = true) {u : User}
    (hu : u ∈ db.users.rows) (htoken : u.agentToken = some token) : alone (registerAgent dto) f db =
      alone (if u.isActive then registerDevice dto u else pure (.error "User not found or inactive"))
        (fun n => f (n + 1)) db := by
  have hfound := exec_findByToken h token
  rw [findByToken_eq hu htoken] at hfound
  unfold registerAgent
  rw [hdto.personalToken, truthy_of_isUUID huuid, hdto.inviteToken]
  exact alone_op hfound

/-- **A token that a user has registers a device for the user if and only if it is a UUID and the user is active.** -/
theorem registers_of_held (h : Answering f db) (hdto : dto.Presents token) {u : User} (hu : u ∈ db.users.rows)
    (htoken : u.agentToken = some token) : Registers u.id dto f db ↔ isUUID token = true ∧ u.isActive = true := by
  constructor
  · rintro ⟨r, f', db', device, hrun, -⟩
    unfold register at hrun
    rw [hdto.errors_eq] at hrun
    by_cases huuid : isUUID token = true
    · refine ⟨huuid, ?_⟩
      by_contra hinactive
      rw [if_pos huuid, if_pos rfl] at hrun
      have hagent := alone_registerAgent h hdto huuid hu htoken
      rw [if_neg hinactive] at hagent
      have hended := (Prog.run_bind_of _ hagent).symm.trans hrun
      exact absurd (congrArg Prod.fst (Option.some.inj hended)) (by simp)
    · rw [if_neg huuid, if_neg (List.cons_ne_nil _ _)] at hrun
      exact absurd (congrArg Prod.fst (Option.some.inj hrun)) (by simp)
  · rintro ⟨huuid, hactive⟩
    have hagent := alone_registerAgent h hdto huuid hu htoken
    rw [if_pos hactive] at hagent
    obtain ⟨f', db', hdevice, hdevices⟩ := alone_registerDevice h.tail dto u
    refine ⟨⟨(f 1).uuid, u.id, u.organizationId⟩, f', db', _, ?_, rfl, hdevices, rfl, rfl⟩
    unfold register
    rw [hdto.errors_eq, if_pos huuid, if_pos rfl]
    exact Prog.run_bind_of _ (hagent.trans hdevice)

/-- **When a token that was handed out is accepted.** Presented while it is still its user's, it registers a device for the
user if and only if it was asked for without a rotation, was in the table as a UUID, and the user is active. -/
theorem registers_iff {request : TokenRequest} {userId : String} {view : TokenView} {g : Nat → Choice}
    {s : (Nat → Choice) × Db} {u : User} (hview : alone (request.body userId) f db = some (.ok view, s))
    (hu : u ∈ db'.users.rows) (hid : u.id = userId) (hkept : u.agentToken = some view.token) (hg : Answering g db')
    (hdto : dto.Presents view.token) :
    Registers userId dto g db' ↔ request = .getOrGenerate ∧ u.isActive = true ∧
      ∃ v ∈ db.users.rows, v.id = userId ∧ ∃ token, v.agentToken = some token ∧ isUUID token = true := by
  subst hid
  rw [registers_of_held hg hdto hu hkept]
  rcases token_of_request hview with ⟨hrequest, v, hv, hid, htoken⟩ | ⟨hnone, w, uuid, hbuilt⟩
  · have hstored : v.agentToken = some view.token := (Option.filter_eq_some_iff.mp htoken).1
    constructor
    · rintro ⟨huuid, hactive⟩
      exact ⟨hrequest, hactive, v, hv, hid, view.token, hstored, huuid⟩
    · rintro ⟨-, hactive, v', hv', hid', token, htoken', huuid⟩
      obtain rfl := db.users.eq_of_id hv hv' (hid.trans hid'.symm)
      obtain rfl := Option.some.inj (hstored.symm.trans htoken')
      exact ⟨huuid, hactive⟩
  · rw [hbuilt, not_isUUID_buildPersonalToken]
    constructor
    · rintro ⟨hfalse, -⟩
      exact nomatch hfalse
    · rintro ⟨hrequest, -, v', hv', hid', token, htoken', huuid⟩
      obtain ⟨v, hv, hid, hempty⟩ := hnone hrequest
      obtain rfl := db.users.eq_of_id hv hv' (hid.trans hid'.symm)
      rw [htoken', truthy_of_isUUID huuid] at hempty
      exact nomatch hempty

end

/-! ### A token found and a token built -/

section Examples

/-- Every call succeeds, with this random number. -/
def always (uuid : String) (_ : Nat) : Choice := answers uuid

theorem presents_token (token : String) : (presents token).Presents token := ⟨rfl, rfl, fun _ h => nomatch h⟩

theorem storedToken_ne (u : User) (uuid : String) : storedToken ≠ buildPersonalToken u uuid := by
  intro heq
  have hbuilt := not_isUUID_buildPersonalToken u uuid
  rw [← heq] at hbuilt
  exact absurd hbuilt (by decide +kernel)

theorem answering_start (uuid : String) : Answering (always uuid) (Db.start oneUser) where
  ok := fun _ => rfl
  new := fun _ u => by simp [Db.hasGiven, Db.start, givenTo, oneUser, alice, always, answers, storedToken_ne]
  unheld := fun _ u v hv => by
    obtain rfl := List.mem_singleton.mp hv
    exact fun heq => storedToken_ne u uuid (Option.some.inj heq)

/-- The token that the table had from the start is accepted. -/
theorem registers_iff_found : Registers "u" (presents storedToken) (always "7f3a") (Db.start oneUser) := by
  have hview : alone (TokenRequest.getOrGenerate.body "u") (always "7f3a") (Db.start oneUser) =
      some (.ok ⟨storedToken, userName alice⟩, always "7f3a", Db.start oneUser) := by
    exact alone_op (exec_findById (answering_start "7f3a") "u")
  exact (registers_iff hview (List.mem_singleton.mpr rfl) rfl rfl (answering_start "7f3a") (presents_token storedToken)).mpr
    ⟨rfl, rfl, alice, List.mem_singleton.mpr rfl, rfl, storedToken, rfl, by decide +kernel⟩

/-- The token that a rotation returned is refused. -/
theorem not_registers_rotated : ¬ ∀ (request : TokenRequest) (userId : String) (f g : Nat → Choice) (db db' : Db)
    (view : TokenView) (s : (Nat → Choice) × Db) (u : User) (dto : RegisterAgentDto),
    alone (request.body userId) f db = some (.ok view, s) → u ∈ db'.users.rows → u.id = userId →
    u.agentToken = some view.token → u.isActive = true → Answering g db' → dto.Presents view.token →
    Registers userId dto g db' := by
  intro h
  let token := buildPersonalToken alice "7f3a"
  have hstart := answering_start "7f3a"
  let rotated := (Db.start oneUser).giveToken "u" token (hstart.unheld 1 alice)
  have hview : alone (TokenRequest.rotate.body "u") (always "7f3a") (Db.start oneUser) =
      some (.ok ⟨token, userName alice⟩, always "7f3a", rotated) :=
    (alone_op (exec_findById hstart "u")).trans (alone_storeNewToken hstart.tail "u" alice)
  have hother : ∀ v, buildPersonalToken v "9c1e" ≠ token := fun v heq =>
    absurd (digits_of_buildPersonalToken heq) (by decide +kernel)
  have hanswering : Answering (always "9c1e") rotated := by
    refine ⟨fun _ => rfl, fun _ v => ?_, fun _ v w hw => ?_⟩
    · have hgiven : rotated.given = [⟨token, "u"⟩, ⟨storedToken, "u"⟩] := rfl
      simp [Db.hasGiven, hgiven, always, answers, storedToken_ne, (hother v).symm]
    · obtain rfl := List.mem_singleton.mp hw
      exact fun heq => hother v (Option.some.inj heq).symm
  have hregisters := h .rotate "u" _ _ _ rotated _ _ (alice.withToken "u" token) _ hview (List.mem_singleton.mpr rfl)
    rfl rfl rfl hanswering (presents_token token)
  have huuid := ((registers_of_held hanswering (presents_token token) (List.mem_singleton.mpr rfl) rfl).mp hregisters).1
  rw [not_isUUID_buildPersonalToken] at huuid
  exact nomatch huuid

end Examples

end TimeChamp.Registration
