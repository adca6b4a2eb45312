import Mathlib.Data.List.Pairwise
import TimeChamp.Lib.Pool
import TimeChamp.Registration.PersonalToken

/-!
# The registration of agents

A user copies a personal token from the dashboard into an agent, which registers a device with it; the registration
then rotates the token. Requests are programs over awaited calls; between two calls of one any others may take theirs.

* `UserTable` : the users, with the two constraints of their table;
* `Db`, `Op`, `exec` : the tables and what happened so far, and the awaited calls, which may fail before or after they
  took effect; random tokens are new;
* `getOrGenerateAgentToken`, `rotateAgentToken`, `registerAgent` : the programs;
* `RegisterAgentDto.errors`, `register` : the endpoint, which validates first;
* `service` : any number of requests.
-/

namespace TimeChamp.Registration
open Lib

/-! ## Users -/

/-- The table of users: an id is one user's, and so is a token. -/
structure UserTable where
  rows : List User
  ids : (rows.map User.id).Nodup
  tokens : rows.Pairwise fun u v => ∀ token, u.agentToken = some token → v.agentToken ≠ some token

/-- A user's own fields. -/
structure UserUpdate where
  firstName : String
  lastName : String
  isActive : Bool

def User.assign (userId : String) (dto : UserUpdate) (u : User) : User :=
  if u.id = userId then { u with firstName := dto.firstName, lastName := dto.lastName, isActive := dto.isActive } else u

def User.withToken (userId token : String) (u : User) : User :=
  if u.id = userId then { u with agentToken := some token } else u

@[simp] theorem User.assign_id (userId : String) (dto : UserUpdate) (u : User) : (u.assign userId dto).id = u.id := by
  unfold User.assign
  split_ifs <;> rfl

@[simp] theorem User.assign_agentToken (userId : String) (dto : UserUpdate) (u : User) :
    (u.assign userId dto).agentToken = u.agentToken := by
  unfold User.assign
  split_ifs <;> rfl

@[simp] theorem User.withToken_id (userId token : String) (u : User) : (u.withToken userId token).id = u.id := by
  unfold User.withToken
  split_ifs <;> rfl

/-- Who has a token afterwards had it before, or is the one who was given it. -/
theorem User.withToken_eq_some {userId token t : String} {u : User} (h : (u.withToken userId token).agentToken = some t) :
    u.id = userId ∧ token = t ∨ u.id ≠ userId ∧ u.agentToken = some t := by
  unfold User.withToken at h
  split_ifs at h with hid
  · exact Or.inl ⟨hid, Option.some.inj h⟩
  · exact Or.inr ⟨hid, h⟩

namespace UserTable

/-- A new user, under a new id, with a new token if any. -/
def insert (t : UserTable) (user : User) (hid : ∀ u ∈ t.rows, u.id ≠ user.id)
    (htoken : ∀ u ∈ t.rows, user.agentToken.isSome = true → u.agentToken ≠ user.agentToken) : UserTable where
  rows := user :: t.rows
  ids := by
    rw [List.map_cons, List.nodup_cons]
    refine ⟨fun hmem => ?_, t.ids⟩
    obtain ⟨u, hu, heq⟩ := List.mem_map.mp hmem
    exact hid u hu heq
  tokens := by
    refine List.pairwise_cons.mpr ⟨fun u hu token hsome heq => ?_, t.tokens⟩
    exact htoken u hu (by rw [hsome]; rfl) (heq.trans hsome.symm)

/-- The update of a user. -/
def assign (t : UserTable) (userId : String) (dto : UserUpdate) : UserTable where
  rows := t.rows.map (User.assign userId dto)
  ids := by
    rw [List.map_map, show User.id ∘ User.assign userId dto = User.id from funext (User.assign_id userId dto)]
    exact t.ids
  tokens := by
    refine List.pairwise_map.mpr (t.tokens.imp fun {u v} h token => ?_)
    rw [User.assign_agentToken, User.assign_agentToken]
    exact h token

/-- A user is given a token that nobody has. -/
def setToken (t : UserTable) (userId token : String) (hnew : ∀ u ∈ t.rows, u.agentToken ≠ some token) : UserTable where
  rows := t.rows.map (User.withToken userId token)
  ids := by
    rw [List.map_map, show User.id ∘ User.withToken userId token = User.id from funext (User.withToken_id userId token)]
    exact t.ids
  tokens := by
    have hids := List.pairwise_map.mp t.ids
    refine List.pairwise_map.mpr ((List.Pairwise.and hids t.tokens).imp_of_mem fun {u v} hu hv h t' hsome heq => ?_)
    rcases User.withToken_eq_some hsome with ⟨huid, rfl⟩ | ⟨-, hu'⟩
    · rcases User.withToken_eq_some heq with ⟨hvid, -⟩ | ⟨-, hv'⟩
      · exact h.1 (huid.trans hvid.symm)
      · exact hnew v hv hv'
    · rcases User.withToken_eq_some heq with ⟨-, rfl⟩ | ⟨-, hv'⟩
      · exact hnew u hu hu'
      · exact h.2 t' hu' hv'

theorem eq_of_id (t : UserTable) {u v : User} (hu : u ∈ t.rows) (hv : v ∈ t.rows) (h : u.id = v.id) : u = v :=
  List.inj_on_of_nodup_map t.ids hu hv h

theorem eq_of_token (t : UserTable) {u v : User} {token : String} (hu : u ∈ t.rows) (hv : v ∈ t.rows)
    (hut : u.agentToken = some token) (hvt : v.agentToken = some token) : u = v := by
  by_contra hne
  have hsymm : Std.Symm fun u v : User => ∀ token, u.agentToken = some token → v.agentToken ≠ some token :=
    ⟨fun _ _ h t h1 h2 => h t h2 h1⟩
  exact t.tokens.forall hu hv hne token hut hvt

end UserTable

/-! ## Tables and calls -/

structure AgentDevice where
  organizationId : String
  userId : String
  deviceToken : String
  displayName : Option String
  hostname : Option String
  platform : Option String
  agentVersion : Option String
  lastSeenAt : Int
deriving DecidableEq

/-- A personal token, and the user it was given to. -/
structure Given where
  token : String
  userId : String
deriving DecidableEq

/-- The tables. The rest is history: the tokens users ever had; those with which a device was saved, once for each device;
of these, those whose registration is still to end, those whose registration ended with the token rotated, and those
whose registration ended without. -/
structure Db where
  users : UserTable
  devices : List AgentDevice
  given : List Given
  registrations : List String
  burning : List String
  burned : List String
  unburned : List String

/-- The tokens of these users. -/
def givenTo (users : List User) : List Given := users.filterMap fun u => u.agentToken.map fun token => ⟨token, u.id⟩

def Db.start (users : UserTable) : Db := ⟨users, [], givenTo users.rows, [], [], [], []⟩

/-- The awaited calls. `fresh` is what a request reads without awaiting; `registered` is the end of a registration. The
device that is saved goes with the personal token it is saved for. -/
inductive Op where
  | findByToken (token : String)
  | consumeInvite (token : String)
  | findById (id : String)
  | fresh
  | save (device : AgentDevice) (personalToken : Option String)
  | storeToken (userId token : String)
  | registered (personalToken : Option String) (rotated : Bool)
deriving DecidableEq

abbrev Op.Reply : Op → Type
  | .findByToken _ => Except String (Option User)
  | .consumeInvite _ => Except String (Option String)
  | .findById _ => Except String (Option User)
  | .fresh => Int × String
  | .save _ _ => Except String Unit
  | .storeToken _ _ => Except String Unit
  | .registered _ _ => Unit

/-- What the outside decides: how a call ends, the clock, `randomUUID`, and the user of an invite. -/
structure Choice where
  outcome : Outcome
  now : Int
  uuid : String
  invited : Option String

def databaseError : String := "database error"

def Db.hasGiven (db : Db) (token : String) : Bool := db.given.any (·.token == token)

/-- The device is saved, for this token. -/
def Db.saveDevice (db : Db) (device : AgentDevice) (personalToken : Option String) : Db :=
  { db with devices := db.devices ++ [device], registrations := personalToken.toList ++ db.registrations }

/-- The end of a registration with this token. -/
def Db.endRegistration (db : Db) (token : String) (rotated : Bool) : Db :=
  if rotated then { db with burning := db.burning.erase token, burned := token :: db.burned }
  else { db with burning := db.burning.erase token, unburned := token :: db.unburned }

/-- A user is given a token that nobody has. -/
def Db.giveToken (db : Db) (userId token : String) (hnew : ∀ u ∈ db.users.rows, u.agentToken ≠ some token) : Db :=
  { db with users := db.users.setToken userId token hnew, given := ⟨token, userId⟩ :: db.given }

def exec (ch : Choice) : (op : Op) → Db → Option (op.Reply × Db)
  | .findByToken token, db =>
    some (ch.outcome.answer databaseError (db.users.rows.find? fun u => u.agentToken == some token) db db)
  | .consumeInvite _, db => some (ch.outcome.answer databaseError ch.invited db db)
  | .findById id, db => some (ch.outcome.answer databaseError (db.users.rows.find? fun u => u.id == id) db db)
  | .fresh, db => some ((ch.now, ch.uuid), db)
  | .save device personalToken, db =>
    match ch.outcome with
    | .ok =>
      let db' := db.saveDevice device personalToken
      some (.ok (), { db' with burning := personalToken.toList ++ db'.burning })
    | .failed => some (.error databaseError, db)
    | .lost =>
      let db' := db.saveDevice device personalToken
      some (.error databaseError, { db' with unburned := personalToken.toList ++ db'.unburned })
  | .storeToken userId token, db =>
    -- a random UUID was never seen before
    if hnew : ∀ u ∈ db.users.rows, u.agentToken ≠ some token then
      if db.hasGiven token then none
      else some (ch.outcome.answer databaseError () db (db.giveToken userId token hnew))
    else none
  | .registered none _, db => some ((), db)
  | .registered (some token) rotated, db => some ((), db.endRegistration token rotated)

/-! ## Programs -/

abbrev Request := Prog Op Op.Reply

namespace Request
abbrev findByToken (token : String) : Request (Except String (Option User)) := .perform (E := Op) (.findByToken token)
abbrev consumeInvite (token : String) : Request (Except String (Option String)) :=
  .perform (E := Op) (.consumeInvite token)
abbrev findById (id : String) : Request (Except String (Option User)) := .perform (E := Op) (.findById id)
abbrev fresh : Request (Int × String) := .perform (E := Op) .fresh
abbrev save (device : AgentDevice) (personalToken : Option String) : Request (Except String Unit) :=
  .perform (E := Op) (.save device personalToken)
abbrev storeToken (userId token : String) : Request (Except String Unit) := .perform (E := Op) (.storeToken userId token)
abbrev registered (personalToken : Option String) (rotated : Bool) : Request Unit :=
  .perform (E := Op) (.registered personalToken rotated)
end Request

open Request

/-- What the dashboard shows. -/
structure TokenView where
  token : String
  userName : String
deriving DecidableEq

/-- Build a token and store it, with what was read of the user. -/
def storeNewToken (userId : String) (user : User) : Request (Except String TokenView) := do
  let (_, uuid) ← fresh
  match ← storeToken userId (buildPersonalToken user uuid) with
  | .error e => pure (.error e)
  | .ok _ => pure (.ok ⟨buildPersonalToken user uuid, userName user⟩)

/-- An optional text that is there and not empty. -/
def truthy (s : Option String) : Option String := s.filter (· ≠ "")

def getOrGenerateAgentToken (userId : String) : Request (Except String TokenView) := do
  match ← findById userId with
  | .error e => pure (.error e)
  | .ok none => pure (.error "User not found")
  | .ok (some user) =>
    match truthy user.agentToken with
    | some token => pure (.ok ⟨token, userName user⟩)
    | none => storeNewToken userId user

def rotateAgentToken (userId : String) : Request (Except String TokenView) := do
  match ← findById userId with
  | .error e => pure (.error e)
  | .ok none => pure (.error "User not found")
  | .ok (some user) => storeNewToken userId user

structure RegisterAgentDto where
  inviteToken : Option String
  personalToken : Option String
  displayName : Option String
  hostname : Option String
  os : Option String
  agentVersion : Option String

/-- What a registration answers. -/
structure Registered where
  agentToken : String
  employeeId : String
  orgId : String
deriving DecidableEq

/-- Whose token it is: a personal one, or else an invite. -/
def resolveUser (personalToken : Option String) (inviteToken : String) : Request (Except String User) :=
  match personalToken with
  | some token => do
    match ← findByToken token with
    | .error e => pure (.error e)
    | .ok none => pure (.error "Invalid personal agent token")
    | .ok (some user) => pure (.ok user)
  | none => do
    match ← consumeInvite inviteToken with
    | .error e => pure (.error e)
    | .ok userId =>
      match truthy userId with
      | none => pure (.error "Invalid or expired invite token")
      | some userId =>
        match ← findById userId with
        | .error e => pure (.error e)
        | .ok none => pure (.error "User not found or inactive")
        | .ok (some user) => pure (.ok user)

/-- The new row. -/
def newDevice (dto : RegisterAgentDto) (user : User) (deviceToken : String) (now : Int) : AgentDevice where
  organizationId := user.organizationId
  userId := user.id
  deviceToken := deviceToken
  displayName := (truthy (dto.displayName.map trim)).or (truthy dto.hostname)
  hostname := dto.hostname
  platform := dto.os
  agentVersion := dto.agentVersion
  lastSeenAt := now

/-- Save the device, then rotate; how the rotation ends does not matter. -/
def registerDevice (dto : RegisterAgentDto) (user : User) : Request (Except String Registered) := do
  let (now, deviceToken) ← fresh
  match ← save (newDevice dto user deviceToken now) (truthy dto.personalToken) with
  | .error e => pure (.error e)
  | .ok _ =>
    let rotated ← rotateAgentToken user.id
    registered (truthy dto.personalToken) rotated.isOk
    pure (.ok ⟨deviceToken, user.id, user.organizationId⟩)

def registerAgent (dto : RegisterAgentDto) : Request (Except String Registered) :=
  match truthy dto.personalToken, truthy dto.inviteToken with
  | none, none => pure (.error "Missing personalToken or inviteToken")
  | some _, some _ => pure (.error "Provide only one of personalToken or inviteToken")
  | personalToken, inviteToken => do
    match ← resolveUser personalToken (inviteToken.getD "") with
    | .error e => pure (.error e)
    | .ok user => if user.isActive then registerDevice dto user else pure (.error "User not found or inactive")

/-! ## The endpoint -/

/-- A field that was refused, and why. -/
structure FieldError where
  property : String
  message : String
deriving DecidableEq

/-- An optional field is checked if it is there. -/
def checkOptional (property message : String) (valid : String → Bool) : Option String → List FieldError
  | none => []
  | some s => if valid s then [] else [⟨property, message⟩]

/-- What the validation of a body refuses. -/
def RegisterAgentDto.errors (dto : RegisterAgentDto) : List FieldError :=
  checkOptional "personalToken" "personalToken must be a UUID" isUUID dto.personalToken ++
    checkOptional "displayName" "displayName must be shorter than or equal to 255 characters" (·.length ≤ 255)
      dto.displayName

/-- `POST /agent/register`: what the validation refuses, or else what the service answers. -/
def register (dto : RegisterAgentDto) : Request (Except (List FieldError) (Except String Registered)) :=
  if dto.errors = [] then do
    let r ← registerAgent dto
    pure (.ok r)
  else pure (.error dto.errors)

/-! ## Requests -/

/-- A request, or a change of the users. -/
inductive Call where
  | getOrGenerateAgentToken (userId : String)
  | rotateAgentToken (userId : String)
  | registerAgent (dto : RegisterAgentDto)
  | addUser (user : User)
  | updateUser (userId : String) (dto : UserUpdate)

def Call.body : Call → Request Unit
  | .getOrGenerateAgentToken userId => do let _ ← Registration.getOrGenerateAgentToken userId
  | .rotateAgentToken userId => do let _ ← Registration.rotateAgentToken userId
  | .registerAgent dto => do let _ ← Registration.registerAgent dto
  | .addUser _ => pure ()
  | .updateUser _ _ => pure ()

/-- A user that is added may come with a new token. -/
def Call.admits : Call → Db → Option Db
  | .addUser user, db =>
    if hid : ∀ u ∈ db.users.rows, u.id ≠ user.id then
      if htoken : ∀ u ∈ db.users.rows, user.agentToken.isSome = true → u.agentToken ≠ user.agentToken then
        if user.agentToken.any db.hasGiven then none
        else some { db with users := db.users.insert user hid htoken, given := givenTo [user] ++ db.given }
      else none
    else none
  | .updateUser userId dto, db => some { db with users := db.users.assign userId dto }
  | _, db => some db

def service : System Op Op.Reply Db Choice Call := ⟨exec, Call.admits, Call.body⟩

abbrev Running (ι : Type) := Config ι Op Op.Reply Db

/-! ### A user with a token -/

section Fixtures

def storedToken : String := "123e4567-e89b-12d3-a456-426614174000"

def alice : User := ⟨"u", "o", "a@x", "A", "B", true, some storedToken⟩

def oneUser : UserTable := ⟨[alice], by decide, by simp⟩

/-- The body of an agent with this token. -/
def presents (token : String) : RegisterAgentDto := ⟨none, some token, none, some "laptop", none, none⟩

/-- A call succeeds, with this random number. -/
def answers (uuid : String) : Choice := ⟨.ok, 0, uuid, none⟩

end Fixtures

end TimeChamp.Registration
