import TimeChamp.Accounts.Service
import TimeChamp.Api.Redis
import TimeChamp.Lib.Json
import TimeChamp.Lib.Pool

/-!
# The guard of the agents

An agent presents the token of its device. The guard looks the device and its user up and keeps what it found for five
minutes, under a key made of the token.

* `AgentDevice`, `User`, `Tables` : the rows, and how the tables may change while requests run;
* `Payload` : what is kept, as JSON; `parse_stringify` : **it is read back**;
* `Op`, `exec` : the awaited calls, which may fail before or after they took effect, with the clock;
* `canActivate` : the guard; `guard` : any number of requests and changes of the tables.
-/

namespace TimeChamp.AgentAuth
open Lib Api
open Accounts (UserRole)

/-! ## Rows -/

structure AgentDevice where
  id : String
  userId : String
  deviceToken : String
  displayName : Option String
  hostname : Option String
  isActive : Bool
deriving DecidableEq

structure User where
  id : String
  organizationId : String
  email : String
  firstName : String
  lastName : String
  role : UserRole
  isActive : Bool
deriving DecidableEq

/-- The tables, with the constraints of their schema. -/
structure Tables where
  devices : List AgentDevice
  users : List User
  tokens : (devices.map AgentDevice.deviceToken).Nodup
  ids : (users.map User.id).Nodup

/-- The rows are the same, but for who is active. -/
def AgentDevice.Same (d d' : AgentDevice) : Prop := { d with isActive := d'.isActive } = d'

/-- The user is the same, in the same organization. -/
def User.Same (u u' : User) : Prop := u.id = u'.id ∧ u.organizationId = u'.organizationId

instance (d d' : AgentDevice) : Decidable (d.Same d') := inferInstanceAs (Decidable (_ = _))

instance (u u' : User) : Decidable (u.Same u') := inferInstanceAs (Decidable (_ ∧ _))

/-- Devices are registered, activated and deactivated; users are, and their own fields may change. -/
def Tables.Later (t t' : Tables) : Prop :=
  (∀ d ∈ t.devices, ∃ d' ∈ t'.devices, d.Same d') ∧ ∀ u ∈ t.users, ∃ u' ∈ t'.users, u.Same u'

instance (t t' : Tables) : Decidable (t.Later t') := inferInstanceAs (Decidable (_ ∧ _))

theorem AgentDevice.Same.refl (d : AgentDevice) : d.Same d := rfl

theorem AgentDevice.Same.trans {d d' d'' : AgentDevice} (h : d.Same d') (h' : d'.Same d'') : d.Same d'' := by
  unfold AgentDevice.Same at h h' ⊢
  rw [← h', ← h]

theorem User.Same.trans {u u' u'' : User} (h : u.Same u') (h' : u'.Same u'') : u.Same u'' :=
  ⟨h.1.trans h'.1, h.2.trans h'.2⟩

/-! ## What is kept -/

structure CompactUser where
  id : String
  organizationId : String
  role : UserRole
  isActive : Bool
deriving DecidableEq

structure CompactDevice where
  id : String
  displayName : Option String
  hostname : Option String
deriving DecidableEq

structure Payload where
  user : CompactUser
  device : CompactDevice
deriving DecidableEq

def User.compact (user : User) : CompactUser := ⟨user.id, user.organizationId, user.role, user.isActive⟩

def AgentDevice.compact (device : AgentDevice) : CompactDevice := ⟨device.id, device.displayName, device.hostname⟩

/-- The value of a role. -/
def roleName : UserRole → String
  | .admin => "admin"
  | .manager => "manager"
  | .employee => "employee"

def roleOf (name : String) : Option UserRole :=
  [UserRole.admin, .manager, .employee].find? fun role => roleName role = name

def CompactUser.text (user : CompactUser) : Json.Text :=
  Json.object [("id", Json.quote user.id), ("organizationId", Json.quote user.organizationId),
    ("role", Json.quote (roleName user.role)), ("isActive", Json.booleanText user.isActive)]

def CompactDevice.text (device : CompactDevice) : Json.Text :=
  Json.object [("id", Json.quote device.id), ("displayName", Json.nullableText Json.quote device.displayName),
    ("hostname", Json.nullableText Json.quote device.hostname)]

/-- `JSON.stringify`. -/
def Payload.stringify (payload : Payload) : String :=
  String.ofList (Json.object [("user", payload.user.text), ("device", payload.device.text)])

def readRole : Json.Reader UserRole := do
  let name ← Json.string
  (roleOf name : Option UserRole)

def readUser : Json.Reader CompactUser := do
  let id ← Json.first "id" Json.string
  let organizationId ← Json.next "organizationId" Json.string
  let role ← Json.next "role" readRole
  let isActive ← Json.next "isActive" Json.boolean
  Json.close ⟨id, organizationId, role, isActive⟩

def readDevice : Json.Reader CompactDevice := do
  let id ← Json.first "id" Json.string
  let displayName ← Json.next "displayName" (Json.nullable Json.string)
  let hostname ← Json.next "hostname" (Json.nullable Json.string)
  Json.close ⟨id, displayName, hostname⟩

def readPayload : Json.Reader Payload := do
  let user ← Json.first "user" readUser
  let device ← Json.next "device" readDevice
  Json.close ⟨user, device⟩

/-- `JSON.parse`, for texts that the guard may have written; it throws on any other. -/
def Payload.parse (cached : String) : Option Payload := Json.parse readPayload cached

theorem reads_role (role : UserRole) : Json.Reads readRole (Json.quote (roleName role)) role := by
  have hrole : roleOf (roleName role) = some role := by cases role <;> decide
  intro rest
  have hstring := Json.reads_string (roleName role) rest
  show (Json.string.run _).bind (fun p => ((roleOf p.1 : Option UserRole).bind fun role => some (role, p.2))) = _
  rw [hstring, Option.bind_some, hrole, Option.bind_some]

theorem reads_user (user : CompactUser) : Json.Reads readUser user.text user :=
  (Json.reads_first (Json.reads_string user.id) "id").bind
    ((Json.reads_next (Json.reads_string user.organizationId) "organizationId").bind
      ((Json.reads_next (reads_role user.role) "role").bind
        ((Json.reads_next (Json.reads_boolean user.isActive) "isActive").bind (Json.reads_close user))))

theorem reads_name (name : Option String) :
    Json.Reads (Json.nullable Json.string) (Json.nullableText Json.quote name) name :=
  Json.reads_nullable Json.reads_string Json.notNull_quote name

theorem reads_device (device : CompactDevice) : Json.Reads readDevice device.text device :=
  (Json.reads_first (Json.reads_string device.id) "id").bind
    ((Json.reads_next (reads_name device.displayName) "displayName").bind
      ((Json.reads_next (reads_name device.hostname) "hostname").bind (Json.reads_close device)))

/-- **What is kept is read back.** -/
@[simp] theorem parse_stringify (payload : Payload) : Payload.parse payload.stringify = some payload := by
  have hread : Json.Reads readPayload (Json.object [("user", payload.user.text), ("device", payload.device.text)])
      payload :=
    (Json.reads_first (reads_user payload.user) "user").bind
      ((Json.reads_next (reads_device payload.device) "device").bind (Json.reads_close payload))
  exact hread.parse

/-! ## Calls -/

/-- What a request is given: the entity that was found, or what was kept of it. -/
inductive AgentUser where
  | entity (user : User)
  | compact (user : CompactUser)

def AgentUser.identity : AgentUser → CompactUser
  | .entity user => user.compact
  | .compact user => user

/-- The awaited calls, and for the record the clock when a lookup starts and who is let in at what time. The tables
change and entries of the store are lost on their own. -/
inductive Op where
  | get (key : String)
  | now
  | findDeviceByToken (token : String)
  | findUser (id : String)
  | set (key value : String) (ttlSeconds : Nat)
  | accept (raw : String) (at_ : Int) (agentUser : AgentUser) (device : CompactDevice)
  | change (tables : Tables)
  | evict (key : String)

abbrev Op.Reply : Op → Type
  | .get _ => Except String (Option String × Int)
  | .now => Int
  | .findDeviceByToken _ => Except String (Option AgentDevice)
  | .findUser _ => Except String (Option User)
  | .set _ _ _ => Except String Unit × Int
  | .accept _ _ _ _ => Unit
  | .change _ => Unit
  | .evict _ => Unit

structure World where
  tables : Tables
  mem : Mem String

/-- What the outside decides: how a call ends, and the clock then. -/
structure Choice where
  outcome : Outcome
  now : Int

def failedError : String := "Connection terminated unexpectedly"

def exec (ch : Choice) : (op : Op) → World → Option (op.Reply × World)
  | .get key, w =>
    some (ch.outcome.answer failedError (w.mem.get ch.now key, ch.now) w { w with mem := w.mem.afterGet ch.now key })
  | .now, w => some (ch.now, w)
  | .findDeviceByToken token, w =>
    some (ch.outcome.answer failedError (w.tables.devices.find? fun d => d.deviceToken = token && d.isActive) w w)
  | .findUser id, w => some (ch.outcome.answer failedError (w.tables.users.find? fun u => u.id = id) w w)
  | .set key value ttlSeconds, w =>
    let r := ch.outcome.answer failedError () w { w with mem := w.mem.set ch.now key value (some ttlSeconds) }
    some ((r.1, ch.now), r.2)
  | .accept _ _ _ _, w => some ((), w)
  | .change tables, w => if w.tables.Later tables then some ((), { w with tables }) else none
  | .evict key, w => some ((), { w with mem := w.mem.del key })

abbrev Program := Prog Op Op.Reply

namespace Program
abbrev get (key : String) : Program (Except String (Option String × Int)) := .perform (E := Op) (.get key)
abbrev now : Program Int := .perform (E := Op) .now
abbrev findDeviceByToken (token : String) : Program (Except String (Option AgentDevice)) :=
  .perform (E := Op) (.findDeviceByToken token)
abbrev findUser (id : String) : Program (Except String (Option User)) := .perform (E := Op) (.findUser id)
abbrev set (key value : String) (ttlSeconds : Nat) : Program (Except String Unit × Int) :=
  .perform (E := Op) (.set key value ttlSeconds)
abbrev accept (raw : String) (at_ : Int) (agentUser : AgentUser) (device : CompactDevice) : Program Unit :=
  .perform (E := Op) (.accept raw at_ agentUser device)
end Program

open Program

/-! ## The guard -/

def CACHE_TTL_SECONDS : Nat := 300

def CACHE_PREFIX : String := "agentauth:v2:"

def cacheKey (raw : String) : String := CACHE_PREFIX ++ raw

theorem cacheKey_inj {raw raw' : String} (h : cacheKey raw = cacheKey raw') : raw = raw' := by
  have hlist := congrArg String.toList h
  rw [cacheKey, cacheKey, String.toList_append, String.toList_append] at hlist
  exact String.toList_inj.mp (List.append_cancel_left hlist)

structure Headers where
  authorization : Option String
  xDeviceToken : Option String

/-- The token that is presented. -/
def Headers.raw (headers : Headers) : Option String :=
  match headers.authorization with
  | some authHeader =>
    if "Bearer ".toList.isPrefixOf authHeader.toList then some (String.ofList (authHeader.toList.drop 7))
    else headers.xDeviceToken
  | none => headers.xDeviceToken

/-- The path of a token that is not kept. -/
def lookup (raw : String) : Program (Except String Unit) := do
  let _ ← now
  match ← findDeviceByToken raw with
  | .error e => pure (.error e)
  | .ok none => pure (.error "Invalid or expired device token")
  | .ok (some device) =>
    match ← findUser device.userId with
    | .error e => pure (.error e)
    | .ok none => pure (.error "User not found or inactive")
    | .ok (some user) =>
      if !user.isActive then pure (.error "User not found or inactive")
      else
        match ← set (cacheKey raw) (Payload.stringify ⟨user.compact, device.compact⟩) CACHE_TTL_SECONDS with
        | (.error e, _) => pure (.error e)
        | (.ok (), at_) => do
          accept raw at_ (.entity user) device.compact
          pure (.ok ())

def canActivate (headers : Headers) : Program (Except String Unit) :=
  match headers.raw with
  | none => pure (.error "No device token provided")
  | some raw =>
    if raw = "" then pure (.error "No device token provided")
    else do
      match ← get (cacheKey raw) with
      | .error e => pure (.error e)
      | .ok (none, _) => lookup raw
      | .ok (some cached, at_) =>
        if cached = "" then lookup raw
        else
          match Payload.parse cached with
          | some parsed => do
            accept raw at_ (.compact parsed.user) parsed.device
            pure (.ok ())
          | none => lookup raw

inductive Request where
  | canActivate (headers : Headers)
  | change (tables : Tables)
  | evict (key : String)

def Request.body : Request → Program Unit
  | .canActivate headers => do let _ ← AgentAuth.canActivate headers
  | .change tables => .perform (E := Op) (.change tables)
  | .evict key => .perform (E := Op) (.evict key)

def guard : System Op Op.Reply World Choice Request := ⟨exec, fun _ w => some w, Request.body⟩

abbrev Serving (ι : Type) := Config ι Op Op.Reply World

end TimeChamp.AgentAuth
