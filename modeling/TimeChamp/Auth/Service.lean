import TimeChamp.Api.Redis
import TimeChamp.Lib.Pool
import TimeChamp.Lib.Table

/-!
# Sessions

Access and refresh tokens of the API: `AuthService` and the guard in front of the other endpoints. A request is a
program over awaited calls; between two of its calls any other requests may take theirs.

* `AccessToken`, `sign` : a signed token is what it says;
* `RefreshToken`, `Db` : the rows and all that the requests share, and what happened so far;
* `Op`, `exec` : the awaited calls, which may fail before or after they took effect, with a clock that never goes back;
* `generateTokens`, `refreshTokens`, `logout`, `validate` : the programs; `service` : any number of requests;
* `authProtocol`, `follows_body` : what each request knows when it makes its next call.
-/

namespace TimeChamp.Auth
open Lib Api

/-! ## Tokens and rows -/

structure JwtPayload where
  sub : String
  orgId : String
  role : String
  email : String
deriving DecidableEq

/-- A signed token. Times are in seconds. -/
structure AccessToken where
  payload : JwtPayload
  iat : Int
  exp : Int
deriving DecidableEq

/-- Sign at this time, in milliseconds, with a configured lifetime in milliseconds. -/
def sign (payload : JwtPayload) (now expiresIn : Int) : AccessToken := ⟨payload, now / 1000, now / 1000 + expiresIn / 1000⟩

/-- What the verification of a token says about its lifetime. -/
def AccessToken.expired (token : AccessToken) (now : Int) : Bool := decide (token.exp ≤ now / 1000)

structure User where
  id : String
  organizationId : String
  role : String
  email : String
  firstName : String
  lastName : String
  isActive : Bool
deriving DecidableEq

structure RefreshToken where
  id : Nat
  userId : String
  organizationId : String
  token : String
  expiresAt : Int
  revoked : Bool
  revokedAt : Option Int
deriving DecidableEq

instance : Keyed RefreshToken := ⟨RefreshToken.id, fun k r => { r with id := k }, fun _ _ => rfl⟩

/-- A refresh token that was exchanged for a new pair: its user, its row and itself. -/
structure Exchange where
  userId : String
  rowId : Nat
  token : String
deriving DecidableEq

/-- All refresh tokens of a user were revoked, those with keys below `cut`. -/
structure Revocation where
  userId : String
  cut : Nat
deriving DecidableEq

/-- A logout that has completed: how many exchanges there were when it began, and the rows it revoked. -/
structure LoggedOut where
  userId : String
  accessToken : AccessToken
  started : Nat
  cut : Nat
deriving DecidableEq

/-- The tables, the blacklist and the clock. The rest is history: the tokens that were ever saved, the exchanges, the
revocations, the logouts, and the tokens accepted, each with whether a logout of it had completed by then. -/
structure Db where
  users : List User
  refreshTokens : Table RefreshToken
  blacklist : Mem AccessToken
  now : Int
  saved : List String
  exchanges : List Exchange
  revocations : List Revocation
  loggedOut : List LoggedOut
  accepted : List (AccessToken × Bool)

def Db.start (users : List User) : Db := ⟨users, .empty, fun _ => none, 0, [], [], [], [], []⟩

/-! ## Awaited calls -/

/-- The effects. `fresh` and `clock` are what a request reads without awaiting; `loggedOut` and `accept` are its answers.
A `save` tells which row it is in exchange for; `revokeAll` and `loggedOut` carry along what their logout began with. -/
inductive Op where
  | findToken (token : Option String)
  | findActiveUser (id : String)
  | findOrgUser (id organizationId : String)
  | fresh
  | clock
  | save (record : RefreshToken) (source : Option RefreshToken)
  | revoke (id : Nat)
  | revokeAll (userId : String) (started : Nat)
  | deleteAll (userId : String)
  | blacklist (accessToken : AccessToken) (ttlSeconds : Nat)
  | exists_ (accessToken : AccessToken)
  | loggedOut (logout : LoggedOut)
  | accept (accessToken : AccessToken)
deriving DecidableEq

/-- The answers. A row that is found comes with the clock, an entry in the blacklist with the number of exchanges so far. -/
abbrev Op.Reply : Op → Type
  | .findToken _ => Except String (Option RefreshToken × Int)
  | .findActiveUser _ => Except String (Option User)
  | .findOrgUser _ _ => Except String (Option User)
  | .fresh => Int × String
  | .clock => Int
  | .save _ _ => Except String Unit
  | .revoke _ => Except String Unit
  | .revokeAll _ _ => Except String Nat
  | .deleteAll _ => Except String Unit
  | .blacklist _ _ => Except String Nat
  | .exists_ _ => Except String Bool
  | .loggedOut _ => Unit
  | .accept _ => Unit

/-- What the outside decides: how a call ends, the clock, the row that a find without order returns, and the random
bytes. -/
structure Choice where
  outcome : Outcome
  now : Int
  pick : Nat
  random : String

def databaseError : String := "database error"

/-- The unrevoked rows of a find; without a token the condition is dropped. -/
def Db.found (db : Db) (token : Option String) : List RefreshToken :=
  db.refreshTokens.rows.filter fun r => !r.revoked && token.all (· == r.token)

/-- The row after it was revoked. -/
def RefreshToken.revoke (now : Int) (p : RefreshToken → Bool) (r : RefreshToken) : RefreshToken :=
  if p r then { r with revoked := true, revokedAt := some now } else r

theorem RefreshToken.key_revoke (now : Int) (p : RefreshToken → Bool) (r : RefreshToken) :
    Keyed.key (r.revoke now p) = Keyed.key r := by
  unfold revoke
  split_ifs <;> rfl

def Db.revoke (db : Db) (p : RefreshToken → Bool) : Db :=
  { db with refreshTokens := db.refreshTokens.modify (RefreshToken.revoke db.now p) (RefreshToken.key_revoke db.now p) }

/-- The condition of a logout's update. -/
def unrevokedOf (userId : String) (r : RefreshToken) : Bool := r.userId == userId && !r.revoked

/-- A logout of the token has completed. -/
def Db.late (db : Db) (accessToken : AccessToken) : Bool := db.loggedOut.any (·.accessToken == accessToken)

/-- The row is in the table. -/
def Db.insert (db : Db) (record : RefreshToken) : Db :=
  { db with refreshTokens := db.refreshTokens.insert record, saved := record.token :: db.saved }

def Db.exchange (db : Db) (source : Option RefreshToken) : Db :=
  match source with
  | none => db
  | some r => { db with exchanges := db.exchanges ++ [⟨r.userId, r.id, r.token⟩] }

/-- A call, at the time the clock shows. -/
def execNow (ch : Choice) : (op : Op) → Db → Option (op.Reply × Db)
  | .findToken token, db =>
    some (ch.outcome.answer databaseError ((db.found token)[ch.pick % (db.found token).length]?, db.now) db db)
  | .findActiveUser id, db =>
    some (ch.outcome.answer databaseError (db.users.find? fun u => u.id == id && u.isActive) db db)
  | .findOrgUser id organizationId, db =>
    some (ch.outcome.answer databaseError
      (db.users.find? fun u => u.id == id && u.organizationId == organizationId && u.isActive) db db)
  | .fresh, db => some ((db.now, ch.random), db)
  | .clock, db => some (db.now, db)
  | .save record source, db =>
    -- 40 random bytes were never saved before
    if db.saved.contains record.token then none
    else
      match ch.outcome with
      | .ok => some (.ok (), (db.insert record).exchange source)
      | .failed => some (.error databaseError, db)
      | .lost => some (.error databaseError, db.insert record)
  | .revoke id, db => some (ch.outcome.answer databaseError () db (db.revoke fun r => r.id == id))
  | .revokeAll userId _, db =>
    match ch.outcome with
    | .ok =>
      some (.ok db.refreshTokens.nextKey, { db.revoke (unrevokedOf userId) with
        revocations := db.revocations ++ [⟨userId, db.refreshTokens.nextKey⟩] })
    | .failed => some (.error databaseError, db)
    | .lost => some (.error databaseError, db.revoke (unrevokedOf userId))
  | .deleteAll userId, db =>
    some (ch.outcome.answer databaseError () db
      { db with refreshTokens := db.refreshTokens.remove fun r => r.userId == userId })
  | .blacklist accessToken ttlSeconds, db =>
    some (ch.outcome.answer databaseError db.exchanges.length db
      { db with blacklist := db.blacklist.set db.now accessToken "1" (some ttlSeconds) })
  | .exists_ accessToken, db =>
    some (ch.outcome.answer databaseError (db.blacklist.get db.now accessToken).isSome db
      { db with blacklist := db.blacklist.afterGet db.now accessToken })
  | .loggedOut logout, db => some ((), { db with loggedOut := logout :: db.loggedOut })
  | .accept accessToken, db => some ((), { db with accepted := (accessToken, db.late accessToken) :: db.accepted })

/-- Time passes before each call. -/
def exec (ch : Choice) (op : Op) (db : Db) : Option (op.Reply × Db) :=
  if ch.now < db.now then none else execNow ch op { db with now := ch.now }

theorem exec_cases {ch : Choice} {op : Op} {db db' : Db} {r : op.Reply} (h : exec ch op db = some (r, db')) :
    db.now ≤ ch.now ∧ execNow ch op { db with now := ch.now } = some (r, db') := by
  unfold exec at h
  split_ifs at h with hnow
  exact ⟨Int.not_lt.mp hnow, h⟩

/-! ## Programs -/

abbrev Request := Prog Op Op.Reply

namespace Request
abbrev findToken (token : Option String) : Request (Except String (Option RefreshToken × Int)) :=
  .perform (E := Op) (.findToken token)
abbrev findActiveUser (id : String) : Request (Except String (Option User)) := .perform (E := Op) (.findActiveUser id)
abbrev findOrgUser (id organizationId : String) : Request (Except String (Option User)) :=
  .perform (E := Op) (.findOrgUser id organizationId)
abbrev fresh : Request (Int × String) := .perform (E := Op) .fresh
abbrev clock : Request Int := .perform (E := Op) .clock
abbrev save (record : RefreshToken) (source : Option RefreshToken) : Request (Except String Unit) :=
  .perform (E := Op) (.save record source)
abbrev revoke (id : Nat) : Request (Except String Unit) := .perform (E := Op) (.revoke id)
abbrev revokeAll (userId : String) (started : Nat) : Request (Except String Nat) :=
  .perform (E := Op) (.revokeAll userId started)
abbrev deleteAll (userId : String) : Request (Except String Unit) := .perform (E := Op) (.deleteAll userId)
abbrev blacklist (accessToken : AccessToken) (ttlSeconds : Nat) : Request (Except String Nat) :=
  .perform (E := Op) (.blacklist accessToken ttlSeconds)
abbrev exists_ (accessToken : AccessToken) : Request (Except String Bool) := .perform (E := Op) (.exists_ accessToken)
abbrev loggedOut (logout : LoggedOut) : Request Unit := .perform (E := Op) (.loggedOut logout)
abbrev accept (accessToken : AccessToken) : Request Unit := .perform (E := Op) (.accept accessToken)
end Request

open Request

/-- What a login, a registration and a refresh answer. -/
structure Session where
  accessToken : AccessToken
  refreshToken : String
  user : User

/-- Seven days, in milliseconds. -/
def refreshLifetime : Int := 7 * 24 * 60 * 60 * 1000

def generateTokens (expiresIn : Int) (user : User) (source : Option RefreshToken) : Request (Except String Session) := do
  let (now, rawRefresh) ← fresh
  let accessToken := sign ⟨user.id, user.organizationId, user.role, user.email⟩ now expiresIn
  match ← save
      { id := 0, userId := user.id, organizationId := user.organizationId, token := rawRefresh,
        expiresAt := now + refreshLifetime, revoked := false, revokedAt := none } source with
  | .error e => pure (.error e)
  | .ok _ => pure (.ok ⟨accessToken, rawRefresh, user⟩)

/-- The controller passes on whatever the body has under `refreshToken`, also nothing. -/
def refreshTokens (expiresIn : Int) (refreshToken : Option String) : Request (Except String Session) := do
  match ← findToken refreshToken with
  | .error e => pure (.error e)
  | .ok (none, _) => pure (.error "Invalid or expired refresh token")
  | .ok (some stored, now) =>
    if stored.expiresAt < now then pure (.error "Invalid or expired refresh token")
    else
      match ← findActiveUser stored.userId with
      | .error e => pure (.error e)
      | .ok none => pure (.error "User not found")
      | .ok (some user) =>
        match ← revoke stored.id with
        | .error e => pure (.error e)
        | .ok _ => generateTokens expiresIn user (some stored)

def logout (userId : String) (accessToken : AccessToken) : Request (Except String Unit) := do
  match ← blacklist accessToken (15 * 60) with
  | .error e => pure (.error e)
  | .ok started =>
    match ← revokeAll userId started with
    | .error e => pure (.error e)
    | .ok cut =>
      loggedOut ⟨userId, accessToken, started, cut⟩
      pure (.ok ())

def validate (accessToken : AccessToken) : Request (Except String User) := do
  match ← exists_ accessToken with
  | .error e => pure (.error e)
  | .ok true => pure (.error "Token has been revoked")
  | .ok false =>
    match ← findOrgUser accessToken.payload.sub accessToken.payload.orgId with
    | .error e => pure (.error e)
    | .ok none => pure (.error "User not found or inactive")
    | .ok (some user) =>
      accept accessToken
      pure (.ok user)

/-- The strategy verifies the token before it calls `validate`. -/
def authenticate (accessToken : AccessToken) : Request (Except String User) := do
  let now ← clock
  if accessToken.expired now then pure (.error "jwt expired") else validate accessToken

/-- A request: what a login or a registration ends in, a refresh, a logout, any guarded endpoint, the end of a password
reset, or a change of the users. -/
inductive Call where
  | signIn (user : User)
  | refreshTokens (refreshToken : Option String)
  | logout (userId : String) (accessToken : AccessToken)
  | authenticate (accessToken : AccessToken)
  | resetPassword (userId : String)
  | setUsers (users : List User)

def Call.body (expiresIn : Int) : Call → Request Unit
  | .signIn user => do let _ ← generateTokens expiresIn user none
  | .refreshTokens refreshToken => do let _ ← Auth.refreshTokens expiresIn refreshToken
  | .logout userId accessToken => do let _ ← Auth.logout userId accessToken
  | .authenticate accessToken => do let _ ← Auth.authenticate accessToken
  | .resetPassword userId => do let _ ← deleteAll userId
  | .setUsers _ => pure ()

def Call.admits : Call → Db → Option Db
  | .setUsers users, db => some { db with users }
  | _, db => some db

/-- Any requests at any time, with a configured lifetime of access tokens in milliseconds. -/
def service (expiresIn : Int) : System Op Op.Reply Db Choice Call := ⟨exec, Call.admits, Call.body expiresIn⟩

abbrev Running (ι : Type) := Config ι Op Op.Reply Db

/-! ## What a request knows -/

/-- Where a request stands. -/
inductive Stage where
  | idle
  | found (row : RefreshToken)
  | revoked (row : RefreshToken)
  | began (accessToken : AccessToken) (started : Nat)
  | revokedAll (logout : LoggedOut)
  | checked (accessToken : AccessToken)

/-- A refresh saves in exchange for the row it found and revoked; a logout blacklists for fifteen minutes, revokes and is
done; a token is accepted that is not in the blacklist. -/
def authProtocol : Protocol Op Op.Reply Stage where
  pre m
    | .findActiveUser _ => ∃ row, m = .found row
    | .findOrgUser _ _ => ∃ accessToken, m = .checked accessToken
    | .fresh => m = .idle ∨ ∃ row, m = .revoked row
    | .save _ (some row) => m = .revoked row
    | .revoke id => ∃ row, m = .found row ∧ id = row.id
    | .revokeAll _ started => ∃ accessToken, m = .began accessToken started
    | .blacklist _ ttlSeconds => ttlSeconds = 15 * 60
    | .loggedOut logout => m = .revokedAll logout
    | .accept accessToken => m = .checked accessToken
    | _ => True
  post m op r m' :=
    match op, r with
    | .findToken _, .ok (some row, _) => m' = .found row
    | .findActiveUser _, .ok (some _) => m' = m
    | .findOrgUser _ _, .ok (some _) => m' = m
    | .fresh, _ => m' = m
    | .revoke _, .ok _ => ∃ row, m = .found row ∧ m' = .revoked row
    | .blacklist accessToken _, .ok started => m' = .began accessToken started
    | .revokeAll userId started, .ok cut =>
      ∃ accessToken, m = .began accessToken started ∧ m' = .revokedAll ⟨userId, accessToken, started, cut⟩
    | .exists_ accessToken, .ok false => m' = .checked accessToken
    | _, _ => m' = .idle

theorem follows_generateTokens {expiresIn : Int} {user : User} {source : Option RefreshToken} {m : Stage}
    (h : source = none ∧ m = .idle ∨ ∃ row, source = some row ∧ m = .revoked row) :
    Follows authProtocol (fun _ _ => True) m (generateTokens expiresIn user source) := by
  refine follows_perform_bind.mpr ⟨h.imp And.right fun ⟨row, _, hm⟩ => ⟨row, hm⟩, fun ⟨now, rawRefresh⟩ m' hm => ?_⟩
  subst hm
  refine follows_perform_bind.mpr ⟨?_, fun r _ _ => ?_⟩
  · rcases h with ⟨rfl, -⟩ | ⟨row, rfl, hm⟩
    · trivial
    · exact hm
  · cases r <;> trivial

theorem follows_refreshTokens (expiresIn : Int) (refreshToken : Option String) (m : Stage) :
    Follows authProtocol (fun _ _ => True) m (refreshTokens expiresIn refreshToken) := by
  refine follows_perform_bind.mpr ⟨trivial, fun r m' hm => ?_⟩
  rcases r with e | ⟨_ | stored, now⟩
  · trivial
  · trivial
  · subst hm
    dsimp only
    split_ifs
    · trivial
    · refine follows_perform_bind.mpr ⟨⟨stored, rfl⟩, fun r m' hm => ?_⟩
      rcases r with e | _ | user
      · trivial
      · trivial
      · subst hm
        refine follows_perform_bind.mpr ⟨⟨stored, rfl, rfl⟩, fun r m' hm => ?_⟩
        rcases r with e | u
        · trivial
        · obtain ⟨row, hrow, rfl⟩ := hm
          obtain rfl := Stage.found.inj hrow
          exact follows_generateTokens (Or.inr ⟨stored, rfl, rfl⟩)

theorem follows_logout (userId : String) (accessToken : AccessToken) (m : Stage) :
    Follows authProtocol (fun _ _ => True) m (logout userId accessToken) := by
  refine follows_perform_bind.mpr ⟨rfl, fun r m' hm => ?_⟩
  rcases r with e | started
  · trivial
  · subst hm
    refine follows_perform_bind.mpr ⟨⟨accessToken, rfl⟩, fun r m' hm => ?_⟩
    rcases r with e | cut
    · trivial
    · obtain ⟨accessToken', hbegan, rfl⟩ := hm
      obtain ⟨rfl, -⟩ := Stage.began.inj hbegan
      exact ⟨rfl, fun _ _ _ => trivial⟩

theorem follows_authenticate (accessToken : AccessToken) (m : Stage) :
    Follows authProtocol (fun _ _ => True) m (authenticate accessToken) := by
  refine follows_perform_bind.mpr ⟨trivial, fun now m' _ => ?_⟩
  split_ifs
  · trivial
  · refine follows_perform_bind.mpr ⟨trivial, fun r m' hm => ?_⟩
    rcases r with e | _ | _
    · trivial
    · subst hm
      refine follows_perform_bind.mpr ⟨⟨accessToken, rfl⟩, fun r m' hm => ?_⟩
      rcases r with e | _ | user
      · trivial
      · trivial
      · subst hm
        exact ⟨rfl, fun _ _ _ => trivial⟩
    · trivial

theorem follows_body (expiresIn : Int) (call : Call) :
    Follows authProtocol (fun _ _ => True) .idle (call.body expiresIn) := by
  cases call with
  | signIn user =>
      have hgenerate : Follows authProtocol (fun _ _ => True) .idle (generateTokens expiresIn user none) :=
        follows_generateTokens (Or.inl ⟨rfl, rfl⟩)
      exact hgenerate.bind fun _ _ _ => trivial
  | refreshTokens refreshToken => exact (follows_refreshTokens expiresIn refreshToken .idle).bind fun _ _ _ => trivial
  | logout userId accessToken => exact (follows_logout userId accessToken .idle).bind fun _ _ _ => trivial
  | authenticate accessToken => exact (follows_authenticate accessToken .idle).bind fun _ _ _ => trivial
  | resetPassword userId => exact ⟨trivial, fun _ _ _ => trivial⟩
  | setUsers users => trivial

end TimeChamp.Auth
