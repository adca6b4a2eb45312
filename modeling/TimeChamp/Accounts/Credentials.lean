import TimeChamp.Accounts.Service
import TimeChamp.Tokens.Service

/-!
# Passwords and addresses

What `auth.service.ts` and `users.service.ts` do to the password and the address of a user: the registration and the
invitation, the mails with tokens, and what such a token is good for. The access and refresh tokens of a session are apart.

* `User`, `UserPatch`, `Db` : the rows, what an update sets, and the tables with the store of tokens;
* `Mail`, `Op`, `exec` : the mails, and the awaited calls;
* `register` to `acceptInvite` : the methods;
* `Request`, `credentials` : any number of requests.
-/

namespace TimeChamp.Accounts.Credentials
open Lib Tokens

/-! ## Tables -/

structure Organization where
  id : String
  name : String
  slug : String
deriving DecidableEq

structure User where
  id : String
  organizationId : String
  email : String
  passwordHash : String
  firstName : String
  lastName : String
  role : UserRole
  emailVerified : Bool
  isActive : Bool
  invitedBy : Option String
deriving DecidableEq

/-- The columns that an update sets. -/
structure UserPatch where
  firstName : Option String := none
  lastName : Option String := none
  role : Option UserRole := none
  isActive : Option Bool := none
  emailVerified : Option Bool := none
  passwordHash : Option String := none
deriving DecidableEq

def UserPatch.apply (patch : UserPatch) (user : User) : User :=
  { user with
    firstName := patch.firstName.getD user.firstName
    lastName := patch.lastName.getD user.lastName
    role := patch.role.getD user.role
    isActive := patch.isActive.getD user.isActive
    emailVerified := patch.emailVerified.getD user.emailVerified
    passwordHash := patch.passwordHash.getD user.passwordHash }

/-- The tables, the ids that were generated, and the store of tokens. -/
structure Db where
  organizations : List Organization
  users : List User
  ids : List String
  tokens : Tokens.Store

def Db.empty : Db := ⟨[], [], [], Tokens.Store.empty⟩

/-! ## Calls -/

/-- A mail with a token, as far as its texts are filled in. -/
inductive Mail where
  | verification (to_ token : String)
  | invite (to_ inviterName orgName token : String)
  | passwordReset (to_ token : String)
deriving DecidableEq

namespace Mail

def to_ : Mail → String
  | verification to_ _ => to_
  | invite to_ _ _ _ => to_
  | passwordReset to_ _ => to_

def token : Mail → String
  | verification _ token => token
  | invite _ _ _ token => token
  | passwordReset _ token => token

/-- What the page is for that the mail links to. -/
def purpose : Mail → TokenPurpose
  | verification _ _ => .emailVerify
  | invite _ _ _ _ => .invite
  | passwordReset _ _ => .passwordReset

end Mail

structure RegisterDto where
  organizationName : String
  firstName : String
  lastName : String
  email : String
  password : String

inductive Op where
  | randomBytes
  | hash (password : String)
  | findOrganization (slug : String)
  | findOrganizationById (id : String)
  | findUser (email : String) (organizationId : Option String)
  | findUserById (id : String) (organizationId : Option String)
  | commit (slug email passwordHash : String) (dto : RegisterDto)
  | insertUser (organizationId invitedBy email passwordHash : String) (role : UserRole)
  | updateUser (id : String) (patch : UserPatch)
  | deleteRefreshTokens (userId : String)
  | sendMail (mail : Mail)
  | auditLog (organizationId actorId actorEmail targetId invitedEmail : String) (role : UserRole)
  | token (op : Tokens.Op)

abbrev Op.Reply : Op → Type
  | .randomBytes => String
  | .hash _ => String
  | .findOrganization _ => Except String (Option Organization)
  | .findOrganizationById _ => Except String (Option Organization)
  | .findUser _ _ => Except String (Option User)
  | .findUserById _ _ => Except String (Option User)
  | .commit _ _ _ _ => Except String User
  | .insertUser _ _ _ _ _ => Except String User
  | .updateUser _ _ => Except String Unit
  | .deleteRefreshTokens _ => Except String Unit
  | .sendMail _ => Unit
  | .auditLog _ _ _ _ _ _ => Unit
  | .token op => op.Reply

/-- What the outside decides: how a call ends, the clock of the store, what is random, and the ids that are generated. -/
structure Choice extends Tokens.Choice where
  organizationId : String
  userId : String

def Db.newUser (db : Db) (user : User) : Db := { db with users := db.users ++ [user], ids := user.id :: db.ids }

/-- One call. Ids are new; slugs are unique, and so are addresses within an organization. -/
def exec (ch : Choice) : (op : Op) → Db → Option (op.Reply × Db)
  | .randomBytes, db => some (ch.random, db)
  | .hash _, db => some (ch.random, db)
  | .findOrganization slug, db =>
    some (ch.outcome.answer failedError (db.organizations.find? fun o => o.slug = slug) db db)
  | .findOrganizationById id, db => some (ch.outcome.answer failedError (db.organizations.find? fun o => o.id = id) db db)
  | .findUser email organizationId, db =>
    some (ch.outcome.answer failedError
      (db.users.find? fun u => u.email = email && organizationId.all fun id => u.organizationId = id) db db)
  | .findUserById id organizationId, db =>
    some (ch.outcome.answer failedError
      (db.users.find? fun u => u.id = id && organizationId.all fun o => u.organizationId = o) db db)
  | .commit slug email passwordHash dto, db =>
    if ch.userId ∈ db.ids then none
    else if db.organizations.any fun o => o.slug = slug then some (.error duplicateError, db)
    else
      let user : User := ⟨ch.userId, ch.organizationId, email, passwordHash, dto.firstName, dto.lastName, .admin, false,
        true, none⟩
      some (ch.outcome.answer failedError user db { db.newUser user with
        organizations := ⟨ch.organizationId, dto.organizationName, slug⟩ :: db.organizations })
  | .insertUser organizationId invitedBy email passwordHash role, db =>
    if ch.userId ∈ db.ids then none
    else if db.users.any fun u => u.organizationId = organizationId && u.email = email then
      some (.error duplicateError, db)
    else if !db.organizations.any fun o => o.id = organizationId then some (.error foreignKeyError, db)
    else
      let user : User := ⟨ch.userId, organizationId, email, passwordHash, "", "", role, false, true, some invitedBy⟩
      some (ch.outcome.answer failedError user db (db.newUser user))
  | .updateUser id patch, db =>
    some (ch.outcome.answer failedError () db
      { db with users := db.users.map fun u => if u.id = id then patch.apply u else u })
  | .deleteRefreshTokens _, db => some (ch.outcome.answer failedError () db db)
  | .sendMail _, db => some ((), db)
  | .auditLog _ _ _ _ _ _, db => some ((), db)
  | .token op, db => (Tokens.exec ch.toChoice op db.tokens).map fun r => (r.1, { db with tokens := r.2 })

/-! ## Methods -/

abbrev Program := Prog Op Op.Reply

/-- A method that may throw. -/
abbrev Method := Throwing String Op Op.Reply

def perform (op : Op) : Method op.Reply := ExceptT.lift (Prog.perform op)

/-- The answer of a call, or its error thrown. -/
def orThrow {α : Type} : Except String α → Method α
  | .ok a => pure a
  | .error e => throw e

/-- A call of the service of tokens. -/
def tokenService {α : Type} (p : Tokens.Program (Except String α)) : Method α :=
  ExceptT.mk (p.embed Op.token fun _ r => r : Program (Except String α))

def findUser (email : String) (organizationId : Option String) : Method (Option User) :=
  perform (.findUser email organizationId) >>= orThrow

def findUserById (id : String) (organizationId : Option String) : Method (Option User) :=
  perform (.findUserById id organizationId) >>= orThrow

def updateUser (id : String) (patch : UserPatch) : Method Unit := perform (.updateUser id patch) >>= orThrow

/-- The sign-up of an organization, in one transaction. -/
def register (casing : Casing) (dto : RegisterDto) : Method Unit := do
  let hex ← perform .randomBytes
  let slug := slugOf casing dto.organizationName hex
  match ← perform (.findOrganization slug) >>= orThrow with
  | some _ => throw "Please try again"
  | none =>
    match ← findUser (casing.toLowerCase dto.email) none with
    | some _ => throw "An account with this email already exists. Please log in instead."
    | none =>
      let passwordHash ← perform (.hash dto.password)
      let _ ← perform (.commit slug (casing.toLowerCase dto.email) passwordHash dto) >>= orThrow

/-- An invitation. The password is random until the token of the mail is used. -/
def invite (casing : Casing) (organizationId invitedBy : String) (dto : InviteUserDto) : Method User := do
  match ← findUser (casing.toLowerCase dto.email) (some organizationId) with
  | some _ => throw "A user with this email already exists in the organization"
  | none =>
    let tempPassword ← perform .randomBytes
    let passwordHash ← perform (.hash tempPassword)
    let savedUser ← perform (.insertUser organizationId invitedBy (casing.toLowerCase dto.email) passwordHash dto.role)
      >>= orThrow
    let token ← tokenService (generate .invite savedUser.id)
    let inviter ← findUserById invitedBy none
    let inviterName := (inviter.map fun u => u.firstName ++ " " ++ u.lastName).getD "Your admin"
    let organization ← perform (.findOrganizationById organizationId) >>= orThrow
    let orgName := (organization.map Organization.name).getD "your organization"
    perform (.sendMail (.invite savedUser.email inviterName orgName token))
    perform (.auditLog organizationId invitedBy ((inviter.map User.email).getD "unknown") savedUser.id dto.email dto.role)
    return savedUser

def verifyEmail (token : String) : Method Unit := do
  match ← tokenService (consume .emailVerify token) with
  | none => throw "Invalid or expired verification token"
  | some userId =>
    if userId = "" then throw "Invalid or expired verification token"
    else updateUser userId { emailVerified := some true }

def resendVerification (userId : String) : Method Unit := do
  match ← findUserById userId none with
  | none => throw "User not found"
  | some user =>
    if user.emailVerified then return
    else
      let token ← tokenService (generate .emailVerify userId)
      perform (.sendMail (.verification user.email token))

/-- An address that nobody has is not told from one that somebody has. -/
def forgotPassword (email : String) : Method Unit := do
  match ← findUser email none with
  | none => return
  | some user =>
    let token ← tokenService (generate .passwordReset user.id)
    perform (.sendMail (.passwordReset user.email token))

def resetPassword (token newPassword : String) : Method Unit := do
  match ← tokenService (consume .passwordReset token) with
  | none => throw "Invalid or expired reset token"
  | some userId =>
    if userId = "" then throw "Invalid or expired reset token"
    else
      let hashed ← perform (.hash newPassword)
      updateUser userId { passwordHash := some hashed }
      let _ ← perform (.deleteRefreshTokens userId) >>= orThrow

def acceptInvite (token firstName lastName password : String) : Method Unit := do
  match ← tokenService (consume .invite token) with
  | none => throw "Invalid or expired invite token"
  | some userId =>
    if userId = "" then throw "Invalid or expired invite token"
    else
      let hashed ← perform (.hash password)
      updateUser userId
        { firstName := some firstName, lastName := some lastName, passwordHash := some hashed, emailVerified := some true }

/-! ### Users -/

structure UpdateUserDto where
  firstName : Option String
  lastName : Option String
  role : Option UserRole

def findById (id organizationId : String) : Method User := do
  match ← findUserById id (some organizationId) with
  | none => throw "User not found"
  | some user => return user

/-- A column of a loaded object is written if it differs from what is stored. -/
def changed {α : Type} [DecidableEq α] (stored saved : α) : Option α := if saved = stored then none else some saved

/-- Saving loads the row once more, to compare. A user is saved without its password, so it cannot be inserted again. -/
def update (id organizationId : String) (dto : UpdateUserDto) : Method Unit := do
  let user ← findById id organizationId
  match ← findUserById user.id none with
  | none => throw foreignKeyError
  | some stored =>
    updateUser user.id
      { firstName := changed stored.firstName (dto.firstName.getD user.firstName)
        lastName := changed stored.lastName (dto.lastName.getD user.lastName)
        role := changed stored.role (dto.role.getD user.role)
        emailVerified := changed stored.emailVerified user.emailVerified
        isActive := changed stored.isActive user.isActive }

def deactivate (id organizationId requestingUserId : String) : Method Unit := do
  if id = requestingUserId then throw "You cannot deactivate your own account"
  else
    let user ← findById id organizationId
    updateUser user.id { isActive := some false }

/-! ## Requests -/

inductive Request where
  | register (dto : RegisterDto)
  | invite (organizationId invitedBy : String) (dto : InviteUserDto)
  | verifyEmail (token : String)
  | resendVerification (userId : String)
  | forgotPassword (email : String)
  | resetPassword (token newPassword : String)
  | acceptInvite (token firstName lastName password : String)
  | update (id organizationId : String) (dto : UpdateUserDto)
  | deactivate (id organizationId requestingUserId : String)

def Request.method (casing : Casing) : Request → Method Unit
  | .register dto => Credentials.register casing dto
  | .invite organizationId invitedBy dto => do let _ ← Credentials.invite casing organizationId invitedBy dto
  | .verifyEmail token => Credentials.verifyEmail token
  | .resendVerification userId => Credentials.resendVerification userId
  | .forgotPassword email => Credentials.forgotPassword email
  | .resetPassword token newPassword => Credentials.resetPassword token newPassword
  | .acceptInvite token firstName lastName password => Credentials.acceptInvite token firstName lastName password
  | .update id organizationId dto => Credentials.update id organizationId dto
  | .deactivate id organizationId requestingUserId => Credentials.deactivate id organizationId requestingUserId

/-- What a method throws is what its request is answered. -/
def Request.body (casing : Casing) (request : Request) : Program Unit := do let _ ← (request.method casing).run

def credentials (casing : Casing) : System Op Op.Reply Db Choice Request :=
  ⟨exec, fun _ db => some db, Request.body casing⟩

abbrev Serving (ι : Type) := Config ι Op Op.Reply Db

end TimeChamp.Accounts.Credentials
