import TimeChamp.Lib.Pool
import TimeChamp.Lib.Table
import TimeChamp.Registration.PersonalToken

/-!
# Accounts

Users come to be when an organization registers, and when an admin invites them; who logs in is looked up by the address
alone.

* `Casing` : lower case, in the language and in the database;
* `Organization`, `User`, `Store` : the tables, with the constraints of their schema;
* `Op`, `exec` : the queries and the inserts, which may fail; the inserts of a transaction are seen once it commits;
* `register`, `invite`, `login` : the requests; `accounts` : any number of the first two.
-/

namespace TimeChamp.Accounts
open Lib

/-- What `toLowerCase` and `LOWER` do to a text. What the one has lowered the other leaves alone. -/
structure Casing where
  toLowerCase : String → String
  LOWER : String → String
  LOWER_toLowerCase : ∀ text, LOWER (toLowerCase text) = toLowerCase text

/-! ## Tables -/

inductive UserRole where
  | admin
  | manager
  | employee
deriving DecidableEq

structure Organization where
  id : Nat
  name : String
  slug : String
deriving DecidableEq

structure User where
  id : Nat
  organizationId : Nat
  email : String
  firstName : String
  lastName : String
  role : UserRole
  emailVerified : Bool
  isActive : Bool
  invitedBy : Option Nat
deriving DecidableEq

instance : Keyed Organization := ⟨Organization.id, fun id row => { row with id }, fun _ _ => rfl⟩

instance : Keyed User := ⟨User.id, fun id row => { row with id }, fun _ _ => rfl⟩

structure Store where
  organizations : Table Organization
  users : Table User

def Store.empty : Store := ⟨Table.empty, Table.empty⟩

structure RegisterDto where
  organizationName : String
  firstName : String
  lastName : String
  email : String

structure InviteUserDto where
  email : String
  role : UserRole

/-! ## The slug of an organization -/

/-- Each run of letters that are not of a slug becomes a dash. -/
def dashRuns (chars : List Char) : List Char :=
  chars.foldr (fun c rest =>
    if Registration.isSlugChar c then c :: rest else if rest.head? = some '-' then rest else '-' :: rest) []

/-- `replace(/^-|-$/g, '')`. -/
def trimDashes (chars : List Char) : List Char :=
  let rest := if chars.head? = some '-' then chars.tail else chars
  if rest.getLast? = some '-' then rest.dropLast else rest

def slugOf (casing : Casing) (organizationName hex : String) : String :=
  String.ofList (trimDashes (dashRuns (casing.toLowerCase organizationName).toList)) ++ "-" ++ hex

/-! ## Queries -/

inductive Op where
  | randomBytes
  | findOrganization (slug : String)
  | findUser (email : String) (organizationId : Option Nat)
  | commit (slug email : String) (dto : RegisterDto)
  | insertUser (organizationId invitedBy : Nat) (email : String) (role : UserRole)

abbrev Op.Reply : Op → Type
  | .randomBytes => String
  | .findOrganization _ => Except String (Option Organization)
  | .findUser _ _ => Except String (Option User)
  | .commit _ _ _ => Except String Unit
  | .insertUser _ _ _ _ => Except String Unit

/-- What the outside decides: how a query ends, and the random bytes in hexadecimal. -/
structure Choice where
  outcome : Outcome
  random : String

def failedError : String := "Connection terminated unexpectedly"

/-- The connection broke after the insert took effect. -/
def lostError : String := "Connection terminated"

def duplicateError : String := "duplicate key value violates unique constraint"

def foreignKeyError : String := "insert or update on table \"users\" violates foreign key constraint"

/-- How an insert ends that violates no constraint. -/
def insertAnswer (outcome : Outcome) (s s' : Store) : Except String Unit × Store :=
  match outcome with
  | .ok => (.ok (), s')
  | .failed => (.error failedError, s)
  | .lost => (.error lostError, s')

/-- The inserts of a registration: the organization, and its first user. -/
def Store.signUp (s : Store) (slug email : String) (dto : RegisterDto) : Store where
  organizations := s.organizations.insert ⟨0, dto.organizationName, slug⟩
  users := s.users.insert ⟨0, s.organizations.nextKey, email, dto.firstName, dto.lastName, .admin, false, true, none⟩

def Store.addUser (s : Store) (organizationId invitedBy : Nat) (email : String) (role : UserRole) : Store :=
  { s with users := s.users.insert ⟨0, organizationId, email, "", "", role, false, true, some invitedBy⟩ }

def exec (ch : Choice) : (op : Op) → Store → Option (op.Reply × Store)
  | .randomBytes, s => some (ch.random, s)
  | .findOrganization slug, s =>
    some (ch.outcome.answer failedError (s.organizations.rows.find? fun o => o.slug = slug) s s)
  | .findUser email organizationId, s =>
    some (ch.outcome.answer failedError
      (s.users.rows.find? fun u => u.email = email && organizationId.all fun id => u.organizationId = id) s s)
  | .commit slug email dto, s =>
    -- the slugs of organizations are unique
    some (if s.organizations.rows.any fun o => o.slug = slug then (.error duplicateError, s)
      else insertAnswer ch.outcome s (s.signUp slug email dto))
  | .insertUser organizationId invitedBy email role, s =>
    -- so are the addresses of the users of an organization, which there has to be
    some (if s.users.rows.any fun u => u.organizationId = organizationId && u.email = email then
        (.error duplicateError, s)
      else if !s.organizations.rows.any fun o => o.id = organizationId then (.error foreignKeyError, s)
      else insertAnswer ch.outcome s (s.addUser organizationId invitedBy email role))

/-! ## Requests -/

abbrev Program := Prog Op Op.Reply

namespace Program
abbrev randomBytes : Program String := .perform (E := Op) .randomBytes
abbrev findOrganization (slug : String) : Program (Except String (Option Organization)) :=
  .perform (E := Op) (.findOrganization slug)
abbrev findUser (email : String) (organizationId : Option Nat) : Program (Except String (Option User)) :=
  .perform (E := Op) (.findUser email organizationId)
abbrev commit (slug email : String) (dto : RegisterDto) : Program (Except String Unit) :=
  .perform (E := Op) (.commit slug email dto)
abbrev insertUser (organizationId invitedBy : Nat) (email : String) (role : UserRole) : Program (Except String Unit) :=
  .perform (E := Op) (.insertUser organizationId invitedBy email role)
end Program

open Program

/-- The registration of an organization, in one transaction. -/
def register (casing : Casing) (dto : RegisterDto) : Program (Except String Unit) := do
  let hex ← randomBytes
  let slug := slugOf casing dto.organizationName hex
  match ← findOrganization slug with
  | .error e => pure (.error e)
  | .ok (some _) => pure (.error "Please try again")
  | .ok none =>
    match ← findUser (casing.toLowerCase dto.email) none with
    | .error e => pure (.error e)
    | .ok (some _) => pure (.error "An account with this email already exists. Please log in instead.")
    | .ok none => commit slug (casing.toLowerCase dto.email) dto

/-- An invitation, as far as the row of the user. -/
def invite (casing : Casing) (organizationId invitedBy : Nat) (dto : InviteUserDto) : Program (Except String Unit) := do
  match ← findUser (casing.toLowerCase dto.email) (some organizationId) with
  | .error e => pure (.error e)
  | .ok (some _) => pure (.error "A user with this email already exists in the organization")
  | .ok none => insertUser organizationId invitedBy (casing.toLowerCase dto.email) dto.role

inductive Request where
  | register (dto : RegisterDto)
  | invite (organizationId invitedBy : Nat) (dto : InviteUserDto)

def Request.body (casing : Casing) : Request → Program Unit
  | .register dto => do let _ ← Accounts.register casing dto
  | .invite organizationId invitedBy dto => do let _ ← Accounts.invite casing organizationId invitedBy dto

def accounts (casing : Casing) : System Op Op.Reply Store Choice Request :=
  ⟨exec, fun _ s => some s, Request.body casing⟩

abbrev Serving (ι : Type) := Config ι Op Op.Reply Store

/-- The user whom a login is for. -/
def login (casing : Casing) (s : Store) (email : String) : Option User :=
  s.users.rows.find? fun u => casing.LOWER u.email = casing.LOWER email && u.isActive

end TimeChamp.Accounts
