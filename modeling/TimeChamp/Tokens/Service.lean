import TimeChamp.Api.Redis
import TimeChamp.Lib.Pool

/-!
# One-time tokens

`TokenService` keeps the user of a random token in the key-value store. Generating and consuming are programs over
awaited calls of the store; between two calls of one program any others may take theirs.

* `TokenPurpose`, `TTL`, `tokenKey` : what a token is for, how long it lives, and its key; `tokenKey_inj`;
* `Op`, `exec` : the calls, which may fail before or after they took effect; random tokens are new;
* `generate`, `peek`, `consume` : the programs; `service` : any number of them.
-/

namespace TimeChamp.Tokens
open Lib Api

inductive TokenPurpose where
  | emailVerify
  | invite
  | passwordReset
deriving DecidableEq

namespace TokenPurpose

def name : TokenPurpose → String
  | emailVerify => "email-verify"
  | invite => "invite"
  | passwordReset => "password-reset"

/-- In seconds. -/
def TTL : TokenPurpose → Nat
  | emailVerify => 86400
  | invite => 259200
  | passwordReset => 3600

end TokenPurpose

def tokenKey (purpose : TokenPurpose) (token : String) : String := "token:" ++ purpose.name ++ ":" ++ token

theorem tokenKey_inj {purpose purpose' : TokenPurpose} {token token' : String}
    (h : tokenKey purpose token = tokenKey purpose' token') : purpose = purpose' ∧ token = token' := by
  have hchars := congrArg String.toList h
  unfold tokenKey at hchars
  cases purpose <;> cases purpose' <;> simp [TokenPurpose.name] at hchars ⊢ <;> exact String.toList_inj.mp hchars

/-! ## Calls -/

/-- A token, and what it was generated for. -/
structure Issue where
  purpose : TokenPurpose
  userId : String
  token : String
deriving DecidableEq

/-- A write of the store, with its time. -/
structure Written where
  key : String
  value : String
  ttlSeconds : Option Nat
  at_ : Int
deriving DecidableEq

/-- The store, and what was generated and written so far. -/
structure Store where
  mem : Mem String
  issued : List Issue
  written : List Written

def Store.empty : Store := ⟨fun _ => none, [], []⟩

/-- The calls of the store, the source of randomness, and the answer of a `consume`. -/
inductive Op where
  | randomBytes (purpose : TokenPurpose) (userId : String)
  | set (key value : String) (ttlSeconds : Option Nat)
  | get (key : String)
  | del (key : String)
  | answer (purpose : TokenPurpose) (token : String) (userId : Option String)
deriving DecidableEq

/-- A read answers with the clock too, at which the store made it. -/
abbrev Op.Reply : Op → Type
  | .randomBytes _ _ => String
  | .set _ _ _ => Except String Unit
  | .get _ => Except String (Option String × Int)
  | .del _ => Except String Unit
  | .answer _ _ _ => Unit

instance : (op : Op) → DecidableEq op.Reply
  | .randomBytes _ _ => inferInstanceAs (DecidableEq String)
  | .set _ _ _ => inferInstanceAs (DecidableEq (Except String Unit))
  | .get _ => inferInstanceAs (DecidableEq (Except String (Option String × Int)))
  | .del _ => inferInstanceAs (DecidableEq (Except String Unit))
  | .answer _ _ _ => inferInstanceAs (DecidableEq Unit)

/-- What the outside decides: how a call ends, the clock of the store, and the random bytes. -/
structure Choice where
  outcome : Outcome
  now : Int
  random : String

def storeError : String := "Connection is closed."

def exec (ch : Choice) : (op : Op) → Store → Option (op.Reply × Store)
  | .randomBytes purpose userId, s =>
    -- 32 random bytes were never seen before
    if s.issued.any (·.token == ch.random) then none
    else some (ch.random, { s with issued := ⟨purpose, userId, ch.random⟩ :: s.issued })
  | .set key value ttlSeconds, s =>
    some (ch.outcome.answer storeError () s { s with
      mem := s.mem.set ch.now key value ttlSeconds
      written := ⟨key, value, ttlSeconds, ch.now⟩ :: s.written })
  | .get key, s =>
    some (ch.outcome.answer storeError (s.mem.get ch.now key, ch.now) s { s with mem := s.mem.afterGet ch.now key })
  | .del key, s => some (ch.outcome.answer storeError () s { s with mem := s.mem.del key })
  | .answer _ _ _, s => some ((), s)

/-! ## Programs -/

abbrev Program := Prog Op Op.Reply

namespace Program
abbrev randomBytes (purpose : TokenPurpose) (userId : String) : Program String :=
  .perform (E := Op) (.randomBytes purpose userId)
abbrev set (key value : String) (ttlSeconds : Option Nat) : Program (Except String Unit) :=
  .perform (E := Op) (.set key value ttlSeconds)
abbrev get (key : String) : Program (Except String (Option String × Int)) := .perform (E := Op) (.get key)
abbrev del (key : String) : Program (Except String Unit) := .perform (E := Op) (.del key)
abbrev answer (purpose : TokenPurpose) (token : String) (userId : Option String) : Program Unit :=
  .perform (E := Op) (.answer purpose token userId)
end Program

open Program

def generate (purpose : TokenPurpose) (userId : String) : Program (Except String String) := do
  let token ← randomBytes purpose userId
  match ← set (tokenKey purpose token) userId (some purpose.TTL) with
  | .error e => pure (.error e)
  | .ok _ => pure (.ok token)

def peek (purpose : TokenPurpose) (token : String) : Program (Except String (Option String)) := do
  match ← get (tokenKey purpose token) with
  | .error e => pure (.error e)
  | .ok (userId, _) => pure (.ok userId)

/-- An empty user counts as none when it comes to deleting the key, and is returned all the same. -/
def consume (purpose : TokenPurpose) (token : String) : Program (Except String (Option String)) := do
  match ← get (tokenKey purpose token) with
  | .error e => pure (.error e)
  | .ok (none, _) => pure (.ok none)
  | .ok (some userId, _) =>
    if userId = "" then pure (.ok (some userId))
    else
      match ← del (tokenKey purpose token) with
      | .error e => pure (.error e)
      | .ok _ => pure (.ok (some userId))

/-- A call of the service. -/
inductive Call where
  | generate (purpose : TokenPurpose) (userId : String)
  | peek (purpose : TokenPurpose) (token : String)
  | consume (purpose : TokenPurpose) (token : String)

def Call.body : Call → Program Unit
  | .generate purpose userId => do let _ ← Tokens.generate purpose userId
  | .peek purpose token => do let _ ← Tokens.peek purpose token
  | .consume purpose token => do
    match ← Tokens.consume purpose token with
    | .error _ => pure ()
    | .ok userId => answer purpose token userId

def service : System Op Op.Reply Store Choice Call := ⟨exec, fun _ s => some s, Call.body⟩

abbrev Running (ι : Type) := Config ι Op Op.Reply Store

end TimeChamp.Tokens
