import TimeChamp.Accounts.Credentials
import TimeChamp.Lib.Memo
import TimeChamp.Tokens.SingleUse

/-!
# Passwords change by mail

Whoever sets the password of a user presented a token that was generated for this user, and deleted it; and such tokens
leave the server only in mails to the address of the user.

* `Knows`, `mailing` : what a request was told, and what it may do with that;
* `Backed` : a token was read that was generated for the user and had not expired, and deleted then; `Proven`, that one
  verified the address;
* `Sound`, `Facts` : what holds of the tables, and of what a request was told; `step_sound`, one call;
* `passwords_by_mail` : **the theorem about every run**.
-/

namespace TimeChamp.Accounts.Credentials
open Lib Tokens Api
open Function (update)

/-! ## What a request knows -/

/-- A token that was found. -/
structure Read where
  key : String
  userId : String
  now : Int

/-- The users that were found, the tokens that were generated, those that were read, and those that were deleted then. -/
structure Knows where
  seen : List User
  issued : List Issue
  reads : List Read
  consumed : List Read

def Knows.nothing : Knows := ⟨[], [], [], []⟩

/-- A token of one of the purposes was read, for the user, and deleted. -/
def Knows.Consumed (m : Knows) (good : TokenPurpose → Prop) (userId : String) : Prop :=
  ∃ purpose token now, good purpose ∧ (⟨tokenKey purpose token, userId, now⟩ : Read) ∈ m.consumed

/-- What the token is for that sets a password. -/
def SetsPassword (purpose : TokenPurpose) : Prop := purpose = .passwordReset ∨ purpose = .invite

def VerifiesAddress (purpose : TokenPurpose) : Prop := purpose = .emailVerify ∨ purpose = .invite

/-- What a request may do with what it was told. -/
def mailing : Protocol Op Op.Reply Knows where
  pre m
    | .updateUser id patch => (patch.passwordHash.isSome = true → m.Consumed SetsPassword id) ∧
        (patch.emailVerified = some true →
          m.Consumed VerifiesAddress id ∨ ∃ u ∈ m.seen, u.id = id ∧ u.emailVerified = true)
    | .sendMail mail => ∃ issue ∈ m.issued, issue.purpose = mail.purpose ∧ issue.token = mail.token ∧
        ∃ u ∈ m.seen, u.id = issue.userId ∧ u.email = mail.to_
    | .token (.set key value ttlSeconds) => ∃ issue ∈ m.issued, key = tokenKey issue.purpose issue.token ∧
        value = issue.userId ∧ ttlSeconds = some issue.purpose.TTL
    | _ => True
  post m
    | .findUser _ _, .ok (some u), m' => m' = { m with seen := u :: m.seen }
    | .findUserById id _, .ok (some u), m' => u.id = id ∧ m' = { m with seen := u :: m.seen }
    | .insertUser _ _ _ _ _, .ok u, m' => m' = { m with seen := u :: m.seen }
    | .token (.randomBytes purpose userId), token, m' => m' = { m with issued := ⟨purpose, userId, token⟩ :: m.issued }
    | .token (.get key), .ok (some userId, now), m' => m' = { m with reads := ⟨key, userId, now⟩ :: m.reads }
    | .token (.del key), .ok (), m' => m' = { m with consumed := m.reads.filter (·.key = key) ++ m.consumed }
    | _, _, m' => m' = m

/-! ## The methods -/

section
variable {m : Knows} {purpose : TokenPurpose} {userId token : String}

abbrev Keeps {α : Type} (Q : Knows → α → Prop) (m : Knows) (x : Method α) : Prop := Guarantees mailing Q m x

theorem keeps_orThrow {α : Type} {Q : Knows → α → Prop} {answer : Except String α} (h : ∀ a, answer = .ok a → Q m a) :
    Keeps Q m (orThrow answer) := by
  cases answer with
  | ok a => exact guarantees_pure (h a rfl)
  | error e => exact guarantees_throw e

theorem keeps_perform {op : Op} (hpre : mailing.pre m op) (hpost : ∀ r m', mailing.post m op r m' → m' = m) :
    Keeps (fun m' _ => m' = m) m (perform op) :=
  guarantees_lift hpre hpost

theorem keeps_findUser {email : String} {organizationId : Option String} :
    Keeps (fun m' u => m'.issued = m.issued ∧ m'.reads = m.reads ∧ m.seen ⊆ m'.seen ∧ ∀ u' ∈ u, u' ∈ m'.seen) m
      (findUser email organizationId) := by
  refine Guarantees.bind (Q := fun m' r => ∀ u, r = Except.ok u → m'.issued = m.issued ∧ m'.reads = m.reads ∧
    m.seen ⊆ m'.seen ∧ ∀ u' ∈ u, u' ∈ m'.seen) (guarantees_lift trivial ?_) fun _ _ h => keeps_orThrow h
  rintro _ m' hm' u rfl
  cases u with
  | none =>
      obtain rfl : m' = m := hm'
      exact ⟨rfl, rfl, List.Subset.refl _, fun u' h => absurd h (Option.not_mem_none u')⟩
  | some u =>
      obtain rfl : m' = { m with seen := u :: m.seen } := hm'
      refine ⟨rfl, rfl, List.subset_cons_self _ _, ?_⟩
      rintro _ ⟨⟩
      exact List.mem_cons_self

theorem keeps_findUserById {id : String} {organizationId : Option String} :
    Keeps (fun m' u => m'.issued = m.issued ∧ m'.reads = m.reads ∧ m.seen ⊆ m'.seen ∧ ∀ u' ∈ u, u' ∈ m'.seen ∧ u'.id = id)
      m (findUserById id organizationId) := by
  refine Guarantees.bind (Q := fun m' r => ∀ u, r = Except.ok u → m'.issued = m.issued ∧ m'.reads = m.reads ∧
    m.seen ⊆ m'.seen ∧ ∀ u' ∈ u, u' ∈ m'.seen ∧ u'.id = id) (guarantees_lift trivial ?_) fun _ _ h => keeps_orThrow h
  rintro _ m' hm' u rfl
  cases u with
  | none =>
      obtain rfl : m' = m := hm'
      exact ⟨rfl, rfl, List.Subset.refl _, fun u' h => absurd h (Option.not_mem_none u')⟩
  | some u =>
      obtain ⟨hid, rfl⟩ : u.id = id ∧ m' = { m with seen := u :: m.seen } := hm'
      refine ⟨rfl, rfl, List.subset_cons_self _ _, ?_⟩
      rintro _ ⟨⟩
      exact ⟨List.mem_cons_self, hid⟩

theorem keeps_updateUser {id : String} {patch : UserPatch} (h : mailing.pre m (.updateUser id patch)) :
    Keeps (fun _ _ => True) m (updateUser id patch) := by
  refine Guarantees.bind (keeps_perform h fun _ _ h => h) fun _ _ _ => keeps_orThrow fun _ _ => trivial

theorem keeps_generate :
    Keeps (fun m' token => m'.seen = m.seen ∧ ⟨purpose, userId, token⟩ ∈ m'.issued) m
      (tokenService (generate purpose userId)) := by
  refine ⟨trivial, fun token m' hm' => ?_⟩
  obtain rfl : m' = { m with issued := ⟨purpose, userId, token⟩ :: m.issued } := hm'
  refine ⟨⟨_, List.mem_cons_self, rfl, rfl, rfl⟩, fun r m'' hm'' => ?_⟩
  obtain rfl : m'' = { m with issued := ⟨purpose, userId, token⟩ :: m.issued } := hm''
  cases r with
  | error e => rintro _ ⟨⟩
  | ok _ =>
      rintro _ ⟨⟩
      exact ⟨rfl, List.mem_cons_self⟩

/-- A token that is used up; that of the empty user is left. -/
theorem keeps_consume (purpose : TokenPurpose) (good : TokenPurpose → Prop) (hgood : good purpose) :
    Keeps (fun m' userId => ∀ u ∈ userId, u ≠ "" → m'.Consumed good u) m (tokenService (consume purpose token)) := by
  refine ⟨trivial, fun r m' hm' => ?_⟩
  match r with
  | .error e => rintro _ ⟨⟩
  | .ok (none, now) =>
      rintro _ ⟨⟩ u hu
      exact absurd hu (Option.not_mem_none u)
  | .ok (some userId, now) =>
      obtain rfl : m' = { m with reads := ⟨tokenKey purpose token, userId, now⟩ :: m.reads } := hm'
      show Follows mailing _ _ (Prog.embed _ _ (if userId = "" then _ else _))
      split
      next hempty =>
        rintro _ ⟨⟩ _ ⟨⟩ hne
        exact absurd hempty hne
      next =>
        refine ⟨trivial, fun r' m'' hm'' => ?_⟩
        cases r' with
        | error e => rintro _ ⟨⟩
        | ok _ =>
            rintro _ ⟨⟩ _ ⟨⟩ -
            subst hm''
            exact ⟨purpose, token, now, hgood, List.mem_append_left _ (List.mem_filter.mpr ⟨List.mem_cons_self, by simp⟩)⟩

theorem keeps_call {op : Op} {α : Type} {Q : Knows → α → Prop} {f : op.Reply → Method α} (hf : ∀ r, Keeps Q m (f r))
    (hpre : mailing.pre m op := by trivial) (hpost : ∀ r m', mailing.post m op r m' → m' = m := by exact fun _ _ h => h) :
    Keeps Q m (perform op >>= f) := by
  refine Guarantees.bind (keeps_perform hpre hpost) ?_
  rintro m' r rfl
  exact hf r

theorem keeps_register (casing : Casing) (dto : RegisterDto) : Keeps (fun _ _ => True) m (register casing dto) := by
  refine keeps_call fun hex => ?_
  refine Guarantees.bind (Q := fun _ _ => True) ?_ fun m' existing _ => ?_
  · exact keeps_call fun _ => keeps_orThrow fun _ _ => trivial
  · cases existing with
    | some _ => exact guarantees_throw _
    | none =>
        refine Guarantees.bind keeps_findUser fun m' existing _ => ?_
        cases existing with
        | some _ => exact guarantees_throw _
        | none =>
            refine keeps_call fun passwordHash => ?_
            refine Guarantees.bind (Q := fun _ _ => True) ?_ fun _ _ _ => guarantees_pure trivial
            exact keeps_call fun _ => keeps_orThrow fun _ _ => trivial

/-- The token of an invitation is generated for the user that was inserted, and sent to its address. -/
theorem keeps_invite (casing : Casing) (organizationId invitedBy : String) (dto : InviteUserDto) :
    Keeps (fun _ _ => True) m (invite casing organizationId invitedBy dto) := by
  refine Guarantees.bind keeps_findUser fun m₁ existing _ => ?_
  cases existing with
  | some _ => exact guarantees_throw _
  | none =>
      refine keeps_call fun tempPassword => ?_
      refine keeps_call fun passwordHash => ?_
      refine Guarantees.bind (Q := fun m' u => u ∈ m'.seen) ?_ fun m₂ savedUser hsaved => ?_
      · refine Guarantees.bind (Q := fun m' r => ∀ u, r = Except.ok u → u ∈ m'.seen) (guarantees_lift trivial ?_) ?_
        · rintro _ m' hm' u rfl
          obtain rfl : m' = { m₁ with seen := u :: m₁.seen } := hm'
          exact List.mem_cons_self
        · exact fun m' r h => keeps_orThrow h
      refine Guarantees.bind keeps_generate fun m₃ token htoken => ?_
      refine Guarantees.bind keeps_findUserById fun m₄ inviter hinviter => ?_
      refine Guarantees.bind (Q := fun m' _ => m' = m₄) ?_ fun m₅ organization hm₅ => ?_
      · exact keeps_call fun _ => keeps_orThrow fun _ _ => rfl
      obtain rfl := hm₅
      refine keeps_call (fun _ => ?_) ⟨⟨.invite, savedUser.id, token⟩, ?_, rfl, rfl, savedUser, ?_, rfl, rfl⟩
      · exact keeps_call fun _ => guarantees_pure trivial
      · rw [hinviter.1]
        exact htoken.2
      · apply hinviter.2.2.1
        rw [htoken.1]
        exact hsaved

theorem keeps_verifyEmail : Keeps (fun _ _ => True) m (verifyEmail token) := by
  refine Guarantees.bind (keeps_consume _ VerifiesAddress (Or.inl rfl)) fun m' userId hread => ?_
  cases userId with
  | none => exact guarantees_throw _
  | some userId =>
      show Keeps _ m' (if userId = "" then _ else _)
      split_ifs with hempty
      · exact guarantees_throw _
      · exact keeps_updateUser ⟨fun h => absurd h Bool.false_ne_true, fun _ => Or.inl (hread userId rfl hempty)⟩

theorem keeps_resendVerification : Keeps (fun _ _ => True) m (resendVerification userId) := by
  refine Guarantees.bind keeps_findUserById fun m₁ found hfound => ?_
  cases found with
  | none => exact guarantees_throw _
  | some user =>
      show Keeps _ m₁ (if user.emailVerified = true then _ else _)
      split
      · exact guarantees_pure trivial
      · obtain ⟨hseen, hid⟩ := hfound.2.2.2 user rfl
        refine Guarantees.bind keeps_generate fun m₂ token htoken => ?_
        refine Guarantees.mono (keeps_perform ⟨_, htoken.2, rfl, rfl, user, ?_, hid, rfl⟩ fun _ _ h => h) fun _ _ _ => trivial
        rw [htoken.1]
        exact hseen

theorem keeps_forgotPassword (email : String) : Keeps (fun _ _ => True) m (forgotPassword email) := by
  refine Guarantees.bind keeps_findUser fun m₁ found hfound => ?_
  cases found with
  | none => exact guarantees_pure trivial
  | some user =>
      refine Guarantees.bind keeps_generate fun m₂ token htoken => ?_
      refine Guarantees.mono (keeps_perform ⟨_, htoken.2, rfl, rfl, user, ?_, rfl, rfl⟩ fun _ _ h => h) fun _ _ _ => trivial
      rw [htoken.1]
      exact hfound.2.2.2 user rfl

theorem keeps_resetPassword (newPassword : String) : Keeps (fun _ _ => True) m (resetPassword token newPassword) := by
  refine Guarantees.bind (keeps_consume _ SetsPassword (Or.inl rfl)) fun m' userId hread => ?_
  cases userId with
  | none => exact guarantees_throw _
  | some userId =>
      show Keeps _ m' (if userId = "" then _ else _)
      split_ifs with hempty
      · exact guarantees_throw _
      · refine keeps_call fun hashed => ?_
        refine Guarantees.bind (keeps_updateUser ⟨fun _ => hread userId rfl hempty, fun h => by cases h⟩) fun m'' _ _ => ?_
        refine Guarantees.bind (Q := fun _ _ => True) ?_ fun _ _ _ => guarantees_pure trivial
        exact keeps_call fun _ => keeps_orThrow fun _ _ => trivial

theorem keeps_acceptInvite (firstName lastName password : String) :
    Keeps (fun _ _ => True) m (acceptInvite token firstName lastName password) := by
  refine Guarantees.bind (keeps_consume .invite (fun p => p = .invite) rfl) fun m' userId hread => ?_
  cases userId with
  | none => exact guarantees_throw _
  | some userId =>
      show Keeps _ m' (if userId = "" then _ else _)
      split_ifs with hempty
      · exact guarantees_throw _
      · refine keeps_call fun hashed => ?_
        obtain ⟨purpose, token, now, rfl, hmem⟩ := hread userId rfl hempty
        exact keeps_updateUser ⟨fun _ => ⟨_, _, _, Or.inr rfl, hmem⟩, fun _ => Or.inl ⟨_, _, _, Or.inr rfl, hmem⟩⟩

theorem keeps_findById {id organizationId : String} :
    Keeps (fun m' u => u ∈ m'.seen ∧ u.id = id) m (findById id organizationId) := by
  refine Guarantees.bind keeps_findUserById fun m' found hfound => ?_
  cases found with
  | none => exact guarantees_throw _
  | some user => exact guarantees_pure (hfound.2.2.2 user rfl)

theorem changed_eq_some {α : Type} [DecidableEq α] {stored saved a : α} (h : changed stored saved = some a) : saved = a := by
  unfold changed at h
  split at h
  · cases h
  · exact Option.some.inj h

/-- A user that is saved may be written as verified, if it was when it was loaded. -/
theorem keeps_update (id organizationId : String) (dto : UpdateUserDto) :
    Keeps (fun _ _ => True) m (Credentials.update id organizationId dto) := by
  refine Guarantees.bind keeps_findById fun m₁ user huser => ?_
  refine Guarantees.bind keeps_findUserById fun m₂ found hfound => ?_
  cases found with
  | none => exact guarantees_throw _
  | some stored =>
      refine keeps_updateUser ⟨fun h => absurd h Bool.false_ne_true, fun h => Or.inr ⟨user, ?_, rfl, ?_⟩⟩
      · exact hfound.2.2.1 huser.1
      · exact changed_eq_some h

theorem keeps_deactivate (id organizationId requestingUserId : String) :
    Keeps (fun _ _ => True) m (deactivate id organizationId requestingUserId) := by
  unfold deactivate
  split
  · exact guarantees_throw _
  · refine Guarantees.bind keeps_findById fun m' user _ => ?_
    exact keeps_updateUser ⟨fun h => absurd h Bool.false_ne_true, fun h => by cases h⟩

/-- **What every request keeps to.** -/
theorem follows_body (casing : Casing) (request : Request) :
    Follows mailing (fun _ _ => True) Knows.nothing (request.body casing) := by
  have hmethod : Keeps (fun _ _ => True) Knows.nothing (request.method casing) := by
    cases request with
    | register dto => exact keeps_register casing dto
    | invite organizationId invitedBy dto =>
        exact Guarantees.bind (keeps_invite casing organizationId invitedBy dto) fun _ _ _ => guarantees_pure trivial
    | verifyEmail token => exact keeps_verifyEmail
    | resendVerification userId => exact keeps_resendVerification
    | forgotPassword email => exact keeps_forgotPassword email
    | resetPassword token newPassword => exact keeps_resetPassword newPassword
    | acceptInvite token firstName lastName password => exact keeps_acceptInvite firstName lastName password
    | update id organizationId dto => exact keeps_update id organizationId dto
    | deactivate id organizationId requestingUserId => exact keeps_deactivate id organizationId requestingUserId
  exact Follows.bind hmethod fun _ _ _ => trivial

end

/-! ## What holds in every run -/

section
variable {ι : Type}

abbrev Trace (ι : Type) := List (Performed ι Op Op.Reply)

/-- A request read a token of the user, and deleted it then. -/
def ConsumedBy (tr : Trace ι) (i : ι) (r : Read) : Prop :=
  ∃ pre post, tr = pre ++ ((i, ⟨.token (.del r.key), .ok ()⟩) : Performed ι Op Op.Reply) :: post ∧
    ((i, ⟨.token (.get r.key), .ok (some r.userId, r.now)⟩) : Performed ι Op Op.Reply) ∈ pre

/-- A request consumed a token that was generated for the user, for one of the purposes, and had not expired. -/
def Backed (written : List Written) (tr : Trace ι) (i : ι) (good : TokenPurpose → Prop) (userId : String) : Prop :=
  ∃ purpose token now, good purpose ∧ ConsumedBy tr i ⟨tokenKey purpose token, userId, now⟩ ∧
    (∃ k, ((k, ⟨.token (.randomBytes purpose userId), token⟩) : Performed ι Op Op.Reply) ∈ tr) ∧
    ∃ at_, (⟨tokenKey purpose token, userId, some purpose.TTL, at_⟩ : Written) ∈ written ∧ now ≤ at_ + purpose.TTL * 1000

/-- The address of the user was verified by a token. -/
def Proven (written : List Written) (tr : Trace ι) (userId : String) : Prop :=
  ∃ pre i patch r post, tr = pre ++ ((i, ⟨.updateUser userId patch, r⟩) : Performed ι Op Op.Reply) :: post ∧
    patch.emailVerified = some true ∧ Backed written pre i VerifiesAddress userId

/-- The user has the address, now and for good. -/
def Address (db : Db) (userId email : String) : Prop :=
  userId ∈ db.ids ∧ ∀ u ∈ db.users, u.id = userId → u.email = email

/-- What every call keeps of the tables. -/
structure Evolves (db db' : Db) : Prop where
  ids : db.ids ⊆ db'.ids
  users : ∀ u' ∈ db'.users, (∃ u ∈ db.users, u.id = u'.id ∧ u.email = u'.email) ∨ u'.id ∉ db.ids
  issued : db.tokens.issued ⊆ db'.tokens.issued
  written : db.tokens.written ⊆ db'.tokens.written

/-- An update that sets a password is backed by a token. -/
def Justified (written : List Written) (tr : Trace ι) : Performed ι Op Op.Reply → Prop
  | (i, ⟨.updateUser userId patch, _⟩) => patch.passwordHash.isSome = true → Backed written tr i SetsPassword userId
  | _ => True

/-- What holds of the store of tokens. -/
structure TokensSound (s : Tokens.Store) : Prop where
  stored : ∀ key entry, s.mem key = some entry →
    ∃ w ∈ s.written, w.key = key ∧ w.value = entry.value ∧ entry.expiresAt = expiry w.at_ w.ttlSeconds
  written : ∀ w ∈ s.written, ∃ issue ∈ s.issued, w.key = tokenKey issue.purpose issue.token ∧ w.value = issue.userId ∧
    w.ttlSeconds = some issue.purpose.TTL

/-- What holds of the tables and of what was done. -/
structure Sound (db : Db) (tr : Trace ι) : Prop where
  ids : ∀ u ∈ db.users, u.id ∈ db.ids
  nodup : (db.users.map User.id).Nodup
  verified : ∀ u ∈ db.users, u.emailVerified = true → Proven db.tokens.written tr u.id
  tokens : TokensSound db.tokens
  issued : ∀ issue ∈ db.tokens.issued,
    ∃ k, ((k, ⟨.token (.randomBytes issue.purpose issue.userId), issue.token⟩) : Performed ι Op Op.Reply) ∈ tr
  updates : ∀ pre x post, tr = pre ++ x :: post → Justified db.tokens.written pre x
  mails : ∀ k mail, ((k, ⟨.sendMail mail, ()⟩) : Performed ι Op Op.Reply) ∈ tr → ∃ userId,
    ((k, ⟨.token (.randomBytes mail.purpose userId), mail.token⟩) : Performed ι Op Op.Reply) ∈ tr ∧
      Address db userId mail.to_

/-- What holds of what a request was told. -/
structure Facts (db : Db) (tr : Trace ι) (i : ι) (m : Knows) : Prop where
  seen : ∀ u ∈ m.seen, Address db u.id u.email ∧ (u.emailVerified = true → Proven db.tokens.written tr u.id)
  issued : ∀ issue ∈ m.issued, issue ∈ db.tokens.issued ∧
    ((i, ⟨.token (.randomBytes issue.purpose issue.userId), issue.token⟩) : Performed ι Op Op.Reply) ∈ tr
  reads : ∀ r ∈ m.reads,
    ((i, ⟨.token (.get r.key), .ok (some r.userId, r.now)⟩) : Performed ι Op Op.Reply) ∈ tr ∧
    ∃ issue ∈ db.tokens.issued, ∃ at_, r.key = tokenKey issue.purpose issue.token ∧ r.userId = issue.userId ∧
      (⟨r.key, r.userId, some issue.purpose.TTL, at_⟩ : Written) ∈ db.tokens.written ∧
      r.now ≤ at_ + issue.purpose.TTL * 1000
  consumed : ∀ r ∈ m.consumed, r ∈ m.reads ∧ ConsumedBy tr i r

variable {db db' : Db} {tr : Trace ι} {x : Performed ι Op Op.Reply} {i : ι} {m : Knows} {userId email : String}
  {good : TokenPurpose → Prop} {written written' : List Written}

/-! ### What lasts -/

theorem Backed.mono (h : Backed written tr i good userId) (hwritten : written ⊆ written') :
    Backed written' tr i good userId := by
  obtain ⟨purpose, token, now, hgood, hread, hissued, at_, hw, hnow⟩ := h
  exact ⟨purpose, token, now, hgood, hread, hissued, at_, hwritten hw, hnow⟩

theorem Proven.mono (h : Proven written tr userId) (hwritten : written ⊆ written') : Proven written' (tr ++ [x]) userId := by
  obtain ⟨pre, i, patch, r, post, rfl, hpatch, hbacked⟩ := h
  exact ⟨pre, i, patch, r, post ++ [x], by rw [List.append_assoc, List.cons_append], hpatch, hbacked.mono hwritten⟩

theorem Justified.mono (h : Justified written tr x) (hwritten : written ⊆ written') : Justified written' tr x := by
  unfold Justified at h ⊢
  split
  next => exact fun hpatch => (h hpatch).mono hwritten
  next => trivial

theorem Evolves.refl (db : Db) : Evolves db db :=
  ⟨List.Subset.refl _, fun u hu => Or.inl ⟨u, hu, rfl, rfl⟩, List.Subset.refl _, List.Subset.refl _⟩

theorem Address.evolves (h : Address db userId email) (hdb : Evolves db db') : Address db' userId email := by
  refine ⟨hdb.ids h.1, fun u' hu' hid => ?_⟩
  rcases hdb.users u' hu' with ⟨u, hu, hu'id, hemail⟩ | hnew
  · exact hemail ▸ h.2 u hu (hu'id.trans hid)
  · exact absurd (hid ▸ h.1) hnew

theorem ConsumedBy.later {r : Read} (h : ConsumedBy tr i r) : ConsumedBy (tr ++ [x]) i r := by
  obtain ⟨pre, post, rfl, hread⟩ := h
  exact ⟨pre, post ++ [x], by rw [List.append_assoc, List.cons_append], hread⟩

theorem Facts.evolves (h : Facts db tr i m) (hdb : Evolves db db') : Facts db' (tr ++ [x]) i m where
  seen u hu := ⟨(h.seen u hu).1.evolves hdb, fun hv => ((h.seen u hu).2 hv).mono hdb.written⟩
  issued issue hissue := ⟨hdb.issued (h.issued issue hissue).1, List.mem_append_left _ (h.issued issue hissue).2⟩
  reads r hr := by
    obtain ⟨hread, issue, hissue, at_, hkey, hid, hw, hnow⟩ := h.reads r hr
    exact ⟨List.mem_append_left _ hread, issue, hdb.issued hissue, at_, hkey, hid, hdb.written hw, hnow⟩
  consumed r hr := ⟨(h.consumed r hr).1, (h.consumed r hr).2.later⟩

/-- A token that was consumed is one that was generated for the user. -/
theorem Facts.backed (h : Facts db tr i m) (hdb : Sound db tr) (hconsumed : m.Consumed good userId) :
    Backed db.tokens.written tr i good userId := by
  obtain ⟨purpose, token, now, hgood, hmem⟩ := hconsumed
  obtain ⟨hread, hdeleted⟩ := h.consumed _ hmem
  obtain ⟨-, issue, hissue, at_, hkey, hid, hw, hnow⟩ := h.reads _ hread
  obtain ⟨rfl, rfl⟩ := tokenKey_inj hkey
  obtain rfl : userId = issue.userId := hid
  exact ⟨_, _, now, hgood, hdeleted, hdb.issued issue hissue, at_, hw, hnow⟩

/-- A call that is neither an update nor a mail. -/
def Plain : Performed ι Op Op.Reply → Prop
  | (_, ⟨.updateUser _ _, _⟩) => False
  | (_, ⟨.sendMail _, _⟩) => False
  | _ => True

/-- What is left to show of a call: about the rows, the store, and the call itself. -/
theorem Sound.step (h : Sound db tr) (hdb : Evolves db db') (hids : ∀ u ∈ db'.users, u.id ∈ db'.ids)
    (hnodup : (db'.users.map User.id).Nodup)
    (hverified : ∀ u ∈ db'.users, u.emailVerified = true → Proven db'.tokens.written (tr ++ [x]) u.id)
    (htokens : TokensSound db'.tokens)
    (hissued : ∀ issue ∈ db'.tokens.issued, issue ∈ db.tokens.issued ∨
      ∃ k, x = (k, ⟨.token (.randomBytes issue.purpose issue.userId), issue.token⟩))
    (hx : Justified db.tokens.written tr x)
    (hmail : ∀ k mail, x = (k, ⟨.sendMail mail, ()⟩) → ∃ userId,
      ((k, ⟨.token (.randomBytes mail.purpose userId), mail.token⟩) : Performed ι Op Op.Reply) ∈ tr ∧
        Address db userId mail.to_) : Sound db' (tr ++ [x]) where
  ids := hids
  nodup := hnodup
  verified := hverified
  tokens := htokens
  issued issue hissue := by
    rcases hissued issue hissue with hold | ⟨k, rfl⟩
    · obtain ⟨k, hk⟩ := h.issued issue hold
      exact ⟨k, List.mem_append_left _ hk⟩
    · exact ⟨k, List.mem_append_right _ List.mem_cons_self⟩
  updates := Memo.forall_split_concat.mpr
    ⟨fun pre y post hpre => (h.updates pre y post hpre).mono hdb.written, hx.mono hdb.written⟩
  mails k mail hk := by
    have hcases : ((k, ⟨.sendMail mail, ()⟩) : Performed ι Op Op.Reply) ∈ tr ∨ x = (k, ⟨.sendMail mail, ()⟩) := by
      rcases List.mem_append.mp hk with hk | hk
      · exact Or.inl hk
      · exact Or.inr (List.mem_singleton.mp hk).symm
    obtain ⟨userId, htoken, haddress⟩ := hcases.elim (h.mails k mail) (hmail k mail)
    exact ⟨userId, List.mem_append_left _ htoken, haddress.evolves hdb⟩

/-- The rows of the users are others. -/
theorem Sound.step_users (h : Sound db tr) (hdb : Evolves db db') (hids : ∀ u ∈ db'.users, u.id ∈ db'.ids)
    (hnodup : (db'.users.map User.id).Nodup)
    (hverified : ∀ u ∈ db'.users, u.emailVerified = true → Proven db'.tokens.written tr u.id)
    (htokens : db'.tokens = db.tokens) : Sound db' tr where
  ids := hids
  nodup := hnodup
  verified := hverified
  tokens := htokens ▸ h.tokens
  issued := htokens ▸ h.issued
  updates := htokens ▸ h.updates
  mails k mail hk := by
    obtain ⟨userId, htoken, haddress⟩ := h.mails k mail hk
    exact ⟨userId, htoken, haddress.evolves hdb⟩

theorem Sound.same (h : Sound db tr) (hplain : Plain x) : Sound db (tr ++ [x]) := by
  refine h.step (Evolves.refl db) h.ids h.nodup (fun u hu hv => (h.verified u hu hv).mono (List.Subset.refl _)) h.tokens
    (fun issue hissue => Or.inl hissue) ?_ ?_
  · unfold Justified
    split
    next => exact absurd hplain id
    next => trivial
  · rintro k mail rfl
    exact absurd hplain id

/-! ### One call -/

/-- What a request is left with after a call. -/
def After (db' : Db) (tr : Trace ι) (i : ι) (m : Knows) (op : Op) (r : op.Reply) (db : Db) : Prop :=
  ∃ m', mailing.post m op r m' ∧ Sound db' (tr ++ [(i, ⟨op, r⟩)]) ∧ Evolves db db' ∧ Facts db' (tr ++ [(i, ⟨op, r⟩)]) i m'

theorem After.same {op : Op} {r : op.Reply} (h : Sound db tr) (hm : Facts db tr i m) (hplain : Plain (i, ⟨op, r⟩))
    (hpost : mailing.post m op r m) : After db tr i m op r db :=
  ⟨m, hpost, h.same hplain, Evolves.refl db, hm.evolves (Evolves.refl db)⟩

theorem After.found {op : Op} {u : User} {r : op.Reply} (h : Sound db tr) (hm : Facts db tr i m)
    (hplain : Plain (i, ⟨op, r⟩)) (hu : u ∈ db.users) (hpost : mailing.post m op r { m with seen := u :: m.seen }) :
    After db tr i m op r db := by
  have hm' : Facts db (tr ++ [(i, ⟨op, r⟩)]) i m := hm.evolves (Evolves.refl db)
  refine ⟨_, hpost, h.same hplain, Evolves.refl db, ?_, hm'.issued, hm'.reads, hm'.consumed⟩
  intro u' hu'
  rcases List.mem_cons.mp hu' with rfl | hu'
  · refine ⟨⟨h.ids u' hu, fun u'' hu'' hid => ?_⟩, fun hv => (h.verified u' hu hv).mono (List.Subset.refl _)⟩
    rw [List.inj_on_of_nodup_map h.nodup hu'' hu hid]
  · exact hm'.seen u' hu'

theorem evolves_newUser {user : User} {organizations : List Organization} (hnew : user.id ∉ db.ids) :
    Evolves db { db.newUser user with organizations := organizations } := by
  refine ⟨List.subset_cons_self _ _, fun u' hu' => ?_, List.Subset.refl _, List.Subset.refl _⟩
  rcases List.mem_append.mp hu' with hu' | hu'
  · exact Or.inl ⟨u', hu', rfl, rfl⟩
  · rw [List.mem_singleton.mp hu']
    exact Or.inr hnew

/-- A row that is inserted has not been verified. -/
theorem Sound.newUser {user : User} {organizations : List Organization} (h : Sound db tr) (hplain : Plain x)
    (hnew : user.id ∉ db.ids) (hunverified : user.emailVerified = false) :
    Sound { db.newUser user with organizations := organizations } (tr ++ [x]) := by
  refine (h.same hplain).step_users (evolves_newUser hnew) ?_ ?_ ?_ rfl
  · intro u hu
    rcases List.mem_append.mp hu with hu | hu
    · exact List.mem_cons_of_mem _ (h.ids u hu)
    · rw [List.mem_singleton.mp hu]
      exact List.mem_cons_self
  · show ((db.users ++ [user]).map User.id).Nodup
    rw [List.map_append, List.map_singleton]
    refine List.nodup_append.mpr ⟨h.nodup, List.pairwise_singleton _ _, fun id hid id' hid' => ?_⟩
    obtain ⟨u, hu, rfl⟩ := List.mem_map.mp hid
    rw [List.mem_singleton.mp hid']
    intro heq
    exact hnew (heq ▸ h.ids u hu)
  · intro u hu hv
    rcases List.mem_append.mp hu with hu | hu
    · exact (h.same hplain).verified u hu hv
    · rw [List.mem_singleton.mp hu, hunverified] at hv
      cases hv

theorem After.unheard {op : Op} {r : op.Reply} {user : User} {organizations : List Organization} (h : Sound db tr)
    (hm : Facts db tr i m) (hplain : Plain (i, ⟨op, r⟩)) (hnew : user.id ∉ db.ids)
    (hunverified : user.emailVerified = false) (hpost : mailing.post m op r m) :
    After { db.newUser user with organizations := organizations } tr i m op r db :=
  ⟨m, hpost, h.newUser hplain hnew hunverified, evolves_newUser hnew, hm.evolves (evolves_newUser hnew)⟩

theorem After.inserted {op : Op} {r : op.Reply} {user : User} {organizations : List Organization} (h : Sound db tr)
    (hm : Facts db tr i m) (hplain : Plain (i, ⟨op, r⟩)) (hnew : user.id ∉ db.ids)
    (hunverified : user.emailVerified = false) (hpost : mailing.post m op r { m with seen := user :: m.seen }) :
    After { db.newUser user with organizations := organizations } tr i m op r db := by
  have hevolves : Evolves db { db.newUser user with organizations := organizations } := evolves_newUser hnew
  have hsound : Sound { db.newUser user with organizations := organizations } (tr ++ [(i, ⟨op, r⟩)]) :=
    h.newUser hplain hnew hunverified
  have hm' := hm.evolves (x := (i, ⟨op, r⟩)) hevolves
  refine ⟨_, hpost, hsound, hevolves, fun u hu => ?_, hm'.issued, hm'.reads, hm'.consumed⟩
  rcases List.mem_cons.mp hu with rfl | hu
  · refine ⟨⟨List.mem_cons_self, fun u' hu' hid => ?_⟩, fun hv => absurd hv (by rw [hunverified]; exact Bool.false_ne_true)⟩
    rw [List.inj_on_of_nodup_map hsound.nodup hu' (List.mem_append_right _ List.mem_cons_self) hid]
  · exact hm'.seen u hu

/-! ### Updates -/

theorem evolves_update (id : String) (patch : UserPatch) :
    Evolves db { db with users := db.users.map fun u => if u.id = id then patch.apply u else u } := by
  refine ⟨List.Subset.refl _, fun u' hu' => ?_, List.Subset.refl _, List.Subset.refl _⟩
  obtain ⟨u, hu, rfl⟩ := List.mem_map.mp hu'
  refine Or.inl ⟨u, hu, ?_⟩
  split
  · exact ⟨rfl, rfl⟩
  · exact ⟨rfl, rfl⟩

/-- A token that a request read may verify an address; so may a save of a user that had been verified. -/
theorem proven_update {id : String} {patch : UserPatch} {r : Except String Unit} (h : Sound db tr) (hm : Facts db tr i m)
    (hpre : mailing.pre m (.updateUser id patch)) (hpatch : patch.emailVerified = some true) :
    Proven db.tokens.written (tr ++ [(i, ⟨.updateUser id patch, r⟩)]) id := by
  rcases hpre.2 hpatch with hread | ⟨u, hu, rfl, hverified⟩
  · exact ⟨tr, i, patch, r, [], rfl, hpatch, hm.backed h hread⟩
  · exact ((hm.seen u hu).2 hverified).mono (List.Subset.refl _)

theorem After.update {id : String} {patch : UserPatch} {r : Except String Unit} (h : Sound db tr) (hm : Facts db tr i m)
    (hpre : mailing.pre m (.updateUser id patch))
    (hdb' : db' = db ∨ db' = { db with users := db.users.map fun u => if u.id = id then patch.apply u else u }) :
    After db' tr i m (.updateUser id patch) r db := by
  have hevolves : Evolves db db' := by
    rcases hdb' with rfl | rfl
    · exact Evolves.refl _
    · exact evolves_update id patch
  refine ⟨m, rfl, ?_, hevolves, hm.evolves hevolves⟩
  have hjustified : Justified db.tokens.written tr (i, ⟨.updateUser id patch, r⟩) := fun hpassword =>
    hm.backed h (hpre.1 hpassword)
  have hmail : ∀ k mail, ((i, ⟨.updateUser id patch, r⟩) : Performed ι Op Op.Reply) = (k, ⟨.sendMail mail, ()⟩) →
      ∃ userId, ((k, ⟨.token (.randomBytes mail.purpose userId), mail.token⟩) : Performed ι Op Op.Reply) ∈ tr ∧
        Address db userId mail.to_ := by
    intro k mail heq
    cases heq
  have hlast : ∀ u ∈ db.users, u.emailVerified = true →
      Proven db.tokens.written (tr ++ [(i, ⟨.updateUser id patch, r⟩)]) u.id :=
    fun u hu hv => (h.verified u hu hv).mono (List.Subset.refl _)
  have hproven : patch.emailVerified = some true →
      Proven db.tokens.written (tr ++ [(i, ⟨.updateUser id patch, r⟩)]) id := proven_update h hm hpre
  rcases hdb' with rfl | rfl
  · exact h.step hevolves h.ids h.nodup hlast h.tokens (fun _ => Or.inl) hjustified hmail
  · refine h.step hevolves ?_ ?_ ?_ h.tokens (fun _ => Or.inl) hjustified hmail
    · intro u' hu'
      obtain ⟨u, hu, rfl⟩ := List.mem_map.mp hu'
      split
      · exact h.ids u hu
      · exact h.ids u hu
    · show ((db.users.map fun u => if u.id = id then patch.apply u else u).map User.id).Nodup
      have hid : User.id ∘ (fun u => if u.id = id then patch.apply u else u) = User.id := by
        funext u
        show (if u.id = id then patch.apply u else u).id = u.id
        split <;> rfl
      rw [List.map_map, hid]
      exact h.nodup
    · intro u' hu' hv
      obtain ⟨u, hu, rfl⟩ := List.mem_map.mp hu'
      split at hv
      next hid =>
        rw [if_pos hid]
        show Proven _ _ u.id
        cases hpatch : patch.emailVerified with
        | none =>
            have hv : u.emailVerified = true := by simpa [UserPatch.apply, hpatch] using hv
            exact hlast u hu hv
        | some b =>
            obtain rfl : b = true := by simpa [UserPatch.apply, hpatch] using hv
            exact hid ▸ hproven hpatch
      next hid =>
        rw [if_neg hid]
        exact hlast u hu hv

/-! ### Tokens -/

theorem Sound.setTokens (h : Sound db tr) (op : Tokens.Op) (r : op.Reply) (s : Tokens.Store)
    (hissued : db.tokens.issued ⊆ s.issued) (hwritten : db.tokens.written ⊆ s.written) (hs : TokensSound s)
    (hnew : ∀ issue ∈ s.issued, issue ∈ db.tokens.issued ∨
      ∃ k, ((i, ⟨.token op, r⟩) : Performed ι Op Op.Reply) =
        (k, ⟨.token (.randomBytes issue.purpose issue.userId), issue.token⟩)) :
    Sound { db with tokens := s } (tr ++ [(i, ⟨.token op, r⟩)]) ∧ Evolves db { db with tokens := s } := by
  have hevolves : Evolves db { db with tokens := s } :=
    ⟨List.Subset.refl _, fun u hu => Or.inl ⟨u, hu, rfl, rfl⟩, hissued, hwritten⟩
  refine ⟨h.step hevolves h.ids h.nodup (fun u hu hv => (h.verified u hu hv).mono hwritten) hs hnew trivial ?_, hevolves⟩
  intro k mail heq
  cases heq

theorem TokensSound.shrink {s : Tokens.Store} (h : TokensSound s) {mem : Mem String}
    (hmem : ∀ key entry, mem key = some entry → s.mem key = some entry) : TokensSound { s with mem } :=
  ⟨fun key entry hentry => h.stored key entry (hmem key entry hentry), h.written⟩

theorem TokensSound.set {s : Tokens.Store} (h : TokensSound s) {issue : Issue} (hissue : issue ∈ s.issued) (now : Int) :
    TokensSound { s with
      mem := s.mem.set now (tokenKey issue.purpose issue.token) issue.userId (some issue.purpose.TTL)
      written := ⟨tokenKey issue.purpose issue.token, issue.userId, some issue.purpose.TTL, now⟩ :: s.written } := by
  constructor
  · intro key entry hentry
    rcases Mem.set_eq_some hentry with ⟨rfl, rfl⟩ | ⟨-, hold⟩
    · exact ⟨_, List.mem_cons_self, rfl, rfl, rfl⟩
    · obtain ⟨w, hw, hrest⟩ := h.stored key entry hold
      exact ⟨w, List.mem_cons_of_mem _ hw, hrest⟩
  · intro w hw
    rcases List.mem_cons.mp hw with rfl | hw
    · exact ⟨issue, hissue, rfl, rfl, rfl⟩
    · exact h.written w hw

/-- A key that is found was written for a token, and that has not expired. -/
theorem TokensSound.get {s : Tokens.Store} (h : TokensSound s) {key userId : String} {now : Int}
    (hget : s.mem.get now key = some userId) :
    ∃ issue ∈ s.issued, ∃ at_, key = tokenKey issue.purpose issue.token ∧ userId = issue.userId ∧
      (⟨key, userId, some issue.purpose.TTL, at_⟩ : Written) ∈ s.written ∧ now ≤ at_ + issue.purpose.TTL * 1000 := by
  obtain ⟨entry, hentry, rfl, hlives⟩ := Mem.get_eq_some hget
  obtain ⟨w, hw, rfl, hvalue, hexpires⟩ := h.stored key entry hentry
  obtain ⟨issue, hissue, hkey, hid, httl⟩ := h.written w hw
  rw [httl, expiry_TTL] at hexpires
  refine ⟨issue, hissue, w.at_, hkey, hvalue.symm.trans hid, ?_, hlives _ hexpires⟩
  rw [← hvalue, ← httl]
  exact hw

/-- A call that issues no token, and tells nothing. -/
theorem After.quiet {op : Tokens.Op} {r : op.Reply} {s : Tokens.Store} (h : Sound db tr) (hm : Facts db tr i m)
    (hissued : s.issued = db.tokens.issued) (hwritten : db.tokens.written ⊆ s.written) (hs : TokensSound s)
    (hpost : mailing.post m (.token op) r m) : After { db with tokens := s } tr i m (.token op) r db := by
  obtain ⟨hsound, hevolves⟩ := h.setTokens (i := i) op r s (hissued ▸ List.Subset.refl _) hwritten hs
    fun issue hissue => Or.inl (hissued ▸ hissue)
  exact ⟨m, hpost, hsound, hevolves, hm.evolves hevolves⟩

theorem After.issued {purpose : TokenPurpose} {userId token : String} (h : Sound db tr) (hm : Facts db tr i m) :
    After { db with tokens := { db.tokens with issued := ⟨purpose, userId, token⟩ :: db.tokens.issued } } tr i m
      (.token (.randomBytes purpose userId)) token db := by
  have hs : TokensSound { db.tokens with issued := ⟨purpose, userId, token⟩ :: db.tokens.issued } := by
    refine ⟨h.tokens.stored, fun w hw => ?_⟩
    obtain ⟨issue, hissue, hrest⟩ := h.tokens.written w hw
    exact ⟨issue, List.mem_cons_of_mem _ hissue, hrest⟩
  obtain ⟨hsound, hevolves⟩ := h.setTokens (i := i) (.randomBytes purpose userId) token
    { db.tokens with issued := ⟨purpose, userId, token⟩ :: db.tokens.issued } (List.subset_cons_self _ _)
    (List.Subset.refl _) hs fun issue hissue => by
      rcases List.mem_cons.mp hissue with rfl | hissue
      · exact Or.inr ⟨i, rfl⟩
      · exact Or.inl hissue
  have hm' := hm.evolves (x := (i, ⟨.token (.randomBytes purpose userId), token⟩)) hevolves
  refine ⟨_, rfl, hsound, hevolves, hm'.seen, fun issue hissue => ?_, hm'.reads, hm'.consumed⟩
  rcases List.mem_cons.mp hissue with rfl | hissue
  · exact ⟨List.mem_cons_self, List.mem_append_right _ List.mem_cons_self⟩
  · exact hm'.issued issue hissue

theorem After.gotten {key userId : String} {now : Int} {mem : Mem String} (h : Sound db tr) (hm : Facts db tr i m)
    (hget : db.tokens.mem.get now key = some userId) (hs : TokensSound { db.tokens with mem }) :
    After { db with tokens := { db.tokens with mem } } tr i m (.token (.get key)) (.ok (some userId, now)) db := by
  obtain ⟨hsound, hevolves⟩ := h.setTokens (i := i) (.get key) (.ok (some userId, now)) { db.tokens with mem }
    (List.Subset.refl _) (List.Subset.refl _) hs fun issue hissue => Or.inl hissue
  have hm' := hm.evolves (x := (i, ⟨.token (.get key), .ok (some userId, now)⟩)) hevolves
  refine ⟨_, rfl, hsound, hevolves, hm'.seen, hm'.issued, fun read hread => ?_, fun read hread =>
    ⟨List.mem_cons_of_mem _ (hm'.consumed read hread).1, (hm'.consumed read hread).2⟩⟩
  rcases List.mem_cons.mp hread with rfl | hread
  · exact ⟨List.mem_append_right _ List.mem_cons_self, h.tokens.get hget⟩
  · exact hm'.reads read hread

/-- What was read under the key is consumed when the key is deleted. -/
theorem After.deleted {key : String} {mem : Mem String} (h : Sound db tr) (hm : Facts db tr i m)
    (hs : TokensSound { db.tokens with mem }) :
    After { db with tokens := { db.tokens with mem } } tr i m (.token (.del key)) (.ok ()) db := by
  obtain ⟨hsound, hevolves⟩ := h.setTokens (i := i) (.del key) (.ok ()) { db.tokens with mem } (List.Subset.refl _)
    (List.Subset.refl _) hs fun issue hissue => Or.inl hissue
  have hm' := hm.evolves (x := (i, ⟨.token (.del key), .ok ()⟩)) hevolves
  refine ⟨_, rfl, hsound, hevolves, hm'.seen, hm'.issued, hm'.reads, fun read hread => ?_⟩
  rcases List.mem_append.mp hread with hnow | hbefore
  · obtain ⟨hfound, hkey⟩ := List.mem_filter.mp hnow
    obtain rfl : read.key = key := of_decide_eq_true hkey
    exact ⟨hfound, tr, [], rfl, (hm.reads read hfound).1⟩
  · exact hm'.consumed read hbefore

theorem After.token {op : Tokens.Op} {r : op.Reply} {s : Tokens.Store} {ch : Tokens.Choice} (h : Sound db tr)
    (hm : Facts db tr i m) (hpre : mailing.pre m (.token op)) (hexec : Tokens.exec ch op db.tokens = some (r, s)) :
    After { db with tokens := s } tr i m (.token op) r db := by
  cases op with
  | randomBytes purpose userId =>
      simp only [Tokens.exec] at hexec
      split at hexec
      next => cases hexec
      next =>
        obtain ⟨rfl, rfl⟩ := Prod.mk.inj (Option.some.inj hexec)
        exact After.issued h hm
  | set key value ttlSeconds =>
      obtain ⟨issue, hissue, rfl, rfl, rfl⟩ := hpre
      have hset := h.tokens.set (hm.issued issue hissue).1 ch.now
      rcases Outcome.answer_cases (Option.some.inj hexec) with ⟨rfl, rfl⟩ | ⟨rfl, rfl | rfl⟩
      · exact After.quiet h hm rfl (List.subset_cons_self _ _) hset rfl
      · exact After.quiet h hm rfl (List.Subset.refl _) h.tokens rfl
      · exact After.quiet h hm rfl (List.subset_cons_self _ _) hset rfl
  | get key =>
      have hshrink : TokensSound { db.tokens with mem := db.tokens.mem.afterGet ch.now key } :=
        h.tokens.shrink fun _ _ => Mem.afterGet_eq_some
      rcases Outcome.answer_cases (Option.some.inj hexec) with ⟨rfl, rfl⟩ | ⟨rfl, rfl | rfl⟩
      · cases hget : db.tokens.mem.get ch.now key with
        | none => exact After.quiet h hm rfl (List.Subset.refl _) hshrink rfl
        | some userId => exact After.gotten h hm hget hshrink
      · exact After.quiet h hm rfl (List.Subset.refl _) h.tokens rfl
      · exact After.quiet h hm rfl (List.Subset.refl _) hshrink rfl
  | del key =>
      have hshrink : TokensSound { db.tokens with mem := db.tokens.mem.del key } :=
        h.tokens.shrink fun _ _ hentry => (Mem.del_eq_some hentry).2
      rcases Outcome.answer_cases (Option.some.inj hexec) with ⟨rfl, rfl⟩ | ⟨rfl, rfl | rfl⟩
      · exact After.deleted h hm hshrink
      · exact After.quiet h hm rfl (List.Subset.refl _) h.tokens rfl
      · exact After.quiet h hm rfl (List.Subset.refl _) hshrink rfl
  | answer purpose token userId =>
      obtain ⟨rfl, rfl⟩ := Prod.mk.inj (Option.some.inj hexec)
      exact After.quiet h hm rfl (List.Subset.refl _) h.tokens rfl

/-! ### Any call -/

theorem After.mail {mail : Mail} (h : Sound db tr) (hm : Facts db tr i m) (hpre : mailing.pre m (.sendMail mail)) :
    After db tr i m (.sendMail mail) () db := by
  refine ⟨m, rfl, ?_, Evolves.refl db, hm.evolves (Evolves.refl db)⟩
  refine h.step (Evolves.refl db) h.ids h.nodup (fun u hu hv => (h.verified u hu hv).mono (List.Subset.refl _)) h.tokens
    (fun _ => Or.inl) trivial ?_
  rintro k mail' heq
  obtain ⟨rfl, hmail⟩ := Prod.mk.inj heq
  obtain rfl : mail = mail' := by simpa using hmail
  obtain ⟨issue, hissue, hpurpose, htoken, u, hu, hid, hemail⟩ := hpre
  refine ⟨issue.userId, ?_, ?_⟩
  · rw [← hpurpose, ← htoken]
    exact (hm.issued issue hissue).2
  · rw [← hid, ← hemail]
    exact (hm.seen u hu).1

/-- **What one call keeps.** -/
theorem step_sound {op : Op} {r : op.Reply} {ch : Choice} (h : Sound db tr) (hm : Facts db tr i m)
    (hpre : mailing.pre m op) (hexec : exec ch op db = some (r, db')) : After db' tr i m op r db := by
  cases op with
  | randomBytes =>
      obtain ⟨rfl, rfl⟩ := Prod.mk.inj (Option.some.inj hexec)
      exact After.same h hm trivial rfl
  | hash password =>
      obtain ⟨rfl, rfl⟩ := Prod.mk.inj (Option.some.inj hexec)
      exact After.same h hm trivial rfl
  | findOrganization slug =>
      obtain ⟨rfl, -⟩ := Outcome.answer_read (Option.some.inj hexec)
      exact After.same h hm trivial rfl
  | findOrganizationById id =>
      obtain ⟨rfl, -⟩ := Outcome.answer_read (Option.some.inj hexec)
      exact After.same h hm trivial rfl
  | findUser email organizationId =>
      obtain ⟨rfl, rfl | rfl⟩ := Outcome.answer_read (Option.some.inj hexec)
      · cases hfind : db'.users.find? fun u => u.email = email && organizationId.all fun id => u.organizationId = id with
        | none => exact After.same h hm trivial rfl
        | some u => exact After.found h hm trivial (List.mem_of_find?_eq_some hfind) rfl
      · exact After.same h hm trivial rfl
  | findUserById id organizationId =>
      obtain ⟨rfl, rfl | rfl⟩ := Outcome.answer_read (Option.some.inj hexec)
      · cases hfind : db'.users.find? fun u => u.id = id && organizationId.all fun o => u.organizationId = o with
        | none => exact After.same h hm trivial rfl
        | some u =>
            have hid := List.find?_some hfind
            simp only [Bool.and_eq_true, decide_eq_true_eq] at hid
            exact After.found h hm trivial (List.mem_of_find?_eq_some hfind) ⟨hid.1, rfl⟩
      · exact After.same h hm trivial rfl
  | commit slug email passwordHash dto =>
      simp only [exec] at hexec
      split at hexec
      next => cases hexec
      next hnew =>
        split at hexec
        next =>
          obtain ⟨rfl, rfl⟩ := Prod.mk.inj (Option.some.inj hexec)
          exact After.same h hm trivial rfl
        next =>
          rcases Outcome.answer_cases (Option.some.inj hexec) with ⟨rfl, rfl⟩ | ⟨rfl, rfl | rfl⟩
          · exact After.unheard h hm trivial hnew rfl rfl
          · exact After.same h hm trivial rfl
          · exact After.unheard h hm trivial hnew rfl rfl
  | insertUser organizationId invitedBy email passwordHash role =>
      simp only [exec] at hexec
      split at hexec
      next => cases hexec
      next hnew =>
        split at hexec
        next =>
          obtain ⟨rfl, rfl⟩ := Prod.mk.inj (Option.some.inj hexec)
          exact After.same h hm trivial rfl
        next =>
          split at hexec
          next =>
            obtain ⟨rfl, rfl⟩ := Prod.mk.inj (Option.some.inj hexec)
            exact After.same h hm trivial rfl
          next =>
            rcases Outcome.answer_cases (Option.some.inj hexec) with ⟨rfl, rfl⟩ | ⟨rfl, rfl | rfl⟩
            · exact After.inserted h hm trivial hnew rfl rfl
            · exact After.same h hm trivial rfl
            · exact After.unheard h hm trivial hnew rfl rfl
  | updateUser id patch =>
      rcases Outcome.answer_cases (Option.some.inj hexec) with ⟨rfl, rfl⟩ | ⟨rfl, rfl | rfl⟩
      · exact After.update h hm hpre (Or.inr rfl)
      · exact After.update h hm hpre (Or.inl rfl)
      · exact After.update h hm hpre (Or.inr rfl)
  | deleteRefreshTokens userId =>
      obtain ⟨rfl, -⟩ := Outcome.answer_read (Option.some.inj hexec)
      exact After.same h hm trivial rfl
  | sendMail mail =>
      obtain ⟨rfl, rfl⟩ := Prod.mk.inj (Option.some.inj hexec)
      exact After.mail h hm hpre
  | auditLog organizationId actorId actorEmail targetId invitedEmail role =>
      obtain ⟨rfl, rfl⟩ := Prod.mk.inj (Option.some.inj hexec)
      exact After.same h hm trivial rfl
  | token op =>
      obtain ⟨⟨r', s⟩, hs, heq⟩ := Option.map_eq_some_iff.mp hexec
      obtain ⟨rfl, rfl⟩ := Prod.mk.inj heq
      exact After.token h hm hpre hs

/-! ## Every run -/

/-- What is claimed of a run: a password is set after a token of the user was consumed, who counts as verified was by a
consumed token of his own, and a token is mailed to the address of the user that it is for. -/
structure ByMail (c : Serving ι) : Prop where
  passwords : ∀ pre i userId patch r post,
    c.trace = pre ++ ((i, ⟨.updateUser userId patch, r⟩) : Performed ι Op Op.Reply) :: post →
    patch.passwordHash.isSome = true → Backed c.world.tokens.written pre i SetsPassword userId
  verified : ∀ u ∈ c.world.users, u.emailVerified = true → Proven c.world.tokens.written c.trace u.id
  mails : ∀ k mail, ((k, ⟨.sendMail mail, ()⟩) : Performed ι Op Op.Reply) ∈ c.trace → ∃ userId,
    ((k, ⟨.token (.randomBytes mail.purpose userId), mail.token⟩) : Performed ι Op Op.Reply) ∈ c.trace ∧
      ∀ u ∈ c.world.users, u.id = userId → u.email = mail.to_

theorem sound_empty : Sound Db.empty ([] : Trace ι) where
  ids _ h := absurd h List.not_mem_nil
  nodup := List.nodup_nil
  verified _ h := absurd h List.not_mem_nil
  tokens := ⟨fun _ _ h => (nomatch h), fun _ h => absurd h List.not_mem_nil⟩
  issued _ h := absurd h List.not_mem_nil
  updates pre _ _ h := absurd (h ▸ List.mem_append_right pre List.mem_cons_self) List.not_mem_nil
  mails _ _ h := absurd h List.not_mem_nil

theorem facts_nothing : Facts db tr i Knows.nothing :=
  ⟨fun _ h => absurd h List.not_mem_nil, fun _ h => absurd h List.not_mem_nil, fun _ h => absurd h List.not_mem_nil,
    fun _ h => absurd h List.not_mem_nil⟩

/-- **Passwords change by mail.** In every order of the calls of any number of requests, whatever tokens they present. -/
theorem passwords_by_mail [DecidableEq ι] {casing : Casing} {c : Serving ι}
    (h : Reaches (credentials casing) (fun _ _ => True) (Config.start Db.empty) c) : ByMail c := by
  have hinv := h.inv (P := mailing) (F := fun _ => True)
    (fun db tr m => Sound db tr ∧ ∀ i, Facts db tr i (m i)) ?_ ?_ ?_
  · obtain ⟨m, ⟨hsound, -⟩, -⟩ := hinv
    refine ⟨fun pre i userId patch r post heq => hsound.updates pre _ post heq, hsound.verified, fun k mail hk => ?_⟩
    obtain ⟨userId, htoken, haddress⟩ := hsound.mails k mail hk
    exact ⟨userId, htoken, haddress.2⟩
  · exact ⟨fun _ => Knows.nothing, ⟨sound_empty, fun i => facts_nothing⟩, fun i => trivial⟩
  · rintro c m i request w ⟨hsound, hfacts⟩ - - hadmits
    obtain rfl := Option.some.inj hadmits
    refine ⟨Knows.nothing, ⟨hsound, fun j => ?_⟩, follows_body casing request⟩
    by_cases hj : j = i
    · subst hj
      rw [Function.update_self]
      exact facts_nothing
    · rw [Function.update_of_ne hj]
      exact hfacts j
  · rintro c m i ch op k r w ⟨hsound, hfacts⟩ - - hpre hexec
    obtain ⟨m', hpost, hsound', hevolves, hfacts'⟩ := step_sound hsound (hfacts i) hpre hexec
    refine ⟨m', hpost, hsound', fun j => ?_⟩
    by_cases hj : j = i
    · subst hj
      rw [Function.update_self]
      exact hfacts'
    · rw [Function.update_of_ne hj]
      exact (hfacts j).evolves hevolves

/-- A call that ends well. -/
def ends (now : Int) (random userId : String) : Choice := ⟨⟨.ok, now, random⟩, "o-1", userId⟩

/-- An organization signs up; its admin forgets the password, and sets another with the token of the mail. -/
def forgetsPassword : List (Act Nat Choice Request) :=
  [.call 0 (.register ⟨"Acme", "Ana", "Lopez", "ana@acme.io", "first"⟩), .step 0 (ends 0 "a1b2c3" ""),
    .step 0 (ends 0 "" ""), .step 0 (ends 0 "" ""), .step 0 (ends 0 "$2b$12$first" ""), .step 0 (ends 0 "" "u-1"),
    .call 1 (.forgotPassword "ana@acme.io"), .step 1 (ends 0 "" ""), .step 1 (ends 0 "7f3a" ""), .step 1 (ends 0 "" ""),
    .step 1 (ends 0 "" ""), .call 2 (.resetPassword "7f3a" "second"), .step 2 (ends 60000 "" ""),
    .step 2 (ends 60000 "" ""), .step 2 (ends 60000 "$2b$12$second" ""), .step 2 (ends 60000 "" "")]

theorem passwords_by_mail_forgotten :
    ByMail ((credentials ⟨id, id, fun _ => rfl⟩).endOf (Config.start Db.empty) forgetsPassword) :=
  passwords_by_mail (reaches_endOf (System.allowed_true _ _ _) (by decide +kernel))

end

end TimeChamp.Accounts.Credentials
