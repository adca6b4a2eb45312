import TimeChamp.Registration.Service

/-!
# A registration burns its token

`registerAgent` looks the token up, saves a device and rotates the token, and goes on if the rotation fails.

* `BurnedOnce` : a token has one device at most, besides those of registrations that ended without rotating it, and none
  after a rotation;
* `Apart` : no other registration with the token is between saving its device and its end, or has ended since this one,
  which saves, looked the token up;
* `burnedOnce` : **if all registrations with one token are apart, each token is burned once**.
-/

namespace TimeChamp.Registration
open Lib
open Function (update)

/-- What registrations do to their tokens: one device each, besides those that ended without a rotation, and no user has
a token that was rotated. -/
structure BurnedOnce (db : Db) : Prop where
  once : ∀ token, db.registrations.count token ≤ db.unburned.count token + 1
  burned : ∀ token ∈ db.burned, ∀ u ∈ db.users.rows, u.agentToken ≠ some token

/-- A registration with the token ended. -/
def ended {ι : Type} (token : String) : Performed ι Op Op.Reply → Bool
  | (_, ⟨.registered (some t) _, _⟩) => t == token
  | _ => false

/-- The request looks a token up. -/
def looksUp {ι : Type} [DecidableEq ι] (i : ι) : Performed ι Op Op.Reply → Bool
  | (j, ⟨.findByToken _, _⟩) => decide (j = i)
  | _ => false

/-- When the action saves a device with a token, no other registration with it is in between, or ended since the lookup. -/
def Apart {ι : Type} [DecidableEq ι] (c : Running ι) (a : Act ι Choice Call) : Prop :=
  (match c.performs a with
    | some (_, .save _ (some token)) =>
      c.world.burning.contains token || (sinceLast (looksUp a.who) c.trace).any (ended token)
    | _ => false) = false

instance {ι : Type} [DecidableEq ι] (c : Running ι) (a : Act ι Choice Call) : Decidable (Apart c a) :=
  inferInstanceAs (Decidable (_ = false))

/-! ## What a request knows -/

/-- Where a request stands: with nothing, a token it found, a device it saved, or a rotation it made. -/
inductive Stage where
  | idle
  | found (token userId : String)
  | saved (token userId : String)
  | rotated (token userId : String)

/-- The token that is being burned. -/
def Stage.burns : Stage → Option String
  | saved token _ => some token
  | rotated token _ => some token
  | _ => none

def Stage.rotate : Stage → Stage
  | saved token userId => rotated token userId
  | stage => stage

/-- A device is saved with the token that was found, for its user, who is then given a new one. -/
def burnProtocol : Protocol Op Op.Reply Stage where
  pre m
    | .save device (some token) => m = .found token device.userId
    | .storeToken userId _ => m = .idle ∨ ∃ token, m = .saved token userId
    | .registered (some token) rotated => ∃ userId, m = if rotated then .rotated token userId else .saved token userId
    | _ => True
  post m op r m' :=
    match op, r with
    | .findByToken token, .ok (some user) => m' = .found token user.id
    | .save device (some token), .ok _ => m' = .saved token device.userId
    | .findById _, _ => m' = m
    | .fresh, _ => m' = m
    | .storeToken _ _, .ok _ => m' = m.rotate
    | .storeToken _ _, .error _ => m' = m
    | _, _ => m' = .idle

theorem follows_storeNewToken {m : Stage} {userId : String} (hm : m = .idle ∨ ∃ token, m = .saved token userId)
    (user : User) :
    Follows burnProtocol (fun m' r => m' = if r.isOk then m.rotate else m) m (storeNewToken userId user) := by
  refine follows_perform_bind.mpr ⟨trivial, fun r m' hfresh => ?_⟩
  obtain rfl : m' = m := hfresh
  refine follows_perform_bind.mpr ⟨hm, fun r m' hstore => ?_⟩
  cases r with
  | error e => exact hstore
  | ok _ => exact hstore

/-- A rotation changes the stage if it succeeds. -/
theorem follows_rotateAgentToken {m : Stage} {userId : String} (hm : m = .idle ∨ ∃ token, m = .saved token userId) :
    Follows burnProtocol (fun m' r => m' = if r.isOk then m.rotate else m) m (rotateAgentToken userId) := by
  refine follows_perform_bind.mpr ⟨trivial, fun r m' hread => ?_⟩
  obtain rfl : m' = m := hread
  rcases r with e | _ | user
  · rfl
  · rfl
  · exact follows_storeNewToken hm user

theorem follows_getOrGenerateAgentToken (userId : String) :
    Follows burnProtocol (fun _ _ => True) .idle (getOrGenerateAgentToken userId) := by
  refine follows_perform_bind.mpr ⟨trivial, fun r m' hread => ?_⟩
  obtain rfl : m' = .idle := hread
  rcases r with e | _ | user
  · trivial
  · trivial
  · dsimp only
    cases truthy user.agentToken with
    | some token => trivial
    | none => exact (follows_storeNewToken (Or.inl rfl) user).mono fun _ _ _ => trivial

/-- After the user of the token was found; an invite has no token to burn. -/
def Stage.lookedUp (personalToken : Option String) (user : User) : Stage :=
  match personalToken with
  | some token => found token user.id
  | none => idle

theorem follows_resolveUser (personalToken : Option String) (inviteToken : String) :
    Follows burnProtocol (fun m r => ∀ user, r = .ok user → m = .lookedUp personalToken user) .idle
      (resolveUser personalToken inviteToken) := by
  cases personalToken with
  | some token =>
      refine follows_perform_bind.mpr ⟨trivial, fun r m hm => ?_⟩
      rcases r with e | _ | user
      · exact fun _ h => nomatch h
      · exact fun _ h => nomatch h
      · intro user' huser
        obtain rfl := Except.ok.inj huser
        exact hm
  | none =>
      refine follows_perform_bind.mpr ⟨trivial, fun r m hm => ?_⟩
      obtain rfl : m = .idle := hm
      cases r with
      | error e => exact fun _ h => nomatch h
      | ok userId =>
          dsimp only
          cases truthy userId with
          | none => exact fun _ h => nomatch h
          | some userId =>
              refine follows_perform_bind.mpr ⟨trivial, fun r m hm => ?_⟩
              rcases r with e | _ | user
              · exact fun _ h => nomatch h
              · exact fun _ h => nomatch h
              · exact fun _ _ => hm

theorem follows_registerDevice (dto : RegisterAgentDto) (user : User) :
    Follows burnProtocol (fun _ _ => True) (.lookedUp (truthy dto.personalToken) user) (registerDevice dto user) := by
  refine follows_perform_bind.mpr ⟨trivial, fun r m hm => ?_⟩
  obtain rfl : m = .lookedUp (truthy dto.personalToken) user := hm
  cases truthy dto.personalToken with
  | none =>
      refine follows_perform_bind.mpr ⟨trivial, fun r m hm => ?_⟩
      obtain rfl : m = .idle := hm
      cases r with
      | error e => trivial
      | ok _ =>
          apply (follows_rotateAgentToken (Or.inl rfl)).bind
          intro m r _
          exact follows_perform_bind.mpr ⟨trivial, fun _ _ _ => trivial⟩
  | some token =>
      refine follows_perform_bind.mpr ⟨rfl, fun r m hm => ?_⟩
      cases r with
      | error e => trivial
      | ok _ =>
          obtain rfl : m = .saved token user.id := hm
          apply (follows_rotateAgentToken (Or.inr ⟨token, rfl⟩)).bind
          intro m r hr
          refine follows_perform_bind.mpr ⟨⟨user.id, ?_⟩, fun _ _ _ => trivial⟩
          exact hr

theorem follows_body (call : Call) : Follows burnProtocol (fun _ _ => True) .idle call.body := by
  cases call with
  | getOrGenerateAgentToken userId => exact (follows_getOrGenerateAgentToken userId).bind fun _ _ _ => trivial
  | rotateAgentToken userId => exact (follows_rotateAgentToken (Or.inl rfl)).bind fun _ _ _ => trivial
  | addUser user => trivial
  | updateUser userId dto => trivial
  | registerAgent dto =>
      refine Follows.bind (Q := fun _ _ => True) ?_ fun _ _ _ => trivial
      unfold registerAgent
      split
      · trivial
      · trivial
      · apply (follows_resolveUser _ _).bind
        intro m r hr
        cases r with
        | error e => trivial
        | ok user =>
            obtain rfl := hr user rfl
            dsimp only
            split_ifs
            · exact follows_registerDevice dto user
            · trivial

/-! ## The ledger -/

/-- The user was given the token at some time. -/
def Db.gave (db : Db) (token userId : String) : Prop := ⟨token, userId⟩ ∈ db.given

/-- No user has the token. -/
def Db.Unheld (db : Db) (token : String) : Prop := ∀ u ∈ db.users.rows, u.agentToken ≠ some token

/-- Each device of the token is one of a registration that ended without rotating it. -/
def Db.Accounted (db : Db) (token : String) : Prop := db.registrations.count token ≤ db.unburned.count token

/-- The facts about the tables. A token has one owner for ever; one that a user has is being burned, or accounted for. -/
structure Ledger (db : Db) : Prop where
  held : ∀ u ∈ db.users.rows, ∀ token, u.agentToken = some token → db.gave token u.id
  owner : ∀ token userId userId', db.gave token userId → db.gave token userId' → userId = userId'
  registered : ∀ token ∈ db.registrations, ∃ userId, db.gave token userId
  burned : ∀ token ∈ db.burned, (∃ userId, db.gave token userId) ∧ db.Unheld token
  live : ∀ u ∈ db.users.rows, ∀ token, u.agentToken = some token → token ∈ db.burning ∨ db.Accounted token
  once : ∀ token, db.registrations.count token ≤ db.unburned.count token + 1

theorem hasGiven_eq_false {db : Db} {token : String} (h : db.hasGiven token = false) (userId : String) :
    ¬ db.gave token userId := by
  intro hgave
  have hany : db.hasGiven token = true := List.any_eq_true.mpr ⟨_, hgave, beq_iff_eq.mpr rfl⟩
  rw [h] at hany
  exact nomatch hany

/-- A token that was never given has no devices. -/
theorem Ledger.accounted_of_new {db : Db} (h : Ledger db) {token : String} (hnew : db.hasGiven token = false) :
    db.Accounted token := by
  have hnone : token ∉ db.registrations := by
    intro hmem
    obtain ⟨userId, hgave⟩ := h.registered token hmem
    exact hasGiven_eq_false hnew userId hgave
  unfold Db.Accounted
  rw [List.count_eq_zero.mpr hnone]
  exact Nat.zero_le _

/-- What a call may do to the tables without a registration with a token that is being burned coming to an end. -/
structure Later (db db' : Db) : Prop where
  given : db.given ⊆ db'.given
  burning : db.burning ⊆ db'.burning
  accounted : ∀ token, db.Accounted token → token ∈ db'.burning ∨ db'.Accounted token
  unheld : ∀ token userId, db.gave token userId → db.Unheld token → db'.Unheld token

theorem Later.refl (db : Db) : Later db db := ⟨fun _ h => h, fun _ h => h, fun _ h => Or.inr h, fun _ _ _ h => h⟩

/-- What a request relies on that found a token, saved a device or rotated. -/
def Knows {ι : Type} [DecidableEq ι] (db : Db) (tr : List (Performed ι Op Op.Reply)) (i : ι) : Stage → Prop
  | .idle => True
  | .found token userId => db.gave token userId ∧
    (token ∈ db.burning ∨ db.Accounted token ∨ (sinceLast (looksUp i) tr).any (ended token) = true)
  | .saved token userId => db.gave token userId ∧ token ∈ db.burning
  | .rotated token userId => db.gave token userId ∧ token ∈ db.burning ∧ db.Unheld token

section Knows
variable {ι : Type} [DecidableEq ι] {db db' : Db} {tr : List (Performed ι Op Op.Reply)} {i : ι} {stage : Stage}

theorem Knows.later (h : Knows db tr i stage) (hlater : Later db db') : Knows db' tr i stage := by
  cases stage with
  | idle => trivial
  | found token userId =>
      refine ⟨hlater.given h.1, ?_⟩
      rcases h.2 with hburning | haccounted | hended
      · exact Or.inl (hlater.burning hburning)
      · exact (hlater.accounted token haccounted).imp_right Or.inl
      · exact Or.inr (Or.inr hended)
  | saved token userId => exact ⟨hlater.given h.1, hlater.burning h.2⟩
  | rotated token userId =>
      exact ⟨hlater.given h.1, hlater.burning h.2.1, hlater.unheld token userId h.1 h.2.2⟩

theorem Knows.concat (h : Knows db tr i stage) {x : Performed ι Op Op.Reply} (hx : looksUp i x = false) :
    Knows db (tr ++ [x]) i stage := by
  cases stage with
  | found token userId =>
      exact ⟨h.1, h.2.imp_right (Or.imp_right fun hended => any_sinceLast_concat hx (Or.inl hended))⟩
  | _ => exact h

/-- A registration with another token, or with one that this request only found, comes to an end. -/
theorem Knows.end_ (h : Knows db tr i stage) {x : Performed ι Op Op.Reply} {token : String} {rotated : Bool}
    (hx : looksUp i x = false) (hended : ended token x = true) (hother : stage.burns ≠ some token) :
    Knows (db.endRegistration token rotated) (tr ++ [x]) i stage := by
  have hburning : ∀ t ∈ db.burning, t ≠ token → t ∈ (db.endRegistration token rotated).burning := by
    intro t ht hne
    unfold Db.endRegistration
    split_ifs <;> exact (List.mem_erase_of_ne hne).mpr ht
  have hgiven : (db.endRegistration token rotated).given = db.given := by
    unfold Db.endRegistration
    split_ifs <;> rfl
  have husers : (db.endRegistration token rotated).users = db.users := by
    unfold Db.endRegistration
    split_ifs <;> rfl
  cases stage with
  | idle => trivial
  | found t userId =>
      refine ⟨by rw [Db.gave, hgiven]; exact h.1, ?_⟩
      by_cases hne : t = token
      · subst hne
        exact Or.inr (Or.inr (any_sinceLast_concat hx (Or.inr hended)))
      · rcases h.2 with hmem | haccounted | hany
        · exact Or.inl (hburning t hmem hne)
        · right; left
          unfold Db.Accounted Db.endRegistration at *
          split_ifs
          · exact haccounted
          · rw [List.count_cons_of_ne (Ne.symm hne)]
            exact haccounted
        · exact Or.inr (Or.inr (any_sinceLast_concat hx (Or.inl hany)))
  | saved t userId =>
      have hne : t ≠ token := fun heq => hother (congrArg some heq)
      exact ⟨by rw [Db.gave, hgiven]; exact h.1, hburning t h.2 hne⟩
  | rotated t userId =>
      have hne : t ≠ token := fun heq => hother (congrArg some heq)
      exact ⟨by rw [Db.gave, hgiven]; exact h.1, hburning t h.2.1 hne, by rw [Db.Unheld, husers]; exact h.2.2⟩

end Knows

/-! ### Steps of the ledger -/

section LedgerSteps
variable {db : Db}

/-- The tables after a device was saved with a token that is now being burned. -/
def Db.startBurning (db : Db) (device : AgentDevice) (token : String) : Db :=
  { db with devices := db.devices ++ [device], registrations := token :: db.registrations, burning := token :: db.burning }

/-- The tables after a device was saved with a token, unknown to its registration. -/
def Db.loseDevice (db : Db) (device : AgentDevice) (token : String) : Db :=
  { db with
    devices := db.devices ++ [device]
    registrations := token :: db.registrations
    unburned := token :: db.unburned }

theorem accounted_startBurning {device : AgentDevice} {token t : String} (h : db.Accounted t) :
    t ∈ (db.startBurning device token).burning ∨ (db.startBurning device token).Accounted t := by
  by_cases heq : t = token
  · exact Or.inl (heq ▸ List.mem_cons_self)
  · right
    unfold Db.Accounted Db.startBurning
    rw [List.count_cons_of_ne (Ne.symm heq)]
    exact h

theorem later_startBurning (device : AgentDevice) (token : String) : Later db (db.startBurning device token) :=
  ⟨fun _ h => h, List.subset_cons_self _ _, fun _ => accounted_startBurning, fun _ _ _ h => h⟩

/-- A token that was given may join those that were registered with. -/
theorem Ledger.registered_cons (h : Ledger db) {token userId : String} (hgave : db.gave token userId) :
    ∀ t ∈ token :: db.registrations, ∃ userId, db.gave t userId := by
  intro t ht
  rcases List.mem_cons.mp ht with rfl | ht
  · exact ⟨userId, hgave⟩
  · exact h.registered t ht

theorem Ledger.startBurning (h : Ledger db) {device : AgentDevice} {token userId : String} (hgave : db.gave token userId)
    (haccounted : db.Accounted token) : Ledger (db.startBurning device token) where
  held := h.held
  owner := h.owner
  registered := h.registered_cons hgave
  burned := h.burned
  live := by
    intro u hu t ht
    rcases h.live u hu t ht with hmem | hacc
    · exact Or.inl (List.mem_cons_of_mem _ hmem)
    · exact accounted_startBurning hacc
  once := by
    intro t
    show (token :: db.registrations).count t ≤ db.unburned.count t + 1
    by_cases heq : t = token
    · subst heq
      rw [List.count_cons_self]
      exact Nat.succ_le_succ haccounted
    · rw [List.count_cons_of_ne (Ne.symm heq)]
      exact h.once t

theorem accounted_loseDevice {device : AgentDevice} {token t : String} (h : db.Accounted t) :
    (db.loseDevice device token).Accounted t := by
  unfold Db.Accounted Db.loseDevice
  rw [List.count_cons, List.count_cons]
  exact Nat.add_le_add_right h _

theorem later_loseDevice (device : AgentDevice) (token : String) : Later db (db.loseDevice device token) :=
  ⟨fun _ h => h, fun _ h => h, fun _ h => Or.inr (accounted_loseDevice h), fun _ _ _ h => h⟩

theorem Ledger.loseDevice (h : Ledger db) {device : AgentDevice} {token userId : String} (hgave : db.gave token userId) :
    Ledger (db.loseDevice device token) where
  held := h.held
  owner := h.owner
  registered := h.registered_cons hgave
  burned := h.burned
  live := fun u hu t ht => (h.live u hu t ht).imp_right accounted_loseDevice
  once := by
    intro t
    have hold := h.once t
    unfold Db.loseDevice
    rw [List.count_cons, List.count_cons]
    omega

theorem mem_giveToken {userId token : String} {hnew : ∀ u ∈ db.users.rows, u.agentToken ≠ some token} {u : User} {t : String}
    (hu : u ∈ (db.giveToken userId token hnew).users.rows) (ht : u.agentToken = some t) :
    u.id = userId ∧ t = token ∨ u.id ≠ userId ∧ ∃ v ∈ db.users.rows, v.id = u.id ∧ v.agentToken = some t := by
  obtain ⟨v, hv, rfl⟩ := List.mem_map.mp hu
  rcases User.withToken_eq_some ht with ⟨hid, heq⟩ | ⟨hid, hvt⟩
  · exact Or.inl ⟨(User.withToken_id userId token v).trans hid, heq.symm⟩
  · exact Or.inr ⟨fun heq => hid ((User.withToken_id userId token v).symm.trans heq), v, hv,
      (User.withToken_id userId token v).symm, hvt⟩

theorem unheld_giveToken {userId token t : String} {hnew : ∀ u ∈ db.users.rows, u.agentToken ≠ some token}
    (hne : t ≠ token) (h : ∀ v ∈ db.users.rows, v.id ≠ userId → v.agentToken ≠ some t) :
    (db.giveToken userId token hnew).Unheld t := by
  intro u hu ht
  rcases mem_giveToken hu ht with ⟨-, heq⟩ | ⟨hid, v, hv, hvid, hvt⟩
  · exact hne heq
  · exact h v hv (hvid ▸ hid) hvt

theorem later_giveToken {userId token : String} {hnew : ∀ u ∈ db.users.rows, u.agentToken ≠ some token}
    (hgiven : db.hasGiven token = false) : Later db (db.giveToken userId token hnew) := by
  refine ⟨List.subset_cons_self _ _, fun _ h => h, fun _ h => Or.inr h, fun t userId' hgave hunheld => ?_⟩
  refine unheld_giveToken (fun heq => ?_) fun v hv _ => hunheld v hv
  subst heq
  exact hasGiven_eq_false hgiven userId' hgave

theorem Ledger.giveToken (h : Ledger db) {userId token : String} {hnew : ∀ u ∈ db.users.rows, u.agentToken ≠ some token}
    (hgiven : db.hasGiven token = false) : Ledger (db.giveToken userId token hnew) where
  held := by
    intro u hu t ht
    rcases mem_giveToken hu ht with ⟨hid, rfl⟩ | ⟨-, v, hv, hid, hvt⟩
    · rw [hid]
      exact List.mem_cons_self
    · rw [← hid]
      exact List.mem_cons_of_mem _ (h.held v hv t hvt)
  owner := by
    intro t a b ha hb
    rcases List.mem_cons.mp ha with ha | ha <;> rcases List.mem_cons.mp hb with hb | hb
    · exact (Given.mk.inj ha).2.trans (Given.mk.inj hb).2.symm
    · rw [(Given.mk.inj ha).1] at hb
      exact absurd hb (hasGiven_eq_false hgiven b)
    · rw [(Given.mk.inj hb).1] at ha
      exact absurd ha (hasGiven_eq_false hgiven a)
    · exact h.owner t a b ha hb
  registered := by
    intro t ht
    obtain ⟨a, ha⟩ := h.registered t ht
    exact ⟨a, List.mem_cons_of_mem _ ha⟩
  burned := by
    intro t ht
    obtain ⟨⟨a, ha⟩, hunheld⟩ := h.burned t ht
    exact ⟨⟨a, List.mem_cons_of_mem _ ha⟩, (later_giveToken hgiven).unheld t a ha hunheld⟩
  live := by
    intro u hu t ht
    rcases mem_giveToken hu ht with ⟨-, rfl⟩ | ⟨-, v, hv, -, hvt⟩
    · exact Or.inr (h.accounted_of_new hgiven)
    · exact h.live v hv t hvt
  once := h.once

/-- The end of a registration: with its token rotated, nobody has it. -/
theorem Ledger.end_ (h : Ledger db) {token userId : String} {rotated : Bool} (hgave : db.gave token userId)
    (hunheld : rotated = true → db.Unheld token) : Ledger (db.endRegistration token rotated) := by
  cases rotated with
  | true =>
      refine ⟨h.held, h.owner, h.registered, fun t ht => ?_, fun u hu t ht => ?_, h.once⟩
      · rcases List.mem_cons.mp ht with rfl | ht
        · exact ⟨⟨userId, hgave⟩, hunheld rfl⟩
        · exact h.burned t ht
      · have hne : t ≠ token := fun heq => hunheld rfl u hu (heq ▸ ht)
        exact (h.live u hu t ht).imp_left fun hmem => (List.mem_erase_of_ne hne).mpr hmem
  | false =>
      have hcount : ∀ t, db.unburned.count t ≤ (token :: db.unburned).count t := fun t => List.count_le_count_cons
      refine ⟨h.held, h.owner, h.registered, h.burned, fun u hu t ht => ?_, fun t => ?_⟩
      · by_cases hne : t = token
        · subst hne
          right
          show db.registrations.count t ≤ (t :: db.unburned).count t
          rw [List.count_cons_self]
          exact h.once t
        · exact (h.live u hu t ht).imp (fun hmem => (List.mem_erase_of_ne hne).mpr hmem) fun hacc => hacc.trans (hcount t)
      · exact (h.once t).trans (Nat.succ_le_succ (hcount t))

end LedgerSteps

/-! ## The invariant -/

section Steps
variable {ι : Type} [DecidableEq ι] {db db' : Db} {tr : List (Performed ι Op Op.Reply)} {m : ι → Stage} {i : ι} {ch : Choice}

/-- The tables are right, every request knows what holds, and no two burn one token. -/
structure BurnInv (db : Db) (tr : List (Performed ι Op Op.Reply)) (m : ι → Stage) : Prop where
  ledger : Ledger db
  knows : ∀ i, Knows db tr i (m i)
  alone : ∀ i j token, (m i).burns = some token → (m j).burns = some token → i = j

theorem looksUp_other {j : ι} (hij : i ≠ j) (p : (op : Op) × op.Reply) : looksUp j (i, p) = false := by
  obtain ⟨op, r⟩ := p
  cases op <;> simp [looksUp, hij]

/-- What an action of `i` must do to keep the invariant. -/
theorem BurnInv.act (h : BurnInv db tr m) {p : (op : Op) × op.Reply} {stage : Stage} (hledger : Ledger db')
    (hothers : ∀ j, j ≠ i → Knows db' (tr ++ [(i, p)]) j (m j)) (hself : Knows db' (tr ++ [(i, p)]) i stage)
    (hburns : ∀ token, stage.burns = some token → ∀ j, j ≠ i → (m j).burns ≠ some token) :
    BurnInv db' (tr ++ [(i, p)]) (update m i stage) where
  ledger := hledger
  knows := (Function.forall_update_iff m fun j stage => Knows db' (tr ++ [(i, p)]) j stage).mpr ⟨hself, hothers⟩
  alone := exclusive_update (fun (stage : Stage) token => stage.burns = some token) h.alone hburns

theorem BurnInv.later (h : BurnInv db tr m) {p : (op : Op) × op.Reply} {stage : Stage} (hledger : Ledger db')
    (hlater : Later db db') (hself : Knows db' (tr ++ [(i, p)]) i stage)
    (hburns : ∀ token, stage.burns = some token → ∀ j, j ≠ i → (m j).burns ≠ some token) :
    BurnInv db' (tr ++ [(i, p)]) (update m i stage) :=
  h.act hledger (fun j hj => ((h.knows j).later hlater).concat (looksUp_other hj.symm p)) hself hburns

theorem BurnInv.drop (h : BurnInv db tr m) {p : (op : Op) × op.Reply} (hledger : Ledger db') (hlater : Later db db') :
    BurnInv db' (tr ++ [(i, p)]) (update m i .idle) :=
  h.later hledger hlater trivial fun _ hburns => nomatch hburns

theorem BurnInv.others (h : BurnInv db tr m) {stage : Stage} (hsame : stage.burns = (m i).burns) :
    ∀ token, stage.burns = some token → ∀ j, j ≠ i → (m j).burns ≠ some token :=
  fun token hburns j hj hother => hj (h.alone j i token hother (hsame ▸ hburns))

theorem BurnInv.stay (h : BurnInv db tr m) {p : (op : Op) × op.Reply} (hledger : Ledger db') (hlater : Later db db')
    (hp : looksUp i (i, p) = false) : BurnInv db' (tr ++ [(i, p)]) (update m i (m i)) :=
  h.later hledger hlater (((h.knows i).later hlater).concat hp) (h.others rfl)

theorem step_findByToken (h : BurnInv db tr m) {token : String} {r : Except String (Option User)}
    (hr : exec ch (.findByToken token) db = some (r, db')) :
    ∃ stage, burnProtocol.post (m i) (.findByToken token) r stage ∧
      BurnInv db' (tr ++ [(i, ⟨.findByToken token, r⟩)]) (update m i stage) := by
  obtain ⟨rfl, rfl | rfl⟩ := Outcome.answer_read (Option.some.inj hr)
  · cases hfound : db'.users.rows.find? (fun u => u.agentToken == some token) with
    | none => exact ⟨.idle, rfl, h.drop h.ledger (.refl _)⟩
    | some user =>
        have hmem : user ∈ db'.users.rows := List.mem_of_find?_eq_some hfound
        have htoken : user.agentToken = some token := by simpa using List.find?_some hfound
        refine ⟨.found token user.id, rfl, h.later h.ledger (.refl _) ?_ fun _ hburns => nomatch hburns⟩
        exact ⟨h.ledger.held user hmem token htoken, (h.ledger.live user hmem token htoken).imp_right Or.inl⟩
  · exact ⟨.idle, rfl, h.drop h.ledger (.refl _)⟩

theorem step_save (h : BurnInv db tr m) {device : AgentDevice} {token : String} (hm : m i = .found token device.userId)
    (hapart : (db.burning.contains token || (sinceLast (looksUp i) tr).any (ended token)) = false)
    {r : Except String Unit} (hr : exec ch (.save device (some token)) db = some (r, db')) :
    ∃ stage, burnProtocol.post (m i) (.save device (some token)) r stage ∧
      BurnInv db' (tr ++ [(i, ⟨.save device (some token), r⟩)]) (update m i stage) := by
  obtain ⟨hnotburning, hnotended⟩ := Bool.or_eq_false_iff.mp hapart
  rw [List.contains_eq_mem, decide_eq_false_iff_not] at hnotburning
  obtain ⟨hgave, hknown⟩ : Knows db tr i (.found token device.userId) := hm ▸ h.knows i
  have haccounted : db.Accounted token := by
    rcases hknown with hburning | haccounted | hended
    · exact absurd hburning hnotburning
    · exact haccounted
    · rw [hnotended] at hended
      exact nomatch hended
  unfold exec at hr
  dsimp only at hr
  cases hout : ch.outcome <;> rw [hout] at hr <;> obtain ⟨rfl, rfl⟩ := Prod.mk.inj (Option.some.inj hr)
  · refine ⟨.saved token device.userId, rfl, h.later (h.ledger.startBurning hgave haccounted)
      (later_startBurning device token) ⟨hgave, List.mem_cons_self⟩ fun t ht j hj hother => ?_⟩
    -- whoever burns the token has it among those being burned
    obtain rfl := Option.some.inj ht
    apply hnotburning
    have hj := h.knows j
    cases hmj : m j with
    | idle => simp [hmj, Stage.burns] at hother
    | found t userId => simp [hmj, Stage.burns] at hother
    | saved t userId =>
        rw [hmj] at hother hj
        exact Option.some.inj hother ▸ hj.2
    | rotated t userId =>
        rw [hmj] at hother hj
        exact Option.some.inj hother ▸ hj.2.1
  · exact ⟨.idle, rfl, h.drop h.ledger (.refl _)⟩
  · exact ⟨.idle, rfl, h.drop (h.ledger.loseDevice hgave) (later_loseDevice device token)⟩

/-- Without a personal token there is nothing to burn. -/
theorem step_saveInvited (h : BurnInv db tr m) {device : AgentDevice} {r : Except String Unit}
    (hr : exec ch (.save device none) db = some (r, db')) :
    ∃ stage, burnProtocol.post (m i) (.save device none) r stage ∧
      BurnInv db' (tr ++ [(i, ⟨.save device none, r⟩)]) (update m i stage) := by
  have hsaved : Ledger { db with devices := db.devices ++ [device] } :=
    ⟨h.ledger.held, h.ledger.owner, h.ledger.registered, h.ledger.burned, h.ledger.live, h.ledger.once⟩
  have hlater : Later db { db with devices := db.devices ++ [device] } :=
    ⟨fun _ h => h, fun _ h => h, fun _ h => Or.inr h, fun _ _ _ h => h⟩
  unfold exec at hr
  dsimp only at hr
  cases hout : ch.outcome <;> rw [hout] at hr <;> obtain ⟨rfl, rfl⟩ := Prod.mk.inj (Option.some.inj hr)
  · exact ⟨.idle, rfl, h.drop hsaved hlater⟩
  · exact ⟨.idle, rfl, h.drop h.ledger (.refl _)⟩
  · exact ⟨.idle, rfl, h.drop hsaved hlater⟩

theorem burns_rotate (stage : Stage) : stage.rotate.burns = stage.burns := by
  cases stage <;> rfl

theorem step_storeToken (h : BurnInv db tr m) {userId token : String}
    (hm : m i = .idle ∨ ∃ token, m i = .saved token userId) {r : Except String Unit}
    (hr : exec ch (.storeToken userId token) db = some (r, db')) :
    ∃ stage, burnProtocol.post (m i) (.storeToken userId token) r stage ∧
      BurnInv db' (tr ++ [(i, ⟨.storeToken userId token, r⟩)]) (update m i stage) := by
  unfold exec at hr
  dsimp only at hr
  split_ifs at hr with hnew hgiven
  have hgiven := (Bool.not_eq_true _).mp hgiven
  have hledger : Ledger (db.giveToken userId token hnew) := h.ledger.giveToken hgiven
  have hlater : Later db (db.giveToken userId token hnew) := later_giveToken hgiven
  rcases Outcome.answer_cases (Option.some.inj hr) with ⟨rfl, rfl⟩ | ⟨rfl, rfl | rfl⟩
  · refine ⟨(m i).rotate, rfl, h.later hledger hlater ?_ (h.others (burns_rotate _))⟩
    rcases hm with hm | ⟨t, hm⟩
    · rw [hm]
      trivial
    · -- the token that was presented belonged to the user who has a new one now
      obtain ⟨hgave, hburning⟩ : Knows db tr i (.saved t userId) := hm ▸ h.knows i
      rw [hm]
      refine ⟨List.mem_cons_of_mem _ hgave, hburning, unheld_giveToken (fun heq => ?_) fun v hv hid hvt => hid ?_⟩
      · subst heq
        exact hasGiven_eq_false hgiven userId hgave
      · exact h.ledger.owner t v.id userId (h.ledger.held v hv t hvt) hgave
  · exact ⟨m i, rfl, h.stay h.ledger (.refl _) rfl⟩
  · exact ⟨m i, rfl, h.stay hledger hlater rfl⟩

theorem step_registered (h : BurnInv db tr m) {token : String} {rotated : Bool}
    (hm : ∃ userId, m i = if rotated then .rotated token userId else .saved token userId) :
    BurnInv (db.endRegistration token rotated) (tr ++ [(i, ⟨.registered (some token) rotated, ()⟩)])
      (update m i .idle) := by
  obtain ⟨userId, hm⟩ := hm
  have hburns : (m i).burns = some token := by
    rw [hm]
    split_ifs <;> rfl
  have hself := h.knows i
  have hledger : Ledger (db.endRegistration token rotated) := by
    cases rotated with
    | true =>
        rw [if_pos rfl] at hm
        rw [hm] at hself
        obtain ⟨hgave, -, hunheld⟩ := hself
        exact h.ledger.end_ hgave fun _ => hunheld
    | false =>
        rw [if_neg Bool.false_ne_true] at hm
        rw [hm] at hself
        obtain ⟨hgave, -⟩ := hself
        exact h.ledger.end_ hgave fun hfalse => nomatch hfalse
  refine h.act hledger (fun j hj => ?_) trivial fun _ hnone => nomatch hnone
  exact (h.knows j).end_ (looksUp_other hj.symm _) (by simp [ended]) fun hother => hj (h.alone j i token hother hburns)

theorem burnInv_step {c : Running ι} {op : Op} {k : op.Reply → Request Unit} {r : op.Reply}
    (h : BurnInv c.world c.trace m) (hG : Apart c (.step i ch)) (hop : c.thread i = .op op k)
    (hpre : burnProtocol.pre (m i) op) (hr : exec ch op c.world = some (r, db')) :
    ∃ stage, burnProtocol.post (m i) op r stage ∧ BurnInv db' (c.trace ++ [(i, ⟨op, r⟩)]) (update m i stage) := by
  cases op with
  | findByToken token => exact step_findByToken h hr
  | consumeInvite token =>
      obtain ⟨rfl, -⟩ := Outcome.answer_read (Option.some.inj hr)
      exact ⟨.idle, rfl, h.drop h.ledger (.refl _)⟩
  | findById id =>
      obtain ⟨rfl, -⟩ := Outcome.answer_read (Option.some.inj hr)
      exact ⟨m i, rfl, h.stay h.ledger (.refl _) rfl⟩
  | fresh =>
      obtain ⟨rfl, rfl⟩ := Prod.mk.inj (Option.some.inj hr)
      exact ⟨m i, rfl, h.stay h.ledger (.refl _) rfl⟩
  | save device personalToken =>
      cases personalToken with
      | none => exact step_saveInvited h hr
      | some token =>
          rw [Apart, Config.performs_step hop ch] at hG
          exact step_save h hpre hG hr
  | storeToken userId token => exact step_storeToken h hpre hr
  | registered personalToken rotated =>
      cases personalToken with
      | none =>
          obtain ⟨rfl, rfl⟩ := Prod.mk.inj (Option.some.inj hr)
          exact ⟨.idle, rfl, h.drop h.ledger (.refl _)⟩
      | some token =>
          obtain ⟨rfl, rfl⟩ := Prod.mk.inj (Option.some.inj hr)
          exact ⟨.idle, rfl, step_registered h hpre⟩

/-! ## Runs -/

theorem mem_givenTo {users : List User} {a : Given} :
    a ∈ givenTo users ↔ ∃ u ∈ users, u.agentToken = some a.token ∧ u.id = a.userId := by
  unfold givenTo
  rw [List.mem_filterMap]
  constructor
  · rintro ⟨u, hu, ha⟩
    obtain ⟨token, htoken, rfl⟩ := Option.map_eq_some_iff.mp ha
    exact ⟨u, hu, htoken, rfl⟩
  · rintro ⟨u, hu, htoken, hid⟩
    exact ⟨u, hu, by rw [htoken, hid]; rfl⟩

theorem ledger_start (users : UserTable) : Ledger (Db.start users) where
  held := fun u hu token htoken => mem_givenTo.mpr ⟨u, hu, htoken, rfl⟩
  owner := by
    intro token a b ha hb
    obtain ⟨u, hu, hut, rfl⟩ := mem_givenTo.mp ha
    obtain ⟨v, hv, hvt, rfl⟩ := mem_givenTo.mp hb
    rw [users.eq_of_token hu hv hut hvt]
  registered := fun _ ht => absurd ht List.not_mem_nil
  burned := fun _ ht => absurd ht List.not_mem_nil
  live := fun _ _ _ _ => Or.inr (Nat.zero_le _)
  once := fun _ => Nat.zero_le _

theorem ledger_addUser {user : User} (h : Ledger db) (hid : ∀ u ∈ db.users.rows, u.id ≠ user.id)
    (htoken : ∀ u ∈ db.users.rows, user.agentToken.isSome = true → u.agentToken ≠ user.agentToken)
    (hnew : ∀ token, user.agentToken = some token → db.hasGiven token = false) :
    let db' : Db := { db with users := db.users.insert user hid htoken, given := givenTo [user] ++ db.given }
    Ledger db' ∧ Later db db' := by
  have hunheld : ∀ token userId, db.gave token userId → db.Unheld token → ∀ u ∈ user :: db.users.rows,
      u.agentToken ≠ some token := by
    intro token userId hgave hno u hu ht
    rcases List.mem_cons.mp hu with rfl | hu
    · exact hasGiven_eq_false (hnew token ht) userId hgave
    · exact hno u hu ht
  have hone : ∀ {t a : String}, (⟨t, a⟩ : Given) ∈ givenTo [user] → user.agentToken = some t ∧ user.id = a := by
    intro t a hmem
    obtain ⟨u, hu, hut, huid⟩ := mem_givenTo.mp hmem
    rw [List.mem_singleton.mp hu] at hut huid
    exact ⟨hut, huid⟩
  refine ⟨⟨fun u hu t ht => ?_, fun t a b ha hb => ?_, fun t ht => ?_, fun t ht => ?_, fun u hu t ht => ?_, h.once⟩,
    List.subset_append_right _ _, fun _ h => h, fun _ h => Or.inr h, hunheld⟩
  · rcases List.mem_cons.mp hu with rfl | hu
    · exact List.mem_append_left _ (mem_givenTo.mpr ⟨_, List.mem_singleton.mpr rfl, ht, rfl⟩)
    · exact List.mem_append_right _ (h.held u hu t ht)
  · rcases List.mem_append.mp ha with ha | ha <;> rcases List.mem_append.mp hb with hb | hb
    · exact (hone ha).2.symm.trans (hone hb).2
    · exact absurd hb (hasGiven_eq_false (hnew t (hone ha).1) b)
    · exact absurd ha (hasGiven_eq_false (hnew t (hone hb).1) a)
    · exact h.owner t a b ha hb
  · obtain ⟨a, ha⟩ := h.registered t ht
    exact ⟨a, List.mem_append_right _ ha⟩
  · obtain ⟨⟨a, ha⟩, hno⟩ := h.burned t ht
    exact ⟨⟨a, List.mem_append_right _ ha⟩, hunheld t a ha hno⟩
  · rcases List.mem_cons.mp hu with rfl | hu
    · exact Or.inr (h.accounted_of_new (hnew t ht))
    · exact h.live u hu t ht

theorem ledger_updateUser (h : Ledger db) (userId : String) (dto : UserUpdate) :
    Ledger { db with users := db.users.assign userId dto } ∧ Later db { db with users := db.users.assign userId dto } := by
  have hold : ∀ u ∈ (db.users.assign userId dto).rows, ∃ v ∈ db.users.rows, v.id = u.id ∧
      v.agentToken = u.agentToken := by
    intro u hu
    obtain ⟨v, hv, rfl⟩ := List.mem_map.mp hu
    exact ⟨v, hv, (User.assign_id userId dto v).symm, (User.assign_agentToken userId dto v).symm⟩
  have hunheld : ∀ token, db.Unheld token → ∀ u ∈ (db.users.assign userId dto).rows, u.agentToken ≠ some token := by
    intro token hno u hu ht
    obtain ⟨v, hv, -, hvt⟩ := hold u hu
    exact hno v hv (hvt.trans ht)
  refine ⟨⟨fun u hu t ht => ?_, h.owner, h.registered, fun t ht => ?_, fun u hu t ht => ?_, h.once⟩,
    fun _ h => h, fun _ h => h, fun _ h => Or.inr h, fun t _ _ hno => hunheld t hno⟩
  · obtain ⟨v, hv, hid, hvt⟩ := hold u hu
    rw [← hid]
    exact h.held v hv t (hvt.trans ht)
  · exact ⟨(h.burned t ht).1, hunheld t (h.burned t ht).2⟩
  · obtain ⟨v, hv, -, hvt⟩ := hold u hu
    exact h.live v hv t (hvt.trans ht)

/-- A change of the users, and the beginning of a request. -/
theorem ledger_admits {call : Call} (h : Ledger db) (hdb : call.admits db = some db') : Ledger db' ∧ Later db db' := by
  cases call with
  | addUser user =>
      unfold Call.admits at hdb
      dsimp only at hdb
      split_ifs at hdb with hid htoken hgiven
      obtain rfl := Option.some.inj hdb
      apply ledger_addUser h hid htoken
      intro token hsome
      rw [hsome] at hgiven
      exact (Bool.not_eq_true _).mp hgiven
  | updateUser userId dto =>
      obtain rfl := Option.some.inj hdb
      exact ledger_updateUser h userId dto
  | _ =>
      obtain rfl := Option.some.inj hdb
      exact ⟨h, .refl _⟩

/-- **If all registrations with one token are apart, each token is burned once.** -/
theorem burnedOnce {users : UserTable} {c : Running ι} (h : Reaches service Apart (Config.start (Db.start users)) c) :
    BurnedOnce c.world := by
  have hinv : ∃ m, BurnInv c.world c.trace m ∧ ∀ i, Follows burnProtocol (fun _ _ => True) (m i) (c.thread i) := by
    refine Reaches.inv (P := burnProtocol) (F := fun _ => True) BurnInv ?_ ?_ ?_ h
    · exact ⟨fun _ => .idle, ⟨ledger_start users, fun _ => trivial, fun _ _ _ hburns => nomatch hburns⟩, fun _ => trivial⟩
    · intro c m i call db hI _ _ hdb
      obtain ⟨hledger, hlater⟩ := ledger_admits hI.ledger hdb
      refine ⟨.idle, ⟨hledger, ?_, ?_⟩, follows_body call⟩
      · exact (Function.forall_update_iff m fun j stage => Knows db c.trace j stage).mpr
          ⟨trivial, fun j _ => (hI.knows j).later hlater⟩
      · exact exclusive_update (fun (stage : Stage) token => stage.burns = some token) hI.alone
          fun _ hburns => nomatch hburns
    · intro c m i ch op k r db hI hG hop hpre hr
      exact burnInv_step hI hG hop hpre hr
  obtain ⟨m, hI, -⟩ := hinv
  exact ⟨hI.ledger.once, fun token htoken => (hI.ledger.burned token htoken).2⟩

end Steps

/-! ### Two registrations with one token -/

section Twice

/-- An agent registers with Alice's token, as far as it gets. -/
def registersAgent (i : Nat) (steps : List (Act Nat Choice Call)) : List (Act Nat Choice Call) :=
  .call i (.registerAgent (presents storedToken)) :: steps

/-- The calls of a registration that succeeds: the lookup, the device, the rotation and the end. -/
def toTheEnd (i : Nat) (uuid : String) : List (Act Nat Choice Call) := List.replicate 7 (.step i (answers uuid))

/-- The rotation fails at its first call. -/
def unrotated (i : Nat) (uuid : String) : List (Act Nat Choice Call) :=
  List.replicate 3 (.step i (answers uuid)) ++ [.step i ⟨.failed, 0, uuid, none⟩, .step i (answers uuid)]

/-- The second agent comes after the first has burned the token. -/
theorem burnedOnce_in_turn : BurnedOnce (service.endOf (Config.start (Db.start oneUser))
    (registersAgent 0 (toTheEnd 0 "7f3a") ++ registersAgent 1 [.step 1 (answers "9c1e")])).world :=
  burnedOnce (reaches_endOf (by decide +kernel) (by decide +kernel))

/-- After a failed rotation the token registers a second device. -/
theorem not_registeredOnce_unrotated : ¬ ∀ c : Running Nat,
    Reaches service (fun _ _ => True) (Config.start (Db.start oneUser)) c →
    ∀ token, c.world.registrations.count token ≤ 1 := by
  intro h
  let twice := registersAgent 0 (unrotated 0 "7f3a") ++ registersAgent 1 (toTheEnd 1 "9c1e")
  have hone := h _ (reaches_endOf (System.allowed_true _ _ twice) (by decide +kernel)) storedToken
  exact absurd hone (by decide +kernel)

/-- Two agents look the token up before either has burned it: both get a device, and both rotations succeed. -/
theorem not_burnedOnce_together : ¬ ∀ c : Running Nat,
    Reaches service (fun _ _ => True) (Config.start (Db.start oneUser)) c → BurnedOnce c.world := by
  intro h
  let race := registersAgent 0 [.step 0 (answers "7f3a")] ++ registersAgent 1 (toTheEnd 1 "9c1e") ++
    List.replicate 6 (.step 0 (answers "7f3a"))
  have hone := (h _ (reaches_endOf (System.allowed_true _ _ race) (by decide +kernel))).once storedToken
  exact absurd hone (by decide +kernel)

end Twice

end TimeChamp.Registration
