import TimeChamp.Auth.RefreshOnce

/-!
# Logged out for good

A logout blacklists its access token for fifteen minutes, whatever the lifetime of tokens, and then revokes the refresh
tokens of its user; a refresh that found its row before may still save a new one.

* `LoggedOutForGood` : no token is accepted after a logout of it has completed, and no refresh token there was at a logout
  is exchanged after it began;
* `Timely` : a token is blacklisted at most fifteen minutes before it expires, no refresh of the user runs meanwhile, and a
  token is accepted only if it was not logged out since it was looked up;
* `loggedOutForGood` : **if all steps are timely, every logout is for good**;
* `timely_of_fifteenMinutes` : a configured lifetime of at most fifteen minutes is enough for the first half.
-/

namespace TimeChamp.Auth
open Lib Api
open Function (update)

/-- No token was accepted after a logout of it had completed, and no completed logout left a row it revoked to be
exchanged since it began. -/
structure LoggedOutForGood (db : Db) : Prop where
  rejected : ∀ a ∈ db.accepted, a.2 = false
  unexchanged : ∀ l ∈ db.loggedOut, ∀ x ∈ db.exchanges.drop l.started, x.userId = l.userId → l.cut ≤ x.rowId

/-- A logout revoked the rows of the user. -/
def revokesAll {ι : Type} (userId : String) : Performed ι Op Op.Reply → Bool
  | (_, ⟨.revokeAll u _, .ok _⟩) => u == userId
  | _ => false

/-- A token of the user was exchanged. -/
def exchangedFor {ι : Type} (userId : String) : Performed ι Op Op.Reply → Bool
  | (_, ⟨.save _ (some source), .ok _⟩) => source.userId == userId
  | _ => false

/-- The request looks a token up in the blacklist. -/
def checks {ι : Type} [DecidableEq ι] (i : ι) : Performed ι Op Op.Reply → Bool
  | (j, ⟨.exists_ _, _⟩) => decide (j = i)
  | _ => false

/-- A logout of the token completed. -/
def logsOut {ι : Type} (accessToken : AccessToken) : Performed ι Op Op.Reply → Bool
  | (_, ⟨.loggedOut l, _⟩) => l.accessToken == accessToken
  | _ => false

/-- A token is blacklisted until it has expired, and looked up before; it is accepted only if it was not logged out since
it was looked up; a pair is saved only if the user was not logged out since its row was found; rows are revoked only if
none of the user was exchanged since the logout began. -/
def Timely {ι : Type} [DecidableEq ι] (c : Running ι) (a : Act ι Choice Call) : Prop :=
  (match c.performs a with
    | some (ch, .blacklist accessToken _) => decide (accessToken.exp * 1000 ≤ ch.now + 15 * 60 * 1000)
    | some (ch, .exists_ accessToken) => !accessToken.expired ch.now
    | some (_, .accept accessToken) => !(sinceLast (checks a.who) c.trace).any (logsOut accessToken)
    | some (_, .save _ (some source)) => !(sinceLast (looksUp a.who) c.trace).any (revokesAll source.userId)
    | some (_, .revokeAll userId _) => !(since a.who c.trace).any (exchangedFor userId)
    | _ => true) = true

instance {ι : Type} [DecidableEq ι] (c : Running ι) (a : Act ι Choice Call) : Decidable (Timely c a) :=
  inferInstanceAs (Decidable (_ = true))

/-- With a configured lifetime of at most fifteen minutes, any token signed so far is blacklisted until it expires. -/
theorem timely_of_fifteenMinutes {expiresIn signedAt now : Int} (h : expiresIn ≤ 15 * 60 * 1000) (hnow : signedAt ≤ now)
    (payload : JwtPayload) : (sign payload signedAt expiresIn).exp * 1000 ≤ now + 15 * 60 * 1000 := by
  unfold sign
  dsimp only
  omega

/-! ## The blacklist -/

/-- The token is in the blacklist until it expires. -/
def Listed (db : Db) (accessToken : AccessToken) : Prop :=
  ∃ entry until_, db.blacklist accessToken = some entry ∧ entry.expiresAt = some until_ ∧ accessToken.exp * 1000 ≤ until_

theorem get_of_listed {db : Db} {accessToken : AccessToken} (h : Listed db accessToken) {now : Int}
    (hnow : accessToken.expired now = false) : (db.blacklist.get now accessToken).isSome = true := by
  obtain ⟨entry, until_, hentry, hexp, hle⟩ := h
  have hnot : entry.expired now = false := by
    rw [MemEntry.expired, hexp, Option.any_some, decide_eq_false_iff_not]
    rw [AccessToken.expired, decide_eq_false_iff_not] at hnow
    omega
  rw [Mem.get, hentry]
  simp [hnot]

theorem listed_afterGet {db : Db} {accessToken looked : AccessToken} (h : Listed db accessToken) {now : Int}
    (hnow : looked.expired now = false) :
    Listed { db with blacklist := db.blacklist.afterGet now looked } accessToken := by
  obtain ⟨entry, until_, hentry, hexp, hle⟩ := h
  refine ⟨entry, until_, ?_, hexp, hle⟩
  show db.blacklist.afterGet now looked accessToken = some entry
  unfold Mem.afterGet
  cases hlooked : db.blacklist looked with
  | none => exact hentry
  | some found =>
      dsimp only
      split_ifs with hexpired
      · by_cases heq : accessToken = looked
        · -- the entry outlives its token
          subst heq
          rw [hentry] at hlooked
          obtain rfl := Option.some.inj hlooked
          rw [MemEntry.expired, hexp, Option.any_some, decide_eq_true_eq] at hexpired
          rw [AccessToken.expired, decide_eq_false_iff_not] at hnow
          omega
        · rwa [Function.update_of_ne heq]
      · exact hentry

/-- A timely entry lists its token, and leaves what is listed. -/
theorem listed_set {db : Db} {accessToken listed : AccessToken} {now : Int}
    (htimely : listed.exp * 1000 ≤ now + 15 * 60 * 1000) (h : accessToken = listed ∨ Listed db accessToken) :
    Listed { db with blacklist := db.blacklist.set now listed "1" (some (15 * 60)) } accessToken := by
  by_cases heq : accessToken = listed
  · subst heq
    exact ⟨⟨"1", some (now + (15 * 60 : Nat) * 1000)⟩, _, Function.update_self _ _ _, rfl, by omega⟩
  · obtain ⟨entry, until_, hentry, hexp, hle⟩ := h.resolve_left heq
    exact ⟨entry, until_, (Function.update_of_ne heq _ _).trans hentry, hexp, hle⟩

/-! ## The tables -/

/-- No row that the logout revoked was exchanged since it began. -/
def Clean (db : Db) (l : LoggedOut) : Prop := ∀ x ∈ db.exchanges.drop l.started, x.userId = l.userId → l.cut ≤ x.rowId

/-- What holds of a logout once it has revoked the rows. -/
structure Done (db : Db) (l : LoggedOut) : Prop where
  listed : Listed db l.accessToken
  recorded : ⟨l.userId, l.cut⟩ ∈ db.revocations
  clean : Clean db l

structure LogoutFacts (db : Db) : Prop where
  rejected : ∀ a ∈ db.accepted, a.2 = false
  done : ∀ l ∈ db.loggedOut, Done db l
  bounded : ∀ v ∈ db.revocations, v.cut ≤ db.refreshTokens.nextKey
  revoked : ∀ v ∈ db.revocations, ∀ r ∈ db.refreshTokens.rows, r.userId = v.userId → r.id < v.cut → r.revoked = true

/-- What a request relies on in each stage. -/
def Sound {ι : Type} [DecidableEq ι] (db : Db) (tr : List (Performed ι Op Op.Reply)) (i : ι) : Stage → Prop
  | .idle => True
  | .found row => ∀ v ∈ db.revocations, row.userId = v.userId → row.id < v.cut →
    (sinceLast (looksUp i) tr).any (revokesAll row.userId) = true
  | .revoked row => ∀ v ∈ db.revocations, row.userId = v.userId → row.id < v.cut →
    (sinceLast (looksUp i) tr).any (revokesAll row.userId) = true
  | .began accessToken started => Listed db accessToken ∧
    ∀ x ∈ db.exchanges.drop started, (since i tr).any (exchangedFor x.userId) = true
  | .revokedAll l => Done db l
  | .checked accessToken => db.late accessToken = true → (sinceLast (checks i) tr).any (logsOut accessToken) = true

/-- A change of the store that leaves the history. -/
structure Keeps (db db' : Db) : Prop where
  listed : ∀ accessToken, Listed db accessToken → Listed db' accessToken
  exchanges : db'.exchanges = db.exchanges
  revocations : db'.revocations = db.revocations
  loggedOut : db'.loggedOut = db.loggedOut
  accepted : db'.accepted = db.accepted
  keys : db.refreshTokens.nextKey ≤ db'.refreshTokens.nextKey
  rows : ∀ r' ∈ db'.refreshTokens.rows, db.refreshTokens.nextKey ≤ r'.id ∨
    ∃ r ∈ db.refreshTokens.rows, r.id = r'.id ∧ r.userId = r'.userId ∧ (r.revoked = true → r'.revoked = true)

theorem Keeps.refl (db : Db) : Keeps db db :=
  ⟨fun _ h => h, rfl, rfl, rfl, rfl, le_rfl, fun r hr => Or.inr ⟨r, hr, rfl, rfl, id⟩⟩

theorem Done.keep {db db' : Db} {l : LoggedOut} (h : Done db l) (hkeep : Keeps db db') : Done db' l :=
  ⟨hkeep.listed _ h.listed, hkeep.revocations ▸ h.recorded, by rw [Clean, hkeep.exchanges]; exact h.clean⟩

theorem LogoutFacts.keep {db db' : Db} (h : LogoutFacts db) (hkeep : Keeps db db') : LogoutFacts db' where
  rejected := fun a ha => h.rejected a (hkeep.accepted ▸ ha)
  done := fun l hl => (h.done l (hkeep.loggedOut ▸ hl)).keep hkeep
  bounded := fun v hv => (h.bounded v (hkeep.revocations ▸ hv)).trans hkeep.keys
  revoked := by
    intro v hv r' hr' huser hid
    rw [hkeep.revocations] at hv
    rcases hkeep.rows r' hr' with hnew | ⟨r, hr, hrid, hruser, hrevoked⟩
    · have := h.bounded v hv
      omega
    · exact hrevoked (h.revoked v hv r hr (hruser.trans huser) (hrid ▸ hid))

theorem keeps_revoke (db : Db) (p : RefreshToken → Bool) : Keeps db (db.revoke p) where
  listed := fun _ h => h
  exchanges := rfl
  revocations := rfl
  loggedOut := rfl
  accepted := rfl
  keys := le_rfl
  rows := by
    intro r' hr'
    obtain ⟨r, hr, rfl⟩ := (Table.mem_modify (RefreshToken.key_revoke db.now p)).mp hr'
    refine Or.inr ⟨r, hr, ?_, ?_, ?_⟩ <;> unfold RefreshToken.revoke <;> split_ifs <;> simp

theorem keeps_insert (db : Db) (record : RefreshToken) : Keeps db (db.insert record) where
  listed := fun _ h => h
  exchanges := rfl
  revocations := rfl
  loggedOut := rfl
  accepted := rfl
  keys := Nat.le_succ _
  rows := by
    intro r hr
    rcases Table.mem_insert.mp hr with hr | rfl
    · exact Or.inr ⟨r, hr, rfl, rfl, id⟩
    · exact Or.inl le_rfl

theorem keeps_deleteAll (db : Db) (p : RefreshToken → Bool) :
    Keeps db { db with refreshTokens := db.refreshTokens.remove p } where
  listed := fun _ h => h
  exchanges := rfl
  revocations := rfl
  loggedOut := rfl
  accepted := rfl
  keys := le_rfl
  rows := fun r hr => Or.inr ⟨r, (Table.mem_remove.mp hr).1, rfl, rfl, id⟩

theorem keeps_blacklist {db : Db} {blacklist : Mem AccessToken}
    (h : ∀ accessToken, Listed db accessToken → Listed { db with blacklist } accessToken) :
    Keeps db { db with blacklist } :=
  ⟨h, rfl, rfl, rfl, rfl, le_rfl, fun r hr => Or.inr ⟨r, hr, rfl, rfl, id⟩⟩

/-- After a logout revoked the rows of its user they are revoked, and that is on record. -/
theorem LogoutFacts.revokeAll {db : Db} (h : LogoutFacts db) (userId : String) :
    LogoutFacts { db.revoke (unrevokedOf userId) with
      revocations := db.revocations ++ [⟨userId, db.refreshTokens.nextKey⟩] } where
  rejected := h.rejected
  done := fun l hl => ⟨(h.done l hl).listed, List.mem_append_left _ (h.done l hl).recorded, (h.done l hl).clean⟩
  bounded := by
    intro v hv
    rcases List.mem_append.mp hv with hv | hv
    · exact h.bounded v hv
    · rw [List.mem_singleton.mp hv]
      exact le_rfl
  revoked := by
    intro v hv r' hr' huser hid
    rcases List.mem_append.mp hv with hv | hv
    · exact (h.keep (keeps_revoke db (unrevokedOf userId))).revoked v hv r' hr' huser hid
    · rw [List.mem_singleton.mp hv] at huser
      obtain ⟨r, hr, rfl⟩ := (Table.mem_modify (RefreshToken.key_revoke _ _)).mp hr'
      have hof : r.userId = userId := by
        refine Eq.trans ?_ huser
        unfold RefreshToken.revoke
        split_ifs <;> rfl
      unfold RefreshToken.revoke unrevokedOf
      cases hrevoked : r.revoked <;> simp [hof, hrevoked]

/-! ## Steps -/

section
variable {ι : Type} [DecidableEq ι] {db db' : Db} {tr : List (Performed ι Op Op.Reply)} {m : ι → Stage} {i : ι}
  {ch : Choice}

theorem Sound.keep {stage : Stage} (h : Sound db tr i stage) (hkeep : Keeps db db') : Sound db' tr i stage := by
  cases stage with
  | idle => trivial
  | found row => exact fun v hv => h v (hkeep.revocations ▸ hv)
  | revoked row => exact fun v hv => h v (hkeep.revocations ▸ hv)
  | began accessToken started => exact ⟨hkeep.listed _ h.1, fun x hx => h.2 x (hkeep.exchanges ▸ hx)⟩
  | revokedAll l => exact Done.keep h hkeep
  | checked accessToken =>
      intro hlate
      rw [Db.late, hkeep.loggedOut] at hlate
      exact h hlate

theorem checks_other {i j : ι} (hij : i ≠ j) (p : (op : Op) × op.Reply) : checks j (i, p) = false := by
  obtain ⟨op, r⟩ := p
  cases op <;> simp [checks, hij]

theorem Sound.concat {j : ι} {stage : Stage} (h : Sound db tr j stage) {p : (op : Op) × op.Reply}
    (hx : looksUp j (i, p) = false) (hc : checks j (i, p) = false) (hbegan : ∀ accessToken started, stage = .began accessToken started → i ≠ j) :
    Sound db (tr ++ [(i, p)]) j stage := by
  cases stage with
  | found row => exact fun v hv huser hid => any_sinceLast_concat hx (Or.inl (h v hv huser hid))
  | revoked row => exact fun v hv huser hid => any_sinceLast_concat hx (Or.inl (h v hv huser hid))
  | began accessToken started =>
      refine ⟨h.1, fun x hx => ?_⟩
      rw [since_concat_of_ne (hbegan accessToken started rfl), List.any_cons, h.2 x hx, Bool.or_true]
  | checked accessToken => exact fun hlate => any_sinceLast_concat hc (Or.inl (h hlate))
  | _ => exact h

/-- The facts hold, and every request relies on what holds. -/
structure LogoutInv (db : Db) (tr : List (Performed ι Op Op.Reply)) (m : ι → Stage) : Prop where
  facts : LogoutFacts db
  sound : ∀ i, Sound db tr i (m i)

/-- What an action of `i` must do to keep the invariant. -/
theorem LogoutInv.act {p : (op : Op) × op.Reply} {stage : Stage} (hfacts : LogoutFacts db')
    (hothers : ∀ j, j ≠ i → Sound db' (tr ++ [(i, p)]) j (m j)) (hself : Sound db' (tr ++ [(i, p)]) i stage) :
    LogoutInv db' (tr ++ [(i, p)]) (update m i stage) where
  facts := hfacts
  sound := (Function.forall_update_iff m fun j stage => Sound db' (tr ++ [(i, p)]) j stage).mpr ⟨hself, hothers⟩

theorem LogoutInv.keep (h : LogoutInv db tr m) (hkeep : Keeps db db') {p : (op : Op) × op.Reply} {stage : Stage}
    (hself : Sound db' (tr ++ [(i, p)]) i stage) : LogoutInv db' (tr ++ [(i, p)]) (update m i stage) :=
  LogoutInv.act (h.facts.keep hkeep)
    (fun j hj => ((h.sound j).keep hkeep).concat (looksUp_other hj.symm p) (checks_other hj.symm p)
      fun _ _ _ => hj.symm) hself

theorem LogoutInv.now (h : LogoutInv db tr m) (t : Int) : LogoutInv { db with now := t } tr m := by
  have hkeep : Keeps db { db with now := t } :=
    ⟨fun _ h => h, rfl, rfl, rfl, rfl, le_rfl, fun r hr => Or.inr ⟨r, hr, rfl, rfl, id⟩⟩
  exact ⟨h.facts.keep hkeep, fun j => (h.sound j).keep hkeep⟩

theorem logout_findToken (h : LogoutInv db tr m) {token : Option String}
    {r : Except String (Option RefreshToken × Int)} (hr : execNow ch (.findToken token) db = some (r, db')) :
    ∃ stage, authProtocol.post (m i) (.findToken token) r stage ∧
      LogoutInv db' (tr ++ [(i, ⟨.findToken token, r⟩)]) (update m i stage) := by
  obtain ⟨rfl, rfl | rfl⟩ := Outcome.answer_read (Option.some.inj hr)
  · cases hfound : (db'.found token)[ch.pick % (db'.found token).length]? with
    | none => exact ⟨.idle, rfl, h.keep (Keeps.refl _) trivial⟩
    | some row =>
        obtain ⟨hrow, hcond⟩ := List.mem_filter.mp (List.mem_of_getElem? hfound)
        refine ⟨.found row, rfl, h.keep (Keeps.refl _) fun v hv huser hid => ?_⟩
        -- the row was not revoked, so it is younger than any logout of its user
        rw [h.facts.revoked v hv row hrow huser hid] at hcond
        exact nomatch hcond
  · exact ⟨.idle, rfl, h.keep (Keeps.refl _) trivial⟩

/-- After an exchange of a row that no logout revoked. -/
theorem Done.exchange {l : LoggedOut} (h : Done db l) {source : RefreshToken}
    (hyoung : ∀ v ∈ db.revocations, source.userId = v.userId → v.cut ≤ source.id) :
    Done (db.exchange (some source)) l where
  listed := h.listed
  recorded := h.recorded
  clean := by
    intro x hx huser
    change x ∈ (db.exchanges ++ [_]).drop l.started at hx
    rw [List.drop_append] at hx
    rcases List.mem_append.mp hx with hx | hx
    · exact h.clean x hx huser
    · obtain rfl := List.mem_singleton.mp (List.mem_of_mem_drop hx)
      exact hyoung _ h.recorded huser

theorem Sound.exchange {j : ι} {stage : Stage} (h : Sound db tr j stage) (hij : i ≠ j) {source : RefreshToken}
    (hyoung : ∀ v ∈ db.revocations, source.userId = v.userId → v.cut ≤ source.id) {p : (op : Op) × op.Reply}
    (hp : exchangedFor source.userId (i, p) = true) :
    Sound (db.exchange (some source)) (tr ++ [(i, p)]) j stage := by
  cases stage with
  | began accessToken started =>
      refine ⟨h.1, fun x hx => ?_⟩
      rw [since_concat_of_ne hij, List.any_cons, Bool.or_eq_true]
      change x ∈ (db.exchanges ++ [_]).drop started at hx
      rw [List.drop_append] at hx
      rcases List.mem_append.mp hx with hx | hx
      · exact Or.inr (h.2 x hx)
      · obtain rfl := List.mem_singleton.mp (List.mem_of_mem_drop hx)
        exact Or.inl hp
  | revokedAll l => exact Done.exchange h hyoung
  | found row => exact fun v hv huser hid => any_sinceLast_concat (looksUp_other hij p) (Or.inl (h v hv huser hid))
  | revoked row => exact fun v hv huser hid => any_sinceLast_concat (looksUp_other hij p) (Or.inl (h v hv huser hid))
  | checked accessToken => exact fun hlate => any_sinceLast_concat (checks_other hij p) (Or.inl (h hlate))
  | _ => exact h

theorem logout_save (h : LogoutInv db tr m) {record : RefreshToken} {source : Option RefreshToken}
    (hpre : authProtocol.pre (m i) (.save record source))
    (htimely : ∀ row, source = some row → (sinceLast (looksUp i) tr).any (revokesAll row.userId) = false)
    {r : Except String Unit} (hr : execNow ch (.save record source) db = some (r, db')) :
    LogoutInv db' (tr ++ [(i, ⟨.save record source, r⟩)]) (update m i .idle) := by
  unfold execNow at hr
  dsimp only at hr
  split_ifs at hr
  have hkeep := keeps_insert db record
  cases hout : ch.outcome with
  | failed =>
      rw [hout] at hr
      obtain ⟨rfl, rfl⟩ := Prod.mk.inj (Option.some.inj hr)
      exact h.keep (Keeps.refl _) trivial
  | lost =>
      rw [hout] at hr
      obtain ⟨rfl, rfl⟩ := Prod.mk.inj (Option.some.inj hr)
      exact h.keep hkeep trivial
  | ok =>
      rw [hout] at hr
      obtain ⟨rfl, rfl⟩ := Prod.mk.inj (Option.some.inj hr)
      cases source with
      | none => exact h.keep hkeep trivial
      | some row =>
          have hyoung : ∀ v ∈ (db.insert record).revocations, row.userId = v.userId → v.cut ≤ row.id := by
            intro v hv huser
            by_contra hlt
            have hm : m i = .revoked row := hpre
            have hsound : Sound db tr i (.revoked row) := hm ▸ h.sound i
            have hnot := htimely row rfl
            rw [hsound v hv huser (Nat.not_le.mp hlt)] at hnot
            exact nomatch hnot
          have hfacts := h.facts.keep hkeep
          refine LogoutInv.act ⟨hfacts.rejected, fun l hl => (hfacts.done l hl).exchange hyoung, hfacts.bounded,
            hfacts.revoked⟩ (fun j hj => ?_) trivial
          exact ((h.sound j).keep hkeep).exchange hj.symm hyoung (by simp [exchangedFor])

theorem logout_revokeAll (h : LogoutInv db tr m) {userId : String} {started : Nat} {accessToken : AccessToken}
    (hm : m i = .began accessToken started) (htimely : (since i tr).any (exchangedFor userId) = false)
    {r : Except String Nat} (hr : execNow ch (.revokeAll userId started) db = some (r, db')) :
    ∃ stage, authProtocol.post (m i) (.revokeAll userId started) r stage ∧
      LogoutInv db' (tr ++ [(i, ⟨.revokeAll userId started, r⟩)]) (update m i stage) := by
  unfold execNow at hr
  dsimp only at hr
  cases hout : ch.outcome with
  | failed =>
      rw [hout] at hr
      obtain ⟨rfl, rfl⟩ := Prod.mk.inj (Option.some.inj hr)
      exact ⟨.idle, rfl, h.keep (Keeps.refl _) trivial⟩
  | lost =>
      rw [hout] at hr
      obtain ⟨rfl, rfl⟩ := Prod.mk.inj (Option.some.inj hr)
      exact ⟨.idle, rfl, h.keep (keeps_revoke db _) trivial⟩
  | ok =>
      rw [hout] at hr
      obtain ⟨rfl, rfl⟩ := Prod.mk.inj (Option.some.inj hr)
      obtain ⟨hlisted, hsince⟩ : Sound db tr i (.began accessToken started) := hm ▸ h.sound i
      refine ⟨_, ⟨accessToken, hm, rfl⟩, LogoutInv.act (h.facts.revokeAll userId) (fun j hj => ?_)
        ⟨hlisted, List.mem_append_right _ (List.mem_singleton.mpr rfl), fun x hx huser => ?_⟩⟩
      · -- what another request found may have been revoked now, and then this call is among those since
        have hold := (h.sound j).concat (p := ⟨.revokeAll userId started, .ok db.refreshTokens.nextKey⟩)
          (looksUp_other hj.symm _) (checks_other hj.symm _) fun _ _ _ => hj.symm
        have hfound : ∀ row : RefreshToken, (∀ v ∈ db.revocations, row.userId = v.userId → row.id < v.cut →
              (sinceLast (looksUp j) (tr ++ [(i, (⟨.revokeAll userId started, .ok db.refreshTokens.nextKey⟩ :
                (op : Op) × op.Reply))])).any (revokesAll row.userId) = true) →
            ∀ v ∈ db.revocations ++ [⟨userId, db.refreshTokens.nextKey⟩], row.userId = v.userId → row.id < v.cut →
              (sinceLast (looksUp j) (tr ++ [(i, (⟨.revokeAll userId started, .ok db.refreshTokens.nextKey⟩ :
                (op : Op) × op.Reply))])).any (revokesAll row.userId) = true := by
          intro row hrow v hv huser hid
          rcases List.mem_append.mp hv with hv | hv
          · exact hrow v hv huser hid
          · rw [List.mem_singleton.mp hv] at huser
            exact any_sinceLast_concat (looksUp_other hj.symm _) (Or.inr (by simp [revokesAll, huser]))
        cases hstage : m j with
        | found row => rw [hstage] at hold; exact hfound row hold
        | revoked row => rw [hstage] at hold; exact hfound row hold
        | revokedAll l =>
            rw [hstage] at hold
            exact ⟨hold.listed, List.mem_append_left _ hold.recorded, hold.clean⟩
        | _ => rw [hstage] at hold; exact hold
      · -- nothing of the user was exchanged since the logout began
        have hany := hsince x hx
        rw [show x.userId = userId from huser, htimely] at hany
        exact nomatch hany

theorem logout_exists (h : LogoutInv db tr m) {accessToken : AccessToken} (htimely : accessToken.expired db.now = false)
    {r : Except String Bool} (hr : execNow ch (.exists_ accessToken) db = some (r, db')) :
    ∃ stage, authProtocol.post (m i) (.exists_ accessToken) r stage ∧
      LogoutInv db' (tr ++ [(i, ⟨.exists_ accessToken, r⟩)]) (update m i stage) := by
  have hkeep : Keeps db { db with blacklist := db.blacklist.afterGet db.now accessToken } :=
    keeps_blacklist fun _ hlisted => listed_afterGet hlisted htimely
  rcases Outcome.answer_cases (Option.some.inj hr) with ⟨rfl, rfl⟩ | ⟨rfl, rfl | rfl⟩
  · cases hfound : (db.blacklist.get db.now accessToken).isSome with
    | true => exact ⟨.idle, rfl, h.keep hkeep trivial⟩
    | false =>
        refine ⟨_, rfl, h.keep hkeep fun hlate => ?_⟩
        -- a token whose logout has completed is listed
        obtain ⟨l, hl, htoken⟩ := List.any_eq_true.mp hlate
        obtain rfl := beq_iff_eq.mp htoken
        rw [get_of_listed (h.facts.done l hl).listed htimely] at hfound
        exact nomatch hfound
  · exact ⟨.idle, rfl, h.keep (Keeps.refl _) trivial⟩
  · exact ⟨.idle, rfl, h.keep hkeep trivial⟩

theorem logout_blacklist (h : LogoutInv db tr m) {accessToken : AccessToken}
    (htimely : accessToken.exp * 1000 ≤ db.now + 15 * 60 * 1000) {r : Except String Nat}
    (hr : execNow ch (.blacklist accessToken (15 * 60)) db = some (r, db')) :
    ∃ stage, authProtocol.post (m i) (.blacklist accessToken (15 * 60)) r stage ∧
      LogoutInv db' (tr ++ [(i, ⟨.blacklist accessToken (15 * 60), r⟩)]) (update m i stage) := by
  have hkeep : Keeps db { db with blacklist := db.blacklist.set db.now accessToken "1" (some (15 * 60)) } :=
    keeps_blacklist fun _ hlisted => listed_set htimely (Or.inr hlisted)
  rcases Outcome.answer_cases (Option.some.inj hr) with ⟨rfl, rfl⟩ | ⟨rfl, rfl | rfl⟩
  · refine ⟨_, rfl, h.keep hkeep ⟨listed_set htimely (Or.inl rfl), fun x hx => ?_⟩⟩
    change x ∈ db.exchanges.drop db.exchanges.length at hx
    rw [List.drop_length] at hx
    exact absurd hx List.not_mem_nil
  · exact ⟨.idle, rfl, h.keep (Keeps.refl _) trivial⟩
  · exact ⟨.idle, rfl, h.keep hkeep trivial⟩

theorem logout_loggedOut (h : LogoutInv db tr m) {l : LoggedOut} (hm : m i = .revokedAll l) :
    LogoutInv { db with loggedOut := l :: db.loggedOut } (tr ++ [(i, ⟨.loggedOut l, ()⟩)]) (update m i .idle) := by
  have hdone : ∀ {l'}, Done db l' → Done { db with loggedOut := l :: db.loggedOut } l' :=
    fun h => ⟨h.listed, h.recorded, h.clean⟩
  have hself : Sound db tr i (.revokedAll l) := hm ▸ h.sound i
  refine LogoutInv.act ⟨h.facts.rejected, fun l' hl' => ?_, h.facts.bounded, h.facts.revoked⟩ (fun j hj => ?_) trivial
  · rcases List.mem_cons.mp hl' with rfl | hl'
    · exact hdone hself
    · exact hdone (h.facts.done l' hl')
  · have hold := (h.sound j).concat (p := ⟨.loggedOut l, ()⟩) (looksUp_other hj.symm _) (checks_other hj.symm _)
      fun _ _ _ => hj.symm
    cases hstage : m j with
    | revokedAll l' => rw [hstage] at hold; exact hdone hold
    | checked accessToken =>
        rw [hstage] at hold
        intro hlate
        rw [Db.late, List.any_cons, Bool.or_eq_true] at hlate
        rcases hlate with hnow | hbefore
        · exact any_sinceLast_concat (checks_other hj.symm _) (Or.inr hnow)
        · exact hold hbefore
    | _ => rw [hstage] at hold; exact hold

/-- A token that was not logged out since it was looked up is not logged out at all. -/
theorem logout_accept (h : LogoutInv db tr m) {accessToken : AccessToken} (hm : m i = .checked accessToken)
    (htimely : (sinceLast (checks i) tr).any (logsOut accessToken) = false) :
    LogoutInv { db with accepted := (accessToken, db.late accessToken) :: db.accepted }
      (tr ++ [(i, ⟨.accept accessToken, ()⟩)]) (update m i .idle) := by
  have hdone : ∀ {l}, Done db l →
      Done { db with accepted := (accessToken, db.late accessToken) :: db.accepted } l :=
    fun h => ⟨h.listed, h.recorded, h.clean⟩
  have hself : Sound db tr i (.checked accessToken) := hm ▸ h.sound i
  refine LogoutInv.act ⟨fun a ha => ?_, fun l hl => hdone (h.facts.done l hl), h.facts.bounded, h.facts.revoked⟩
    (fun j hj => ?_) trivial
  · rcases List.mem_cons.mp ha with rfl | ha
    · refine Bool.eq_false_iff.mpr fun hlate => ?_
      rw [hself hlate] at htimely
      exact nomatch htimely
    · exact h.facts.rejected a ha
  · have hold := (h.sound j).concat (p := ⟨.accept accessToken, ()⟩) (looksUp_other hj.symm _) (checks_other hj.symm _)
      fun _ _ _ => hj.symm
    cases hstage : m j with
    | revokedAll l' => rw [hstage] at hold; exact hdone hold
    | _ => rw [hstage] at hold; exact hold

theorem logoutInv_step {c : Running ι} {op : Op} {k : op.Reply → Request Unit} {r : op.Reply}
    (hI : LogoutInv c.world c.trace m) (hG : Timely c (.step i ch)) (hop : c.thread i = .op op k)
    (hpre : authProtocol.pre (m i) op) (hr : exec ch op c.world = some (r, db')) :
    ∃ stage, authProtocol.post (m i) op r stage ∧ LogoutInv db' (c.trace ++ [(i, ⟨op, r⟩)]) (update m i stage) := by
  obtain ⟨-, hr⟩ := exec_cases hr
  have h := hI.now ch.now
  rw [Timely, Config.performs_step hop ch] at hG
  cases op with
  | findToken token => exact logout_findToken h hr
  | findActiveUser id =>
      obtain ⟨row, hm⟩ := hpre
      have hsound := (h.sound i).concat (i := i) (p := ⟨.findActiveUser id, r⟩) rfl rfl fun _ _ hb => by
        rw [hm] at hb
        exact nomatch hb
      obtain ⟨rfl, rfl | rfl⟩ := Outcome.answer_read (Option.some.inj hr)
      · cases hu : List.find? (fun u => u.id == id && u.isActive) ({ c.world with now := ch.now } : Db).users with
        | none => exact ⟨.idle, rfl, h.keep (Keeps.refl _) trivial⟩
        | some user => exact ⟨m i, rfl, h.keep (Keeps.refl _) (by rw [← hu]; exact hsound)⟩
      · exact ⟨.idle, rfl, h.keep (Keeps.refl _) trivial⟩
  | findOrgUser id organizationId =>
      obtain ⟨accessToken, hm⟩ := hpre
      have hsound := (h.sound i).concat (i := i) (p := ⟨.findOrgUser id organizationId, r⟩) rfl rfl fun _ _ hb => by
        rw [hm] at hb
        exact nomatch hb
      obtain ⟨rfl, rfl | rfl⟩ := Outcome.answer_read (Option.some.inj hr)
      · cases hu : List.find? (fun u => u.id == id && u.organizationId == organizationId && u.isActive)
            ({ c.world with now := ch.now } : Db).users with
        | none => exact ⟨.idle, rfl, h.keep (Keeps.refl _) trivial⟩
        | some user => exact ⟨m i, rfl, h.keep (Keeps.refl _) (by rw [← hu]; exact hsound)⟩
      · exact ⟨.idle, rfl, h.keep (Keeps.refl _) trivial⟩
  | fresh =>
      have hsound := (h.sound i).concat (i := i) (p := ⟨.fresh, r⟩) rfl rfl fun _ _ hb => by
        rcases hpre with hm | ⟨row, hm⟩ <;> rw [hm] at hb <;> exact nomatch hb
      obtain ⟨rfl, rfl⟩ := Prod.mk.inj (Option.some.inj hr)
      exact ⟨m i, rfl, h.keep (Keeps.refl _) hsound⟩
  | clock =>
      obtain ⟨rfl, rfl⟩ := Prod.mk.inj (Option.some.inj hr)
      exact ⟨.idle, rfl, h.keep (Keeps.refl _) trivial⟩
  | save record source =>
      refine ⟨.idle, by cases r <;> rfl, logout_save h hpre (fun row hrow => ?_) hr⟩
      subst hrow
      exact (Bool.not_eq_true' _).mp hG
  | revoke id =>
      obtain ⟨row, hm, rfl⟩ := hpre
      have hkeep := keeps_revoke { c.world with now := ch.now } fun r => r.id == row.id
      rcases Outcome.answer_cases (Option.some.inj hr) with ⟨rfl, rfl⟩ | ⟨rfl, rfl | rfl⟩
      · refine ⟨.revoked row, ⟨row, hm, rfl⟩, h.keep hkeep fun v hv huser hid => ?_⟩
        have hfound : Sound { c.world with now := ch.now } c.trace i (.found row) := hm ▸ h.sound i
        exact any_sinceLast_concat rfl (Or.inl (hfound v hv huser hid))
      · exact ⟨.idle, rfl, h.keep (Keeps.refl _) trivial⟩
      · exact ⟨.idle, rfl, h.keep hkeep trivial⟩
  | revokeAll userId started =>
      obtain ⟨accessToken, hm⟩ := hpre
      exact logout_revokeAll h hm ((Bool.not_eq_true' _).mp hG) hr
  | deleteAll userId =>
      have hkeep := keeps_deleteAll { c.world with now := ch.now } fun r => r.userId == userId
      refine ⟨.idle, by cases r <;> rfl, ?_⟩
      rcases Outcome.answer_cases (Option.some.inj hr) with ⟨rfl, rfl⟩ | ⟨rfl, rfl | rfl⟩
      · exact h.keep hkeep trivial
      · exact h.keep (Keeps.refl _) trivial
      · exact h.keep hkeep trivial
  | blacklist accessToken ttlSeconds =>
      obtain rfl : ttlSeconds = 15 * 60 := hpre
      exact logout_blacklist h (of_decide_eq_true hG) hr
  | exists_ accessToken => exact logout_exists h ((Bool.not_eq_true' _).mp hG) hr
  | loggedOut l =>
      obtain ⟨rfl, rfl⟩ := Prod.mk.inj (Option.some.inj hr)
      exact ⟨.idle, rfl, logout_loggedOut h hpre⟩
  | accept accessToken =>
      obtain ⟨rfl, rfl⟩ := Prod.mk.inj (Option.some.inj hr)
      exact ⟨.idle, rfl, logout_accept h hpre ((Bool.not_eq_true' _).mp hG)⟩

/-- **If all steps are timely, every logout is for good**, whatever the configured lifetime of access tokens. -/
theorem loggedOutForGood {expiresIn : Int} {users : List User} {c : Running ι}
    (h : Reaches (service expiresIn) Timely (Config.start (Db.start users)) c) : LoggedOutForGood c.world := by
  have hinv : ∃ m, LogoutInv c.world c.trace m ∧ ∀ i, Follows authProtocol (fun _ _ => True) (m i) (c.thread i) := by
    refine Reaches.inv (P := authProtocol) (F := fun _ => True) LogoutInv ?_ ?_ ?_ h
    · refine ⟨fun _ => .idle, ⟨⟨?_, ?_, ?_, ?_⟩, fun _ => trivial⟩, fun _ => trivial⟩
      · exact fun _ ha => absurd ha List.not_mem_nil
      · exact fun _ hl => absurd hl List.not_mem_nil
      · exact fun _ hv => absurd hv List.not_mem_nil
      · exact fun _ hv => absurd hv List.not_mem_nil
    · intro c m i call db hI _ _ hdb
      have hkeep : Keeps c.world db := by
        cases call with
        | setUsers users =>
            obtain rfl := Option.some.inj hdb
            exact ⟨fun _ h => h, rfl, rfl, rfl, rfl, le_rfl, fun r hr => Or.inr ⟨r, hr, rfl, rfl, id⟩⟩
        | _ =>
            obtain rfl := Option.some.inj hdb
            exact Keeps.refl _
      exact ⟨.idle, ⟨hI.facts.keep hkeep, (Function.forall_update_iff m fun j stage => Sound db c.trace j stage).mpr
        ⟨trivial, fun j _ => (hI.sound j).keep hkeep⟩⟩, follows_body expiresIn call⟩
    · intro c m i ch op k r db hI hG hop hpre hr
      exact logoutInv_step hI hG hop hpre hr
  obtain ⟨m, hI, -⟩ := hinv
  exact ⟨hI.facts.rejected, fun l hl => (hI.facts.done l hl).clean⟩

section Runs

/-- Alice's access token, from a sign-in at time zero. -/
def aliceToken (expiresIn : Int) : AccessToken := sign ⟨alice.id, alice.organizationId, alice.role, alice.email⟩ 0 expiresIn

/-- Alice signs in and, a second later, logs out. -/
def signsInAndOut (expiresIn : Int) : List (Act Nat Choice Call) :=
  [.call 0 (.signIn alice), .step 0 (answers 0 "r0"), .step 0 (answers 0 "r0"),
    .call 1 (.logout alice.id (aliceToken expiresIn)), .step 1 (answers 1000 ""), .step 1 (answers 1000 ""),
    .step 1 (answers 1000 "")]

/-- Alice's token is presented, and runs as far as the guard lets it. -/
def presentsToken (expiresIn now : Int) (calls : Nat) : List (Act Nat Choice Call) :=
  .call 2 (.authenticate (aliceToken expiresIn)) :: List.replicate calls (.step 2 (answers now ""))

theorem loggedOutForGood_after : LoggedOutForGood ((service fifteenMinutes).endOf (Config.start (Db.start [alice]))
    (signsInAndOut fifteenMinutes ++ presentsToken fifteenMinutes 2000 2 ++
      [.call 3 (.refreshTokens (some "r0")), .step 3 (answers 3000 "r3")])).world :=
  loggedOutForGood (reaches_endOf (by decide +kernel) (by decide +kernel))

/-- With tokens that live for an hour, one is accepted again when its entry in the blacklist is gone. -/
theorem not_loggedOutForGood_hour : ¬ ∀ c : Running Nat,
    Reaches (service 3600000) (fun _ _ => True) (Config.start (Db.start [alice])) c → LoggedOutForGood c.world := by
  intro h
  let late : List (Act Nat Choice Call) := signsInAndOut 3600000 ++ presentsToken 3600000 1000000 4
  have hrejected := (h _ (reaches_endOf (System.allowed_true _ _ late) (by decide +kernel))).rejected
  exact absurd (hrejected (aliceToken 3600000, true) (by decide +kernel)) (by decide)

/-- With tokens that live for fifteen minutes, a refresh that found its row before the logout saves its pair after it. -/
theorem not_loggedOutForGood_inFlight : ¬ ∀ c : Running Nat,
    Reaches (service fifteenMinutes) (fun _ _ => True) (Config.start (Db.start [alice])) c → LoggedOutForGood c.world := by
  intro h
  let race : List (Act Nat Choice Call) :=
    ([.call 0 (.signIn alice), .step 0 (answers 0 "r0"), .step 0 (answers 0 "r0"),
      .call 2 (.refreshTokens (some "r0")), .step 2 (answers 500 "")] : List (Act Nat Choice Call)) ++
    (.call 1 (.logout alice.id (aliceToken fifteenMinutes)) :: List.replicate 3 (.step 1 (answers 1000 "")) :
      List (Act Nat Choice Call)) ++
    (List.replicate 4 (.step 2 (answers 1500 "r2")) : List (Act Nat Choice Call))
  have hunexchanged := (h _ (reaches_endOf (System.allowed_true _ _ race) (by decide +kernel))).unexchanged
  exact absurd (hunexchanged ⟨alice.id, aliceToken fifteenMinutes, 0, 2⟩ (by decide +kernel) ⟨alice.id, 1, "r0"⟩
    (by decide +kernel) rfl) (by decide)

/-- The whole logout comes between the lookup of the token and its acceptance. -/
theorem not_loggedOutForGood_checked : ¬ ∀ c : Running Nat,
    Reaches (service fifteenMinutes) (fun _ _ => True) (Config.start (Db.start [alice])) c → LoggedOutForGood c.world := by
  intro h
  let race : List (Act Nat Choice Call) :=
    ([.call 0 (.signIn alice), .step 0 (answers 0 "r0"), .step 0 (answers 0 "r0")] : List (Act Nat Choice Call)) ++
    presentsToken fifteenMinutes 500 2 ++
    (.call 1 (.logout alice.id (aliceToken fifteenMinutes)) :: List.replicate 3 (.step 1 (answers 1000 "")) :
      List (Act Nat Choice Call)) ++
    (List.replicate 2 (.step 2 (answers 1500 "")) : List (Act Nat Choice Call))
  have hrejected := (h _ (reaches_endOf (System.allowed_true _ _ race) (by decide +kernel))).rejected
  exact absurd (hrejected (aliceToken fifteenMinutes, true) (by decide +kernel)) (by decide)

end Runs

end

end TimeChamp.Auth
