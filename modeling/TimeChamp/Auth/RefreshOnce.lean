import TimeChamp.Auth.Service

/-!
# A refresh token is exchanged once

`refreshTokens` finds an unrevoked row, looks at its user, revokes the row and issues a new pair; nothing makes these one
step, and the update that revokes does not ask whether the row still was not.

* `ExchangedOnce` : each refresh token was exchanged for at most one pair;
* `Alone` : no other refresh exchanged the token since this one, which is about to, found it;
* `exchangedOnce` : **if every exchange is alone, each refresh token is exchanged at most once**.
-/

namespace TimeChamp.Auth
open Lib
open Function (update)

def ExchangedOnce (db : Db) : Prop := ∀ token, db.exchanges.countP (·.token == token) ≤ 1

/-- The token was exchanged for a pair. -/
def exchanged {ι : Type} (token : String) : Performed ι Op Op.Reply → Bool
  | (_, ⟨.save _ (some source), .ok _⟩) => source.token == token
  | _ => false

/-- The request looks for a row. -/
def looksUp {ι : Type} [DecidableEq ι] (i : ι) : Performed ι Op Op.Reply → Bool
  | (j, ⟨.findToken _, _⟩) => decide (j = i)
  | _ => false

/-- When the action saves a pair in exchange for a token, no other request exchanged that since this one found it. -/
def Alone {ι : Type} [DecidableEq ι] (c : Running ι) (a : Act ι Choice Call) : Prop :=
  (match c.performs a with
    | some (_, .save _ (some source)) => (sinceLast (looksUp a.who) c.trace).any (exchanged source.token)
    | _ => false) = false

instance {ι : Type} [DecidableEq ι] (c : Running ι) (a : Act ι Choice Call) : Decidable (Alone c a) :=
  inferInstanceAs (Decidable (_ = false))

/-! ## What a refresh returns -/

/-- The row that was exchanged, so far. -/
def exchangeProtocol : Protocol Op Op.Reply (Option RefreshToken) where
  pre _ _ := True
  post m op r m' :=
    match op, r with
    | .save _ (some source), .ok _ => m' = some source
    | _, _ => m' = m

/-- **A refresh returns a pair only after it saved one in exchange for a row.** -/
theorem refreshTokens_ok (expiresIn : Int) (refreshToken : Option String) :
    Follows exchangeProtocol (fun m r => ∀ session, r = .ok session → m.isSome = true) none
      (refreshTokens expiresIn refreshToken) := by
  refine follows_perform_bind.mpr ⟨trivial, fun r m hm => ?_⟩
  rcases r with e | ⟨_ | stored, now⟩
  · exact fun _ h => nomatch h
  · exact fun _ h => nomatch h
  · dsimp only
    split_ifs
    · exact fun _ h => nomatch h
    · refine follows_perform_bind.mpr ⟨trivial, fun r m hm => ?_⟩
      rcases r with e | _ | user
      · exact fun _ h => nomatch h
      · exact fun _ h => nomatch h
      · refine follows_perform_bind.mpr ⟨trivial, fun r m hm => ?_⟩
        rcases r with e | u
        · exact fun _ h => nomatch h
        · refine follows_perform_bind.mpr ⟨trivial, fun r m hm => ?_⟩
          refine follows_perform_bind.mpr ⟨trivial, fun r m hm => ?_⟩
          rcases r with e | u
          · exact fun _ h => nomatch h
          · intro session _
            rw [show m = some stored from hm, Option.isSome_some]

/-! ## The rows -/

/-- The facts about the tables. Each row has its own token, and an exchanged token only has revoked rows. -/
structure TokensInv (db : Db) : Prop where
  rowsSaved : ∀ r ∈ db.refreshTokens.rows, r.token ∈ db.saved
  unique : ∀ r ∈ db.refreshTokens.rows, ∀ s ∈ db.refreshTokens.rows, r.token = s.token → r.id = s.id
  exchangesSaved : ∀ x ∈ db.exchanges, x.token ∈ db.saved
  spent : ∀ x ∈ db.exchanges, ∀ r ∈ db.refreshTokens.rows, r.token = x.token → r.revoked = true
  once : ExchangedOnce db

/-- What a request relies on that found or revoked a row. -/
def Knows {ι : Type} [DecidableEq ι] (db : Db) (tr : List (Performed ι Op Op.Reply)) (i : ι) : Stage → Prop
  | .found row => row.token ∈ db.saved ∧ (∀ r ∈ db.refreshTokens.rows, r.token = row.token → r.id = row.id) ∧
    (db.exchanges.any (·.token == row.token) = true → (sinceLast (looksUp i) tr).any (exchanged row.token) = true)
  | .revoked row => row.token ∈ db.saved ∧ (∀ r ∈ db.refreshTokens.rows, r.token = row.token → r.revoked = true) ∧
    (db.exchanges.any (·.token == row.token) = true → (sinceLast (looksUp i) tr).any (exchanged row.token) = true)
  | _ => True

/-- What a change of the rows may do: rows may go or be revoked, and new ones have new tokens. -/
structure Later (db db' : Db) : Prop where
  saved : db.saved ⊆ db'.saved
  exchanges : db'.exchanges = db.exchanges
  rows : ∀ r' ∈ db'.refreshTokens.rows, r'.token ∉ db.saved ∨
    ∃ r ∈ db.refreshTokens.rows, r.id = r'.id ∧ r.token = r'.token ∧ (r.revoked = true → r'.revoked = true)

theorem TokensInv.later {db db' : Db} (h : TokensInv db) (hlater : Later db db')
    (hold : ∀ r' ∈ db'.refreshTokens.rows, ∃ r ∈ db.refreshTokens.rows, r.id = r'.id ∧ r.token = r'.token ∧
      (r.revoked = true → r'.revoked = true)) : TokensInv db' where
  rowsSaved := by
    intro r' hr'
    obtain ⟨r, hr, -, htoken, -⟩ := hold r' hr'
    exact hlater.saved (htoken ▸ h.rowsSaved r hr)
  unique := by
    intro r' hr' s' hs' heq
    obtain ⟨r, hr, hrid, hrtoken, -⟩ := hold r' hr'
    obtain ⟨s, hs, hsid, hstoken, -⟩ := hold s' hs'
    rw [← hrid, ← hsid]
    exact h.unique r hr s hs (hrtoken.trans (heq.trans hstoken.symm))
  exchangesSaved := fun x hx => hlater.saved (h.exchangesSaved x (hlater.exchanges ▸ hx))
  spent := by
    intro x hx r' hr' htoken
    obtain ⟨r, hr, -, hrtoken, hrevoked⟩ := hold r' hr'
    exact hrevoked (h.spent x (hlater.exchanges ▸ hx) r hr (hrtoken.trans htoken))
  once := by
    intro token
    rw [hlater.exchanges]
    exact h.once token

theorem later_revoke (db : Db) (p : RefreshToken → Bool) : ∀ r' ∈ (db.revoke p).refreshTokens.rows,
    ∃ r ∈ db.refreshTokens.rows, r.id = r'.id ∧ r.token = r'.token ∧ (r.revoked = true → r'.revoked = true) := by
  intro r' hr'
  obtain ⟨r, hr, rfl⟩ := (Table.mem_modify (RefreshToken.key_revoke db.now p)).mp hr'
  refine ⟨r, hr, ?_, ?_, ?_⟩ <;> unfold RefreshToken.revoke <;> split_ifs <;> simp

theorem TokensInv.insert {db : Db} (h : TokensInv db) {record : RefreshToken} (hnew : record.token ∉ db.saved) :
    TokensInv (db.insert record) where
  rowsSaved := by
    intro r hr
    rcases Table.mem_insert.mp hr with hr | rfl
    · exact List.mem_cons_of_mem _ (h.rowsSaved r hr)
    · exact List.mem_cons_self
  unique := by
    intro r hr s hs heq
    rcases Table.mem_insert.mp hr with hr | rfl <;> rcases Table.mem_insert.mp hs with hs | rfl
    · exact h.unique r hr s hs heq
    · exact absurd (heq ▸ h.rowsSaved r hr) hnew
    · exact absurd (heq ▸ h.rowsSaved s hs) hnew
    · rfl
  exchangesSaved := fun x hx => List.mem_cons_of_mem _ (h.exchangesSaved x hx)
  spent := by
    intro x hx r hr htoken
    rcases Table.mem_insert.mp hr with hr | rfl
    · exact h.spent x hx r hr htoken
    · exact absurd (htoken ▸ h.exchangesSaved x hx) hnew
  once := h.once

theorem later_insert {db : Db} {record : RefreshToken} (hnew : record.token ∉ db.saved) : Later db (db.insert record) where
  saved := List.subset_cons_self _ _
  exchanges := rfl
  rows := by
    intro r hr
    rcases Table.mem_insert.mp hr with hr | rfl
    · exact Or.inr ⟨r, hr, rfl, rfl, id⟩
    · exact Or.inl hnew

/-- An exchange of a token that has only revoked rows and was not exchanged before. -/
theorem TokensInv.exchange {db : Db} (h : TokensInv db) {source : RefreshToken} (hsaved : source.token ∈ db.saved)
    (hrevoked : ∀ r ∈ db.refreshTokens.rows, r.token = source.token → r.revoked = true)
    (hnone : db.exchanges.any (·.token == source.token) = false) : TokensInv (db.exchange (some source)) where
  rowsSaved := h.rowsSaved
  unique := h.unique
  exchangesSaved := by
    intro x hx
    rcases List.mem_append.mp hx with hx | hx
    · exact h.exchangesSaved x hx
    · rw [List.mem_singleton.mp hx]
      exact hsaved
  spent := by
    intro x hx r hr htoken
    rcases List.mem_append.mp hx with hx | hx
    · exact h.spent x hx r hr htoken
    · rw [List.mem_singleton.mp hx] at htoken
      exact hrevoked r hr htoken
  once := by
    intro token
    show (db.exchanges ++ [_]).countP _ ≤ 1
    rw [List.countP_append, List.countP_singleton]
    split_ifs with htoken
    · rw [List.countP_eq_zero.mpr fun x hx => ?_]
      rw [List.any_eq_false] at hnone
      rw [← beq_iff_eq.mp htoken]
      exact hnone x hx
    · exact h.once token

/-! ## Steps -/

section
variable {ι : Type} [DecidableEq ι] {db db' : Db} {tr : List (Performed ι Op Op.Reply)}

theorem Knows.later {i : ι} {stage : Stage} (h : Knows db tr i stage) (hlater : Later db db') :
    Knows db' tr i stage := by
  have hid : ∀ {row : RefreshToken}, row.token ∈ db.saved →
      (∀ r ∈ db.refreshTokens.rows, r.token = row.token → r.id = row.id) →
      ∀ r ∈ db'.refreshTokens.rows, r.token = row.token → r.id = row.id := by
    intro row hsaved hrows r' hr' htoken
    rcases hlater.rows r' hr' with hnew | ⟨r, hr, hrid, hrtoken, -⟩
    · exact absurd (htoken ▸ hsaved) hnew
    · rw [← hrid]
      exact hrows r hr (hrtoken.trans htoken)
  have hrevoked : ∀ {row : RefreshToken}, row.token ∈ db.saved →
      (∀ r ∈ db.refreshTokens.rows, r.token = row.token → r.revoked = true) →
      ∀ r ∈ db'.refreshTokens.rows, r.token = row.token → r.revoked = true := by
    intro row hsaved hrows r' hr' htoken
    rcases hlater.rows r' hr' with hnew | ⟨r, hr, -, hrtoken, hkeep⟩
    · exact absurd (htoken ▸ hsaved) hnew
    · exact hkeep (hrows r hr (hrtoken.trans htoken))
  cases stage with
  | found row => exact ⟨hlater.saved h.1, hid h.1 h.2.1, by rw [hlater.exchanges]; exact h.2.2⟩
  | revoked row => exact ⟨hlater.saved h.1, hrevoked h.1 h.2.1, by rw [hlater.exchanges]; exact h.2.2⟩
  | _ => trivial

/-- What a request found stays known while it makes other calls, and when others make theirs. -/
theorem Knows.concat {i : ι} {stage : Stage} (h : Knows db tr i stage) {x : Performed ι Op Op.Reply}
    (hx : looksUp i x = false) : Knows db (tr ++ [x]) i stage := by
  cases stage with
  | found row => exact ⟨h.1, h.2.1, fun hex => any_sinceLast_concat hx (Or.inl (h.2.2 hex))⟩
  | revoked row => exact ⟨h.1, h.2.1, fun hex => any_sinceLast_concat hx (Or.inl (h.2.2 hex))⟩
  | _ => trivial

theorem Knows.exchange {i : ι} {stage : Stage} (h : Knows db tr i stage) {x : Performed ι Op Op.Reply}
    {source : RefreshToken} (hx : looksUp i x = false) (hex : exchanged source.token x = true) :
    Knows (db.exchange (some source)) (tr ++ [x]) i stage := by
  have hsince : ∀ {token}, (db.exchanges.any (·.token == token) = true →
      (sinceLast (looksUp i) tr).any (exchanged token) = true) →
      (db.exchange (some source)).exchanges.any (·.token == token) = true →
      (sinceLast (looksUp i) (tr ++ [x])).any (exchanged token) = true := by
    intro token hold hany
    rw [Db.exchange, List.any_append, Bool.or_eq_true] at hany
    rcases hany with hany | hany
    · exact any_sinceLast_concat hx (Or.inl (hold hany))
    · rw [List.any_cons, List.any_nil, Bool.or_false, beq_iff_eq] at hany
      exact any_sinceLast_concat hx (Or.inr (hany ▸ hex))
  cases stage with
  | found row => exact ⟨h.1, h.2.1, hsince h.2.2⟩
  | revoked row => exact ⟨h.1, h.2.1, hsince h.2.2⟩
  | _ => trivial

/-- The tables are right and every request knows what holds. -/
structure OnceInv (db : Db) (tr : List (Performed ι Op Op.Reply)) (m : ι → Stage) : Prop where
  tokens : TokensInv db
  knows : ∀ i, Knows db tr i (m i)

theorem looksUp_other {i j : ι} (hij : i ≠ j) (p : (op : Op) × op.Reply) : looksUp j (i, p) = false := by
  obtain ⟨op, r⟩ := p
  cases op <;> simp [looksUp, hij]

variable {m : ι → Stage} {i : ι} {ch : Choice}

theorem OnceInv.now (h : OnceInv db tr m) (t : Int) : OnceInv { db with now := t } tr m where
  tokens := ⟨h.tokens.rowsSaved, h.tokens.unique, h.tokens.exchangesSaved, h.tokens.spent, h.tokens.once⟩
  knows := fun j => (h.knows j).later ⟨fun _ hx => hx, rfl, fun r hr => Or.inr ⟨r, hr, rfl, rfl, id⟩⟩

/-- What an action of `i` must do to keep the invariant. -/
theorem OnceInv.act {p : (op : Op) × op.Reply} {stage : Stage} (htokens : TokensInv db')
    (hothers : ∀ j, j ≠ i → Knows db' (tr ++ [(i, p)]) j (m j)) (hself : Knows db' (tr ++ [(i, p)]) i stage) :
    OnceInv db' (tr ++ [(i, p)]) (update m i stage) where
  tokens := htokens
  knows := (Function.forall_update_iff m fun j stage => Knows db' (tr ++ [(i, p)]) j stage).mpr ⟨hself, hothers⟩

theorem OnceInv.keep (h : OnceInv db tr m) {p : (op : Op) × op.Reply} {stage : Stage}
    (hsaved : db'.saved = db.saved) (hexchanges : db'.exchanges = db.exchanges)
    (hold : ∀ r' ∈ db'.refreshTokens.rows, ∃ r ∈ db.refreshTokens.rows, r.id = r'.id ∧ r.token = r'.token ∧
      (r.revoked = true → r'.revoked = true))
    (hself : Knows db' (tr ++ [(i, p)]) i stage) : OnceInv db' (tr ++ [(i, p)]) (update m i stage) := by
  have hlater : Later db db' := ⟨fun x hx => hsaved ▸ hx, hexchanges, fun r' hr' => Or.inr (hold r' hr')⟩
  exact OnceInv.act (h.tokens.later hlater hold)
    (fun j hj => ((h.knows j).later hlater).concat (looksUp_other hj.symm p)) hself

theorem OnceInv.same (h : OnceInv db tr m) {p : (op : Op) × op.Reply} {stage : Stage}
    (hrows : db'.refreshTokens = db.refreshTokens) (hsaved : db'.saved = db.saved)
    (hexchanges : db'.exchanges = db.exchanges) (hself : Knows db' (tr ++ [(i, p)]) i stage) :
    OnceInv db' (tr ++ [(i, p)]) (update m i stage) :=
  h.keep hsaved hexchanges (fun r' hr' => ⟨r', hrows ▸ hr', rfl, rfl, id⟩) hself

theorem step_findToken (h : OnceInv db tr m) {token : Option String} {r : Except String (Option RefreshToken × Int)}
    (hr : execNow ch (.findToken token) db = some (r, db')) :
    ∃ stage, authProtocol.post (m i) (.findToken token) r stage ∧
      OnceInv db' (tr ++ [(i, ⟨.findToken token, r⟩)]) (update m i stage) := by
  obtain ⟨rfl, rfl | rfl⟩ := Outcome.answer_read (Option.some.inj hr)
  · cases hfound : (db'.found token)[ch.pick % (db'.found token).length]? with
    | none => exact ⟨.idle, rfl, h.same rfl rfl rfl trivial⟩
    | some row =>
        obtain ⟨hrow, hcond⟩ := List.mem_filter.mp (List.mem_of_getElem? hfound)
        refine ⟨.found row, rfl, h.same rfl rfl rfl ⟨h.tokens.rowsSaved row hrow, ?_, fun hex => ?_⟩⟩
        · exact fun r hr htoken => h.tokens.unique r hr row hrow htoken
        · -- an exchanged token has no unrevoked row
          obtain ⟨x, hx, htoken⟩ := List.any_eq_true.mp hex
          have hrevoked := h.tokens.spent x hx row hrow (beq_iff_eq.mp htoken).symm
          rw [hrevoked] at hcond
          exact nomatch hcond
  · exact ⟨.idle, rfl, h.same rfl rfl rfl trivial⟩

theorem step_save (h : OnceInv db tr m) {record : RefreshToken} {source : Option RefreshToken}
    (hpre : authProtocol.pre (m i) (.save record source))
    (halone : ∀ row, source = some row → (sinceLast (looksUp i) tr).any (exchanged row.token) = false)
    {r : Except String Unit} (hr : execNow ch (.save record source) db = some (r, db')) :
    OnceInv db' (tr ++ [(i, ⟨.save record source, r⟩)]) (update m i .idle) := by
  unfold execNow at hr
  dsimp only at hr
  split_ifs at hr with hused
  have hnew : record.token ∉ db.saved := by
    rwa [List.contains_iff_mem] at hused
  have hinsert := h.tokens.insert hnew
  have hlater : Later db (db.insert record) := later_insert hnew
  cases hout : ch.outcome with
  | failed =>
      rw [hout] at hr
      obtain ⟨rfl, rfl⟩ := Prod.mk.inj (Option.some.inj hr)
      exact h.same rfl rfl rfl trivial
  | lost =>
      rw [hout] at hr
      obtain ⟨rfl, rfl⟩ := Prod.mk.inj (Option.some.inj hr)
      exact OnceInv.act hinsert (fun j hj => ((h.knows j).later hlater).concat (looksUp_other hj.symm _)) trivial
  | ok =>
      rw [hout] at hr
      obtain ⟨rfl, rfl⟩ := Prod.mk.inj (Option.some.inj hr)
      cases source with
      | none =>
          exact OnceInv.act hinsert (fun j hj => ((h.knows j).later hlater).concat (looksUp_other hj.symm _)) trivial
      | some row =>
          obtain ⟨hsaved, hrevoked, hsince⟩ : Knows (db.insert record) tr i (.revoked row) := by
            have hm : m i = .revoked row := hpre
            exact hm ▸ (h.knows i).later hlater
          have hnone : (db.insert record).exchanges.any (·.token == row.token) = false := by
            apply Bool.eq_false_iff.mpr
            intro hany
            have hnot := halone row rfl
            rw [hsince hany] at hnot
            exact nomatch hnot
          refine OnceInv.act (hinsert.exchange hsaved hrevoked hnone) (fun j hj => ?_) trivial
          exact ((h.knows j).later hlater).exchange (looksUp_other hj.symm _) (by simp [exchanged])

theorem step_revoke (h : OnceInv db tr m) {row : RefreshToken} (hm : m i = .found row) {r : Except String Unit}
    (hr : execNow ch (.revoke row.id) db = some (r, db')) :
    ∃ stage, authProtocol.post (m i) (.revoke row.id) r stage ∧
      OnceInv db' (tr ++ [(i, ⟨.revoke row.id, r⟩)]) (update m i stage) := by
  have hold := later_revoke db fun r => r.id == row.id
  rcases Outcome.answer_cases (Option.some.inj hr) with ⟨rfl, rfl⟩ | ⟨rfl, rfl | rfl⟩
  · obtain ⟨hsaved, hid, hsince⟩ : Knows db tr i (.found row) := hm ▸ h.knows i
    refine ⟨.revoked row, ⟨row, hm, rfl⟩, h.keep rfl rfl hold ?_⟩
    have hrevoked : Knows (db.revoke fun r => r.id == row.id) tr i (.revoked row) := by
      refine ⟨hsaved, fun r' hr' htoken => ?_, hsince⟩
      obtain ⟨r, hr, rfl⟩ := (Table.mem_modify (RefreshToken.key_revoke _ _)).mp hr'
      have htoken' : r.token = row.token := by
        rw [← htoken]
        unfold RefreshToken.revoke
        split_ifs <;> rfl
      rw [RefreshToken.revoke, if_pos (beq_iff_eq.mpr (hid r hr htoken'))]
    exact hrevoked.concat rfl
  · exact ⟨.idle, rfl, h.same rfl rfl rfl trivial⟩
  · exact ⟨.idle, rfl, h.keep rfl rfl hold trivial⟩

theorem onceInv_step {c : Running ι} {op : Op} {k : op.Reply → Request Unit} {r : op.Reply}
    (hI : OnceInv c.world c.trace m) (hG : Alone c (.step i ch)) (hop : c.thread i = .op op k)
    (hpre : authProtocol.pre (m i) op) (hr : exec ch op c.world = some (r, db')) :
    ∃ stage, authProtocol.post (m i) op r stage ∧ OnceInv db' (c.trace ++ [(i, ⟨op, r⟩)]) (update m i stage) := by
  obtain ⟨-, hr⟩ := exec_cases hr
  have h := hI.now ch.now
  cases op with
  | findToken token => exact step_findToken h hr
  | findActiveUser id =>
      obtain ⟨rfl, rfl | rfl⟩ := Outcome.answer_read (Option.some.inj hr)
      · cases hu : List.find? (fun u => u.id == id && u.isActive) ({ c.world with now := ch.now } : Db).users with
        | none => exact ⟨.idle, rfl, h.same rfl rfl rfl trivial⟩
        | some user => exact ⟨m i, rfl, h.same rfl rfl rfl ((h.knows i).concat rfl)⟩
      · exact ⟨.idle, rfl, h.same rfl rfl rfl trivial⟩
  | findOrgUser id organizationId =>
      obtain ⟨rfl, rfl | rfl⟩ := Outcome.answer_read (Option.some.inj hr)
      · cases hu : List.find? (fun u => u.id == id && u.organizationId == organizationId && u.isActive)
            ({ c.world with now := ch.now } : Db).users with
        | none => exact ⟨.idle, rfl, h.same rfl rfl rfl trivial⟩
        | some user => exact ⟨m i, rfl, h.same rfl rfl rfl ((h.knows i).concat rfl)⟩
      · exact ⟨.idle, rfl, h.same rfl rfl rfl trivial⟩
  | fresh =>
      obtain ⟨rfl, rfl⟩ := Prod.mk.inj (Option.some.inj hr)
      exact ⟨m i, rfl, h.same rfl rfl rfl ((h.knows i).concat rfl)⟩
  | clock =>
      obtain ⟨rfl, rfl⟩ := Prod.mk.inj (Option.some.inj hr)
      exact ⟨.idle, rfl, h.same rfl rfl rfl trivial⟩
  | save record source =>
      refine ⟨.idle, ?_, step_save h hpre (fun row hrow => ?_) hr⟩
      · cases r <;> rfl
      · subst hrow
        rwa [Alone, Config.performs_step hop ch] at hG
  | revoke id =>
      obtain ⟨row, hm, rfl⟩ := hpre
      exact step_revoke h hm hr
  | revokeAll userId started =>
      obtain ⟨accessToken, hm⟩ := hpre
      have hold := later_revoke { c.world with now := ch.now } (unrevokedOf userId)
      unfold execNow at hr
      dsimp only at hr
      cases hout : ch.outcome <;> rw [hout] at hr <;> obtain ⟨rfl, rfl⟩ := Prod.mk.inj (Option.some.inj hr)
      · exact ⟨_, ⟨accessToken, hm, rfl⟩, h.keep rfl rfl hold trivial⟩
      · exact ⟨.idle, rfl, h.same rfl rfl rfl trivial⟩
      · exact ⟨.idle, rfl, h.keep rfl rfl hold trivial⟩
  | deleteAll userId =>
      refine ⟨.idle, by cases r <;> rfl, ?_⟩
      rcases Outcome.answer_cases (Option.some.inj hr) with ⟨rfl, rfl⟩ | ⟨rfl, rfl | rfl⟩
      · exact h.keep rfl rfl (fun r' hr' => ⟨r', (Table.mem_remove.mp hr').1, rfl, rfl, id⟩) trivial
      · exact h.same rfl rfl rfl trivial
      · exact h.keep rfl rfl (fun r' hr' => ⟨r', (Table.mem_remove.mp hr').1, rfl, rfl, id⟩) trivial
  | blacklist accessToken ttlSeconds =>
      rcases Outcome.answer_cases (Option.some.inj hr) with ⟨rfl, rfl⟩ | ⟨rfl, rfl | rfl⟩
      · exact ⟨_, rfl, h.same rfl rfl rfl trivial⟩
      · exact ⟨.idle, rfl, h.same rfl rfl rfl trivial⟩
      · exact ⟨.idle, rfl, h.same rfl rfl rfl trivial⟩
  | exists_ accessToken =>
      rcases Outcome.answer_cases (Option.some.inj hr) with ⟨rfl, rfl⟩ | ⟨rfl, rfl | rfl⟩
      · cases hlisted : (({ c.world with now := ch.now } : Db).blacklist.get ch.now accessToken).isSome with
        | true => exact ⟨.idle, rfl, h.same rfl rfl rfl trivial⟩
        | false => exact ⟨_, rfl, h.same rfl rfl rfl trivial⟩
      · exact ⟨.idle, rfl, h.same rfl rfl rfl trivial⟩
      · exact ⟨.idle, rfl, h.same rfl rfl rfl trivial⟩
  | loggedOut logout =>
      obtain ⟨rfl, rfl⟩ := Prod.mk.inj (Option.some.inj hr)
      exact ⟨.idle, rfl, h.same rfl rfl rfl trivial⟩
  | accept accessToken =>
      obtain ⟨rfl, rfl⟩ := Prod.mk.inj (Option.some.inj hr)
      exact ⟨.idle, rfl, h.same rfl rfl rfl trivial⟩

/-- **If every exchange is alone, each refresh token is exchanged at most once.** -/
theorem exchangedOnce {expiresIn : Int} {users : List User} {c : Running ι}
    (h : Reaches (service expiresIn) Alone (Config.start (Db.start users)) c) : ExchangedOnce c.world := by
  have hinv : ∃ m, OnceInv c.world c.trace m ∧ ∀ i, Follows authProtocol (fun _ _ => True) (m i) (c.thread i) := by
    refine Reaches.inv (P := authProtocol) (F := fun _ => True) OnceInv ?_ ?_ ?_ h
    · refine ⟨fun _ => .idle, ⟨⟨?_, ?_, ?_, ?_, fun _ => Nat.zero_le _⟩, fun _ => trivial⟩, fun _ => trivial⟩
      · exact fun _ hr => absurd hr List.not_mem_nil
      · exact fun _ hr => absurd hr List.not_mem_nil
      · exact fun _ hx => absurd hx List.not_mem_nil
      · exact fun _ hx => absurd hx List.not_mem_nil
    · intro c m i call db hI _ _ hdb
      have hsame : OnceInv db c.trace m := by
        cases call with
        | setUsers users =>
            obtain rfl := Option.some.inj hdb
            exact ⟨⟨hI.tokens.rowsSaved, hI.tokens.unique, hI.tokens.exchangesSaved, hI.tokens.spent, hI.tokens.once⟩,
              fun j => (hI.knows j).later ⟨fun _ hx => hx, rfl, fun r hr => Or.inr ⟨r, hr, rfl, rfl, id⟩⟩⟩
        | _ =>
            obtain rfl := Option.some.inj hdb
            exact hI
      exact ⟨.idle, ⟨hsame.tokens, (Function.forall_update_iff m fun j stage => Knows db c.trace j stage).mpr
        ⟨trivial, fun j _ => hsame.knows j⟩⟩, follows_body expiresIn call⟩
    · intro c m i ch op k r db hI hG hop hpre hr
      exact onceInv_step hI hG hop hpre hr
  obtain ⟨m, hI, -⟩ := hinv
  exact hI.tokens.once

/-! ### Two refreshes with one token -/

section Race

def alice : User := ⟨"u", "o", "admin", "a@x", "A", "B", true⟩

/-- Fifteen minutes. -/
def fifteenMinutes : Int := 900000

/-- Every call answers. -/
def answers (now : Int) (random : String) : Choice := ⟨.ok, now, 0, random⟩

/-- Alice signs in, and two requests present her refresh token. -/
def presented : List (Act Nat Choice Call) :=
  [.call 0 (.signIn alice), .step 0 (answers 0 "r0"), .step 0 (answers 0 "r0"),
    .call 1 (.refreshTokens (some "r0")), .call 2 (.refreshTokens (some "r0"))]

/-- A refresh on its own, from its first call to its last. -/
def refreshAlone (i : Nat) (now : Int) (random : String) : List (Act Nat Choice Call) :=
  List.replicate 5 (.step i (answers now random))

theorem exchangedOnce_in_turn : ExchangedOnce ((service fifteenMinutes).endOf (Config.start (Db.start [alice]))
    (presented ++ refreshAlone 1 1 "r1" ++ [.step 2 (answers 2 "r2")])).world :=
  exchangedOnce (reaches_endOf (by decide +kernel) (by decide +kernel))

/-- Both find the row before either revokes it: both get a pair. -/
theorem not_exchangedOnce_together : ¬ ∀ c : Running Nat,
    Reaches (service fifteenMinutes) (fun _ _ => True) (Config.start (Db.start [alice])) c → ExchangedOnce c.world := by
  intro h
  let race : List (Act Nat Choice Call) := presented ++ [.step 1 (answers 1 "r1")] ++ refreshAlone 2 1 "r2" ++
    List.replicate 4 (.step 1 (answers 1 "r1"))
  have hone := h _ (reaches_endOf (System.allowed_true _ _ race) (by decide +kernel)) "r0"
  exact absurd hone (by decide +kernel)

end Race

end

end TimeChamp.Auth
