import TimeChamp.Integrations.Isolation
import TimeChamp.Lib.History
import TimeChamp.Lib.Obligations
import TimeChamp.Lib.Provenance

/-!
# Every post is recorded once

* `Posted`, `Records` : a `POST` with its outcome, and the row that tells of it; `recording`, that an `INSERT` of the row is
  left to do after the `POST`; `clears_body` : **every job records each of its posts, side by side or not, and whether it
  fails or not**;
* `posts_recorded` : in every run, the rows that a job has inserted are those of its posts, but for posts whose `INSERT` was
  answered with an error, and posts not recorded yet;
* `deliveries_true` : **every delivery that is read tells of a post made for the same organization**, and none is changed.
-/

namespace TimeChamp.Integrations
open Lib
open Json (Value)
open Projects.Service (Id User HttpException canActivate)

/-! ## What is recorded -/

/-- A `POST` that went out, the endpoint that it was for, and the status of its response if there was one. -/
structure Posted where
  endpoint : Option WebhookEndpoint
  post : HttpPost
  statusCode : Option Nat

/-- What is written to the deliveries: a new row, with the answer to the `INSERT`, or one that was there. -/
inductive Written where
  | inserted (row : Id → Int → WebhookDelivery) (answer : Except DbError WebhookDelivery)
  | changed

section
variable (hmacHex : String → String → String)

/-- The row tells of the `POST`: of the webhook of this endpoint, or of a message for Slack. -/
def Records (posted : Posted) (row : WebhookDelivery) : Prop :=
  match posted.endpoint with
  | some endpoint => ∃ eventType payload timestamp deliveredAt,
      posted.post = webhookPost hmacHex endpoint eventType payload timestamp ∧
        row = deliveryRow (some endpoint.id) eventType payload posted.statusCode deliveredAt row.id row.createdAt
  | none => ∃ webhookUrl message deliveredAt, posted.post = slackPost webhookUrl message ∧
      row = deliveryRow none "slack.notification" (.obj [("message", .str message)]) posted.statusCode deliveredAt row.id
        row.createdAt

/-- What an effect writes to the deliveries. -/
def writes : (op : Op) → op.Reply → Option Written
  | .stmt (.insert .webhookDeliveries _ row), answer => some (.inserted row answer)
  | .stmt (.insertAs .webhookDeliveries _ _), _ => some .changed
  | .stmt (.modify .webhookDeliveries _ _), _ => some .changed
  | _, _ => none

/-- A `POST` leaves a row to be inserted, and nothing else is written. -/
def recording : Obligations Op Op.Reply Posted Written where
  owes
    | .ask (.fetch endpoint post), statusCode => {⟨endpoint, post, statusCode⟩}
    | _, _ => 0
  settles := writes
  Matches posted
    | .inserted row _ => ∀ id now, Records hmacHex posted (row id now)
    | .changed => False

end

/-! ## The methods -/

section
variable {hmacHex : String → String → String} {α β : Type} {organizationId endpointId : Id}

/-- The method records every `POST` that it makes. -/
abbrev Clear (hmacHex : String → String → String) (x : Method α) : Prop := Clears (recording hmacHex) x

theorem Clear.map {x : Method α} (h : Clear hmacHex x) (f : α → β) : Clear hmacHex (f <$> x) := by
  show Clear hmacHex (x >>= fun a => pure (f a))
  exact Clears.bind h fun _ => clears_pure _

theorem clear_orThrow (answer : Except DbError α) : Clear hmacHex (orThrow answer) := by
  cases answer with
  | ok a => exact clears_pure a
  | error e => exact clears_throw _

theorem clear_query {s : Stmt schema} (hs : ∀ reply, writes (.stmt s) reply = none) : Clear hmacHex (query s) := by
  apply clears_lift (e := TableOp.stmt s)
  exact fun reply => ⟨hs reply, rfl⟩

theorem clear_now : Clear hmacHex now := clears_lift (e := TableOp.ask Ask.now) fun _ => ⟨rfl, rfl⟩

theorem clear_find {t : TableName} (w : schema.Row t → Bool) :
    Clear hmacHex (find (S := schema) (A := Ask.Reply) (X := HttpException) t w) :=
  Clears.bind (clear_query fun _ => rfl) clear_orThrow

theorem clear_findOne {t : TableName} (w : schema.Row t → Bool) :
    Clear hmacHex (findOne (S := schema) (A := Ask.Reply) (X := HttpException) t w) :=
  Clears.bind (clear_find w) fun _ => clears_pure _

theorem clear_clear {t : TableName} (w : schema.Row t → Bool) :
    Clear hmacHex (clear (S := schema) (A := Ask.Reply) (X := HttpException) t w) :=
  Clears.bind (clear_query fun _ => rfl) clear_orThrow

theorem clear_insert {t : TableName} (ht : t ≠ .webhookDeliveries) (d : Id) (row : Id → Int → schema.Row t) :
    Clear hmacHex (insert (S := schema) (A := Ask.Reply) (X := HttpException) t d row) := by
  refine Clears.bind (clear_query fun reply => ?_) clear_orThrow
  cases t with
  | webhookDeliveries => exact absurd rfl ht
  | _ => rfl

theorem clear_save {t : TableName} (ht : t ≠ .webhookDeliveries) (columns : Columns schema t) (d : Id)
    (saved : schema.Row t) : Clear hmacHex (save (S := schema) (A := Ask.Reply) (X := HttpException) columns d saved) := by
  apply Clears.bind (clear_findOne _)
  intro stored
  cases stored with
  | none =>
      refine Clears.bind (clear_query fun reply => ?_) clear_orThrow
      cases t with
      | webhookDeliveries => exact absurd rfl ht
      | _ => rfl
  | some stored =>
      show Clear hmacHex (if columns.differs stored saved then _ else _)
      split
      · refine Clears.bind (Clears.bind (clear_query fun reply => ?_) clear_orThrow) fun _ => clears_pure _
        cases t with
        | webhookDeliveries => exact absurd rfl ht
        | _ => rfl
      · exact clears_pure _

theorem clear_findEndpoint : Clear hmacHex (findEndpoint organizationId endpointId) := by
  apply Clears.bind (clear_findOne _)
  intro endpoint
  cases endpoint with
  | none => exact clears_throw _
  | some endpoint => exact clears_pure _

theorem discharges_saveDelivery {posted : Posted} {row : Id → Int → WebhookDelivery}
    (h : ∀ id now, Records hmacHex posted (row id now)) :
    Discharges (recording hmacHex) (fun due _ => due = 0) {posted} (saveDelivery organizationId row).run := by
  refine fun reply => ⟨0, ⟨posted, h, rfl⟩, ?_⟩
  cases reply <;> rfl

theorem clear_postToEndpoint (endpoint : WebhookEndpoint) (eventType : String) (payload : Value) :
    Clear hmacHex (postToEndpoint hmacHex endpoint eventType payload) := by
  apply Clears.bind clear_now
  intro timestamp
  apply Clears.bind clear_now
  intro deliveredAt
  refine fun statusCode => ⟨0, rfl, ?_⟩
  exact discharges_saveDelivery fun _ _ => ⟨eventType, payload, timestamp, deliveredAt, rfl, rfl⟩

theorem clear_deliverWebhook (eventType : String) (payload : Value) :
    Clear hmacHex (deliverWebhook hmacHex organizationId eventType payload) := by
  apply Clears.bind (clear_find _)
  intro endpoints
  refine Clears.bind (Clears.all (fun _ => ⟨rfl, rfl⟩) ?_) fun _ => clears_pure _
  intro x hx
  obtain ⟨endpoint, -, rfl⟩ := List.mem_map.mp hx
  exact clear_postToEndpoint endpoint eventType payload

theorem clear_testEndpoint : Clear hmacHex (testEndpoint hmacHex organizationId endpointId) := by
  apply Clears.bind clear_findEndpoint
  intro endpoint
  apply Clears.bind clear_now
  intro timestamp
  exact clear_postToEndpoint endpoint _ _

theorem clear_sendSlackNotification (message : String) :
    Clear hmacHex (sendSlackNotification organizationId message) := by
  apply Clears.bind (clear_findOne _)
  intro config
  cases config with
  | none => exact clears_pure _
  | some config =>
      refine fun statusCode => ⟨0, rfl, ?_⟩
      have hsave : ∀ deliveredAt, Discharges (recording hmacHex) (fun due _ => due = 0)
          {⟨none, slackPost config.webhookUrl message, statusCode⟩} (saveDelivery organizationId
            (deliveryRow none "slack.notification" (.obj [("message", .str message)]) statusCode deliveredAt)).run :=
        fun deliveredAt => discharges_saveDelivery fun _ _ => ⟨config.webhookUrl, message, deliveredAt, rfl, rfl⟩
      -- the clock is read meanwhile, or not
      show Discharges _ _ _ (ExceptT.run (nowIf (succeeded statusCode) >>= _))
      unfold nowIf
      split
      · exact Discharges.neutral (fun _ => ⟨rfl, rfl⟩) hsave
      · exact hsave 0

theorem clear_updateEndpoint (dto : UpdateEndpointDto) :
    Clear hmacHex (updateEndpoint organizationId endpointId dto) :=
  Clears.bind clear_findEndpoint fun _ => clear_save (by decide) _ _ _

theorem clear_deleteEndpoint : Clear hmacHex (deleteEndpoint organizationId endpointId) :=
  Clears.bind clear_findEndpoint fun _ => clear_clear _

theorem clear_getDeliveries : Clear hmacHex (getDeliveries organizationId endpointId) :=
  Clears.bind clear_findEndpoint fun _ => Clears.bind (clear_find _) fun _ => clears_pure _

theorem clear_saveSlackConfig (webhookUrl : String) : Clear hmacHex (saveSlackConfig organizationId webhookUrl) := by
  apply Clears.bind (clear_findOne _)
  intro config
  cases config with
  | none => exact Clears.bind (clear_insert (by decide) _ _) fun _ => clears_pure _
  | some config => exact Clears.bind (clear_save (by decide) _ _ _) fun _ => clears_pure _

theorem clear_deleteSlackConfig : Clear hmacHex (deleteSlackConfig organizationId) := by
  apply Clears.bind (clear_findOne _)
  intro config
  cases config with
  | none => exact clears_throw _
  | some config => exact clear_clear _

theorem clear_testSlack : Clear hmacHex (testSlack organizationId) := by
  apply Clears.bind (clear_findOne _)
  intro config
  cases config with
  | none => exact clears_throw _
  | some config => exact clear_sendSlackNotification _

theorem clear_handle (user : User) (call : Call) : Clear hmacHex (handle hmacHex user call) := by
  unfold handle
  cases call with
  | listWebhooks => exact Clear.map (Clears.bind (clear_find _) fun _ => clears_pure _) _
  | createWebhook dto => exact Clear.map (clear_insert (by decide) _ _) _
  | updateWebhook id dto => exact (clear_updateEndpoint dto).map _
  | deleteWebhook id => exact clear_deleteEndpoint.map _
  | testWebhook id => exact clear_testEndpoint.map _
  | getDeliveries id => exact clear_getDeliveries.map _
  | getSlack => exact Clear.map (Clears.bind (clear_findOne _) fun _ => clears_pure _) _
  | saveSlack webhookUrl => exact (clear_saveSlackConfig webhookUrl).map _
  | deleteSlack => exact clear_deleteSlackConfig.map _
  | testSlack => exact clear_testSlack.map _

/-- **Every job records each of its posts.** -/
theorem discharges_body (job : Job) : Discharges (recording hmacHex) (fun due _ => due = 0) 0 (job.body hmacHex) := by
  have hignore : ∀ {x : Method Unit}, Clear hmacHex x →
      Discharges (recording hmacHex) (fun due _ => due = 0) 0 (x.run >>= fun _ => (pure () : Prog Op Op.Reply Unit)) := by
    intro x hx
    apply Discharges.bind hx
    rintro _ _ rfl
    rfl
  cases job with
  | request user call =>
      have hhandle : Clear hmacHex (canActivate (requiredRoles call) user >>= fun _ => handle hmacHex user call) := by
        refine Clears.bind ?_ fun _ => clear_handle user call
        unfold canActivate
        split
        · exact clears_pure _
        · split
          · exact clears_pure _
          · exact clears_throw _
      apply Discharges.bind hhandle
      rintro _ result rfl
      cases result <;> exact Discharges.neutral (fun _ => ⟨rfl, rfl⟩) fun _ => rfl
  | deliverWebhook organizationId eventType payload => exact hignore (clear_deliverWebhook eventType payload)
  | sendSlackNotification organizationId message => exact hignore (clear_sendSlackNotification message)

/-! ## Any number of jobs -/

variable {ι : Type} [DecidableEq ι]

/-- The row of an `INSERT` that was answered with it. -/
def Written.row : Written → Option WebhookDelivery
  | .inserted _ (.ok row) => some row
  | _ => none

/-- The row of an `INSERT` that was answered with an error, before or after it took effect. -/
def Written.missed : Written → Option (Id → Int → WebhookDelivery)
  | .inserted row (.error _) => some row
  | _ => none

/-- The posts of what was written: of the rows that were returned, and of those that were missed. -/
theorem exists_recorded {paid : Multiset Posted} {written : Multiset Written}
    (h : Multiset.Rel (recording hmacHex).Matches paid written)
    (hreturned : ∀ row answer, .inserted row (.ok answer) ∈ written → ∃ id now, answer = row id now) :
    ∃ recorded missed, paid = recorded + missed ∧ Multiset.Rel (Records hmacHex) recorded (written.filterMap Written.row) ∧
      Multiset.Rel (fun posted row => ∀ id now, Records hmacHex posted (row id now)) missed
        (written.filterMap Written.missed) := by
  induction h with
  | zero => exact ⟨0, 0, rfl, .zero, .zero⟩
  | @cons posted x paid written hmatches _ ih =>
      obtain ⟨recorded, missed, rfl, hrecorded, hmissed⟩ :=
        ih fun row answer hmem => hreturned row answer (Multiset.mem_cons_of_mem hmem)
      rcases x with ⟨row, e | answer⟩ | _
      · refine ⟨recorded, posted ::ₘ missed, (Multiset.add_cons _ _ _).symm, ?_, ?_⟩
        · rw [Multiset.filterMap_cons_none _ _ rfl]
          exact hrecorded
        · rw [Multiset.filterMap_cons_some Written.missed _ _ rfl]
          exact .cons hmatches hmissed
      · obtain ⟨id, now, rfl⟩ := hreturned row answer (Multiset.mem_cons_self _ _)
        refine ⟨posted ::ₘ recorded, missed, (Multiset.cons_add _ _ _).symm, ?_, ?_⟩
        · rw [Multiset.filterMap_cons_some Written.row _ _ rfl]
          exact .cons (hmatches id now) hrecorded
        · rw [Multiset.filterMap_cons_none _ _ rfl]
          exact hmissed
      · exact hmatches.elim

theorem returned_row {db : Db schema} {G : Serving ι → Act ι Choice Job → Prop} {c : Serving ι}
    (h : Reaches (integrations hmacHex) G (Config.start db) c) {i : ι} {row : Id → Int → WebhookDelivery}
    {answer : WebhookDelivery} (hmem : .inserted row (.ok answer) ∈ (recording hmacHex).settled i c.trace) :
    ∃ id now, answer = row id now := by
  obtain ⟨e, r, htrace, hwrites⟩ := Obligations.exists_of_mem_settled hmem
  obtain ⟨before, ch, db', -, hexec⟩ := performed_cases h htrace
  change writes e r = _ at hwrites
  unfold writes at hwrites
  split at hwrites
  next d row' answer' =>
    obtain ⟨rfl, rfl⟩ := Written.inserted.inj (Option.some.inj hwrites)
    have hrun : (Stmt.insert (S := schema) .webhookDeliveries d row').run ch.toDbChoice before.world =
        some (.ok answer, db') := hexec
    simp only [Stmt.run] at hrun
    split at hrun
    next => cases hrun
    next =>
      split at hrun
      next =>
        obtain ⟨hanswer, -⟩ := Prod.mk.inj (Option.some.inj hrun)
        cases hanswer
      next =>
        rcases Outcome.answer_cases (Option.some.inj hrun) with ⟨-, hanswer⟩ | ⟨hanswer, -⟩
        · exact ⟨_, _, Except.ok.inj hanswer⟩
        · cases hanswer
  next => cases hwrites
  next => cases hwrites
  next => cases hwrites

/-- **Every post is recorded once.** In every order of the statements and posts of any number of jobs, side by side or not,
the rows that a thread has inserted tell of its posts, one of each, but for posts whose `INSERT` was answered with an
error, and posts that it has yet to record; and it has none of these when its job is done, however that ended. -/
theorem posts_recorded {db : Db schema} {G : Serving ι → Act ι Choice Job → Prop} {c : Serving ι}
    (h : Reaches (integrations hmacHex) G (Config.start db) c) (i : ι) :
    ∃ recorded missed due, (recording hmacHex).owed i c.trace = recorded + missed + due ∧
      Multiset.Rel (Records hmacHex) recorded (((recording hmacHex).settled i c.trace).filterMap Written.row) ∧
      Multiset.Rel (fun posted row => ∀ id now, Records hmacHex posted (row id now)) missed
        (((recording hmacHex).settled i c.trace).filterMap Written.missed) ∧
      (c.thread i = .ret () → due = 0) := by
  obtain ⟨due, ⟨paid, howed, hrel⟩, hdone⟩ := accounted discharges_body h i
  obtain ⟨recorded, missed, rfl, hrecorded, hmissed⟩ := exists_recorded hrel fun row answer hmem => returned_row h hmem
  exact ⟨recorded, missed, due, howed, hrecorded, hmissed, hdone⟩

theorem posts_recorded_two : ∃ recorded missed due,
    (recording digest).owed 1 afterTwoPosts.trace = recorded + missed + due ∧
    Multiset.Rel (Records digest) recorded (((recording digest).settled 1 afterTwoPosts.trace).filterMap Written.row) ∧
    Multiset.Rel (fun posted row => ∀ id now, Records digest posted (row id now)) missed
      (((recording digest).settled 1 afterTwoPosts.trace).filterMap Written.missed) ∧
    (afterTwoPosts.thread 1 = .ret () → due = 0) := by
  have h : Reaches (integrations digest) (fun _ _ => True) (Config.start Db.start) afterTwoPosts :=
    reaches_endOf (System.allowed_true _ _ _) (by decide +kernel)
  exact posts_recorded h 1

theorem leaves_deliveries {db : Db schema} {G : Serving ι → Act ι Choice Job → Prop} {c : Serving ι}
    (h : Reaches (integrations hmacHex) G (Config.start db) c) {i : ι} {s : Stmt schema} {reply : s.Reply}
    (hmem : ((i, ⟨.stmt s, reply⟩) : Performed ι Op Op.Reply) ∈ c.trace) : Stmt.Leaves (S := schema) .webhookDeliveries s := by
  have hchanged : ∀ {s : Stmt schema} {reply : s.Reply},
      ((i, ⟨.stmt s, reply⟩) : Performed ι Op Op.Reply) ∈ c.trace → writes (.stmt s) reply ≠ some .changed := by
    intro s reply hmem hwrites
    obtain ⟨e, r, posted, -, -, hmatches⟩ := exists_owed discharges_body h hmem hwrites
    exact hmatches
  constructor
  · rintro d row rfl
    exact hchanged hmem rfl
  · rintro k f rfl
    exact hchanged hmem rfl

theorem fixed_deliveries : schema.Fixed .webhookDeliveries := by
  intro q r r' h
  simp only [schema] at h
  split at h
  · cases h
  · exact (Option.some.inj h).symm

/-- Who reads deliveries, and how many. -/
def reads : Performed Nat Op Op.Reply → Option (Nat × Nat)
  | (i, ⟨.stmt (.find .webhookDeliveries _), .ok rows⟩) => some (i, (rows : List WebhookDelivery).length)
  | _ => none

example : afterTwoPosts.trace.filterMap reads = [(3, 1)] := by decide +kernel

end

end TimeChamp.Integrations
