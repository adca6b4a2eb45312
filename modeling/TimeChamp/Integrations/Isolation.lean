import TimeChamp.Integrations.Service
import TimeChamp.Lib.Ownership

/-!
# The webhooks of an organization are its own

A delivery has no column for the organization; it is told by its endpoint, which is looked for by the organization first.

* `schema_lawful`, `shallow` : no constraint ties the rows of two organizations together;
* `follows_body` : **every job keeps to the rows of its organization**;
* `webhooks_isolated` : what the jobs of an organization are answered and post is what it is without other organizations.
-/

namespace TimeChamp.Integrations
open Lib
open Json (Value)
open Projects.Service (Id User HttpException canActivate)

/-! ## The schema -/

theorem schema_lawful : schema.Lawful where
  clash {t r r'} h := by
    cases t with
    | webhookEndpoints | webhookDeliveries => cases h
    | slackIntegrations => exact ⟨_, rfl, congrArg some (of_decide_eq_true h).symm⟩
  onDelete_keeps {q t r r'} h := by
    cases t with
    | webhookEndpoints | slackIntegrations =>
        obtain rfl := Option.some.inj h
        exact ⟨rfl, rfl, List.Subset.refl _, List.not_mem_nil⟩
    | webhookDeliveries =>
        simp only [schema] at h
        split at h
        next => cases h
        next hq =>
          obtain rfl := Option.some.inj h
          refine ⟨rfl, rfl, List.Subset.refl _, fun hmem => hq ?_⟩
          obtain ⟨id, hid, rfl⟩ := List.mem_map.mp hmem
          exact (Option.any_eq_true _ _).mpr ⟨id, Option.mem_toList.mp hid, decide_eq_true rfl⟩
  onDelete_other {q t r} h := by
    cases t with
    | webhookEndpoints | slackIntegrations => rfl
    | webhookDeliveries =>
        refine if_neg fun hq => h ?_
        obtain ⟨id, hid, heq⟩ := (Option.any_eq_true _ _).mp hq
        exact List.mem_map.mpr ⟨id, Option.mem_toList.mpr hid, (of_decide_eq_true heq).symm⟩

/-- Nothing refers to what goes with a row: that is a delivery. -/
theorem shallow (t : TableName) : schema.Shallow t := by
  intro k t' r h k' t'' r' hmem
  cases t' with
  | webhookEndpoints | slackIntegrations => cases h
  | webhookDeliveries =>
      cases t'' with
      | webhookEndpoints | slackIntegrations => exact absurd hmem List.not_mem_nil
      | webhookDeliveries =>
          obtain ⟨id, -, heq⟩ := List.mem_map.mp hmem
          cases heq

/-! ## The methods -/

abbrev Knows := Known schema

/-- The method keeps to the rows of its organization. -/
abbrev Stays {α : Type} (m : Knows) (x : Method α) : Prop := Guarantees owning (fun _ _ => True) m x

variable {m : Knows} {organizationId endpointId : Id}

theorem Stays.map {α β : Type} {x : Method α} (h : Stays m x) (f : α → β) : Stays m (f <$> x) := by
  show Stays m (x >>= fun a => pure (f a))
  exact Guarantees.bind h fun _ _ _ => guarantees_pure trivial

/-- A method that starts with what is asked of the outside. -/
theorem stays_ask {α : Type} {l : Ask} {f : l.Reply → Method α} (h : ∀ r, Stays m (f r)) :
    Stays m (ask (S := schema) (A := Ask.Reply) l >>= f) := by
  apply Guarantees.bind (guarantees_ask (Q := fun m' _ => m' = m) fun _ => rfl)
  rintro _ r rfl
  exact h r

theorem guarantees_findEndpoint : Guarantees owning
    (fun m' e => m ≤ m' ∧ WebhookEndpoint.id e = endpointId ∧ m'.Holds .webhookEndpoints e) m
      (findEndpoint m.owner endpointId) := by
  refine Guarantees.bind (guarantees_findOne_owned ?_) ?_
  · intro e he
    simp only [Bool.and_eq_true, decide_eq_true_eq] at he
    exact congrArg some he.2
  · rintro m' e ⟨hm, he⟩
    cases e with
    | none => exact guarantees_throw _
    | some endpoint =>
        obtain ⟨hw, hholds⟩ := he endpoint rfl
        simp only [Bool.and_eq_true, decide_eq_true_eq] at hw
        exact guarantees_pure ⟨hm, hw.1, hholds⟩

theorem stays_findEndpoint {α : Type} {f : WebhookEndpoint → Method α}
    (h : ∀ m' endpoint, m ≤ m' → endpoint.id = endpointId → m'.Holds .webhookEndpoints endpoint → Stays m' (f endpoint)) :
    Stays m (findEndpoint m.owner endpointId >>= f) := by
  apply Guarantees.bind guarantees_findEndpoint
  rintro m' endpoint ⟨hm, hid, hholds⟩
  exact h m' endpoint hm hid hholds

theorem guarantees_findSlack :
    Guarantees owning (fun m' s => m ≤ m' ∧ ∀ s' ∈ s, m'.Holds .slackIntegrations s') m (findSlack m.owner) := by
  refine Guarantees.mono (guarantees_findOne_owned fun s hs => congrArg some (of_decide_eq_true hs)) ?_
  rintro m' s ⟨hm, hs⟩
  exact ⟨hm, fun s' hs' => (hs s' hs').2⟩

theorem stays_findSlack {α : Type} {f : Option SlackIntegration → Method α} (hnone : ∀ m', m ≤ m' → Stays m' (f none))
    (hsome : ∀ m' config, m ≤ m' → m'.Holds .slackIntegrations config → Stays m' (f (some config))) :
    Stays m (findSlack m.owner >>= f) := by
  apply Guarantees.bind guarantees_findSlack
  rintro m' s ⟨hm, hs⟩
  cases s with
  | none => exact hnone m' hm
  | some config => exact hsome m' config hm (hs config rfl)

/-! ### Endpoints -/

theorem stays_listEndpoints : Stays m (listEndpoints m.owner) := by
  refine Guarantees.bind (Q := fun _ _ => True) (guarantees_find ?_ fun _ _ => trivial) fun _ _ _ => guarantees_pure trivial
  exact fun e he => Or.inl (congrArg some (of_decide_eq_true he))

theorem stays_createEndpoint (dto : CreateEndpointDto) : Stays m (createEndpoint m.owner dto) := by
  refine guarantees_insert ⟨rfl, fun k now => ⟨rfl, ?_, List.nil_subset _⟩⟩ fun _ _ => trivial
  exact fun d hd => (Option.some.inj hd).symm

theorem stays_updateEndpoint (dto : UpdateEndpointDto) : Stays m (updateEndpoint m.owner endpointId dto) := by
  apply stays_findEndpoint
  intro m' endpoint hm _ hholds
  rw [hm.1]
  have hcolumns : ∀ stored saved, Keeps (S := schema) .webhookEndpoints (endpointColumns.write stored saved) :=
    fun _ _ _ _ => ⟨rfl, rfl, rfl⟩
  exact guarantees_save (fun stored => hcolumns stored _) ⟨⟨hholds.owner, hholds.refs⟩, hholds.key⟩

theorem stays_deleteEndpoint : Stays m (deleteEndpoint m.owner endpointId) := by
  apply stays_findEndpoint
  intro m' endpoint hm _ _
  rw [hm.1]
  apply guarantees_clear _ (shallow _)
  intro e he
  simp only [Bool.and_eq_true, decide_eq_true_eq] at he
  exact Or.inl (congrArg some he.2)

theorem stays_getDeliveries : Stays m (getDeliveries m.owner endpointId) := by
  apply stays_findEndpoint
  rintro m' endpoint hm rfl hholds
  refine Guarantees.bind (Q := fun _ _ => True) (guarantees_find ?_ fun _ _ => trivial) fun _ _ _ => guarantees_pure trivial
  intro d hd
  have hendpoint : WebhookDelivery.endpointId d = some endpoint.id := of_decide_eq_true hd
  refine Or.inr (Or.inr ⟨(.webhookEndpoints, endpoint.id), ?_, hholds.key⟩)
  show _ ∈ (WebhookDelivery.endpointId d).toList.map _
  rw [hendpoint]
  exact List.mem_singleton.mpr rfl

/-! ### Delivery -/

section
variable {hmacHex : String → String → String}

theorem stays_saveDelivery {organizationId : Id} {endpoint : Option Id} (howner : organizationId = m.owner)
    (hendpoint : ∀ id ∈ endpoint, ((.webhookEndpoints, id) : schema.Table × Id) ∈ m.keys) (eventType : String)
    (payload : Value) (statusCode : Option Nat) (deliveredAt : Int) :
    Stays m (saveDelivery organizationId (deliveryRow endpoint eventType payload statusCode deliveredAt)) := by
  subst howner
  refine Guarantees.bind (Q := fun _ _ => True) (guarantees_insert ⟨rfl, fun k now => ⟨rfl, ?_, ?_⟩⟩ fun _ _ => trivial)
    fun _ _ _ => guarantees_pure trivial
  · exact fun d hd => absurd hd (Option.not_mem_none d)
  · intro q hq
    obtain ⟨id, hid, rfl⟩ := List.mem_map.mp hq
    exact hendpoint id (Option.mem_toList.mp hid)

theorem stays_postToEndpoint {endpoint : WebhookEndpoint} (h : m.Holds .webhookEndpoints endpoint) (eventType : String)
    (payload : Value) : Stays m (postToEndpoint hmacHex endpoint eventType payload) := by
  apply stays_ask
  intro timestamp
  apply stays_ask
  intro deliveredAt
  apply stays_ask
  intro statusCode
  apply stays_saveDelivery (h.owner _ rfl)
  rintro _ ⟨⟩
  exact h.key

theorem stays_deliverWebhook (eventType : String) (payload : Value) :
    Stays m (deliverWebhook hmacHex m.owner eventType payload) := by
  refine Guarantees.bind (Q := fun m' rows => ∀ e ∈ rows, m'.Holds .webhookEndpoints e) (guarantees_find ?_ ?_) ?_
  · intro e he
    simp only [Bool.and_eq_true, decide_eq_true_eq] at he
    exact Or.inl (congrArg some he.1)
  · intro rows hrows e he
    have hw := hrows e he
    simp only [Bool.and_eq_true, decide_eq_true_eq] at hw
    refine ⟨⟨fun d hd => ?_, Known.refs_subset_learn he⟩, Known.key_mem_learn he⟩
    exact (Option.some.inj hd).symm.trans hw.1
  · intro m' rows hrows
    have hturn : ∀ m : Knows, (owning (A := Ask.Reply)).pre m .turn := fun _ => trivial
    have hall : Guarantees owning (fun m'' as => List.Forall₂ (fun (_ : WebhookEndpoint) (_ : Unit) => True)
        (rows.filter (subscribes eventType)) as) m' (Throwing.all (E := Op) .turn id
          ((rows.filter (subscribes eventType)).map fun endpoint => postToEndpoint hmacHex endpoint eventType payload)) := by
      refine Guarantees.all owning_monotone hturn (Q := fun _ _ _ => True) (fun _ _ _ _ _ _ => trivial) ?_
      intro endpoint hendpoint
      exact stays_postToEndpoint (hrows endpoint (List.mem_filter.mp hendpoint).1) eventType payload
    exact hall.bind fun _ _ _ => guarantees_pure trivial

theorem stays_testEndpoint : Stays m (testEndpoint hmacHex m.owner endpointId) := by
  apply stays_findEndpoint
  intro m' endpoint _ _ hholds
  apply stays_ask
  intro timestamp
  exact stays_postToEndpoint hholds _ _

/-! ### Slack -/

theorem stays_getSlackConfig : Stays m (getSlackConfig m.owner) := by
  apply stays_findSlack
  · exact fun _ _ => guarantees_pure trivial
  · exact fun _ _ _ _ => guarantees_pure trivial

theorem stays_saveSlackConfig (webhookUrl : String) : Stays m (saveSlackConfig m.owner webhookUrl) := by
  apply stays_findSlack
  · intro m' hm
    rw [hm.1]
    refine Guarantees.bind (Q := fun _ _ => True) (guarantees_insert ⟨rfl, fun k now => ⟨rfl, ?_, List.nil_subset _⟩⟩
      fun _ _ => trivial) fun _ _ _ => guarantees_pure trivial
    exact fun d hd => (Option.some.inj hd).symm
  · intro m' config hm hholds
    rw [hm.1]
    have hcolumns : ∀ stored saved, Keeps (S := schema) .slackIntegrations (slackColumns.write stored saved) :=
      fun _ _ _ _ => ⟨rfl, rfl, rfl⟩
    have hsave : Stays m' (save slackColumns m'.owner { config with webhookUrl := webhookUrl, isActive := true }) :=
      guarantees_save (fun stored => hcolumns stored _) ⟨⟨hholds.owner, hholds.refs⟩, hholds.key⟩
    exact Guarantees.bind hsave fun _ _ _ => guarantees_pure trivial

theorem stays_deleteSlackConfig : Stays m (deleteSlackConfig m.owner) := by
  apply stays_findSlack
  · exact fun _ _ => guarantees_throw _
  · intro m' config hm _
    rw [hm.1]
    apply guarantees_clear _ (shallow _)
    exact fun s hs => Or.inl (congrArg some (of_decide_eq_true hs))

theorem stays_sendSlackNotification (message : String) : Stays m (sendSlackNotification m.owner message) := by
  refine Guarantees.bind (guarantees_findOne_owned ?_) ?_
  · intro s hs
    simp only [Bool.and_eq_true, decide_eq_true_eq] at hs
    exact congrArg some hs.1
  · rintro m' s ⟨hm, -⟩
    cases s with
    | none => exact guarantees_pure trivial
    | some config =>
        apply stays_ask
        intro statusCode
        refine Guarantees.bind (Q := fun m'' _ => m'' = m') ?_ ?_
        · unfold nowIf
          split
          · exact guarantees_ask fun _ => rfl
          · exact guarantees_pure rfl
        · rintro _ deliveredAt rfl
          exact stays_saveDelivery hm.1 (fun id h => absurd h (Option.not_mem_none id)) _ _ _ _

theorem stays_testSlack : Stays m (testSlack m.owner) := by
  apply stays_findSlack
  · exact fun _ _ => guarantees_throw _
  · intro m' config hm _
    rw [hm.1]
    exact stays_sendSlackNotification _

/-! ## The jobs -/

theorem stays_handle (user : User) (howner : m.owner = user.organizationId) (call : Call) :
    Stays m (handle hmacHex user call) := by
  unfold handle
  rw [← howner]
  cases call with
  | listWebhooks => exact stays_listEndpoints.map _
  | createWebhook dto => exact (stays_createEndpoint dto).map _
  | updateWebhook id dto => exact (stays_updateEndpoint dto).map _
  | deleteWebhook id => exact stays_deleteEndpoint.map _
  | testWebhook id => exact stays_testEndpoint.map _
  | getDeliveries id => exact stays_getDeliveries.map _
  | getSlack => exact stays_getSlackConfig.map _
  | saveSlack webhookUrl => exact (stays_saveSlackConfig webhookUrl).map _
  | deleteSlack => exact stays_deleteSlackConfig.map _
  | testSlack => exact stays_testSlack.map _

theorem follows_serve (user : User) (call : Call) :
    Follows owning (fun _ _ => True) ⟨user.organizationId, []⟩ (serve hmacHex user call) := by
  have hhandle : Guarantees owning (fun _ _ => True) ⟨user.organizationId, []⟩
      (canActivate (requiredRoles call) user >>= fun _ => handle hmacHex user call : Method Answer) := by
    refine Guarantees.bind (Q := fun m' _ => m'.owner = user.organizationId) ?_ fun m' _ hm => stays_handle user hm call
    unfold canActivate
    split
    · exact guarantees_pure rfl
    · split
      · exact guarantees_pure rfl
      · exact guarantees_throw _
  refine Follows.bind (Q := fun _ _ => True) (Follows.mono hhandle fun _ _ _ => trivial) ?_
  intro m' result _
  cases result <;> exact ⟨trivial, fun _ _ _ => trivial⟩

/-- **A job keeps to the rows of its organization.** -/
theorem follows_body (job : Job) : Follows owning (fun _ _ => True) ⟨job.organizationId, []⟩ (job.body hmacHex) := by
  cases job with
  | request user call => exact follows_serve user call
  | deliverWebhook organizationId eventType payload =>
      have h : Stays ⟨organizationId, []⟩ (deliverWebhook hmacHex organizationId eventType payload) :=
        stays_deliverWebhook (m := ⟨organizationId, []⟩) eventType payload
      exact Follows.bind (Follows.mono h fun _ _ _ => trivial) fun _ _ _ => trivial
  | sendSlackNotification organizationId message =>
      have h : Stays ⟨organizationId, []⟩ (sendSlackNotification organizationId message) :=
        stays_sendSlackNotification (m := ⟨organizationId, []⟩) message
      exact Follows.bind (Follows.mono h fun _ _ _ => trivial) fun _ _ _ => trivial

/-! ## Any number of jobs -/

variable {ι : Type} [DecidableEq ι] {dom : ι → Id}

/-- A thread serves one organization. -/
abbrev ServesOrg (dom : ι → Id) : Act ι Choice Job → Prop := Serves dom Job.organizationId

/-- **Organizations do not notice each other's webhooks.** In every order of the statements and the `POST`s of any number of
jobs, those of one organization are answered as when there are no others, post the same, and leave the same rows. -/
theorem webhooks_isolated {db : Db schema} (hdb : db.Sound) {as : List (Act ι Choice Job)}
    (has : ∀ a ∈ as, ServesOrg dom a) {c : Serving ι} (hplay : (integrations hmacHex).play (Config.start db) as = some c)
    (organizationId : Id) :
    ∃ c', (integrations hmacHex).play (Config.start db) (ofDomain dom organizationId as) = some c' ∧
      c'.trace = (c.trace.filter fun p => dom p.1 = organizationId) ∧
      ∀ t, c.world.of organizationId t = c'.world.of organizationId t := by
  obtain ⟨c', hc', hsees⟩ := isolated schema_lawful follows_body hdb has hplay organizationId
  exact ⟨c', hc', hsees.trace, fun t => congrFun hsees.world.of t⟩

def admin (organizationId : Id) : User := ⟨organizationId + 100, organizationId, .admin⟩

/-- An effect that succeeds; `fresh` is the id that it may generate, and `turn` the part of a request that is next. -/
def succeeds (fresh : Id) (turn : Bool) : Choice where
  outcome := .ok
  now := 0
  fresh := fresh
  turn := turn
  reply
    | .now => 1767261600000
    | .fetch _ _ => some 204
    | .respond _ => ()

/-- Organization 1 has two endpoints, and posts to both side by side; meanwhile organization 2 asks for the deliveries of
one of them; in the end organization 1 does. -/
def twoPosts : List (Act Nat Choice Job) :=
  [.call 0 (.request (admin 1) (.createWebhook ⟨"https://a.example/hook", none, none⟩)),
    .step 0 (succeeds 7 true), .step 0 (succeeds 0 true),
    .call 0 (.request (admin 1) (.createWebhook ⟨"https://b.example/hook", none, some ["clock.in"]⟩)),
    .step 0 (succeeds 8 true), .step 0 (succeeds 0 true),
    .call 1 (.deliverWebhook 1 "clock.in" (.obj [("userId", .str "u-1")])), .step 1 (succeeds 0 true)] ++
  List.replicate 4 (.step 1 (succeeds 0 true)) ++ List.replicate 6 (.step 1 (succeeds 0 false)) ++
  [.call 2 (.request (admin 2) (.getDeliveries 7)), .step 2 (succeeds 0 true), .step 2 (succeeds 0 true)] ++
  List.replicate 4 (.step 1 (succeeds 9 true)) ++
  [.step 1 (succeeds 10 true), .call 3 (.request (admin 1) (.getDeliveries 7)), .step 3 (succeeds 0 true),
    .step 3 (succeeds 0 true), .step 3 (succeeds 0 true)]

def domains (i : Nat) : Id := if i = 2 then 2 else 1

/-- No endpoint has a secret here, and nothing is signed. -/
def digest (secret body : String) : String := secret ++ body

def afterTwoPosts : Serving Nat := (integrations digest).endOf (Config.start Db.start) twoPosts

theorem webhooks_isolated_two :
    ∃ c', (integrations digest).play (Config.start Db.start) (ofDomain domains 1 twoPosts) = some c' ∧
      c'.trace = (afterTwoPosts.trace.filter fun p => domains p.1 = 1) ∧
      ∀ t, afterTwoPosts.world.of 1 t = c'.world.of 1 t :=
  webhooks_isolated Db.start_sound (by decide +kernel) (System.play_endOf (by decide +kernel)) 1

end

end TimeChamp.Integrations
