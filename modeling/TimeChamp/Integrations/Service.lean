import TimeChamp.Lib.JsonValue
import TimeChamp.Projects.Service

/-!
# Webhooks and Slack

`integrations.service.ts` and `integrations.controller.ts`, over the tables of the migration 007. The signature of a body is
`hmacHex secret body`; the answer of an endpoint is its status, or none when it could not be reached in time.

* `WebhookEndpoint`, `WebhookDelivery`, `SlackIntegration`, `schema` : the rows and their constraints;
* `HttpPost`, `Ask` : what goes out;
* `listEndpoints` to `testSlack` : the methods of the service;
* `Call`, `requiredRoles`, `handle` : the routes; `Job`, that other services call some methods too; `integrations`, any
  number of jobs.
-/

namespace TimeChamp.Integrations
open Lib
open Json (Value)
open Projects.Service (Id User HttpException varchar written canActivate)

/-! ## Tables -/

/-- A column that may not be null is `none` only in an object that is not saved yet. -/
structure WebhookEndpoint where
  id : Id
  organizationId : Id
  url : Option String
  secret : Option String
  events : Option (List String)
  isActive : Option Bool
  createdAt : Int
  updatedAt : Int

structure WebhookDelivery where
  id : Id
  endpointId : Option Id
  eventType : String
  payload : Value
  statusCode : Option Nat
  attemptCount : Nat
  succeeded : Bool
  deliveredAt : Option Int
  createdAt : Int

structure SlackIntegration where
  id : Id
  organizationId : Id
  webhookUrl : String
  isActive : Bool
  createdAt : Int
  updatedAt : Int

inductive TableName where
  | webhookEndpoints
  | webhookDeliveries
  | slackIntegrations
deriving DecidableEq

abbrev Row : TableName → Type
  | .webhookEndpoints => WebhookEndpoint
  | .webhookDeliveries => WebhookDelivery
  | .slackIntegrations => SlackIntegration

/-- The tables; the deliveries of an endpoint go with it, and an organization has one Slack integration. -/
abbrev schema : Schema Id Id where
  Table := TableName
  Row := Row
  key
    | .webhookEndpoints, e => WebhookEndpoint.id e
    | .webhookDeliveries, d => WebhookDelivery.id d
    | .slackIntegrations, s => SlackIntegration.id s
  owner
    | .webhookEndpoints, e => some (WebhookEndpoint.organizationId e)
    | .webhookDeliveries, _ => none
    | .slackIntegrations, s => some (SlackIntegration.organizationId s)
  refs
    | .webhookDeliveries, d => (WebhookDelivery.endpointId d).toList.map fun id => (.webhookEndpoints, id)
    | _, _ => []
  fits
    | .webhookEndpoints, e => varchar 500 (WebhookEndpoint.url e) && e.secret.all (fun text => text.length ≤ 255) &&
        e.events.isSome && e.isActive.isSome
    | .webhookDeliveries, d => (WebhookDelivery.eventType d).length ≤ 100
    | .slackIntegrations, s => (SlackIntegration.webhookUrl s).length ≤ 500
  clash
    | .slackIntegrations, s, s' => SlackIntegration.organizationId s = SlackIntegration.organizationId s'
    | _, _, _ => false
  onDelete
    | q, .webhookDeliveries, d =>
      if (WebhookDelivery.endpointId d).any fun id => q = (.webhookEndpoints, id) then none else some d
    | _, _, r => some r

instance : DecidableEq schema.Table := inferInstanceAs (DecidableEq TableName)

/-! ## Requests -/

/-- A `POST` that goes out. -/
structure HttpPost where
  url : String
  headers : List (String × String)
  body : String
deriving DecidableEq

structure SlackConfigView where
  id : Id
  maskedUrl : String
  isActive : Bool

/-- What a request is answered. -/
inductive Answer where
  | endpoints (rows : List WebhookEndpoint)
  | endpoint (row : WebhookEndpoint)
  | deliveries (rows : List WebhookDelivery)
  | slack (config : Option SlackConfigView)
  | noContent
  | failed (e : Failure HttpException)

/-- The clock of the server, a `POST` with the status of its response, and the answer that goes out. A `POST` goes with the
endpoint that it is for; one for Slack with none. -/
inductive Ask where
  | now
  | fetch (endpoint : Option WebhookEndpoint) (post : HttpPost)
  | respond (answer : Answer)

abbrev Ask.Reply : Ask → Type
  | .now => Int
  | .fetch _ _ => Option Nat
  | .respond _ => Unit

abbrev Op := TableOp schema Ask

abbrev Op.Reply : Op → Type := TableOp.Reply Ask.Reply

abbrev Method := Querying schema Ask.Reply HttpException

def notFound {α : Type} (message : String) : Method α := throw (.raised (.notFound message))

/-- `new Date()`. -/
def now : Method Int := ask (S := schema) (A := Ask.Reply) Ask.now

/-! ## What is saved -/

def endpointColumns : Columns schema .webhookEndpoints where
  differs stored saved :=
    (stored : WebhookEndpoint).url ≠ (saved : WebhookEndpoint).url || stored.secret ≠ saved.secret ||
      stored.events ≠ saved.events || stored.isActive ≠ saved.isActive
  write stored saved now r :=
    { (r : WebhookEndpoint) with
      url := written (stored : WebhookEndpoint).url (saved : WebhookEndpoint).url r.url
      secret := written stored.secret saved.secret r.secret
      events := written stored.events saved.events r.events
      isActive := written stored.isActive saved.isActive r.isActive
      updatedAt := now }
  readBack saved returned := { (saved : WebhookEndpoint) with updatedAt := (returned : WebhookEndpoint).updatedAt }

def slackColumns : Columns schema .slackIntegrations where
  differs stored saved :=
    (stored : SlackIntegration).webhookUrl ≠ (saved : SlackIntegration).webhookUrl || stored.isActive ≠ saved.isActive
  write stored saved now r :=
    { (r : SlackIntegration) with
      webhookUrl := written (stored : SlackIntegration).webhookUrl (saved : SlackIntegration).webhookUrl r.webhookUrl
      isActive := written stored.isActive saved.isActive r.isActive
      updatedAt := now }
  readBack saved returned := { (saved : SlackIntegration) with updatedAt := (returned : SlackIntegration).updatedAt }

/-! ## Webhook endpoints -/

structure CreateEndpointDto where
  url : String
  secret : Option String
  events : Option (List String)

structure UpdateEndpointDto where
  url : Projects.Service.Field String
  secret : Projects.Service.Field String
  events : Projects.Service.Field (List String)
  isActive : Projects.Service.Field Bool

/-- How every method starts that is about one endpoint. -/
def findEndpoint (organizationId endpointId : Id) : Method WebhookEndpoint := do
  match ← findOne (S := schema) .webhookEndpoints fun e : WebhookEndpoint =>
      e.id = endpointId && e.organizationId = organizationId with
  | none => notFound "Webhook endpoint not found"
  | some endpoint => return endpoint

def listEndpoints (organizationId : Id) : Method (List WebhookEndpoint) := do
  let rows ← find (S := schema) .webhookEndpoints fun e : WebhookEndpoint => e.organizationId = organizationId
  return (rows : List WebhookEndpoint).mergeSort fun a b => b.createdAt ≤ a.createdAt

def createEndpoint (organizationId : Id) (dto : CreateEndpointDto) : Method WebhookEndpoint :=
  insert (S := schema) .webhookEndpoints organizationId fun id now =>
    { id, organizationId, url := some dto.url, secret := dto.secret, events := some (dto.events.getD []),
      isActive := some true, createdAt := now, updatedAt := now }

def updateEndpoint (organizationId endpointId : Id) (dto : UpdateEndpointDto) : Method WebhookEndpoint := do
  let endpoint ← findEndpoint organizationId endpointId
  save endpointColumns organizationId
    { endpoint with
      url := dto.url.assign endpoint.url
      secret := dto.secret.assign endpoint.secret
      events := dto.events.assign endpoint.events
      isActive := dto.isActive.assign endpoint.isActive }

def deleteEndpoint (organizationId endpointId : Id) : Method Unit := do
  let _ ← findEndpoint organizationId endpointId
  clear (S := schema) .webhookEndpoints fun e : WebhookEndpoint => e.id = endpointId && e.organizationId = organizationId

def getDeliveries (organizationId endpointId : Id) : Method (List WebhookDelivery) := do
  let _ ← findEndpoint organizationId endpointId
  let rows ← find (S := schema) .webhookDeliveries fun d : WebhookDelivery => d.endpointId = some endpointId
  return ((rows : List WebhookDelivery).mergeSort fun a b => b.createdAt ≤ a.createdAt).take 200

/-! ## Delivery -/

def isoString (t : Int) : Value := .str (String.ofList (toISOString t))

def webhookBody (eventType : String) (payload : Value) (timestamp : Int) : String :=
  (Value.obj [("event", .str eventType), ("payload", payload), ("timestamp", isoString timestamp)]).stringify

/-- A delivery that is saved for an organization. -/
def saveDelivery (organizationId : Id) (row : Id → Int → WebhookDelivery) : Method Unit := do
  let _ ← insert (S := schema) .webhookDeliveries organizationId row

/-- `resp.ok`. -/
def succeeded (statusCode : Option Nat) : Bool := statusCode.any fun status => 200 ≤ status && status ≤ 299

/-- The row of a delivery. -/
def deliveryRow (endpointId : Option Id) (eventType : String) (payload : Value) (statusCode : Option Nat)
    (deliveredAt : Int) (id : Id) (now : Int) : WebhookDelivery where
  id := id
  endpointId := endpointId
  eventType := eventType
  payload := payload
  statusCode := statusCode
  attemptCount := 1
  succeeded := succeeded statusCode
  deliveredAt := if succeeded statusCode then some deliveredAt else none
  createdAt := now

section
variable (hmacHex : String → String → String)

def sign (body secret : String) : String := "sha256=" ++ hmacHex secret body

/-- The headers; only an endpoint with a secret gets a signature. -/
def webhookHeaders (secret : Option String) (body : String) : List (String × String) :=
  [("Content-Type", "application/json"), ("User-Agent", "TimeChamp-Webhook/1.0")] ++
    ((secret.filter fun text => text ≠ "").map fun text => ("X-Webhook-Signature", sign hmacHex body text)).toList

def webhookPost (endpoint : WebhookEndpoint) (eventType : String) (payload : Value) (timestamp : Int) : HttpPost :=
  let body := webhookBody eventType payload timestamp
  ⟨endpoint.url.getD "", webhookHeaders hmacHex endpoint.secret body, body⟩

def postToEndpoint (endpoint : WebhookEndpoint) (eventType : String) (payload : Value) : Method Unit := do
  let timestamp ← now
  let deliveredAt ← now
  let statusCode ← ask (S := schema) (A := Ask.Reply)
    (.fetch (some endpoint) (webhookPost hmacHex endpoint eventType payload timestamp))
  saveDelivery endpoint.organizationId (deliveryRow (some endpoint.id) eventType payload statusCode deliveredAt)

/-- `ep.events.length === 0 || ep.events.includes(eventType)`. -/
def subscribes (eventType : String) (endpoint : WebhookEndpoint) : Bool :=
  let events := endpoint.events.getD []
  events.isEmpty || events.contains eventType

def deliverWebhook (organizationId : Id) (eventType : String) (payload : Value) : Method Unit := do
  let endpoints ← find (S := schema) .webhookEndpoints fun e : WebhookEndpoint =>
    e.organizationId = organizationId && e.isActive == some true
  let subscribed := (endpoints : List WebhookEndpoint).filter (subscribes eventType)
  let _ ← Throwing.all (E := Op) .turn id
    (subscribed.map fun endpoint => postToEndpoint hmacHex endpoint eventType payload)

def testEndpoint (organizationId endpointId : Id) : Method Unit := do
  let endpoint ← findEndpoint organizationId endpointId
  let timestamp ← now
  postToEndpoint hmacHex endpoint "test.ping"
    (.obj [("message", .str "This is a test webhook from Time Champ"), ("timestamp", isoString timestamp)])

end

/-! ## Slack -/

def maskUrl (url : String) : String := if unitLength url ≤ 30 then "****" else slice 30 url ++ "****"

def SlackIntegration.view (config : SlackIntegration) : SlackConfigView :=
  ⟨config.id, maskUrl config.webhookUrl, config.isActive⟩

def findSlack (organizationId : Id) : Method (Option SlackIntegration) :=
  findOne (S := schema) .slackIntegrations fun s : SlackIntegration => s.organizationId = organizationId

def getSlackConfig (organizationId : Id) : Method (Option SlackConfigView) := do
  let config ← findSlack organizationId
  return config.map SlackIntegration.view

def saveSlackConfig (organizationId : Id) (webhookUrl : String) : Method SlackConfigView := do
  let saved : SlackIntegration ← match ← findSlack organizationId with
    | some config => save slackColumns organizationId { config with webhookUrl, isActive := true }
    | none =>
      insert (S := schema) .slackIntegrations organizationId fun id now =>
        { id, organizationId, webhookUrl, isActive := true, createdAt := now, updatedAt := now }
  return saved.view

def deleteSlackConfig (organizationId : Id) : Method Unit := do
  match ← findSlack organizationId with
  | none => notFound "Slack integration not configured"
  | some _ => clear (S := schema) .slackIntegrations fun s : SlackIntegration => s.organizationId = organizationId

def slackPost (webhookUrl message : String) : HttpPost :=
  ⟨webhookUrl, [("Content-Type", "application/json")], (Value.obj [("text", .str message)]).stringify⟩

/-- The clock, where it is read. -/
def nowIf (read : Bool) : Method Int := if read then now else pure 0

/-- The clock is read only after the `POST`, and only if that succeeded. -/
def sendSlackNotification (organizationId : Id) (message : String) : Method Unit := do
  match ← findOne (S := schema) .slackIntegrations fun s : SlackIntegration =>
      s.organizationId = organizationId && s.isActive with
  | none => return ()
  | some config =>
    let statusCode ← ask (S := schema) (A := Ask.Reply) (.fetch none (slackPost config.webhookUrl message))
    let deliveredAt ← nowIf (succeeded statusCode)
    saveDelivery organizationId
      (deliveryRow none "slack.notification" (.obj [("message", .str message)]) statusCode deliveredAt)

def testSlack (organizationId : Id) : Method Unit := do
  match ← findSlack organizationId with
  | none => notFound "Slack integration not configured"
  | some _ => sendSlackNotification organizationId ":wave: This is a test notification from Time Champ!"

/-! ## The routes -/

inductive Call where
  | listWebhooks
  | createWebhook (dto : CreateEndpointDto)
  | updateWebhook (id : Id) (dto : UpdateEndpointDto)
  | deleteWebhook (id : Id)
  | testWebhook (id : Id)
  | getDeliveries (id : Id)
  | getSlack
  | saveSlack (webhookUrl : String)
  | deleteSlack
  | testSlack

/-- `@Roles(...)`; none where everyone may call. -/
def requiredRoles : Call → List Accounts.UserRole
  | .listWebhooks => []
  | .getSlack => []
  | _ => [.admin]

/-- A request of a user; what another service has sent. -/
inductive Job where
  | request (user : User) (call : Call)
  | deliverWebhook (organizationId : Id) (eventType : String) (payload : Value)
  | sendSlackNotification (organizationId : Id) (message : String)

/-- For whom a job is done. -/
def Job.organizationId : Job → Id
  | .request user _ => user.organizationId
  | .deliverWebhook organizationId _ _ => organizationId
  | .sendSlackNotification organizationId _ => organizationId

section
variable (hmacHex : String → String → String)

def handle (user : User) : Call → Method Answer
  | .listWebhooks => .endpoints <$> listEndpoints user.organizationId
  | .createWebhook dto => .endpoint <$> createEndpoint user.organizationId dto
  | .updateWebhook id dto => .endpoint <$> updateEndpoint user.organizationId id dto
  | .deleteWebhook id => (fun _ => .noContent) <$> deleteEndpoint user.organizationId id
  | .testWebhook id => (fun _ => .noContent) <$> testEndpoint hmacHex user.organizationId id
  | .getDeliveries id => .deliveries <$> getDeliveries user.organizationId id
  | .getSlack => .slack <$> getSlackConfig user.organizationId
  | .saveSlack webhookUrl => (fun view => .slack (some view)) <$> saveSlackConfig user.organizationId webhookUrl
  | .deleteSlack => (fun _ => .noContent) <$> deleteSlackConfig user.organizationId
  | .testSlack => (fun _ => .noContent) <$> testSlack user.organizationId

/-- A request, with the answer that goes out. -/
def serve (user : User) (call : Call) : Prog Op Op.Reply Unit := do
  let result ← (canActivate (requiredRoles call) user >>= fun _ => handle hmacHex user call : Method Answer).run
  match result with
  | .ok answer => Prog.perform (E := Op) (.ask (.respond answer))
  | .error e => Prog.perform (E := Op) (.ask (.respond (.failed e)))

def Job.body : Job → Prog Op Op.Reply Unit
  | .request user call => serve hmacHex user call
  | .deliverWebhook organizationId eventType payload => do
    let _ ← (Integrations.deliverWebhook hmacHex organizationId eventType payload).run
  | .sendSlackNotification organizationId message => do
    let _ ← (Integrations.sendSlackNotification organizationId message).run

abbrev Choice := TableChoice Id Ask Ask.Reply

/-- Any number of jobs. -/
def integrations : System Op Op.Reply (Db schema) Choice Job := requests (Job.body hmacHex)

end

abbrev Serving (ι : Type) := Config ι Op Op.Reply (Db schema)

end TimeChamp.Integrations
