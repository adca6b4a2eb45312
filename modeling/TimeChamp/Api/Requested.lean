import TimeChamp.Api.NoLoss

/-!
# Every row was asked for

A batch is inserted at least once: the messages of a worker that stops after its insert are read again. What is inserted
again is the same, and nothing else is inserted.

* `Asks`, `Sent` : the requests of a run, and the messages that they may enqueue; `performs_call`;
* `IsRow`, `LedgerInv` : the row of an event, with one message for each id that the queue gave out;
* `rows_requested` : **every row is of an event that its user asked to save**, and of one event all rows are the same.
-/

namespace TimeChamp.Api
open Lib
open Function (update)

section
variable {dates : Dates} {asked : User → SyncActivityDto → Option String → Prop}

/-! ## What is enqueued -/

/-- The requests are among those `asked`. -/
def Asks {ι : Type} (asked : User → SyncActivityDto → Option String → Prop) (a : Act ι Choice Call) : Prop :=
  ∀ i user dto deviceId, a = .call i (.saveActivities user dto deviceId) → asked user dto deviceId

/-- The message of a request that was asked and passed validation. -/
def Sent (dates : Dates) (asked : User → SyncActivityDto → Option String → Prop) (payload : ActivityQueuePayload) :
    Prop :=
  ∃ user dto deviceId, asked user dto deviceId ∧ dto.valid dates = true ∧ payloadOf user dto deviceId = .ok payload

/-- Only messages that were asked for are enqueued. -/
def Sends (dates : Dates) (asked : User → SyncActivityDto → Option String → Prop) : Op → Prop
  | .enqueue payload => Sent dates asked payload
  | _ => True

theorem performs_saveActivities {user : User} {dto : SyncActivityDto} {deviceId : Option String}
    (hasked : asked user dto deviceId) (hvalid : dto.valid dates = true) :
    Performs (Sends dates asked) (saveActivities user dto deviceId) := by
  unfold saveActivities
  split
  · trivial
  · split
    next => trivial
    next payload hpayload =>
      have hsent : Sends dates asked (.enqueue payload) := ⟨user, dto, deviceId, hasked, hvalid, hpayload⟩
      apply performs_perform hsent
      intro r
      cases r <;> trivial

theorem performs_drainBatch : Performs (Sends dates asked) (drainBatch dates) := by
  apply performs_perform (show Sends dates asked (.read _ _) from trivial)
  intro r
  cases r with
  | error e => trivial
  | ok messages =>
      dsimp only
      split
      · trivial
      · cases flattenBatch dates messages with
        | error e => trivial
        | ok entities =>
            apply performs_perform (show Sends dates asked (.save _) from trivial)
            intro r
            cases r with
            | error e => trivial
            | ok u => exact performs_one (show Sends dates asked (.deleteMany _) from trivial)

theorem performs_call {call : Call} (hadmits : call.admits dates = true)
    (hasked : ∀ user dto deviceId, call = .saveActivities user dto deviceId → asked user dto deviceId) :
    Performs (Sends dates asked) (call.body dates) := by
  cases call with
  | saveActivities user dto deviceId =>
      exact (performs_saveActivities (hasked user dto deviceId rfl) hadmits).bind fun _ => trivial
  | drain worker =>
      apply performs_perform (show Sends dates asked (.begin worker) from trivial)
      intro began
      cases began with
      | false => trivial
      | true =>
          rw [if_pos rfl]
          exact performs_drainBatch.bind fun _ => performs_one (show Sends dates asked (.finish worker) from trivial)

/-! ## What is inserted -/

/-- The row of an event of the message with its id. -/
def IsRow (dates : Dates) (message : Nat → Option ActivityQueuePayload) (entity : Entity) : Prop :=
  ∃ payload e, message entity.msgId = some payload ∧ payload.events[entity.index]? = some e ∧
    create dates payload e = .ok entity.row

theorem IsRow.eq {message : Nat → Option ActivityQueuePayload} {entity entity' : Entity}
    (h : IsRow dates message entity) (h' : IsRow dates message entity') (hid : entity.msgId = entity'.msgId)
    (hindex : entity.index = entity'.index) : entity = entity' := by
  obtain ⟨msgId, index, row⟩ := entity
  obtain ⟨msgId', index', row'⟩ := entity'
  obtain rfl : msgId = msgId' := hid
  obtain rfl : index = index' := hindex
  obtain ⟨payload, e, hmessage, he, hrow⟩ := h
  obtain ⟨payload', e', hmessage', he', hrow'⟩ := h'
  obtain rfl := Option.some.inj (hmessage.symm.trans hmessage')
  obtain rfl := Option.some.inj (he.symm.trans he')
  obtain rfl := Except.ok.inj (hrow.symm.trans hrow')
  rfl

theorem isRow_of_entitiesOf {message : Nat → Option ActivityQueuePayload} {m : ActivityQueueMessage}
    {entities : List Entity} (h : entitiesOf dates m = .ok entities) (hm : message m.msgId = some m.message)
    {entity : Entity} (hentity : entity ∈ entities) : IsRow dates message entity := by
  obtain ⟨⟨e, i⟩, hmem, heq⟩ := (of_mapM_ok h).2 entity hentity
  change (create dates m.message e).map (Entity.mk m.msgId i) = .ok entity at heq
  cases hrow : create dates m.message e with
  | error err =>
      rw [hrow] at heq
      exact nomatch heq
  | ok row =>
      rw [hrow] at heq
      obtain rfl : Entity.mk m.msgId i row = entity := Except.ok.inj heq
      exact ⟨m.message, e, hm, List.mem_zipIdx_iff_getElem?.mp hmem, hrow⟩

/-- The entities of a batch are rows of its messages. -/
theorem isRow_of_flattenBatch {message : Nat → Option ActivityQueuePayload} {messages : List ActivityQueueMessage}
    {entities : List Entity} (h : flattenBatch dates messages = .ok entities)
    (hm : ∀ m ∈ messages, message m.msgId = some m.message) {entity : Entity} (hentity : entity ∈ entities) :
    IsRow dates message entity := by
  unfold flattenBatch at h
  cases hmap : messages.mapM (entitiesOf dates) with
  | error e =>
      rw [hmap] at h
      exact nomatch h
  | ok each =>
      rw [hmap] at h
      obtain rfl : each.flatten = entities := Except.ok.inj h
      obtain ⟨part, hpart, hmem⟩ := List.mem_flatten.mp hentity
      obtain ⟨m, hin, hok⟩ := (of_mapM_ok hmap).2 part hpart
      exact isRow_of_entitiesOf hok (hm m hin) hmem

/-! ## Runs -/

variable {ι : Type} [DecidableEq ι]

/-- There is one message for each id, which was asked for: the one in the queue, in what a drain carries, and in what
was inserted. -/
structure LedgerInv (dates : Dates) (asked : User → SyncActivityDto → Option String → Prop) (s : Store)
    (holds : ι → Holds) (message : Nat → Option ActivityQueuePayload) : Prop where
  sent : ∀ id payload, message id = some payload → id < s.queue.nextKey ∧ Sent dates asked payload
  queued : ∀ q ∈ s.queue.rows, message q.msgId = some q.message
  carried : ∀ i, ∀ m ∈ (holds i).messages, message m.msgId = some m.message
  rows : ∀ entity ∈ s.activityEvents, IsRow dates message entity

namespace LedgerInv
variable {s s' : Store} {holds : ι → Holds} {message : Nat → Option ActivityQueuePayload} {i : ι} {h' : Holds}

theorem act (h : LedgerInv dates asked s holds message) (hkey : s'.queue.nextKey = s.queue.nextKey)
    (hqueue : ∀ q' ∈ s'.queue.rows, ∃ q ∈ s.queue.rows, q.asRead = q'.asRead)
    (hrows : ∀ entity ∈ s'.activityEvents, entity ∈ s.activityEvents ∨ IsRow dates message entity)
    (hcarried : ∀ m ∈ h'.messages, message m.msgId = some m.message) :
    LedgerInv dates asked s' (update holds i h') message where
  sent := hkey ▸ h.sent
  queued := by
    intro q' hq'
    obtain ⟨q, hq, hread⟩ := hqueue q' hq'
    obtain ⟨hmsgId, hmessage⟩ := ActivityQueueMessage.mk.inj hread
    rw [← hmsgId, ← hmessage]
    exact h.queued q hq
  carried := by
    rw [Function.forall_update_iff holds fun _ h' => ∀ m ∈ h'.messages, message m.msgId = some m.message]
    exact ⟨hcarried, fun j _ => h.carried j⟩
  rows := fun entity hentity => (hrows entity hentity).elim (h.rows entity) id

theorem same (h : LedgerInv dates asked s holds message) (hqueue : s'.queue = s.queue)
    (hrows : s'.activityEvents = s.activityEvents) : LedgerInv dates asked s' (update holds i .nothing) message := by
  apply h.act (by rw [hqueue]) (fun q hq => ⟨q, hqueue ▸ hq, rfl⟩) (fun entity hentity => .inl (hrows ▸ hentity))
  exact fun _ hm => absurd hm List.not_mem_nil

theorem enqueue (h : LedgerInv dates asked s holds message) {payload : ActivityQueuePayload}
    (hsent : Sent dates asked payload) (now : Int) :
    LedgerInv dates asked { s with queue := s.queue.insert ⟨0, now, payload⟩ } (update holds i .nothing)
      (update message s.queue.nextKey (some payload)) := by
  have hold : ∀ {id payload'}, message id = some payload' →
      update message s.queue.nextKey (some payload) id = some payload' := by
    intro id payload' hid
    rwa [Function.update_of_ne (h.sent id payload' hid).1.ne]
  constructor
  · intro id payload' hid
    by_cases hnew : id = s.queue.nextKey
    · subst hnew
      rw [Function.update_self] at hid
      obtain rfl := Option.some.inj hid
      exact ⟨Nat.lt_succ_self _, hsent⟩
    · rw [Function.update_of_ne hnew] at hid
      obtain ⟨hlt, hsent'⟩ := h.sent id payload' hid
      exact ⟨Nat.lt_succ_of_lt hlt, hsent'⟩
  · intro q hq
    rcases Table.mem_insert.mp hq with hq | rfl
    · exact hold (h.queued q hq)
    · exact Function.update_self _ _ _
  · rw [Function.forall_update_iff holds fun _ h' => ∀ m ∈ h'.messages,
      update message s.queue.nextKey (some payload) m.msgId = some m.message]
    exact ⟨fun _ hm => absurd hm List.not_mem_nil, fun j _ m hm => hold (h.carried j m hm)⟩
  · intro entity hentity
    obtain ⟨payload', e, hmessage, he, hrow⟩ := h.rows entity hentity
    exact ⟨payload', e, hold hmessage, he, hrow⟩

end LedgerInv

theorem ledgerInv_step {s s' : Store} {holds : ι → Holds} {message : Nat → Option ActivityQueuePayload} {i : ι}
    {ch : Choice} {op : Op} {r : op.Reply} (hI : LedgerInv dates asked s holds message)
    (hpre : ((drainProtocol dates).within (Sends dates asked)).pre (holds i) op) (hr : exec ch op s = some (r, s')) :
    ∃ h', (drainProtocol dates).post (holds i) op r h' ∧
      ∃ message', LedgerInv dates asked s' (update holds i h') message' := by
  cases op with
  | enqueue payload =>
      refine ⟨.nothing, by cases r <;> rfl, ?_⟩
      rcases Outcome.answer_cases (Option.some.inj hr) with ⟨rfl, rfl⟩ | ⟨rfl, rfl | rfl⟩
      · exact ⟨_, hI.enqueue hpre.2 ch.now⟩
      · exact ⟨message, hI.same rfl rfl⟩
      · exact ⟨_, hI.enqueue hpre.2 ch.now⟩
  | begin worker =>
      rw [exec] at hr
      split_ifs at hr <;> obtain ⟨rfl, rfl⟩ := Prod.mk.inj (Option.some.inj hr) <;>
        exact ⟨.nothing, rfl, message, hI.same rfl rfl⟩
  | read batchSize visibilityTimeoutSec =>
      have hqueue : ∀ q' ∈ (s.read ch.now ch.locked batchSize visibilityTimeoutSec).queue.rows,
          ∃ q ∈ s.queue.rows, q.asRead = q'.asRead := by
        intro q' hq'
        obtain ⟨q, hq, rfl⟩ := (Table.mem_modify (Queued.key_hide _ _)).mp hq'
        exact ⟨q, hq, (asRead_hide _ _ q).symm⟩
      rcases Outcome.answer_cases (Option.some.inj hr) with ⟨rfl, rfl⟩ | ⟨rfl, rfl | rfl⟩
      · refine ⟨_, rfl, message, hI.act rfl hqueue (fun _ => .inl) fun m hm => ?_⟩
        obtain ⟨q, hq, rfl⟩ := List.mem_map.mp hm
        exact hI.queued q (Table.mem_of_mem_select hq).1
      · exact ⟨.nothing, rfl, message, hI.same rfl rfl⟩
      · exact ⟨.nothing, rfl, message, hI.act rfl hqueue (fun _ => .inl) fun _ hm => absurd hm List.not_mem_nil⟩
  | save entities =>
      obtain ⟨⟨messages, hread, hflat⟩, -⟩ := hpre
      have hcarried : ∀ m ∈ messages, message m.msgId = some m.message := by
        have := hI.carried i
        rwa [hread] at this
      have hrows : ∀ entity ∈ s.activityEvents ++ entities, entity ∈ s.activityEvents ∨ IsRow dates message entity :=
        fun entity hentity => (List.mem_append.mp hentity).imp_right (isRow_of_flattenBatch hflat hcarried)
      rw [exec] at hr
      split_ifs at hr
      · rcases Outcome.answer_cases (Option.some.inj hr) with ⟨rfl, rfl⟩ | ⟨rfl, rfl | rfl⟩
        · exact ⟨_, rfl, message, hI.act rfl (fun q hq => ⟨q, hq, rfl⟩) hrows (hread ▸ hcarried)⟩
        · exact ⟨.nothing, rfl, message, hI.same rfl rfl⟩
        · exact ⟨.nothing, rfl, message,
            hI.act rfl (fun q hq => ⟨q, hq, rfl⟩) hrows fun _ hm => absurd hm List.not_mem_nil⟩
      · obtain ⟨rfl, rfl⟩ := Prod.mk.inj (Option.some.inj hr)
        exact ⟨.nothing, rfl, message, hI.same rfl rfl⟩
  | deleteMany msgIds =>
      refine ⟨.nothing, by cases r <;> rfl, message, ?_⟩
      have hdeleted : LedgerInv dates asked { s with queue := s.queue.removeKeys msgIds } (update holds i .nothing)
          message :=
        hI.act rfl (fun q hq => ⟨q, (Table.mem_removeKeys.mp hq).1, rfl⟩) (fun _ => .inl)
          fun _ hm => absurd hm List.not_mem_nil
      rcases Outcome.answer_cases (Option.some.inj hr) with ⟨rfl, rfl⟩ | ⟨rfl, rfl | rfl⟩
      · exact hdeleted
      · exact hI.same rfl rfl
      · exact hdeleted
  | finish worker =>
      obtain ⟨rfl, rfl⟩ := Prod.mk.inj (Option.some.inj hr)
      exact ⟨.nothing, rfl, message, hI.same rfl rfl⟩

/-- Every row of a run has its message, and its message was asked for. -/
theorem exists_message {c : Running ι}
    (h : Reaches (service dates) (fun _ a => Asks asked a) (Config.start Store.empty) c) :
    ∃ message : Nat → Option ActivityQueuePayload,
      (∀ id payload, message id = some payload → Sent dates asked payload) ∧
        ∀ entity ∈ c.world.activityEvents, IsRow dates message entity := by
  have hinv : ∃ holds : ι → Holds, (∃ message, LedgerInv dates asked c.world holds message) ∧
      ∀ i, Follows ((drainProtocol dates).within (Sends dates asked)) (fun _ _ => True) (holds i) (c.thread i) := by
    refine Reaches.inv (P := (drainProtocol dates).within (Sends dates asked)) (F := fun _ => True)
      (fun s _ holds => ∃ message, LedgerInv dates asked s holds message) ?_ ?_ ?_ h
    · refine ⟨fun _ => .nothing, ⟨fun _ => none, ⟨?_, ?_, ?_, ?_⟩⟩, fun _ => trivial⟩
      · exact fun _ _ hm => nomatch hm
      · exact fun _ hq => absurd hq List.not_mem_nil
      · exact fun _ _ hm => absurd hm List.not_mem_nil
      · exact fun _ he => absurd he List.not_mem_nil
    · rintro c holds i call s ⟨message, hI⟩ - hasks hs
      obtain ⟨hadmits, rfl⟩ : call.admits dates = true ∧ c.world = s := by
        simpa only [service, Option.ite_none_right_eq_some, Option.some.injEq] using hs
      refine ⟨.nothing, ⟨message, hI.same rfl rfl⟩, (follows_call call).within (performs_call hadmits ?_)⟩
      rintro user dto deviceId rfl
      exact hasks i user dto deviceId rfl
    · rintro c holds i ch op k r s ⟨message, hI⟩ - - hpre hr
      exact ledgerInv_step hI hpre hr
  obtain ⟨holds, ⟨message, hI⟩, -⟩ := hinv
  exact ⟨message, fun id payload hid => (hI.sent id payload hid).2, hI.rows⟩

/-- The row of an event is its user's. -/
theorem create_user {payload : ActivityQueuePayload} {e : ActivityItem} {row : ActivityEvent}
    (h : create dates payload e = .ok row) :
    row.userId = payload.userId ∧ row.organizationId = payload.organizationId ∧ row.deviceId = payload.deviceId := by
  unfold create at h
  split at h
  next => cases h
  next =>
    obtain rfl := Except.ok.inj h
    exact ⟨rfl, rfl, rfl⟩

theorem payloadOf_user {user : User} {dto : SyncActivityDto} {deviceId : Option String} {payload : ActivityQueuePayload}
    (h : payloadOf user dto deviceId = .ok payload) :
    payload.userId = user.id ∧ payload.organizationId = user.organizationId ∧ payload.deviceId = deviceId := by
  unfold payloadOf at h
  cases hitems : dto.events.mapM itemOf with
  | error e =>
      rw [hitems] at h
      exact nomatch h
  | ok events =>
      rw [hitems] at h
      obtain rfl := Except.ok.inj h
      exact ⟨rfl, rfl, rfl⟩

/-- **Every row was asked for.** At every moment of every run, each row of the table is that of an event of a request
that passed validation, and stands under the user, the organization and the device of that request; and however often a
batch was inserted, all rows of one event are the same. -/
theorem rows_requested {c : Running ι}
    (h : Reaches (service dates) (fun _ a => Asks asked a) (Config.start Store.empty) c) :
    (∀ entity ∈ c.world.activityEvents, ∃ user dto deviceId payload e, asked user dto deviceId ∧
      dto.valid dates = true ∧ payloadOf user dto deviceId = .ok payload ∧ payload.events[entity.index]? = some e ∧
      create dates payload e = .ok entity.row ∧ entity.row.userId = user.id ∧
      entity.row.organizationId = user.organizationId ∧ entity.row.deviceId = deviceId) ∧
    ∀ entity ∈ c.world.activityEvents, ∀ entity' ∈ c.world.activityEvents,
      entity.msgId = entity'.msgId → entity.index = entity'.index → entity = entity' := by
  obtain ⟨message, hsent, hrows⟩ := exists_message h
  constructor
  · intro entity hentity
    obtain ⟨payload, e, hmessage, he, hrow⟩ := hrows entity hentity
    obtain ⟨user, dto, deviceId, hasked, hvalid, hpayload⟩ := hsent _ _ hmessage
    obtain ⟨huser, horganization, hdevice⟩ := create_user hrow
    obtain ⟨huser', horganization', hdevice'⟩ := payloadOf_user hpayload
    exact ⟨user, dto, deviceId, payload, e, hasked, hvalid, hpayload, he, hrow, huser.trans huser',
      horganization.trans horganization', hdevice.trans hdevice'⟩
  · intro entity hentity entity' hentity'
    exact (hrows entity hentity).eq (hrows entity' hentity')

/-- After the crash the row is there twice. -/
theorem rows_requested_after_crash :
    let c := (service sampleDates).endOf (Config.start Store.empty) crashRun
    c.world.activityEvents.length = 2 ∧
      (∀ entity ∈ c.world.activityEvents, ∃ user dto deviceId payload e,
        (user = (⟨"u", "o"⟩ : User) ∧ dto = oneEvent (.value "Code") ∧ deviceId = some "d") ∧
        dto.valid sampleDates = true ∧ payloadOf user dto deviceId = .ok payload ∧
        payload.events[entity.index]? = some e ∧ create sampleDates payload e = .ok entity.row ∧
        entity.row.userId = user.id ∧ entity.row.organizationId = user.organizationId ∧
        entity.row.deviceId = deviceId) ∧
      ∀ entity ∈ c.world.activityEvents, ∀ entity' ∈ c.world.activityEvents,
        entity.msgId = entity'.msgId → entity.index = entity'.index → entity = entity' := by
  refine ⟨by decide +kernel, rows_requested (reaches_endOf (System.allowed_of_forall ?_ _) (by decide +kernel))⟩
  rintro a ha - i user dto deviceId rfl
  have hcall : i = 0 ∧ user = ⟨"u", "o"⟩ ∧ dto = oneEvent (.value "Code") ∧ deviceId = some "d" := by
    simpa [crashRun] using ha
  exact hcall.2

end

end TimeChamp.Api
