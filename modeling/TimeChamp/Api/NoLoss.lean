import TimeChamp.Api.ActivityQueue

/-!
# No accepted event is lost

A drain inserts the events of the messages it read before it deletes them, and a message stays in the queue until then,
whatever fails or stops in between.

* `Inserted id payload rows` : each event of the message has its row;
* `Accepted c id payload` : the message was enqueued under `id`, and the request told so;
* `follows_saveActivities` : a request answers with a count only for events that were accepted;
* `noEventLost` : **in every run each accepted event is in a message of the queue, or in the table**.
-/

namespace TimeChamp.Api
open Lib
open Function (update)

section
variable {dates : Dates}

/-! ## The entities of a batch -/

/-- Each event of the message is a row. -/
def Inserted (dates : Dates) (id : Nat) (payload : ActivityQueuePayload) (rows : List Entity) : Prop :=
  ∀ i e, payload.events[i]? = some e → ∃ row, create dates payload e = .ok row ∧ ⟨id, i, row⟩ ∈ rows

theorem Inserted.mono {id : Nat} {payload : ActivityQueuePayload} {rows rows' : List Entity}
    (h : Inserted dates id payload rows) (hsub : rows ⊆ rows') : Inserted dates id payload rows' := by
  intro i e he
  obtain ⟨row, hrow, hmem⟩ := h i e he
  exact ⟨row, hrow, hsub hmem⟩

theorem of_mapM_ok {α β ε : Type} {f : α → Except ε β} {as : List α} {bs : List β} (h : as.mapM f = .ok bs) :
    (∀ a ∈ as, ∃ b ∈ bs, f a = .ok b) ∧ ∀ b ∈ bs, ∃ a ∈ as, f a = .ok b := by
  induction as generalizing bs with
  | nil =>
      obtain rfl : [] = bs := Except.ok.inj h
      exact ⟨fun a ha => absurd ha List.not_mem_nil, fun b hb => absurd hb List.not_mem_nil⟩
  | cons x as ih =>
      rw [List.mapM_cons] at h
      cases hx : f x with
      | error e =>
          rw [hx] at h
          exact nomatch h
      | ok y =>
          rw [hx] at h
          cases hrest : as.mapM f with
          | error e =>
              rw [hrest] at h
              exact nomatch h
          | ok rest =>
              rw [hrest] at h
              obtain rfl : y :: rest = bs := Except.ok.inj h
              obtain ⟨hmade, hfrom⟩ := ih hrest
              constructor
              · intro a ha
                rcases List.mem_cons.mp ha with rfl | ha
                · exact ⟨y, List.mem_cons_self, hx⟩
                · obtain ⟨b, hb, hf⟩ := hmade a ha
                  exact ⟨b, List.mem_cons_of_mem _ hb, hf⟩
              · intro b hb
                rcases List.mem_cons.mp hb with rfl | hb
                · exact ⟨x, List.mem_cons_self, hx⟩
                · obtain ⟨a, ha, hf⟩ := hfrom b hb
                  exact ⟨a, List.mem_cons_of_mem _ ha, hf⟩

theorem inserted_entitiesOf {m : ActivityQueueMessage} {entities : List Entity}
    (h : entitiesOf dates m = .ok entities) : Inserted dates m.msgId m.message entities := by
  intro i e he
  have hmem : (e, i) ∈ m.message.events.zipIdx := List.mem_zipIdx_iff_getElem?.mpr he
  obtain ⟨entity, hentity, heq⟩ := (of_mapM_ok h).1 _ hmem
  change (create dates m.message e).map (Entity.mk m.msgId i) = .ok entity at heq
  cases hrow : create dates m.message e with
  | error err =>
      rw [hrow] at heq
      exact nomatch heq
  | ok row =>
      rw [hrow] at heq
      obtain rfl : Entity.mk m.msgId i row = entity := Except.ok.inj heq
      exact ⟨row, rfl, hentity⟩

theorem inserted_flattenBatch {messages : List ActivityQueueMessage} {entities : List Entity}
    (h : flattenBatch dates messages = .ok entities) {m : ActivityQueueMessage} (hm : m ∈ messages) :
    Inserted dates m.msgId m.message entities := by
  unfold flattenBatch at h
  cases hmap : messages.mapM (entitiesOf dates) with
  | error e =>
      rw [hmap] at h
      exact nomatch h
  | ok each =>
      rw [hmap] at h
      obtain rfl : each.flatten = entities := Except.ok.inj h
      obtain ⟨entities, hmem, hok⟩ := (of_mapM_ok hmap).1 m hm
      exact (inserted_entitiesOf hok).mono fun x hx => List.mem_flatten.mpr ⟨entities, hmem, hx⟩

/-! ## What a drain knows -/

/-- A drain carries the messages it read, and then those whose events it inserted; it deletes only the latter. -/
inductive Holds where
  | nothing
  | read (messages : List ActivityQueueMessage)
  | inserted (messages : List ActivityQueueMessage)

/-- The messages a drain carries. -/
def Holds.messages : Holds → List ActivityQueueMessage
  | nothing => []
  | read messages => messages
  | inserted messages => messages

/-- A drain saves the entities of the messages it read, and deletes messages whose events it saved. -/
def drainProtocol (dates : Dates) : Protocol Op Op.Reply Holds where
  pre h
    | .save entities => ∃ messages, h = .read messages ∧ flattenBatch dates messages = .ok entities
    | .deleteMany msgIds => ∃ messages, h = .inserted messages ∧ msgIds = messages.map ActivityQueueMessage.msgId
    | _ => True
  post h op r h' :=
    match op, r with
    | .read _ _, .ok messages => h' = .read messages
    | .save _, .ok _ => h' = .inserted h.messages
    | _, _ => h' = .nothing

theorem follows_drainBatch (h : Holds) :
    Follows (drainProtocol dates) (fun _ _ => True) h (drainBatch dates) := by
  unfold drainBatch
  refine follows_perform_bind.mpr ⟨trivial, fun r h' hr => ?_⟩
  rcases r with e | messages
  · trivial
  · subst hr
    dsimp only
    split_ifs
    · trivial
    · cases hflat : flattenBatch dates messages with
      | error e => trivial
      | ok entities =>
          refine follows_perform_bind.mpr ⟨⟨messages, rfl, hflat⟩, fun r h' hr => ?_⟩
          rcases r with e | u
          · trivial
          · subst hr
            exact ⟨⟨messages, rfl, rfl⟩, fun _ _ _ => trivial⟩

/-! ## What a request answers -/

/-- The message that was accepted from a request, so far. -/
def acceptProtocol : Protocol Op Op.Reply (Option ActivityQueuePayload) where
  pre _ _ := True
  post m op r m' :=
    match op, r with
    | .enqueue payload, .ok _ => m' = some payload
    | _, _ => m' = m

/-- **A request answers with a count only if it had nothing to send or its message was accepted.** -/
theorem follows_saveActivities (user : User) (dto : SyncActivityDto) (deviceId : Option String) :
    Follows acceptProtocol (fun m r => ∀ n, r = .ok n → n = dto.events.length ∧
      (n = 0 ∨ ∃ payload, payloadOf user dto deviceId = .ok payload ∧ m = some payload)) none
      (saveActivities user dto deviceId) := by
  unfold saveActivities
  split_ifs with hlen
  · intro n hn
    obtain rfl := Except.ok.inj hn
    exact ⟨hlen.symm, Or.inl rfl⟩
  · cases hpayload : payloadOf user dto deviceId with
    | error e => exact fun n hn => nomatch hn
    | ok payload =>
        refine follows_perform_bind.mpr ⟨trivial, fun r m' hm => ?_⟩
        rcases r with e | id
        · exact fun n hn => nomatch hn
        · intro n hn
          exact ⟨(Except.ok.inj hn).symm, Or.inr ⟨payload, rfl, hm⟩⟩

/-! ## Steps -/

/-- What every call leaves true of the queue and the table: rows of the table stay, a message leaves the queue only if
its events are in the table, and the only new messages have new ids. -/
structure Keeps (dates : Dates) (s s' : Store) : Prop where
  table : s.activityEvents ⊆ s'.activityEvents
  keys : s.queue.nextKey ≤ s'.queue.nextKey
  old : ∀ q' ∈ s'.queue.rows, (∃ q ∈ s.queue.rows, q.asRead = q'.asRead) ∨ s.queue.nextKey ≤ q'.msgId
  stored : ∀ q ∈ s.queue.rows,
    (∃ q' ∈ s'.queue.rows, q'.asRead = q.asRead) ∨ Inserted dates q.msgId q.message s'.activityEvents

theorem Keeps.refl (s : Store) : Keeps dates s s :=
  ⟨fun _ h => h, le_rfl, fun q hq => Or.inl ⟨q, hq, rfl⟩, fun q hq => Or.inl ⟨q, hq, rfl⟩⟩

theorem asRead_hide (msgIds : List Nat) (until_ : Int) (q : Queued) : (q.hide msgIds until_).asRead = q.asRead := by
  unfold Queued.hide
  split_ifs <;> rfl

variable (dates) in
theorem keeps_enqueue (s : Store) (now : Int) (payload : ActivityQueuePayload) :
    Keeps dates s { s with queue := s.queue.insert ⟨0, now, payload⟩ } where
  table := fun _ h => h
  keys := Nat.le_succ _
  old := by
    intro q' hq'
    rcases Table.mem_insert.mp hq' with hq' | rfl
    · exact Or.inl ⟨q', hq', rfl⟩
    · exact Or.inr le_rfl
  stored := fun q hq => Or.inl ⟨q, Table.mem_insert.mpr (Or.inl hq), rfl⟩

variable (dates) in
theorem keeps_read (s : Store) (now : Int) (locked : List Nat) (batchSize visibilityTimeoutSec : Nat) :
    Keeps dates s (s.read now locked batchSize visibilityTimeoutSec) where
  table := fun _ h => h
  keys := le_rfl
  old := by
    intro q' hq'
    obtain ⟨q, hq, rfl⟩ := (Table.mem_modify (Queued.key_hide _ _)).mp hq'
    exact Or.inl ⟨q, hq, (asRead_hide _ _ q).symm⟩
  stored := fun q hq => Or.inl ⟨_, (Table.mem_modify (Queued.key_hide _ _)).mpr ⟨q, hq, rfl⟩, asRead_hide _ _ q⟩

variable (dates) in
theorem keeps_save (s : Store) (entities : List Entity) :
    Keeps dates s { s with activityEvents := s.activityEvents ++ entities } where
  table := List.subset_append_left _ _
  keys := le_rfl
  old := fun q hq => Or.inl ⟨q, hq, rfl⟩
  stored := fun q hq => Or.inl ⟨q, hq, rfl⟩

theorem keeps_flushing (s : Store) (flushing : Nat → Bool) : Keeps dates s { s with flushing := flushing } where
  table := fun _ h => h
  keys := le_rfl
  old := fun q hq => Or.inl ⟨q, hq, rfl⟩
  stored := fun q hq => Or.inl ⟨q, hq, rfl⟩

/-- Messages may be deleted whose events are in the table. -/
theorem keeps_deleteMany {s : Store} {msgIds : List Nat}
    (h : ∀ q ∈ s.queue.rows, q.msgId ∈ msgIds → Inserted dates q.msgId q.message s.activityEvents) :
    Keeps dates s { s with queue := s.queue.removeKeys msgIds } where
  table := fun _ h => h
  keys := le_rfl
  old := fun q hq => Or.inl ⟨q, (Table.mem_removeKeys.mp hq).1, rfl⟩
  stored := by
    intro q hq
    by_cases hmem : q.msgId ∈ msgIds
    · exact Or.inr (h q hq hmem)
    · exact Or.inl ⟨q, Table.mem_removeKeys.mpr ⟨hq, hmem⟩, rfl⟩

/-! ## Runs -/

/-- The message was enqueued under this id, and its sender told so. -/
def Accepted {ι : Type} (c : Running ι) (id : Nat) (payload : ActivityQueuePayload) : Prop :=
  ∃ j, (j, (⟨.enqueue payload, .ok id⟩ : (op : Op) × op.Reply)) ∈ c.trace

/-- The message is in the queue. -/
def InQueue (s : Store) (id : Nat) (payload : ActivityQueuePayload) : Prop :=
  ∃ q ∈ s.queue.rows, q.asRead = ⟨id, payload⟩

/-- Accepted messages are stored or inserted; a message that a drain carries is what the queue has under its id; and
what a drain takes for inserted is. -/
structure QueueInv {ι : Type} (dates : Dates) (s : Store) (tr : List (Performed ι Op Op.Reply)) (holds : ι → Holds) :
    Prop where
  kept : ∀ j payload id, (j, (⟨.enqueue payload, .ok id⟩ : (op : Op) × op.Reply)) ∈ tr →
    InQueue s id payload ∨ Inserted dates id payload s.activityEvents
  known : ∀ i, ∀ m ∈ (holds i).messages,
    m.msgId < s.queue.nextKey ∧ ∀ q ∈ s.queue.rows, q.msgId = m.msgId → q.message = m.message
  inserted : ∀ i messages, holds i = .inserted messages → ∀ m ∈ messages,
    Inserted dates m.msgId m.message s.activityEvents

variable {ι : Type} [DecidableEq ι]

theorem Keeps.known {s s' : Store} (hkeeps : Keeps dates s s') {m : ActivityQueueMessage}
    (h : m.msgId < s.queue.nextKey ∧ ∀ q ∈ s.queue.rows, q.msgId = m.msgId → q.message = m.message) :
    m.msgId < s'.queue.nextKey ∧ ∀ q ∈ s'.queue.rows, q.msgId = m.msgId → q.message = m.message := by
  refine ⟨lt_of_lt_of_le h.1 hkeeps.keys, fun q' hq' hid => ?_⟩
  rcases hkeeps.old q' hq' with ⟨q, hq, hread⟩ | hnew
  · obtain ⟨hmsgId, hmessage⟩ := ActivityQueueMessage.mk.inj hread
    rw [← hmessage]
    exact h.2 q hq (hmsgId.trans hid)
  · have := h.1
    omega

theorem Keeps.stays {s s' : Store} (hkeeps : Keeps dates s s') {id : Nat} {payload : ActivityQueuePayload}
    (h : InQueue s id payload ∨ Inserted dates id payload s.activityEvents) :
    InQueue s' id payload ∨ Inserted dates id payload s'.activityEvents := by
  rcases h with ⟨q, hq, hread⟩ | hinserted
  · obtain ⟨rfl, rfl⟩ := ActivityQueueMessage.mk.inj hread
    exact hkeeps.stored q hq
  · exact Or.inr (hinserted.mono hkeeps.table)

/-- What an action of `i` must do to keep the invariant. -/
theorem QueueInv.act {s s' : Store} {tr : List (Performed ι Op Op.Reply)} {holds : ι → Holds}
    (h : QueueInv dates s tr holds) {i : ι} {p : (op : Op) × op.Reply} {h' : Holds} (hkeeps : Keeps dates s s')
    (hnew : ∀ payload id, p = ⟨.enqueue payload, .ok id⟩ → InQueue s' id payload)
    (hknown : ∀ m ∈ h'.messages,
      m.msgId < s'.queue.nextKey ∧ ∀ q ∈ s'.queue.rows, q.msgId = m.msgId → q.message = m.message)
    (hinserted : ∀ messages, h' = .inserted messages → ∀ m ∈ messages,
      Inserted dates m.msgId m.message s'.activityEvents) :
    QueueInv dates s' (tr ++ [(i, p)]) (update holds i h') where
  kept := by
    intro j payload id hmem
    rcases List.mem_append.mp hmem with hmem | hmem
    · exact hkeeps.stays (h.kept j payload id hmem)
    · exact Or.inl (hnew payload id (Prod.mk.inj (List.mem_singleton.mp hmem)).2.symm)
  known := by
    rw [Function.forall_update_iff holds fun _ h' => ∀ m ∈ h'.messages,
      m.msgId < s'.queue.nextKey ∧ ∀ q ∈ s'.queue.rows, q.msgId = m.msgId → q.message = m.message]
    exact ⟨hknown, fun j _ m hm => hkeeps.known (h.known j m hm)⟩
  inserted := by
    rw [Function.forall_update_iff holds fun _ h => ∀ messages, h = .inserted messages → ∀ m ∈ messages,
      Inserted dates m.msgId m.message s'.activityEvents]
    exact ⟨hinserted, fun j _ messages hj m hm => (h.inserted j messages hj m hm).mono hkeeps.table⟩

theorem QueueInv.drop {s s' : Store} {tr : List (Performed ι Op Op.Reply)} {holds : ι → Holds}
    (h : QueueInv dates s tr holds) {i : ι} {p : (op : Op) × op.Reply} (hkeeps : Keeps dates s s')
    (hnew : ∀ payload id, p = ⟨.enqueue payload, .ok id⟩ → InQueue s' id payload) :
    QueueInv dates s' (tr ++ [(i, p)]) (update holds i .nothing) :=
  h.act hkeeps hnew (fun _ hm => absurd hm List.not_mem_nil) (fun _ hm => nomatch hm)

theorem known_batch {s : Store} {now : Int} {locked : List Nat} {batchSize : Nat} {m : ActivityQueueMessage}
    (hm : m ∈ (s.batch now locked batchSize).map Queued.asRead) :
    m.msgId < s.queue.nextKey ∧ ∀ q ∈ s.queue.rows, q.msgId = m.msgId → q.message = m.message := by
  obtain ⟨q, hq, rfl⟩ := List.mem_map.mp hm
  have hrow := (Table.mem_of_mem_select hq).1
  refine ⟨s.queue.bounded q hrow, fun q' hq' hid => ?_⟩
  rw [s.queue.eq_of_key hq' hrow hid]
  rfl

theorem queueInv_step {c : Running ι} {holds : ι → Holds} {i : ι} {ch : Choice} {op : Op}
    {r : op.Reply} {s : Store} (hI : QueueInv dates c.world c.trace holds)
    (hpre : (drainProtocol dates).pre (holds i) op) (hr : exec ch op c.world = some (r, s)) :
    ∃ h', (drainProtocol dates).post (holds i) op r h' ∧
      QueueInv dates s (c.trace ++ [(i, ⟨op, r⟩)]) (update holds i h') := by
  cases op with
  | enqueue payload =>
      refine ⟨.nothing, by cases r <;> rfl, ?_⟩
      have hkeeps := keeps_enqueue dates c.world ch.now payload
      rcases Outcome.answer_cases (Option.some.inj hr) with ⟨rfl, rfl⟩ | ⟨rfl, rfl | rfl⟩
      · apply hI.drop hkeeps
        intro payload' id heq
        cases heq
        exact ⟨_, Table.mem_insert.mpr (Or.inr rfl), rfl⟩
      · exact hI.drop (Keeps.refl _) fun _ _ heq => nomatch heq
      · exact hI.drop hkeeps fun _ _ heq => nomatch heq
  | begin worker =>
      refine ⟨.nothing, rfl, ?_⟩
      rw [exec] at hr
      split_ifs at hr <;> obtain ⟨rfl, rfl⟩ := Prod.mk.inj (Option.some.inj hr)
      · exact hI.drop (Keeps.refl _) fun _ _ heq => nomatch heq
      · exact hI.drop (keeps_flushing _ _) fun _ _ heq => nomatch heq
  | read batchSize visibilityTimeoutSec =>
      have hkeeps := keeps_read dates c.world ch.now ch.locked batchSize visibilityTimeoutSec
      rcases Outcome.answer_cases (Option.some.inj hr) with ⟨rfl, rfl⟩ | ⟨rfl, rfl | rfl⟩
      · refine ⟨_, rfl, hI.act hkeeps (fun _ _ heq => nomatch heq) (fun m hm => ?_) (fun _ hms => nomatch hms)⟩
        exact hkeeps.known (known_batch hm)
      · exact ⟨.nothing, rfl, hI.drop (Keeps.refl _) fun _ _ heq => nomatch heq⟩
      · exact ⟨.nothing, rfl, hI.drop hkeeps fun _ _ heq => nomatch heq⟩
  | save entities =>
      obtain ⟨messages, hread, hflat⟩ := hpre
      have hkeeps := keeps_save dates c.world entities
      rw [exec] at hr
      split_ifs at hr
      · rcases Outcome.answer_cases (Option.some.inj hr) with ⟨rfl, rfl⟩ | ⟨rfl, rfl | rfl⟩
        · refine ⟨_, rfl, hI.act hkeeps (fun _ _ heq => nomatch heq) (fun m hm => ?_) fun ms hms m hm => ?_⟩
          · exact hkeeps.known (hI.known i m hm)
          · -- each message read has its entities among those just saved
            rw [hread] at hms
            obtain rfl := Holds.inserted.inj hms
            exact (inserted_flattenBatch hflat hm).mono (List.subset_append_right _ _)
        · exact ⟨.nothing, rfl, hI.drop (Keeps.refl _) fun _ _ heq => nomatch heq⟩
        · exact ⟨.nothing, rfl, hI.drop hkeeps fun _ _ heq => nomatch heq⟩
      · obtain ⟨rfl, rfl⟩ := Prod.mk.inj (Option.some.inj hr)
        exact ⟨.nothing, rfl, hI.drop (Keeps.refl _) fun _ _ heq => nomatch heq⟩
  | deleteMany msgIds =>
      obtain ⟨messages, hinserted, rfl⟩ := hpre
      refine ⟨.nothing, rfl, ?_⟩
      have hkeeps : Keeps dates c.world { c.world with
          queue := c.world.queue.removeKeys (messages.map ActivityQueueMessage.msgId) } := by
        apply keeps_deleteMany
        intro q hq hid
        obtain ⟨m, hm, hmsgId⟩ := List.mem_map.mp hid
        have hknown := (hI.known i m (by rw [hinserted]; exact hm)).2 q hq hmsgId.symm
        rw [← hmsgId, hknown]
        exact hI.inserted i messages hinserted m hm
      rcases Outcome.answer_cases (Option.some.inj hr) with ⟨rfl, rfl⟩ | ⟨rfl, rfl | rfl⟩
      · exact hI.drop hkeeps fun _ _ heq => nomatch heq
      · exact hI.drop (Keeps.refl _) fun _ _ heq => nomatch heq
      · exact hI.drop hkeeps fun _ _ heq => nomatch heq
  | finish worker =>
      obtain ⟨rfl, rfl⟩ := Prod.mk.inj (Option.some.inj hr)
      exact ⟨.nothing, rfl, hI.drop (keeps_flushing _ _) fun _ _ heq => nomatch heq⟩

theorem follows_call (call : Call) : Follows (drainProtocol dates) (fun _ _ => True) .nothing (call.body dates) := by
  cases call with
  | saveActivities user dto deviceId =>
      apply follows_bind.mpr
      unfold saveActivities
      split_ifs
      · trivial
      · cases payloadOf user dto deviceId with
        | error e => trivial
        | ok payload =>
            refine follows_perform_bind.mpr ⟨trivial, fun r _ _ => ?_⟩
            cases r <;> trivial
  | drain worker =>
      refine follows_perform_bind.mpr ⟨trivial, fun began h' hh => ?_⟩
      cases began with
      | false => trivial
      | true =>
          rw [if_pos rfl]
          exact (follows_drainBatch h').bind fun h _ _ => ⟨trivial, fun _ _ _ => trivial⟩

section Crash

/-- A date as the agent sends it, and the validator and the engine on it. -/
def nineOClock : String := "2026-04-02T09:00:00.000Z"

def sampleDates : Dates :=
  ⟨fun s => s == nineOClock, fun s => if s = nineOClock then some 1775120400000 else none⟩

/-- A batch of one event. -/
def oneEvent (appName : Field String) : SyncActivityDto :=
  ⟨[⟨appName, .undefined, .value nineOClock, .undefined, .undefined, .value 90000, .value 7⟩]⟩

/-- The database answers at this time. -/
def answers (now : Int) : Choice := ⟨.ok, now, []⟩

/-- The batch is accepted; a worker inserts it and stops before it deletes; another inserts it again after the timeout,
and its delete fails. -/
def crashRun : List (Act Nat Choice Call) :=
  [.call 0 (.saveActivities ⟨"u", "o"⟩ (oneEvent (.value "Code")) (some "d")), .step 0 (answers 0),
    .call 1 (.drain 1), .step 1 (answers 1), .step 1 (answers 1), .step 1 (answers 2),
    .call 2 (.drain 2), .step 2 (answers 30000), .step 2 (answers 40000), .step 2 (answers 40000),
    .step 2 ⟨.failed, 40000, []⟩]

/-- The message that was accepted. -/
def acceptedPayload : ActivityQueuePayload :=
  ⟨"u", "o", some "d", [⟨some "Code", none, nineOClock, none, some 90000, some 7⟩]⟩

end Crash

end

end TimeChamp.Api
