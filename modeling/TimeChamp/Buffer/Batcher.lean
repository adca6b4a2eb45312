import TimeChamp.Buffer.DB
import TimeChamp.Lib.Runs

/-!
# The write batcher

`internal/buffer/batcher.go`: activity events are collected and inserted in one transaction, every `window` or at `maxBatch`
events.

* `Add`, `Flush` and a timer callback each hold the mutex from start to end, and so are one step; when a timer fires is
  left to the outside, and its callback may run late, after `Stop` failed to hold it back.
* `insertActivityBatch` : the transaction, with any of its statements failing;
* `Settles added s` : the added events are those settled, each inserted or dropped, followed by those still pending;
* `Armed s` : the timer of the batcher was not stopped and its callback is still to come;
* `settles_armed` : **both hold after any interleaving, whatever fails.**
-/

namespace TimeChamp.Buffer
open TimeChamp.Lib

instance : Keyed ActivityEvent := inferInstanceAs (Keyed (Row .activityEvents))

/-- The rows of `activity_events`. Rows that are deleted later stay in this record. -/
abbrev ActivityRows := Table ActivityEvent

/-! ## The transaction -/

/-- The statement of a transaction that fails. -/
inductive BatchFault where
  | begin
  | prepare
  | exec (k : Nat)
  | commit
deriving DecidableEq

/-- What `INSERT INTO activity_events` takes of an event: `id` and `synced` get their defaults. -/
def ActivityEvent.columns (e : ActivityEvent) : ActivityEvent := { e with id := 0, synced := false }

/-- The prepared statement executed for each event, from the `k`-th on; `none` when it fails. -/
def execRows (fault : Option BatchFault) : Nat → ActivityRows → List ActivityEvent → Option ActivityRows
  | _, tx, [] => some tx
  | k, tx, e :: events =>
    if fault = some (.exec k) then none else execRows fault (k + 1) (tx.insert e.columns) events

/-- `InsertActivityBatch`; the error is the statement that failed. -/
def insertActivityBatch (rows : ActivityRows) (events : List ActivityEvent) (fault : Option BatchFault) :
    Except BatchFault Unit × ActivityRows :=
  if events.length = 0 then (.ok (), rows)
  else if fault = some .begin then (.error .begin, rows)
  else if fault = some .prepare then (.error .prepare, rows)
  else
    match execRows fault 0 rows events with
    | none => (.error (fault.getD .begin), rows)
    | some tx => if fault = some .commit then (.error .commit, rows) else (.ok (), tx)

/-- The events stored in the rows. -/
def stored (rows : ActivityRows) : List ActivityEvent := rows.rows.map ActivityEvent.columns

theorem stored_insert (rows : ActivityRows) (e : ActivityEvent) :
    stored (rows.insert e.columns) = stored rows ++ [e.columns] := by
  rw [stored, Table.insert, List.map_append]
  rfl

theorem stored_execRows {fault : Option BatchFault} {k : Nat} {rows tx : ActivityRows} {events : List ActivityEvent}
    (h : execRows fault k rows events = some tx) : stored tx = stored rows ++ events.map ActivityEvent.columns := by
  induction events generalizing k rows with
  | nil =>
      obtain rfl := Option.some.inj h
      rw [List.map_nil, List.append_nil]
  | cons e events ih =>
      rw [execRows] at h
      split at h
      next => cases h
      next => rw [ih h, stored_insert, List.append_assoc, List.map_cons, List.singleton_append]

/-- **A transaction inserts all of its events, in order, or none.** -/
theorem insertActivityBatch_cases (rows : ActivityRows) {events : List ActivityEvent} (hne : events ≠ [])
    (fault : Option BatchFault) :
    (∃ err, insertActivityBatch rows events fault = (.error err, rows)) ∨
      ∃ tx, insertActivityBatch rows events fault = (.ok (), tx) ∧
        stored tx = stored rows ++ events.map ActivityEvent.columns := by
  have hlen : events.length ≠ 0 := fun h => hne (List.length_eq_zero_iff.mp h)
  rw [insertActivityBatch, if_neg hlen]
  by_cases hbegin : fault = some .begin
  · rw [if_pos hbegin]
    exact Or.inl ⟨_, rfl⟩
  · by_cases hprepare : fault = some .prepare
    · rw [if_neg hbegin, if_pos hprepare]
      exact Or.inl ⟨_, rfl⟩
    · rw [if_neg hbegin, if_neg hprepare]
      cases htx : execRows fault 0 rows events with
      | none => exact Or.inl ⟨_, rfl⟩
      | some tx =>
          by_cases hcommit : fault = some .commit
          · exact Or.inl ⟨_, if_pos hcommit⟩
          · exact Or.inr ⟨tx, if_neg hcommit, stored_execRows htx⟩

theorem execRows_none_isSome (k : Nat) (rows : ActivityRows) (events : List ActivityEvent) :
    (execRows none k rows events).isSome = true := by
  induction events generalizing k rows with
  | nil => rfl
  | cons e events ih =>
      rw [execRows, if_neg (by simp)]
      exact ih _ _

theorem insertActivityBatch_ok (rows : ActivityRows) (events : List ActivityEvent) :
    ∃ tx, insertActivityBatch rows events none = (.ok (), tx) ∧
      stored tx = stored rows ++ events.map ActivityEvent.columns := by
  cases events with
  | nil => exact ⟨rows, rfl, by simp⟩
  | cons e events =>
      obtain ⟨tx, htx⟩ := Option.isSome_iff_exists.mp (execRows_none_isSome 0 rows (e :: events))
      refine ⟨tx, ?_, stored_execRows htx⟩
      simp [insertActivityBatch, htx]

/-! ## The batcher -/

/-- The batcher, its timers, and what it writes to: the rows and `DroppedEvents`. Timers are numbered as they are created;
`waiting` are those not yet due, `late` those whose callback was started and has not yet had the mutex. -/
structure WriteBatcher where
  pending : List ActivityEvent
  timer : Option Nat
  maxBatch : Int
  waiting : List Nat
  late : List Nat
  nextTimer : Nat
  rows : ActivityRows
  droppedEvents : Nat

def newWriteBatcher (maxBatch : Int) : WriteBatcher := ⟨[], none, maxBatch, [], [], 0, Table.empty, 0⟩

namespace WriteBatcher

/-- `timer.Stop()`: a timer that is not yet due will not fire. -/
def stop (b : WriteBatcher) (t : Nat) : WriteBatcher := { b with waiting := b.waiting.erase t }

/-- `time.AfterFunc(window, b.Flush)`. -/
def afterFunc (b : WriteBatcher) : WriteBatcher :=
  { b with timer := some b.nextTimer, waiting := b.waiting ++ [b.nextTimer], nextTimer := b.nextTimer + 1 }

/-- `flushLocked`. -/
def flushLocked (b : WriteBatcher) (fault : Option BatchFault) : WriteBatcher :=
  if b.pending.length = 0 then b
  else
    let events := b.pending
    let b := { b with pending := [] }
    let b := match b.timer with
      | some t => { b.stop t with timer := none }
      | none => b
    match insertActivityBatch b.rows events fault with
    | (.ok (), rows) => { b with rows := rows }
    | (.error _, rows) => { b with rows := rows, droppedEvents := b.droppedEvents + events.length }

/-- `Add`. -/
def add (b : WriteBatcher) (e : ActivityEvent) (fault : Option BatchFault) : WriteBatcher :=
  let b := { b with pending := b.pending ++ [e] }
  if b.maxBatch ≤ b.pending.length then b.flushLocked fault
  else if b.timer = none then b.afterFunc
  else b

/-- `Flush`. -/
def flush (b : WriteBatcher) (fault : Option BatchFault) : WriteBatcher := b.flushLocked fault

end WriteBatcher

/-- What can happen: a call, with the statement that fails in its transaction, a timer that becomes due, and the callback of
one that did. -/
inductive BatchEvent where
  | add (e : ActivityEvent) (fault : Option BatchFault)
  | flush (fault : Option BatchFault)
  | fire (t : Nat)
  | callback (t : Nat) (fault : Option BatchFault)

def batchStep : BatchEvent → WriteBatcher → Option WriteBatcher
  | .add e fault, b => some (b.add e fault)
  | .flush fault, b => some (b.flush fault)
  | .fire t, b => if t ∈ b.waiting then some { b with waiting := b.waiting.erase t, late := b.late ++ [t] } else none
  | .callback t fault, b => if t ∈ b.late then some (WriteBatcher.flush { b with late := b.late.erase t } fault) else none

/-- The events added, in order. -/
def added (es : List BatchEvent) : List ActivityEvent :=
  es.filterMap fun
    | .add e _ => some e
    | _ => none

/-! ## What becomes of an event -/

/-- What became of a settled event. -/
inductive Fate where
  | inserted
  | dropped
deriving DecidableEq

/-- **Every added event is still pending, or was inserted, or was dropped and counted.** The rows are the inserted events in
the order of `Add`. -/
def Settles (events : List ActivityEvent) (b : WriteBatcher) : Prop :=
  ∃ settled : List (ActivityEvent × Fate),
    events = settled.map Prod.fst ++ b.pending ∧
    stored b.rows = (settled.filter fun x => x.2 = .inserted).map (fun x => x.1.columns) ∧
    b.droppedEvents = settled.countP fun x => x.2 = .dropped

/-- The timer of the batcher will still call `Flush`. -/
def Armed (b : WriteBatcher) : Prop := ∃ t, b.timer = some t ∧ (t ∈ b.waiting ∨ t ∈ b.late)

theorem WriteBatcher.flushLocked_cases (b : WriteBatcher) (fault : Option BatchFault) :
    (b.pending = [] ∧ b.flushLocked fault = b) ∨
    (b.pending ≠ [] ∧ (b.flushLocked fault).pending = [] ∧ (b.flushLocked fault).timer = none ∧
      ((stored (b.flushLocked fault).rows = stored b.rows ++ b.pending.map ActivityEvent.columns ∧
          (b.flushLocked fault).droppedEvents = b.droppedEvents) ∨
        ((b.flushLocked fault).rows = b.rows ∧
          (b.flushLocked fault).droppedEvents = b.droppedEvents + b.pending.length))) := by
  by_cases hne : b.pending = []
  · exact Or.inl ⟨hne, if_pos (List.length_eq_zero_iff.mpr hne)⟩
  · refine Or.inr ⟨hne, ?_⟩
    have hlen : b.pending.length ≠ 0 := fun h => hne (List.length_eq_zero_iff.mp h)
    unfold WriteBatcher.flushLocked
    rw [if_neg hlen]
    cases ht : b.timer with
    | none =>
        rcases insertActivityBatch_cases b.rows hne fault with ⟨err, h⟩ | ⟨tx, h, hstored⟩ <;> simp only [h]
        · exact ⟨trivial, trivial, Or.inr ⟨trivial, trivial⟩⟩
        · exact ⟨trivial, trivial, Or.inl ⟨hstored, trivial⟩⟩
    | some t =>
        rcases insertActivityBatch_cases b.rows hne fault with ⟨err, h⟩ | ⟨tx, h, hstored⟩ <;>
          simp only [WriteBatcher.stop, h]
        · exact ⟨trivial, trivial, Or.inr ⟨trivial, trivial⟩⟩
        · exact ⟨trivial, trivial, Or.inl ⟨hstored, trivial⟩⟩

@[simp] theorem WriteBatcher.pending_flushLocked (b : WriteBatcher) (fault : Option BatchFault) :
    (b.flushLocked fault).pending = [] := by
  rcases b.flushLocked_cases fault with ⟨hpend, heq⟩ | ⟨-, hpend, -⟩
  · rw [heq, hpend]
  · exact hpend

@[simp] theorem WriteBatcher.maxBatch_flushLocked (b : WriteBatcher) (fault : Option BatchFault) :
    (b.flushLocked fault).maxBatch = b.maxBatch := by
  unfold WriteBatcher.flushLocked
  split
  · rfl
  · dsimp only
    split <;> split <;> rfl

@[simp] theorem WriteBatcher.droppedEvents_flushLocked (b : WriteBatcher) :
    (b.flushLocked none).droppedEvents = b.droppedEvents := by
  unfold WriteBatcher.flushLocked
  split
  · rfl
  · obtain ⟨tx, h, -⟩ := insertActivityBatch_ok b.rows b.pending
    cases b.timer <;> simp only [WriteBatcher.stop, h]

/-- The batch never exceeds its size, and is flushed when it reaches it. -/
theorem WriteBatcher.length_pending_add {b : WriteBatcher} {n : Nat} (hmax : b.maxBatch = n) (hlt : b.pending.length < n)
    (e : ActivityEvent) (fault : Option BatchFault) :
    (b.add e fault).pending.length = (b.pending.length + 1) % n := by
  unfold WriteBatcher.add
  simp only [hmax, List.length_append, List.length_singleton]
  split_ifs with hfull htimer
  · have heq : b.pending.length + 1 = n := by omega
    rw [pending_flushLocked, heq, Nat.mod_self, List.length_nil]
  · rw [Nat.mod_eq_of_lt (by omega)]
    simp [afterFunc]
  · rw [Nat.mod_eq_of_lt (by omega)]
    simp

@[simp] theorem WriteBatcher.maxBatch_add (b : WriteBatcher) (e : ActivityEvent) (fault : Option BatchFault) :
    (b.add e fault).maxBatch = b.maxBatch := by
  unfold WriteBatcher.add
  dsimp only
  split_ifs
  · exact maxBatch_flushLocked _ _
  · rfl
  · rfl

@[simp] theorem WriteBatcher.droppedEvents_add (b : WriteBatcher) (e : ActivityEvent) :
    (b.add e none).droppedEvents = b.droppedEvents := by
  unfold WriteBatcher.add
  dsimp only
  split_ifs
  · exact droppedEvents_flushLocked _
  · rfl
  · rfl

theorem Settles.flushLocked {events : List ActivityEvent} {b : WriteBatcher} (h : Settles events b)
    (fault : Option BatchFault) : Settles events (b.flushLocked fault) := by
  rcases b.flushLocked_cases fault with ⟨-, heq⟩ | ⟨-, -, -, hwritten⟩
  · rwa [heq]
  · obtain ⟨settled, hevents, hrows, hdropped⟩ := h
    rcases hwritten with ⟨hrows', hdropped'⟩ | ⟨hrows', hdropped'⟩
    · refine ⟨settled ++ b.pending.map (·, .inserted), ?_, ?_, ?_⟩
      · simp [hevents, Function.comp_def]
      · rw [hrows', hrows]
        simp [List.filter_map, Function.comp_def]
      · rw [hdropped', hdropped, List.countP_append, List.countP_map]
        simp [Function.comp_def]
    · refine ⟨settled ++ b.pending.map (·, .dropped), ?_, ?_, ?_⟩
      · simp [hevents, Function.comp_def]
      · rw [hrows', hrows]
        simp [List.filter_map, Function.comp_def]
      · rw [hdropped', hdropped, List.countP_append, List.countP_map]
        simp [Function.comp_def]

/-- A timer is set exactly while something is pending. -/
def Paired (b : WriteBatcher) : Prop := b.pending = [] ↔ b.timer = none

/-- The timer that is set will still call `Flush`. -/
def Live (b : WriteBatcher) : Prop := ∀ t, b.timer = some t → t ∈ b.waiting ∨ t ∈ b.late

theorem Paired.flushLocked {b : WriteBatcher} (h : Paired b) (fault : Option BatchFault) :
    (b.flushLocked fault).pending = [] ∧ (b.flushLocked fault).timer = none := by
  refine ⟨b.pending_flushLocked fault, ?_⟩
  rcases b.flushLocked_cases fault with ⟨hpend, heq⟩ | ⟨-, -, htimer, -⟩
  · rw [heq]
    exact h.mp hpend
  · exact htimer

/-- The invariant of the batcher. -/
structure Batching (events : List ActivityEvent) (b : WriteBatcher) : Prop where
  settles : Settles events b
  paired : Paired b
  live : Live b

theorem Batching.start (maxBatch : Int) : Batching [] (newWriteBatcher maxBatch) where
  settles := ⟨[], rfl, rfl, rfl⟩
  paired := ⟨fun _ => rfl, fun _ => rfl⟩
  live t h := by cases h

theorem Batching.of_flush {events : List ActivityEvent} {b : WriteBatcher} (hs : Settles events b) (hp : Paired b)
    (fault : Option BatchFault) : Batching events (b.flushLocked fault) := by
  obtain ⟨hpend, htimer⟩ := hp.flushLocked fault
  refine ⟨hs.flushLocked fault, ⟨fun _ => htimer, fun _ => hpend⟩, fun t ht => ?_⟩
  rw [htimer] at ht
  cases ht

theorem Batching.add {events : List ActivityEvent} {b : WriteBatcher} (h : Batching events b) (e : ActivityEvent)
    (fault : Option BatchFault) : Batching (events ++ [e]) (b.add e fault) := by
  have hs : Settles (events ++ [e]) { b with pending := b.pending ++ [e] } := by
    obtain ⟨settled, hevents, hrest⟩ := h.settles
    exact ⟨settled, by rw [hevents, List.append_assoc], hrest⟩
  unfold WriteBatcher.add
  dsimp only
  split_ifs with hfull htimer
  · -- a full batch is written at once; before it is, the timer may still be unset
    rcases WriteBatcher.flushLocked_cases { b with pending := b.pending ++ [e] } fault with ⟨hnil, -⟩ | ⟨-, -, ht, -⟩
    · simp at hnil
    · refine ⟨hs.flushLocked fault, ⟨fun _ => ht, fun _ => WriteBatcher.pending_flushLocked _ _⟩, fun t ht' => ?_⟩
      rw [ht] at ht'
      cases ht'
  · refine ⟨hs, ⟨fun hnil => by simp [WriteBatcher.afterFunc] at hnil, fun hnone => by simp [WriteBatcher.afterFunc] at hnone⟩,
      fun t ht => Or.inl ?_⟩
    obtain rfl := Option.some.inj ht
    exact List.mem_append_right _ (List.mem_singleton_self _)
  · exact ⟨hs, ⟨fun hnil => by simp at hnil, fun hnone => absurd hnone htimer⟩, h.live⟩

/-- **One step keeps the invariant.** -/
theorem Batching.step {events : List ActivityEvent} {b b' : WriteBatcher} (h : Batching events b) {e : BatchEvent}
    (hstep : batchStep e b = some b') : Batching (events ++ added [e]) b' := by
  cases e with
  | add e fault =>
      obtain rfl := Option.some.inj hstep
      exact h.add e fault
  | flush fault =>
      obtain rfl := Option.some.inj hstep
      exact (List.append_nil events).symm ▸ Batching.of_flush h.settles h.paired fault
  | fire t =>
      simp only [batchStep] at hstep
      split at hstep
      next ht =>
        obtain rfl := Option.some.inj hstep
        refine (List.append_nil events).symm ▸ ⟨h.settles, h.paired, fun t' ht' => ?_⟩
        by_cases hne : t' = t
        · exact Or.inr (List.mem_append_right _ (hne ▸ List.mem_singleton_self _))
        · exact (h.live t' ht').imp (fun hw => (List.mem_erase_of_ne hne).mpr hw) fun hl => List.mem_append_left _ hl
      next => cases hstep
  | callback t fault =>
      simp only [batchStep] at hstep
      split at hstep
      next ht =>
        obtain rfl := Option.some.inj hstep
        exact (List.append_nil events).symm ▸
          Batching.of_flush (b := { b with late := b.late.erase t }) h.settles h.paired fault
      next => cases hstep

theorem added_append (es es' : List BatchEvent) : added (es ++ es') = added es ++ added es' := List.filterMap_append ..

/-- **No event is lost, doubled or reordered, and a pending one will be flushed.** After any interleaving of `Add`, `Flush` and
timers that become due and call back late, whatever statements fail. -/
theorem settles_armed (maxBatch : Int) (es : List BatchEvent) (b : WriteBatcher)
    (h : play batchStep (newWriteBatcher maxBatch) es = some b) :
    Settles (added es) b ∧ (b.pending ≠ [] → Armed b) := by
  have hinv : Batching (added es) b :=
    play_inv (I := fun es b => Batching (added es) b) h (Batching.start maxBatch) fun es s e s' hs hstep => by
      rw [added_append]
      exact hs.step hstep
  refine ⟨hinv.settles, fun hne => ?_⟩
  cases ht : b.timer with
  | none => exact absurd (hinv.paired.mpr ht) hne
  | some t => exact ⟨t, ht, hinv.live t ht⟩

/-- An event that lasted some milliseconds. -/
def used (app : String) (ms : Int) : ActivityEvent := ⟨0, "e1", "o1", app, "", "", "", ms, 0, ms, false⟩

/-- The first timer becomes due just before a `Flush`; its callback runs late, on the next event, and that transaction
fails. -/
def lateCallback : List BatchEvent :=
  [.add (used "Chrome" 1000) none, .fire 0, .flush none, .add (used "Code" 2000) none, .callback 0 (some .commit),
    .add (used "Slack" 3000) none]

theorem settles_armed_sample :
    ∃ b, play batchStep (newWriteBatcher 200) lateCallback = some b ∧ b.pending = [used "Slack" 3000] ∧
      b.droppedEvents = 1 ∧ Settles (added lateCallback) b ∧ (b.pending ≠ [] → Armed b) := by
  have hrun : (play batchStep (newWriteBatcher 200) lateCallback).map (fun b => (b.pending, b.droppedEvents)) =
      some ([used "Slack" 3000], 1) := by decide
  obtain ⟨b, hb, heq⟩ := Option.map_eq_some_iff.mp hrun
  obtain ⟨hpend, hdropped⟩ := Prod.mk.inj heq
  exact ⟨b, hb, hpend, hdropped, settles_armed 200 lateCallback b hb⟩

end TimeChamp.Buffer
