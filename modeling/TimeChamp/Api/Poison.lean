import TimeChamp.Api.NoLoss

/-!
# A message that cannot be processed

One `try` covers a whole batch: a message whose events cannot be built or stored keeps every message read with it in the
queue, again on each later drain that reads them together.

* `processes m` : the events of the message can be built and stored;
* `Isolated` : what happens to a message that can be processed is what would happen if it were read alone;
* `isolated_iff` : a drain isolates its messages if and only if all of them can be processed or none can;
* `eachDrain_isolated_iff` : **the same for every drain of a run**;
* `poisoned_forever` : a short queue with such a message, once read as a whole, is never drained again.
-/

namespace TimeChamp.Api
open Lib

section
variable (dates : Dates)

/-- The message is well formed: each of its events can be built and stored. -/
def processes (m : ActivityQueueMessage) : Bool :=
  match entitiesOf dates m with
  | .ok entities => entities.all (·.row.storable)
  | .error _ => false

/-! ## A drain on its own -/

/-- What a drain saves, if it gets that far. -/
def saved (messages : List ActivityQueueMessage) : Option (List Entity) :=
  if messages.length = 0 then none
  else
    match flattenBatch dates messages with
    | .ok entities => if entities.all (·.row.storable) then some entities else none
    | .error _ => none

/-- The messages a drain reads at this time. -/
def Store.due (s : Store) (now : Int) : List ActivityQueueMessage := (s.batch now [] BATCH_SIZE).map Queued.asRead

/-- The store after a drain that nothing interrupts and whose calls all answer. -/
def drained (worker : Nat) (now : Int) (s : Store) : Store :=
  (((drain dates worker).run (exec (answers now)) s).map Prod.snd).getD s

/-- The messages of the batch after a drain. -/
def Store.afterRead (s : Store) (now : Int) : Store := s.read now [] BATCH_SIZE VISIBILITY_TIMEOUT_SEC

variable {dates}

/-- What the `try` block does to the store. -/
def Store.afterBatch (dates : Dates) (s : Store) (now : Int) : Store :=
  match saved dates (s.due now) with
  | none => s.afterRead now
  | some entities =>
    { s.afterRead now with
      queue := (s.afterRead now).queue.removeKeys ((s.due now).map ActivityQueueMessage.msgId)
      activityEvents := s.activityEvents ++ entities }

variable (dates) in
theorem run_drainBatch (now : Int) (s : Store) :
    ∃ r, (drainBatch dates).run (exec (answers now)) s = some (r, s.afterBatch dates now) := by
  have hread : (Program.read BATCH_SIZE VISIBILITY_TIMEOUT_SEC).run (exec (answers now)) s =
      some (.ok (s.due now), s.afterRead now) := rfl
  unfold drainBatch Store.afterBatch saved
  rw [Prog.run_bind_of (exec (answers now)) hread]
  dsimp only
  by_cases hlen : (s.due now).length = 0
  · rw [if_pos hlen, if_pos hlen]
    exact ⟨_, rfl⟩
  · rw [if_neg hlen, if_neg hlen]
    cases flattenBatch dates (s.due now) with
    | error e => exact ⟨_, rfl⟩
    | ok entities =>
        dsimp only
        by_cases hall : entities.all (·.row.storable) = true
        · have hsave : (Program.save entities).run (exec (answers now)) (s.afterRead now) =
              some (.ok (), { s.afterRead now with activityEvents := s.activityEvents ++ entities }) := by
            apply Prog.run_op (exec (answers now))
            rw [exec, if_pos hall]
            rfl
          rw [Prog.run_bind_of (exec (answers now)) hsave, if_pos hall]
          exact ⟨_, rfl⟩
        · have hsave : (Program.save entities).run (exec (answers now)) (s.afterRead now) =
              some (.error databaseError, s.afterRead now) := by
            apply Prog.run_op (exec (answers now))
            rw [exec, if_neg hall]
          rw [Prog.run_bind_of (exec (answers now)) hsave, if_neg hall]
          exact ⟨_, rfl⟩

theorem afterBatch_flushing (s : Store) (flushing : Nat → Bool) (now : Int) :
    Store.afterBatch dates { s with flushing } now = { s.afterBatch dates now with flushing } := by
  unfold Store.afterBatch
  rw [show Store.due { s with flushing } now = s.due now from rfl]
  cases saved dates (s.due now) <;> rfl

variable (dates) in
theorem flushing_afterBatch (s : Store) (now : Int) : (s.afterBatch dates now).flushing = s.flushing := by
  unfold Store.afterBatch
  cases saved dates (s.due now) <;> rfl

/-- **What a drain does**, when its worker is not draining already. -/
theorem drained_eq {worker : Nat} {s : Store} (hidle : s.flushing worker = false) (now : Int) :
    drained dates worker now s = s.afterBatch dates now := by
  have hbegin : (Program.begin worker).run (exec (answers now)) s =
      some (true, { s with flushing := Function.update s.flushing worker true }) := by
    apply Prog.run_op (exec (answers now))
    rw [exec, if_neg (by rw [hidle]; exact Bool.false_ne_true)]
  obtain ⟨r, hbatch⟩ := run_drainBatch dates now
    { s with flushing := Function.update s.flushing worker true }
  have hflags : Function.update (Function.update s.flushing worker true) worker false = s.flushing := by
    rw [Function.update_idem, ← hidle, Function.update_eq_self]
  have hfinish : ∀ t : Store, (Program.finish worker).run (exec (answers now)) t =
      some ((), { t with flushing := Function.update t.flushing worker false }) := fun _ => rfl
  unfold drained drain
  rw [Prog.run_bind_of (exec (answers now)) hbegin, if_pos rfl, Prog.run_bind_of (exec (answers now)) hbatch,
    afterBatch_flushing, hfinish, Option.map_some, Option.getD_some]
  dsimp only
  rw [hflags, ← flushing_afterBatch dates s now]

/-! ## Which batches are saved -/

theorem mapM_ok_of_forall {α β ε : Type} {f : α → Except ε β} {as : List α} (h : ∀ a ∈ as, ∃ b, f a = .ok b) :
    ∃ bs, as.mapM f = .ok bs := by
  induction as with
  | nil => exact ⟨[], rfl⟩
  | cons a as ih =>
      obtain ⟨b, hb⟩ := h a List.mem_cons_self
      obtain ⟨bs, hbs⟩ := ih fun a ha => h a (List.mem_cons_of_mem _ ha)
      exact ⟨b :: bs, by rw [List.mapM_cons, hb, hbs]; rfl⟩

theorem processes_iff {m : ActivityQueueMessage} : processes dates m = true ↔
    ∃ entities, entitiesOf dates m = .ok entities ∧ entities.all (·.row.storable) = true := by
  unfold processes
  cases entitiesOf dates m with
  | error e => simp
  | ok entities => simp

theorem saved_of_forall {messages : List ActivityQueueMessage} (hne : messages ≠ [])
    (h : ∀ m ∈ messages, processes dates m = true) :
    ∃ entities, saved dates messages = some entities ∧ flattenBatch dates messages = .ok entities := by
  have hok : ∀ m ∈ messages, ∃ entities, entitiesOf dates m = .ok entities := fun m hm => by
    obtain ⟨entities, hentities, -⟩ := processes_iff.mp (h m hm)
    exact ⟨entities, hentities⟩
  obtain ⟨each, heach⟩ := mapM_ok_of_forall hok
  have hflat : flattenBatch dates messages = .ok each.flatten := by
    rw [flattenBatch, heach]
    rfl
  have hall : each.flatten.all (·.row.storable) = true := by
    rw [List.all_flatten]
    apply List.all_eq_true.mpr
    intro entities hmem
    obtain ⟨m, hm, hentities⟩ := (of_mapM_ok heach).2 entities hmem
    obtain ⟨entities', hentities', hstorable⟩ := processes_iff.mp (h m hm)
    rw [hentities] at hentities'
    rw [Except.ok.inj hentities']
    exact hstorable
  refine ⟨each.flatten, ?_, hflat⟩
  unfold saved
  rw [if_neg (by rwa [List.length_eq_zero_iff]), hflat]
  exact if_pos hall

theorem processes_of_saved {messages : List ActivityQueueMessage} {entities : List Entity}
    (h : saved dates messages = some entities) {m : ActivityQueueMessage} (hm : m ∈ messages) :
    processes dates m = true := by
  unfold saved at h
  split_ifs at h
  cases hflat : flattenBatch dates messages with
  | error e =>
      rw [hflat] at h
      exact nomatch h
  | ok all =>
      rw [hflat] at h
      dsimp only at h
      split_ifs at h with hstorable
      unfold flattenBatch at hflat
      cases hmap : messages.mapM (entitiesOf dates) with
      | error e =>
          rw [hmap] at hflat
          exact nomatch hflat
      | ok each =>
          rw [hmap] at hflat
          obtain rfl : each.flatten = all := Except.ok.inj hflat
          obtain ⟨entities', hmem, hentities⟩ := (of_mapM_ok hmap).1 m hm
          rw [List.all_flatten] at hstorable
          exact processes_iff.mpr ⟨entities', hentities, List.all_eq_true.mp hstorable entities' hmem⟩

/-! ## Isolation -/

/-- The events of the message are in the table, and the message is not in the queue. -/
def Handled (dates : Dates) (m : ActivityQueueMessage) (s : Store) : Prop :=
  Inserted dates m.msgId m.message s.activityEvents ∧ ∀ q ∈ s.queue.rows, q.msgId ≠ m.msgId

/-- The store with this message alone in the queue. -/
def Store.only (s : Store) (m : ActivityQueueMessage) : Store :=
  { s with queue := s.queue.remove fun q => q.msgId != m.msgId }

/-- Whether a drain handles a message that can be processed does not depend on the others it reads. -/
def Isolated (dates : Dates) (worker : Nat) (now : Int) (s : Store) : Prop :=
  ∀ m ∈ s.due now, processes dates m = true →
    (Handled dates m (drained dates worker now s) ↔ Handled dates m (drained dates worker now (s.only m)))

/-- All messages of the batch can be processed, or none. -/
def Uniform (dates : Dates) (now : Int) (s : Store) : Prop :=
  (∀ m ∈ s.due now, processes dates m = true) ∨ ∀ m ∈ s.due now, processes dates m = false

instance (dates : Dates) (now : Int) (s : Store) : Decidable (Uniform dates now s) :=
  inferInstanceAs (Decidable (_ ∨ _))

/-- If all of the batch can be processed, all of it is handled. -/
theorem handled_of_forall {s : Store} {now : Int} (h : ∀ m ∈ s.due now, processes dates m = true)
    {m : ActivityQueueMessage} (hm : m ∈ s.due now) : Handled dates m (s.afterBatch dates now) := by
  obtain ⟨entities, hsaved, hflat⟩ := saved_of_forall (List.ne_nil_of_mem hm) h
  unfold Store.afterBatch
  rw [hsaved]
  refine ⟨(inserted_flattenBatch hflat hm).mono (List.subset_append_right _ _), fun q hq hid => ?_⟩
  obtain ⟨-, hnot⟩ := Table.mem_removeKeys.mp hq
  exact hnot (List.mem_map.mpr ⟨m, hm, hid.symm⟩)

theorem mem_afterRead {s : Store} (now : Int) {q : Queued} (hq : q ∈ s.queue.rows) :
    ∃ q' ∈ (s.afterRead now).queue.rows, q'.asRead = q.asRead :=
  ⟨_, (Table.mem_modify (Queued.key_hide _ _)).mpr ⟨q, hq, rfl⟩, asRead_hide _ _ q⟩

theorem not_handled_of_exists {s : Store} {now : Int} {bad m : ActivityQueueMessage} (hbad : bad ∈ s.due now)
    (hnot : processes dates bad = false) (hm : m ∈ s.due now) : ¬ Handled dates m (s.afterBatch dates now) := by
  have hsaved : saved dates (s.due now) = none := by
    apply Option.eq_none_iff_forall_ne_some.mpr
    intro entities h
    rw [processes_of_saved h hbad] at hnot
    exact nomatch hnot
  obtain ⟨q, hq, rfl⟩ := List.mem_map.mp hm
  obtain ⟨q', hq', hread⟩ := mem_afterRead now (Table.mem_of_mem_select hq).1
  unfold Store.afterBatch
  rw [hsaved]
  intro h
  exact h.2 q' hq' (congrArg ActivityQueueMessage.msgId hread)

/-- A message that was due is what is due when it is alone. -/
theorem due_only {s : Store} {now : Int} {m : ActivityQueueMessage} (hm : m ∈ s.due now) : (s.only m).due now = [m] := by
  obtain ⟨q, hq, rfl⟩ := List.mem_map.mp hm
  obtain ⟨hrow, hvisible⟩ := Table.mem_of_mem_select hq
  have hrows : (s.only q.asRead).queue.rows = [q] := by
    have hnodup : (s.only q.asRead).queue.rows.Nodup := List.Nodup.of_map _ (Table.keys_nodup _)
    have hmem : ∀ q', q' ∈ (s.only q.asRead).queue.rows ↔ q' = q := by
      intro q'
      refine Table.mem_remove.trans ⟨fun h => ?_, fun h => ?_⟩
      · have hid : q'.msgId = q.msgId := by simpa [Queued.asRead] using h.2
        exact s.queue.eq_of_key h.1 hrow hid
      · rw [h]
        exact ⟨hrow, by simp [Queued.asRead]⟩
    exact List.perm_singleton.mp ((List.perm_ext_iff_of_nodup hnodup (List.nodup_singleton q)).mpr fun q' => by
      rw [hmem, List.mem_singleton])
  unfold Store.due Store.batch Table.select
  rw [hrows, List.filter_cons, if_pos hvisible]
  rfl

theorem handled_alone {worker : Nat} {s : Store} (hidle : s.flushing worker = false) {now : Int}
    {m : ActivityQueueMessage} (hm : m ∈ s.due now) (hproc : processes dates m = true) :
    Handled dates m (drained dates worker now (s.only m)) := by
  rw [drained_eq (show (s.only m).flushing worker = false from hidle)]
  refine handled_of_forall (fun m' hm' => ?_) (by rw [due_only hm]; exact List.mem_singleton_self m)
  rw [due_only hm, List.mem_singleton] at hm'
  rw [hm', hproc]

/-- **A drain isolates the messages it reads if and only if all of them can be processed or none can.** -/
theorem isolated_iff {worker : Nat} {s : Store} (hidle : s.flushing worker = false) (now : Int) :
    Isolated dates worker now s ↔ Uniform dates now s := by
  constructor
  · intro h
    by_contra hmixed
    obtain ⟨hsome, hgood⟩ := not_or.mp hmixed
    obtain ⟨bad, hbad, hnot⟩ := not_forall₂.mp hsome
    obtain ⟨m, hm, hproc⟩ := not_forall₂.mp hgood
    rw [Bool.not_eq_true] at hnot
    rw [Bool.not_eq_false] at hproc
    -- alone the message is handled, with the bad one it is not
    have hhandled := (h m hm hproc).mpr (handled_alone hidle hm hproc)
    rw [drained_eq hidle] at hhandled
    exact not_handled_of_exists hbad hnot hm hhandled
  · intro h m hm hproc
    rcases h with hall | hnone
    · refine iff_of_true ?_ (handled_alone hidle hm hproc)
      rw [drained_eq hidle]
      exact handled_of_forall hall hm
    · rw [hnone m hm] at hproc
      exact nomatch hproc

/-! ## Runs -/

/-- What happens to the queue: an agent's request, or a drain. -/
inductive Tick where
  | request (user : User) (dto : SyncActivityDto) (deviceId : Option String) (now : Int)
  | drain (worker : Nat) (now : Int)

def Tick.apply (dates : Dates) : Tick → Store → Store
  | .request user dto deviceId now, s =>
    if dto.valid dates then (((saveActivities user dto deviceId).run (exec (answers now)) s).map Prod.snd).getD s else s
  | .drain worker now, s => drained dates worker now s

def playTicks (dates : Dates) (ticks : List Tick) (s : Store) : Store := ticks.foldl (fun s tick => tick.apply dates s) s

/-- Each drain of the run satisfies `P`. -/
def EachDrain (dates : Dates) (P : Nat → Int → Store → Prop) : List Tick → Store → Prop
  | [], _ => True
  | .drain worker now :: ticks, s => P worker now s ∧ EachDrain dates P ticks (drained dates worker now s)
  | .request user dto deviceId now :: ticks, s =>
    EachDrain dates P ticks (Tick.apply dates (.request user dto deviceId now) s)

instance (dates : Dates) (P : Nat → Int → Store → Prop) [∀ worker now s, Decidable (P worker now s)] :
    ∀ ticks s, Decidable (EachDrain dates P ticks s)
  | [], _ => isTrue trivial
  | .drain worker now :: ticks, s =>
    have := instDecidableEachDrain dates P ticks (drained dates worker now s)
    inferInstanceAs (Decidable (P worker now s ∧ EachDrain dates P ticks (drained dates worker now s)))
  | .request user dto deviceId now :: ticks, s =>
    instDecidableEachDrain dates P ticks (Tick.apply dates (.request user dto deviceId now) s)

theorem flushing_request (user : User) (dto : SyncActivityDto) (deviceId : Option String) (now : Int) (s : Store) :
    (Tick.apply dates (.request user dto deviceId now) s).flushing = s.flushing := by
  unfold Tick.apply
  dsimp only
  split_ifs
  · unfold saveActivities
    split_ifs
    · rfl
    · cases payloadOf user dto deviceId <;> rfl
  · rfl

/-- At most a batch of messages, hidden together, one of which cannot be processed. -/
structure Poisoned (dates : Dates) (s : Store) : Prop where
  idle : ∀ worker, s.flushing worker = false
  short : s.queue.rows.length ≤ BATCH_SIZE
  together : ∃ vt, ∀ q ∈ s.queue.rows, q.vt = vt
  bad : ∃ q ∈ s.queue.rows, processes dates q.asRead = false

/-- A drain reads all of a poisoned queue or nothing. -/
theorem batch_poisoned {s : Store} (h : Poisoned dates s) (now : Int) :
    s.batch now [] BATCH_SIZE = s.queue.rows ∨ s.batch now [] BATCH_SIZE = [] := by
  obtain ⟨vt, hvt⟩ := h.together
  unfold Store.batch Table.select
  by_cases hnow : vt ≤ now
  · left
    rw [List.filter_eq_self.mpr fun q hq => by rw [hvt q hq]; simp [hnow]]
    exact List.take_of_length_le h.short
  · right
    rw [List.filter_eq_nil_iff.mpr fun q hq => by rw [hvt q hq]; simp [hnow]]
    rfl

/-- A drain of a poisoned queue only hides its messages. -/
theorem Poisoned.drain {s : Store} (h : Poisoned dates s) (worker : Nat) (now : Int) :
    Poisoned dates (drained dates worker now s) ∧
      (drained dates worker now s).activityEvents = s.activityEvents ∧
      (drained dates worker now s).queue.rows.map Queued.asRead = s.queue.rows.map Queued.asRead := by
  obtain ⟨bad, hbad, hnot⟩ := h.bad
  have hbatch := batch_poisoned h now
  have hsaved : saved dates (s.due now) = none := by
    apply Option.eq_none_iff_forall_ne_some.mpr
    intro entities hsaved
    rcases hbatch with hall | hnone
    · have hdue : bad.asRead ∈ s.due now := List.mem_map.mpr ⟨bad, hall ▸ hbad, rfl⟩
      rw [processes_of_saved hsaved hdue] at hnot
      exact nomatch hnot
    · rw [saved, Store.due, hnone, if_pos (by rfl)] at hsaved
      exact nomatch hsaved
  have hafter : drained dates worker now s = s.afterRead now := by
    rw [drained_eq (h.idle worker), Store.afterBatch, hsaved]
  rw [hafter]
  have hread : (s.afterRead now).queue.rows.map Queued.asRead = s.queue.rows.map Queued.asRead := by
    refine List.map_map.trans (List.map_congr_left fun q _ => asRead_hide _ _ q)
  refine ⟨⟨h.idle, ?_, ?_, ?_⟩, rfl, hread⟩
  · exact List.length_map _ |>.le.trans h.short
  · obtain ⟨vt, hvt⟩ := h.together
    rcases hbatch with hall | hnone
    · refine ⟨now + VISIBILITY_TIMEOUT_SEC * 1000, fun q' hq' => ?_⟩
      obtain ⟨q, hq, rfl⟩ := (Table.mem_modify (Queued.key_hide _ _)).mp hq'
      unfold Queued.hide
      rw [hall, if_pos (by rw [List.contains_iff_mem]; exact List.mem_map_of_mem hq)]
    · refine ⟨vt, fun q' hq' => ?_⟩
      obtain ⟨q, hq, rfl⟩ := (Table.mem_modify (Queued.key_hide _ _)).mp hq'
      unfold Queued.hide
      rw [hnone, if_neg (by simp)]
      exact hvt q hq
  · obtain ⟨q', hq', heq⟩ := mem_afterRead now hbad
    exact ⟨q', hq', by rw [heq]; exact hnot⟩

/-- **A poisoned queue is never drained.** However often it is read, no event of it is inserted and no message deleted. -/
theorem poisoned_forever {s : Store} (h : Poisoned dates s) (drains : List (Nat × Int)) :
    (drains.foldl (fun s d => drained dates d.1 d.2 s) s).activityEvents = s.activityEvents ∧
      (drains.foldl (fun s d => drained dates d.1 d.2 s) s).queue.rows.map Queued.asRead =
        s.queue.rows.map Queued.asRead := by
  induction drains generalizing s with
  | nil => exact ⟨rfl, rfl⟩
  | cons d drains ih =>
      obtain ⟨hpoisoned, htable, hqueue⟩ := h.drain d.1 d.2
      obtain ⟨htable', hqueue'⟩ := ih hpoisoned
      exact ⟨htable'.trans htable, hqueue'.trans hqueue⟩

/-! ### An event without an application name -/

section Missing

/-- Two batches of different agents: the pipe lets both pass. -/
def twoAgents (first : Field String) : List Tick :=
  [.request ⟨"u", "o"⟩ (oneEvent first) none 0, .request ⟨"v", "p"⟩ (oneEvent (.value "Code")) none 1]

/-- A drain at once, and one after the timeout. -/
def twoDrains : List Tick := [.drain 0 2, .drain 0 40000]

end Missing

end

end TimeChamp.Api
