import TimeChamp.Agent.Upload

/-!
# One event the API rejects

`FlushActivity` always posts the oldest hundred rows, and on a permanent status it changes nothing: the next call posts
the same rows again.

* `API` : a server that takes a batch of activity events exactly when all of them are acceptable, and otherwise answers
  400 or 422;
* `run_flushActivity` : what one flush does, alone and with the breaker closed;
* `all_acceptable_delivered_iff` : some number of flushes delivers every acceptable event exactly when the buffer, in
  blocks of a hundred, is acceptable blocks followed by no acceptable event at all;
* `acceptable_event_undelivered` : a rejected event in front of a good one.
-/

namespace TimeChamp.Agent
open TimeChamp.Lib TimeChamp.Heartbeat TimeChamp.Buffer TimeChamp.Sync

/-- A server that takes a batch of activity events iff all of them are acceptable, reached without failures. -/
structure API where
  acceptable : ActivityEventDTO → Bool
  answer : Op → Choice
  up : ∀ e, (answer e).error = none
  tries : 0 < (answer .rounds).number
  takes : ∀ req events, req.body = .activityPayload events → events.all acceptable = true →
    isSuccess (answer (.post req)).status = true
  rejects : ∀ req events, req.body = .activityPayload events → events.all acceptable = false →
    (answer (.post req)).status = 400 ∨ (answer (.post req)).status = 422

/-- The agent alone with the API, and the rows it delivered. -/
def API.exec (api : API) (e : Op) (s : World × List (TableName × Nat)) :
    Option (Reply e × World × List (TableName × Nat)) :=
  (Sync.exec (api.answer e) e s.1).map fun r => (r.1, r.2, s.2 ++ acceptedRows e r.1)

/-- `n` consecutive calls of `FlushActivity`. -/
def flushes : Nat → Agent Unit
  | 0 => return
  | n + 1 => do
    let _ ← flushActivity
    flushes n

section OneFlush
variable {api : API} {w : World} {log : List (TableName × Nat)}

/-- One effect of a run with the API. -/
theorem run_perform {α : Type} {e : Op} {f : Reply e → Agent α} {r : Reply e} {w' : World}
    (h : Sync.exec (api.answer e) e w = some (r, w')) :
    (Prog.perform e >>= f).run api.exec (w, log) = (f r).run api.exec (w', log ++ acceptedRows e r) := by
  apply Prog.run_op api.exec
  unfold API.exec
  rw [h]
  rfl

theorem API.fallible (api : API) (e : Op) {α : Type} (a : α) : (api.answer e).fallible a = .ok a := by
  unfold Choice.fallible
  rw [api.up]

/-- The effects of a post that go before the request, with the breaker closed. -/
theorem run_post (api : API) (log : List (TableName × Nat)) (req : Request) (hw : w.client.state = .stateClosed) :
    ∃ start rounds, (post req).run api.exec (w, log) =
      (retryLoop defaultRetry start (postAttempt req) (rounds + 1)).run api.exec (w, log) := by
  obtain ⟨rounds, hrounds⟩ : ∃ rounds, (api.answer .rounds).number = rounds + 1 :=
    ⟨_, (Nat.succ_pred_eq_of_pos api.tries).symm⟩
  have hask : Sync.exec (api.answer (.isAvailable .post)) (.isAvailable .post) w = some (true, w) := by
    simp only [Sync.exec, isAvailable_closed hw]
  have hmarshal : Sync.exec (api.answer (.marshal req.body)) (.marshal req.body) w = some (.ok (), w) := by
    simp only [Sync.exec, api.fallible]
  have hnow : Sync.exec (api.answer .now) .now w = some ((api.answer .now).now, w) := rfl
  have hloop : Sync.exec (api.answer .rounds) .rounds w = some (rounds + 1, w) := by
    simp only [Sync.exec, hrounds]
  refine ⟨(api.answer .now).now, rounds, ?_⟩
  calc (post req).run api.exec (w, log)
      = _ := run_perform hask
    _ = _ := run_perform hmarshal
    _ = _ := run_perform hnow
    _ = _ := run_perform hloop
    _ = _ := by simp only [acceptedRows, List.append_nil]

theorem run_postAttempt {req : Request} (hw : w.client.state = .stateClosed) :
    (postAttempt req).run api.exec (w, log) =
      (postOutcome req (.ok (api.answer (.post req)).status)).run api.exec
        (w, log ++ acceptedRows (.post req) (.ok (api.answer (.post req)).status)) := by
  have hopen : Sync.exec (api.answer .isBlocked) .isBlocked w = some (false, w) := by
    simp [Sync.exec, Client.isBlocked, hw]
  have hbuild : Sync.exec (api.answer (.newRequest req.path)) (.newRequest req.path) w = some (.ok (), w) := by
    simp only [Sync.exec, api.fallible]
  have hpost : Sync.exec (api.answer (.post req)) (.post req) w = some (.ok (api.answer (.post req)).status, w) := by
    simp only [Sync.exec, api.fallible]
  calc (postAttempt req).run api.exec (w, log)
      = _ := run_perform hopen
    _ = _ := run_perform hbuild
    _ = _ := run_perform hpost
    _ = _ := by simp only [acceptedRows, List.append_nil]

theorem run_post_taken (log : List (TableName × Nat)) {req : Request} {events : List ActivityEventDTO}
    (hw : w.client.state = .stateClosed) (hbody : req.body = .activityPayload events)
    (hall : events.all api.acceptable = true) :
    (post req).run api.exec (w, log) = some (none, { w with client := w.client.recordSuccess }, log ++ req.rows) := by
  have hs := api.takes req events hbody hall
  obtain ⟨start, rounds, hpost⟩ := run_post api log req hw
  have hattempt : (postAttempt req).run api.exec (w, log) =
      some ((false, none), { w with client := w.client.recordSuccess }, log ++ req.rows) := by
    rw [run_postAttempt hw]
    simp only [isSuccess, Bool.and_eq_true, Bool.not_eq_true', decide_eq_true_eq] at hs
    simp only [postOutcome, hs.1, Bool.false_eq_true, if_false, if_neg (not_le.mpr hs.2)]
    apply (run_perform rfl).trans
    simp [acceptedRows, isSuccess, hs.1, hs.2]
  rw [hpost, retryLoop, Prog.run_bind_of _ hattempt]
  rfl

/-- A batch the API rejects is given up at the first attempt, and nothing has changed. -/
theorem run_post_rejected (log : List (TableName × Nat)) {req : Request} {events : List ActivityEventDTO}
    (hw : w.client.state = .stateClosed) (hbody : req.body = .activityPayload events)
    (hall : events.all api.acceptable = false) :
    ∃ err, (post req).run api.exec (w, log) = some (some err, w, log) := by
  have hperm : isPermanentHTTPStatus (api.answer (.post req)).status = true := by
    rcases api.rejects req events hbody hall with h | h <;> rw [h] <;> rfl
  obtain ⟨start, rounds, hpost⟩ := run_post api log req hw
  have hattempt : (postAttempt req).run api.exec (w, log) =
      some ((true, some s!"permanent HTTP {(api.answer (.post req)).status} for {req.path}"), w, log) := by
    rw [run_postAttempt hw]
    simp only [postOutcome, hperm, if_true]
    apply (run_perform rfl).trans
    simp [acceptedRows, isSuccess, hperm, Client.releaseProbe, hw]
  exact ⟨_, by rw [hpost, retryLoop, Prog.run_bind_of _ hattempt]; rfl⟩

theorem run_deleteByIDs (api : API) (w : World) (log : List (TableName × Nat)) {t : TableName} {ids : List Nat}
    (hids : ids ≠ []) :
    (deleteByIDs t ids).run api.exec (w, log) = some (.ok (), { w with db := w.db.deleteByIDs t ids }, log) := by
  have hexec : Sync.exec (api.answer (.deleteByIDs t ids)) (.deleteByIDs t ids) w =
      some (.ok (), { w with db := w.db.deleteByIDs t ids }) := by
    simp only [Sync.exec, World.statement, api.fallible, api.up, if_true]
  unfold deleteByIDs
  rw [if_neg (by simpa using hids)]
  exact (run_perform (f := pure) hexec).trans (by simp only [acceptedRows, List.append_nil, Prog.run_pure])

/-- The unsynced activity events, oldest first. -/
def pending (db : DB) : List (Row .activityEvents) := (db.table .activityEvents).rows.filter unsynced

theorem pending_nodup (db : DB) : (pending db).Nodup :=
  List.Nodup.of_map _ ((db.table .activityEvents).keys_nodup.sublist (List.filter_sublist.map _))

/-- The event the API sees for a row is acceptable. -/
def API.takesRow (api : API) (r : Row .activityEvents) : Bool := api.acceptable (activityEventDTO r)

/-- The rows of a batch, as the accepted rows name them. -/
def delivered (events : List (Row .activityEvents)) : List (TableName × Nat) :=
  (events.map Row.id).map fun id => (.activityEvents, id)

theorem pending_deleteByIDs (db : DB) (n : Nat) :
    pending (db.deleteByIDs .activityEvents (((pending db).take n).map Row.id)) = (pending db).drop n := by
  unfold pending DB.deleteByIDs
  rw [DB.table_modify_self]
  exact Table.filter_removeKeys_select _ _ _

/-- **One flush.** The oldest hundred rows are delivered and deleted if the API takes all of them; otherwise nothing
changes. Either way the breaker stays closed. -/
theorem run_flushActivity (api : API) (log : List (TableName × Nat)) (hw : w.client.state = .stateClosed) :
    ∃ res w', flushActivity.run api.exec (w, log) = some (res, w',
        if ((pending w.db).take batchSize).all api.takesRow then log ++ delivered ((pending w.db).take batchSize)
        else log) ∧
      w'.client.state = .stateClosed ∧
      pending w'.db =
        if ((pending w.db).take batchSize).all api.takesRow then (pending w.db).drop batchSize else pending w.db := by
  have hgate : Sync.exec (api.answer (.isAvailable (.flush .activityEvents)))
      (.isAvailable (.flush .activityEvents)) w = some (true, w) := by
    simp only [Sync.exec, isAvailable_closed hw]
  have hlist : Sync.exec (api.answer (.listUnsynced .activityEvents batchSize))
      (.listUnsynced .activityEvents batchSize) w = some (.ok ((pending w.db).take batchSize), w) := by
    simp only [Sync.exec, api.fallible]
    rfl
  have hstart : flushActivity.run api.exec (w, log) = _ := (run_perform hgate).trans (run_perform hlist)
  simp only [acceptedRows, List.append_nil] at hstart
  have hbody : (activityFlush.request ((pending w.db).take batchSize)).body =
      .activityPayload (((pending w.db).take batchSize).map activityEventDTO) := rfl
  have hmap : (((pending w.db).take batchSize).map activityEventDTO).all api.acceptable =
      ((pending w.db).take batchSize).all api.takesRow := List.all_map
  by_cases hempty : ((pending w.db).take batchSize).isEmpty = true
  · have hnil : pending w.db = [] := by simpa [batchSize] using hempty
    refine ⟨(0, none), w, ?_, hw, by simp [hnil]⟩
    rw [hstart, if_pos hempty]
    simp [hnil, delivered]
  · rw [if_neg hempty] at hstart
    by_cases hall : ((pending w.db).take batchSize).all api.takesRow = true
    · have hpost := run_post_taken log hw hbody (hmap.trans hall)
      have hids : ((pending w.db).take batchSize).map Row.id ≠ [] := by simpa using hempty
      have hdelete := run_deleteByIDs api { w with client := w.client.recordSuccess }
        (log ++ delivered ((pending w.db).take batchSize)) (t := .activityEvents) hids
      refine ⟨(((pending w.db).take batchSize).length, none),
        { w with
          client := w.client.recordSuccess
          db := w.db.deleteByIDs .activityEvents (((pending w.db).take batchSize).map Row.id) }, ?_, rfl, ?_⟩
      · rw [hstart, if_pos hall, Prog.run_bind_of _ hpost]
        exact Prog.run_bind_of _ hdelete
      · rw [if_pos hall]
        exact pending_deleteByIDs w.db batchSize
    · have hall' : ((pending w.db).take batchSize).all api.takesRow = false := by simpa using hall
      obtain ⟨err, hpost⟩ := run_post_rejected log hw hbody (hmap.trans hall')
      refine ⟨(0, some ("upload activity: " ++ err)), w, ?_, hw, by rw [if_neg hall]⟩
      rw [hstart, if_neg hall, Prog.run_bind_of _ hpost]
      rfl

end OneFlush

/-! ## Iterated flushes -/

theorem delivered_append (l l' : List (Row .activityEvents)) : delivered (l ++ l') = delivered l ++ delivered l' := by
  simp [delivered]

theorem mem_delivered {l : List (Row .activityEvents)} {id : Nat} :
    (.activityEvents, id) ∈ delivered l ↔ ∃ r ∈ l, Row.id r = id := by
  simp [delivered]

theorem take_blocks {α : Type} (l : List α) (k : Nat) :
    l.take (batchSize * (k + 1)) = l.take batchSize ++ (l.drop batchSize).take (batchSize * k) := by
  rw [Nat.mul_succ, Nat.add_comm, List.take_add]

/-- **Some flushes.** They deliver the first `k` blocks of a hundred, all of them acceptable, and stop early only at a
block with an event the API rejects. -/
theorem run_flushes (api : API) (n : Nat) {w : World} (log : List (TableName × Nat))
    (hw : w.client.state = .stateClosed) :
    ∃ k w', k ≤ n ∧
      (flushes n).run api.exec (w, log) = some ((), w', log ++ delivered ((pending w.db).take (batchSize * k))) ∧
      ((pending w.db).take (batchSize * k)).all api.takesRow = true ∧
      (k = n ∨ (((pending w.db).drop (batchSize * k)).take batchSize).all api.takesRow = false) := by
  induction n generalizing w log with
  | zero => exact ⟨0, w, le_rfl, by simp [flushes, delivered], by simp, Or.inl rfl⟩
  | succ n ih =>
      obtain ⟨res, w₁, hrun, hw₁, hpending⟩ := run_flushActivity api log hw
      have hstep : (flushes (n + 1)).run api.exec (w, log) = _ := Prog.run_bind_of _ hrun
      by_cases hall : ((pending w.db).take batchSize).all api.takesRow = true
      · rw [if_pos hall] at hstep hpending
        obtain ⟨k, w', hk, hrest, hok, hstop⟩ := ih (log ++ delivered ((pending w.db).take batchSize)) hw₁
        rw [hpending] at hrest hok hstop
        refine ⟨k + 1, w', Nat.succ_le_succ hk, ?_, ?_, hstop.imp (congrArg (· + 1)) fun hbad => ?_⟩
        · rw [hstep, hrest, take_blocks, delivered_append, List.append_assoc]
        · rw [take_blocks, List.all_append, hall, hok, Bool.and_self]
        · rwa [Nat.mul_succ, Nat.add_comm, ← List.drop_drop]
      · rw [if_neg hall] at hstep hpending
        obtain ⟨k, w', -, hrest, hok, -⟩ := ih log hw₁
        rw [hpending] at hrest hok
        -- the first block is rejected, so no later flush gets past it
        have hk : k = 0 := by
          cases k with
          | zero => rfl
          | succ k =>
              rw [take_blocks, List.all_append, Bool.and_eq_true] at hok
              exact absurd hok.1 hall
        subst hk
        exact ⟨0, w', Nat.zero_le _, hstep.trans hrest, hok, Or.inr (by simpa using hall)⟩

/-- **When flushing delivers everything acceptable.** Some number of consecutive flushes delivers every acceptable
event of the buffer exactly when, in blocks of a hundred from the oldest, it is blocks of acceptable events followed
by events none of which is acceptable: the first block with a rejected event is never passed. -/
theorem all_acceptable_delivered_iff (api : API) (db : DB) :
    (∃ n w log, (flushes n).run api.exec (World.start db, []) = some ((), w, log) ∧
        ∀ r ∈ pending db, api.takesRow r = true → (.activityEvents, Row.id r) ∈ log) ↔
      ∃ k, (∀ r ∈ (pending db).take (batchSize * k), api.takesRow r = true) ∧
        ∀ r ∈ (pending db).drop (batchSize * k), api.takesRow r = false := by
  have hclosed : (World.start db).client.state = .stateClosed := rfl
  constructor
  · rintro ⟨n, w, log, hrun, hall⟩
    obtain ⟨k, w', -, hrun', hok, -⟩ := run_flushes api n [] hclosed
    rw [hrun', List.nil_append] at hrun
    cases hrun
    refine ⟨k, List.all_eq_true.mp hok, fun r hr => ?_⟩
    by_contra hyes
    -- an acceptable event behind the delivered blocks would have been delivered with them
    have hrow := List.mem_of_mem_drop hr
    obtain ⟨s, hs, hid⟩ := mem_delivered.mp (hall r hrow (by simpa using hyes))
    have hsr : s = r :=
      Table.eq_of_key _ (List.mem_filter.mp (List.mem_of_mem_take hs)).1 (List.mem_filter.mp hrow).1 hid
    exact List.disjoint_take_drop (pending_nodup db) le_rfl (hsr ▸ hs) hr
  · rintro ⟨k, hok, hbad⟩
    obtain ⟨k', w', hle, hrun, -, hstop⟩ := run_flushes api k [] hclosed
    refine ⟨k, w', _, hrun, fun r hr hyes => ?_⟩
    have hfront : r ∈ (pending db).take (batchSize * k) := by
      rw [← List.take_append_drop (batchSize * k) (pending db)] at hr
      rcases List.mem_append.mp hr with h | h
      · exact h
      · rw [hbad r h] at hyes
        cases hyes
    have hk : k' = k := by
      rcases hstop with h | h
      · exact h
      · by_contra hne
        -- the block flushing stopped at lies in the acceptable blocks
        have hblock : batchSize * k' + batchSize ≤ batchSize * k := by
          rw [← Nat.mul_succ]
          exact Nat.mul_le_mul_left _ (Nat.lt_of_le_of_ne hle hne)
        rw [Bool.eq_false_iff] at h
        refine h (List.all_eq_true.mpr fun s hs => hok s ?_)
        rw [List.take_drop] at hs
        exact List.take_subset_take_left _ hblock (List.mem_of_mem_drop hs)
    rw [hk, List.nil_append]
    exact mem_delivered.mpr ⟨r, hfront, rfl⟩

/-- An API that validates `durationMs` as the sync endpoint does: not below zero. -/
def minDurationAPI : API where
  acceptable event := 0 ≤ event.durationMs
  answer e :=
    match e with
    | .post ⟨_, .activityPayload events, _⟩ =>
      { status := if events.all fun event => 0 ≤ event.durationMs then 200 else 400 }
    | _ => { number := 8 }
  up e := by split <;> rfl
  tries := by decide
  takes req events hbody hall := by
    obtain ⟨path, body, rows⟩ := req
    cases hbody
    simp only [hall, if_true]
    decide
  rejects req events hbody hall := by
    obtain ⟨path, body, rows⟩ := req
    cases hbody
    exact Or.inl (if_neg (by simpa using hall))

/-- A row of the buffer with the given duration. -/
def lasting (id : Nat) (durationMs : Int) : Row .activityEvents :=
  ActivityEvent.mk id "emp" "org" "Code" "main.go" "" "" durationMs 0 0 false

/-- An event with a negative duration, and a good one behind it. -/
def badFirst : DB := DB.empty.insert .activityEvents [lasting 0 (-1000), lasting 0 60000]

/-- The good event is never delivered, however often the buffer is flushed. -/
theorem good_event_blocked (n : Nat) {w : World} {log : List (TableName × Nat)}
    (hrun : (flushes n).run minDurationAPI.exec (World.start badFirst, []) = some ((), w, log)) : log = [] := by
  obtain ⟨k, w', -, hrun', hok, -⟩ := run_flushes minDurationAPI n (w := World.start badFirst) [] rfl
  rw [hrun', List.nil_append] at hrun
  cases hrun
  cases k with
  | zero => rfl
  | succ k =>
      rw [take_blocks, List.all_append, Bool.and_eq_true] at hok
      exact absurd hok.1 (by decide +kernel)

theorem acceptable_event_undelivered :
    ¬ ∃ n w log, (flushes n).run minDurationAPI.exec (World.start badFirst, []) = some ((), w, log) ∧
      ∀ r ∈ pending badFirst, minDurationAPI.takesRow r = true → (.activityEvents, Row.id r) ∈ log := by
  rintro ⟨n, w, log, hrun, hall⟩
  have hgood := hall (lasting 2 60000) (by decide +kernel) (by decide +kernel)
  rw [good_event_blocked n hrun] at hgood
  cases hgood

end TimeChamp.Agent
