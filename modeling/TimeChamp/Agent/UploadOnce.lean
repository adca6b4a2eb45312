import TimeChamp.Agent.Retention

/-!
# Uploading each row once

* `carrying i tr` : the table whose batch goroutine `i` has listed and not deleted yet;
* `Succeeds` : no list, post or delete of a flush fails; `Alone` : a table is listed only when no other goroutine
  carries a batch of it;
* `accepted_nodup` : in every run whose actions succeed and are alone, each row is in at most one accepted request,
  and once in it;
* `row_accepted_twice` : the sync tick and the sleep-resume flush list the same row, and both post it.
-/

namespace TimeChamp.Agent
open TimeChamp.Lib TimeChamp.Heartbeat TimeChamp.Buffer TimeChamp.Sync
open Function (update)

/-! ## Who carries a batch -/

/-- The table of the batch carried, after one effect. -/
def carry (s : Option TableName) : (e : Op) → Reply e → Option TableName
  | .listUnsynced t _, .ok events => if t = .screenshots then s else if events.isEmpty then none else some t
  | .deleteByIDs t _, .ok _ => if t = .screenshots then s else none
  | _, _ => s

/-- The table whose batch the goroutine has listed and not deleted yet. -/
def carrying {ι : Type} [DecidableEq ι] (i : ι) (tr : List (Performed ι Op Reply)) : Option TableName :=
  tr.foldl (fun s p => if p.1 = i then carry s p.2.1 p.2.2 else s) none

theorem carrying_snoc_self {ι : Type} [DecidableEq ι] (i : ι) (tr : List (Performed ι Op Reply)) (e : Op) (r : Reply e) :
    carrying i (tr ++ [(i, ⟨e, r⟩)]) = carry (carrying i tr) e r := by
  simp [carrying]

theorem carrying_snoc_of_ne {ι : Type} [DecidableEq ι] {i j : ι} (hij : j ≠ i) (tr : List (Performed ι Op Reply))
    (e : Op) (r : Reply e) : carrying i (tr ++ [(j, ⟨e, r⟩)]) = carrying i tr := by
  simp [carrying, hij]

/-- The table of a ghost batch. -/
def Batch.table : Batch → Option TableName
  | .idle => none
  | .listed t _ | .posted t _ => some t

theorem Batch.table_accept (m : Batch) (rows : List (TableName × Nat)) : (m.accept rows).table = m.table := by
  cases m with
  | listed t ids =>
      simp only [Batch.accept]
      split_ifs <;> rfl
  | _ => rfl

/-- The ghost mode and the trace agree on what is carried. -/
theorem table_next (m : Batch) (e : Op) (r : Reply e) : (m.next e r).table = carry m.table e r := by
  cases e with
  | listUnsynced t limit =>
      cases r with
      | error err => rfl
      | ok events =>
          simp only [Batch.next, carry]
          split_ifs <;> rfl
  | deleteByIDs t ids =>
      cases r with
      | error err => rfl
      | ok _ =>
          simp only [Batch.next, carry]
          split_ifs <;> rfl
  | post req =>
      cases r with
      | error err => rfl
      | ok status =>
          simp only [Batch.next, carry]
          split_ifs
          · exact m.table_accept _
          · rfl
  | _ => rfl

/-! ## The condition -/

/-- Nothing fails for a goroutine that carries a batch. -/
def Succeeds {ι : Type} [DecidableEq ι] (c : Config ι Op Reply World) (a : Act ι Choice Job) : Prop :=
  (carrying a.who c.trace).isSome = true → ∀ p ∈ c.performs a, ∀ x ∈ exec p.1 p.2 c.world, failed p.2 x.1 = false

/-- The uploaded table an effect lists. -/
def lists : Op → Option TableName
  | .listUnsynced t _ => if t = .screenshots then none else some t
  | _ => none

/-- A table is listed only when no other goroutine carries a batch of it. -/
def Alone {ι : Type} [DecidableEq ι] (c : Config ι Op Reply World) (a : Act ι Choice Job) : Prop :=
  ∀ p ∈ c.performs a, ∀ t ∈ lists p.2, ∀ j, j ≠ a.who → carrying j c.trace ≠ some t

section Decidable
variable {ι : Type} [DecidableEq ι] (c : Config ι Op Reply World) (a : Act ι Choice Job)

instance : Decidable (Succeeds c a) :=
  inferInstanceAs (Decidable (_ = true → ∀ p ∈ c.performs a, ∀ x ∈ exec p.1 p.2 c.world, failed p.2 x.1 = false))

instance [Fintype ι] : Decidable (Alone c a) :=
  inferInstanceAs (Decidable (∀ p ∈ c.performs a, ∀ t ∈ lists p.2, ∀ j, j ≠ a.who → carrying j c.trace ≠ some t))

end Decidable

/-! ## The invariant -/

/-- The ghost state of the uploads: no row accepted twice; an accepted row still in the buffer is in a posted batch; a
listed batch is of rows not accepted yet; batches of one table are carried by one goroutine. -/
structure Once {ι : Type} [DecidableEq ι] (w : World) (tr : List (Performed ι Op Reply)) (m : ι → Batch) : Prop where
  nodup : (accepted tr).Nodup
  kept : ∀ t id, (t, id) ∈ accepted tr → id < (w.db.table t).nextKey ∧
    ∀ r ∈ (w.db.table t).rows, Row.id r = id → ∃ i ids, m i = .posted t ids ∧ id ∈ ids
  listed : ∀ i t ids, m i = .listed t ids →
    ids.Nodup ∧ ∀ id ∈ ids, id < (w.db.table t).nextKey ∧ (t, id) ∉ accepted tr
  alone : ∀ i j t, (m i).table = some t → (m j).table = some t → i = j
  carried : ∀ i, carrying i tr = (m i).table

section Steps
variable {ι : Type} [DecidableEq ι] {w w' : World} {tr : List (Performed ι Op Reply)} {m : ι → Batch} {i : ι} {e : Op}
  {r : Reply e}

theorem Once.carried_snoc (h : Once w tr m) (j : ι) :
    carrying j (tr ++ [(i, ⟨e, r⟩)]) = (update m i ((m i).next e r) j).table := by
  by_cases hj : j = i
  · subst hj
    rw [carrying_snoc_self, h.carried, Function.update_self, table_next]
  · rw [carrying_snoc_of_ne (Ne.symm hj), h.carried, Function.update_of_ne hj]

theorem Once.quiet (h : Once w tr m) (hev : ∀ t, Table.Evolves (w.db.table t) (w'.db.table t))
    (hacc : acceptedRows e r = []) (hmode : (m i).next e r = m i) :
    Once w' (tr ++ [(i, ⟨e, r⟩)]) (update m i ((m i).next e r)) := by
  have hcarried := h.carried_snoc (i := i) (e := e) (r := r)
  rw [hmode, Function.update_eq_self] at hcarried ⊢
  have hsame : accepted (tr ++ [(i, ⟨e, r⟩)]) = accepted tr := by rw [accepted_snoc, hacc, List.append_nil]
  refine ⟨hsame ▸ h.nodup, fun t id hid => ?_, fun j t ids hm => ?_, h.alone, hcarried⟩
  · obtain ⟨hlt, hrows⟩ := h.kept t id (hsame ▸ hid)
    refine ⟨Nat.lt_of_lt_of_le hlt (hev t).1, fun s hs hsid => ?_⟩
    rcases (hev t).2 s hs with hold | hnew
    · exact hrows s hold hsid
    · exact absurd hlt (Nat.not_lt.mpr (hsid ▸ hnew))
  · obtain ⟨hnodup, hids⟩ := h.listed j t ids hm
    refine ⟨hnodup, fun id hid => ?_⟩
    rw [hsame]
    exact ⟨Nat.lt_of_lt_of_le (hids id hid).1 (hev t).1, (hids id hid).2⟩

/-- A goroutine that takes a new mode shares its table with nobody, if it did not before. -/
theorem alone_update {m' : Batch} (h : ∀ i j t, (m i).table = some t → (m j).table = some t → i = j)
    (hnew : ∀ t, m'.table = some t → ∀ j, j ≠ i → (m j).table ≠ some t) (a b : ι) (t : TableName)
    (ha : (update m i m' a).table = some t) (hb : (update m i m' b).table = some t) : a = b :=
  exclusive_update (fun (batch : Batch) t => batch.table = some t) h hnew a b t ha hb

theorem Once.list {t : TableName} {limit : Nat} (h : Once w tr m) (hi : m i = .idle) (ht : t ≠ .screenshots)
    (halone : ∀ j, j ≠ i → carrying j tr ≠ some t) :
    Once w (tr ++ [(i, ⟨.listUnsynced t limit, .ok (w.db.listUnsynced t limit)⟩)])
      (update m i ((m i).next (.listUnsynced t limit) (.ok (w.db.listUnsynced t limit)))) := by
  have hnext : (m i).next (.listUnsynced t limit) (.ok (w.db.listUnsynced t limit)) =
      if (w.db.listUnsynced t limit).isEmpty then .idle else .listed t ((w.db.listUnsynced t limit).map Row.id) :=
    if_neg ht
  by_cases hempty : (w.db.listUnsynced t limit).isEmpty = true
  · exact h.quiet (fun _ => .refl _) rfl (by rw [hnext, if_pos hempty, hi])
  · have hcarried := h.carried_snoc (i := i) (e := .listUnsynced t limit) (r := .ok (w.db.listUnsynced t limit))
    have hsame : accepted (tr ++ [(i, ⟨.listUnsynced t limit, .ok (w.db.listUnsynced t limit)⟩)]) = accepted tr := by
      rw [accepted_snoc]
      exact List.append_nil _
    rw [hnext, if_neg hempty] at hcarried ⊢
    refine ⟨hsame ▸ h.nodup, fun t' id hid => ?_, fun j t' ids hm => ?_, alone_update h.alone ?_, hcarried⟩
    · obtain ⟨hlt, hrows⟩ := h.kept t' id (hsame ▸ hid)
      refine ⟨hlt, fun s hs hsid => ?_⟩
      obtain ⟨j, ids, hj, hmem⟩ := hrows s hs hsid
      -- who has posted is not the goroutine that lists
      have hne : j ≠ i := fun heq => by
        rw [heq, hi] at hj
        cases hj
      exact ⟨j, ids, by rw [Function.update_of_ne hne, hj], hmem⟩
    · rw [hsame]
      by_cases hj : j = i
      · subst hj
        rw [Function.update_self] at hm
        cases hm
        refine ⟨Table.select_keys_nodup _ _ _, fun id hid => ?_⟩
        obtain ⟨s, hs, rfl⟩ := List.mem_map.mp hid
        have hrow := (Table.mem_of_mem_select hs).1
        -- an accepted row still in the table is in a batch posted by another, who would still carry it
        refine ⟨(w.db.table t).bounded s hrow, fun hacc => ?_⟩
        obtain ⟨j', ids', hj', -⟩ := (h.kept t _ hacc).2 s hrow rfl
        have hne : j' ≠ j := fun heq => by
          rw [heq, hi] at hj'
          cases hj'
        exact halone j' hne (by rw [h.carried, hj']; rfl)
      · rw [Function.update_of_ne hj] at hm
        exact h.listed j t' ids hm
    · rintro t' ht' j hj
      cases ht'
      rw [← h.carried]
      exact halone j hj

theorem Once.post {t : TableName} {ids : List Nat} {req : Request} {status : Nat} (h : Once w tr m)
    (hi : m i = .listed t ids) (hreq : req.rows = rowsOf t ids) (hs : isSuccess status = true) :
    Once w (tr ++ [(i, ⟨.post req, .ok status⟩)]) (update m i ((m i).next (.post req) (.ok status))) := by
  have hcarried := h.carried_snoc (i := i) (e := .post req) (r := .ok status)
  have hnext : (m i).next (.post req) (.ok status) = .posted t ids := by
    rw [hi]
    exact (if_pos hs).trans (accept_listed hreq)
  have hacc : accepted (tr ++ [(i, ⟨.post req, .ok status⟩)]) = accepted tr ++ rowsOf t ids := by
    rw [accepted_snoc, ← hreq]
    exact congrArg _ (if_pos hs)
  obtain ⟨hnodup, hids⟩ := h.listed i t ids hi
  have hmem : ∀ t' id, (t', id) ∈ rowsOf t ids ↔ t' = t ∧ id ∈ ids := by
    intro t' id
    simp [rowsOf, and_comm, eq_comm]
  rw [hnext] at hcarried ⊢
  refine ⟨?_, fun t' id hid => ?_, fun j t' ids' hm => ?_, alone_update h.alone ?_, hcarried⟩
  · rw [hacc]
    refine List.nodup_append.mpr ⟨h.nodup, hnodup.map fun a b hab => (Prod.mk.inj hab).2, ?_⟩
    rintro ⟨t', id⟩ hold _ hnew rfl
    obtain ⟨rfl, hid⟩ := (hmem t' id).mp hnew
    exact (hids id hid).2 hold
  · rw [hacc] at hid
    rcases List.mem_append.mp hid with hold | hnew
    · obtain ⟨hlt, hrows⟩ := h.kept t' id hold
      refine ⟨hlt, fun s hs hsid => ?_⟩
      obtain ⟨j, ids', hj, hmem'⟩ := hrows s hs hsid
      have hne : j ≠ i := fun heq => by
        rw [heq, hi] at hj
        cases hj
      exact ⟨j, ids', by rw [Function.update_of_ne hne, hj], hmem'⟩
    · obtain ⟨rfl, hid'⟩ := (hmem t' id).mp hnew
      exact ⟨(hids id hid').1, fun _ _ _ => ⟨i, ids, Function.update_self .., hid'⟩⟩
  · by_cases hj : j = i
    · subst hj
      rw [Function.update_self] at hm
      cases hm
    · rw [Function.update_of_ne hj] at hm
      obtain ⟨hnodup', hids'⟩ := h.listed j t' ids' hm
      refine ⟨hnodup', fun id hid => ⟨(hids' id hid).1, fun hmem' => ?_⟩⟩
      rw [hacc] at hmem'
      rcases List.mem_append.mp hmem' with hold | hnew
      · exact (hids' id hid).2 hold
      · obtain ⟨rfl, -⟩ := (hmem t' id).mp hnew
        exact hj (h.alone j i t' (by rw [hm]; rfl) (by rw [hi]; rfl))
  · rintro t' ht' j hj hj'
    cases ht'
    exact hj (h.alone j i t hj' (by rw [hi]; rfl))

theorem Once.delete {t : TableName} {ids : List Nat} (h : Once w tr m) (hi : m i = .posted t ids)
    (ht : t ≠ .screenshots) (hdb : w'.db = w.db.deleteByIDs t ids) :
    Once w' (tr ++ [(i, ⟨.deleteByIDs t ids, .ok ()⟩)]) (update m i ((m i).next (.deleteByIDs t ids) (.ok ()))) := by
  have hcarried := h.carried_snoc (i := i) (e := .deleteByIDs t ids) (r := .ok ())
  have hnext : (m i).next (.deleteByIDs t ids) (.ok ()) = .idle := if_neg ht
  have hsame : accepted (tr ++ [(i, ⟨.deleteByIDs t ids, .ok ()⟩)]) = accepted tr := by
    rw [accepted_snoc]
    exact List.append_nil _
  have hev : ∀ t', Table.Evolves (w.db.table t') (w'.db.table t') := fun t' => by
    rw [hdb]
    exact evolves_onDB (.deleteByIDs t ids) w.db t'
  have hgone : ∀ s ∈ (w'.db.table t).rows, Row.id s ∉ ids := fun s hs => by
    rw [hdb, DB.deleteByIDs, DB.table_modify_self] at hs
    exact (Table.mem_removeKeys.mp hs).2
  rw [hnext] at hcarried ⊢
  refine ⟨hsame ▸ h.nodup, fun t' id hid => ?_, fun j t' ids' hm => ?_, alone_update h.alone ?_, hcarried⟩
  · obtain ⟨hlt, hrows⟩ := h.kept t' id (hsame ▸ hid)
    refine ⟨Nat.lt_of_lt_of_le hlt (hev t').1, fun s hs hsid => ?_⟩
    rcases (hev t').2 s hs with hold | hnew
    · obtain ⟨j, ids', hj, hmem⟩ := hrows s hold hsid
      -- a row that survived is in the batch of another
      have hne : j ≠ i := fun heq => by
        rw [heq, hi] at hj
        cases hj
        exact hgone s hs (hsid ▸ hmem)
      exact ⟨j, ids', by rw [Function.update_of_ne hne, hj], hmem⟩
    · exact absurd hlt (Nat.not_lt.mpr (hsid ▸ hnew))
  · by_cases hj : j = i
    · subst hj
      rw [Function.update_self] at hm
      cases hm
    · rw [Function.update_of_ne hj] at hm
      obtain ⟨hnodup, hids⟩ := h.listed j t' ids' hm
      refine ⟨hnodup, fun id hid => ?_⟩
      rw [hsame]
      exact ⟨Nat.lt_of_lt_of_le (hids id hid).1 (hev t').1, (hids id hid).2⟩
  · rintro t' ht'
    cases ht'

theorem accept_of_not {b : Batch} {rows : List (TableName × Nat)} (h : ¬ ∃ t ids, b = .listed t ids ∧ rows = rowsOf t ids) :
    b.accept rows = b := by
  cases b with
  | listed t ids => exact if_neg fun hrows => h ⟨t, ids, rfl, hrows⟩
  | _ => rfl

/-- **One effect.** Whatever a goroutine does, the ghost state stays consistent: what it may do depends on its mode,
and it lists a table only when nobody else carries a batch of it. -/
theorem Once.step {ch : Choice} (h : Once w tr m) (hpre : (uploadProtocol false).pre (m i) e)
    (halone : ∀ t ∈ lists e, ∀ j, j ≠ i → carrying j tr ≠ some t) (hexec : exec ch e w = some (r, w')) :
    Once w' (tr ++ [(i, ⟨e, r⟩)]) (update m i ((m i).next e r)) := by
  have hev := exec_evolves hexec
  cases e with
  | listUnsynced t limit =>
      simp only [exec, Choice.fallible, Option.some.injEq, Prod.mk.injEq] at hexec
      obtain ⟨hr, rfl⟩ := hexec
      cases herr : ch.error with
      | some err =>
          rw [herr] at hr
          subst hr
          exact h.quiet hev rfl rfl
      | none =>
          rw [herr] at hr
          subst hr
          by_cases ht : t = .screenshots
          · exact h.quiet hev rfl (if_pos ht)
          · have hidle : m i = .idle := (hpre.resolve_left ht).resolve_left (by simp)
            refine h.list hidle ht fun j hj => halone t ?_ j hj
            simp [lists, ht]
  | post req =>
      simp only [exec, Option.some.injEq, Prod.mk.injEq] at hexec
      obtain ⟨-, rfl⟩ := hexec
      cases r with
      | error err => exact h.quiet hev rfl rfl
      | ok status =>
          by_cases hs : isSuccess status = true
          · by_cases hbatch : ∃ t ids, m i = .listed t ids ∧ req.rows = rowsOf t ids
            · obtain ⟨t, ids, hi, hreq⟩ := hbatch
              exact h.post hi hreq hs
            · have hrows : req.rows = [] := hpre.resolve_right hbatch
              exact h.quiet hev ((if_pos hs).trans hrows) ((if_pos hs).trans (accept_of_not hbatch))
          · exact h.quiet hev (if_neg hs) (if_neg hs)
  | deleteByIDs t ids =>
      cases r with
      | error err => exact h.quiet hev rfl rfl
      | ok _ =>
          by_cases ht : t = .screenshots
          · exact h.quiet hev rfl (if_pos ht)
          · have hok : ch.error = none := (Choice.fallible_ok.mp (congrArg Prod.fst (Option.some.inj hexec))).1
            have hdb := exec_db hexec
            rw [if_pos hok] at hdb
            exact h.delete (hpre.resolve_left ht) ht hdb
  | _ => exact h.quiet hev rfl rfl

end Steps

/-! ## Runs -/

section Runs
variable {ι : Type} [DecidableEq ι]

theorem once_of_reaches {db : DB} {c : Config ι Op Reply World}
    (h : Reaches agent (fun c a => Succeeds c a ∧ Alone c a) (Config.start (World.start db)) c) :
    ∃ m : ι → Batch, Once c.world c.trace m ∧ ∀ i, Uploads false (m i) (c.thread i) := by
  refine Reaches.inv (P := uploadProtocol false) (F := Settled false) Once ?_ ?_ ?_ h
  · exact ⟨fun _ => .idle, ⟨List.nodup_nil, fun _ _ h => (by cases h), fun _ _ _ h => (by cases h),
      fun _ _ _ h => (by cases h), fun _ => rfl⟩, fun _ _ => rfl⟩
  · intro c m i j w hI hset _ hadmits
    refine ⟨m i, ?_, uploads_body j hset⟩
    rw [Function.update_eq_self]
    have hdb := (admits_world hadmits).2
    exact ⟨hI.nodup, hdb ▸ hI.kept, hdb ▸ hI.listed, hI.alone, hI.carried⟩
  · intro c m i ch e k r w hI hG hop hpre hexec
    have hperf := Config.performs_step (J := Job) hop ch
    refine ⟨(m i).next e r, ⟨fun hfail => Or.inr ?_, rfl⟩, hI.step hpre (hG.2 _ hperf) hexec⟩
    -- a failed answer to a goroutine that carries a batch is excluded
    by_contra hne
    have hcarries : (carrying i c.trace).isSome = true := by
      rw [hI.carried]
      cases hm : m i with
      | idle => exact absurd hm hne
      | _ => rfl
    have hfine := hG.1 hcarries _ hperf _ hexec
    rw [hfail] at hfine
    cases hfine

/-- **Each row is uploaded once.** In every run of the agent, on any number of goroutines and with any inserts and
deletes in between, in which nothing fails for a goroutine that carries a batch and a table is listed only when no
other goroutine carries a batch of it, no row is accepted twice. -/
theorem accepted_nodup {db : DB} {c : Config ι Op Reply World}
    (h : Reaches agent (fun c a => Succeeds c a ∧ Alone c a) (Config.start (World.start db)) c) :
    (accepted c.trace).Nodup := by
  obtain ⟨m, honce, -⟩ := once_of_reaches h
  exact honce.nodup

end Runs

/-- A flush after another: the first has deleted its batch before the second lists. -/
def flushTwice : Schedule :=
  postedBatch ++ ([.step .main atStart, .call .worker .sleepResumeFlush] : Schedule) ++
    (List.replicate 6 (.step .worker atStart) : Schedule)

theorem accepted_nodup_flushTwice : (accepted (agent.endOf (startFrom (buffered 2)) flushTwice).trace).Nodup :=
  accepted_nodup (reaches_endOf (by decide +kernel) (by decide +kernel))

/-- The sync tick's flush and the sleep-resume flush both list before either deletes. -/
def overlappingFlushes : Schedule :=
  (.call .main .syncTick :: List.replicate 6 (.step .main atStart) : Schedule) ++
    (.call .worker (.spawned 0 .flushActivity) :: List.replicate 2 (.step .worker atStart) : Schedule) ++
    (.call .other .sleepResumeFlush :: List.replicate 14 (.step .other atStart) : Schedule) ++
    (List.replicate 8 (.step .worker atStart) : Schedule)

/-- Every list and post succeeded, and the row was accepted twice. -/
theorem row_accepted_twice :
    ∃ c, Reaches agent Succeeds (startFrom (buffered 1)) c ∧
      accepted c.trace = [(.activityEvents, 1), (.activityEvents, 1)] ∧ ¬ (accepted c.trace).Nodup :=
  ⟨agent.endOf (startFrom (buffered 1)) overlappingFlushes, reaches_endOf (by decide +kernel) (by decide +kernel),
    by decide +kernel, by decide +kernel⟩

end TimeChamp.Agent
