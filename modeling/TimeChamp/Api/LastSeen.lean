import TimeChamp.Api.HeartbeatBuffer
import TimeChamp.Lib.WriteBehind

/-!
# What the flushes store

Each device's part of the buffer is a write-behind cell, whose batches are the flushes.

* `State.cell` : the cell of a device; `cell_record`, `cell_flush`, `cell_update`, `cell_succeeds`, `cell_fails` : what
  an event does to it;
* `Increasing` : the heartbeats of a device are recorded in order;
* `InOrder` : no UPDATE takes effect after that of a later flush with a device in common, and no flush fails after a
  later one was called, but for devices that are pending again;
* `lastSeen_in_order` : **if so, no stored time goes back, and the last one recorded gets stored.**
-/

namespace TimeChamp.Api
open Lib
open Function (update)

/-- The heartbeat is later than those recorded of its device. -/
def Increasing (s : State) : Event → Prop
  | .record (some id) lastSeenAt => ∀ t ∈ s.recorded id, t < lastSeenAt
  | _ => True

/-- When the UPDATE of a flush takes effect, no later flush has updated an active device of it; when a flush fails, each of
its devices is pending again, or no flush was called since. -/
def InOrder (s : State) : Event → Prop
  | .update number => ∀ f ∈ flushOf s.flushes number, ∀ id ∈ f.snapshot.keys,
      s.devices.active id = true → s.updatedBy id ≤ number
  | .returns number false => ∀ f ∈ flushOf s.flushes number, ∀ id ∈ f.snapshot.keys,
      (s.pending.lookup id).isSome = true ∨ number = s.started
  | _ => True

instance (s : State) : (e : Event) → Decidable (Increasing s e)
  | .record (some id) lastSeenAt => inferInstanceAs (Decidable (∀ t ∈ s.recorded id, t < lastSeenAt))
  | .record none _ | .flush | .update _ | .returns _ _ => isTrue trivial

instance (s : State) : (e : Event) → Decidable (InOrder s e)
  | .update number => inferInstanceAs (Decidable (∀ f ∈ flushOf s.flushes number, ∀ id ∈ f.snapshot.keys,
      s.devices.active id = true → s.updatedBy id ≤ number))
  | .returns number false => inferInstanceAs (Decidable (∀ f ∈ flushOf s.flushes number, ∀ id ∈ f.snapshot.keys,
      (s.pending.lookup id).isSome = true ∨ number = s.started))
  | .record _ _ | .flush | .returns _ true => isTrue trivial

/-- No device was seen earlier than before. -/
def NotBack (s s' : State) : Prop :=
  ∀ id t, s.devices.lastSeen id = some t → ∃ t', s'.devices.lastSeen id = some t' ∧ t ≤ t'

/-- No flush is outstanding, and one called after the last heartbeat of an active device has succeeded: the last
heartbeat is stored. -/
def UpToDate (s : State) : Prop :=
  s.flushes = [] → ∀ id, s.devices.active id = true → (∃ n ∈ s.succeeded, s.recordedAfter id < n) →
    s.devices.lastSeen id = s.recorded id

/-! ## The cell of a device -/

/-- The flushes called so far are the closed batches; the next one takes what is pending. -/
def State.cell (s : State) (id : String) : Cell Int where
  held n := if n = s.started + 1 then s.pending.lookup id else (flushOf s.flushes n).bind fun f => f.snapshot.lookup id
  closed := s.started
  kept n := n ∈ s.succeeded ∨ (flushOf s.flushes n).isSome = true
  written n := (flushOf s.flushes n).any Flush.updated = true
  stored := s.devices.lastSeen id
  latest := s.recorded id
  latestAfter := s.recordedAfter id
  storedBy := s.updatedBy id

/-- The flushes are numbered as they are called, and a flush that awaits the database has not succeeded. -/
structure Numbered (s : State) : Prop where
  flushes : ∀ n f, flushOf s.flushes n = some f → n ≤ s.started
  succeeded : ∀ n ∈ s.succeeded, n ≤ s.started
  fresh : ∀ n f, flushOf s.flushes n = some f → n ∉ s.succeeded

section
variable {s s' : State} {id : String}

theorem cell_record {deviceId : Option String} {ts : Int} (h : step (.record deviceId ts) s = some s') :
    s'.cell id = if deviceId = some id ∧ id ≠ "" then (s.cell id).put ts else s.cell id := by
  obtain rfl := Option.some.inj h
  split_ifs with hid
  · refine Cell.ext (funext fun n => ?_) rfl rfl rfl rfl (if_pos hid) (if_pos hid) rfl
    simp only [State.cell, Cell.put, lookup_record, if_pos hid, Function.update_apply]
    split_ifs <;> rfl
  · refine Cell.ext (funext fun n => ?_) rfl rfl rfl rfl (if_neg hid) (if_neg hid) rfl
    simp only [State.cell, lookup_record, if_neg hid]

theorem Numbered.flushOf_next (hs : Numbered s) {n : Nat} (hn : s.started < n) : flushOf s.flushes n = none := by
  cases hf : flushOf s.flushes n with
  | none => rfl
  | some f => exact absurd (hs.flushes n f hf) (Nat.not_le.mpr hn)

/-- What calling a flush leaves, and the batch it takes. -/
structure Called (s s' : State) : Prop where
  devices : s'.devices = s.devices
  recorded : s'.recorded = s.recorded
  recordedAfter : s'.recordedAfter = s.recordedAfter
  updatedBy : s'.updatedBy = s.updatedBy
  started : s'.started = s.started + 1
  pending : ∀ id, s'.pending.lookup id = none
  others : ∀ n, n ≠ s.started + 1 → flushOf s'.flushes n = flushOf s.flushes n ∧ (n ∈ s'.succeeded ↔ n ∈ s.succeeded)
  taken : ∀ id, ((flushOf s'.flushes (s.started + 1)).bind fun f => f.snapshot.lookup id) = s.pending.lookup id
  waits : (flushOf s'.flushes (s.started + 1)).any Flush.updated = false
  /-- It awaits the database, or has succeeded because there was nothing to do. -/
  kept : s.started + 1 ∈ s'.succeeded ∧ flushOf s'.flushes (s.started + 1) = none ∨
    s.started + 1 ∉ s'.succeeded ∧ (flushOf s'.flushes (s.started + 1)).isSome = true

theorem step_flush (hs : Numbered s) (h : step .flush s = some s') : Called s s' := by
  have hnext : flushOf s.flushes (s.started + 1) = none := hs.flushOf_next (Nat.lt_succ_self s.started)
  simp only [step] at h
  split_ifs at h with hempty
  · obtain rfl := Option.some.inj h
    have hnone : ∀ id, s.pending.lookup id = none := by
      intro id
      rw [AList.lookup, List.isEmpty_iff.mp hempty]
      rfl
    refine ⟨rfl, rfl, rfl, rfl, rfl, hnone, fun n hn => ⟨rfl, List.mem_cons.trans (or_iff_right hn)⟩, fun id => ?_, ?_,
      Or.inl ⟨List.mem_cons_self, hnext⟩⟩
    · rw [hnext, hnone]
      rfl
    · rw [hnext]
      rfl
  · obtain rfl := Option.some.inj h
    have hnew : flushOf (s.flushes ++ [⟨s.started + 1, s.pending, false⟩]) (s.started + 1) =
        some ⟨s.started + 1, s.pending, false⟩ := by
      rw [flushOf_concat, hnext, if_pos rfl, Option.none_or]
    refine ⟨rfl, rfl, rfl, rfl, rfl, AList.lookup_empty, fun n hn => ⟨?_, Iff.rfl⟩, fun id => ?_, ?_, Or.inr ⟨?_, ?_⟩⟩
    · rw [flushOf_concat, if_neg hn.symm, Option.or_none]
    · rw [hnew]
      rfl
    · rw [hnew]
      rfl
    · exact fun hmem => absurd (hs.succeeded _ hmem) (Nat.not_succ_le_self _)
    · rw [hnew]
      rfl

theorem cell_flush (hs : Numbered s) (h : step .flush s = some s') : s'.cell id = (s.cell id).close := by
  have hc := step_flush hs h
  refine Cell.ext (funext fun n => ?_) hc.started (funext fun n => propext ?_) (funext fun n => propext ?_) ?_ ?_ ?_ ?_
  · by_cases hn : n = s.started + 1
    · subst hn
      simp only [State.cell, Cell.close, hc.started, hc.taken, if_true]
      exact if_neg (by omega)
    · simp only [State.cell, Cell.close, hc.started, (hc.others n hn).1, hc.pending, if_neg hn]
      split_ifs with hlast
      · rw [hs.flushOf_next (by omega)]
        rfl
      · rfl
  · by_cases hn : n = s.started + 1
    · subst hn
      refine iff_of_true ?_ (Or.inr rfl)
      exact hc.kept.imp And.left And.right
    · simp only [State.cell, Cell.close, (hc.others n hn).1, (hc.others n hn).2, hn, or_false]
  · by_cases hn : n = s.started + 1
    · subst hn
      simp only [State.cell, Cell.close, hc.waits, hs.flushOf_next (Nat.lt_succ_self s.started)]
      rfl
    · simp only [State.cell, Cell.close, (hc.others n hn).1]
  · exact congrArg (Devices.lastSeen · id) hc.devices
  · exact congrFun hc.recorded id
  · exact congrFun hc.recordedAfter id
  · exact congrFun hc.updatedBy id

/-- What a flush that awaits the database holds of a device. -/
theorem Numbered.held (hs : Numbered s) {n : Nat} {f : Flush} (hf : flushOf s.flushes n = some f) (id : String) :
    (s.cell id).held n = f.snapshot.lookup id := by
  have hle := hs.flushes n f hf
  simp only [State.cell, hf, Option.bind_some]
  exact if_neg (by omega)

theorem step_update {n : Nat} (h : step (.update n) s = some s') :
    ∃ f, flushOf s.flushes n = some f ∧
      s' = { s with
        devices := bulkUpdate f.snapshot s.devices
        flushes := s.flushes.map fun g => if g.number = n then { g with updated := true } else g
        updatedBy := fun id =>
          if s.devices.active id && (f.snapshot.lookup id).isSome then max (s.updatedBy id) n else s.updatedBy id } := by
  simp only [step] at h
  split at h
  next => exact nomatch h
  next f hf =>
    split_ifs at h
    exact ⟨f, hf, (Option.some.inj h).symm⟩

theorem cell_update (hs : Numbered s) (hactive : s.devices.active id = true) {n : Nat}
    (h : step (.update n) s = some s') : s'.cell id = (s.cell id).store n := by
  obtain ⟨f, hf, rfl⟩ := step_update h
  have hheld := hs.held hf id
  refine Cell.ext (funext fun k => ?_) rfl (funext fun k => propext ?_) (funext fun k => propext ?_) ?_ rfl rfl ?_
  · simp only [State.cell, Cell.store, flushOf_marked]
    cases flushOf s.flushes k with
    | none => rfl
    | some g =>
        simp only [Option.map_some, Option.bind_some]
        split_ifs <;> rfl
  · simp only [State.cell, Cell.store, flushOf_marked, Option.isSome_map]
  · simp only [State.cell, Cell.store, flushOf_marked]
    by_cases hk : k = n
    · subst hk
      simp [hf]
    · simp [hk]
  · rw [Cell.store, hheld]
    simp only [State.cell, bulkUpdate_lastSeen, if_pos hactive]
  · rw [Cell.store, hheld]
    simp only [State.cell, hactive, Bool.true_and]

theorem step_returns {n : Nat} {ok : Bool} (h : step (.returns n ok) s = some s') :
    ∃ f, flushOf s.flushes n = some f ∧
      (ok = true ∧ f.updated = true ∧
          s' = { s with flushes := others s.flushes n, succeeded := n :: s.succeeded } ∨
        ok = false ∧ s' = { s with flushes := others s.flushes n, pending := putBack f.snapshot s.pending }) := by
  simp only [step] at h
  split at h
  next => exact nomatch h
  next f hf =>
    refine ⟨f, hf, ?_⟩
    split_ifs at h with hok hupdated
    · exact Or.inl ⟨hok, hupdated, (Option.some.inj h).symm⟩
    · exact Or.inr ⟨Bool.eq_false_iff.mpr hok, (Option.some.inj h).symm⟩

theorem cell_succeeds (hs : Numbered s) {n : Nat} {f : Flush} (hf : flushOf s.flushes n = some f) :
    State.cell { s with flushes := others s.flushes n, succeeded := n :: s.succeeded } id = (s.cell id).finish n := by
  have hle := hs.flushes n f hf
  refine Cell.ext (funext fun k => ?_) rfl (funext fun k => propext ?_) (funext fun k => propext ?_) rfl rfl rfl rfl
  · simp only [State.cell, Cell.finish, flushOf_others, Function.update_apply]
    by_cases hk : k = n
    · subst hk
      rw [if_neg (by omega), if_pos rfl, if_pos rfl, Option.bind_none]
    · rw [if_neg hk, if_neg hk]
  · simp only [State.cell, Cell.finish, flushOf_others, List.mem_cons]
    by_cases hk : k = n
    · subst hk
      simp [hf]
    · simp [hk]
  · simp only [State.cell, Cell.finish, flushOf_others]
    by_cases hk : k = n
    · simp [hk]
    · simp [hk]

theorem cell_fails (hs : Numbered s) {n : Nat} {f : Flush} (hf : flushOf s.flushes n = some f) :
    State.cell { s with flushes := others s.flushes n, pending := putBack f.snapshot s.pending } id =
      (s.cell id).giveBack n := by
  have hle := hs.flushes n f hf
  have hheld := hs.held hf id
  refine Cell.ext (funext fun k => ?_) rfl (funext fun k => propext ?_) (funext fun k => propext ?_) rfl rfl rfl rfl
  · rw [Cell.giveBack, hheld]
    simp only [State.cell, flushOf_others, lookup_putBack, Function.update_apply, if_true]
    by_cases hk : k = n
    · subst hk
      rw [if_neg (by omega), if_pos rfl, if_pos rfl, if_neg (by omega), Option.bind_none]
    · rw [if_neg hk, if_neg hk]
      split_ifs <;> rfl
  · simp only [State.cell, Cell.giveBack, flushOf_others]
    by_cases hk : k = n
    · subst hk
      simp [hs.fresh k f hf]
    · simp [hk]
  · simp only [State.cell, Cell.giveBack, flushOf_others]
    by_cases hk : k = n
    · simp [hk]
    · simp [hk]

/-! ## One event -/

theorem numbered_step (hs : Numbered s) {e : Event} (h : step e s = some s') : Numbered s' := by
  cases e with
  | record deviceId ts =>
      obtain rfl := Option.some.inj h
      exact ⟨hs.flushes, hs.succeeded, hs.fresh⟩
  | flush =>
      have hc := step_flush hs h
      refine ⟨fun n f hf => ?_, fun n hn => ?_, fun n f hf => ?_⟩ <;> by_cases hlast : n = s.started + 1
      · exact hlast.trans_le hc.started.ge
      · rw [(hc.others n hlast).1] at hf
        exact (hs.flushes n f hf).trans ((Nat.le_succ _).trans hc.started.ge)
      · exact hlast.trans_le hc.started.ge
      · exact (hs.succeeded n ((hc.others n hlast).2.mp hn)).trans ((Nat.le_succ _).trans hc.started.ge)
      · subst hlast
        rcases hc.kept with ⟨-, hnone⟩ | ⟨hnot, -⟩
        · exact absurd (hnone.symm.trans hf) nofun
        · exact hnot
      · rw [(hc.others n hlast).1] at hf
        rw [(hc.others n hlast).2]
        exact hs.fresh n f hf
  | update number =>
      obtain ⟨f, hf, rfl⟩ := step_update h
      have hof : ∀ n g, flushOf (s.flushes.map fun g => if g.number = number then { g with updated := true } else g) n =
          some g → ∃ g', flushOf s.flushes n = some g' := by
        intro n g hg
        rw [flushOf_marked] at hg
        obtain ⟨g', hg', -⟩ := Option.map_eq_some_iff.mp hg
        exact ⟨g', hg'⟩
      refine ⟨fun n g hg => ?_, hs.succeeded, fun n g hg => ?_⟩
      · obtain ⟨g', hg'⟩ := hof n g hg
        exact hs.flushes n g' hg'
      · obtain ⟨g', hg'⟩ := hof n g hg
        exact hs.fresh n g' hg'
  | returns number ok =>
      have hof : ∀ n g, flushOf (others s.flushes number) n = some g → n ≠ number ∧ flushOf s.flushes n = some g :=
        fun n g hg => by
          rw [flushOf_others] at hg
          split_ifs at hg with hn
          exact ⟨hn, hg⟩
      obtain ⟨f, hf, ⟨-, -, rfl⟩ | ⟨-, rfl⟩⟩ := step_returns h
      · refine ⟨fun n g hg => hs.flushes n g (hof n g hg).2, fun n hn => ?_, fun n g hg hmem => ?_⟩
        · rcases List.mem_cons.mp hn with rfl | hn
          · exact hs.flushes n f hf
          · exact hs.succeeded n hn
        · obtain ⟨hne, hg⟩ := hof n g hg
          rcases List.mem_cons.mp hmem with rfl | hmem
          · exact hne rfl
          · exact hs.fresh n g hg hmem
      · exact ⟨fun n g hg => hs.flushes n g (hof n g hg).2, hs.succeeded, fun n g hg => hs.fresh n g (hof n g hg).2⟩

theorem step_devices (hs : Numbered s) {e : Event} (h : step e s = some s') :
    s'.devices = s.devices ∨ ∃ n f, e = .update n ∧ flushOf s.flushes n = some f ∧
      s'.devices = bulkUpdate f.snapshot s.devices := by
  cases e with
  | record deviceId ts => exact Or.inl (congrArg State.devices (Option.some.inj h)).symm
  | flush => exact Or.inl (step_flush hs h).devices
  | update n =>
      obtain ⟨f, hf, rfl⟩ := step_update h
      exact Or.inr ⟨n, f, rfl, hf, rfl⟩
  | returns n ok =>
      obtain ⟨f, hf, ⟨-, -, rfl⟩ | ⟨-, rfl⟩⟩ := step_returns h <;> exact Or.inl rfl

theorem active_step (hs : Numbered s) {e : Event} (h : step e s = some s') (id : String) :
    s'.devices.active id = s.devices.active id := by
  rcases step_devices hs h with hsame | ⟨n, f, -, -, hnew⟩
  · rw [hsame]
  · rw [hnew, bulkUpdate_active]

/-- An UPDATE in order, as the cell of a device sees it. -/
theorem InOrder.storedBy_le (hs : Numbered s) {n : Nat} (hG : InOrder s (.update n)) {f : Flush}
    (hf : flushOf s.flushes n = some f) (hactive : s.devices.active id = true)
    (hheld : ((s.cell id).held n).isSome = true) : (s.cell id).storedBy ≤ n := by
  rw [hs.held hf, AList.lookup_isSome] at hheld
  exact hG f hf id (AList.mem_keys.mp hheld) hactive

theorem cell_inv_step (hs : Numbered s) (hactive : s.devices.active id = true) (hI : (s.cell id).Inv) {e : Event}
    (hinc : Increasing s e) (hG : InOrder s e) (h : step e s = some s') : (s'.cell id).Inv := by
  cases e with
  | record deviceId ts =>
      rw [cell_record h]
      split_ifs with hid
      · obtain ⟨rfl, -⟩ := hid
        exact hI.put hinc
      · exact hI
  | flush =>
      rw [cell_flush hs h]
      exact hI.close
  | update n =>
      obtain ⟨f, hf, -⟩ := step_update h
      rw [cell_update hs hactive h]
      exact hI.store (hs.flushes n f hf) (hG.storedBy_le hs hf hactive)
  | returns n ok =>
      obtain ⟨f, hf, ⟨-, hupdated, rfl⟩ | ⟨rfl, rfl⟩⟩ := step_returns h
      · rw [cell_succeeds hs hf]
        apply hI.finish
        simp [State.cell, hf, hupdated]
      · rw [cell_fails hs hf]
        apply hI.giveBack (hs.flushes n f hf)
        intro v hv hnone
        have hkeys : id ∈ f.snapshot.keys := by
          rw [← AList.mem_keys, ← AList.lookup_isSome, ← hs.held hf, hv]
          rfl
        have hpending : s.pending.lookup id = none := by
          simpa [State.cell] using hnone
        rcases hG f hf id hkeys with hsome | hlast
        · exact absurd hsome (by rw [hpending]; exact Bool.false_ne_true)
        · exact hlast

theorem notBack_step (hs : Numbered s) (hI : ∀ id, s.devices.active id = true → (s.cell id).Inv) {e : Event}
    (hG : InOrder s e) (h : step e s = some s') : NotBack s s' := by
  intro id t ht
  rcases step_devices hs h with hsame | ⟨n, f, rfl, hf, hnew⟩
  · exact ⟨t, by rw [hsame]; exact ht, le_rfl⟩
  · by_cases hactive : s.devices.active id = true
    · obtain ⟨w, hw, hle⟩ := (hI id hactive).stored_store (hG.storedBy_le hs hf hactive) ht
      rw [← cell_update hs hactive h] at hw
      exact ⟨w, hw, hle⟩
    · refine ⟨t, ?_, le_rfl⟩
      rw [hnew, bulkUpdate_lastSeen, if_neg hactive]
      exact ht

/-! ## Every run -/

theorem cell_start (devices : Devices) (id : String) : (start devices).cell id = Cell.start (devices.lastSeen id) := by
  refine Cell.ext (funext fun n => ?_) rfl (funext fun n => propext ?_) (funext fun n => propext ?_) rfl rfl rfl rfl
  · show (if n = 0 + 1 then (none : Option Int) else none) = none
    exact ite_self none
  · simp [State.cell, start, Cell.start, flushOf]
  · simp [State.cell, start, Cell.start, flushOf]

/-- **If the events come in order, no stored time goes back, and once nothing is outstanding and a flush called after the
last heartbeat of an active device has succeeded, that heartbeat is stored.** -/
theorem lastSeen_in_order {devices : Devices}
    (h : Reached step (fun s e => Increasing s e ∧ InOrder s e) (start devices) s) :
    (∀ e s', Increasing s e → InOrder s e → step e s = some s' → NotBack s s') ∧ UpToDate s := by
  have hinv : Numbered s ∧ ∀ id, s.devices.active id = true → (s.cell id).Inv := by
    refine h.inv (I := fun s => Numbered s ∧ ∀ id, s.devices.active id = true → (s.cell id).Inv) ?_ ?_
    · refine ⟨⟨nofun, nofun, nofun⟩, fun id _ => ?_⟩
      rw [cell_start]
      exact Cell.inv_start _
    · intro s e s' ⟨hs, hI⟩ ⟨hinc, hG⟩ hn
      refine ⟨numbered_step hs hn, fun id hactive => ?_⟩
      rw [active_step hs hn] at hactive
      exact cell_inv_step hs hactive (hI id hactive) hinc hG hn
  obtain ⟨hs, hI⟩ := hinv
  refine ⟨fun e s' _ hG hn => notBack_step hs hI hG hn, fun hnone id hactive ⟨n, hn, hlt⟩ => ?_⟩
  refine (hI id hactive).stored_eq (fun k hk => ?_) (Or.inl hn) hlt
  simp only [State.cell, hnone] at hk ⊢
  rw [if_neg (by omega)]
  rfl

end

/-! ### Two flushes of one device -/

section Overlap

/-- A single device, not seen yet. -/
def oneDevice : Devices := fun id => if id = "d" then some ⟨true, none⟩ else none

/-- A flush of a first heartbeat, and another of a second one called before the first has taken effect. -/
def overlap (rest : List Event) : List Event :=
  ([.record (some "d") 1, .flush, .record (some "d") 2, .flush] : List Event) ++ rest

def afterEvents (es : List Event) : State := endOf step (start oneDevice) es

/-- They take effect in order, and return the other way round. -/
theorem lastSeen_in_order_overlap :
    (afterEvents (overlap [.update 1, .update 2, .returns 2 true, .returns 1 true])).devices.lastSeen "d" =
      (afterEvents (overlap [.update 1, .update 2, .returns 2 true, .returns 1 true])).recorded "d" :=
  (lastSeen_in_order (reached_endOf (by decide +kernel) (by decide +kernel))).2 rfl "d" (by decide +kernel)
    ⟨2, by decide +kernel, by decide +kernel⟩

/-- The UPDATE of the first takes effect last, and the device goes back; or a flush fails after the next was called, which
had nothing to do, and the heartbeat stays in the buffer. -/
theorem not_lastSeen_in_order :
    (¬ ∀ (devices : Devices) (s : State), Reached step Increasing (start devices) s →
      ∀ e s', Increasing s e → step e s = some s' → NotBack s s') ∧
    ¬ ∀ (devices : Devices) (s : State), Reached step Increasing (start devices) s → UpToDate s := by
  constructor
  · intro h
    obtain ⟨s', hs'⟩ : ∃ s', step (.update 1) (afterEvents (overlap [.update 2])) = some s' :=
      Option.isSome_iff_exists.mp (by decide +kernel)
    have hback := h oneDevice _ (reached_endOf (by decide +kernel) (by decide +kernel)) (.update 1) s' trivial hs'
    have hseen : (step (.update 1) (afterEvents (overlap [.update 2]))).map (fun s => s.devices.lastSeen "d") =
        some (some 1) := by
      decide +kernel
    rw [hs'] at hseen
    obtain ⟨t, ht, hle⟩ := hback "d" 2 (by decide +kernel)
    obtain rfl := Option.some.inj (ht.symm.trans (Option.some.inj hseen))
    exact absurd hle (by decide)
  · intro h
    have hup := h oneDevice (afterEvents [.record (some "d") 1, .flush, .flush, .returns 1 false])
      (reached_endOf (by decide +kernel) (by decide +kernel)) rfl "d" (by decide +kernel)
      ⟨2, by decide +kernel, by decide +kernel⟩
    exact absurd hup (by decide +kernel)

end Overlap

end TimeChamp.Api
