import Mathlib.Data.List.Nodup
import Mathlib.Data.List.Perm.Lattice
import TimeChamp.Lib.Runs

/-!
# The sweep for offline agents

`modules/monitoring/monitoring.service.ts`: every half minute the active devices that have not been seen for a while are
told to the dashboards, each once.

* `sweepOfflineAgents` : the two loops over the rows found and over the set of the devices that were told;
* `World` : the table, the set, and a sweep that is waiting; rows are written, and devices registered, at any time;
* `mem_offlineEmitted_iff` : the set is that of the devices stale at the last sweep;
* `sweep_exact` : **after each sweep the set is that of the stale devices, and one event was sent for each of them that
  was not stale at the sweep before, and no other.**
-/

namespace TimeChamp.Monitoring
open TimeChamp.Lib

/-- `AgentDevice`, as the sweep reads it; instants are in milliseconds. -/
structure AgentDevice where
  id : String
  userId : String
  organizationId : String
  isActive : Bool
  lastSeenAt : Option Int
deriving DecidableEq

/-- `OFFLINE_THRESHOLD_MS`. -/
def offlineThresholdMs : Int := 90 * 1000

/-- `isActive: true, lastSeenAt: LessThan(threshold)`; a device that was never seen is not less than anything. -/
def AgentDevice.staleAt (threshold : Int) (d : AgentDevice) : Bool :=
  d.isActive && d.lastSeenAt.any fun seen => seen < threshold

/-- The rows of the table, whose key is the id. -/
structure Devices where
  rows : List AgentDevice
  ids : (rows.map AgentDevice.id).Nodup

/-- A call of `emitEmployeeStatus`: the room and the payload. -/
structure EmployeeStatus where
  organizationId : String
  userId : String
  deviceId : String
  status : String
  lastSeen : Int
deriving DecidableEq

def AgentDevice.offline (d : AgentDevice) : EmployeeStatus :=
  ⟨d.organizationId, d.userId, d.id, "offline", d.lastSeenAt.getD 0⟩

/-! ## The loops -/

/-- `Set.add`. -/
def add (set : List String) (id : String) : List String := if id ∈ set then set else set ++ [id]

/-- `Set.delete`. -/
def delete (set : List String) (id : String) : List String := set.filter fun other => other ≠ id

/-- What the first loop changes. -/
structure Loop where
  stillStale : List String
  offlineEmitted : List String
  sent : List EmployeeStatus

/-- One round of the first loop. -/
def visit (l : Loop) (d : AgentDevice) : Loop :=
  let l := { l with stillStale := add l.stillStale d.id }
  if d.id ∈ l.offlineEmitted then l
  else { l with offlineEmitted := add l.offlineEmitted d.id, sent := l.sent ++ [d.offline] }

/-- One round of the second loop. -/
def prune (stillStale set : List String) (deviceId : String) : List String :=
  if deviceId ∈ stillStale then set else delete set deviceId

/-- `sweepOfflineAgents`, from the rows found on. The second loop deletes only what it has come to, so it comes to every
element the set had when it began. -/
def sweepOfflineAgents (offlineEmitted : List String) (stale : List AgentDevice) : List String × List EmployeeStatus :=
  let l := stale.foldl visit ⟨[], offlineEmitted, []⟩
  (l.offlineEmitted.foldl (prune l.stillStale) l.offlineEmitted, l.sent)

theorem mem_add {set : List String} {id other : String} : other ∈ add set id ↔ other ∈ set ∨ other = id := by
  unfold add
  split_ifs with h
  · exact ⟨Or.inl, fun hor => hor.elim (fun hin => hin) fun heq => heq ▸ h⟩
  · rw [List.mem_append, List.mem_singleton]

theorem mem_delete {set : List String} {id other : String} : other ∈ delete set id ↔ other ∈ set ∧ other ≠ id := by
  simp [delete]

theorem visit_stillStale (l : Loop) (d : AgentDevice) : (visit l d).stillStale = add l.stillStale d.id := by
  unfold visit
  dsimp only
  split_ifs <;> rfl

theorem mem_visit_offlineEmitted (l : Loop) (d : AgentDevice) (id : String) :
    id ∈ (visit l d).offlineEmitted ↔ id ∈ l.offlineEmitted ∨ id = d.id := by
  unfold visit
  dsimp only
  split_ifs with h
  · exact ⟨Or.inl, fun hor => hor.elim (fun hin => hin) fun heq => heq ▸ h⟩
  · exact mem_add

/-- The devices found are still stale. -/
theorem mem_foldl_stillStale (stale : List AgentDevice) (l : Loop) (id : String) :
    id ∈ (stale.foldl visit l).stillStale ↔ id ∈ l.stillStale ∨ id ∈ stale.map AgentDevice.id := by
  induction stale generalizing l with
  | nil => simp
  | cons d stale ih => rw [List.foldl_cons, ih, visit_stillStale, mem_add, List.map_cons, List.mem_cons, or_assoc]

/-- And they are told, if they were not before. -/
theorem mem_foldl_offlineEmitted (stale : List AgentDevice) (l : Loop) (id : String) :
    id ∈ (stale.foldl visit l).offlineEmitted ↔ id ∈ l.offlineEmitted ∨ id ∈ stale.map AgentDevice.id := by
  induction stale generalizing l with
  | nil => simp
  | cons d stale ih => rw [List.foldl_cons, ih, mem_visit_offlineEmitted, List.map_cons, List.mem_cons, or_assoc]

/-- **The events of the first loop**: one for each device found that is not in the set. -/
theorem foldl_visit_sent {stale : List AgentDevice} (hnd : (stale.map AgentDevice.id).Nodup) (l : Loop) :
    (stale.foldl visit l).sent =
      l.sent ++ (stale.filter fun d => d.id ∉ l.offlineEmitted).map AgentDevice.offline := by
  induction stale generalizing l with
  | nil => simp
  | cons d stale ih =>
      rw [List.map_cons, List.nodup_cons] at hnd
      rw [List.foldl_cons, ih hnd.2]
      -- the ids that follow are other ones, so this round does not decide about them
      have hrest : (stale.filter fun e => e.id ∉ (visit l d).offlineEmitted) =
          stale.filter fun e => e.id ∉ l.offlineEmitted := by
        apply List.filter_congr
        intro e he
        have hne : e.id ≠ d.id := fun heq => hnd.1 (List.mem_map.mpr ⟨e, he, heq⟩)
        simp only [mem_visit_offlineEmitted, hne, or_false]
      rw [hrest]
      unfold visit
      dsimp only
      by_cases hin : d.id ∈ l.offlineEmitted
      · rw [if_pos hin, List.filter_cons_of_neg (by simpa using hin)]
      · rw [if_neg hin, List.filter_cons_of_pos (by simpa using hin), List.map_cons, List.append_assoc]
        rfl

/-- **The second loop** keeps what is still stale. -/
theorem mem_foldl_prune (stillStale visited set : List String) (id : String) :
    id ∈ visited.foldl (prune stillStale) set ↔ id ∈ set ∧ (id ∈ visited → id ∈ stillStale) := by
  induction visited generalizing set with
  | nil => simp
  | cons v visited ih =>
      rw [List.foldl_cons, ih]
      unfold prune
      by_cases hv : v ∈ stillStale
      · rw [if_pos hv]
        constructor
        · rintro ⟨hin, hrest⟩
          refine ⟨hin, fun hmem => ?_⟩
          obtain rfl | htail := List.mem_cons.mp hmem
          · exact hv
          · exact hrest htail
        · rintro ⟨hin, hall⟩
          exact ⟨hin, fun hmem => hall (List.mem_cons_of_mem v hmem)⟩
      · rw [if_neg hv, mem_delete]
        constructor
        · rintro ⟨⟨hin, hne⟩, hrest⟩
          exact ⟨hin, fun hmem => hrest ((List.mem_cons.mp hmem).resolve_left hne)⟩
        · rintro ⟨hin, hall⟩
          refine ⟨⟨hin, ?_⟩, fun hmem => hall (List.mem_cons_of_mem v hmem)⟩
          rintro rfl
          exact hv (hall List.mem_cons_self)

/-- **What a sweep leaves**: the devices found. -/
theorem mem_sweep (offlineEmitted : List String) (stale : List AgentDevice) (id : String) :
    id ∈ (sweepOfflineAgents offlineEmitted stale).1 ↔ id ∈ stale.map AgentDevice.id := by
  unfold sweepOfflineAgents
  dsimp only
  rw [mem_foldl_prune, mem_foldl_offlineEmitted, mem_foldl_stillStale]
  simp only [List.not_mem_nil, false_or]
  constructor
  · rintro ⟨hin, hall⟩
    exact hall hin
  · intro hin
    exact ⟨Or.inr hin, fun _ => hin⟩

theorem sweep_sent {stale : List AgentDevice} (hnd : (stale.map AgentDevice.id).Nodup) (offlineEmitted : List String) :
    (sweepOfflineAgents offlineEmitted stale).2 =
      (stale.filter fun d => d.id ∉ offlineEmitted).map AgentDevice.offline :=
  foldl_visit_sent hnd _

/-! ## Sweeps and what happens between them -/

theorem map_id_map {f : AgentDevice → AgentDevice} (hf : ∀ d, (f d).id = d.id) (rows : List AgentDevice) :
    (rows.map f).map AgentDevice.id = rows.map AgentDevice.id := by
  rw [List.map_map]
  apply List.map_congr_left
  intro d _
  exact hf d

/-- Change rows by `f`, which keeps the ids. -/
def Devices.modify (t : Devices) (f : AgentDevice → AgentDevice) (hf : ∀ d, (f d).id = d.id) : Devices :=
  ⟨t.rows.map f, by rw [map_id_map hf]; exact t.ids⟩

/-- `lastSeenAt` is written. -/
def AgentDevice.seen (id : String) (now : Int) (d : AgentDevice) : AgentDevice :=
  if d.id = id then { d with lastSeenAt := some now } else d

/-- `isActive` is written. -/
def AgentDevice.activate (id : String) (isActive : Bool) (d : AgentDevice) : AgentDevice :=
  if d.id = id then { d with isActive := isActive } else d

theorem AgentDevice.seen_id (id : String) (now : Int) (d : AgentDevice) : (d.seen id now).id = d.id := by
  unfold AgentDevice.seen
  split_ifs <;> rfl

theorem AgentDevice.activate_id (id : String) (isActive : Bool) (d : AgentDevice) :
    (d.activate id isActive).id = d.id := by
  unfold AgentDevice.activate
  split_ifs <;> rfl

def Devices.insert (t : Devices) (d : AgentDevice) (h : d.id ∉ t.rows.map AgentDevice.id) : Devices :=
  ⟨t.rows ++ [d], by
    rw [List.map_append, List.nodup_append]
    refine ⟨t.ids, List.nodup_singleton _, ?_⟩
    intro a ha b hb hab
    exact h (List.mem_singleton.mp hb ▸ hab ▸ ha)⟩

/-- What the query of a sweep found: the stale rows of the table at that time, in any order. -/
structure Answer where
  threshold : Int
  devices : Devices
  stale : List AgentDevice
  found : stale.Perm (devices.rows.filter (AgentDevice.staleAt threshold))

inductive Phase where
  | idle
  | asking (threshold : Int)
  | answered (a : Answer)

/-- `previous` are the ids of the devices stale at the last finished sweep, and `sent` is what it sent. -/
structure World where
  devices : Devices
  offlineEmitted : List String
  phase : Phase
  previous : List String
  sent : List EmployeeStatus

inductive Event where
  | heartbeat (id : String) (now : Int)
  | activate (id : String) (isActive : Bool)
  | register (d : AgentDevice)
  /-- A sweep reads the clock. -/
  | begin_ (now : Int)
  /-- Its query is answered. -/
  | find (stale : List AgentDevice)
  /-- Its query fails. -/
  | fail
  /-- It goes through the answer. -/
  | finish

def World.start (devices : Devices) : World := ⟨devices, [], .idle, [], []⟩

/-- What happens next; sweeps do not overlap. -/
def step : Event → World → Option World
  | .heartbeat id now, w =>
    some { w with devices := w.devices.modify (AgentDevice.seen id now) (AgentDevice.seen_id id now) }
  | .activate id isActive, w =>
    some { w with devices := w.devices.modify (AgentDevice.activate id isActive) (AgentDevice.activate_id id isActive) }
  | .register d, w =>
    if h : d.id ∉ w.devices.rows.map AgentDevice.id then some { w with devices := w.devices.insert d h } else none
  | .begin_ now, w =>
    match w.phase with
    | .idle => some { w with phase := .asking (now - offlineThresholdMs) }
    | _ => none
  | .find stale, w =>
    match w.phase with
    | .asking threshold =>
      if h : stale.Perm (w.devices.rows.filter (AgentDevice.staleAt threshold)) then
        some { w with phase := .answered ⟨threshold, w.devices, stale, h⟩ }
      else none
    | _ => none
  | .fail, w =>
    match w.phase with
    | .asking _ => some { w with phase := .idle }
    | _ => none
  | .finish, w =>
    match w.phase with
    | .answered a =>
      let r := sweepOfflineAgents w.offlineEmitted a.stale
      some { w with
        offlineEmitted := r.1
        phase := .idle
        previous := (a.devices.rows.filter (AgentDevice.staleAt a.threshold)).map AgentDevice.id
        sent := r.2 }
    | _ => none

theorem filter_id_eq {ds : List AgentDevice} (hnd : (ds.map AgentDevice.id).Nodup) {d : AgentDevice} (hd : d ∈ ds) :
    (ds.filter fun e => e.id = d.id) = [d] := by
  have hsame : (ds.filter fun e => e.id = d.id) = ds.filter fun e => e = d := by
    apply List.filter_congr
    intro e he
    have hiff : e.id = d.id ↔ e = d := ⟨fun heq => List.inj_on_of_nodup_map hnd he hd heq, fun heq => congrArg _ heq⟩
    simp only [hiff]
  rw [hsame, List.filter_eq, List.count_eq_one_of_mem (List.Nodup.of_map _ hnd) hd, List.replicate_one]

/-- The device was stale when the query was answered. -/
def Answer.Stale (a : Answer) (d : AgentDevice) : Prop := d ∈ a.devices.rows ∧ d.staleAt a.threshold = true

theorem Answer.mem_stale_iff (a : Answer) (d : AgentDevice) : d ∈ a.stale ↔ a.Stale d := by
  rw [a.found.mem_iff, List.mem_filter]
  exact Iff.rfl

theorem Answer.nodup (a : Answer) : (a.stale.map AgentDevice.id).Nodup := by
  rw [(a.found.map AgentDevice.id).nodup_iff]
  exact List.Nodup.sublist (List.filter_sublist.map AgentDevice.id) a.devices.ids

/-- What a sweep is to leave and to send. -/
structure Exact (a : Answer) (previous offlineEmitted : List String) (sent : List EmployeeStatus) : Prop where
  /-- The set is that of the stale devices. -/
  cached : ∀ id, id ∈ offlineEmitted ↔ ∃ d, a.Stale d ∧ d.id = id
  /-- A device that was not stale at the sweep before is told once. -/
  once : ∀ d, a.Stale d → d.id ∉ previous → (sent.filter fun e => e.deviceId = d.id) = [d.offline]
  /-- No other one is told. -/
  only : ∀ e ∈ sent, ∃ d, a.Stale d ∧ d.id ∉ previous ∧ e = d.offline

/-- The set is that of the devices stale at the last sweep. -/
def Cached (w : World) : Prop := ∀ id, id ∈ w.offlineEmitted ↔ id ∈ w.previous

/-- **One sweep**, from a set that is that of the sweep before. -/
theorem exact_of_cached {a : Answer} {previous set : List String} (h : ∀ id, id ∈ set ↔ id ∈ previous) :
    Exact a previous (sweepOfflineAgents set a.stale).1 (sweepOfflineAgents set a.stale).2 where
  cached id := by
    rw [mem_sweep, List.mem_map]
    simp only [a.mem_stale_iff]
  once d hd hnew := by
    have hin : d ∈ a.stale.filter fun d => d.id ∉ set := by
      rw [List.mem_filter, a.mem_stale_iff, decide_eq_true_eq, h]
      exact ⟨hd, hnew⟩
    have hnd : ((a.stale.filter fun d => d.id ∉ set).map AgentDevice.id).Nodup :=
      List.Nodup.sublist (List.filter_sublist.map AgentDevice.id) a.nodup
    rw [sweep_sent a.nodup, List.filter_map]
    show ((a.stale.filter fun d => d.id ∉ set).filter fun e => e.id = d.id).map AgentDevice.offline = [d.offline]
    rw [filter_id_eq hnd hin, List.map_singleton]
  only e he := by
    rw [sweep_sent a.nodup, List.mem_map] at he
    obtain ⟨d, hd, rfl⟩ := he
    obtain ⟨hmem, hnew⟩ := List.mem_filter.mp hd
    refine ⟨d, (a.mem_stale_iff d).mp hmem, ?_, rfl⟩
    rw [← h]
    simpa using hnew

/-- Only the end of a sweep changes the set. -/
theorem step_cases {w w' : World} {e : Event} (hs : step e w = some w') :
    (w'.offlineEmitted = w.offlineEmitted ∧ w'.previous = w.previous) ∨
      ∃ a, w.phase = .answered a ∧ w'.offlineEmitted = (sweepOfflineAgents w.offlineEmitted a.stale).1 ∧
        w'.previous = (a.devices.rows.filter (AgentDevice.staleAt a.threshold)).map AgentDevice.id := by
  cases e with
  | heartbeat id now | activate id isActive =>
      obtain rfl := Option.some.inj hs
      exact Or.inl ⟨rfl, rfl⟩
  | register d =>
      obtain ⟨hfresh, hw⟩ := Option.dite_none_right_eq_some.mp hs
      obtain rfl := Option.some.inj hw
      exact Or.inl ⟨rfl, rfl⟩
  | begin_ now =>
      cases hphase : w.phase <;> simp only [step, hphase, reduceCtorEq, Option.some.injEq] at hs
      subst hs
      exact Or.inl ⟨rfl, rfl⟩
  | find stale =>
      cases hphase : w.phase <;> simp only [step, hphase, reduceCtorEq] at hs
      obtain ⟨hfound, hw⟩ := Option.dite_none_right_eq_some.mp hs
      obtain rfl := Option.some.inj hw
      exact Or.inl ⟨rfl, rfl⟩
  | fail =>
      cases hphase : w.phase <;> simp only [step, hphase, reduceCtorEq, Option.some.injEq] at hs
      subst hs
      exact Or.inl ⟨rfl, rfl⟩
  | finish =>
      cases hphase : w.phase <;> simp only [step, hphase, reduceCtorEq, Option.some.injEq] at hs
      rename_i a
      subst hs
      exact Or.inr ⟨a, rfl, rfl, rfl⟩

theorem cached_step {w w' : World} {e : Event} (h : Cached w) (hs : step e w = some w') : Cached w' := by
  intro id
  obtain ⟨hset, hprevious⟩ | ⟨a, -, hset, hprevious⟩ := step_cases hs
  · rw [hset, hprevious]
    exact h id
  · rw [hset, hprevious, mem_sweep, (a.found.map AgentDevice.id).mem_iff]

/-- **In every run** the set is that of the devices stale at the last sweep. -/
theorem mem_offlineEmitted_iff {devices : Devices} {es : List Event} {w : World}
    (h : play step (World.start devices) es = some w) (id : String) : id ∈ w.offlineEmitted ↔ id ∈ w.previous := by
  have hcached : Cached w := by
    apply play_inv (I := fun _ t => Cached t) h
    · intro id
      exact Iff.rfl
    · intro _ t e t' ht hs
      exact cached_step ht hs
  exact hcached id

/-- **Every sweep of every run.** However heartbeats, activations, deactivations and registrations come between sweeps
and during them: after a sweep the set is that of the active devices that were stale at it, one offline event was sent for
each of these that was not stale, or not active, at the sweep before, and no other event. -/
theorem sweep_exact {devices : Devices} {es : List Event} {w w' : World} {a : Answer}
    (h : play step (World.start devices) es = some w) (ha : w.phase = .answered a) (hs : step .finish w = some w') :
    Exact a w.previous w'.offlineEmitted w'.sent := by
  simp only [step, ha] at hs
  obtain rfl := Option.some.inj hs
  exact exact_of_cached (mem_offlineEmitted_iff h)

/-! ## Two machines of one user -/

def laptop : AgentDevice := ⟨"d1", "u1", "o1", true, some 0⟩

def desktop : AgentDevice := ⟨"d2", "u1", "o1", true, some 150000⟩

theorem machines_ids : ([laptop, desktop].map AgentDevice.id).Nodup := by decide +kernel

def machines : Devices := ⟨[laptop, desktop], machines_ids⟩

/-- The laptop is told, is seen again while the next sweep waits for its answer, and the desktop is stale by then. -/
def twoSweeps : List Event :=
  [.begin_ 200000, .find [laptop], .finish, .begin_ 300000, .heartbeat "d1" 300001, .find [desktop]]

theorem sweep_exact_sample :
    ∃ w a w', play step (World.start machines) twoSweeps = some w ∧ w.phase = .answered a ∧ step .finish w = some w' ∧
      w'.sent = [desktop.offline] ∧ Exact a w.previous w'.offlineEmitted w'.sent := by
  have hrun : ((play step (World.start machines) twoSweeps).bind (step .finish)).map World.sent =
      some [desktop.offline] := by
    decide +kernel
  obtain ⟨w', hboth, hsent⟩ := Option.map_eq_some_iff.mp hrun
  obtain ⟨w, hw, hs⟩ := Option.bind_eq_some_iff.mp hboth
  cases hphase : w.phase with
  | idle => exact absurd hs (by simp [step, hphase])
  | asking threshold => exact absurd hs (by simp [step, hphase])
  | answered a => exact ⟨w, a, w', hw, hphase, hs, hsent, sweep_exact hw hphase hs⟩

end TimeChamp.Monitoring
