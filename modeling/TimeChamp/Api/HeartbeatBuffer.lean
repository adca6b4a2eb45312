import Mathlib.Data.List.AList
import TimeChamp.Lib.Runs

/-!
# The heartbeat buffer

The API's write-behind cache of heartbeats. `record` keeps the latest heartbeat of each device; `flush` drains them into
one bulk UPDATE, and puts them back when that fails. Flushes may overlap.

* `record`, `bulkUpdate`, `putBack` : what the service and its statement do, with `lookup_record`, `lookup_putBack`;
* `State`, `Event`, `step` : the buffer, the table, the flushes that await the database, and the history of all of them.
-/

namespace TimeChamp.Api

/-- The map of pending heartbeats, by device. -/
abbrev Pending := AList fun _ : String => Int

structure AgentDevice where
  isActive : Bool
  lastSeenAt : Option Int
deriving DecidableEq

/-- The `agent_devices` table, by id. -/
abbrev Devices := String → Option AgentDevice

def Devices.lastSeen (devices : Devices) (id : String) : Option Int := (devices id).bind AgentDevice.lastSeenAt

def Devices.active (devices : Devices) (id : String) : Bool := (devices id).any AgentDevice.isActive

/-! ## The service -/

/-- A heartbeat without a device is dropped. -/
def record (deviceId : Option String) (lastSeenAt : Int) (pending : Pending) : Pending :=
  match deviceId with
  | none => pending
  | some id => if id = "" then pending else pending.insert id lastSeenAt

/-- The bulk UPDATE: the active devices of the snapshot get its times. -/
def bulkUpdate (snapshot : Pending) (devices : Devices) : Devices := fun id =>
  (devices id).map fun d =>
    match snapshot.lookup id with
    | some ts => if d.isActive then { d with lastSeenAt := some ts } else d
    | none => d

/-- An entry goes back into the map unless a newer one is there. -/
def setIfNewer (id : String) (ts : Int) (pending : Pending) : Pending :=
  match pending.lookup id with
  | some existing => if existing < ts then pending.insert id ts else pending
  | none => pending.insert id ts

/-- What a failed flush does with its snapshot. -/
def putBack (snapshot pending : Pending) : Pending :=
  snapshot.entries.foldl (fun pending e => setIfNewer e.1 e.2 pending) pending

/-- A flush that awaits the database. -/
structure Flush where
  number : Nat
  snapshot : Pending
  /-- Its UPDATE has taken effect. -/
  updated : Bool

/-- The buffer and the table, and what happened so far: how many flushes were called, which of them succeeded, the latest
heartbeat recorded of each device, and the last flush called before it, and the latest flush to update the device. -/
structure State where
  pending : Pending
  devices : Devices
  flushes : List Flush
  started : Nat
  succeeded : List Nat
  recorded : String → Option Int
  recordedAfter : String → Nat
  updatedBy : String → Nat

/-- Nothing pending; the times in the table count as recorded. -/
def start (devices : Devices) : State := ⟨∅, devices, [], 0, [], devices.lastSeen, fun _ => 0, fun _ => 0⟩

/-- What happens next: a heartbeat is recorded, a flush is called, the UPDATE of a flush takes effect, or the call of the
database returns. It may fail after the UPDATE took effect. -/
inductive Event where
  | record (deviceId : Option String) (lastSeenAt : Int)
  | flush
  | update (number : Nat)
  | returns (number : Nat) (ok : Bool)

/-- The flush of this number. -/
def flushOf (flushes : List Flush) (number : Nat) : Option Flush := flushes.find? fun f => f.number == number

/-- The other flushes. -/
def others (flushes : List Flush) (number : Nat) : List Flush := flushes.filter fun f => f.number != number

def step : Event → State → Option State
  | .record deviceId lastSeenAt, s =>
    some { s with
      pending := record deviceId lastSeenAt s.pending
      recorded := fun id => if deviceId = some id ∧ id ≠ "" then some lastSeenAt else s.recorded id
      recordedAfter := fun id => if deviceId = some id ∧ id ≠ "" then s.started else s.recordedAfter id }
  | .flush, s =>
    if s.pending.entries.isEmpty then
      some { s with started := s.started + 1, succeeded := (s.started + 1) :: s.succeeded }
    else
      some { s with
        pending := ∅
        flushes := s.flushes ++ [⟨s.started + 1, s.pending, false⟩]
        started := s.started + 1 }
  | .update number, s =>
    match flushOf s.flushes number with
    | none => none
    | some f =>
      if f.updated then none
      else
        some { s with
          devices := bulkUpdate f.snapshot s.devices
          flushes := s.flushes.map fun g => if g.number = number then { g with updated := true } else g
          updatedBy := fun id =>
            if s.devices.active id && (f.snapshot.lookup id).isSome then max (s.updatedBy id) number else s.updatedBy id }
  | .returns number ok, s =>
    match flushOf s.flushes number with
    | none => none
    | some f =>
      if ok then
        if f.updated then some { s with flushes := others s.flushes number, succeeded := number :: s.succeeded } else none
      else
        some { s with flushes := others s.flushes number, pending := putBack f.snapshot s.pending }

/-! ## Looking devices up -/

theorem lookup_record (deviceId : Option String) (lastSeenAt : Int) (pending : Pending) (d : String) :
    (record deviceId lastSeenAt pending).lookup d =
      if deviceId = some d ∧ d ≠ "" then some lastSeenAt else pending.lookup d := by
  rcases deviceId with _ | id
  · rw [if_neg (fun h => nomatch h.1)]
    rfl
  · unfold record
    by_cases hd : d = id
    · subst hd
      by_cases hempty : d = ""
      · simp [hempty]
      · simp [hempty, AList.lookup_insert]
    · rw [if_neg (fun h => hd (Option.some.inj h.1).symm)]
      dsimp only
      split_ifs
      · rfl
      · exact AList.lookup_insert_ne hd

theorem lookup_setIfNewer (id : String) (ts : Int) (pending : Pending) (d : String) :
    (setIfNewer id ts pending).lookup d =
      if d = id then Option.merge max (pending.lookup d) (some ts) else pending.lookup d := by
  unfold setIfNewer
  by_cases hd : d = id
  · subst hd
    rw [if_pos rfl]
    cases hpending : pending.lookup d with
    | none => exact AList.lookup_insert pending
    | some existing =>
        dsimp only
        split_ifs with hlt
        · rw [AList.lookup_insert, Option.merge_some_some, max_eq_right hlt.le]
        · rw [hpending, Option.merge_some_some, max_eq_left (not_lt.mp hlt)]
  · rw [if_neg hd]
    split
    · split_ifs
      · exact AList.lookup_insert_ne hd
      · rfl
    · exact AList.lookup_insert_ne hd

theorem lookup_foldl_setIfNewer {entries : List (Σ _ : String, Int)} (h : entries.NodupKeys) (pending : Pending)
    (d : String) : (entries.foldl (fun pending e => setIfNewer e.1 e.2 pending) pending).lookup d =
      Option.merge max (pending.lookup d) (entries.dlookup d) := by
  induction entries generalizing pending with
  | nil => exact Option.merge_none_right.symm
  | cons e entries ih =>
      obtain ⟨hnot, hrest⟩ := List.nodupKeys_cons.mp h
      obtain ⟨id, ts⟩ := e
      rw [List.foldl_cons, ih hrest, lookup_setIfNewer]
      by_cases hd : d = id
      · subst hd
        rw [if_pos rfl, List.dlookup_cons_eq, List.dlookup_eq_none.mpr hnot, Option.merge_none_right]
      · rw [if_neg hd, List.dlookup_cons_ne entries (⟨id, ts⟩ : Σ _ : String, Int) hd]

/-- **What is pending after a flush failed:** of each device the newer of the two. -/
theorem lookup_putBack (snapshot pending : Pending) (d : String) :
    (putBack snapshot pending).lookup d = Option.merge max (pending.lookup d) (snapshot.lookup d) :=
  lookup_foldl_setIfNewer snapshot.nodupKeys pending d

theorem bulkUpdate_lastSeen (snapshot : Pending) (devices : Devices) (id : String) :
    (bulkUpdate snapshot devices).lastSeen id =
      if devices.active id = true then (snapshot.lookup id).or (devices.lastSeen id) else devices.lastSeen id := by
  unfold bulkUpdate Devices.lastSeen Devices.active
  dsimp only
  cases devices id with
  | none => simp
  | some d => cases hlookup : snapshot.lookup id <;> cases hactive : d.isActive <;> simp [hactive]

theorem bulkUpdate_active (snapshot : Pending) (devices : Devices) (id : String) :
    (bulkUpdate snapshot devices).active id = devices.active id := by
  unfold bulkUpdate Devices.active
  dsimp only
  cases devices id with
  | none => rfl
  | some d =>
      simp only [Option.map_some, Option.any_some]
      split
      · split_ifs <;> rfl
      · rfl

/-! ## Looking flushes up -/

theorem flushOf_concat (flushes : List Flush) (f : Flush) (n : Nat) :
    flushOf (flushes ++ [f]) n = (flushOf flushes n).or (if f.number = n then some f else none) := by
  unfold flushOf
  rw [List.find?_append, List.find?_singleton]
  simp only [beq_iff_eq]

theorem flushOf_others (flushes : List Flush) (number n : Nat) :
    flushOf (others flushes number) n = if n = number then none else flushOf flushes n := by
  unfold flushOf others
  rw [List.find?_filter]
  split_ifs with hn
  · exact List.find?_eq_none.mpr fun f _ => by simp [hn]
  · refine congrArg (List.find? · flushes) (funext fun f => ?_)
    by_cases hf : f.number = n
    · simp [hf, hn]
    · simp [hf]

theorem flushOf_marked (flushes : List Flush) (number n : Nat) :
    flushOf (flushes.map fun g => if g.number = number then { g with updated := true } else g) n =
      (flushOf flushes n).map fun g => if n = number then { g with updated := true } else g := by
  unfold flushOf
  induction flushes with
  | nil => rfl
  | cons g flushes ih =>
      have hnumber : (if g.number = number then { g with updated := true } else g).number = g.number := by
        split_ifs <;> rfl
      rw [List.map_cons, List.find?_cons, List.find?_cons, hnumber, ih]
      by_cases hg : g.number = n
      · rw [beq_iff_eq.mpr hg, Option.map_some, hg]
      · rw [beq_eq_false_iff_ne.mpr hg]

end TimeChamp.Api
