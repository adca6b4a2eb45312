import TimeChamp.Lib.Runs
import TimeChamp.Lib.Texts

/-!
# Devices that are watched live

Dashboards ask for the live view of a device and ask again while it is open; the agent of the device polls whether anyone
watches. For each device the cache keeps one instant, until which it counts as watched.

* `markWatched`, `isWatched`, `clearWatched`, `sweep` : the cache;
* `Controller`, `Event`, `handle` : the requests of the viewers, and who of them is still watching;
* `Watched` : the device counts as watched as long as some viewer asked for it within a minute and has not stopped;
* `Considerate` : the clock does not go back, and a viewer stops what nobody else is watching;
* `watched_of_considerate` : **if all are considerate, every watched device counts as watched**.
-/

namespace TimeChamp.LiveWatch
open Lib

/-! ## The cache -/

/-- A device of a user. -/
structure Flag where
  userId : Uuid
  deviceId : Uuid
deriving DecidableEq

/-- `${userId}:${deviceId}`. -/
def Flag.key (flag : Flag) : String := flag.userId.text ++ ":" ++ flag.deviceId.text

theorem Flag.key_inj {flag flag' : Flag} (h : flag.key = flag'.key) : flag = flag' := by
  unfold Flag.key at h
  rw [String.append_assoc, String.append_assoc] at h
  obtain ⟨huser, h⟩ := append_inj_of_length (by rw [flag.userId.length, flag'.userId.length]) h
  obtain ⟨-, hdevice⟩ := append_inj_of_length rfl h
  obtain ⟨userId, deviceId⟩ := flag
  obtain ⟨userId', deviceId'⟩ := flag'
  obtain rfl := Uuid.ext_text huser
  obtain rfl := Uuid.ext_text hdevice
  rfl

/-- The instants until which devices count as watched. -/
abbrev LiveWatchCache := String → Option Int

namespace LiveWatchCache

def markWatched (store : LiveWatchCache) (now : Int) (flag : Flag) (ttlSeconds : Int) : LiveWatchCache :=
  Function.update store flag.key (some (now + ttlSeconds * 1000))

/-- The answer, and the cache without the entry if it has expired. -/
def isWatched (store : LiveWatchCache) (now : Int) (flag : Flag) : Bool × LiveWatchCache :=
  match store flag.key with
  | none => (false, store)
  | some expiresAt => if now > expiresAt then (false, Function.update store flag.key none) else (true, store)

def clearWatched (store : LiveWatchCache) (flag : Flag) : LiveWatchCache := Function.update store flag.key none

def sweep (store : LiveWatchCache) (now : Int) : LiveWatchCache := fun key =>
  (store key).filter fun expiresAt => !decide (now > expiresAt)

variable {store : LiveWatchCache} {now : Int} {flag flag' : Flag}

theorem isWatched_of_le {expiresAt : Int} (h : store flag.key = some expiresAt) (hnow : now ≤ expiresAt) :
    store.isWatched now flag = (true, store) := by
  unfold isWatched
  rw [h]
  exact if_neg (not_lt.mpr hnow)

theorem afterIsWatched_eq {key : String} {expiresAt : Int} (h : store key = some expiresAt) (hnow : now ≤ expiresAt) :
    (store.isWatched now flag).2 key = some expiresAt := by
  unfold isWatched
  cases hflag : store flag.key with
  | none => exact h
  | some t =>
      dsimp only
      split_ifs with ht
      · have hne : key ≠ flag.key := by
          rintro rfl
          rw [hflag] at h
          obtain rfl := Option.some.inj h
          omega
        exact (Function.update_of_ne hne _ _).trans h
      · exact h

theorem sweep_eq {key : String} {expiresAt : Int} (h : store key = some expiresAt) (hnow : now ≤ expiresAt) :
    store.sweep now key = some expiresAt := by
  unfold sweep
  rw [h]
  exact Option.filter_some_pos (by simpa using hnow)

theorem clearWatched_of_ne (h : flag' ≠ flag) : store.clearWatched flag flag'.key = store flag'.key :=
  Function.update_of_ne (fun hkey => h (Flag.key_inj hkey)) _ _

end LiveWatchCache

/-! ## Requests -/

def WATCH_FLAG_TTL_SECONDS : Int := 60

structure AgentDevice where
  id : Uuid
  organizationId : Uuid
  userId : Uuid
  lastSeenAt : Option Int
  isActive : Bool
deriving DecidableEq

/-- Since when a viewer has been watching a device, by the last request that was granted. -/
structure Watch (V : Type) where
  viewer : V
  flag : Flag
  since : Int
deriving DecidableEq

/-- The devices and the cache, the last reading of the clock, and who is watching. -/
structure Controller (V : Type) where
  devices : List AgentDevice
  cache : LiveWatchCache
  now : Int
  watches : List (Watch V)

def Controller.start {V : Type} (devices : List AgentDevice) (now : Int) : Controller V :=
  ⟨devices, fun _ => none, now, []⟩

/-- The requests of a viewer of an organization, for a device or for the user who has it; the poll of an agent; the
sweep of the cache; and a change of the devices. -/
inductive Event (V : Type) where
  | requestStreamByDevice (viewer : V) (organizationId deviceId : Uuid) (now : Int)
  | stopStreamByDevice (viewer : V) (organizationId deviceId : Uuid) (now : Int)
  | requestStream (viewer : V) (organizationId userId : Uuid) (now : Int)
  | stopStream (viewer : V) (organizationId userId : Uuid) (now : Int)
  | getCommands (flag : Flag) (now : Int)
  | sweep (now : Int)
  | devices (devices : List AgentDevice) (now : Int)

def Event.now {V : Type} : Event V → Int
  | requestStreamByDevice _ _ _ now => now
  | stopStreamByDevice _ _ _ now => now
  | requestStream _ _ _ now => now
  | stopStream _ _ _ now => now
  | getCommands _ now => now
  | sweep now => now
  | devices _ now => now

def AgentDevice.flag (d : AgentDevice) : Flag := ⟨d.userId, d.id⟩

section
variable {V : Type} [DecidableEq V]

def Controller.findDevice (s : Controller V) (organizationId deviceId : Uuid) : Option AgentDevice :=
  s.devices.find? fun d => d.id = deviceId && d.organizationId = organizationId

def Controller.activeDevices (s : Controller V) (organizationId userId : Uuid) : List AgentDevice :=
  s.devices.filter fun d => d.userId = userId && d.organizationId = organizationId && d.isActive

/-- Later, where a device that was never seen comes first. -/
def seenLater (d d' : AgentDevice) : Bool :=
  match d.lastSeenAt, d'.lastSeenAt with
  | none, _ => true
  | some _, none => false
  | some t, some t' => t' ≤ t

/-- A request to watch that is granted. -/
def Controller.watch (s : Controller V) (viewer : V) (flag : Flag) : Controller V :=
  { s with
    cache := s.cache.markWatched s.now flag WATCH_FLAG_TTL_SECONDS
    watches := ⟨viewer, flag, s.now⟩ :: s.watches.filter fun w => ¬ (w.viewer = viewer ∧ w.flag = flag) }

/-- The flags that a request clears. -/
def Controller.cleared (s : Controller V) : Event V → List Flag
  | .stopStreamByDevice _ organizationId deviceId _ =>
    (s.findDevice organizationId deviceId).toList.map AgentDevice.flag
  | .stopStream _ organizationId userId _ => (s.activeDevices organizationId userId).map AgentDevice.flag
  | _ => []

/-- Who stops a device watches it no more; who stops a user, none of the user's. -/
def Event.stops : Event V → Watch V → Bool
  | stopStreamByDevice viewer _ deviceId _, w => w.viewer = viewer && w.flag.deviceId = deviceId
  | stopStream viewer _ userId _, w => w.viewer = viewer && w.flag.userId = userId
  | _, _ => false

def handle (e : Event V) (s : Controller V) : Controller V :=
  let s := { s with now := e.now }
  match e with
  | .requestStreamByDevice viewer organizationId deviceId _ =>
    match s.findDevice organizationId deviceId with
    | none => s
    | some device => s.watch viewer device.flag
  | .requestStream viewer organizationId userId _ =>
    match ((s.activeDevices organizationId userId).mergeSort seenLater).head? with
    | none => s
    | some device => s.watch viewer device.flag
  | .stopStreamByDevice _ _ _ _ | .stopStream _ _ _ _ =>
    { s with
      cache := (s.cleared e).foldl LiveWatchCache.clearWatched s.cache
      watches := s.watches.filter fun w => !e.stops w }
  | .getCommands flag _ => { s with cache := (s.cache.isWatched s.now flag).2 }
  | .sweep _ => { s with cache := s.cache.sweep s.now }
  | .devices devices _ => { s with devices }

def liveWatch (e : Event V) (s : Controller V) : Option (Controller V) := some (handle e s)

/-- At every time from now on, a device that a viewer has asked for within the last minute, and not stopped, counts as
watched. -/
def Watched (s : Controller V) : Prop :=
  ∀ w ∈ s.watches, ∀ now, s.now ≤ now → now ≤ w.since + 60000 → (s.cache.isWatched now w.flag).1 = true

/-- The clock does not go back, and a flag is cleared only when no one else asked for it within the last minute. -/
def Considerate (s : Controller V) (e : Event V) : Prop :=
  s.now ≤ e.now ∧ ∀ flag ∈ s.cleared e, ∀ w ∈ s.watches, w.flag = flag → e.stops w = true ∨ w.since + 60000 < e.now

instance (s : Controller V) (e : Event V) : Decidable (Considerate s e) := inferInstanceAs (Decidable (_ ∧ _))

/-! ## One request -/

/-- Who watches has asked in the past, and as long as it was within a minute, the entry outlives the minute. -/
def Covered (s : Controller V) : Prop :=
  ∀ w ∈ s.watches, w.since ≤ s.now ∧ (s.now ≤ w.since + 60000 →
    ∃ expiresAt, s.cache w.flag.key = some expiresAt ∧ w.since + 60000 ≤ expiresAt)

omit [DecidableEq V] in
theorem Covered.watched {s : Controller V} (h : Covered s) : Watched s := by
  intro w hw now hnow hminute
  obtain ⟨expiresAt, hentry, hexpires⟩ := (h w hw).2 (hnow.trans hminute)
  rw [LiveWatchCache.isWatched_of_le hentry (hminute.trans hexpires)]

omit [DecidableEq V] in
theorem Covered.tick {s : Controller V} (h : Covered s) {now : Int} (hnow : s.now ≤ now) :
    Covered { s with now } := by
  intro w hw
  obtain ⟨hsince, hentry⟩ := h w hw
  exact ⟨hsince.trans hnow, fun hminute => hentry (hnow.trans hminute)⟩

omit [DecidableEq V] in
theorem Covered.cache {s : Controller V} (h : Covered s) {cache : LiveWatchCache}
    (hcache : ∀ key expiresAt, s.cache key = some expiresAt → s.now ≤ expiresAt → cache key = some expiresAt) :
    Covered { s with cache } := by
  intro w hw
  refine ⟨(h w hw).1, fun hminute => ?_⟩
  obtain ⟨expiresAt, hentry, hexpires⟩ := (h w hw).2 hminute
  exact ⟨expiresAt, hcache _ _ hentry (hminute.trans hexpires), hexpires⟩

theorem Covered.watch {s : Controller V} (h : Covered s) (viewer : V) (flag : Flag) : Covered (s.watch viewer flag) := by
  have hnew : (s.watch viewer flag).cache flag.key = some (s.now + 60000) := Function.update_self _ _ _
  intro w hw
  rcases List.mem_cons.mp hw with rfl | hw
  · exact ⟨le_rfl, fun _ => ⟨_, hnew, le_rfl⟩⟩
  · obtain ⟨hsince, hentry⟩ := h w (List.mem_of_mem_filter hw)
    refine ⟨hsince, fun hminute => ?_⟩
    by_cases hflag : w.flag = flag
    · -- the entry is later than what this viewer needs
      change w.since ≤ s.now at hsince
      exact ⟨s.now + 60000, by rw [hflag, hnew], by omega⟩
    · obtain ⟨expiresAt, hsome, hexpires⟩ := hentry hminute
      exact ⟨expiresAt, (Function.update_of_ne (fun hkey => hflag (Flag.key_inj hkey)) _ _).trans hsome, hexpires⟩

theorem foldl_clearWatched {flag : Flag} {flags : List Flag} (h : flag ∉ flags) (cache : LiveWatchCache) :
    flags.foldl LiveWatchCache.clearWatched cache flag.key = cache flag.key := by
  induction flags generalizing cache with
  | nil => rfl
  | cons f flags ih =>
      rw [List.mem_cons, not_or] at h
      rw [List.foldl_cons, ih h.2, LiveWatchCache.clearWatched_of_ne h.1]

theorem foldl_clearWatched_of_mem {flag : Flag} {flags : List Flag} (h : flag ∈ flags) (cache : LiveWatchCache) :
    flags.foldl LiveWatchCache.clearWatched cache flag.key = none := by
  induction flags generalizing cache with
  | nil => exact absurd h List.not_mem_nil
  | cons f flags ih =>
      rw [List.foldl_cons]
      by_cases hmem : flag ∈ flags
      · exact ih hmem _
      · obtain rfl := (List.mem_cons.mp h).resolve_right hmem
        rw [foldl_clearWatched hmem]
        exact Function.update_self _ _ _

/-- A stop leaves the flags of those who keep watching. -/
theorem Covered.stop {s : Controller V} (h : Covered s) {e : Event V}
    (hclear : ∀ flag ∈ s.cleared e, ∀ w ∈ s.watches, w.flag = flag → e.stops w = true ∨ w.since + 60000 < s.now) :
    Covered { s with
      cache := (s.cleared e).foldl LiveWatchCache.clearWatched s.cache
      watches := s.watches.filter fun w => !e.stops w } := by
  intro w hw
  obtain ⟨hmem, hstop⟩ := List.mem_filter.mp hw
  refine ⟨(h w hmem).1, fun hminute => ?_⟩
  have hout : w.flag ∉ s.cleared e := by
    intro hflag
    rcases hclear w.flag hflag w hmem rfl with hstops | hpast
    · rw [hstops] at hstop
      exact nomatch hstop
    · exact absurd hminute (not_le.mpr hpast)
  obtain ⟨expiresAt, hentry, hexpires⟩ := (h w hmem).2 hminute
  exact ⟨expiresAt, (foldl_clearWatched hout s.cache).trans hentry, hexpires⟩

/-- **One request**, when it is considerate. -/
theorem covered_handle {s : Controller V} {e : Event V} (h : Covered s) (hG : Considerate s e) : Covered (handle e s) := by
  obtain ⟨hnow, hclear⟩ := hG
  have htick := h.tick hnow
  cases e with
  | requestStreamByDevice viewer organizationId deviceId now =>
      simp only [handle]
      split
      next => exact htick
      next device _ => exact htick.watch viewer device.flag
  | requestStream viewer organizationId userId now =>
      simp only [handle]
      split
      next => exact htick
      next device _ => exact htick.watch viewer device.flag
  | stopStreamByDevice viewer organizationId deviceId now => exact htick.stop hclear
  | stopStream viewer organizationId userId now => exact htick.stop hclear
  | getCommands flag now => exact htick.cache fun _ _ => LiveWatchCache.afterIsWatched_eq
  | sweep now => exact htick.cache fun _ _ => LiveWatchCache.sweep_eq
  | devices devices now => exact htick

/-- A flag that is cleared while someone else is watching no longer counts as watched. -/
theorem not_watched_of_cleared {s : Controller V} {e : Event V} {w : Watch V} (hflag : w.flag ∈ s.cleared e)
    (hw : w ∈ s.watches) (hstop : e.stops w = false) (hminute : e.now ≤ w.since + 60000) : ¬ Watched (handle e s) := by
  intro h
  have hkept : w ∈ s.watches.filter fun w => !e.stops w := List.mem_filter.mpr ⟨hw, by rw [hstop]; rfl⟩
  have hgone := foldl_clearWatched_of_mem hflag s.cache
  have hasked : (((s.cleared e).foldl LiveWatchCache.clearWatched s.cache).isWatched e.now w.flag).1 = false := by
    unfold LiveWatchCache.isWatched
    rw [hgone]
  cases e with
  | stopStreamByDevice viewer organizationId deviceId now =>
      have htrue := h w hkept now le_rfl hminute
      exact absurd (htrue.symm.trans hasked) (by decide)
  | stopStream viewer organizationId userId now =>
      have htrue := h w hkept now le_rfl hminute
      exact absurd (htrue.symm.trans hasked) (by decide)
  | _ => exact absurd hflag List.not_mem_nil

/-! ## Runs -/

/-- **If all are considerate, every device counts as watched** that a viewer asked for within the last minute and has
not stopped, and the next request keeps it so exactly when it is considerate too. -/
theorem watched_of_considerate {devices : List AgentDevice} {now : Int} {s : Controller V}
    (h : Reached liveWatch Considerate (Controller.start devices now) s) :
    Watched s ∧ ∀ e : Event V, s.now ≤ e.now → (Watched (handle e s) ↔ Considerate s e) := by
  have hcovered : Covered s := by
    apply h.inv nofun
    intro s e s' hI hG hstep
    obtain rfl := Option.some.inj hstep
    exact covered_handle hI hG
  refine ⟨hcovered.watched, fun e hnow => ⟨fun hnext => ⟨hnow, fun flag hflag w hw hwflag => ?_⟩, fun hG => ?_⟩⟩
  · subst hwflag
    by_contra hnot
    obtain ⟨hstop, hminute⟩ := not_or.mp hnot
    exact not_watched_of_cleared hflag hw (Bool.eq_false_iff.mpr hstop) (not_lt.mp hminute) hnext
  · exact (covered_handle hcovered hG).watched

end

/-! ### Two viewers -/

section Two

/-- An id that ends in this letter. -/
def id_ (last : String) (h : ("11111111-1111-4111-8111-11111111111" ++ last).length = 36)
    (h' : ("11111111-1111-4111-8111-11111111111" ++ last).toList.all uuidChar = true) : Uuid :=
  ⟨"11111111-1111-4111-8111-11111111111" ++ last, h, h'⟩

def office : AgentDevice :=
  ⟨id_ "d" (by decide) (by decide), id_ "0" (by decide) (by decide), id_ "1" (by decide) (by decide), none, true⟩

/-- Both ask for the device. -/
def bothAsk : List (Event Nat) :=
  [.requestStreamByDevice 1 office.organizationId office.id 0,
    .requestStreamByDevice 2 office.organizationId office.id 15000]

/-- The first stops when the second has been gone for more than a minute. -/
def stopLater : List (Event Nat) :=
  bothAsk ++ ([.requestStreamByDevice 1 office.organizationId office.id 60000, .getCommands office.flag 61000,
    .stopStreamByDevice 1 office.organizationId office.id 76000] : List (Event Nat))

theorem watched_stopLater :
    Watched (endOf liveWatch (Controller.start [office] 0) stopLater) ∧
      ∀ e : Event Nat, (endOf liveWatch (Controller.start [office] 0) stopLater).now ≤ e.now →
        (Watched (handle e (endOf liveWatch (Controller.start [office] 0) stopLater)) ↔
          Considerate (endOf liveWatch (Controller.start [office] 0) stopLater) e) :=
  watched_of_considerate (reached_endOf (by decide +kernel) (by decide +kernel))

/-- The first stops while the second is watching. -/
def stopEarly : List (Event Nat) := bothAsk ++ [.stopStreamByDevice 1 office.organizationId office.id 20000]

theorem not_watched_stopEarly :
    ¬ ∀ (devices : List AgentDevice) (now : Int) (s : Controller Nat),
      Reached liveWatch (fun _ _ => True) (Controller.start devices now) s → Watched s := by
  intro h
  have hwatched := h [office] 0 _ (reached_endOf (allowed_true _ stopEarly) (by decide +kernel))
  have hmem : (⟨2, office.flag, 15000⟩ : Watch Nat) ∈
      (endOf liveWatch (Controller.start [office] 0) stopEarly).watches := by decide +kernel
  exact absurd (hwatched _ hmem 20000 (by decide +kernel) (by decide)) (by decide +kernel)

end Two

end TimeChamp.LiveWatch
