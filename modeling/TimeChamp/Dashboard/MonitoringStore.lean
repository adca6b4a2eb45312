import Mathlib.Data.List.AList

/-!
# The monitoring store of the dashboard

`stores/monitoring-store.ts` and the seeding of it by `live-page-client.tsx`.

* `Store` : the employees, their timers and the sockets; `armed`, the timeouts of the browser that are still to come;
* `resetPresenceTimers`, `downgradeStatus`, `setStatus`, `setActivity` : the actions of the store;
* `seed` : what the live page does with the devices that the API returned;
* `StoreEvent`, `step` : one task of the browser.
-/

namespace TimeChamp.Dashboard

inductive Status where
  | online
  | idle
  | offline
deriving DecidableEq

structure EmployeeStatus where
  userId : String
  status : Status
  activeApp : Option String
  lastSeen : String
deriving DecidableEq

/-- What a timer lowers a status to. -/
inductive Downgrade where
  | idle
  | offline
deriving DecidableEq

def Downgrade.status : Downgrade → Status
  | .idle => .idle
  | .offline => .offline

/-- The handles of the timers of a user. -/
structure PresenceTimers where
  idle : Option Nat
  offline : Option Nat
deriving DecidableEq

def idleAfterMs : Int := 60000

def offlineAfterMs : Int := 300000

/-- A timeout that is still to come: `_downgradeStatus(userId, target)` at `due`. -/
structure Timeout where
  handle : Nat
  userId : String
  target : Downgrade
  due : Int
deriving DecidableEq

/-- `sockets` are those that were created and not disconnected, and whether each is connected. -/
structure Store where
  employees : AList fun _ : String => EmployeeStatus
  timers : AList fun _ : String => PresenceTimers
  socket : Option Nat
  connected : Bool
  sockets : List (Nat × Bool)
  armed : List Timeout
  nextHandle : Nat
  now : Int

def Store.start : Store := ⟨∅, ∅, none, false, [], [], 0, 0⟩

/-- `clearTimeout`; nothing for a handle that is undefined or has fired. -/
def clearTimeout (handle : Option Nat) (armed : List Timeout) : List Timeout :=
  armed.filter fun t => some t.handle ≠ handle

def PresenceTimers.clear (timers : PresenceTimers) (armed : List Timeout) : List Timeout :=
  clearTimeout timers.offline (clearTimeout timers.idle armed)

namespace Store

/-! ## Actions -/

def resetPresenceTimers (userId : String) (s : Store) : Store :=
  let armed :=
    match s.timers.lookup userId with
    | some existing => existing.clear s.armed
    | none => s.armed
  { s with
    timers := s.timers.insert userId ⟨some s.nextHandle, some (s.nextHandle + 1)⟩
    armed := ⟨s.nextHandle, userId, .idle, s.now + idleAfterMs⟩ ::
      ⟨s.nextHandle + 1, userId, .offline, s.now + offlineAfterMs⟩ :: armed
    nextHandle := s.nextHandle + 2 }

def downgradeStatus (userId : String) (target : Downgrade) (s : Store) : Store :=
  match s.employees.lookup userId with
  | none => s
  | some existing =>
    if target = .idle ∧ existing.status = .offline then s
    else { s with employees := s.employees.insert userId { existing with status := target.status } }

def setStatus (payload : EmployeeStatus) (s : Store) : Store :=
  { s with employees := s.employees.insert payload.userId payload }

def setActivity (userId appName timestamp : String) (s : Store) : Store :=
  match s.employees.lookup userId with
  | none => s
  | some existing =>
    { s with
      employees := s.employees.insert userId { existing with activeApp := some appName, lastSeen := timestamp } }

/-- The handler of `employee:status`. -/
def onStatus (payload : EmployeeStatus) (s : Store) : Store :=
  if payload.status = .offline then s.setStatus payload
  else (s.setStatus payload).resetPresenceTimers payload.userId

/-- The handler of `employee:activity`. -/
def onActivity (userId appName timestamp : String) (s : Store) : Store :=
  (s.setActivity userId appName timestamp).resetPresenceTimers userId

/-- Whether the socket of the store is connected. -/
def isConnected (s : Store) : Bool := s.socket.any fun id => s.sockets.contains (id, true)

/-- A new socket, unless there is one that is connected; one that is not is kept, and its handlers with it. -/
def connect (s : Store) : Store :=
  if s.isConnected then s
  else
    { s with
      socket := some s.nextHandle
      sockets := (s.nextHandle, false) :: s.sockets
      nextHandle := s.nextHandle + 1 }

def disconnect (s : Store) : Store :=
  { s with
    socket := none
    connected := false
    sockets := s.sockets.filter fun p => some p.1 ≠ s.socket
    timers := ∅
    armed := s.timers.entries.foldl (fun armed t => t.2.clear armed) s.armed }

/-- A socket connects or disconnects by itself. -/
def setConnected (id : Nat) (up : Bool) (s : Store) : Store :=
  { s with connected := up, sockets := s.sockets.map fun p => if p.1 = id then (id, up) else p }

end Store

/-! ## Seeding -/

/-- What seeding reads of a device. -/
structure LiveDevice where
  userId : String
  clockedInSince : String
  currentApp : Option String
  lastSeenAt : Option String
deriving DecidableEq

/-- The users so far, with a device that has a user and was seen after the one that was kept. -/
def keepLatest (users : AList fun _ : String => LiveDevice) (d : LiveDevice) : AList fun _ : String => LiveDevice :=
  if d.userId = "" then users
  else
    match users.lookup d.userId with
    | none => users.insert d.userId d
    | some prev => if d.lastSeenAt.getD "" > prev.lastSeenAt.getD "" then users.insert d.userId d else users

/-- The device of each user that was seen last; the first of those seen then. -/
def byUser (devices : List LiveDevice) : AList fun _ : String => LiveDevice := devices.foldl keepLatest ∅

/-- The status of a device that is seeded. -/
def LiveDevice.seeded (d : LiveDevice) : EmployeeStatus :=
  ⟨d.userId, .online, d.currentApp, d.lastSeenAt.getD d.clockedInSince⟩

/-- The effect of the live page. -/
def Store.seed (devices : List LiveDevice) (s : Store) : Store :=
  (byUser devices).entries.foldl (fun s d => s.setStatus d.2.seeded) s

/-! ## Events -/

/-- A task of the browser. -/
inductive StoreEvent where
  | connect
  | disconnect
  | socketConnect (id : Nat)
  | socketDisconnect (id : Nat)
  | status (id : Nat) (payload : EmployeeStatus)
  | activity (id : Nat) (userId appName timestamp : String)
  | setStatus (payload : EmployeeStatus)
  | seed (devices : List LiveDevice)
  | fire (handle : Nat)
  | elapse (ms : Nat)

/-- The socket is there, to deliver an event. -/
def Store.hasSocket (s : Store) (id : Nat) : Bool := s.sockets.any fun p => p.1 = id

def step : StoreEvent → Store → Option Store
  | .connect, s => some s.connect
  | .disconnect, s => some s.disconnect
  | .socketConnect id, s => if s.hasSocket id then some (s.setConnected id true) else none
  | .socketDisconnect id, s => if s.hasSocket id then some (s.setConnected id false) else none
  | .status id payload, s => if s.sockets.contains (id, true) then some (s.onStatus payload) else none
  | .activity id userId appName timestamp, s =>
    if s.sockets.contains (id, true) then some (s.onActivity userId appName timestamp) else none
  | .setStatus payload, s => some (s.setStatus payload)
  | .seed devices, s => some (s.seed devices)
  | .fire handle, s =>
    match s.armed.find? fun t => t.handle = handle with
    | none => none
    | some t =>
      if t.due ≤ s.now then
        some ({ s with armed := clearTimeout (some handle) s.armed }.downgradeStatus t.userId t.target)
      else none
  | .elapse ms, s => some { s with now := s.now + ms }

end TimeChamp.Dashboard
