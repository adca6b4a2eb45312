import Mathlib.Data.List.TakeWhile
import TimeChamp.Api.Redis
import TimeChamp.Lib.Pool
import TimeChamp.Stream.Protocol

/-!
# The streaming gateway

`StreamingGateway` relays the frames of agents to the dashboards that watch them. Its handlers run until their next
`await`; between two awaits of one handler any others may run.

* `Room`, `Room.name_injective` : the rooms of the server; what a client spells ends up in no other kind of room;
* `CounterKey`, `Gateway` : the counters of the store, and all that the handlers share, with what happened so far;
* `Op`, `exec` : what a handler does between two awaits;
* `handleConnection`, `handleDisconnect`, `handleFrame` : the programs; `gateway` : any sockets, messages and times;
* `gatewayProtocol`, `follows_body` : what each handler knows when it goes on; `Moves` : where an answer can leave it.
-/

namespace TimeChamp.Streaming
open Lib Api
open Function (update)

/-! ## What is shared -/

abbrev SocketId := String

structure User where
  id : String
  organizationId : String
  agentToken : Option String
deriving DecidableEq

/-- The table of users; an id is one user's. -/
structure UserTable where
  rows : List User
  ids : (rows.map User.id).Nodup

/-- A new user, under a new id. -/
def UserTable.insert (t : UserTable) (user : User) (h : ∀ u ∈ t.rows, u.id ≠ user.id) : UserTable where
  rows := user :: t.rows
  ids := by
    rw [List.map_cons, List.nodup_cons]
    refine ⟨fun hmem => ?_, t.ids⟩
    obtain ⟨u, hu, hid⟩ := List.mem_map.mp hmem
    exact h u hu hid

def User.withToken (userId : String) (token : Option String) (u : User) : User :=
  if u.id = userId then { u with agentToken := token } else u

/-- A user is given a token. -/
def UserTable.setToken (t : UserTable) (userId : String) (token : Option String) : UserTable where
  rows := t.rows.map (User.withToken userId token)
  ids := by
    have hid : User.id ∘ User.withToken userId token = User.id := funext fun u => by
      unfold Function.comp User.withToken
      split_ifs <;> rfl
    rw [List.map_map, hid]
    exact t.ids

/-- The claims of a JWT that the gateway reads. -/
structure JwtPayload where
  sub : String
  orgId : String
deriving DecidableEq

/-- A connection; the timeout is in milliseconds. -/
structure ConnectionMeta where
  userId : String
  orgId : String
  isAgent : Bool
  timeout : Option Nat
deriving DecidableEq

structure StreamSession where
  userId : String
  organizationId : String
  socketId : SocketId
  isActive : Bool
  mode : String
  disconnectReason : Option String
deriving DecidableEq

inductive Room where
  | manager (orgId : String)
  | agent (userId : String)
  | org (orgId : String)
  | watchers (userId : String)
deriving DecidableEq

/-- The name a room is joined under. -/
def Room.name : Room → String
  | .manager orgId => "manager:" ++ orgId
  | .agent userId => "agent:" ++ userId
  | .org orgId => "org:" ++ orgId
  | .watchers userId => "watchers:" ++ userId

/-- **A name is one room's**, whatever the client put into it. -/
theorem Room.name_injective : Function.Injective Room.name := by
  intro r s h
  have hlist : r.name.toList = s.name.toList := congrArg String.toList h
  cases r <;> cases s <;> simp [Room.name] at hlist
  all_goals exact congrArg _ (String.toList_inj.mp hlist)

/-- The keys of the store: `bw:<user>:<day>` and `egress:monthly:<year>-<month>`. -/
inductive CounterKey where
  | daily (userId : String) (day : Int)
  | monthly (month : Int × Int)
deriving DecidableEq

inductive Event where
  | frame (sender : ConnectionMeta) (data : List UInt8) (type : UInt8)
  | online (userId : String)
  | offline (userId : String)
  | control (action : String)
deriving DecidableEq

/-- An event, with the sockets it was emitted to. -/
structure Emission where
  event : Event
  receivers : List SocketId
deriving DecidableEq

/-- The tables, the store, the sockets and rooms of the server, the maps of the gateway, and the clock. The rest is
history: the sockets there ever were, what each was accepted as, the bytes of each frame under the counters it is to be
counted in, and what was emitted. -/
structure Gateway where
  users : UserTable
  sessions : List StreamSession
  redis : Mem CounterKey
  now : Int
  connected : List SocketId
  rooms : List (Room × SocketId)
  connections : SocketId → Option ConnectionMeta
  agentSockets : String → Option SocketId
  opened : List SocketId
  authenticated : SocketId → Option ConnectionMeta
  tracked : List (CounterKey × Nat)
  emitted : List Emission

def Gateway.start (users : UserTable) : Gateway :=
  ⟨users, [], fun _ => none, 0, [], [], fun _ => none, fun _ => none, [], fun _ => none, [], []⟩

/-- `client.join`; it does nothing once the socket has disconnected. -/
def Gateway.join (g : Gateway) (client : SocketId) (room : Room) : Gateway :=
  if client ∈ g.connected then { g with rooms := g.rooms.insert (room, client) } else g

def Gateway.leave (g : Gateway) (client : SocketId) (room : Room) : Gateway :=
  { g with rooms := g.rooms.filter (· ≠ (room, client)) }

/-- `server.to(room).emit(event)`. -/
def Gateway.emit (g : Gateway) (room : Room) (event : Event) : Gateway :=
  { g with emitted := g.emitted ++ [⟨event, (g.rooms.filter (·.1 = room)).map Prod.snd⟩] }

/-- An event to one socket. -/
def Gateway.emitTo (g : Gateway) (client : SocketId) (event : Event) : Gateway :=
  { g with emitted := g.emitted ++ [⟨event, g.connected.filter (· = client)⟩] }

/-- The socket was accepted: its connection is in the map. -/
def Gateway.accept (g : Gateway) (client : SocketId) (conn : ConnectionMeta) : Gateway :=
  { g with connections := update g.connections client (some conn),
           authenticated := update g.authenticated client (some conn) }

/-! ## The clock -/

/-- The day of `toISOString().slice(0, 10)`, counted from 1970. -/
def isoDay (now : Int) : Int := now / 86400000

/-- The year and month of `toISOString().slice(0, 7)`. -/
def isoMonth (now : Int) : Int × Int :=
  let z := isoDay now + 719468
  let era := z / 146097
  let doe := z - era * 146097
  let yoe := (doe - doe / 1460 + doe / 36524 - doe / 146096) / 365
  let mp := (5 * (doe - (365 * yoe + yoe / 4 - yoe / 100)) + 2) / 153
  let month := if mp < 10 then mp + 3 else mp - 9
  (yoe + era * 400 + if month ≤ 2 then 1 else 0, month)

example : isoMonth 1709164800000 = (2024, 2) := by decide

example : isoMonth 1709251200000 = (2024, 3) := by decide

/-! ## Counters as texts -/

/-- `parseInt(text, 10)` of a text that begins with digits. -/
def parseInt (text : String) : Nat := Nat.ofDigitChars 10 (text.toList.takeWhile Char.isDigit) 0

theorem parseInt_toString (n : Nat) : parseInt (toString n) = n := by
  have hdigits : ∀ c ∈ Nat.toDigits 10 n, c.isDigit = true := fun c hc =>
    Nat.isDigit_of_mem_toDigits (by omega) (by omega) hc
  have hlist : (toString n).toList = Nat.toDigits 10 n := Nat.toList_repr
  rw [parseInt, hlist, List.takeWhile_eq_self_iff.mpr hdigits]
  exact Nat.ofDigitChars_ten_toDigits

/-! ## Between two awaits -/

/-- The effects: what a handler does up to its next `await`, or the awaited call. -/
inductive Op where
  | connect (client : SocketId) (token : Option String)
  | findAgent (token : String)
  | register (client : SocketId) (agentUser : User)
  | createSession (userId orgId : String) (socketId : SocketId)
  | setConnection (client : SocketId) (conn : ConnectionMeta)
  | disconnect (client : SocketId)
  | closeSession (socketId : SocketId) (reason : String)
  | receive (client : SocketId) (data : List UInt8)
  | get (key : CounterKey)
  | set (key : CounterKey) (value : String) (ttlSeconds : Option Nat)
  | relay (conn : ConnectionMeta) (data : List UInt8)
  | subscribe (client : SocketId) (userId : String)
  | unsubscribe (client : SocketId) (userId : String)
  | emit (room : Room) (event : Event)
  | emitTo (client : SocketId) (event : Event)
  | sendControlToAgent (userId : String) (action : String)
deriving DecidableEq

/-- The answers. `connect` tells whether the token was a JWT; `disconnect` what the map had of the socket; `receive` the
sender and the day; `relay` the month. -/
abbrev Op.Reply : Op → Type
  | .connect _ _ => Bool
  | .findAgent _ => Except String (Option User)
  | .createSession _ _ _ => Except String Unit
  | .disconnect _ => Option ConnectionMeta
  | .closeSession _ _ => Except String Unit
  | .receive _ _ => Option (ConnectionMeta × Int)
  | .get _ => Except String (Option String)
  | .set _ _ _ => Except String Unit
  | .relay _ _ => Int × Int
  | .sendControlToAgent _ _ => Bool
  | _ => Unit

/-- What the outside decides: how a call ends, the clock, and what `jwtService.verify` finds in the token. -/
structure Choice where
  outcome : Outcome
  now : Int
  payload : Option JwtPayload

def callError : String := "call failed"

/-- A new socket is connected. -/
def Gateway.open_ (g : Gateway) (client : SocketId) : Gateway :=
  { g with connected := client :: g.connected, opened := client :: g.opened }

def Gateway.acceptManager (g : Gateway) (client : SocketId) (payload : JwtPayload) : Gateway :=
  (g.accept client ⟨payload.sub, payload.orgId, false, none⟩).join client (.manager payload.orgId)

def Gateway.acceptAgent (g : Gateway) (client : SocketId) (agentUser : User) : Gateway :=
  let g := g.accept client ⟨agentUser.id, agentUser.organizationId, true, none⟩
  let g := { g with agentSockets := update g.agentSockets agentUser.id (some client) }
  (g.join client (.agent agentUser.id)).join client (.org agentUser.organizationId)

/-- A connection that is closed leaves the maps; an agent's, under whichever socket its user was. -/
def Gateway.close (g : Gateway) (client : SocketId) (conn : ConnectionMeta) : Gateway :=
  { g with connections := update g.connections client none,
           agentSockets := if conn.isAgent then update g.agentSockets conn.userId none else g.agentSockets }

/-- A socket that disconnects is in no room. -/
def Gateway.drop (g : Gateway) (client : SocketId) : Gateway :=
  { g with connected := g.connected.filter (· ≠ client), rooms := g.rooms.filter (·.2 ≠ client) }

/-- A step, at the time the clock shows. -/
def execNow (ch : Choice) : (op : Op) → Gateway → Option (op.Reply × Gateway)
  | .connect client token, g =>
    -- a socket has an id of its own
    if client ∈ g.opened then none
    else
      match token, ch.payload with
      | some _, some payload => some (true, (g.open_ client).acceptManager client payload)
      | _, _ => some (false, g.open_ client)
  | .findAgent token, g =>
    some (ch.outcome.answer callError (g.users.rows.find? fun u => u.agentToken == some token) g g)
  | .register client agentUser, g => some ((), g.acceptAgent client agentUser)
  | .createSession userId orgId socketId, g =>
    some (ch.outcome.answer callError () g
      { g with sessions := g.sessions ++ [⟨userId, orgId, socketId, true, "idle", none⟩] })
  | .setConnection client conn, g => some ((), { g with connections := update g.connections client (some conn) })
  | .disconnect client, g =>
    if client ∈ g.connected then
      let g := g.drop client
      match g.connections client with
      | none => some (none, g)
      | some conn => some (some conn, g.close client conn)
    else some (none, g)
  | .closeSession socketId reason, g =>
    some (ch.outcome.answer callError () g { g with sessions := g.sessions.map fun s =>
      if s.socketId = socketId ∧ s.isActive then { s with isActive := false, disconnectReason := some reason } else s })
  | .receive client data, g =>
    match g.connections client with
    | none => some (none, g)
    | some conn =>
      if conn.isAgent then
        some (some (conn, isoDay g.now),
          { g with tracked := (.daily conn.userId (isoDay g.now), data.length) :: g.tracked })
      else some (none, g)
  | .get key, g =>
    some (ch.outcome.answer callError (g.redis.get g.now key) g { g with redis := g.redis.afterGet g.now key })
  | .set key value ttlSeconds, g =>
    some (ch.outcome.answer callError () g { g with redis := g.redis.set g.now key value ttlSeconds })
  | .relay conn data, g =>
    let tracked := { g with tracked := (.monthly (isoMonth g.now), data.length) :: g.tracked }
    match Stream.Api.parseFrame data with
    | .ok frame => some (isoMonth g.now, tracked.emit (.watchers conn.userId) (.frame conn data frame.type))
    | .error _ => some (isoMonth g.now, tracked)
  | .subscribe client userId, g =>
    match g.connections client with
    | none => some ((), g)
    | some conn => if conn.isAgent then some ((), g) else some ((), g.join client (.watchers userId))
  | .unsubscribe client userId, g => some ((), g.leave client (.watchers userId))
  | .emit room event, g => some ((), g.emit room event)
  | .emitTo client event, g => some ((), g.emitTo client event)
  | .sendControlToAgent userId action, g =>
    match g.agentSockets userId with
    | none => some (false, g)
    | some socketId => some (true, g.emitTo socketId (.control action))

/-- Time passes before each step. -/
def exec (ch : Choice) (op : Op) (g : Gateway) : Option (op.Reply × Gateway) :=
  if ch.now < g.now then none else execNow ch op { g with now := ch.now }

theorem exec_cases {ch : Choice} {op : Op} {g g' : Gateway} {r : op.Reply} (h : exec ch op g = some (r, g')) :
    g.now ≤ ch.now ∧ execNow ch op { g with now := ch.now } = some (r, g') := by
  unfold exec at h
  split_ifs at h with hnow
  exact ⟨Int.not_lt.mp hnow, h⟩

/-! ## Handlers -/

abbrev Handler := Prog Op Op.Reply

namespace Handler
abbrev connect (client : SocketId) (token : Option String) : Handler Bool := .perform (E := Op) (.connect client token)
abbrev findAgent (token : String) : Handler (Except String (Option User)) := .perform (E := Op) (.findAgent token)
abbrev register (client : SocketId) (agentUser : User) : Handler Unit := .perform (E := Op) (.register client agentUser)
abbrev createSession (userId orgId : String) (socketId : SocketId) : Handler (Except String Unit) :=
  .perform (E := Op) (.createSession userId orgId socketId)
abbrev setConnection (client : SocketId) (conn : ConnectionMeta) : Handler Unit :=
  .perform (E := Op) (.setConnection client conn)
abbrev disconnect (client : SocketId) : Handler (Option ConnectionMeta) := .perform (E := Op) (.disconnect client)
abbrev closeSession (socketId : SocketId) (reason : String) : Handler (Except String Unit) :=
  .perform (E := Op) (.closeSession socketId reason)
abbrev receive (client : SocketId) (data : List UInt8) : Handler (Option (ConnectionMeta × Int)) :=
  .perform (E := Op) (.receive client data)
abbrev get (key : CounterKey) : Handler (Except String (Option String)) := .perform (E := Op) (.get key)
abbrev set (key : CounterKey) (value : String) (ttlSeconds : Option Nat) : Handler (Except String Unit) :=
  .perform (E := Op) (.set key value ttlSeconds)
abbrev relay (conn : ConnectionMeta) (data : List UInt8) : Handler (Int × Int) := .perform (E := Op) (.relay conn data)
abbrev subscribe (client : SocketId) (userId : String) : Handler Unit := .perform (E := Op) (.subscribe client userId)
abbrev unsubscribe (client : SocketId) (userId : String) : Handler Unit :=
  .perform (E := Op) (.unsubscribe client userId)
abbrev emit (room : Room) (event : Event) : Handler Unit := .perform (E := Op) (.emit room event)
abbrev emitTo (client : SocketId) (event : Event) : Handler Unit := .perform (E := Op) (.emitTo client event)
abbrev sendControlToAgent (userId action : String) : Handler Bool := .perform (E := Op) (.sendControlToAgent userId action)
end Handler

open Handler

/-- A socket disconnects, by itself or because the server disconnects it. -/
def handleDisconnect (client : SocketId) : Handler Unit := do
  match ← disconnect client with
  | none => pure ()
  | some conn =>
    if conn.isAgent then
      match ← closeSession client "disconnected" with
      | .error _ => pure ()
      | .ok _ => emit (.org conn.orgId) (.offline conn.userId)
    else pure ()

/-- The lifetime of a session in milliseconds; zero hours are none configured. -/
def sessionTimeout (maxHours : Nat) : Nat := (if maxHours = 0 then 8 else maxHours) * 3600 * 1000

/-- The empty token is none. -/
def handleConnection (maxHours : Nat) (client : SocketId) (token : Option String) : Handler Unit := do
  if ← connect client (token.filter (· ≠ "")) then pure ()
  else
    match token.filter (· ≠ "") with
    | none => handleDisconnect client
    | some token =>
      match ← findAgent token with
      | .error _ => handleDisconnect client
      | .ok none => handleDisconnect client
      | .ok (some agentUser) =>
        register client agentUser
        match ← createSession agentUser.id agentUser.organizationId client with
        | .error _ => handleDisconnect client
        | .ok _ =>
          emit (.org agentUser.organizationId) (.online agentUser.id)
          setConnection client ⟨agentUser.id, agentUser.organizationId, true, some (sessionTimeout maxHours)⟩

/-- The bytes a day allows. -/
def dailyCap : Nat := 500 * 1024 * 1024

/-- The bytes are added to the day's; are they below the cap? -/
def trackBandwidth (key : CounterKey) (bytes : Nat) : Handler (Except String Bool) := do
  match ← get key with
  | .error e => pure (.error e)
  | .ok current =>
    let newTotal := current.elim 0 parseInt + bytes
    match ← set key (toString newTotal) (some 90000) with
    | .error e => pure (.error e)
    | .ok _ => pure (.ok (decide (newTotal < dailyCap)))

/-- The bytes are added to the month's; errors are ignored. -/
def trackEgress (key : CounterKey) (bytes : Nat) : Handler Unit := do
  match ← get key with
  | .error _ => pure ()
  | .ok val => do let _ ← set key (toString (val.elim 0 parseInt + bytes)) none

/-- The month's counter is not waited for: the frame is relayed before it changes. -/
def handleFrame (client : SocketId) (data : List UInt8) : Handler Unit := do
  match ← receive client data with
  | none => pure ()
  | some (conn, today) =>
    match ← trackBandwidth (.daily conn.userId today) data.length with
    | .error _ => pure ()
    | .ok false => emitTo client (.control "bandwidth_cap_exceeded")
    | .ok true =>
      let month ← relay conn data
      trackEgress (.monthly month) data.length

/-- A handler is called: a socket connects or disconnects, its session times out, it sends a message, or an agent is sent
a control message. Or the users change: one is created, or is given another token. -/
inductive Call where
  | connect (client : SocketId) (token : Option String)
  | disconnect (client : SocketId)
  | sessionTimeout (client : SocketId)
  | frame (client : SocketId) (data : List UInt8)
  | subscribe (client : SocketId) (userId : String)
  | unsubscribe (client : SocketId) (userId : String)
  | sendControlToAgent (userId action : String)
  | addUser (user : User)
  | setAgentToken (userId : String) (token : Option String)

def Call.body (maxHours : Nat) : Call → Handler Unit
  | .connect client token => handleConnection maxHours client token
  | .disconnect client => handleDisconnect client
  | .sessionTimeout client => do
    emitTo client (.control "session_timeout")
    handleDisconnect client
  | .frame client data => handleFrame client data
  | .subscribe client userId => Handler.subscribe client userId
  | .unsubscribe client userId => Handler.unsubscribe client userId
  | .sendControlToAgent userId action => do let _ ← Handler.sendControlToAgent userId action
  | .addUser _ => pure ()
  | .setAgentToken _ _ => pure ()

/-- A user's id is new when the user is created: nobody has it, and nobody watches it. -/
def Call.admits : Call → Gateway → Option Gateway
  | .addUser user, g =>
    if h : (∀ u ∈ g.users.rows, u.id ≠ user.id) ∧ ∀ x ∈ g.rooms, x.1 ≠ .watchers user.id then
      some { g with users := g.users.insert user h.1 }
    else none
  | .setAgentToken userId token, g => some { g with users := g.users.setToken userId token }
  | _, g => some g

/-- Any sockets and messages at any time, with a configured number of hours for a session. -/
def gateway (maxHours : Nat) : System Op Op.Reply Gateway Choice Call := ⟨exec, Call.admits, Call.body maxHours⟩

abbrev Running (ι : Type) := Config ι Op Op.Reply Gateway

/-! ## What a handler knows -/

/-- Where a handler stands. -/
inductive Stage where
  | idle
  | connecting (client : SocketId)
  | found (client : SocketId) (agentUser : User)
  | registered (client : SocketId) (agentUser : User)
  | counting (conn : ConnectionMeta) (key : CounterKey) (bytes : Nat)
  | read (conn : ConnectionMeta) (key : CounterKey) (current bytes : Nat)
  | counted (conn : ConnectionMeta)

/-- The handler is not in the middle of adding to a counter. -/
def Stage.Settled : Stage → Prop
  | .counting _ _ _ => False
  | .read _ _ _ _ => False
  | _ => True

def CounterKey.ttl : CounterKey → Option Nat
  | .daily _ _ => some 90000
  | .monthly _ => none

def Event.isFrame : Event → Bool
  | .frame _ _ _ => true
  | _ => false

/-- An agent is registered as the user that was found, and a counter is written with what was read from it and the bytes
of the frame, with nothing in between; frames are relayed, and nothing else emits them. -/
def gatewayProtocol : Protocol Op Op.Reply Stage where
  pre m
    | .findAgent _ => ∃ client, m = .connecting client
    | .register client agentUser => m = .found client agentUser
    | .createSession _ _ _ => ∃ client agentUser, m = .registered client agentUser
    | .setConnection client conn =>
      ∃ agentUser timeout, m = .registered client agentUser ∧ conn = ⟨agentUser.id, agentUser.organizationId, true, timeout⟩
    | .get key => ∃ conn bytes, m = .counting conn key bytes
    | .set key value ttlSeconds =>
      ∃ conn current bytes, m = .read conn key current bytes ∧ value = toString (current + bytes) ∧ ttlSeconds = key.ttl
    | .relay conn _ => m = .counted conn
    | .emit _ event => m.Settled ∧ event.isFrame = false
    | .emitTo _ event => m.Settled ∧ event.isFrame = false
    | _ => m.Settled
  post m op r m' :=
    match op, r with
    | .connect client _, false => m' = .connecting client
    | .findAgent _, .ok (some agentUser) => ∃ client, m = .connecting client ∧ m' = .found client agentUser
    | .register client agentUser, _ => m' = .registered client agentUser
    | .createSession _ _ _, .ok _ => m' = m
    | .emit _ _, _ => m' = m
    | .receive _ data, some (conn, day) => m' = .counting conn (.daily conn.userId day) data.length
    | .get key, .ok current =>
      ∃ conn bytes, m = .counting conn key bytes ∧ m' = .read conn key (current.elim 0 parseInt) bytes
    | .set key _ _, .ok _ => ∃ conn current bytes, m = .read conn key current bytes ∧ m' = .counted conn
    | .relay conn data, month => m' = .counting conn (.monthly month) data.length
    | _, _ => m' = .idle

/-- Whatever the answer, it leaves a handler somewhere. -/
theorem exists_post {m : Stage} {op : Op} (hpre : gatewayProtocol.pre m op) (r : op.Reply) :
    ∃ stage, gatewayProtocol.post m op r stage := by
  cases op with
  | connect client token => cases r <;> exact ⟨_, rfl⟩
  | findAgent token =>
      obtain ⟨client, hm⟩ := hpre
      rcases r with e | _ | agentUser
      · exact ⟨_, rfl⟩
      · exact ⟨_, rfl⟩
      · exact ⟨_, client, hm, rfl⟩
  | createSession userId orgId socketId => cases r <;> exact ⟨_, rfl⟩
  | disconnect client => cases r <;> exact ⟨_, rfl⟩
  | closeSession socketId reason => cases r <;> exact ⟨_, rfl⟩
  | receive client data => cases r <;> exact ⟨_, rfl⟩
  | get key =>
      obtain ⟨conn, bytes, hm⟩ := hpre
      cases r with
      | error e => exact ⟨_, rfl⟩
      | ok current => exact ⟨_, conn, bytes, hm, rfl⟩
  | set key value ttlSeconds =>
      obtain ⟨conn, current, bytes, hm, -⟩ := hpre
      cases r with
      | error e => exact ⟨_, rfl⟩
      | ok u => exact ⟨_, conn, current, bytes, hm, rfl⟩
  | sendControlToAgent userId action => cases r <;> exact ⟨_, rfl⟩
  | _ => exact ⟨_, rfl⟩

/-- Where an answer can leave a handler that stood in `m`. -/
inductive Moves (m : Stage) : (op : Op) → op.Reply → Stage → Prop where
  | idle {op : Op} {r : op.Reply} : Moves m op r .idle
  | connecting {client : SocketId} {token : Option String} : Moves m (.connect client token) false (.connecting client)
  | found {client : SocketId} {token : String} {agentUser : User} (hm : m = .connecting client) :
    Moves m (.findAgent token) (.ok (some agentUser)) (.found client agentUser)
  | registered {client : SocketId} {agentUser : User} :
    Moves m (.register client agentUser) () (.registered client agentUser)
  | created {userId orgId : String} {socketId : SocketId} : Moves m (.createSession userId orgId socketId) (.ok ()) m
  | emitted {room : Room} {event : Event} : Moves m (.emit room event) () m
  | received {client : SocketId} {data : List UInt8} {conn : ConnectionMeta} {day : Int} :
    Moves m (.receive client data) (some (conn, day)) (.counting conn (.daily conn.userId day) data.length)
  | read {key : CounterKey} {current : Option String} {conn : ConnectionMeta} {bytes : Nat}
      (hm : m = .counting conn key bytes) :
    Moves m (.get key) (.ok current) (.read conn key (current.elim 0 parseInt) bytes)
  | written {key : CounterKey} {value : String} {ttlSeconds : Option Nat} {conn : ConnectionMeta} {current bytes : Nat}
      (hm : m = .read conn key current bytes) : Moves m (.set key value ttlSeconds) (.ok ()) (.counted conn)
  | relayed {conn : ConnectionMeta} {data : List UInt8} {month : Int × Int} :
    Moves m (.relay conn data) month (.counting conn (.monthly month) data.length)

/-- **No answer leaves it anywhere else.** -/
theorem moves_of_post {m stage : Stage} {op : Op} {r : op.Reply} (h : gatewayProtocol.post m op r stage) :
    Moves m op r stage := by
  have idle : stage = .idle → Moves m op r stage := fun hidle => hidle ▸ .idle
  cases op with
  | connect client token =>
      cases r with
      | true => exact idle h
      | false =>
          cases h
          exact .connecting
  | findAgent token =>
      rcases r with e | _ | agentUser
      · exact idle h
      · exact idle h
      · obtain ⟨client, hm, rfl⟩ := h
        exact .found hm
  | register client agentUser =>
      cases h
      exact .registered
  | createSession userId orgId socketId =>
      cases r with
      | error e => exact idle h
      | ok u =>
          cases h
          exact .created
  | emit room event =>
      cases h
      exact .emitted
  | receive client data =>
      cases r with
      | none => exact idle h
      | some p =>
          cases h
          exact .received
  | get key =>
      cases r with
      | error e => exact idle h
      | ok current =>
          obtain ⟨conn, bytes, hm, rfl⟩ := h
          exact .read hm
  | set key value ttlSeconds =>
      cases r with
      | error e => exact idle h
      | ok u =>
          obtain ⟨conn, current, bytes, hm, rfl⟩ := h
          exact .written hm
  | relay conn data =>
      cases h
      exact .relayed
  | disconnect client => cases r <;> exact idle h
  | closeSession socketId reason => cases r <;> exact idle h
  | sendControlToAgent userId action => cases r <;> exact idle h
  | _ => exact idle h

theorem follows_handleDisconnect (client : SocketId) {m : Stage} (hsettled : m.Settled) :
    Follows gatewayProtocol (fun m _ => m.Settled) m (handleDisconnect client) := by
  refine follows_perform_bind.mpr ⟨hsettled, fun r m' hm => ?_⟩
  cases hm
  rcases r with _ | conn
  · trivial
  · dsimp only
    split_ifs
    · refine follows_perform_bind.mpr ⟨trivial, fun r m' hm => ?_⟩
      cases hm
      cases r with
      | error e => trivial
      | ok u => exact ⟨⟨trivial, rfl⟩, fun _ _ hm => hm ▸ trivial⟩
    · trivial

theorem follows_handleConnection (maxHours : Nat) (client : SocketId) (token : Option String) :
    Follows gatewayProtocol (fun m _ => m.Settled) .idle (handleConnection maxHours client token) := by
  refine follows_perform_bind.mpr ⟨trivial, fun verified m' hm => ?_⟩
  cases verified with
  | true =>
      cases hm
      trivial
  | false =>
      cases hm
      cases token.filter (· ≠ "") with
      | none => exact follows_handleDisconnect client trivial
      | some token =>
          refine follows_perform_bind.mpr ⟨⟨client, rfl⟩, fun r m' hm => ?_⟩
          rcases r with e | _ | agentUser
          · cases hm
            exact follows_handleDisconnect client trivial
          · cases hm
            exact follows_handleDisconnect client trivial
          · obtain ⟨client', hclient, rfl⟩ := hm
            obtain rfl := Stage.connecting.inj hclient
            refine follows_perform_bind.mpr ⟨rfl, fun _ m' hm => ?_⟩
            cases hm
            refine follows_perform_bind.mpr ⟨⟨client, agentUser, rfl⟩, fun r m' hm => ?_⟩
            cases r with
            | error e =>
                cases hm
                exact follows_handleDisconnect client trivial
            | ok u =>
                cases hm
                refine follows_perform_bind.mpr ⟨⟨trivial, rfl⟩, fun _ m' hm => ?_⟩
                cases hm
                exact ⟨⟨agentUser, _, rfl, rfl⟩, fun _ _ hm => hm ▸ trivial⟩

theorem follows_trackBandwidth (conn : ConnectionMeta) (userId : String) (day : Int) (bytes : Nat) :
    Follows gatewayProtocol (fun m a => m.Settled ∧ (a = .ok true → m = .counted conn))
      (.counting conn (.daily userId day) bytes) (trackBandwidth (.daily userId day) bytes) := by
  refine follows_perform_bind.mpr ⟨⟨conn, bytes, rfl⟩, fun r m' hm => ?_⟩
  cases r with
  | error e =>
      cases hm
      exact ⟨trivial, fun h => nomatch h⟩
  | ok current =>
      obtain ⟨conn', bytes', hcounting, rfl⟩ := hm
      obtain ⟨rfl, -, rfl⟩ := Stage.counting.inj hcounting
      refine follows_perform_bind.mpr ⟨⟨conn, _, bytes, rfl, rfl, rfl⟩, fun r m' hm => ?_⟩
      cases r with
      | error e =>
          cases hm
          exact ⟨trivial, fun h => nomatch h⟩
      | ok u =>
          obtain ⟨conn', current', bytes', hread, rfl⟩ := hm
          obtain ⟨rfl, -⟩ := Stage.read.inj hread
          exact ⟨trivial, fun _ => rfl⟩

theorem follows_trackEgress (conn : ConnectionMeta) (month : Int × Int) (bytes : Nat) :
    Follows gatewayProtocol (fun m _ => m.Settled) (.counting conn (.monthly month) bytes)
      (trackEgress (.monthly month) bytes) := by
  refine follows_perform_bind.mpr ⟨⟨conn, bytes, rfl⟩, fun r m' hm => ?_⟩
  cases r with
  | error e =>
      cases hm
      trivial
  | ok val =>
      obtain ⟨conn', bytes', hcounting, rfl⟩ := hm
      obtain ⟨rfl, -, rfl⟩ := Stage.counting.inj hcounting
      refine ⟨⟨conn, _, bytes, rfl, rfl, rfl⟩, fun r m' hm => ?_⟩
      cases r with
      | error e =>
          cases hm
          trivial
      | ok u =>
          obtain ⟨conn', current', bytes', hread, rfl⟩ := hm
          trivial

theorem follows_handleFrame (client : SocketId) (data : List UInt8) :
    Follows gatewayProtocol (fun m _ => m.Settled) .idle (handleFrame client data) := by
  refine follows_perform_bind.mpr ⟨trivial, fun r m' hm => ?_⟩
  rcases r with _ | ⟨conn, today⟩
  · cases hm
    trivial
  · cases hm
    apply (follows_trackBandwidth conn conn.userId today data.length).bind
    intro m a hend
    rcases a with e | _ | _
    · exact hend.1
    · exact ⟨⟨hend.1, rfl⟩, fun _ _ hm => hm ▸ trivial⟩
    · refine follows_perform_bind.mpr ⟨hend.2 rfl, fun month m' hm => ?_⟩
      cases hm
      exact follows_trackEgress conn month data.length

/-- **Every handler keeps to the protocol**, and ends settled. -/
theorem follows_body (maxHours : Nat) (call : Call) :
    Follows gatewayProtocol (fun m _ => m.Settled) .idle (call.body maxHours) := by
  cases call with
  | connect client token => exact follows_handleConnection maxHours client token
  | disconnect client => exact follows_handleDisconnect client trivial
  | sessionTimeout client =>
      refine follows_perform_bind.mpr ⟨⟨trivial, rfl⟩, fun _ m hm => ?_⟩
      cases hm
      exact follows_handleDisconnect client trivial
  | frame client data => exact follows_handleFrame client data
  | subscribe client userId => exact ⟨trivial, fun _ _ hm => hm ▸ trivial⟩
  | unsubscribe client userId => exact ⟨trivial, fun _ _ hm => hm ▸ trivial⟩
  | sendControlToAgent userId action => exact ⟨trivial, fun _ _ hm => hm ▸ trivial⟩
  | addUser user => trivial
  | setAgentToken userId token => trivial

/-! ## Runs of one agent -/

section Runs
variable {ι : Type}

/-- One user with an agent, of the organization `a`. -/
def oneUser : UserTable := ⟨[⟨"u", "a", some "t"⟩], by decide⟩

/-- Every call answers; this is what the verification of a token finds. -/
def answers (now : Int) (payload : Option JwtPayload) : Choice := ⟨.ok, now, payload⟩

/-- An empty frame. -/
def emptyFrame : List UInt8 := [1, 2, 0, 0, 0, 0, 0, 0]

/-- The handler takes so many steps. -/
def steps (i : ι) (n : Nat) : List (Act ι Choice Call) := List.replicate n (.step i (answers 0 none))

/-- The agent connects; its handler has six steps. -/
def connects (i : ι) (client : SocketId) : List (Act ι Choice Call) :=
  .call i (.connect client (some "t")) :: steps i 6

end Runs

end TimeChamp.Streaming
