import TimeChamp.Streaming.Gateway

/-!
# What a socket was accepted as

A socket is accepted at most once, as a dashboard or as an agent, and the map of connections never says anything else
of it. This holds of every run, whatever disconnects when.

* `connect_cases` and so on : what each operation does;
* `SameMaps`, `sameMaps` : the steps that leave the sockets, the rooms and the maps alone;
* `Changes`, `changes` : what the others can do to them;
* `Accepted` : the invariant; `Accepted.step` : **every step keeps it**, and what a socket was accepted as.
-/

namespace TimeChamp.Streaming
open Lib Api
open Function (update)

/-! ## What each operation does -/

section Operations
variable {ch : Choice} {g g' : Gateway}

theorem connect_cases {client : SocketId} {token : Option String} {r : Bool}
    (h : execNow ch (.connect client token) g = some (r, g')) : client ∉ g.opened ∧
      ((∃ payload : JwtPayload, r = true ∧ g' = (g.open_ client).acceptManager client payload) ∨
        r = false ∧ g' = g.open_ client) := by
  unfold execNow at h
  dsimp only at h
  split_ifs at h with hnew
  refine ⟨hnew, ?_⟩
  split at h <;> obtain ⟨rfl, rfl⟩ := Prod.mk.inj (Option.some.inj h)
  · exact Or.inl ⟨_, rfl, rfl⟩
  · exact Or.inr ⟨rfl, rfl⟩

theorem disconnect_cases {client : SocketId} {r : Option ConnectionMeta}
    (h : execNow ch (.disconnect client) g = some (r, g')) :
    g' = g ∨ client ∈ g.connected ∧
      (g.connections client = none ∧ g' = g.drop client ∨
        ∃ conn, g.connections client = some conn ∧ g' = (g.drop client).close client conn) := by
  unfold execNow at h
  dsimp only at h
  split_ifs at h with hconnected
  · refine Or.inr ⟨hconnected, ?_⟩
    split at h
    next hnone =>
      obtain ⟨-, rfl⟩ := Prod.mk.inj (Option.some.inj h)
      exact Or.inl ⟨hnone, rfl⟩
    next conn hconn =>
      obtain ⟨-, rfl⟩ := Prod.mk.inj (Option.some.inj h)
      exact Or.inr ⟨conn, hconn, rfl⟩
  · obtain ⟨-, rfl⟩ := Prod.mk.inj (Option.some.inj h)
    exact Or.inl rfl

/-- Bytes are tracked under the day and the user of an agent's connection, and no others. -/
theorem receive_cases {client : SocketId} {data : List UInt8} {r : Option (ConnectionMeta × Int)}
    (h : execNow ch (.receive client data) g = some (r, g')) :
    (r = none ∧ g' = g) ∨ ∃ conn, g.connections client = some conn ∧ conn.isAgent = true ∧
      r = some (conn, isoDay g.now) ∧
      g' = { g with tracked := (.daily conn.userId (isoDay g.now), data.length) :: g.tracked } := by
  unfold execNow at h
  dsimp only at h
  split at h
  · obtain ⟨rfl, rfl⟩ := Prod.mk.inj (Option.some.inj h)
    exact Or.inl ⟨rfl, rfl⟩
  next conn hconn =>
    split_ifs at h with hagent <;> obtain ⟨rfl, rfl⟩ := Prod.mk.inj (Option.some.inj h)
    · exact Or.inr ⟨conn, hconn, hagent, rfl, rfl⟩
    · exact Or.inl ⟨rfl, rfl⟩

theorem relay_cases {conn : ConnectionMeta} {data : List UInt8} {r : Int × Int}
    (h : execNow ch (.relay conn data) g = some (r, g')) : r = isoMonth g.now ∧
      ∃ tracked : Gateway, tracked = { g with tracked := (.monthly (isoMonth g.now), data.length) :: g.tracked } ∧
        (g' = tracked ∨ ∃ type, g' = tracked.emit (.watchers conn.userId) (.frame conn data type)) := by
  unfold execNow at h
  dsimp only at h
  split at h <;> obtain ⟨rfl, rfl⟩ := Prod.mk.inj (Option.some.inj h)
  · exact ⟨rfl, _, rfl, Or.inr ⟨_, rfl⟩⟩
  · exact ⟨rfl, _, rfl, Or.inl rfl⟩

theorem subscribe_cases {client : SocketId} {userId : String} {r : Unit}
    (h : execNow ch (.subscribe client userId) g = some (r, g')) :
    g' = g ∨ ∃ conn, g.connections client = some conn ∧ conn.isAgent = false ∧
      g' = g.join client (.watchers userId) := by
  unfold execNow at h
  dsimp only at h
  split at h
  · obtain ⟨-, rfl⟩ := Prod.mk.inj (Option.some.inj h)
    exact Or.inl rfl
  next conn hconn =>
    split_ifs at h with hagent <;> obtain ⟨-, rfl⟩ := Prod.mk.inj (Option.some.inj h)
    · exact Or.inl rfl
    · exact Or.inr ⟨conn, hconn, Bool.eq_false_iff.mpr hagent, rfl⟩

theorem control_cases {userId action : String} {r : Bool}
    (h : execNow ch (.sendControlToAgent userId action) g = some (r, g')) :
    g' = g ∨ ∃ socketId, g' = g.emitTo socketId (.control action) := by
  unfold execNow at h
  dsimp only at h
  split at h <;> obtain ⟨-, rfl⟩ := Prod.mk.inj (Option.some.inj h)
  · exact Or.inl rfl
  · exact Or.inr ⟨_, rfl⟩

end Operations

/-! ## Steps and maps -/

/-- The step may change the sockets, the rooms or the maps. -/
def Op.touchesMaps : Op → Bool
  | .connect _ _ => true
  | .register _ _ => true
  | .setConnection _ _ => true
  | .disconnect _ => true
  | .subscribe _ _ => true
  | .unsubscribe _ _ => true
  | _ => false

structure SameMaps (g g' : Gateway) : Prop where
  users : g'.users = g.users
  connected : g'.connected = g.connected
  rooms : g'.rooms = g.rooms
  connections : g'.connections = g.connections
  agentSockets : g'.agentSockets = g.agentSockets
  opened : g'.opened = g.opened
  authenticated : g'.authenticated = g.authenticated

theorem SameMaps.refl (g : Gateway) : SameMaps g g := ⟨rfl, rfl, rfl, rfl, rfl, rfl, rfl⟩

theorem sameMaps_answer {α : Type} {outcome : Outcome} {a : α} {g g' t : Gateway} {r : Except String α}
    (h : some (outcome.answer callError a g t) = some (r, g')) (hsame : SameMaps g t) : SameMaps g g' := by
  rcases Outcome.answer_cases (Option.some.inj h) with ⟨rfl, -⟩ | ⟨-, rfl | rfl⟩
  · exact hsame
  · exact .refl _
  · exact hsame

theorem sameMaps {ch : Choice} {op : Op} {g g' : Gateway} {r : op.Reply} (hop : op.touchesMaps = false)
    (h : execNow ch op g = some (r, g')) : SameMaps g g' := by
  cases op with
  | findAgent token => exact sameMaps_answer h (.refl _)
  | createSession userId orgId socketId => exact sameMaps_answer h ⟨rfl, rfl, rfl, rfl, rfl, rfl, rfl⟩
  | closeSession socketId reason => exact sameMaps_answer h ⟨rfl, rfl, rfl, rfl, rfl, rfl, rfl⟩
  | get key => exact sameMaps_answer h ⟨rfl, rfl, rfl, rfl, rfl, rfl, rfl⟩
  | set key value ttlSeconds => exact sameMaps_answer h ⟨rfl, rfl, rfl, rfl, rfl, rfl, rfl⟩
  | receive client data =>
      obtain ⟨-, rfl⟩ | ⟨conn, -, -, -, rfl⟩ := receive_cases h
      · exact .refl _
      · exact ⟨rfl, rfl, rfl, rfl, rfl, rfl, rfl⟩
  | relay conn data =>
      obtain ⟨-, tracked, rfl, rfl | ⟨type, rfl⟩⟩ := relay_cases h
      · exact ⟨rfl, rfl, rfl, rfl, rfl, rfl, rfl⟩
      · exact ⟨rfl, rfl, rfl, rfl, rfl, rfl, rfl⟩
  | emit room event =>
      obtain ⟨-, rfl⟩ := Prod.mk.inj (Option.some.inj h)
      exact ⟨rfl, rfl, rfl, rfl, rfl, rfl, rfl⟩
  | emitTo client event =>
      obtain ⟨-, rfl⟩ := Prod.mk.inj (Option.some.inj h)
      exact ⟨rfl, rfl, rfl, rfl, rfl, rfl, rfl⟩
  | sendControlToAgent userId action =>
      obtain rfl | ⟨socketId, rfl⟩ := control_cases h
      · exact .refl _
      · exact ⟨rfl, rfl, rfl, rfl, rfl, rfl, rfl⟩
  | _ => exact nomatch hop

section Join
variable (g : Gateway) (client : SocketId) (room : Room)

@[simp] theorem join_users : (g.join client room).users = g.users := by unfold Gateway.join; split_ifs <;> rfl
@[simp] theorem join_connected : (g.join client room).connected = g.connected := by unfold Gateway.join; split_ifs <;> rfl
@[simp] theorem join_connections : (g.join client room).connections = g.connections := by
  unfold Gateway.join; split_ifs <;> rfl
@[simp] theorem join_agentSockets : (g.join client room).agentSockets = g.agentSockets := by
  unfold Gateway.join; split_ifs <;> rfl
@[simp] theorem join_opened : (g.join client room).opened = g.opened := by unfold Gateway.join; split_ifs <;> rfl
@[simp] theorem join_authenticated : (g.join client room).authenticated = g.authenticated := by
  unfold Gateway.join; split_ifs <;> rfl
@[simp] theorem join_emitted : (g.join client room).emitted = g.emitted := by unfold Gateway.join; split_ifs <;> rfl

variable {g client room}

theorem mem_join {x : Room × SocketId} (h : x ∈ (g.join client room).rooms) : x ∈ g.rooms ∨ x = (room, client) := by
  unfold Gateway.join at h
  split_ifs at h
  · exact (List.mem_insert_iff.mp h).symm
  · exact Or.inl h

end Join

/-- What a step can do to the sockets, the rooms and the maps. -/
inductive Changes (g : Gateway) : Op → Gateway → Prop where
  | same {op : Op} {g' : Gateway} (h : SameMaps g g') : Changes g op g'
  | opened {client : SocketId} {token : Option String} (hnew : client ∉ g.opened) :
    Changes g (.connect client token) (g.open_ client)
  | manager {client : SocketId} {token : Option String} {payload : JwtPayload} (hnew : client ∉ g.opened) :
    Changes g (.connect client token) ((g.open_ client).acceptManager client payload)
  | agent {client : SocketId} {agentUser : User} : Changes g (.register client agentUser) (g.acceptAgent client agentUser)
  | stored {client : SocketId} {conn : ConnectionMeta} :
    Changes g (.setConnection client conn) { g with connections := update g.connections client (some conn) }
  | dropped {client : SocketId} (hconnected : client ∈ g.connected) (hnone : g.connections client = none) :
    Changes g (.disconnect client) (g.drop client)
  | closed {client : SocketId} {conn : ConnectionMeta} (hconnected : client ∈ g.connected)
      (hconn : g.connections client = some conn) : Changes g (.disconnect client) ((g.drop client).close client conn)
  | joined {client : SocketId} {userId : String} {conn : ConnectionMeta} (hconn : g.connections client = some conn)
      (hagent : conn.isAgent = false) : Changes g (.subscribe client userId) (g.join client (.watchers userId))
  | left {client : SocketId} {userId : String} :
    Changes g (.unsubscribe client userId) (g.leave client (.watchers userId))

/-- **No step does anything else.** -/
theorem changes {ch : Choice} {op : Op} {g g' : Gateway} {r : op.Reply} (h : execNow ch op g = some (r, g')) :
    Changes g op g' := by
  cases hop : op.touchesMaps with
  | false => exact .same (sameMaps hop h)
  | true =>
      cases op with
      | connect client token =>
          obtain ⟨hnew, ⟨payload, -, rfl⟩ | ⟨-, rfl⟩⟩ := connect_cases h
          · exact .manager hnew
          · exact .opened hnew
      | register client agentUser =>
          obtain ⟨-, rfl⟩ := Prod.mk.inj (Option.some.inj h)
          exact .agent
      | setConnection client conn =>
          obtain ⟨-, rfl⟩ := Prod.mk.inj (Option.some.inj h)
          exact .stored
      | disconnect client =>
          obtain rfl | ⟨hconnected, ⟨hnone, rfl⟩ | ⟨conn, hconn, rfl⟩⟩ := disconnect_cases h
          · exact .same (.refl _)
          · exact .dropped hconnected hnone
          · exact .closed hconnected hconn
      | subscribe client userId =>
          obtain rfl | ⟨conn, hconn, hagent, rfl⟩ := subscribe_cases h
          · exact .same (.refl _)
          · exact .joined hconn hagent
      | unsubscribe client userId =>
          obtain ⟨-, rfl⟩ := Prod.mk.inj (Option.some.inj h)
          exact .left
      | _ => exact nomatch hop

theorem admits_cases {call : Call} {g g' : Gateway} (h : call.admits g = some g') : ∃ users : UserTable,
    g' = { g with users } ∧
      (∀ u ∈ g.users.rows, ∃ v ∈ users.rows, v.id = u.id ∧ v.organizationId = u.organizationId) ∧
      ∀ v ∈ users.rows, (∃ u ∈ g.users.rows, u.id = v.id ∧ u.organizationId = v.organizationId) ∨
        ∀ x ∈ g.rooms, x.1 ≠ .watchers v.id := by
  have hsame : ∀ u ∈ g.users.rows, ∃ v ∈ g.users.rows, v.id = u.id ∧ v.organizationId = u.organizationId :=
    fun u hu => ⟨u, hu, rfl, rfl⟩
  cases call with
  | addUser user =>
      unfold Call.admits at h
      dsimp only at h
      split_ifs at h with hnew
      obtain rfl := Option.some.inj h
      refine ⟨_, rfl, fun u hu => ⟨u, List.mem_cons_of_mem _ hu, rfl, rfl⟩, fun v hv => ?_⟩
      rcases List.mem_cons.mp hv with rfl | hv
      · exact Or.inr hnew.2
      · exact Or.inl (hsame v hv)
  | setAgentToken userId token =>
      obtain rfl := Option.some.inj h
      have hkept : ∀ u, (User.withToken userId token u).id = u.id ∧
          (User.withToken userId token u).organizationId = u.organizationId := by
        intro u
        unfold User.withToken
        split_ifs <;> exact ⟨rfl, rfl⟩
      refine ⟨_, rfl, fun u hu => ⟨_, List.mem_map_of_mem hu, hkept u⟩, fun v hv => ?_⟩
      obtain ⟨u, hu, rfl⟩ := List.mem_map.mp hv
      exact Or.inl ⟨u, hu, (hkept u).1.symm, (hkept u).2.symm⟩
  | _ =>
      obtain rfl := Option.some.inj h
      exact ⟨_, rfl, hsame, fun v hv => Or.inl (hsame v hv)⟩

/-! ## Accepted once -/

/-- The socket of a handler that has not accepted it yet. -/
def Stage.pending : Stage → Option SocketId
  | .connecting client => some client
  | .found client _ => some client
  | _ => none

/-- The handler has no socket. -/
def Stage.Quiet : Stage → Prop
  | .connecting _ => False
  | .found _ _ => False
  | .registered _ _ => False
  | _ => True

/-- What a handler knows about sockets in `stage`, it knew in `m`. -/
structure Stage.Within (stage m : Stage) : Prop where
  pending : ∀ client, stage.pending = some client → m.pending = some client
  registered : ∀ client agentUser, stage = .registered client agentUser → m = .registered client agentUser

theorem Stage.Quiet.within {stage m : Stage} (h : stage.Quiet) : stage.Within m := by
  refine ⟨fun client hclient => ?_, fun client agentUser hstage => ?_⟩
  · cases stage with
    | connecting _ => exact h.elim
    | found _ _ => exact h.elim
    | _ => exact nomatch hclient
  · subst hstage
    exact h.elim

/-- A step that leaves the maps tells nothing about sockets. -/
theorem within_of_post {m stage : Stage} {op : Op} {r : op.Reply} (hop : op.touchesMaps = false)
    (hpost : gatewayProtocol.post m op r stage) : stage.Within m := by
  cases moves_of_post hpost with
  | found hm =>
      subst hm
      exact ⟨fun _ hc => hc, fun _ _ h => nomatch h⟩
  | created => exact ⟨fun _ h => h, fun _ _ h => h⟩
  | emitted => exact ⟨fun _ h => h, fun _ _ h => h⟩
  | connecting => exact nomatch hop
  | registered => exact nomatch hop
  | idle => exact Stage.Quiet.within trivial
  | received => exact Stage.Quiet.within trivial
  | read hm => exact Stage.Quiet.within trivial
  | written hm => exact Stage.Quiet.within trivial
  | relayed => exact Stage.Quiet.within trivial

/-- Every socket in a map was accepted as what the map says. -/
structure Accepted {ι : Type} (g : Gateway) (m : ι → Stage) : Prop where
  connected : ∀ s ∈ g.connected, s ∈ g.opened
  opened : ∀ s a, g.authenticated s = some a → s ∈ g.opened
  known : ∀ s conn, g.connections s = some conn →
    ∃ a, g.authenticated s = some a ∧ a.userId = conn.userId ∧ a.orgId = conn.orgId ∧ a.isAgent = conn.isAgent
  pending : ∀ i client, (m i).pending = some client → client ∈ g.opened ∧ g.authenticated client = none
  alone : ∀ i j client, (m i).pending = some client → (m j).pending = some client → i = j
  registered : ∀ i client agentUser, m i = .registered client agentUser →
    g.authenticated client = some ⟨agentUser.id, agentUser.organizationId, true, none⟩

/-- Whatever a socket was accepted as, it still is. -/
def Gateway.Remembers (g g' : Gateway) : Prop := ∀ s a, g.authenticated s = some a → g'.authenticated s = some a

theorem Accepted.now_users {ι : Type} {g : Gateway} {m : ι → Stage} (h : Accepted g m) (now : Int) (users : UserTable) :
    Accepted { g with now, users } m :=
  ⟨h.connected, h.opened, h.known, h.pending, h.alone, h.registered⟩

theorem accepted_start {ι : Type} (users : UserTable) : Accepted (Gateway.start users) fun _ : ι => .idle where
  connected := fun _ h => absurd h List.not_mem_nil
  opened := fun _ _ h => nomatch h
  known := fun _ _ h => nomatch h
  pending := fun _ _ h => nomatch h
  alone := fun _ _ _ h => nomatch h
  registered := fun _ _ _ h => nomatch h

section
variable {ι : Type} [DecidableEq ι] {g g' : Gateway} {m : ι → Stage} {i : ι} {stage : Stage}

/-- A change of the maps that forgets nothing, and a stage that fits it. -/
theorem Accepted.update_stage (h : Accepted g m) (hopened : ∀ s ∈ g.opened, s ∈ g'.opened)
    (hconnected : ∀ s ∈ g'.connected, s ∈ g'.opened) (hlater : g.Remembers g')
    (hnew : ∀ s a, g'.authenticated s = some a → s ∈ g'.opened)
    (hknown : ∀ s conn, g'.connections s = some conn →
      ∃ a, g'.authenticated s = some a ∧ a.userId = conn.userId ∧ a.orgId = conn.orgId ∧ a.isAgent = conn.isAgent)
    (hpending : ∀ j client, j ≠ i → (m j).pending = some client → g'.authenticated client = none)
    (hstage : ∀ client, stage.pending = some client → client ∈ g'.opened ∧ g'.authenticated client = none ∧
      ∀ j, j ≠ i → (m j).pending ≠ some client)
    (hregistered : ∀ client agentUser, stage = .registered client agentUser →
      g'.authenticated client = some ⟨agentUser.id, agentUser.organizationId, true, none⟩) :
    Accepted g' (update m i stage) where
  connected := hconnected
  opened := hnew
  known := hknown
  pending := by
    rw [Function.forall_update_iff m fun _ stage => ∀ client, stage.pending = some client →
      client ∈ g'.opened ∧ g'.authenticated client = none]
    exact ⟨fun client hclient => ⟨(hstage client hclient).1, (hstage client hclient).2.1⟩, fun j hj client hclient =>
      ⟨hopened client (h.pending j client hclient).1, hpending j client hj hclient⟩⟩
  alone := exclusive_update (fun (stage : Stage) client => stage.pending = some client) h.alone fun client hclient =>
    (hstage client hclient).2.2
  registered := by
    rw [Function.forall_update_iff m fun _ stage => ∀ client agentUser, stage = .registered client agentUser →
      g'.authenticated client = some ⟨agentUser.id, agentUser.organizationId, true, none⟩]
    exact ⟨hregistered, fun j _ client agentUser hj => hlater client _ (h.registered j client agentUser hj)⟩

theorem Accepted.same (h : Accepted g m) (hsame : SameMaps g g')
    (hwithin : stage.Within (m i)) : Accepted g' (update m i stage) ∧ g.Remembers g' := by
  obtain ⟨-, hconnected, -, hconnections, -, hopened, hauthenticated⟩ := hsame
  refine ⟨h.update_stage (fun s hs => hopened ▸ hs) ?_ (fun s a ha => hauthenticated ▸ ha) ?_ ?_ ?_ ?_ ?_,
    fun s a ha => hauthenticated ▸ ha⟩
  · rw [hconnected, hopened]
    exact h.connected
  · rw [hauthenticated, hopened]
    exact h.opened
  · rw [hauthenticated, hconnections]
    exact h.known
  · intro j client _ hj
    rw [hauthenticated]
    exact (h.pending j client hj).2
  · intro client hclient
    rw [hauthenticated, hopened]
    have hi := hwithin.pending client hclient
    exact ⟨(h.pending i client hi).1, (h.pending i client hi).2, fun j hj hother => hj (h.alone j i client hother hi)⟩
  · intro client agentUser hstage
    rw [hauthenticated]
    exact h.registered i client agentUser (hwithin.registered client agentUser hstage)

theorem Accepted.call (h : Accepted g m) (i : ι) : Accepted g (update m i .idle) :=
  have hquiet : Stage.idle.Quiet := trivial
  (h.same (.refl g) hquiet.within).1

theorem Accepted.accept (h : Accepted g m) (client : SocketId) (conn : ConnectionMeta) (hopened : client ∈ g.opened)
    (hnone : g.authenticated client = none) (hothers : ∀ j, j ≠ i → (m j).pending ≠ some client)
    (hconn : g'.connections = update g.connections client (some conn))
    (hauth : g'.authenticated = update g.authenticated client (some conn))
    (hconnected : g'.connected = g.connected) (hsockets : g'.opened = g.opened) (hpending : stage.pending = none)
    (hregistered : ∀ c agentUser, stage = .registered c agentUser →
      c = client ∧ conn = ⟨agentUser.id, agentUser.organizationId, true, none⟩) :
    Accepted g' (update m i stage) ∧ g.Remembers g' := by
  have hlater : g.Remembers g' := by
    intro s a ha
    rw [hauth, Function.update_of_ne fun heq => by rw [heq, hnone] at ha; exact nomatch ha]
    exact ha
  refine ⟨h.update_stage (fun s hs => hsockets ▸ hs) ?_ hlater ?_ ?_ ?_ ?_ ?_, hlater⟩
  · rw [hconnected, hsockets]
    exact h.connected
  · intro s a ha
    rw [hsockets]
    rw [hauth] at ha
    by_cases hs : s = client
    · exact hs ▸ hopened
    · rw [Function.update_of_ne hs] at ha
      exact h.opened s a ha
  · intro s c hc
    rw [hconn] at hc
    rw [hauth]
    by_cases hs : s = client
    · rw [hs, Function.update_self] at hc ⊢
      obtain rfl := Option.some.inj hc
      exact ⟨conn, rfl, rfl, rfl, rfl⟩
    · rw [Function.update_of_ne hs] at hc ⊢
      exact h.known s c hc
  · intro j c hj hc
    rw [hauth, Function.update_of_ne fun heq : c = client => hothers j hj (heq ▸ hc)]
    exact (h.pending j c hc).2
  · intro c hc
    exact nomatch hpending.symm.trans hc
  · intro c agentUser hstage
    obtain ⟨rfl, rfl⟩ := hregistered c agentUser hstage
    rw [hauth, Function.update_self]

omit [DecidableEq ι] in
theorem Accepted.open_ (h : Accepted g m) {client : SocketId} (hnew : client ∉ g.opened) :
    Accepted (g.open_ client) m ∧ g.authenticated client = none ∧ ∀ j, (m j).pending ≠ some client := by
  refine ⟨⟨fun s hs => ?_, fun s a ha => List.mem_cons_of_mem _ (h.opened s a ha), h.known, fun j c hc => ?_, h.alone,
    h.registered⟩, ?_, fun j hj => hnew (h.pending j client hj).1⟩
  · exact (List.mem_cons.mp hs).elim (fun heq => heq ▸ List.mem_cons_self) fun hs => List.mem_cons_of_mem _ (h.connected s hs)
  · exact ⟨List.mem_cons_of_mem _ (h.pending j c hc).1, (h.pending j c hc).2⟩
  · cases hauth : g.authenticated client with
    | none => rfl
    | some a => exact absurd (h.opened client a hauth) hnew

theorem Accepted.rest (h : Accepted g m) (hauth : g'.authenticated = g.authenticated) (hopened : g'.opened = g.opened)
    (hconnected : ∀ s ∈ g'.connected, s ∈ g.opened)
    (hconn : ∀ s conn, g'.connections s = some conn →
      ∃ a, g.authenticated s = some a ∧ a.userId = conn.userId ∧ a.orgId = conn.orgId ∧ a.isAgent = conn.isAgent)
    (hquiet : stage.Quiet) : Accepted g' (update m i stage) ∧ g.Remembers g' := by
  have hwithin : stage.Within (.idle) := hquiet.within
  have hlater : g.Remembers g' := fun s a ha => hauth ▸ ha
  refine ⟨h.update_stage (fun s hs => hopened ▸ hs) ?_ hlater ?_ ?_ ?_ ?_ ?_, hlater⟩
  · rw [hopened]
    exact hconnected
  · rw [hauth, hopened]
    exact h.opened
  · rw [hauth]
    exact hconn
  · intro j client _ hj
    rw [hauth]
    exact (h.pending j client hj).2
  · exact fun client hclient => nomatch hwithin.pending client hclient
  · exact fun client agentUser hstage => nomatch hwithin.registered client agentUser hstage

theorem Accepted.connect {ch : Choice} {client : SocketId} {token : Option String} {r : (Op.connect client token).Reply}
    (h : Accepted g m) (hr : execNow ch (.connect client token) g = some (r, g'))
    (hpost : gatewayProtocol.post (m i) (.connect client token) r stage) :
    Accepted g' (update m i stage) ∧ g.Remembers g' := by
  obtain ⟨hnew, hcases⟩ := connect_cases hr
  obtain ⟨hopen, hnone, hothers⟩ := h.open_ hnew
  rcases hcases with ⟨payload, rfl, rfl⟩ | ⟨rfl, rfl⟩
  · have hstage : stage = .idle := hpost
    refine hopen.accept client ⟨payload.sub, payload.orgId, false, none⟩ List.mem_cons_self hnone
      (fun j _ => hothers j) ?_ ?_ ?_ ?_ ?_ ?_
    · simp [Gateway.acceptManager, Gateway.accept]
    · simp [Gateway.acceptManager, Gateway.accept]
    · simp [Gateway.acceptManager, Gateway.accept]
    · simp [Gateway.acceptManager, Gateway.accept]
    · rw [hstage]
      rfl
    · exact fun c u hc => nomatch hstage.symm.trans hc
  · have hstage : stage = .connecting client := hpost
    refine ⟨hopen.update_stage (fun _ hs => hs) hopen.connected (fun _ _ ha => ha) hopen.opened hopen.known
      (fun j c _ hc => (hopen.pending j c hc).2) (fun c hc => ?_) (fun c u hc => nomatch hstage.symm.trans hc),
      fun _ _ ha => ha⟩
    rw [hstage] at hc
    obtain rfl := Option.some.inj hc
    exact ⟨List.mem_cons_self, hnone, fun j _ => hothers j⟩

theorem Accepted.register {ch : Choice} {client : SocketId} {agentUser : User}
    {r : (Op.register client agentUser).Reply} (h : Accepted g m) (hm : m i = .found client agentUser)
    (hr : execNow ch (.register client agentUser) g = some (r, g')) (hstage : stage = .registered client agentUser) :
    Accepted g' (update m i stage) ∧ g.Remembers g' := by
  have hi : (m i).pending = some client := by rw [hm]; rfl
  obtain ⟨hopened, hnone⟩ := h.pending i client hi
  obtain ⟨-, rfl⟩ := Prod.mk.inj (Option.some.inj hr)
  refine h.accept client ⟨agentUser.id, agentUser.organizationId, true, none⟩ hopened hnone
    (fun j hj hother => hj (h.alone j i client hother hi)) ?_ ?_ ?_ ?_ ?_ ?_
  · simp [Gateway.acceptAgent, Gateway.accept]
  · simp [Gateway.acceptAgent, Gateway.accept]
  · simp [Gateway.acceptAgent, Gateway.accept]
  · simp [Gateway.acceptAgent, Gateway.accept]
  · rw [hstage]
    rfl
  · intro c u hc
    obtain ⟨rfl, rfl⟩ := Stage.registered.inj (hstage.symm.trans hc)
    exact ⟨rfl, rfl⟩

theorem Accepted.setConnection {ch : Choice} {client : SocketId} {conn : ConnectionMeta}
    {r : (Op.setConnection client conn).Reply} (h : Accepted g m)
    (hpre : gatewayProtocol.pre (m i) (.setConnection client conn))
    (hr : execNow ch (.setConnection client conn) g = some (r, g')) (hstage : stage.Quiet) :
    Accepted g' (update m i stage) ∧ g.Remembers g' := by
  obtain ⟨agentUser, timeout, hm, rfl⟩ := hpre
  obtain ⟨-, rfl⟩ := Prod.mk.inj (Option.some.inj hr)
  refine h.rest rfl rfl h.connected (fun s conn hconn => ?_) hstage
  change update g.connections client _ s = some conn at hconn
  by_cases hs : s = client
  · rw [hs, Function.update_self] at hconn
    obtain rfl := Option.some.inj hconn
    exact ⟨⟨agentUser.id, agentUser.organizationId, true, none⟩, hs ▸ h.registered i client agentUser hm, rfl, rfl, rfl⟩
  · rw [Function.update_of_ne hs] at hconn
    exact h.known s conn hconn

theorem Accepted.disconnect {ch : Choice} {client : SocketId} {r : (Op.disconnect client).Reply} (h : Accepted g m)
    (hr : execNow ch (.disconnect client) g = some (r, g')) (hstage : stage.Quiet) :
    Accepted g' (update m i stage) ∧ g.Remembers g' := by
  cases changes hr with
  | same hsame => exact h.same hsame hstage.within
  | dropped _ _ => exact h.rest rfl rfl (fun s hs => h.connected s (List.mem_of_mem_filter hs)) h.known hstage
  | @closed _ conn _ _ =>
      refine h.rest rfl rfl (fun s hs => h.connected s (List.mem_of_mem_filter hs)) (fun s c hc => ?_) hstage
      change update g.connections client none s = some c at hc
      by_cases hs : s = client
      · rw [hs, Function.update_self] at hc
        exact nomatch hc
      · rw [Function.update_of_ne hs] at hc
        exact h.known s c hc

/-- **Every step keeps it**, and what each socket was accepted as. -/
theorem Accepted.step (h : Accepted g m) {ch : Choice} {op : Op} {r : op.Reply} (hpre : gatewayProtocol.pre (m i) op)
    (hr : execNow ch op g = some (r, g')) (hpost : gatewayProtocol.post (m i) op r stage) :
    Accepted g' (update m i stage) ∧ g.Remembers g' := by
  have idle : stage = .idle → stage.Quiet := fun hidle => hidle ▸ trivial
  cases hop : op.touchesMaps with
  | false => exact h.same (sameMaps hop hr) (within_of_post hop hpost)
  | true =>
      cases op with
      | connect client token => exact h.connect hr hpost
      | register client agentUser => exact h.register hpre hr hpost
      | setConnection client conn => exact h.setConnection hpre hr (idle hpost)
      | disconnect client =>
          have hstage : stage = .idle := by cases r <;> exact hpost
          exact h.disconnect hr (idle hstage)
      | subscribe client userId =>
          cases changes hr with
          | same hsame => exact h.same hsame (idle hpost).within
          | joined _ _ =>
              exact h.rest (by simp) (by simp) (by simpa using h.connected) (by simpa using h.known) (idle hpost)
      | unsubscribe client userId =>
          obtain ⟨-, rfl⟩ := Prod.mk.inj (Option.some.inj hr)
          exact h.rest rfl rfl h.connected h.known (idle hpost)
      | _ => exact nomatch hop

end

end TimeChamp.Streaming
