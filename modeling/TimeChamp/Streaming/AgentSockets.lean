import TimeChamp.Streaming.Accepted

/-!
# Which socket an agent has

The map of agents is by user, the map of connections by socket. A handler that stores a connection does not look whether
its socket is still there, and a connection that is closed takes its user out of the map, whichever socket the map has.

* `Consistent` : the two maps say which sockets are connected, and which users have an agent connected;
* `InOrder` : a socket is connected when its handler stores it, and closes as the only one of its user;
* `consistent_of_inOrder` : **if everything is in order, the maps are consistent** at every moment.
-/

namespace TimeChamp.Streaming
open Lib Api
open Function (update)

/-- A user is in the map of agents just when one of its sockets is connected and was accepted as an agent, and under such
a socket; every connection is of a socket that is connected. -/
structure Consistent (g : Gateway) : Prop where
  listed : ∀ userId, (∃ s, g.agentSockets userId = some s) ↔
    ∃ s ∈ g.connected, ∃ a, g.authenticated s = some a ∧ a.isAgent = true ∧ a.userId = userId
  connected : ∀ userId s, g.agentSockets userId = some s →
    s ∈ g.connected ∧ ∃ a, g.authenticated s = some a ∧ a.isAgent = true ∧ a.userId = userId
  live : ∀ s conn, g.connections s = some conn → s ∈ g.connected

/-- Another connected socket is in the map as an agent of the user. -/
def Gateway.otherAgent (g : Gateway) (client : SocketId) (userId : String) : Bool :=
  g.connected.any fun s => s ≠ client && (g.connections s).any fun conn => conn.isAgent && conn.userId == userId

/-- A socket is still connected when its handler puts it into the maps, and no other agent of its user is connected when
it disconnects. -/
def InOrder {ι : Type} (c : Running ι) (a : Act ι Choice Call) : Prop :=
  (match c.performs a with
    | some (_, .register client _) => c.world.connected.contains client
    | some (_, .setConnection client _) => c.world.connected.contains client
    | some (_, .disconnect client) =>
      (c.world.connections client).all fun conn => !conn.isAgent || !c.world.otherAgent client conn.userId
    | _ => true) = true

instance {ι : Type} (c : Running ι) (a : Act ι Choice Call) : Decidable (InOrder c a) :=
  inferInstanceAs (Decidable (_ = true))

/-! ## The invariant -/

/-- The maps agree: a connection is of a connected socket, every connected socket that was accepted has one, the map of
agents names sockets with one, and has the user of each agent's. -/
structure MapFacts (g : Gateway) : Prop where
  live : ∀ s conn, g.connections s = some conn → s ∈ g.connected
  kept : ∀ s ∈ g.connected, ∀ a, g.authenticated s = some a → ∃ conn, g.connections s = some conn
  mapped : ∀ userId s, g.agentSockets userId = some s →
    ∃ conn, g.connections s = some conn ∧ conn.isAgent = true ∧ conn.userId = userId
  listed : ∀ s conn, g.connections s = some conn → conn.isAgent = true → ∃ s', g.agentSockets conn.userId = some s'

theorem consistent_of_maps {ι : Type} {g : Gateway} {m : ι → Stage} (h : MapFacts g) (haccepted : Accepted g m) :
    Consistent g := by
  have hconnected : ∀ userId s, g.agentSockets userId = some s →
      s ∈ g.connected ∧ ∃ a, g.authenticated s = some a ∧ a.isAgent = true ∧ a.userId = userId := by
    intro userId s hs
    obtain ⟨conn, hconn, hagent, rfl⟩ := h.mapped userId s hs
    obtain ⟨a, ha, huser, -, hisAgent⟩ := haccepted.known s conn hconn
    exact ⟨h.live s conn hconn, a, ha, hisAgent.trans hagent, huser⟩
  refine ⟨fun userId => ⟨fun ⟨s, hs⟩ => ⟨s, hconnected userId s hs⟩, ?_⟩, hconnected, h.live⟩
  rintro ⟨s, hs, a, ha, hagent, rfl⟩
  obtain ⟨conn, hconn⟩ := h.kept s hs a ha
  obtain ⟨a', ha', huser, -, hisAgent⟩ := haccepted.known s conn hconn
  obtain rfl := Option.some.inj (ha.symm.trans ha')
  rw [huser]
  exact h.listed s conn hconn (hisAgent.symm.trans hagent)

section
variable {ι : Type} {g g' : Gateway} {m : ι → Stage}

theorem Accepted.unknown (h : Accepted g m) {s : SocketId} (hs : g.authenticated s = none) : g.connections s = none := by
  cases hconn : g.connections s with
  | none => rfl
  | some conn =>
      obtain ⟨a, ha, -⟩ := h.known s conn hconn
      exact nomatch hs.symm.trans ha

theorem MapFacts.same (h : MapFacts g) (hconnected : g'.connected = g.connected)
    (hconnections : g'.connections = g.connections) (hagents : g'.agentSockets = g.agentSockets)
    (hauth : g'.authenticated = g.authenticated) : MapFacts g' := by
  constructor
  · rw [hconnections, hconnected]
    exact h.live
  · rw [hconnections, hconnected, hauth]
    exact h.kept
  · rw [hagents, hconnections]
    exact h.mapped
  · rw [hagents, hconnections]
    exact h.listed

theorem MapFacts.accept (h : MapFacts g) (client : SocketId) (conn : ConnectionMeta) (hclient : client ∈ g.connected)
    (hnone : g.connections client = none) (hconnected : g'.connected = g.connected)
    (hconnections : g'.connections = update g.connections client (some conn))
    (hauth : g'.authenticated = update g.authenticated client (some conn))
    (hagents : g'.agentSockets =
      if conn.isAgent then update g.agentSockets conn.userId (some client) else g.agentSockets) : MapFacts g' := by
  have other : ∀ {s c}, g.connections s = some c → s ≠ client := by
    rintro s c hs rfl
    exact nomatch hnone.symm.trans hs
  constructor
  · intro s c hs
    rw [hconnections] at hs
    rw [hconnected]
    by_cases heq : s = client
    · exact heq ▸ hclient
    · rw [Function.update_of_ne heq] at hs
      exact h.live s c hs
  · intro s hs a ha
    rw [hconnected] at hs
    rw [hauth] at ha
    rw [hconnections]
    by_cases heq : s = client
    · exact ⟨conn, by rw [heq, Function.update_self]⟩
    · rw [Function.update_of_ne heq] at ha ⊢
      exact h.kept s hs a ha
  · intro userId s hs
    rw [hagents] at hs
    rw [hconnections]
    have hold : g.agentSockets userId = some s →
        ∃ c, update g.connections client (some conn) s = some c ∧ c.isAgent = true ∧ c.userId = userId := by
      intro hs
      obtain ⟨c, hc, hagent, huser⟩ := h.mapped userId s hs
      exact ⟨c, by rwa [Function.update_of_ne (other hc)], hagent, huser⟩
    split_ifs at hs with hagent
    · by_cases huser : userId = conn.userId
      · rw [huser, Function.update_self] at hs
        obtain rfl := Option.some.inj hs
        exact ⟨conn, Function.update_self _ _ _, hagent, huser.symm⟩
      · rw [Function.update_of_ne huser] at hs
        exact hold hs
    · exact hold hs
  · intro s c hs hagent
    rw [hconnections] at hs
    rw [hagents]
    have hold : ∀ {userId}, (∃ s', g.agentSockets userId = some s') → ∃ s',
        (if conn.isAgent = true then update g.agentSockets conn.userId (some client) else g.agentSockets) userId = some s' := by
      intro userId hs
      split_ifs
      · by_cases huser : userId = conn.userId
        · exact ⟨client, by rw [huser, Function.update_self]⟩
        · rwa [Function.update_of_ne huser]
      · exact hs
    by_cases heq : s = client
    · rw [heq, Function.update_self] at hs
      obtain rfl := Option.some.inj hs
      rw [if_pos hagent]
      exact ⟨client, Function.update_self _ _ _⟩
    · rw [Function.update_of_ne heq] at hs
      exact hold (h.listed s c hs hagent)

theorem MapFacts.store (h : MapFacts g) {client : SocketId} {old conn : ConnectionMeta}
    (hold : g.connections client = some old) (huser : conn.userId = old.userId) (hagent : conn.isAgent = old.isAgent) :
    MapFacts { g with connections := update g.connections client (some conn) } := by
  constructor
  · intro s c hs
    by_cases heq : s = client
    · exact h.live s old (heq ▸ hold)
    · exact h.live s c ((Function.update_of_ne heq _ _).symm.trans hs)
  · intro s hs a ha
    by_cases heq : s = client
    · exact ⟨conn, heq ▸ Function.update_self _ _ _⟩
    · obtain ⟨c, hc⟩ := h.kept s hs a ha
      exact ⟨c, (Function.update_of_ne heq _ _).trans hc⟩
  · intro userId s hs
    obtain ⟨c, hc, hisAgent, rfl⟩ := h.mapped userId s hs
    by_cases heq : s = client
    · rw [heq] at hc
      obtain rfl := Option.some.inj (hold.symm.trans hc)
      exact ⟨conn, heq ▸ Function.update_self _ _ _, hagent.trans hisAgent, huser⟩
    · exact ⟨c, (Function.update_of_ne heq _ _).trans hc, hisAgent, rfl⟩
  · intro s c hs hisAgent
    by_cases heq : s = client
    · rw [heq] at hs
      change update g.connections client (some conn) client = some c at hs
      rw [Function.update_self] at hs
      obtain rfl := Option.some.inj hs
      rw [huser]
      exact h.listed client old hold (hagent.symm.trans hisAgent)
    · exact h.listed s c ((Function.update_of_ne heq _ _).symm.trans hs) hisAgent

theorem MapFacts.drop (h : MapFacts g) {client : SocketId} (hnone : g.connections client = none) :
    MapFacts (g.drop client) := by
  refine ⟨fun s c hs => List.mem_filter.mpr ⟨h.live s c hs, ?_⟩, fun s hs => h.kept s (List.mem_of_mem_filter hs),
    h.mapped, h.listed⟩
  rw [decide_eq_true_eq]
  rintro rfl
  exact nomatch hnone.symm.trans hs

theorem MapFacts.close (h : MapFacts g) {client : SocketId} {conn : ConnectionMeta}
    (hconn : g.connections client = some conn) (halone : conn.isAgent = true → g.otherAgent client conn.userId = false) :
    MapFacts ((g.drop client).close client conn) := by
  have hconnections : ∀ {s c}, ((g.drop client).close client conn).connections s = some c →
      s ≠ client ∧ g.connections s = some c := by
    intro s c hs
    change update g.connections client none s = some c at hs
    by_cases heq : s = client
    · rw [heq, Function.update_self] at hs
      exact nomatch hs
    · rw [Function.update_of_ne heq] at hs
      exact ⟨heq, hs⟩
  -- a connection that stays is of another user, or of no agent
  have hother : ∀ {s c}, s ≠ client → g.connections s = some c → c.isAgent = true → conn.isAgent = true →
      c.userId ≠ conn.userId := by
    intro s c hs hc hagent hisAgent huser
    have hnone := halone hisAgent
    rw [Gateway.otherAgent, List.any_eq_false] at hnone
    refine absurd ?_ (hnone s (h.live s c hc))
    simp [hs, hc, hagent, huser]
  constructor
  · intro s c hs
    obtain ⟨hne, hc⟩ := hconnections hs
    exact List.mem_filter.mpr ⟨h.live s c hc, decide_eq_true hne⟩
  · intro s hs a ha
    obtain ⟨hmem, hne⟩ := List.mem_filter.mp hs
    obtain ⟨c, hc⟩ := h.kept s hmem a ha
    exact ⟨c, (Function.update_of_ne (of_decide_eq_true hne) _ _).trans hc⟩
  · intro userId s hs
    change (if conn.isAgent = true then update g.agentSockets conn.userId none else g.agentSockets) userId = some s at hs
    have hold : g.agentSockets userId = some s ∧ (conn.isAgent = true → userId ≠ conn.userId) := by
      split_ifs at hs with hagent
      · by_cases huser : userId = conn.userId
        · rw [huser, Function.update_self] at hs
          exact nomatch hs
        · rw [Function.update_of_ne huser] at hs
          exact ⟨hs, fun _ => huser⟩
      · exact ⟨hs, fun htrue => absurd htrue hagent⟩
    obtain ⟨c, hc, hagent, rfl⟩ := h.mapped userId s hold.1
    have hne : s ≠ client := by
      rintro rfl
      obtain rfl := Option.some.inj (hconn.symm.trans hc)
      exact hold.2 hagent rfl
    exact ⟨c, (Function.update_of_ne hne _ _).trans hc, hagent, rfl⟩
  · intro s c hs hagent
    obtain ⟨hne, hc⟩ := hconnections hs
    obtain ⟨s', hs'⟩ := h.listed s c hc hagent
    refine ⟨s', ?_⟩
    show (if conn.isAgent = true then update g.agentSockets conn.userId none else g.agentSockets) c.userId = some s'
    split_ifs with hisAgent
    · rw [Function.update_of_ne (hother hne hc hagent hisAgent)]
      exact hs'
    · exact hs'

theorem MapFacts.open_ (h : MapFacts g) {client : SocketId} (hnone : g.authenticated client = none) :
    MapFacts (g.open_ client) := by
  refine ⟨fun s c hs => List.mem_cons_of_mem _ (h.live s c hs), fun s hs a ha => ?_, h.mapped, h.listed⟩
  rcases List.mem_cons.mp hs with rfl | hs
  · exact nomatch hnone.symm.trans ha
  · exact h.kept s hs a ha

/-- **One step.** -/
theorem MapFacts.step {i : ι} {ch : Choice} {op : Op} {r : op.Reply} (h : MapFacts g) (haccepted : Accepted g m)
    (hpre : gatewayProtocol.pre (m i) op) (hr : execNow ch op g = some (r, g'))
    (hregister : ∀ client agentUser, op = .register client agentUser → client ∈ g.connected)
    (hstore : ∀ client conn, op = .setConnection client conn → client ∈ g.connected)
    (hclose : ∀ client, op = .disconnect client → ∀ conn, g.connections client = some conn → conn.isAgent = true →
      g.otherAgent client conn.userId = false) : MapFacts g' := by
  cases changes hr with
  | same hsame => exact h.same hsame.connected hsame.connections hsame.agentSockets hsame.authenticated
  | opened hnew => exact h.open_ (haccepted.open_ hnew).2.1
  | @manager client token payload hnew =>
      obtain ⟨hopen, hnone, -⟩ := haccepted.open_ hnew
      refine (h.open_ hnone).accept client ⟨payload.sub, payload.orgId, false, none⟩ List.mem_cons_self
        (hopen.unknown hnone) ?_ ?_ ?_ ?_
      · simp [Gateway.acceptManager, Gateway.accept]
      · simp [Gateway.acceptManager, Gateway.accept]
      · simp [Gateway.acceptManager, Gateway.accept]
      · simp [Gateway.acceptManager, Gateway.accept]
  | @agent client agentUser =>
      have hm : m i = .found client agentUser := hpre
      have hnone := (haccepted.pending i client (by rw [hm]; rfl)).2
      refine h.accept client ⟨agentUser.id, agentUser.organizationId, true, none⟩ (hregister client agentUser rfl)
        (haccepted.unknown hnone) ?_ ?_ ?_ ?_
      · simp [Gateway.acceptAgent, Gateway.accept]
      · simp [Gateway.acceptAgent, Gateway.accept]
      · simp [Gateway.acceptAgent, Gateway.accept]
      · simp [Gateway.acceptAgent, Gateway.accept]
  | @stored client conn =>
      obtain ⟨agentUser, timeout, hm, rfl⟩ := hpre
      have hauth := haccepted.registered i client agentUser hm
      obtain ⟨old, hold⟩ := h.kept client (hstore client _ rfl) _ hauth
      obtain ⟨a, ha, huser, -, hagent⟩ := haccepted.known client old hold
      obtain rfl := Option.some.inj (hauth.symm.trans ha)
      exact h.store hold huser hagent
  | dropped _ hnone => exact h.drop hnone
  | closed _ hconn => exact h.close hconn (hclose _ rfl _ hconn)
  | joined _ _ => exact h.same (by simp) (by simp) (by simp) (by simp)
  | left => exact h.same rfl rfl rfl rfl

/-- **If everything is in order, the maps are consistent**, while handlers run and when all have finished. -/
theorem consistent_of_inOrder [DecidableEq ι] {maxHours : Nat} {users : UserTable} {c : Running ι}
    (h : Reaches (gateway maxHours) InOrder (Config.start (Gateway.start users)) c) : Consistent c.world := by
  have hinv : ∃ m, (MapFacts c.world ∧ Accepted c.world m) ∧
      ∀ i, Follows gatewayProtocol (fun m _ => m.Settled) (m i) (c.thread i) := by
    refine Reaches.inv (P := gatewayProtocol) (fun g _ m => MapFacts g ∧ Accepted g m) ?_ ?_ ?_ h
    · exact ⟨fun _ => .idle, ⟨⟨fun _ _ hs => (nomatch hs), fun _ hs => absurd hs List.not_mem_nil,
        fun _ _ hs => (nomatch hs), fun _ _ hs => nomatch hs⟩, accepted_start users⟩, fun _ => trivial⟩
    · intro c m i call g hI _ _ hg
      obtain ⟨users', rfl, -⟩ := admits_cases hg
      exact ⟨.idle, ⟨hI.1.same rfl rfl rfl rfl, (hI.2.now_users c.world.now users').call i⟩, follows_body maxHours call⟩
    · intro c m i ch op k r g' hI hG hop hpre hr
      obtain ⟨-, hr⟩ := exec_cases hr
      obtain ⟨stage, hpost⟩ := exists_post hpre r
      have haccepted := hI.2.now_users ch.now c.world.users
      have hfacts : MapFacts { c.world with now := ch.now } := hI.1.same rfl rfl rfl rfl
      rw [InOrder, Config.performs_step hop ch] at hG
      refine ⟨stage, hpost, hfacts.step haccepted hpre hr ?_ ?_ ?_, (haccepted.step hpre hr hpost).1⟩
      · rintro client agentUser rfl
        exact List.contains_iff_mem.mp hG
      · rintro client conn rfl
        exact List.contains_iff_mem.mp hG
      · rintro client rfl conn hconn hagent
        change ((c.world.connections client).all _) = true at hG
        rw [show c.world.connections client = some conn from hconn, Option.all_some, hagent, Bool.not_true,
          Bool.false_or, Bool.not_eq_true'] at hG
        exact hG
  obtain ⟨m, hI, -⟩ := hinv
  exact consistent_of_maps hI.1 hI.2

end

section Runs

/-- A socket disconnects; its handler has three steps. -/
def disconnects (i : Bool) (client : SocketId) : List (Act Bool Choice Call) :=
  .call i (.disconnect client) :: steps i 3

theorem consistent_of_inOrder_named : Consistent ((gateway 8).endOf (Config.start (Gateway.start oneUser))
    (connects false "s1" ++ disconnects true "s1" ++ connects false "s2")).world :=
  consistent_of_inOrder (reaches_endOf (by decide +kernel) (by decide +kernel))

/-- An agent connects again before its old socket disconnects: then it is connected, and in no map of agents. -/
theorem not_consistent_reconnect : ¬ ∀ c : Running Bool,
    Reaches (gateway 8) (fun _ _ => True) (Config.start (Gateway.start oneUser)) c → c.Idle → Consistent c.world := by
  intro h
  let again : List (Act Bool Choice Call) := connects false "s1" ++ connects false "s2" ++ disconnects true "s1"
  have hlisted := (h _ (reaches_endOf (System.allowed_true _ _ again) (by decide +kernel)) (by decide +kernel)).listed "u"
  obtain ⟨s, hs⟩ := hlisted.mpr ⟨"s2", by decide +kernel, ⟨"u", "a", true, none⟩, by decide +kernel, rfl, rfl⟩
  have hnone : ((gateway 8).endOf (Config.start (Gateway.start oneUser)) again).world.agentSockets "u" = none := by
    decide +kernel
  exact nomatch hnone.symm.trans hs

/-- A socket disconnects while its session is created: its connection is stored after that, and stays. -/
theorem not_consistent_whileConnecting : ¬ ∀ c : Running Bool,
    Reaches (gateway 8) (fun _ _ => True) (Config.start (Gateway.start oneUser)) c → c.Idle → Consistent c.world := by
  intro h
  let gone : List (Act Bool Choice Call) := .call false (.connect "s1" (some "t")) :: steps false 3 ++
    disconnects true "s1" ++ steps false 3
  have hlive := (h _ (reaches_endOf (System.allowed_true _ _ gone) (by decide +kernel)) (by decide +kernel)).live "s1"
    ⟨"u", "a", true, some 28800000⟩ (by decide +kernel)
  exact absurd hlive (by decide +kernel)

end Runs

end TimeChamp.Streaming
