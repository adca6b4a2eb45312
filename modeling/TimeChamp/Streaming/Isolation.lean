import TimeChamp.Streaming.Accepted

/-!
# Who receives a frame

A dashboard joins the room it names, and a frame goes to everyone in the room of its sender. The gateway never compares
the two organizations.

* `WatchesOwn` : who subscribes names a user of its own organization, or nobody;
* `watchers_cases`, `emitted_cases`, `authenticated_cases` : what one step can do to a room, a frame and an agent;
* `IsolationFacts` : agents are of their organization, who watches a user is of the user's, and frames go to their own;
* `isolationInv_of_reaches` : **if everyone watches its own, all frames stay in their organization**.
-/

namespace TimeChamp.Streaming
open Lib Api
open Function (update)

/-- Who subscribes names nobody of another organization. -/
def WatchesOwn {ι : Type} (c : Running ι) (a : Act ι Choice Call) : Prop :=
  (match c.performs a with
    | some (_, .subscribe client userId) => (c.world.connections client).all fun conn =>
      conn.isAgent || c.world.users.rows.all fun u => u.id != userId || u.organizationId == conn.orgId
    | _ => true) = true

instance {ι : Type} (c : Running ι) (a : Act ι Choice Call) : Decidable (WatchesOwn c a) :=
  inferInstanceAs (Decidable (_ = true))

/-! ## What one step can do -/

section
variable {ch : Choice} {op : Op} {g g' : Gateway} {r : op.Reply}

theorem users_eq (h : execNow ch op g = some (r, g')) : g'.users = g.users := by
  cases changes h with
  | same hsame => exact hsame.users
  | manager _ => simp [Gateway.acceptManager, Gateway.accept, Gateway.open_]
  | agent => simp [Gateway.acceptAgent, Gateway.accept]
  | joined _ _ => simp
  | _ => rfl

theorem watchers_cases (h : execNow ch op g = some (r, g')) {userId : String} {s : SocketId}
    (hmem : (.watchers userId, s) ∈ g'.rooms) : (.watchers userId, s) ∈ g.rooms ∨
      op = .subscribe s userId ∧ ∃ conn, g.connections s = some conn ∧ conn.isAgent = false := by
  cases changes h with
  | same hsame => exact Or.inl (hsame.rooms ▸ hmem)
  | opened _ => exact Or.inl hmem
  | manager _ => exact Or.inl ((mem_join hmem).resolve_right fun h => nomatch congrArg Prod.fst h)
  | agent =>
      have hagent := (mem_join hmem).resolve_right fun h => nomatch congrArg Prod.fst h
      exact Or.inl ((mem_join hagent).resolve_right fun h => nomatch congrArg Prod.fst h)
  | stored => exact Or.inl hmem
  | dropped _ _ => exact Or.inl (List.mem_of_mem_filter hmem)
  | closed _ _ => exact Or.inl (List.mem_of_mem_filter hmem)
  | @joined client userId' conn hconn hagent =>
      rcases mem_join hmem with hmem | heq
      · exact Or.inl hmem
      · obtain ⟨hroom, rfl⟩ := Prod.mk.inj heq
        obtain rfl := Room.watchers.inj hroom
        exact Or.inr ⟨rfl, conn, hconn, hagent⟩
  | left => exact Or.inl (List.mem_of_mem_filter hmem)

theorem authenticated_cases (h : execNow ch op g = some (r, g')) {s : SocketId} {a : ConnectionMeta}
    (ha : g'.authenticated s = some a) : g.authenticated s = some a ∨ a.isAgent = false ∨
      ∃ agentUser, op = .register s agentUser ∧ a = ⟨agentUser.id, agentUser.organizationId, true, none⟩ := by
  cases changes h with
  | same hsame => exact Or.inl (hsame.authenticated ▸ ha)
  | @manager client token payload hnew =>
      rw [Gateway.acceptManager, join_authenticated] at ha
      change update g.authenticated client _ s = some a at ha
      by_cases hs : s = client
      · rw [hs, Function.update_self] at ha
        exact Or.inr (Or.inl (Option.some.inj ha ▸ rfl))
      · rw [Function.update_of_ne hs] at ha
        exact Or.inl ha
  | @agent client agentUser =>
      rw [Gateway.acceptAgent, join_authenticated, join_authenticated] at ha
      change update g.authenticated client _ s = some a at ha
      by_cases hs : s = client
      · rw [hs, Function.update_self] at ha
        exact Or.inr (Or.inr ⟨agentUser, hs ▸ rfl, (Option.some.inj ha).symm⟩)
      · rw [Function.update_of_ne hs] at ha
        exact Or.inl ha
  | joined _ _ =>
      rw [join_authenticated] at ha
      exact Or.inl ha
  | _ => exact Or.inl ha

theorem emitted_cases {m : Stage} (hpre : gatewayProtocol.pre m op) (h : execNow ch op g = some (r, g')) {e : Emission}
    (he : e ∈ g'.emitted) : e ∈ g.emitted ∨ e.event.isFrame = false ∨ ∃ conn data type, op = .relay conn data ∧
      e = ⟨.frame conn data type, (g.rooms.filter (·.1 = .watchers conn.userId)).map Prod.snd⟩ := by
  have concat : ∀ {l : List Emission} {x : Emission}, e ∈ l ++ [x] → e ∈ l ∨ e = x := fun hmem =>
    (List.mem_append.mp hmem).imp id List.mem_singleton.mp
  cases op with
  | emit room event =>
      obtain ⟨-, rfl⟩ := Prod.mk.inj (Option.some.inj h)
      exact (concat he).imp id fun heq => Or.inl (by rw [heq]; exact hpre.2)
  | emitTo client event =>
      obtain ⟨-, rfl⟩ := Prod.mk.inj (Option.some.inj h)
      exact (concat he).imp id fun heq => Or.inl (by rw [heq]; exact hpre.2)
  | relay conn data =>
      obtain ⟨-, tracked, rfl, rfl | ⟨type, rfl⟩⟩ := relay_cases h
      · exact Or.inl he
      · exact (concat he).imp id fun heq => Or.inr ⟨conn, data, type, rfl, heq⟩
  | sendControlToAgent userId action =>
      obtain rfl | ⟨socketId, rfl⟩ := control_cases h
      · exact Or.inl he
      · exact (concat he).imp id fun heq => Or.inl (by rw [heq]; rfl)
  | receive client data =>
      obtain ⟨-, rfl⟩ | ⟨conn, -, -, -, rfl⟩ := receive_cases h
      · exact Or.inl he
      · exact Or.inl he
  | connect client token =>
      obtain ⟨-, ⟨payload, -, rfl⟩ | ⟨-, rfl⟩⟩ := connect_cases h
      · rw [Gateway.acceptManager, join_emitted] at he
        exact Or.inl he
      · exact Or.inl he
  | register client agentUser =>
      obtain ⟨-, rfl⟩ := Prod.mk.inj (Option.some.inj h)
      rw [Gateway.acceptAgent, join_emitted, join_emitted] at he
      exact Or.inl he
  | disconnect client =>
      obtain rfl | ⟨-, ⟨-, rfl⟩ | ⟨conn, -, rfl⟩⟩ := disconnect_cases h
      · exact Or.inl he
      · exact Or.inl he
      · exact Or.inl he
  | subscribe client userId =>
      obtain rfl | ⟨conn, -, -, rfl⟩ := subscribe_cases h
      · exact Or.inl he
      · rw [join_emitted] at he
        exact Or.inl he
  | setConnection client conn =>
      obtain ⟨-, rfl⟩ := Prod.mk.inj (Option.some.inj h)
      exact Or.inl he
  | unsubscribe client userId =>
      obtain ⟨-, rfl⟩ := Prod.mk.inj (Option.some.inj h)
      exact Or.inl he
  | _ => rcases Outcome.answer_cases (Option.some.inj h) with ⟨rfl, -⟩ | ⟨-, rfl | rfl⟩ <;> exact Or.inl he

end

/-! ## The invariant -/

/-- The user has this id and is of this organization. -/
def Gateway.Member (g : Gateway) (userId orgId : String) : Prop :=
  ∃ u ∈ g.users.rows, u.id = userId ∧ u.organizationId = orgId

/-- What a handler relies on: the user it found, and the sender of its frame, are of the organization it has them under. -/
def Vouched (g : Gateway) : Stage → Prop
  | .found _ agentUser => g.Member agentUser.id agentUser.organizationId
  | .counting conn _ _ => g.Member conn.userId conn.orgId
  | .read conn _ _ _ => g.Member conn.userId conn.orgId
  | .counted conn => g.Member conn.userId conn.orgId
  | _ => True

/-- Agents are users of their organization, and who watches a user is of its organization. -/
structure IsolationFacts (g : Gateway) : Prop where
  agents : ∀ s a, g.authenticated s = some a → a.isAgent = true → g.Member a.userId a.orgId
  watchers : ∀ userId s, (.watchers userId, s) ∈ g.rooms →
    ∃ a, g.authenticated s = some a ∧ ∀ u ∈ g.users.rows, u.id = userId → u.organizationId = a.orgId
  onlyOwn : ∀ e ∈ g.emitted, ∀ sender data type, e.event = .frame sender data type →
    ∀ s ∈ e.receivers, ∃ a, g.authenticated s = some a ∧ a.orgId = sender.orgId

structure IsolationInv {ι : Type} (g : Gateway) (m : ι → Stage) : Prop where
  accepted : Accepted g m
  facts : IsolationFacts g
  vouched : ∀ i, Vouched g (m i)

theorem IsolationInv.now {ι : Type} {g : Gateway} {m : ι → Stage} (h : IsolationInv g m) (now : Int) :
    IsolationInv { g with now } m :=
  ⟨h.accepted.now_users now g.users, ⟨h.facts.agents, h.facts.watchers, h.facts.onlyOwn⟩, h.vouched⟩

section
variable {ch : Choice} {op : Op} {g g' : Gateway} {r : op.Reply}

/-- A step vouches for what it finds: the user of a token, and the sender of a frame. -/
theorem vouched_step {m stage : Stage} (hm : Vouched g m) (hfacts : IsolationFacts g)
    (hknown : ∀ s conn, g.connections s = some conn →
      ∃ a, g.authenticated s = some a ∧ a.userId = conn.userId ∧ a.orgId = conn.orgId ∧ a.isAgent = conn.isAgent)
    (hpre : gatewayProtocol.pre m op) (hr : execNow ch op g = some (r, g'))
    (hpost : gatewayProtocol.post m op r stage) : Vouched g' stage := by
  have keep : Vouched g stage → Vouched g' stage := by
    have husers := users_eq hr
    unfold Vouched Gateway.Member
    rw [husers]
    exact id
  cases moves_of_post hpost with
  | found hstage =>
      rename_i agentUser
      apply keep
      rcases Outcome.answer_cases (Option.some.inj hr) with ⟨-, hfound⟩ | ⟨herror, -⟩
      · exact ⟨agentUser, List.mem_of_find?_eq_some (Except.ok.inj hfound).symm, rfl, rfl⟩
      · exact nomatch herror
  | created => exact keep hm
  | emitted => exact keep hm
  | received =>
      rename_i client data conn day
      obtain ⟨hnone, -⟩ | ⟨conn', hconn, hagent, hfound, -⟩ := receive_cases hr
      · exact nomatch hnone
      · obtain ⟨rfl, -⟩ := Prod.mk.inj (Option.some.inj hfound)
        obtain ⟨a, ha, huser, horg, hisAgent⟩ := hknown client conn hconn
        apply keep
        show g.Member conn.userId conn.orgId
        rw [← huser, ← horg]
        exact hfacts.agents client a ha (hisAgent.trans hagent)
  | read hstage =>
      subst hstage
      exact keep hm
  | written hstage =>
      subst hstage
      exact keep hm
  | relayed =>
      have hcounted : m = .counted _ := hpre
      subst hcounted
      exact keep hm
  | idle => trivial
  | connecting => trivial
  | registered => trivial

/-- **One step.** A frame goes to those who watch its sender, and they are of its organization. -/
theorem IsolationFacts.step {ι : Type} {m : ι → Stage} {i : ι} (h : IsolationFacts g) (haccepted : Accepted g m)
    (hvouched : Vouched g (m i)) (hlater : g.Remembers g') (hpre : gatewayProtocol.pre (m i) op)
    (hr : execNow ch op g = some (r, g'))
    (hown : ∀ client userId, op = .subscribe client userId → ∀ conn, g.connections client = some conn →
      conn.isAgent = false → ∀ u ∈ g.users.rows, u.id = userId → u.organizationId = conn.orgId) : IsolationFacts g' := by
  have husers := users_eq hr
  have hmember : ∀ {userId orgId}, g.Member userId orgId → g'.Member userId orgId := by
    unfold Gateway.Member
    rw [husers]
    exact id
  refine ⟨fun s a ha hagent => hmember ?_, fun userId s hmem => ?_, fun e he sender data type hevent s hs => ?_⟩
  · rcases authenticated_cases hr ha with ha | hfalse | ⟨agentUser, rfl, rfl⟩
    · exact h.agents s a ha hagent
    · exact nomatch hagent.symm.trans hfalse
    · have hm : m i = .found s agentUser := hpre
      rw [hm] at hvouched
      exact hvouched
  · rw [husers]
    rcases watchers_cases hr hmem with hmem | ⟨rfl, conn, hconn, hagent⟩
    · obtain ⟨a, ha, hu⟩ := h.watchers userId s hmem
      exact ⟨a, hlater s a ha, hu⟩
    · obtain ⟨a, ha, -, horg, -⟩ := haccepted.known s conn hconn
      exact ⟨a, hlater s a ha, fun u hu hid => (hown s userId rfl conn hconn hagent u hu hid).trans horg.symm⟩
  · rcases emitted_cases hpre hr he with he | hnot | ⟨conn, data', type', rfl, rfl⟩
    · obtain ⟨a, ha, horg⟩ := h.onlyOwn e he sender data type hevent s hs
      exact ⟨a, hlater s a ha, horg⟩
    · rw [hevent] at hnot
      exact nomatch hnot
    · obtain ⟨rfl, -, -⟩ := Event.frame.inj hevent
      have hm : m i = .counted conn := hpre
      rw [hm] at hvouched
      obtain ⟨u, hu, hid, horg⟩ := hvouched
      obtain ⟨x, hx, rfl⟩ := List.mem_map.mp hs
      obtain ⟨hmem, hroom⟩ := List.mem_filter.mp hx
      obtain ⟨room, s⟩ := x
      obtain rfl := of_decide_eq_true hroom
      obtain ⟨a, ha, hwatch⟩ := h.watchers conn.userId s hmem
      exact ⟨a, hlater s a ha, (hwatch u hu hid).symm.trans horg⟩

end

section
variable {ι : Type} [DecidableEq ι]

theorem IsolationInv.call {g g' : Gateway} {m : ι → Stage} (h : IsolationInv g m) {call : Call} (i : ι)
    (hadmits : call.admits g = some g') : IsolationInv g' (update m i .idle) := by
  obtain ⟨users, rfl, hkept, hnew⟩ := admits_cases hadmits
  have hmember : ∀ {userId orgId}, g.Member userId orgId → Gateway.Member { g with users } userId orgId := by
    rintro userId orgId ⟨u, hu, rfl, rfl⟩
    exact hkept u hu
  refine ⟨(h.accepted.now_users g.now users).call i, ⟨fun s a ha hagent => hmember (h.facts.agents s a ha hagent),
    fun userId s hmem => ?_, h.facts.onlyOwn⟩,
    (Function.forall_update_iff m fun _ stage => Vouched { g with users } stage).mpr ⟨trivial, fun j _ => ?_⟩⟩
  · obtain ⟨a, ha, hwatch⟩ := h.facts.watchers userId s hmem
    refine ⟨a, ha, fun v hv hid => ?_⟩
    rcases hnew v hv with ⟨u, hu, hvid, hvorg⟩ | hnobody
    · rw [← hvorg]
      exact hwatch u hu (hvid.trans hid)
    · exact absurd (by rw [hid]) (hnobody _ hmem)
  · have hj := h.vouched j
    cases hstage : m j <;> rw [hstage] at hj <;> first | trivial | exact hmember hj

theorem IsolationInv.step {g g' : Gateway} {m : ι → Stage} (h : IsolationInv g m) {ch : Choice} {op : Op} {r : op.Reply}
    {i : ι} {stage : Stage} (hpre : gatewayProtocol.pre (m i) op) (hr : execNow ch op g = some (r, g'))
    (hpost : gatewayProtocol.post (m i) op r stage)
    (hown : ∀ client userId, op = .subscribe client userId → ∀ conn, g.connections client = some conn →
      conn.isAgent = false → ∀ u ∈ g.users.rows, u.id = userId → u.organizationId = conn.orgId) :
    IsolationInv g' (update m i stage) := by
  obtain ⟨hnext, hlater⟩ := h.accepted.step hpre hr hpost
  have hfacts := h.facts.step h.accepted (h.vouched i) hlater hpre hr hown
  refine ⟨hnext, hfacts, (Function.forall_update_iff m fun _ stage => Vouched g' stage).mpr ⟨?_, fun j _ => ?_⟩⟩
  · exact vouched_step (h.vouched i) h.facts h.accepted.known hpre hr hpost
  · have hj := h.vouched j
    unfold Vouched Gateway.Member at hj ⊢
    rwa [users_eq hr]

/-- **If everyone watches its own, all frames stay in their organization.** -/
theorem isolationInv_of_reaches {maxHours : Nat} {users : UserTable} {c : Running ι}
    (h : Reaches (gateway maxHours) WatchesOwn (Config.start (Gateway.start users)) c) :
    ∃ m, IsolationInv c.world m ∧ ∀ i, Follows gatewayProtocol (fun m _ => m.Settled) (m i) (c.thread i) := by
  refine Reaches.inv (P := gatewayProtocol) (fun g _ m => IsolationInv g m) ?_ ?_ ?_ h
  · exact ⟨fun _ => .idle, ⟨accepted_start users, ⟨fun _ _ ha => (nomatch ha),
      fun _ _ hmem => absurd hmem List.not_mem_nil, fun _ he => absurd he List.not_mem_nil⟩, fun _ => trivial⟩,
      fun _ => trivial⟩
  · intro c m i call db hI _ _ hdb
    exact ⟨.idle, hI.call i hdb, follows_body maxHours call⟩
  · intro c m i ch op k r g' hI hG hop hpre hr
    obtain ⟨-, hr⟩ := exec_cases hr
    obtain ⟨stage, hpost⟩ := exists_post hpre r
    rw [WatchesOwn, Config.performs_step hop ch] at hG
    refine ⟨stage, hpost, (hI.now ch.now).step hpre hr hpost ?_⟩
    rintro client userId rfl conn hconn hagent u hu hid
    change ((c.world.connections client).all _) = true at hG
    rw [show c.world.connections client = some conn from hconn, Option.all_some, hagent, Bool.false_or,
      List.all_eq_true] at hG
    have hown := hG u hu
    rw [hid, bne_self_eq_false, Bool.false_or, beq_iff_eq] at hown
    exact hown

end

end TimeChamp.Streaming
