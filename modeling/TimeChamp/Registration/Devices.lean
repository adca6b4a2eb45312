import TimeChamp.Registration.Service

/-!
# Whose devices

* `HasUser` : a user of the organization has the id; users keep both;
* `saving` : a request saves a device for a user that it found; `follows_body`, that every request keeps to that;
* `devices_of_users` : **every device stands under the organization of its user**, in every run.
-/

namespace TimeChamp.Registration.Devices
open Lib
open Function (update)

/-- A user of the organization has the id. -/
def HasUser (db : Db) (userId organizationId : String) : Prop :=
  ∃ u ∈ db.users.rows, u.id = userId ∧ u.organizationId = organizationId

/-- The id of a device's user is that of a user of the device's organization. -/
def Owned (db : Db) : Prop := ∀ d ∈ db.devices, HasUser db d.userId d.organizationId

/-- What a request may save, of the users it found. -/
def saving : Protocol Op Op.Reply (List User) where
  pre m
    | .save device _ => ∃ u ∈ m, device.userId = u.id ∧ device.organizationId = u.organizationId
    | _ => True
  post m
    | .findByToken _, .ok (some u), m' => m' = u :: m
    | .findById _, .ok (some u), m' => m' = u :: m
    | _, _, m' => m' = m

/-! ## Requests -/

/-- The call saves no device. -/
def Plain : Op → Prop
  | .save _ _ => False
  | _ => True

theorem follows_of_performs {α : Type} {p : Request α} (h : Performs Plain p) (m : List User) :
    Follows saving (fun _ _ => True) m p := by
  refine h.follows (F := fun _ => True) (fun m op _ hop => ⟨?_, fun _ _ _ => trivial⟩) trivial
  cases op with
  | save device personalToken => exact hop.elim
  | _ => trivial

theorem performs_storeNewToken (userId : String) (user : User) : Performs Plain (storeNewToken userId user) := by
  refine performs_perform trivial fun _ => performs_perform trivial fun r => ?_
  cases r <;> trivial

theorem performs_rotateAgentToken (userId : String) : Performs Plain (rotateAgentToken userId) := by
  refine performs_perform trivial fun r => ?_
  rcases r with e | _ | user
  · trivial
  · trivial
  · exact performs_storeNewToken userId user

theorem performs_getOrGenerateAgentToken (userId : String) : Performs Plain (getOrGenerateAgentToken userId) := by
  refine performs_perform trivial fun r => ?_
  rcases r with e | _ | user
  · trivial
  · trivial
  · dsimp only
    cases truthy user.agentToken with
    | some token => trivial
    | none => exact performs_storeNewToken userId user

theorem follows_resolveUser (personalToken : Option String) (inviteToken : String) (m : List User) :
    Follows saving (fun m' r => ∀ u, r = .ok u → u ∈ m') m (resolveUser personalToken inviteToken) := by
  cases personalToken with
  | some token =>
      refine follows_perform_bind.mpr ⟨trivial, fun r m' hm => ?_⟩
      rcases r with e | _ | user
      · rintro _ ⟨⟩
      · rintro _ ⟨⟩
      · cases hm
        rintro _ ⟨⟩
        exact List.mem_cons_self
  | none =>
      refine follows_perform_bind.mpr ⟨trivial, fun r m' hm => ?_⟩
      cases hm
      cases r with
      | error e => rintro _ ⟨⟩
      | ok invited =>
          dsimp only
          cases truthy invited with
          | none => rintro _ ⟨⟩
          | some userId =>
              refine follows_perform_bind.mpr ⟨trivial, fun r m' hm => ?_⟩
              rcases r with e | _ | user
              · rintro _ ⟨⟩
              · rintro _ ⟨⟩
              · cases hm
                rintro _ ⟨⟩
                exact List.mem_cons_self

theorem follows_registerDevice (dto : RegisterAgentDto) {user : User} {m : List User} (huser : user ∈ m) :
    Follows saving (fun _ _ => True) m (registerDevice dto user) := by
  refine follows_perform_bind.mpr ⟨trivial, fun r m' hm => ?_⟩
  cases hm
  refine follows_perform_bind.mpr ⟨⟨user, huser, rfl, rfl⟩, fun saved m' hm => ?_⟩
  cases hm
  cases saved with
  | error e => trivial
  | ok u =>
      refine (follows_of_performs (performs_rotateAgentToken user.id) m).bind fun m' rotated _ => ?_
      exact follows_perform_bind.mpr ⟨trivial, fun _ _ _ => trivial⟩

theorem follows_registerAgent (dto : RegisterAgentDto) (m : List User) :
    Follows saving (fun _ _ => True) m (registerAgent dto) := by
  unfold registerAgent
  split
  · trivial
  · trivial
  · refine (follows_resolveUser _ _ m).bind fun m' r hr => ?_
    cases r with
    | error e => trivial
    | ok user =>
        dsimp only
        split_ifs
        · exact follows_registerDevice dto (hr user rfl)
        · trivial

/-- **A device is saved for a user that was found.** -/
theorem follows_body (call : Call) : Follows saving (fun _ _ => True) [] call.body := by
  cases call with
  | getOrGenerateAgentToken userId =>
      exact (follows_of_performs (performs_getOrGenerateAgentToken userId) []).bind fun _ _ _ => trivial
  | rotateAgentToken userId =>
      exact (follows_of_performs (performs_rotateAgentToken userId) []).bind fun _ _ _ => trivial
  | registerAgent dto => exact (follows_registerAgent dto []).bind fun _ _ _ => trivial
  | addUser user => trivial
  | updateUser userId dto => trivial

/-! ## Every run -/

section
variable {db db' : Db}

theorem HasUser.map {f : User → User} (hf : ∀ u, (f u).id = u.id ∧ (f u).organizationId = u.organizationId)
    (hrows : db'.users.rows = db.users.rows.map f) {userId organizationId : String}
    (h : HasUser db userId organizationId) : HasUser db' userId organizationId := by
  obtain ⟨u, hu, rfl, rfl⟩ := h
  exact ⟨f u, hrows ▸ List.mem_map_of_mem hu, hf u⟩

theorem has_of_exec {ch : Choice} {op : Op} {r : op.Reply} (h : exec ch op db = some (r, db'))
    {userId organizationId : String} (hhas : HasUser db userId organizationId) : HasUser db' userId organizationId := by
  cases op with
  | findByToken token =>
      obtain ⟨rfl, -⟩ := Outcome.answer_read (Option.some.inj h)
      exact hhas
  | consumeInvite token =>
      obtain ⟨rfl, -⟩ := Outcome.answer_read (Option.some.inj h)
      exact hhas
  | findById id =>
      obtain ⟨rfl, -⟩ := Outcome.answer_read (Option.some.inj h)
      exact hhas
  | fresh =>
      obtain ⟨-, rfl⟩ := Prod.mk.inj (Option.some.inj h)
      exact hhas
  | save device personalToken =>
      simp only [exec] at h
      split at h <;> obtain ⟨-, rfl⟩ := Prod.mk.inj (Option.some.inj h) <;> exact hhas
  | storeToken userId' token =>
      simp only [exec] at h
      split_ifs at h with hnew
      have hgiven : HasUser (db.giveToken userId' token hnew) userId organizationId := by
        refine HasUser.map (fun u => ⟨User.withToken_id userId' token u, ?_⟩) rfl hhas
        unfold User.withToken
        split_ifs <;> rfl
      rcases Outcome.answer_cases (Option.some.inj h) with ⟨rfl, -⟩ | ⟨-, rfl | rfl⟩
      · exact hgiven
      · exact hhas
      · exact hgiven
  | registered personalToken rotated =>
      cases personalToken with
      | none =>
          obtain ⟨-, rfl⟩ := Prod.mk.inj (Option.some.inj h)
          exact hhas
      | some token =>
          obtain ⟨-, rfl⟩ := Prod.mk.inj (Option.some.inj h)
          unfold Db.endRegistration
          split_ifs <;> exact hhas

theorem has_of_admits {call : Call} (h : call.admits db = some db') :
    db'.devices = db.devices ∧
      ∀ userId organizationId, HasUser db userId organizationId → HasUser db' userId organizationId := by
  cases call with
  | addUser user =>
      simp only [Call.admits] at h
      split_ifs at h
      obtain rfl := Option.some.inj h
      refine ⟨rfl, fun userId organizationId hhas => ?_⟩
      obtain ⟨u, hu, hid⟩ := hhas
      exact ⟨u, List.mem_cons_of_mem _ hu, hid⟩
  | updateUser userId dto =>
      obtain rfl := Option.some.inj h
      refine ⟨rfl, fun _ _ hhas => HasUser.map (fun u => ⟨User.assign_id userId dto u, ?_⟩) rfl hhas⟩
      unfold User.assign
      split_ifs <;> rfl
  | _ =>
      obtain rfl := Option.some.inj h
      exact ⟨rfl, fun _ _ => id⟩

theorem Owned.step {ch : Choice} {op : Op} {r : op.Reply} (h : Owned db) (hr : exec ch op db = some (r, db'))
    (hsaved : ∀ device personalToken, op = .save device personalToken →
      HasUser db device.userId device.organizationId) : Owned db' := by
  have hold : ∀ d ∈ db.devices, HasUser db' d.userId d.organizationId := fun d hd => has_of_exec hr (h d hd)
  have same : db'.devices = db.devices → Owned db' := by
    intro hsame d hd
    rw [hsame] at hd
    exact hold d hd
  cases op with
  | save device personalToken =>
      have hnew := has_of_exec hr (hsaved device personalToken rfl)
      have saved : db'.devices = db.devices ++ [device] → Owned db' := by
        intro hdevices d hd
        rw [hdevices] at hd
        rcases List.mem_append.mp hd with hd | hd
        · exact hold d hd
        · rw [List.mem_singleton.mp hd]
          exact hnew
      simp only [exec] at hr
      split at hr <;> obtain ⟨-, rfl⟩ := Prod.mk.inj (Option.some.inj hr)
      · exact saved rfl
      · exact same rfl
      · exact saved rfl
  | storeToken userId token =>
      simp only [exec] at hr
      split_ifs at hr
      rcases Outcome.answer_cases (Option.some.inj hr) with ⟨rfl, -⟩ | ⟨-, rfl | rfl⟩ <;> exact same rfl
  | registered personalToken rotated =>
      cases personalToken with
      | none =>
          obtain ⟨-, rfl⟩ := Prod.mk.inj (Option.some.inj hr)
          exact same rfl
      | some token =>
          obtain ⟨-, rfl⟩ := Prod.mk.inj (Option.some.inj hr)
          apply same
          unfold Db.endRegistration
          split_ifs <;> rfl
  | fresh =>
      obtain ⟨-, rfl⟩ := Prod.mk.inj (Option.some.inj hr)
      exact same rfl
  | _ =>
      obtain ⟨rfl, -⟩ := Outcome.answer_read (Option.some.inj hr)
      exact same rfl

/-- What a request found, there is. -/
theorem found_of_post {ch : Choice} {op : Op} {r : op.Reply} {m m' : List User} (hr : exec ch op db = some (r, db'))
    (hpost : saving.post m op r m') (hm : ∀ u ∈ m, HasUser db u.id u.organizationId) :
    ∀ u ∈ m', HasUser db' u.id u.organizationId := by
  have hold : ∀ u ∈ m, HasUser db' u.id u.organizationId := fun u hu => has_of_exec hr (hm u hu)
  have found : ∀ u, u ∈ db.users.rows → m' = u :: m → ∀ v ∈ m', HasUser db' v.id v.organizationId := by
    rintro u hu rfl v hv
    rcases List.mem_cons.mp hv with rfl | hv
    · exact has_of_exec hr ⟨v, hu, rfl, rfl⟩
    · exact hold v hv
  have same : m' = m → ∀ v ∈ m', HasUser db' v.id v.organizationId := by
    rintro rfl
    exact hold
  cases op with
  | findByToken token =>
      obtain ⟨rfl, hfound⟩ := Outcome.answer_read (Option.some.inj hr)
      rcases r with e | _ | u
      · exact same hpost
      · exact same hpost
      · exact found u (List.mem_of_find?_eq_some (Except.ok.inj (hfound.resolve_right fun h => nomatch h)).symm) hpost
  | findById id =>
      obtain ⟨rfl, hfound⟩ := Outcome.answer_read (Option.some.inj hr)
      rcases r with e | _ | u
      · exact same hpost
      · exact same hpost
      · exact found u (List.mem_of_find?_eq_some (Except.ok.inj (hfound.resolve_right fun h => nomatch h)).symm) hpost
  | _ => exact same hpost

end

/-- **Devices of users.** Whatever is registered, added and changed, in whatever order. -/
theorem devices_of_users {ι : Type} [DecidableEq ι] {users : UserTable} {c : Running ι}
    (h : Reaches service (fun _ _ => True) (Config.start (Db.start users)) c) : Owned c.world := by
  have hinv := h.inv (P := saving) (F := fun _ => True)
    (fun db _ m => Owned db ∧ ∀ i, ∀ u ∈ m i, HasUser db u.id u.organizationId) ?_ ?_ ?_
  · obtain ⟨-, ⟨howned, -⟩, -⟩ := hinv
    exact howned
  · exact ⟨fun _ => [], ⟨fun _ hd => absurd hd List.not_mem_nil, fun _ _ hu => absurd hu List.not_mem_nil⟩,
      fun _ => trivial⟩
  · rintro c m i call db ⟨howned, hfound⟩ - - hdb
    obtain ⟨hdevices, hhas⟩ := has_of_admits hdb
    refine ⟨[], ⟨fun d hd => hhas _ _ (howned d (hdevices ▸ hd)), ?_⟩, follows_body call⟩
    rw [Function.forall_update_iff m fun _ found => ∀ u ∈ found, HasUser db u.id u.organizationId]
    exact ⟨fun _ hu => absurd hu List.not_mem_nil, fun j _ u hu => hhas _ _ (hfound j u hu)⟩
  · rintro c m i ch op k r db ⟨howned, hfound⟩ - - hpre hr
    have hpost : ∃ m', saving.post (m i) op r m' := by
      cases op with
      | findByToken token => rcases r with e | _ | u <;> exact ⟨_, rfl⟩
      | findById id => rcases r with e | _ | u <;> exact ⟨_, rfl⟩
      | _ => exact ⟨_, rfl⟩
    obtain ⟨m', hpost⟩ := hpost
    refine ⟨m', hpost, howned.step hr ?_, ?_⟩
    · rintro device personalToken rfl
      obtain ⟨u, hu, huser, horg⟩ := hpre
      rw [huser, horg]
      exact hfound i u hu
    · rw [Function.forall_update_iff m fun _ found => ∀ u ∈ found, HasUser db u.id u.organizationId]
      exact ⟨found_of_post hr hpost (hfound i), fun j _ u hu => has_of_exec hr (hfound j u hu)⟩

end TimeChamp.Registration.Devices
