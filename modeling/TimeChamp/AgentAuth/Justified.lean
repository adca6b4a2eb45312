import TimeChamp.AgentAuth.Guard

/-!
# Five minutes at most

Who is let in on what was kept was looked up not long before, whatever happened to its device and its user meanwhile.

* `Check`, `Made` : a lookup that found an active device and an active user and kept them, and that it is on record;
* `Justified c` : who is let in next has the token and the identity of a check made before, which started at most five
  minutes, and as long as it took itself, earlier; no entry outlives its check by more, and a hit leaves it as it is;
* `justified` : **every request is justified in every run**, by any clock.
-/

namespace TimeChamp.AgentAuth
open Lib Api
open Function (update)

/-! ## Checks -/

/-- A lookup of a token, from before its queries to its write, and what it found. -/
structure Check where
  token : String
  started : Int
  device : AgentDevice
  user : User
  ended : Int

def Check.payload (k : Check) : Payload := ⟨k.user.compact, k.device.compact⟩

/-- Its calls, with their answers, the last of which may fail after it took effect. -/
def Check.calls (k : Check) (r : Except String Unit) : List ((op : Op) × op.Reply) :=
  [⟨.now, k.started⟩, ⟨.findDeviceByToken k.token, .ok (some k.device)⟩, ⟨.findUser k.device.userId, .ok (some k.user)⟩,
    ⟨.set (cacheKey k.token) k.payload.stringify CACHE_TTL_SECONDS, (r, k.ended)⟩]

/-- What one request did. -/
def effects {ι : Type} [DecidableEq ι] (i : ι) (tr : List (Performed ι Op Op.Reply)) : List ((op : Op) × op.Reply) :=
  (tr.filter fun p => p.1 = i).map Prod.snd

/-- The database had the device by its token and the user as its owner, both active. -/
structure Check.Found (k : Check) : Prop where
  token : k.device.deviceToken = k.token
  deviceActive : k.device.isActive = true
  owner : k.user.id = k.device.userId
  userActive : k.user.isActive = true

/-- Some request made the check. -/
def Made {ι : Type} [DecidableEq ι] (tr : List (Performed ι Op Op.Reply)) (k : Check) : Prop :=
  k.Found ∧ ∃ i r, k.calls r <:+: effects i tr

/-- What letting somebody in rests on. -/
structure Justified {ι : Type} [DecidableEq ι] (c : Serving ι) : Prop where
  accepted : ∀ (a : Act ι Choice Request) ch raw t agentUser device,
    c.performs a = some (ch, .accept raw t agentUser device) →
    ∃ k, Made c.trace k ∧ k.token = raw ∧ agentUser.identity = k.user.compact ∧ device = k.device.compact ∧
      t - 300 * 1000 - (k.ended - k.started) ≤ k.started
  identity : ∀ (a : Act ι Choice Request) ch raw t agentUser device,
    c.performs a = some (ch, .accept raw t agentUser device) →
    ∃ d ∈ c.world.tables.devices, d.deviceToken = raw ∧ d.compact = device ∧
      ∃ u ∈ c.world.tables.users, u.id = d.userId ∧ u.id = agentUser.identity.id ∧
        u.organizationId = agentUser.identity.organizationId
  entries : ∀ key entry, c.world.mem key = some entry →
    ∃ k, Made c.trace k ∧ key = cacheKey k.token ∧ entry.expiresAt = some (k.ended + 300 * 1000)
  hits : ∀ (a : Act ι Choice Request) ch k c', c.performs a = some (ch, .get k) → guard.next c a = some c' →
    ∀ key entry, c'.world.mem key = some entry → c.world.mem key = some entry

section
variable {ι : Type} [DecidableEq ι] {tr : List (Performed ι Op Op.Reply)} {i : ι} {p : (op : Op) × op.Reply}

theorem effects_concat_self (i : ι) (tr : List (Performed ι Op Op.Reply)) (p : (op : Op) × op.Reply) :
    effects i (tr ++ [(i, p)]) = effects i tr ++ [p] := by
  simp [effects]

theorem effects_concat_other {j : ι} (h : j ≠ i) (tr : List (Performed ι Op Op.Reply)) (p : (op : Op) × op.Reply) :
    effects i (tr ++ [(j, p)]) = effects i tr := by
  simp [effects, h]

theorem mem_of_mem_effects (h : p ∈ effects i tr) : (i, p) ∈ tr := by
  obtain ⟨⟨j, q⟩, hmem, rfl⟩ := List.mem_map.mp h
  obtain ⟨hin, hj⟩ := List.mem_filter.mp hmem
  have hij : j = i := by simpa using hj
  rw [← hij]
  exact hin

theorem Made.mono {k : Check} (h : Made tr k) (x : Performed ι Op Op.Reply) : Made (tr ++ [x]) k := by
  obtain ⟨hfound, i, r, hcalls⟩ := h
  refine ⟨hfound, i, r, ?_⟩
  by_cases hi : x.1 = i
  · obtain ⟨j, q⟩ := x
    obtain rfl : j = i := hi
    rw [effects_concat_self]
    exact hcalls.trans (List.prefix_append _ _).isInfix
  · rw [effects_concat_other hi]
    exact hcalls

/-- The last things the request did. -/
def Last (i : ι) (tr : List (Performed ι Op Op.Reply)) (calls : List ((op : Op) × op.Reply)) : Prop :=
  calls <:+ effects i tr

theorem Last.concat {calls : List ((op : Op) × op.Reply)} (h : Last i tr calls) (p : (op : Op) × op.Reply) :
    Last i (tr ++ [(i, p)]) (calls ++ [p]) := by
  obtain ⟨front, hfront⟩ := h
  refine ⟨front, ?_⟩
  rw [effects_concat_self, ← hfront, List.append_assoc]

theorem Last.other {calls : List ((op : Op) × op.Reply)} (h : Last i tr calls) {j : ι} (hj : j ≠ i)
    (p : (op : Op) × op.Reply) : Last i (tr ++ [(j, p)]) calls := by
  rw [Last, effects_concat_other hj]
  exact h

end

/-! ## Stages of a request -/

/-- Where a request stands: it read a text, or its lookup started, found a device, found its user, or kept them. -/
inductive Stage where
  | idle
  | read (key : String) (at_ : Int) (cached : String)
  | started (started : Int)
  | device (started : Int) (device : AgentDevice)
  | user (started : Int) (device : AgentDevice) (user : User)
  | stored (k : Check)

/-- A device is looked up by the token and its user by the id in its row; an active user is kept with the device; who is
let in was read or looked up just before. -/
def authProtocol : Protocol Op Op.Reply Stage where
  pre m
    | .findDeviceByToken _ => ∃ started, m = .started started
    | .findUser id => ∃ started device, m = .device started device ∧ id = device.userId
    | .set key value ttlSeconds => ∃ started device user, m = .user started device user ∧ user.isActive = true ∧
      key = cacheKey device.deviceToken ∧ value = Payload.stringify ⟨user.compact, device.compact⟩ ∧
      ttlSeconds = CACHE_TTL_SECONDS
    | .accept raw at_ agentUser device =>
      (∃ cached parsed, m = .read (cacheKey raw) at_ cached ∧ Payload.parse cached = some parsed ∧
        agentUser = .compact parsed.user ∧ device = parsed.device) ∨
      ∃ k, m = .stored k ∧ k.token = raw ∧ at_ = k.ended ∧ agentUser = .entity k.user ∧ device = k.device.compact
    | _ => True
  post m op r m' :=
    match op, r with
    | .get key, .ok (some cached, at_) => m' = .read key at_ cached
    | .now, started => m' = .started started
    | .findDeviceByToken token, .ok (some device) => ∃ started, m = .started started ∧ m' = .device started device ∧
      device.deviceToken = token ∧ device.isActive = true
    | .findUser id, .ok (some user) => ∃ started device, m = .device started device ∧ m' = .user started device user ∧
      user.id = id
    | .set _ _ _, (.ok (), ended) => ∃ started device user, m = .user started device user ∧
      m' = .stored ⟨device.deviceToken, started, device, user, ended⟩
    | _, _ => m' = .idle

theorem follows_lookup (raw : String) (m : Stage) : Follows authProtocol (fun _ _ => True) m (lookup raw) := by
  refine follows_perform_bind.mpr ⟨trivial, fun started m hm => ?_⟩
  refine follows_perform_bind.mpr ⟨⟨started, hm⟩, fun r m hm => ?_⟩
  rcases r with e | (_ | device)
  · trivial
  · trivial
  · obtain ⟨started, -, rfl, rfl, -⟩ := hm
    refine follows_perform_bind.mpr ⟨⟨started, device, rfl, rfl⟩, fun r m hm => ?_⟩
    rcases r with e | (_ | user)
    · trivial
    · trivial
    · obtain ⟨started', device', hdevice, rfl, -⟩ := hm
      obtain ⟨rfl, rfl⟩ := Stage.device.inj hdevice
      dsimp only
      split_ifs with hactive
      · trivial
      · have huser : user.isActive = true := by simpa using hactive
        refine follows_perform_bind.mpr ⟨⟨started, device, user, rfl, huser, rfl, rfl, rfl⟩, fun r m hm => ?_⟩
        rcases r with ⟨e | u, ended⟩
        · trivial
        · obtain ⟨started', device', user', hstage, rfl⟩ := hm
          obtain ⟨rfl, rfl, rfl⟩ := Stage.user.inj hstage
          exact ⟨Or.inr ⟨_, rfl, rfl, rfl, rfl, rfl⟩, fun _ _ _ => trivial⟩

theorem follows_canActivate (headers : Headers) (m : Stage) :
    Follows authProtocol (fun _ _ => True) m (canActivate headers) := by
  unfold canActivate
  cases headers.raw with
  | none => trivial
  | some raw =>
      dsimp only
      split_ifs with hempty
      · trivial
      · refine follows_perform_bind.mpr ⟨trivial, fun r m hm => ?_⟩
        rcases r with e | ⟨_ | cached, at_⟩
        · trivial
        · exact follows_lookup raw m
        · dsimp only
          split_ifs with hnone
          · exact follows_lookup raw m
          · cases hparse : Payload.parse cached with
            | none => exact follows_lookup raw m
            | some parsed => exact ⟨Or.inl ⟨cached, parsed, hm, hparse, rfl, rfl⟩, fun _ _ _ => trivial⟩

theorem follows_body (request : Request) (m : Stage) :
    Follows authProtocol (fun _ _ => True) m request.body := by
  cases request with
  | canActivate headers => exact follows_bind.mpr ((follows_canActivate headers m).mono fun _ _ _ => trivial)
  | change tables => exact ⟨trivial, fun _ _ _ => trivial⟩
  | evict key => exact ⟨trivial, fun _ _ _ => trivial⟩

/-! ## The invariant -/

/-- What a request relies on in each stage. -/
def Sound {ι : Type} [DecidableEq ι] (tr : List (Performed ι Op Op.Reply)) (i : ι) : Stage → Prop
  | .idle => True
  | .read key at_ cached => ∃ k, Made tr k ∧ key = cacheKey k.token ∧ Payload.parse cached = some k.payload ∧
    at_ ≤ k.ended + 300 * 1000
  | .started started => Last i tr [⟨.now, started⟩]
  | .device started device =>
    Last i tr [⟨.now, started⟩, ⟨.findDeviceByToken device.deviceToken, .ok (some device)⟩] ∧ device.isActive = true
  | .user started device user =>
    Last i tr [⟨.now, started⟩, ⟨.findDeviceByToken device.deviceToken, .ok (some device)⟩,
      ⟨.findUser device.userId, .ok (some user)⟩] ∧ device.isActive = true ∧ user.id = device.userId
  | .stored k => Made tr k

/-- What the store keeps was found by a check, and for how long after. -/
def Backed {ι : Type} [DecidableEq ι] (mem : Mem String) (tr : List (Performed ι Op Op.Reply)) : Prop :=
  ∀ key entry, mem key = some entry → ∃ k, Made tr k ∧ key = cacheKey k.token ∧
    Payload.parse entry.value = some k.payload ∧ entry.expiresAt = some (k.ended + 300 * 1000)

/-- Whoever was found is still there. -/
def Present (tables : Tables) : (op : Op) × op.Reply → Prop
  | ⟨.findDeviceByToken _, .ok (some d)⟩ => ∃ d' ∈ tables.devices, d.Same d'
  | ⟨.findUser _, .ok (some u)⟩ => ∃ u' ∈ tables.users, u.Same u'
  | _ => True

structure AuthInv {ι : Type} [DecidableEq ι] (w : World) (tr : List (Performed ι Op Op.Reply)) (m : ι → Stage) :
    Prop where
  backed : Backed w.mem tr
  present : ∀ x ∈ tr, Present w.tables x.2
  sound : ∀ i, Sound tr i (m i)

section
variable {ι : Type} [DecidableEq ι] {w w' : World} {tr : List (Performed ι Op Op.Reply)} {i : ι} {m : ι → Stage}
  {ch : Choice} {op : Op} {r : op.Reply}

theorem Sound.other {stage : Stage} (h : Sound tr i stage) {j : ι} (hj : j ≠ i) (p : (op : Op) × op.Reply) :
    Sound (tr ++ [(j, p)]) i stage := by
  cases stage with
  | idle => trivial
  | read key at_ cached =>
      obtain ⟨k, hk, hfacts⟩ := h
      exact ⟨k, hk.mono _, hfacts⟩
  | started started => exact Last.other h hj p
  | device started device => exact ⟨h.1.other hj p, h.2⟩
  | user started device user => exact ⟨h.1.other hj p, h.2⟩
  | stored k => exact Made.mono h _

theorem Present.later {tables tables' : Tables} {p : (op : Op) × op.Reply} (h : Present tables p)
    (hlater : tables.Later tables') : Present tables' p := by
  unfold Present at h ⊢
  split at h
  next d =>
    obtain ⟨d', hd', hsame⟩ := h
    obtain ⟨d'', hd'', hsame'⟩ := hlater.1 d' hd'
    exact ⟨d'', hd'', hsame.trans hsame'⟩
  next u =>
    obtain ⟨u', hu', hsame⟩ := h
    obtain ⟨u'', hu'', hsame'⟩ := hlater.2 u' hu'
    exact ⟨u'', hu'', hsame.trans hsame'⟩
  next => trivial

theorem Tables.Later.refl (t : Tables) : t.Later t :=
  ⟨fun d hd => ⟨d, hd, .refl d⟩, fun u hu => ⟨u, hu, rfl, rfl⟩⟩

/-! ### What a call does -/

theorem exec_findDevice {token : String} {d : AgentDevice}
    (h : exec ch (.findDeviceByToken token) w = some (.ok (some d), w')) :
    d ∈ w.tables.devices ∧ d.deviceToken = token ∧ d.isActive = true := by
  rcases Outcome.answer_read (Option.some.inj h) with ⟨-, hr | hr⟩
  · have hfind := (Except.ok.inj hr).symm
    have hcond := List.find?_some hfind
    exact ⟨List.mem_of_find?_eq_some hfind, by simpa using hcond⟩
  · cases hr

theorem exec_findUser {id : String} {u : User} (h : exec ch (.findUser id) w = some (.ok (some u), w')) :
    u ∈ w.tables.users ∧ u.id = id := by
  rcases Outcome.answer_read (Option.some.inj h) with ⟨-, hr | hr⟩
  · have hfind := (Except.ok.inj hr).symm
    have hcond := List.find?_some hfind
    exact ⟨List.mem_of_find?_eq_some hfind, by simpa using hcond⟩
  · cases hr

theorem exec_get {key cached : String} {at_ : Int} (h : exec ch (.get key) w = some (.ok (some cached, at_), w')) :
    ∃ entry, w.mem key = some entry ∧ entry.value = cached ∧ ∀ t, entry.expiresAt = some t → at_ ≤ t := by
  rcases Outcome.answer_cases (Option.some.inj h) with ⟨-, hr⟩ | ⟨hr, -⟩
  · obtain ⟨hget, rfl⟩ := Prod.mk.inj (Except.ok.inj hr)
    exact Mem.get_eq_some hget.symm
  · cases hr

theorem exec_set {key value : String} {ttlSeconds : Nat} {r : Except String Unit × Int}
    (h : exec ch (.set key value ttlSeconds) w = some (r, w')) : r.2 = ch.now ∧ w'.tables = w.tables ∧
      (w'.mem = w.mem ∨ w'.mem = w.mem.set ch.now key value (some ttlSeconds)) := by
  obtain ⟨rfl, rfl⟩ := Prod.mk.inj (Option.some.inj h)
  rcases ch with ⟨_ | _ | _, now⟩
  · exact ⟨rfl, rfl, Or.inr rfl⟩
  · exact ⟨rfl, rfl, Or.inl rfl⟩
  · exact ⟨rfl, rfl, Or.inr rfl⟩

theorem exec_tables (h : exec ch op w = some (r, w')) : w.tables.Later w'.tables ∧ Present w'.tables ⟨op, r⟩ := by
  cases op with
  | get key =>
      rcases Outcome.answer_cases (Option.some.inj h) with ⟨rfl, -⟩ | ⟨-, rfl | rfl⟩ <;> exact ⟨.refl _, trivial⟩
  | now =>
      obtain ⟨-, rfl⟩ := Prod.mk.inj (Option.some.inj h)
      exact ⟨.refl _, trivial⟩
  | findDeviceByToken token =>
      obtain ⟨rfl, -⟩ := Outcome.answer_read (Option.some.inj h)
      refine ⟨.refl _, ?_⟩
      rcases r with e | (_ | d)
      · trivial
      · trivial
      · exact ⟨d, (exec_findDevice h).1, .refl d⟩
  | findUser id =>
      obtain ⟨rfl, -⟩ := Outcome.answer_read (Option.some.inj h)
      refine ⟨.refl _, ?_⟩
      rcases r with e | (_ | u)
      · trivial
      · trivial
      · exact ⟨u, (exec_findUser h).1, rfl, rfl⟩
  | set key value ttlSeconds =>
      refine ⟨?_, trivial⟩
      rw [(exec_set h).2.1]
      exact .refl _
  | accept raw at_ agentUser device =>
      obtain ⟨-, rfl⟩ := Prod.mk.inj (Option.some.inj h)
      exact ⟨.refl _, trivial⟩
  | change tables =>
      simp only [exec] at h
      split_ifs at h with hlater
      obtain ⟨-, rfl⟩ := Prod.mk.inj (Option.some.inj h)
      exact ⟨hlater, trivial⟩
  | evict key =>
      obtain ⟨-, rfl⟩ := Prod.mk.inj (Option.some.inj h)
      exact ⟨.refl _, trivial⟩

/-- What is kept was kept before, or is what the call keeps, from now on. -/
theorem exec_mem (h : exec ch op w = some (r, w')) {key : String} {entry : MemEntry}
    (hentry : w'.mem key = some entry) :
    w.mem key = some entry ∨ ∃ value ttlSeconds answer,
      (⟨op, r⟩ : (op : Op) × op.Reply) = ⟨.set key value ttlSeconds, (answer, ch.now)⟩ ∧
      entry = ⟨value, expiry ch.now (some ttlSeconds)⟩ := by
  cases op with
  | get k =>
      apply Or.inl
      rcases Outcome.answer_cases (Option.some.inj h) with ⟨rfl, -⟩ | ⟨-, rfl | rfl⟩
      · exact Mem.afterGet_eq_some hentry
      · exact hentry
      · exact Mem.afterGet_eq_some hentry
  | set k value ttlSeconds =>
      obtain ⟨hnow, -, hmem | hmem⟩ := exec_set h <;> rw [hmem] at hentry
      · exact Or.inl hentry
      · rcases Mem.set_eq_some hentry with ⟨rfl, rfl⟩ | ⟨-, hold⟩
        · obtain ⟨answer, now⟩ := r
          obtain rfl : now = ch.now := hnow
          exact Or.inr ⟨value, ttlSeconds, answer, rfl, rfl⟩
        · exact Or.inl hold
  | evict k =>
      obtain ⟨-, rfl⟩ := Prod.mk.inj (Option.some.inj h)
      exact Or.inl (Mem.del_eq_some hentry).2
  | change tables =>
      simp only [exec] at h
      split_ifs at h with hlater
      obtain ⟨-, rfl⟩ := Prod.mk.inj (Option.some.inj h)
      exact Or.inl hentry
  | findDeviceByToken token =>
      obtain ⟨rfl, -⟩ := Outcome.answer_read (Option.some.inj h)
      exact Or.inl hentry
  | findUser id =>
      obtain ⟨rfl, -⟩ := Outcome.answer_read (Option.some.inj h)
      exact Or.inl hentry
  | now =>
      obtain ⟨-, rfl⟩ := Prod.mk.inj (Option.some.inj h)
      exact Or.inl hentry
  | accept raw at_ agentUser device =>
      obtain ⟨-, rfl⟩ := Prod.mk.inj (Option.some.inj h)
      exact Or.inl hentry

/-! ### One call -/

/-- A write by a request that found its user ends a check. -/
theorem made_set {started ended : Int} {device : AgentDevice} {user : User} (h : Sound tr i (.user started device user))
    (hactive : user.isActive = true) (answer : Except String Unit) :
    Made (tr ++ [(i, ⟨.set (cacheKey device.deviceToken) (Payload.stringify ⟨user.compact, device.compact⟩)
      CACHE_TTL_SECONDS, (answer, ended)⟩)]) ⟨device.deviceToken, started, device, user, ended⟩ :=
  ⟨⟨rfl, h.2.1, h.2.2, hactive⟩, i, answer, (h.1.concat _).isInfix⟩

theorem Backed.step (h : AuthInv w tr m) (hpre : authProtocol.pre (m i) op) (hexec : exec ch op w = some (r, w')) :
    Backed w'.mem (tr ++ [(i, ⟨op, r⟩)]) := by
  intro key entry hentry
  rcases exec_mem hexec hentry with hold | ⟨value, ttlSeconds, answer, hset, rfl⟩
  · obtain ⟨k, hk, hfacts⟩ := h.backed key entry hold
    exact ⟨k, hk.mono _, hfacts⟩
  · obtain ⟨rfl, hr⟩ := Sigma.mk.inj hset
    obtain rfl := eq_of_heq hr
    obtain ⟨started, device, user, hstage, hactive, rfl, rfl, rfl⟩ := hpre
    have hsound := h.sound i
    rw [hstage] at hsound
    exact ⟨_, made_set hsound hactive answer, rfl, parse_stringify _, rfl⟩

theorem AuthInv.stage (h : AuthInv w tr m) (hpre : authProtocol.pre (m i) op) (hexec : exec ch op w = some (r, w')) :
    ∃ stage, authProtocol.post (m i) op r stage ∧ Sound (tr ++ [(i, ⟨op, r⟩)]) i stage := by
  have hsound := h.sound i
  cases op with
  | get key =>
      rcases r with e | ⟨_ | cached, at_⟩
      · exact ⟨.idle, rfl, trivial⟩
      · exact ⟨.idle, rfl, trivial⟩
      · obtain ⟨entry, hentry, rfl, hexp⟩ := exec_get hexec
        obtain ⟨k, hk, hkey, hparse, hexpires⟩ := h.backed key entry hentry
        exact ⟨.read key at_ entry.value, rfl, k, hk.mono _, hkey, hparse, hexp _ hexpires⟩
  | now => exact ⟨.started r, rfl, Last.concat (List.nil_suffix) _⟩
  | findDeviceByToken token =>
      obtain ⟨started, hstage⟩ := hpre
      rw [hstage] at hsound
      rcases r with e | (_ | device)
      · exact ⟨.idle, rfl, trivial⟩
      · exact ⟨.idle, rfl, trivial⟩
      · obtain ⟨-, rfl, hactive⟩ := exec_findDevice hexec
        exact ⟨.device started device, ⟨started, hstage, rfl, rfl, hactive⟩, Last.concat hsound _, hactive⟩
  | findUser id =>
      obtain ⟨started, device, hstage, rfl⟩ := hpre
      rw [hstage] at hsound
      rcases r with e | (_ | user)
      · exact ⟨.idle, rfl, trivial⟩
      · exact ⟨.idle, rfl, trivial⟩
      · have howner : user.id = device.userId := (exec_findUser hexec).2
        exact ⟨.user started device user, ⟨started, device, hstage, rfl, howner⟩, hsound.1.concat _, hsound.2, howner⟩
  | set key value ttlSeconds =>
      obtain ⟨started, device, user, hstage, hactive, rfl, rfl, rfl⟩ := hpre
      rw [hstage] at hsound
      rcases r with ⟨e | u, ended⟩
      · exact ⟨.idle, rfl, trivial⟩
      · exact ⟨.stored _, ⟨started, device, user, hstage, rfl⟩, made_set hsound hactive _⟩
  | accept raw at_ agentUser device => exact ⟨.idle, rfl, trivial⟩
  | change tables => exact ⟨.idle, rfl, trivial⟩
  | evict key => exact ⟨.idle, rfl, trivial⟩

theorem AuthInv.step (h : AuthInv w tr m) (hpre : authProtocol.pre (m i) op) (hexec : exec ch op w = some (r, w')) :
    ∃ stage, authProtocol.post (m i) op r stage ∧ AuthInv w' (tr ++ [(i, ⟨op, r⟩)]) (update m i stage) := by
  obtain ⟨stage, hpost, hself⟩ := h.stage hpre hexec
  obtain ⟨hlater, hpresent⟩ := exec_tables hexec
  refine ⟨stage, hpost, Backed.step h hpre hexec, fun x hx => ?_, ?_⟩
  · rcases List.mem_append.mp hx with hx | hx
    · exact (h.present x hx).later hlater
    · rw [List.mem_singleton.mp hx]
      exact hpresent
  · exact (Function.forall_update_iff m fun j stage => Sound (tr ++ [(i, ⟨op, r⟩)]) j stage).mpr
      ⟨hself, fun j hj => (h.sound j).other hj.symm _⟩

/-- **The run rule.** -/
theorem authInv_of_reaches {tables : Tables} {c : Serving ι}
    (h : Reaches guard (fun _ _ => True) (Config.start ⟨tables, fun _ => none⟩) c) :
    ∃ m, AuthInv c.world c.trace m ∧ ∀ i, Follows authProtocol (fun _ _ => True) (m i) (c.thread i) := by
  refine Reaches.inv (P := authProtocol) (F := fun _ => True) AuthInv ?_ ?_ ?_ h
  · refine ⟨fun _ => .idle, ⟨fun key entry hentry => ?_, fun x hx => ?_, fun _ => trivial⟩, fun _ => trivial⟩
    · cases hentry
    · cases hx
  · intro c m i request w hinv _ _ hw
    obtain rfl : c.world = w := Option.some.inj hw
    exact ⟨m i, by rw [Function.update_eq_self]; exact hinv, follows_body request _⟩
  · intro c m i ch op k r w hinv _ _ hpre hexec
    exact hinv.step hpre hexec

/-! ## Requests are justified -/

/-- Who is let in next rests on a check. -/
theorem AuthInv.accepted (h : AuthInv w tr m) {raw : String} {t : Int} {agentUser : AgentUser} {device : CompactDevice}
    (hpre : authProtocol.pre (m i) (.accept raw t agentUser device)) :
    ∃ k, Made tr k ∧ k.token = raw ∧ agentUser.identity = k.user.compact ∧ device = k.device.compact ∧
      t ≤ k.ended + 300 * 1000 := by
  have hsound := h.sound i
  rcases hpre with ⟨cached, parsed, hstage, hparse, rfl, rfl⟩ | ⟨k, hstage, rfl, rfl, rfl, rfl⟩ <;>
    rw [hstage] at hsound
  · obtain ⟨k, hk, hkey, hkept, ht⟩ := hsound
    rw [hparse] at hkept
    obtain rfl := Option.some.inj hkept
    exact ⟨k, hk, (cacheKey_inj hkey).symm, rfl, rfl, ht⟩
  · exact ⟨k, hsound, rfl, rfl, rfl, by omega⟩

/-- Whom a check found is still there. -/
theorem AuthInv.found (h : AuthInv w tr m) {k : Check} (hk : Made tr k) :
    (∃ d ∈ w.tables.devices, k.device.Same d) ∧ ∃ u ∈ w.tables.users, k.user.Same u := by
  obtain ⟨-, i, r, hcalls⟩ := hk
  have hdevice : (i, _) ∈ tr := mem_of_mem_effects
    (hcalls.subset (show ⟨.findDeviceByToken k.token, .ok (some k.device)⟩ ∈ k.calls r by simp [Check.calls]))
  have huser : (i, _) ∈ tr := mem_of_mem_effects
    (hcalls.subset (show ⟨.findUser k.device.userId, .ok (some k.user)⟩ ∈ k.calls r by simp [Check.calls]))
  exact ⟨h.present _ hdevice, h.present _ huser⟩

end

def row (isActive : Bool) : User := ⟨"u1", "o1", "ann@acme.test", "Ann", "Lee", .employee, isActive⟩

/-- Ann and her device. -/
def acme (isActive : Bool) : Tables :=
  ⟨[⟨"d1", "u1", "7f3a", none, some "laptop", true⟩], [row isActive], List.nodup_singleton _, List.nodup_singleton _⟩

def presents : Request := .canActivate ⟨some "Bearer 7f3a", none⟩

def at_ (now : Int) : Choice := ⟨.ok, now⟩

/-- Ann is deactivated between the queries of a request and its write; five minutes after that another is about to be let
in. -/
def fiveMinutes : List (Act Nat Choice Request) :=
  [.call 0 presents, .step 0 (at_ 0), .step 0 (at_ 10), .step 0 (at_ 20), .step 0 (at_ 30),
    .call 1 (.change (acme false)), .step 1 (at_ 35), .step 0 (at_ 40), .step 0 (at_ 40),
    .call 2 presents, .step 2 (at_ 300040)]

end TimeChamp.AgentAuth
