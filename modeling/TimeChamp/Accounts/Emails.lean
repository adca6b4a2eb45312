import TimeChamp.Accounts.Service

/-!
# One account for an address

`register` looks for the address in every organization, and `invite` in one; nothing makes the look and the insert one
step, and the schema has an address once in each organization.

* `OneEach s` : no two users have the same address up to case, and a login with it is for the one that has;
* `Orderly` : nobody inserted the address of a registration since it looked, and no user of another organization has the
  address of an invitation;
* `oneEach_iff` : **if every request is orderly each address has one user; the first that is not, and inserts its user,
  ends that**.
-/

namespace TimeChamp.Accounts
open Lib
open Function (update)

/-- What an address is for. -/
structure OneEach (casing : Casing) (s : Store) : Prop where
  rows : ∀ u ∈ s.users.rows, ∀ v ∈ s.users.rows, casing.LOWER u.email = casing.LOWER v.email → u = v
  login : ∀ u ∈ s.users.rows, u.isActive = true → ∀ email, casing.LOWER u.email = casing.LOWER email →
    Accounts.login casing s email = some u

theorem OneEach.nodup {casing : Casing} {s : Store} (h : OneEach casing s) :
    (s.users.rows.map fun u => casing.LOWER u.email).Nodup :=
  (List.Nodup.of_map _ s.users.keys_nodup).map_on h.rows

/-- The insert took effect. -/
def inserted : Except String Unit → Bool
  | .ok () => true
  | .error e => e = lostError

/-- The address of the user that was inserted. -/
def insertedEmail : (op : Op) → op.Reply → Option String
  | .commit _ email _, r => if inserted r then some email else none
  | .insertUser _ _ email _, r => if inserted r then some email else none
  | _, _ => none

/-- A request inserted a user with this address. -/
def inserts {ι : Type} (email : String) (p : Performed ι Op Op.Reply) : Bool := insertedEmail p.2.1 p.2.2 = some email

/-- Somebody has the address, who was not there when the request looked or is not where it looked. -/
def overlooks {ι : Type} (s : Store) (since : List (Performed ι Op Op.Reply)) : Op → Bool
  | .commit _ email _ => since.any (inserts email)
  | .insertUser organizationId _ email _ =>
    s.users.rows.any fun u => u.email = email && u.organizationId ≠ organizationId
  | _ => false

/-- No insert overlooks anybody. -/
def Orderly {ι : Type} [DecidableEq ι] (c : Serving ι) (a : Act ι Choice Request) : Prop :=
  (c.performs a).all (fun p => !overlooks c.world (since a.who c.trace) p.2) = true

instance {ι : Type} [DecidableEq ι] (c : Serving ι) (a : Act ι Choice Request) : Decidable (Orderly c a) :=
  inferInstanceAs (Decidable (_ = true))

theorem orderly_step {ι : Type} [DecidableEq ι] {c : Serving ι} {i : ι} {op : Op} {k : op.Reply → Program Unit}
    (hop : c.thread i = .op op k) (ch : Choice) :
    Orderly c (.step i ch) ↔ overlooks c.world (since i c.trace) op = false := by
  simp only [Orderly, Config.performs_step hop, Option.all_some, Act.who, Bool.not_eq_true']

/-! ## What a statement does -/

/-- An answer to an insert says whether it took effect, unless a constraint refused it. -/
theorem insertAnswer_cases {outcome : Outcome} {s s' t : Store} {r : Except String Unit}
    (h : insertAnswer outcome s s' = (r, t)) : t = s ∧ inserted r = false ∨ t = s' ∧ inserted r = true := by
  unfold insertAnswer at h
  cases outcome <;> obtain ⟨rfl, rfl⟩ := Prod.mk.inj h
  · exact Or.inr ⟨rfl, rfl⟩
  · exact Or.inl ⟨rfl, by decide⟩
  · exact Or.inr ⟨rfl, by decide⟩

/-- The statement that inserts a user: of a registration, or of an invitation to an organization where the address is
new. -/
def Inserting (s : Store) (u : User) (op : Op) : Prop :=
  (∃ slug dto, op = .commit slug u.email dto) ∨
  ∃ invitedBy role, op = .insertUser u.organizationId invitedBy u.email role ∧
    ∀ v ∈ s.users.rows, v.email = u.email → v.organizationId ≠ u.organizationId

/-- **What a statement does to the users.** Nothing, or it inserts one. -/
theorem exec_cases {ch : Choice} {op : Op} {s s' : Store} {r : op.Reply} (h : exec ch op s = some (r, s')) :
    (s'.users = s.users ∧ insertedEmail op r = none) ∨
    ∃ u, s'.users = s.users.insert u ∧ insertedEmail op r = some u.email ∧ Inserting s u op := by
  have refused : inserted (.error duplicateError) = false ∧ inserted (.error foreignKeyError) = false := by decide
  cases op with
  | randomBytes =>
      obtain ⟨-, rfl⟩ := Prod.mk.inj (Option.some.inj h)
      exact Or.inl ⟨rfl, rfl⟩
  | findOrganization slug =>
      obtain ⟨rfl, -⟩ := Outcome.answer_read (Option.some.inj h)
      exact Or.inl ⟨rfl, rfl⟩
  | findUser email organizationId =>
      obtain ⟨rfl, -⟩ := Outcome.answer_read (Option.some.inj h)
      exact Or.inl ⟨rfl, rfl⟩
  | commit slug email dto =>
      simp only [exec, Option.some.injEq] at h
      split_ifs at h with hslug
      · obtain ⟨rfl, rfl⟩ := Prod.mk.inj h
        exact Or.inl ⟨rfl, by rw [insertedEmail, refused.1]; rfl⟩
      · rcases insertAnswer_cases h with ⟨rfl, hr⟩ | ⟨rfl, hr⟩
        · exact Or.inl ⟨rfl, by rw [insertedEmail, hr]; rfl⟩
        · exact Or.inr ⟨_, rfl, by rw [insertedEmail, hr]; rfl, Or.inl ⟨slug, dto, rfl⟩⟩
  | insertUser organizationId invitedBy email role =>
      simp only [exec, Option.some.injEq] at h
      split_ifs at h with hdup hkey
      · obtain ⟨rfl, rfl⟩ := Prod.mk.inj h
        exact Or.inl ⟨rfl, by rw [insertedEmail, refused.1]; rfl⟩
      · obtain ⟨rfl, rfl⟩ := Prod.mk.inj h
        exact Or.inl ⟨rfl, by rw [insertedEmail, refused.2]; rfl⟩
      · rcases insertAnswer_cases h with ⟨rfl, hr⟩ | ⟨rfl, hr⟩
        · exact Or.inl ⟨rfl, by rw [insertedEmail, hr]; rfl⟩
        · refine Or.inr ⟨_, rfl, by rw [insertedEmail, hr]; rfl, Or.inr ⟨invitedBy, role, rfl, ?_⟩⟩
          intro v hv hemail horg
          refine hdup (List.any_eq_true.mpr ⟨v, hv, ?_⟩)
          simpa using ⟨horg, hemail⟩

theorem exec_findUser {ch : Choice} {email : String} {s s' : Store}
    (h : exec ch (.findUser email none) s = some (.ok none, s')) : ∀ u ∈ s.users.rows, u.email ≠ email := by
  obtain ⟨-, hr | hr⟩ := Outcome.answer_read (Option.some.inj h)
  · intro u hu hemail
    have hnone := List.find?_eq_none.mp (Except.ok.inj hr).symm u hu
    simp [hemail] at hnone
  · cases hr

/-! ## Stages of a request -/

/-- A registration looked for its address and found nobody, or a request is elsewhere. -/
inductive Stage where
  | idle
  | looked (email : String)

/-- A registration commits the address it looked for, and every address is inserted in lower case. -/
def emailProtocol (casing : Casing) : Protocol Op Op.Reply Stage where
  pre m
    | .commit _ email _ => m = .looked email ∧ casing.LOWER email = email
    | .insertUser _ _ email _ => casing.LOWER email = email
    | _ => True
  post _ op r m' :=
    match op, r with
    | .findUser email none, .ok none => m' = .looked email
    | _, _ => m' = .idle

theorem follows_body (casing : Casing) (request : Request) (m : Stage) :
    Follows (emailProtocol casing) (fun _ _ => True) m (request.body casing) := by
  cases request with
  | register dto =>
      refine ⟨trivial, fun hex m _ => ⟨trivial, fun r m _ => ?_⟩⟩
      rcases r with e | (_ | o)
      · trivial
      · refine ⟨trivial, fun r m hm => ?_⟩
        rcases r with e | (_ | u)
        · trivial
        · exact ⟨⟨hm, casing.LOWER_toLowerCase _⟩, fun _ _ _ => trivial⟩
        · trivial
      · trivial
  | invite organizationId invitedBy dto =>
      refine ⟨trivial, fun r m _ => ?_⟩
      rcases r with e | (_ | u)
      · trivial
      · exact ⟨casing.LOWER_toLowerCase _, fun _ _ _ => trivial⟩
      · trivial

/-! ## The ledger -/

/-- Addresses are stored in lower case and once, and one that was inserted is there. -/
structure Ledger (casing : Casing) {ι : Type} (s : Store) (tr : List (Performed ι Op Op.Reply)) : Prop where
  lowered : ∀ u ∈ s.users.rows, casing.LOWER u.email = u.email
  unique : ∀ u ∈ s.users.rows, ∀ v ∈ s.users.rows, u.email = v.email → u = v
  logged : ∀ email, tr.any (inserts email) = true → ∃ u ∈ s.users.rows, u.email = email

/-- Who has the address that was looked for came since. -/
def Sound {ι : Type} [DecidableEq ι] (s : Store) (tr : List (Performed ι Op Op.Reply)) (i : ι) : Stage → Prop
  | .idle => True
  | .looked email => (∃ u ∈ s.users.rows, u.email = email) → (since i tr).any (inserts email) = true

structure EmailInv (casing : Casing) {ι : Type} [DecidableEq ι] (s : Store) (tr : List (Performed ι Op Op.Reply))
    (m : ι → Stage) : Prop where
  ledger : Ledger casing s tr
  sound : ∀ i, Sound s tr i (m i)

section
variable {casing : Casing} {ι : Type} {s s' : Store} {tr : List (Performed ι Op Op.Reply)}

theorem Ledger.frame (h : Ledger casing s tr) (hs : s'.users = s.users) {i : ι} {op : Op} {r : op.Reply}
    (hr : insertedEmail op r = none) : Ledger casing s' (tr ++ [(i, ⟨op, r⟩)]) where
  lowered := by rw [hs]; exact h.lowered
  unique := by rw [hs]; exact h.unique
  logged := by
    intro email hany
    rw [hs]
    apply h.logged email
    simpa [inserts, hr] using hany

theorem Ledger.insert (h : Ledger casing s tr) {u : User} (hs : s'.users = s.users.insert u)
    (hlower : casing.LOWER u.email = u.email) (hnew : ∀ v ∈ s.users.rows, v.email ≠ u.email) {i : ι} {op : Op}
    {r : op.Reply} (hr : insertedEmail op r = some u.email) : Ledger casing s' (tr ++ [(i, ⟨op, r⟩)]) where
  lowered := by
    rw [hs]
    intro v hv
    rcases Table.mem_insert.mp hv with hv | rfl
    · exact h.lowered v hv
    · exact hlower
  unique := by
    rw [hs]
    intro v hv w hw hemail
    rcases Table.mem_insert.mp hv with hv | rfl <;> rcases Table.mem_insert.mp hw with hw | rfl
    · exact h.unique v hv w hw hemail
    · exact absurd hemail (hnew v hv)
    · exact absurd hemail.symm (hnew w hw)
    · rfl
  logged := by
    intro email hany
    rw [hs]
    rw [List.any_append, Bool.or_eq_true] at hany
    rcases hany with hany | hany
    · obtain ⟨v, hv, hemail⟩ := h.logged email hany
      exact ⟨v, Table.mem_insert.mpr (Or.inl hv), hemail⟩
    · have hemail : u.email = email := by simpa [inserts, hr] using hany
      exact ⟨_, Table.mem_insert.mpr (Or.inr rfl), hemail⟩

/-- Every address has one user, whom a login is for. -/
theorem Ledger.oneEach (h : Ledger casing s tr) : OneEach casing s where
  rows := by
    intro u hu v hv hemail
    rw [h.lowered u hu, h.lowered v hv] at hemail
    exact h.unique u hu v hv hemail
  login := by
    intro u hu hactive email hemail
    have hfound : (login casing s email).isSome = true := by
      refine List.find?_isSome.mpr ⟨u, hu, ?_⟩
      simpa using ⟨hemail, hactive⟩
    obtain ⟨v, hv⟩ := Option.isSome_iff_exists.mp hfound
    have hsame : casing.LOWER v.email = casing.LOWER email ∧ v.isActive = true := by
      simpa using List.find?_some hv
    have hmem : v ∈ s.users.rows := List.mem_of_find?_eq_some hv
    have heq : v.email = u.email := by
      rw [← h.lowered v hmem, ← h.lowered u hu, hsame.1, hemail]
    rw [hv, h.unique v hmem u hu heq]

theorem not_oneEach_insert {u v : User} (hs : s'.users = s.users.insert u) (hv : v ∈ s.users.rows)
    (hemail : v.email = u.email) : ¬ OneEach casing s' := by
  intro h
  have hold : v ∈ s'.users.rows := by
    rw [hs]
    exact Table.mem_insert.mpr (Or.inl hv)
  have hnew : Keyed.withKey s.users.nextKey u ∈ s'.users.rows := by
    rw [hs]
    exact Table.mem_insert.mpr (Or.inr rfl)
  have heq : v = Keyed.withKey s.users.nextKey u := h.rows v hold _ hnew (congrArg casing.LOWER hemail)
  have hkey : Keyed.key v < s.users.nextKey := s.users.bounded v hv
  rw [heq, Keyed.key_withKey] at hkey
  exact Nat.lt_irrefl _ hkey

variable [DecidableEq ι]

/-- What another request does keeps a search sound. -/
theorem Sound.other {i j : ι} {op : Op} {r : op.Reply} {st : Stage} (h : Sound s tr i st) (hne : j ≠ i)
    (hs : ∀ u ∈ s'.users.rows, u ∈ s.users.rows ∨ insertedEmail op r = some u.email) :
    Sound s' (tr ++ [(j, ⟨op, r⟩)]) i st := by
  cases st with
  | idle => trivial
  | looked email =>
      rintro ⟨u, hu, rfl⟩
      rw [since_concat_of_ne hne, List.any_cons, Bool.or_eq_true]
      rcases hs u hu with hu | hr
      · exact Or.inr (h ⟨u, hu, rfl⟩)
      · exact Or.inl (by simp [inserts, hr])

/-- An insert that overlooks nobody has an address that is new. -/
theorem new_of_orderly {m : Stage} {i : ι} {u : User} {op : Op} (hsound : Sound s tr i m)
    (hpre : (emailProtocol casing).pre m op) (hfree : overlooks s (since i tr) op = false)
    (hop : Inserting s u op) :
    casing.LOWER u.email = u.email ∧ ∀ v ∈ s.users.rows, v.email ≠ u.email := by
  rcases hop with ⟨slug, dto, rfl⟩ | ⟨invitedBy, role, rfl, hother⟩
  · obtain ⟨rfl, hlower⟩ := hpre
    refine ⟨hlower, fun v hv hemail => ?_⟩
    have hsince : (since i tr).any (inserts u.email) = true := hsound ⟨v, hv, hemail⟩
    rw [overlooks, hsince] at hfree
    cases hfree
  · refine ⟨hpre, fun v hv hemail => List.any_eq_false.mp hfree v hv ?_⟩
    simpa using ⟨hemail, hother v hv hemail⟩

theorem exec_stage {m : Stage} {i : ι} {ch : Choice} {op : Op} {r : op.Reply} (hexec : exec ch op s = some (r, s')) :
    ∃ stage, (emailProtocol casing).post m op r stage ∧ Sound s' (tr ++ [(i, ⟨op, r⟩)]) i stage := by
  cases op with
  | findUser email organizationId =>
      rcases organizationId with _ | id
      · rcases r with e | (_ | u)
        · exact ⟨.idle, rfl, trivial⟩
        · refine ⟨.looked email, rfl, ?_⟩
          rintro ⟨u, hu, hemail⟩
          rw [(Outcome.answer_read (Option.some.inj hexec)).1] at hu
          exact absurd hemail (exec_findUser hexec u hu)
        · exact ⟨.idle, rfl, trivial⟩
      · exact ⟨.idle, rfl, trivial⟩
  | _ => exact ⟨.idle, rfl, trivial⟩

theorem EmailInv.step {m : ι → Stage} {i : ι} {ch : Choice} {op : Op} {r : op.Reply} (h : EmailInv casing s tr m)
    (hpre : (emailProtocol casing).pre (m i) op) (hfree : overlooks s (since i tr) op = false)
    (hexec : exec ch op s = some (r, s')) :
    ∃ m', (emailProtocol casing).post (m i) op r m' ∧ EmailInv casing s' (tr ++ [(i, ⟨op, r⟩)]) (update m i m') := by
  have hrows : ∀ u ∈ s'.users.rows, u ∈ s.users.rows ∨ insertedEmail op r = some u.email := by
    intro u hu
    rcases exec_cases hexec with ⟨hs, -⟩ | ⟨v, hs, hr, -⟩ <;> rw [hs] at hu
    · exact Or.inl hu
    · rcases Table.mem_insert.mp hu with hu | rfl
      · exact Or.inl hu
      · exact Or.inr hr
  have hledger : Ledger casing s' (tr ++ [(i, ⟨op, r⟩)]) := by
    rcases exec_cases hexec with ⟨hs, hr⟩ | ⟨u, hs, hr, hop⟩
    · exact h.ledger.frame hs hr
    · obtain ⟨hlower, hnew⟩ := new_of_orderly (h.sound i) hpre hfree hop
      exact h.ledger.insert hs hlower hnew hr
  have hstage : ∃ stage, (emailProtocol casing).post (m i) op r stage ∧ Sound s' (tr ++ [(i, ⟨op, r⟩)]) i stage :=
    exec_stage hexec
  obtain ⟨stage, hpost, hself⟩ := hstage
  refine ⟨stage, hpost, hledger, ?_⟩
  exact (Function.forall_update_iff m fun j stage => Sound s' (tr ++ [(i, ⟨op, r⟩)]) j stage).mpr
    ⟨hself, fun j hj => (h.sound j).other hj.symm hrows⟩

/-- **The run rule.** -/
theorem emailInv_of_reaches {c : Serving ι} (h : Reaches (accounts casing) Orderly (Config.start Store.empty) c) :
    ∃ m, EmailInv casing c.world c.trace m ∧
      ∀ i, Follows (emailProtocol casing) (fun _ _ => True) (m i) (c.thread i) := by
  refine Reaches.inv (P := emailProtocol casing) (F := fun _ => True) (EmailInv casing) ?_ ?_ ?_ h
  · refine ⟨fun _ => .idle, ⟨⟨?_, ?_, ?_⟩, fun _ => trivial⟩, fun _ => trivial⟩
    · exact fun u hu => absurd hu List.not_mem_nil
    · exact fun u hu => absurd hu List.not_mem_nil
    · exact fun _ hany => Bool.noConfusion hany
  · intro c m i request w hinv _ _ hw
    obtain rfl : c.world = w := Option.some.inj hw
    exact ⟨m i, by rw [Function.update_eq_self]; exact hinv, follows_body casing request _⟩
  · intro c m i ch op k r w hinv hG hop hpre hexec
    exact hinv.step hpre ((orderly_step hop ch).mp hG) hexec

end

/-- **When an address has one user.** In every run of registrations and invitations that overlook nobody it has; and a
step ends that exactly when it inserts a user and overlooks another. -/
theorem oneEach_iff (casing : Casing) {ι : Type} [DecidableEq ι] {c : Serving ι}
    (h : Reaches (accounts casing) Orderly (Config.start Store.empty) c) :
    OneEach casing c.world ∧ ∀ a c', (accounts casing).next c a = some c' →
      (OneEach casing c'.world ↔ Orderly c a ∨ c'.world.users = c.world.users) := by
  obtain ⟨m, hinv, -⟩ := emailInv_of_reaches h
  refine ⟨hinv.ledger.oneEach, fun a c' hnext => ⟨fun hone => ?_, ?_⟩⟩
  · rcases System.next_cases hnext with ⟨i, request, w, rfl, -, hw, rfl⟩ | ⟨i, ch, op, k, r, w, rfl, hop, hexec, rfl⟩
    · exact Or.inr (congrArg Store.users (Option.some.inj hw).symm)
    · rcases exec_cases hexec with ⟨hs, -⟩ | ⟨u, hs, -, hcases⟩
      · exact Or.inr hs
      · refine Or.inl ((orderly_step hop ch).mpr (Bool.eq_false_iff.mpr fun hover => ?_))
        -- whom the insert overlooks has its address
        have hother : ∃ v ∈ c.world.users.rows, v.email = u.email := by
          rcases hcases with ⟨slug, dto, rfl⟩ | ⟨invitedBy, role, rfl, -⟩
          · obtain ⟨p, hp, hins⟩ := List.any_eq_true.mp hover
            have htr : p ∈ c.trace := List.mem_reverse.mp ((List.takeWhile_sublist _).subset hp)
            exact hinv.ledger.logged _ (List.any_eq_true.mpr ⟨p, htr, hins⟩)
          · obtain ⟨v, hv, hsame⟩ := List.any_eq_true.mp hover
            exact ⟨v, hv, by simpa using (Bool.and_eq_true_iff.mp hsame).1⟩
        obtain ⟨v, hv, hemail⟩ := hother
        exact not_oneEach_insert hs hv hemail hone
  · rintro (horderly | hsame)
    · obtain ⟨m', hinv', -⟩ := emailInv_of_reaches (h.next horderly hnext)
      exact hinv'.ledger.oneEach
    · have hone := hinv.ledger.oneEach
      refine ⟨by rw [hsame]; exact hone.rows, fun u hu hactive email hemail => ?_⟩
      rw [login, hsame]
      rw [hsame] at hu
      exact hone.login u hu hactive email hemail

/-! ### Two organizations -/

def lower (text : String) : String := String.ofList (text.toList.map Char.toLower)

theorem lower_lower (text : String) : lower (lower text) = lower text := by
  simp only [lower, String.toList_ofList, List.map_map]
  congr 2
  funext c
  show c.toLower.toLower = c.toLower
  delta Char.toLower
  grind

def ascii : Casing := ⟨lower, lower, lower_lower⟩

def answers (random : String) : Choice := ⟨.ok, random⟩

/-- Ann and Bo register an organization each. -/
def registered : List (Act Nat Choice Request) :=
  [.call 0 (.register ⟨"Acme", "Ann", "Lee", "Ann@acme.test"⟩), .step 0 (answers "a1b2c3"), .step 0 (answers ""),
    .step 0 (answers ""), .step 0 (answers ""),
    .call 1 (.register ⟨"Bolt", "Bo", "Ray", "bo@bolt.test"⟩), .step 1 (answers "d4e5f6"), .step 1 (answers ""),
    .step 1 (answers ""), .step 1 (answers "")]

/-- Bo invites somebody. -/
def invited (email : String) : List (Act Nat Choice Request) :=
  registered ++
    ([.call 2 (.invite 2 2 ⟨email, .employee⟩), .step 2 (answers ""), .step 2 (answers "")] : List (Act Nat Choice Request))

/-- What that leads to. -/
def ended (email : String) : Serving Nat := (accounts ascii).endOf (Config.start Store.empty) (invited email)

theorem oneEach_iff_invited :
    OneEach ascii (ended "Cy@acme.test").world ∧ ∀ a c', (accounts ascii).next (ended "Cy@acme.test") a = some c' →
      (OneEach ascii c'.world ↔
        Orderly (ended "Cy@acme.test") a ∨ c'.world.users = (ended "Cy@acme.test").world.users) :=
  oneEach_iff ascii (reaches_endOf (by decide +kernel) (by decide +kernel))

/-- Bo invites Ann, who has an account at Acme. -/
theorem not_oneEach_invited :
    ¬ ∀ (casing : Casing) (c : Serving Nat), Reaches (accounts casing) (fun _ _ => True) (Config.start Store.empty) c →
      OneEach casing c.world := by
  intro h
  have hreach : Reaches (accounts ascii) (fun _ _ => True) (Config.start Store.empty) (ended "ANN@acme.test") :=
    reaches_endOf (System.allowed_true _ _ _) (by decide +kernel)
  have htwice : ((ended "ANN@acme.test").world.users.rows.map fun u => ascii.LOWER u.email) =
      ["ann@acme.test", "bo@bolt.test", "ann@acme.test"] := by
    decide +kernel
  have hnodup := (h ascii (ended "ANN@acme.test") hreach).nodup
  rw [htwice] at hnodup
  exact absurd hnodup (by decide)

end TimeChamp.Accounts
