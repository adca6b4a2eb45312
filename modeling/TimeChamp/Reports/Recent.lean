import TimeChamp.Registration.Devices
import TimeChamp.Reports.Service

/-!
# Where the answers of reports come from

* `Found`, `Request.Finds`, `Request.result` : what the queries of a request found, and what is computed of it;
* `permits` : a result is kept under the key of a request it was computed for, and an answer goes out that was computed, or
  was kept under the key of the request; `follows_handle`, that calls keep to that;
* `Kept` : where what the store has comes from, and since when;
* `answers_recent` : **every answer was computed by a request with the same key, which kept it no longer ago than its time**;
* `Tables.Registered`, `registered_of_service` : a device stands under the organization of its user, as it is registered;
* `key_userId`, `employees_see_own` : **no answer is made of rows of other organizations, and none for an employee of rows
  of other users**.
-/

namespace TimeChamp.Reports
open Lib Analytics
open Api (Mem expiry)
open Accounts (UserRole)
open Json (Value parse_stringify)

/-! ## What is computed -/

def Request.key : Request → String
  | .productivity userId organizationId from_ to_ => productivityKey userId organizationId from_ to_
  | .appUsage userId organizationId from_ to_ => appUsageKey userId organizationId from_ to_
  | .report organizationId userId from_ to_ => reportKey organizationId userId from_ to_
  | .live organizationId => liveKey organizationId

def Request.userId : Request → Option String
  | .productivity userId _ _ _ => userId
  | .appUsage userId _ _ _ => userId
  | .report _ userId _ _ => userId
  | .live _ => none

def Request.organizationId : Request → Uuid
  | .productivity _ organizationId _ _ => organizationId
  | .appUsage _ organizationId _ _ => organizationId
  | .report organizationId _ _ _ => organizationId
  | .live organizationId => organizationId

/-- What the calls of a request found. -/
structure Found where
  now : Int
  attendances : List ClockedIn
  activities : List Event
  devices : List ((Device × Option Registration.User) × Option Event)

/-- Calls and their answers. -/
abbrev Did := (e : Op) → e.Reply → Prop

section
variable (parseDate : String → Option Int)

/-- The request had this from its queries. -/
def Request.Finds (did : Did) (found : Found) : Request → Prop
  | .productivity userId organizationId from_ to_ => ∃ range, instants parseDate from_ to_ = some range ∧
      did (.find (.attendances ⟨organizationId.text, givenUser userId, range⟩)) (.ok found.attendances) ∧
      did (.find (.activities ⟨organizationId.text, givenUser userId, some range⟩ none)) (.ok found.activities) ∧
      did .now found.now ∧ found.devices = []
  | .appUsage userId organizationId from_ to_ => ∃ range, instants parseDate from_ to_ = some range ∧
      did (.find (.activities ⟨organizationId.text, givenUser userId, some range⟩ (some 10000))) (.ok found.activities) ∧
      found.attendances = [] ∧ found.devices = []
  | .report organizationId userId _ _ => ∃ rows,
      did (.find (.activities ⟨organizationId.text, givenUser userId, none⟩ none)) rows ∧
      found.activities = rows.toOption.getD [] ∧ found.attendances = [] ∧ found.devices = []
  | .live organizationId => did .now found.now ∧
      did (.find (.activeDevices organizationId.text (found.now - ONLINE_WINDOW_MS))) (.ok (found.devices.map Prod.fst)) ∧
      (∀ d ∈ found.devices, did (.find (.lastActivity d.1.1.id organizationId.text)) (.ok d.2)) ∧
      found.attendances = [] ∧ found.activities = []

/-- The answer that is made of it. -/
def Request.result (found : Found) : Request → Value
  | .productivity _ _ from_ to_ =>
    let cursor := ((instants parseDate from_ to_).map Prod.fst).getD 0
    productivityValue (productivityRows found.now cursor (parseDate (to_ ++ "T00:00:00.000Z")) found.attendances
      found.activities)
  | .appUsage _ _ _ _ =>
    let totals := appTotals found.activities
    if (totals.map Prod.snd).sum = 0 then .arr [] else appUsageValue (appUsageRows totals)
  | .report _ _ from_ _ => reportValue (reportRows from_ found.activities)
  | .live _ => .arr (found.devices.map fun d => liveDevice d.1 d.2)

/-- The answer was computed for the request. -/
def Computed (did : Did) (request : Request) (answer : Value) : Prop :=
  ∃ found, request.Finds parseDate did found ∧ answer = request.result parseDate found

end

/-- How long the result of a request is kept. -/
def Request.Keeps (did : Did) (ttlSeconds : Nat) : Request → Prop
  | .productivity _ _ _ to_ => ∃ now, did .now now ∧ ttlSeconds = rangeTtl to_ (dateKey now)
  | .appUsage _ _ _ to_ => ∃ now, did .now now ∧ ttlSeconds = rangeTtl to_ (dateKey now)
  | .report _ _ _ _ => ttlSeconds = 300
  | .live _ => ttlSeconds = 30

/-- The request may be made for the user. -/
def Granted (user : User) (request : Request) : Prop :=
  request.organizationId = user.organizationId ∧ (user.role = .employee → request.userId = some user.id.text)

theorem Request.Finds.mono {parseDate : String → Option Int} {did did' : Did} {found : Found} {request : Request}
    (h : request.Finds parseDate did found) (hdid : ∀ e r, did e r → did' e r) : request.Finds parseDate did' found := by
  cases request with
  | productivity userId organizationId from_ to_ =>
      obtain ⟨range, hrange, hatt, hact, hnow, hdev⟩ := h
      exact ⟨range, hrange, hdid _ _ hatt, hdid _ _ hact, hdid _ _ hnow, hdev⟩
  | appUsage userId organizationId from_ to_ =>
      obtain ⟨range, hrange, hact, hrest⟩ := h
      exact ⟨range, hrange, hdid _ _ hact, hrest⟩
  | report organizationId userId from_ to_ =>
      obtain ⟨rows, hact, hrest⟩ := h
      exact ⟨rows, hdid _ _ hact, hrest⟩
  | live organizationId =>
      obtain ⟨hnow, hdev, hlast, hrest⟩ := h
      exact ⟨hdid _ _ hnow, hdid _ _ hdev, fun d hd => hdid _ _ (hlast d hd), hrest⟩

theorem Computed.mono {parseDate : String → Option Int} {did did' : Did} {request : Request} {answer : Value}
    (h : Computed parseDate did request answer) (hdid : ∀ e r, did e r → did' e r) :
    Computed parseDate did' request answer := by
  obtain ⟨found, hfinds, hanswer⟩ := h
  exact ⟨found, hfinds.mono hdid, hanswer⟩

theorem Request.Keeps.mono {did did' : Did} {ttlSeconds : Nat} {request : Request} (h : request.Keeps did ttlSeconds)
    (hdid : ∀ e r, did e r → did' e r) : request.Keeps did' ttlSeconds := by
  cases request with
  | productivity userId organizationId from_ to_ =>
      obtain ⟨now, hnow, httl⟩ := h
      exact ⟨now, hdid _ _ hnow, httl⟩
  | appUsage userId organizationId from_ to_ =>
      obtain ⟨now, hnow, httl⟩ := h
      exact ⟨now, hdid _ _ hnow, httl⟩
  | report organizationId userId from_ to_ => exact h
  | live organizationId => exact h

/-! ## What a call may do -/

abbrev Mode := History Op Op.Reply

def did (m : Mode) : Did := fun e r => ⟨e, r⟩ ∈ m.done

/-- The answer was kept under the key of the request. -/
def Got (did : Did) (request : Request) (answer : Value) : Prop :=
  ∃ t text, did (.get request.key) (t, .ok (some text)) ∧ Value.parse text = some answer

def permits (parseDate : String → Option Int) (m : Mode) : Op → Prop
  | .set key value ttlSeconds => ∃ request answer, key = request.key ∧ value = answer.stringify ∧
      Computed parseDate (did m) request answer ∧ request.Keeps (did m) ttlSeconds
  | .respond user request answer => Granted user request ∧
      (Computed parseDate (did m) request answer ∨ Got (did m) request answer)
  | _ => True

section
variable {parseDate : String → Option Int} {m m' : Mode} {α : Type}

theorem did_mono (h : m ≤ m') : ∀ e r, did m e r → did m' e r := fun _ _ hdid => h hdid

theorem permits_monotone : (history (permits parseDate)).Monotone := by
  apply history_monotone
  intro m m' e hm h
  cases e with
  | set key value ttlSeconds =>
      obtain ⟨request, answer, hkey, hvalue, hcomputed, hkeeps⟩ := h
      exact ⟨request, answer, hkey, hvalue, hcomputed.mono (did_mono hm), hkeeps.mono (did_mono hm)⟩
  | respond user request answer =>
      obtain ⟨hgranted, hcomputed | ⟨t, text, hgot, hparse⟩⟩ := h
      · exact ⟨hgranted, .inl (hcomputed.mono (did_mono hm))⟩
      · exact ⟨hgranted, .inr ⟨t, text, hm hgot, hparse⟩⟩
  | _ => trivial

theorem permits_turn (m : Mode) : (history (permits parseDate)).pre m .turn := trivial

theorem guarantees_call {e : Op} (he : permits parseDate m e) :
    Guarantees (history (permits parseDate)) (fun m' r => m ≤ m' ∧ did m' e r) m (perform e) :=
  guarantees_perform he fun r => ⟨m.le_then e r, m.mem_then e r⟩

theorem guarantees_orThrow {answer : Except Unit α} {Q : Mode → α → Prop} (h : ∀ a, answer = .ok a → Q m a) :
    Guarantees (history (permits parseDate)) Q m (orThrow answer) := by
  cases answer with
  | ok a => exact guarantees_pure (h a rfl)
  | error e => exact guarantees_throw _

theorem guarantees_find (query : Query) :
    Guarantees (history (permits parseDate)) (fun m' rows => m ≤ m' ∧ did m' (.find query) (.ok rows)) m (find query) := by
  apply (guarantees_call (e := .find query) trivial).bind
  rintro m' answer ⟨hm, hdid⟩
  apply guarantees_orThrow
  rintro rows rfl
  exact ⟨hm, hdid⟩

theorem guarantees_todayISO : Guarantees (history (permits parseDate))
    (fun m' today => m ≤ m' ∧ ∃ now, did m' .now now ∧ today = dateKey now) m todayISO := by
  apply (guarantees_call (e := .now) trivial).bind
  rintro m' now ⟨hm, hdid⟩
  exact guarantees_pure ⟨hm, now, hdid, rfl⟩

/-- The conditions on a result that is computed. -/
def Result (parseDate : String → Option Int) (request : Request) (m : Mode) (result : Value × Option Nat) : Prop :=
  Computed parseDate (did m) request result.1 ∧ ∀ ttlSeconds ∈ result.2, request.Keeps (did m) ttlSeconds

/-- What a request is answered. -/
def Answered (parseDate : String → Option Int) (request : Request) (m : Mode) (answer : Value) : Prop :=
  Computed parseDate (did m) request answer ∨ Got (did m) request answer

/-- **A result that is kept**, whatever is computed. -/
theorem guarantees_cached (request : Request) {compute : Method (Value × Option Nat)}
    (h : ∀ m', m ≤ m' → Guarantees (history (permits parseDate)) (Result parseDate request) m' compute) :
    Guarantees (history (permits parseDate)) (Answered parseDate request) m (cached request.key compute) := by
  apply (guarantees_call (e := .get request.key) trivial).bind
  rintro m₁ ⟨t, kept⟩ ⟨hm, hget⟩
  apply Guarantees.bind (Q := fun m₂ text => m₂ = m₁ ∧ kept = .ok text)
  · apply guarantees_orThrow
    intro text htext
    exact ⟨rfl, htext⟩
  rintro m₂ text ⟨rfl, rfl⟩
  cases hfilter : text.filter fun text => text ≠ "" with
  | some found =>
      obtain ⟨rfl, -⟩ := Option.filter_eq_some_iff.mp hfilter
      dsimp only
      cases hparse : Value.parse found with
      | none => exact guarantees_throw _
      | some answer => exact guarantees_pure (.inr ⟨t, found, hget, hparse⟩)
  | none =>
      apply (h m₂ hm).bind
      rintro m₃ ⟨answer, ttl⟩ ⟨hcomputed, hkeeps⟩
      cases ttl with
      | none => exact guarantees_pure (.inl hcomputed)
      | some ttlSeconds =>
          have hset : permits parseDate m₃ (.set request.key answer.stringify ttlSeconds) :=
            ⟨request, answer, rfl, rfl, hcomputed, hkeeps ttlSeconds rfl⟩
          apply (guarantees_call hset).bind
          rintro m₄ ⟨t', done⟩ ⟨hm', -⟩
          apply Guarantees.bind (Q := fun m₅ _ => m₅ = m₄)
          · apply guarantees_orThrow
            intro _ _
            rfl
          · rintro m₅ - rfl
            exact guarantees_pure (.inl (hcomputed.mono (did_mono hm')))

/-! ### The services -/

/-- What is known of a query stays so. -/
theorem upward_did {e : Op} {β : Type} {reply : β → e.Reply} :
    Upward fun (m' : Mode) (b : β) => m ≤ m' ∧ did m' e (reply b) :=
  fun _ _ _ hm h => ⟨h.1.trans hm, did_mono hm _ _ h.2⟩

theorem guarantees_validRange (from_ to_ : String) : Guarantees (history (permits parseDate))
    (fun m' range => m' = m ∧ instants parseDate from_ to_ = some range) m (validRange parseDate from_ to_) := by
  unfold validRange
  cases instants parseDate from_ to_ with
  | none => exact guarantees_throw _
  | some range => exact guarantees_pure ⟨rfl, rfl⟩

theorem guarantees_getProductivity (userId : Option String) (organizationId : Uuid) (from_ to_ : String) :
    Guarantees (history (permits parseDate))
      (Answered parseDate (.productivity userId organizationId from_ to_)) m
      (getProductivity parseDate userId organizationId from_ to_) := by
  apply guarantees_todayISO.bind
  rintro m₁ today ⟨-, clock, hclock, rfl⟩
  apply guarantees_cached (.productivity userId organizationId from_ to_)
  intro m₂ hm₂
  apply (guarantees_validRange from_ to_).bind
  rintro m₃ range ⟨rfl, hrange⟩
  apply (Guarantees.both permits_monotone permits_turn upward_did upward_did (guarantees_find _)
    (guarantees_find _)).bind
  rintro m₄ ⟨attendances, activities⟩ ⟨⟨hm₄, hatt⟩, -, hact⟩
  apply (guarantees_call (e := .now) trivial).bind
  rintro m₅ now ⟨hm₅, hnow⟩
  apply guarantees_pure
  constructor
  · refine ⟨⟨now, attendances, activities, []⟩,
      ⟨range, hrange, did_mono hm₅ _ _ hatt, did_mono hm₅ _ _ hact, hnow, rfl⟩, ?_⟩
    simp only [Request.result, hrange, Option.map_some, Option.getD_some]
  · rintro _ ⟨⟩
    exact ⟨clock, did_mono (hm₂.trans (hm₄.trans hm₅)) _ _ hclock, rfl⟩

theorem guarantees_getAppUsage (userId : Option String) (organizationId : Uuid) (from_ to_ : String) :
    Guarantees (history (permits parseDate))
      (Answered parseDate (.appUsage userId organizationId from_ to_)) m
      (getAppUsage parseDate userId organizationId from_ to_) := by
  apply guarantees_todayISO.bind
  rintro m₁ today ⟨-, clock, hclock, rfl⟩
  apply guarantees_cached (.appUsage userId organizationId from_ to_)
  intro m₂ hm₂
  apply (guarantees_validRange from_ to_).bind
  rintro m₃ range ⟨rfl, hrange⟩
  apply (guarantees_find _).bind
  rintro m₄ activities ⟨hm₄, hact⟩
  have hfinds : (Request.appUsage userId organizationId from_ to_).Finds parseDate (did m₄) ⟨0, [], activities, []⟩ :=
    ⟨range, hrange, hact, rfl, rfl⟩
  dsimp only
  split
  next hzero =>
    apply guarantees_pure
    exact ⟨⟨_, hfinds, by simp only [Request.result, if_pos hzero]⟩, fun _ h => absurd h (Option.not_mem_none _)⟩
  next hzero =>
    apply guarantees_pure
    refine ⟨⟨_, hfinds, by simp only [Request.result, if_neg hzero]⟩, ?_⟩
    rintro _ ⟨⟩
    exact ⟨clock, did_mono (hm₂.trans hm₄) _ _ hclock, rfl⟩

theorem guarantees_getProductivityReport (organizationId : Uuid) (userId : Option String) (from_ to_ : String) :
    Guarantees (history (permits parseDate)) (Answered parseDate (.report organizationId userId from_ to_)) m
      (getProductivityReport organizationId userId from_ to_) := by
  apply guarantees_cached (.report organizationId userId from_ to_)
  intro m₁ _
  apply (guarantees_call (e := .find _) trivial).bind
  rintro m₂ rows ⟨-, hact⟩
  apply guarantees_pure
  refine ⟨⟨⟨0, [], rows.toOption.getD [], []⟩, ⟨rows, hact, rfl, rfl, rfl⟩, rfl⟩, ?_⟩
  rintro _ ⟨⟩
  rfl

theorem exists_zip {X B A : Type} {R : X → B → Prop} {g : X → B → A} {xs : List X} {as : List A}
    (h : List.Forall₂ (fun x a => ∃ b, R x b ∧ a = g x b) xs as) :
    ∃ ps : List (X × B), ps.map Prod.fst = xs ∧ (∀ p ∈ ps, R p.1 p.2) ∧ as = ps.map fun p => g p.1 p.2 := by
  induction h with
  | nil => exact ⟨[], rfl, nofun, rfl⟩
  | @cons x a xs as hx _ ih =>
      obtain ⟨b, hb, rfl⟩ := hx
      obtain ⟨ps, rfl, hps, rfl⟩ := ih
      exact ⟨(x, b) :: ps, rfl, List.forall_mem_cons.mpr ⟨hb, hps⟩, rfl⟩

theorem guarantees_getLiveStatus (organizationId : Uuid) :
    Guarantees (history (permits parseDate)) (Answered parseDate (.live organizationId)) m
      (getLiveStatus organizationId) := by
  apply guarantees_cached (.live organizationId)
  intro m₁ _
  apply (guarantees_call (e := .now) trivial).bind
  rintro m₂ now ⟨-, hnow⟩
  apply (guarantees_find _).bind
  rintro m₃ activeDevices ⟨hm₃, hdevices⟩
  have hall : Guarantees (history (permits parseDate)) (fun m' rows => List.Forall₂ (fun device row => ∃ last,
      did m' (.find (.lastActivity device.1.id organizationId.text)) (.ok last) ∧ row = liveDevice device last)
      activeDevices rows) m₃ (togetherAll (activeDevices.map fun device => do
        let lastActivity ← find (.lastActivity device.1.id organizationId.text)
        return liveDevice device lastActivity)) := by
    apply Guarantees.all permits_monotone permits_turn
    · rintro device m m' row hm ⟨last, hlast, hrow⟩
      exact ⟨last, did_mono hm _ _ hlast, hrow⟩
    · intro device _
      apply (guarantees_find _).bind
      rintro m₄ last ⟨-, hlast⟩
      exact guarantees_pure ⟨last, hlast, rfl⟩
  apply (hall.and_of_upward permits_monotone (fun _ _ h h' => le_trans h' h) (le_refl m₃)).bind
  rintro m₄ result ⟨hresult, hm₄⟩
  obtain ⟨devices, rfl, hlast, rfl⟩ := exists_zip hresult
  apply guarantees_pure
  refine ⟨⟨⟨now, [], [], devices⟩,
    ⟨did_mono (hm₃.trans hm₄) _ _ hnow, did_mono hm₄ _ _ hdevices, hlast, rfl, rfl⟩, rfl⟩, ?_⟩
  rintro _ ⟨⟩
  rfl

theorem guarantees_serve (request : Request) :
    Guarantees (history (permits parseDate)) (Answered parseDate request) m (request.serve parseDate) := by
  cases request with
  | productivity userId organizationId from_ to_ => exact guarantees_getProductivity userId organizationId from_ to_
  | appUsage userId organizationId from_ to_ => exact guarantees_getAppUsage userId organizationId from_ to_
  | report organizationId userId from_ to_ => exact guarantees_getProductivityReport organizationId userId from_ to_
  | live organizationId => exact guarantees_getLiveStatus organizationId

/-! ### The controllers -/

theorem targetUserId_employee {user : User} (h : user.role = .employee) (userId : Option String) :
    targetUserId user userId = some user.id.text := if_pos h

theorem guarantees_orToday (from_ : Option String) :
    Guarantees (history (permits parseDate)) (fun _ _ => True) m (orToday from_) := by
  cases from_ with
  | some from_ => exact guarantees_pure trivial
  | none => exact guarantees_todayISO.mono fun _ _ _ => trivial

/-- **What a user may ask for.** -/
theorem guarantees_route (user : User) (call : Call) :
    Guarantees (history (permits parseDate)) (fun _ request => Granted user request) m (route user call) := by
  cases call with
  | getProductivity from_ to_ userId =>
      apply (guarantees_orToday from_).bind
      intro m' from_ _
      exact guarantees_pure ⟨rfl, fun h => targetUserId_employee h userId⟩
  | getAppUsage from_ to_ userId =>
      apply (guarantees_orToday from_).bind
      intro m' from_ _
      exact guarantees_pure ⟨rfl, fun h => targetUserId_employee h userId⟩
  | getProductivityReport from_ to_ userId => exact guarantees_pure ⟨rfl, fun h => targetUserId_employee h _⟩
  | getLiveStatus =>
      unfold route
      split_ifs with hrole
      · refine guarantees_pure ⟨rfl, fun h => ?_⟩
        rw [h] at hrole
        exact absurd hrole (by decide)
      · exact guarantees_throw _

theorem follows_handle (user : User) (call : Call) :
    Follows (history (permits parseDate)) (fun _ _ => True) m (handle parseDate user call) := by
  have hanswer : Guarantees (history (permits parseDate))
      (fun m' (r : Request × Value) => Granted user r.1 ∧ Answered parseDate r.1 m' r.2) m (do
        let request ← route user call
        let answer ← request.serve parseDate
        return (request, answer)) := by
    apply (guarantees_route user call).bind
    intro m₁ request hgranted
    apply (guarantees_serve request).bind
    intro m₂ answer hanswer
    exact guarantees_pure ⟨hgranted, hanswer⟩
  apply Follows.bind hanswer
  intro m' result hresult
  cases result with
  | error e => exact trivial
  | ok r =>
      obtain ⟨request, answer⟩ := r
      exact ⟨hresult _ rfl, fun _ _ _ => trivial⟩

end

/-! ## Keys -/

/-- The first two characters of a text, and what they are when it begins with another. -/
def head2 (s : String) : List Char := s.toList.take 2

theorem head2_append {a : String} (h : 2 ≤ a.toList.length) (s : String) : head2 (a ++ s) = head2 a := by
  rw [head2, String.toList_append, List.take_append_of_le_length h, head2]

/-- The kinds of requests. -/
inductive Kind where
  | productivity
  | appUsage
  | report
  | live
deriving DecidableEq

def Request.kind : Request → Kind
  | .productivity _ _ _ _ => .productivity
  | .appUsage _ _ _ _ => .appUsage
  | .report _ _ _ _ => .report
  | .live _ => .live

/-- What the keys of a kind begin with. -/
def Kind.tag : Kind → String
  | .productivity => "productivity:"
  | .appUsage => "appusage:"
  | .report => "analytics:report:"
  | .live => "live:v2:"

theorem Kind.length_tag (kind : Kind) : 2 ≤ kind.tag.toList.length := by
  cases kind <;> decide +kernel

theorem Kind.tag_inj {kind kind' : Kind} (h : head2 kind.tag = head2 kind'.tag) : kind = kind' := by
  revert h
  cases kind <;> cases kind' <;> decide +kernel

/-- What the keys have after the organization. -/
def Request.rest : Request → String
  | .productivity userId _ from_ to_ => ":" ++ from_ ++ ":" ++ to_ ++ ":" ++ userId.getD "all"
  | .appUsage userId _ from_ to_ => ":" ++ from_ ++ ":" ++ to_ ++ ":" ++ userId.getD "all"
  | .report _ userId from_ to_ => ":" ++ userId.getD "all" ++ ":" ++ (from_ ++ ":" ++ to_)
  | .live _ => ""

theorem Request.key_eq (request : Request) :
    request.key = request.kind.tag ++ (request.organizationId.text ++ request.rest) := by
  cases request with
  | productivity userId organizationId from_ to_ =>
      show productivityKey userId organizationId from_ to_ =
        "productivity:" ++ (organizationId.text ++ (":" ++ _ ++ _ ++ _ ++ _ ++ _))
      unfold productivityKey
      simp only [String.append_assoc]
  | appUsage userId organizationId from_ to_ =>
      show appUsageKey userId organizationId from_ to_ =
        "appusage:" ++ (organizationId.text ++ (":" ++ _ ++ _ ++ _ ++ _ ++ _))
      unfold appUsageKey
      simp only [String.append_assoc]
  | report organizationId userId from_ to_ =>
      show reportKey organizationId userId from_ to_ =
        "analytics:report:" ++ (organizationId.text ++ (":" ++ _ ++ _ ++ (_ ++ _ ++ _)))
      unfold reportKey
      simp only [String.append_assoc]
  | live organizationId =>
      show liveKey organizationId = "live:v2:" ++ (organizationId.text ++ "")
      unfold liveKey
      rw [String.append_empty]

theorem Request.kind_eq {request request' : Request} (h : request.key = request'.key) :
    request.kind = request'.kind := by
  apply Kind.tag_inj
  rw [← head2_append request.kind.length_tag, ← request.key_eq, h, request'.key_eq,
    head2_append request'.kind.length_tag]

/-- Requests with one key are for one organization, and the rest of the key is the same. -/
theorem Request.key_inj {request request' : Request} (h : request.key = request'.key) :
    request.organizationId = request'.organizationId ∧ request.rest = request'.rest := by
  have hkind := kind_eq h
  rw [request.key_eq, request'.key_eq, hkind] at h
  obtain ⟨horg, hrest⟩ := append_inj_of_length (by rw [Uuid.length, Uuid.length]) (append_inj_of_length rfl h).2
  exact ⟨Uuid.ext_text horg, hrest⟩

theorem OtherKey.text_ne (other : OtherKey) (request : Request) : other.text ≠ request.key := by
  obtain ⟨tag, s, htext, htag⟩ : ∃ tag s, other.text = tag ++ s ∧
      tag ∈ ["token:", "blacklist:", "agentauth:v2:", "bw:", "egress:monthly:"] := by
    cases other <;> simp only [OtherKey.text, String.append_assoc] <;> exact ⟨_, _, rfl, by decide +kernel⟩
  intro h
  have hlength : ∀ tag ∈ ["token:", "blacklist:", "agentauth:v2:", "bw:", "egress:monthly:"],
      2 ≤ tag.toList.length := by decide +kernel
  have hother : ∀ tag ∈ ["token:", "blacklist:", "agentauth:v2:", "bw:", "egress:monthly:"],
      head2 tag ∉ [head2 "productivity:", head2 "appusage:", head2 "analytics:report:", head2 "live:v2:"] := by
    decide +kernel
  apply hother tag htag
  rw [← head2_append (hlength tag htag) s, ← htext, h, request.key_eq, head2_append request.kind.length_tag]
  cases request.kind <;> decide +kernel

theorem colon_notMem (id : Uuid) : ':' ∉ id.text.toList :=
  fun h => absurd (id.uuidChar_of_mem h) (by decide)

theorem eq_of_before {x y : List Char} (hx : ':' ∉ x) (hy : ':' ∉ y) {s t : List Char}
    (h : x ++ ':' :: s = y ++ ':' :: t) : x = y := by
  induction x generalizing y with
  | nil =>
      cases y with
      | nil => rfl
      | cons c y => exact absurd (List.cons.inj h).1 fun heq => hy (heq ▸ List.mem_cons_self)
  | cons c x ih =>
      cases y with
      | nil => exact absurd (List.cons.inj h).1 fun heq => hx (heq ▸ List.mem_cons_self)
      | cons d y =>
          obtain ⟨rfl, hrest⟩ := List.cons.inj h
          rw [ih (fun hmem => hx (List.mem_cons_of_mem _ hmem)) (fun hmem => hy (List.mem_cons_of_mem _ hmem)) hrest]

theorem eq_of_after {x y : List Char} (hx : ':' ∉ x) (hy : ':' ∉ y) {s t : List Char}
    (h : s ++ ':' :: x = t ++ ':' :: y) : x = y := by
  have hreverse := congrArg List.reverse h
  simp only [List.reverse_append, List.reverse_cons, List.append_assoc, List.singleton_append] at hreverse
  exact List.reverse_injective (eq_of_before (by rwa [List.mem_reverse]) (by rwa [List.mem_reverse]) hreverse)

/-- The user whom a key names, unless a text with a colon stands there. -/
def SameUser (id : Uuid) (userId : Option String) : Prop :=
  userId = some id.text ∨ ∃ text, userId = some text ∧ ':' ∈ text.toList

theorem sameUser_of_text {id : Uuid} {userId : Option String}
    (h : ':' ∉ (userId.getD "all").toList → id.text = userId.getD "all") : SameUser id userId := by
  by_cases hcolon : ':' ∈ (userId.getD "all").toList
  · cases userId with
    | none => exact absurd hcolon (by decide)
    | some text => exact .inr ⟨text, rfl, hcolon⟩
  · have htext := h hcolon
    cases userId with
    | none =>
        have hlength := id.length
        rw [htext] at hlength
        exact absurd hlength (by decide)
    | some text => exact .inl (congrArg some htext.symm)

theorem toList_colon (s t : String) : (s ++ ":" ++ t).toList = s.toList ++ ':' :: t.toList := by
  rw [String.toList_append, String.toList_append, List.append_assoc]
  rfl

theorem sameUser_of_after {id : Uuid} {userId : Option String} {s t : String}
    (h : s ++ ":" ++ id.text = t ++ ":" ++ userId.getD "all") : SameUser id userId := by
  apply sameUser_of_text
  intro hcolon
  have hchars := congrArg String.toList h
  rw [toList_colon, toList_colon] at hchars
  exact String.toList_inj.mp (eq_of_after (colon_notMem id) hcolon hchars)

/-- **The user whom a key names.** -/
theorem key_userId {request request' : Request} (h : request.key = request'.key) {id : Uuid}
    (hid : request.userId = some id.text) : SameUser id request'.userId := by
  have hkind := Request.kind_eq h
  have hrest := (Request.key_inj h).2
  cases request with
  | productivity userId organizationId from_ to_ =>
      obtain rfl : userId = some id.text := hid
      cases request' with
      | productivity userId' organizationId' from_' to_' => exact sameUser_of_after hrest
      | _ => exact absurd hkind nofun
  | appUsage userId organizationId from_ to_ =>
      obtain rfl : userId = some id.text := hid
      cases request' with
      | appUsage userId' organizationId' from_' to_' => exact sameUser_of_after hrest
      | _ => exact absurd hkind nofun
  | report organizationId userId from_ to_ =>
      obtain rfl : userId = some id.text := hid
      cases request' with
      | report organizationId' userId' from_' to_' =>
          apply sameUser_of_text
          intro hcolon
          have hfirst : ∀ s : String, (":" ++ s).toList = ':' :: s.toList := by
            intro s
            rw [String.toList_append]
            rfl
          have hchars : (":" ++ id.text ++ ":" ++ (from_ ++ ":" ++ to_)).toList =
              (":" ++ userId'.getD "all" ++ ":" ++ (from_' ++ ":" ++ to_')).toList := congrArg String.toList hrest
          rw [toList_colon (":" ++ _), toList_colon (":" ++ _), hfirst, hfirst] at hchars
          exact String.toList_inj.mp (eq_of_before (colon_notMem id) hcolon (List.cons.inj hchars).2)
      | _ => exact absurd hkind nofun
  | live organizationId => cases hid

/-! ## What the store has -/

section
variable {ι : Type}

/-- The text was kept under the key by another service, or by a request, for a time that ends then. -/
def Kept (tr : List (Performed ι Op Op.Reply)) (key text : String) (expiresAt : Option Int) : Prop :=
  (∃ other : OtherKey, other.text = key) ∨
    ∃ j t r ttlSeconds, ((j, ⟨.set key text ttlSeconds, (t, r)⟩) : Performed ι Op Op.Reply) ∈ tr ∧
      expiresAt = expiry t (some ttlSeconds)

theorem Kept.mono {tr tr' : List (Performed ι Op Op.Reply)} {key text : String} {expiresAt : Option Int}
    (h : Kept tr key text expiresAt) (htr : tr ⊆ tr') : Kept tr' key text expiresAt := by
  rcases h with hother | ⟨j, t, r, ttlSeconds, hmem, hexpires⟩
  · exact .inl hother
  · exact .inr ⟨j, t, r, ttlSeconds, htr hmem, hexpires⟩

/-- What a request gets was kept before, and for a time that has not ended. -/
def GotKept (before : List (Performed ι Op Op.Reply)) (p : Performed ι Op Op.Reply) : Prop :=
  ∀ i key t text, p = (i, ⟨.get key, (t, .ok (some text))⟩) →
    ∃ expiresAt, Kept before key text expiresAt ∧ ∀ at_ ∈ expiresAt, t ≤ at_

theorem gotKept_of_ne {before : List (Performed ι Op Op.Reply)} {i : ι} {e : Op} {r : e.Reply}
    (h : ∀ key, e ≠ .get key) : GotKept before (i, ⟨e, r⟩) := by
  intro i' key t text heq
  exact absurd (Sigma.mk.inj (Prod.mk.inj heq).2).1 (h key)

theorem kept_exec {tr : List (Performed ι Op Op.Reply)} {mem mem' : Mem String} {ch : Choice} {i : ι} {e : Op}
    {r : e.Reply} (h : ∀ key entry, mem key = some entry → Kept tr key entry.value entry.expiresAt)
    (hexec : exec ch e mem = some (r, mem')) :
    GotKept tr (i, ⟨e, r⟩) ∧ ∀ key entry, mem' key = some entry →
      Kept (tr ++ [(i, ⟨e, r⟩)]) key entry.value entry.expiresAt := by
  have hmono : tr ⊆ tr ++ [((i, ⟨e, r⟩) : Performed ι Op Op.Reply)] := List.subset_append_left _ _
  have keep : mem' = mem → ∀ key entry, mem' key = some entry →
      Kept (tr ++ [((i, ⟨e, r⟩) : Performed ι Op Op.Reply)]) key entry.value entry.expiresAt := by
    rintro rfl key entry hentry
    exact (h key entry hentry).mono hmono
  cases e with
  | get key =>
      obtain ⟨rfl, rfl⟩ := Prod.mk.inj (Option.some.inj hexec)
      constructor
      · rintro i' key' t text heq
        obtain ⟨-, heq⟩ := Prod.mk.inj heq
        obtain ⟨hkey, heq⟩ := Sigma.mk.inj heq
        obtain rfl := Op.get.inj hkey
        obtain ⟨rfl, hanswer⟩ := Prod.mk.inj (eq_of_heq heq)
        rcases Outcome.answer_cases (Prod.mk.eta (p := ch.outcome.answer () (mem.get ch.now key) mem _)).symm with
          ⟨-, hok⟩ | ⟨herror, -⟩
        · obtain ⟨entry, hentry, rfl, hexpires⟩ := Mem.get_eq_some (Except.ok.inj (hok.symm.trans hanswer))
          exact ⟨entry.expiresAt, h key entry hentry, hexpires⟩
        · exact absurd (herror.symm.trans hanswer) nofun
      · intro key' entry hentry
        apply Kept.mono _ hmono
        apply h
        rcases Outcome.answer_cases (Prod.mk.eta (p := ch.outcome.answer () (mem.get ch.now key) mem _)).symm with
          ⟨hmem, -⟩ | ⟨-, hmem | hmem⟩
        · exact Mem.afterGet_eq_some (hmem ▸ hentry)
        · exact hmem ▸ hentry
        · exact Mem.afterGet_eq_some (hmem ▸ hentry)
  | set key value ttlSeconds =>
      obtain ⟨rfl, rfl⟩ := Prod.mk.inj (Option.some.inj hexec)
      refine ⟨gotKept_of_ne nofun, fun key' entry hentry => ?_⟩
      have stored : ∀ mem' : Mem String, mem' = mem.set ch.now key value (some ttlSeconds) → mem' key' = some entry →
          Kept (tr ++ [(i, ⟨.set key value ttlSeconds,
            (ch.now, (ch.outcome.answer () () mem (mem.set ch.now key value (some ttlSeconds))).1)⟩)])
            key' entry.value entry.expiresAt := by
        rintro _ rfl hset
        rcases Mem.set_eq_some hset with ⟨rfl, rfl⟩ | ⟨-, hold⟩
        · exact .inr ⟨i, ch.now, _, ttlSeconds, List.mem_append_right _ List.mem_cons_self, rfl⟩
        · exact (h key' entry hold).mono hmono
      rcases Outcome.answer_cases (Prod.mk.eta (p := ch.outcome.answer () () mem _)).symm with
        ⟨hmem, -⟩ | ⟨-, hmem | hmem⟩
      · exact stored _ hmem hentry
      · exact (h key' entry (hmem ▸ hentry)).mono hmono
      · exact stored _ hmem hentry
  | find query =>
      refine ⟨gotKept_of_ne nofun, keep ?_⟩
      simp only [exec] at hexec
      split at hexec <;> exact (Prod.mk.inj (Option.some.inj hexec)).2.symm
  | now => exact ⟨gotKept_of_ne nofun, keep (Prod.mk.inj (Option.some.inj hexec)).2.symm⟩
  | turn => exact ⟨gotKept_of_ne nofun, keep (Prod.mk.inj (Option.some.inj hexec)).2.symm⟩
  | respond user request answer => exact ⟨gotKept_of_ne nofun, keep (Prod.mk.inj (Option.some.inj hexec)).2.symm⟩

variable [DecidableEq ι] {parseDate : String → Option Int} {c : Config ι Op Op.Reply (Mem String)}

/-- **What is got was kept**, and its time has not ended. -/
theorem gotKept_of_reaches (h : Reaches (reports parseDate) (fun _ _ => True) (Config.start fun _ => none) c) :
    ∀ before p after, c.trace = before ++ p :: after → GotKept before p := by
  have hinv : (∀ key entry, c.world key = some entry → Kept c.trace key entry.value entry.expiresAt) ∧
      ∀ before p after, c.trace = before ++ p :: after → GotKept before p := by
    induction h with
    | start =>
        refine ⟨nofun, fun before p after heq => ?_⟩
        exact absurd heq.symm (List.append_ne_nil_of_right_ne_nil before (List.cons_ne_nil _ _))
    | @next c c' a _ _ hn ih =>
        obtain ⟨hkept, hall⟩ := ih
        rcases System.next_cases hn with ⟨i, j, mem, rfl, -, hadmits, rfl⟩ | ⟨i, ch, e, k, r, mem, rfl, -, hexec, rfl⟩
        · refine ⟨fun key entry hentry => ?_, hall⟩
          cases j with
          | call user call =>
              obtain rfl := Option.some.inj hadmits
              exact hkept key entry hentry
          | other other value ttlSeconds now =>
              obtain rfl := Option.some.inj hadmits
              rcases Mem.set_eq_some hentry with ⟨rfl, -⟩ | ⟨-, hold⟩
              · exact .inl ⟨other, rfl⟩
              · exact hkept key entry hold
          | lose key' =>
              obtain rfl := Option.some.inj hadmits
              exact hkept key entry (Mem.del_eq_some hentry).2
        · obtain ⟨hgot, hnew⟩ := kept_exec hkept hexec
          exact ⟨hnew, Memo.forall_split_concat.mpr ⟨hall, hgot⟩⟩
  exact hinv.2

/-! ## Runs -/

/-- What a request has done, and what it was answered. -/
def doneBy (tr : List (Performed ι Op Op.Reply)) (j : ι) : Did := fun e r => (j, ⟨e, r⟩) ∈ tr

theorem permitted_of_reaches (h : Reaches (reports parseDate) (fun _ _ => True) (Config.start fun _ => none) c) :
    ∀ before p after, c.trace = before ++ p :: after → Called (permits parseDate) before p := by
  apply called_of_reaches _ h
  intro j
  cases j with
  | call user call => exact follows_handle user call
  | _ => exact trivial

theorem Request.Keeps.expiry {did : Did} {request : Request} {ttlSeconds : Nat} (h : request.Keeps did ttlSeconds)
    (t : Int) : expiry t (some ttlSeconds) = some (t + ttlSeconds * 1000) := by
  have hpos : 0 < ttlSeconds := by
    cases request with
    | productivity userId organizationId from_ to_ =>
        obtain ⟨now, -, rfl⟩ := h
        unfold rangeTtl
        split_ifs <;> decide
    | appUsage userId organizationId from_ to_ =>
        obtain ⟨now, -, rfl⟩ := h
        unfold rangeTtl
        split_ifs <;> decide
    | report organizationId userId from_ to_ =>
        obtain rfl : ttlSeconds = 300 := h
        decide
    | live organizationId =>
        obtain rfl : ttlSeconds = 30 := h
        decide
  cases ttlSeconds with
  | zero => exact absurd hpos (Nat.lt_irrefl 0)
  | succ n => rfl

/-- The request of an answer, or one that kept it under the same key, had it computed. -/
theorem computed_of_reaches (h : Reaches (reports parseDate) (fun _ _ => True) (Config.start fun _ => none) c)
    {before after : List (Performed ι Op Op.Reply)} {i : ι} {user : User} {request : Request} {answer : Value} {r : Unit}
    (hc : c.trace = before ++ (i, ⟨.respond user request answer, r⟩) :: after) :
    Granted user request ∧ ∃ j request', request'.key = request.key ∧ Computed parseDate (doneBy before j) request' answer ∧
      (j = i ∧ request' = request ∨ ∃ earlier later t t' ttlSeconds r',
        before = earlier ++ (i, ⟨.get request.key, (t, .ok (some answer.stringify))⟩) :: later ∧
        doneBy earlier j (.set request.key answer.stringify ttlSeconds) (t', r') ∧
        request'.Keeps (doneBy earlier j) ttlSeconds ∧ t ≤ t' + ttlSeconds * 1000) := by
  obtain ⟨m, ⟨hgranted, hanswer⟩, hdone⟩ := permitted_of_reaches h before _ after hc
  refine ⟨hgranted, ?_⟩
  rcases hanswer with hcomputed | ⟨t, text, hget, hparse⟩
  · exact ⟨i, request, rfl, hcomputed.mono fun e r => hdone _, .inl ⟨rfl, rfl⟩⟩
  · -- the answer was got from the store, where it was set before
    obtain ⟨before₁, after₁, rfl⟩ := List.append_of_mem (hdone _ hget)
    rw [List.append_assoc, List.cons_append] at hc
    obtain ⟨expiresAt, hkept, hexpires⟩ := gotKept_of_reaches h before₁ _ _ hc i request.key t text rfl
    rcases hkept with ⟨other, hother⟩ | ⟨j, t', r', ttlSeconds, hset, rfl⟩
    · exact absurd hother (other.text_ne request)
    obtain ⟨before₂, after₂, rfl⟩ := List.append_of_mem hset
    rw [List.append_assoc, List.cons_append] at hc
    obtain ⟨m', ⟨request', answer', hkey, rfl, hcomputed, hkeeps⟩, hdone'⟩ := permitted_of_reaches h before₂ _ _ hc
    obtain rfl : answer' = answer := Option.some.inj ((parse_stringify answer').symm.trans hparse)
    have hmono : ∀ e r, did m' e r →
        doneBy (before₂ ++ (j, ⟨.set request.key answer'.stringify ttlSeconds, (t', r')⟩) :: after₂) j e r :=
      fun e r hdid => List.mem_append_left _ (hdone' _ hdid)
    refine ⟨j, request', hkey.symm, hcomputed.mono fun e r hdid => List.mem_append_left _ (hmono e r hdid),
      .inr ⟨_, after₁, t, t', ttlSeconds, r', rfl, ?_, hkeeps.mono hmono, hexpires _ (hkeeps.expiry t')⟩⟩
    exact List.mem_append_right _ List.mem_cons_self

def acme : Uuid := ⟨"00000000-0000-0000-0000-00000000000a", by decide +kernel, by decide +kernel⟩

def ana : User := ⟨⟨"11111111-1111-1111-1111-11111111111a", by decide +kernel, by decide +kernel⟩, acme, .employee⟩

def editing : Event where
  userId := "11111111-1111-1111-1111-11111111111a"
  organizationId := "00000000-0000-0000-0000-00000000000a"
  appName := "vscode"
  startedAt := 1767261600000
  durationSec := 1800
  valid := by decide +kernel
  deviceId := none

/-- A call that ends well at that time, where one event is known. -/
def ends (now : Int) : Choice := ⟨.ok, now, ⟨[], [editing], [], []⟩, true⟩

def noDates : String → Option Int := fun _ => none

/-- An employee asks for a report twice; the second one is what was kept of the first. -/
def asksTwice : List (Act Nat Choice Job) :=
  [.call 0 (.call ana (.getProductivityReport "2026-01-01" "2026-01-01" none)), .step 0 (ends 0), .step 0 (ends 10),
    .step 0 (ends 20), .step 0 (ends 30), .call 1 (.call ana (.getProductivityReport "2026-01-01" "2026-01-01" none)),
    .step 1 (ends 300000), .step 1 (ends 300010)]

def asked : Config Nat Op Op.Reply (Mem String) := (reports noDates).endOf (Config.start fun _ => none) asksTwice

theorem isSome_asked :
    ((reports noDates).play (Config.start fun _ => none : Config Nat Op Op.Reply (Mem String)) asksTwice).isSome = true := by
  decide +kernel

theorem reaches_asked : Reaches (reports noDates) (fun _ _ => True) (Config.start fun _ => none) asked :=
  reaches_endOf (System.allowed_true _ _ _) isSome_asked

def anaReport : Request := .report acme (some ana.id.text) "2026-01-01" "2026-01-01"

/-- Who is answered, and for what request. -/
def answered : Performed Nat Op Op.Reply → Option (Nat × User × Request)
  | (i, ⟨.respond user request _, _⟩) => some (i, user, request)
  | _ => none

theorem exists_of_answered {p : Performed Nat Op Op.Reply} {i : Nat} {user : User} {request : Request}
    (h : answered p = some (i, user, request)) : ∃ answer, p = (i, ⟨.respond user request answer, ()⟩) := by
  obtain ⟨i', e, r⟩ := p
  cases e with
  | respond user' request' answer =>
      obtain ⟨rfl, rfl, rfl⟩ := Prod.mk.inj (Option.some.inj h) |>.imp id Prod.mk.inj
      exact ⟨answer, rfl⟩
  | _ => cases h

theorem asked_trace : ∃ answer, asked.trace = asked.trace.dropLast ++ (1, ⟨.respond ana anaReport answer, ()⟩) :: [] := by
  have hlast : (asked.trace.getLast?.bind answered) = some (1, ana, anaReport) := by decide +kernel
  obtain ⟨p, hp, hanswered⟩ := Option.bind_eq_some_iff.mp hlast
  obtain ⟨answer, rfl⟩ := exists_of_answered hanswered
  exact ⟨answer, (List.dropLast_append_getLast? _ hp).symm⟩

/-- **Where an answer comes from.** It was computed by a request with the same key: this one, or one that had kept it
there when this one got it, no longer before than it is kept. -/
theorem answers_recent (h : Reaches (reports parseDate) (fun _ _ => True) (Config.start fun _ => none) c)
    {before after : List (Performed ι Op Op.Reply)} {i : ι} {user : User} {request : Request} {answer : Value} {r : Unit}
    (hc : c.trace = before ++ (i, ⟨.respond user request answer, r⟩) :: after) :
    ∃ j request', request'.key = request.key ∧ Computed parseDate (doneBy before j) request' answer ∧
      (j = i ∧ request' = request ∨ ∃ earlier later t t' ttlSeconds r',
        before = earlier ++ (i, ⟨.get request.key, (t, .ok (some answer.stringify))⟩) :: later ∧
        doneBy earlier j (.set request.key answer.stringify ttlSeconds) (t', r') ∧
        request'.Keeps (doneBy earlier j) ttlSeconds ∧ t ≤ t' + ttlSeconds * 1000) :=
  (computed_of_reaches h hc).2

theorem answers_recent_twice : ∃ answer,
    asked.trace = asked.trace.dropLast ++ (1, ⟨.respond ana anaReport answer, ()⟩) :: [] ∧
    ∃ j request', request'.key = anaReport.key ∧ Computed noDates (doneBy asked.trace.dropLast j) request' answer ∧
      (j = 1 ∧ request' = anaReport ∨ ∃ earlier later t t' ttlSeconds r',
        asked.trace.dropLast = earlier ++ (1, ⟨.get anaReport.key, (t, .ok (some answer.stringify))⟩) :: later ∧
        doneBy earlier j (.set anaReport.key answer.stringify ttlSeconds) (t', r') ∧
        request'.Keeps (doneBy earlier j) ttlSeconds ∧ t ≤ t' + ttlSeconds * 1000) := by
  obtain ⟨answer, htrace⟩ := asked_trace
  exact ⟨answer, htrace, answers_recent reaches_asked htrace⟩

/-! ### Whose rows -/

/-- A device stands under the organization of its user. -/
def Tables.Registered (tables : Tables) : Prop :=
  ∀ d ∈ tables.agentDevices, ∀ u ∈ tables.users, u.id = d.userId → u.organizationId = d.organizationId

instance (tables : Tables) : Decidable tables.Registered :=
  inferInstanceAs (Decidable (∀ d ∈ tables.agentDevices, ∀ u ∈ tables.users, u.id = d.userId →
    u.organizationId = d.organizationId))

/-- Queries run on tables that registrations have filled. -/
def OnRegistered {ι : Type} (_ : Config ι Op Op.Reply (Mem String)) : Act ι Choice Job → Prop
  | .call _ _ => True
  | .step _ ch => ch.tables.Registered

instance {ι : Type} (c : Config ι Op Op.Reply (Mem String)) : (a : Act ι Choice Job) → Decidable (OnRegistered c a)
  | .call _ _ => isTrue trivial
  | .step _ ch => inferInstanceAs (Decidable ch.tables.Registered)

/-- **They always are.** The devices and the users of the registrations are such tables, in every run of them. -/
theorem registered_of_service {κ : Type} [DecidableEq κ] {start : Registration.UserTable}
    {reg : Registration.Running κ}
    (h : Reaches Registration.service (fun _ _ => True) (Config.start (Registration.Db.start start)) reg)
    {tables : Tables} (husers : tables.users = reg.world.users.rows)
    (hdevices : ∀ d ∈ tables.agentDevices, ∃ a ∈ reg.world.devices, a.userId = d.userId ∧
      a.organizationId = d.organizationId) : tables.Registered := by
  intro d hd u hu hid
  obtain ⟨a, ha, huser, horg⟩ := hdevices d hd
  obtain ⟨v, hv, hvid, hvorg⟩ := Registration.Devices.devices_of_users h a ha
  rw [husers] at hu
  rw [reg.world.users.eq_of_id hu hv (hid.trans (huser.symm.trans hvid.symm)), hvorg, horg]

/-- A row of the organization, and of the user if one is given. -/
def OwnRow (organizationId : Uuid) (userId : Option String) (rowOrganization rowUser : String) : Prop :=
  rowOrganization = organizationId.text ∧ ∀ text ∈ userId, uuidIn text = some rowUser

theorem uuidDigits_chars {n : Nat} {cs ds rest : List Char} (h : uuidDigits n cs = some (ds, rest)) {c : Char}
    (hc : c ∈ cs) : c ∈ rest ∨ Registration.isHexDigit c = true ∨ c = '-' := by
  induction n, cs using uuidDigits.induct generalizing ds with
  | case1 cs =>
      obtain ⟨rfl, rfl⟩ := Prod.mk.inj (Option.some.inj h)
      exact .inl hc
  | case2 n a b after hhex ih =>
      rw [uuidDigits, if_pos hhex] at h
      obtain ⟨⟨ds', rest'⟩, hrest, heq⟩ := Option.map_eq_some_iff.mp h
      obtain ⟨-, rfl⟩ := Prod.mk.inj heq
      obtain ⟨ha, hb⟩ := Bool.and_eq_true_iff.mp hhex
      rcases List.mem_cons.mp hc with rfl | hc
      · exact .inr (.inl ha)
      rcases List.mem_cons.mp hc with rfl | hc
      · exact .inr (.inl hb)
      by_cases hdash : n % 2 = 0 ∧ n ≠ 0 ∧ after.head? = some '-'
      · cases after with
        | nil => exact absurd hc List.not_mem_nil
        | cons d after =>
            obtain rfl : d = '-' := Option.some.inj hdash.2.2
            rcases List.mem_cons.mp hc with rfl | hc
            · exact .inr (.inr rfl)
            · rw [if_pos hdash] at hrest ih
              exact ih hrest hc
      · rw [if_neg hdash] at hrest ih
        exact ih hrest hc
  | case3 n a b after hhex =>
      rw [uuidDigits, if_neg hhex] at h
      cases h
  | case4 n cs hcs =>
      match cs with
      | [] => cases h
      | [a] => cases h
      | a :: b :: after => exact absurd rfl (hcs a b after)

/-- No text with a colon is a UUID. -/
theorem uuidIn_colon {text : String} (h : ':' ∈ text.toList) : uuidIn text = none := by
  have hplain : ∀ {n cs ds rest}, uuidDigits n cs = some (ds, rest) → ':' ∈ cs → ':' ∈ rest := by
    intro n cs ds rest hdigits hmem
    rcases uuidDigits_chars hdigits hmem with hrest | hhex | hdash
    · exact hrest
    · exact absurd hhex (by decide)
    · exact absurd hdash (by decide)
  unfold uuidIn
  split
  next rest heq =>
    split
    next digits hdigits =>
      rw [heq] at h
      have hrest := hplain hdigits ((List.mem_cons.mp h).resolve_left (by decide))
      exact absurd hrest (by decide)
    next => rfl
  next cs _ =>
    split
    next digits hdigits => exact absurd (hplain hdigits h) List.not_mem_nil
    next => rfl

theorem withUser_some {α : Type} {userId : Option String} {rows : Option String → α} {found : α}
    (h : withUser userId rows = some found) :
    ∃ id, found = rows id ∧ ∀ text ∈ userId, ∃ u, uuidIn text = some u ∧ id = some u := by
  cases userId with
  | none => exact ⟨none, (Option.some.inj h).symm, nofun⟩
  | some text =>
      obtain ⟨u, hu, rfl⟩ := Option.map_eq_some_iff.mp h
      refine ⟨some u, rfl, ?_⟩
      rintro _ ⟨⟩
      exact ⟨u, hu, rfl⟩

/-- A row that a query matches, with the user as the database reads it. -/
theorem ownRow_of_matches {organizationId : Uuid} {userId id : Option String} {rowOrganization rowUser : String}
    (horg : rowOrganization = organizationId.text) (huser : id.all (fun u => rowUser == u) = true)
    (hid : ∀ text ∈ userId, ∃ u, uuidIn text = some u ∧ id = some u) :
    OwnRow organizationId userId rowOrganization rowUser := by
  refine ⟨horg, fun text htext => ?_⟩
  obtain ⟨u, hu, rfl⟩ := hid text htext
  rw [hu, beq_iff_eq.mp huser]

theorem attendances_own {tables : Tables} {organizationId : Uuid} {userId : Option String} {range : Int × Int}
    {found : List ClockedIn} (h : (Query.attendances ⟨organizationId.text, userId, range⟩).run tables = some found) :
    ∀ row ∈ found, OwnRow organizationId userId row.organizationId row.userId := by
  have hwith : withUser userId (fun id => tables.attendance.filter
      (⟨organizationId.text, id, range⟩ : AttendanceWhere).matches) = some found := h
  obtain ⟨id, rfl, hid⟩ := withUser_some hwith
  intro row hrow
  have hmatches := (List.mem_filter.mp hrow).2
  simp only [AttendanceWhere.matches, Bool.and_eq_true, beq_iff_eq] at hmatches
  exact ownRow_of_matches hmatches.1.1 hmatches.1.2 hid

theorem activities_own {tables : Tables} {organizationId : Uuid} {userId : Option String} {range : Option (Int × Int)}
    {take : Option Nat} {found : List Event}
    (h : (Query.activities ⟨organizationId.text, userId, range⟩ take).run tables = some found) :
    ∀ row ∈ found, OwnRow organizationId userId row.organizationId row.userId := by
  have hwith : withUser userId (fun id =>
      let rows := tables.activityEvents.filter fun e => (⟨organizationId.text, id, range⟩ : Where).matches e.toActivityEvent
      (take.map rows.take).getD rows) = some found := h
  obtain ⟨id, rfl, hid⟩ := withUser_some hwith
  intro row hrow
  have hfilter : row ∈ tables.activityEvents.filter fun e =>
      (⟨organizationId.text, id, range⟩ : Where).matches e.toActivityEvent := by
    cases take with
    | none => exact hrow
    | some n => exact List.mem_of_mem_take hrow
  have hmatches := (List.mem_filter.mp hfilter).2
  simp only [Where.matches, Bool.and_eq_true, beq_iff_eq] at hmatches
  exact ownRow_of_matches hmatches.1.1 hmatches.1.2 hid

theorem activeDevices_own {tables : Tables} (htables : tables.Registered) {organizationId : Uuid} {since : Int}
    {found : List (Device × Option Registration.User)}
    (h : (Query.activeDevices organizationId.text since).run tables = some found) :
    ∀ d ∈ found, d.1.organizationId = organizationId.text ∧
      ∀ u ∈ d.2, u.id = d.1.userId ∧ u.organizationId = organizationId.text := by
  obtain rfl := Option.some.inj h
  intro d hd
  obtain ⟨device, hdevice, rfl⟩ := List.mem_map.mp hd
  have hrow := List.mem_filter.mp (List.mem_mergeSort.mp hdevice)
  have horg := hrow.2
  simp only [Bool.and_eq_true, beq_iff_eq] at horg
  refine ⟨horg.1.1, fun u hu => ?_⟩
  have hfound := List.find?_some hu
  have hid : u.id = device.userId := of_decide_eq_true hfound
  exact ⟨hid, (htables device hrow.1 u (List.mem_of_find?_eq_some hu) hid).trans horg.1.1⟩

theorem lastActivity_own {tables : Tables} {deviceId : String} {organizationId : Uuid} {found : Option Event}
    (h : (Query.lastActivity deviceId organizationId.text).run tables = some found) :
    ∀ e ∈ found, e.deviceId = some deviceId ∧ e.organizationId = organizationId.text := by
  obtain rfl := Option.some.inj h
  intro e he
  have hrow := (List.mem_filter.mp (List.mem_mergeSort.mp (List.mem_of_mem_head? he))).2
  simpa only [Bool.and_eq_true, beq_iff_eq] using hrow

theorem run_of_found (h : Reaches (reports parseDate) OnRegistered (Config.start fun _ => none) c) {j : ι}
    {query : Query} {rows : query.Reply} (hmem : doneBy c.trace j (.find query) (.ok rows)) :
    ∃ tables : Tables, tables.Registered ∧ query.run tables = some rows := by
  obtain ⟨before, ch, v, hG, hexec⟩ := performed_cases h hmem
  refine ⟨ch.tables, hG, ?_⟩
  simp only [reports, exec] at hexec
  split at hexec
  next rows' _ hrun =>
    obtain ⟨heq, -⟩ := Prod.mk.inj (Option.some.inj hexec)
    rw [hrun, Except.ok.inj heq]
  next =>
    obtain ⟨heq, -⟩ := Prod.mk.inj (Option.some.inj hexec)
    cases heq

/-- What is shown of a device: the row, its user, and the last event of this very device are of the organization. -/
def OwnDevice (organizationId : String) (d : (Device × Option Registration.User) × Option Event) : Prop :=
  d.1.1.organizationId = organizationId ∧
    (∀ u ∈ d.1.2, u.id = d.1.1.userId ∧ u.organizationId = organizationId) ∧
    ∀ e ∈ d.2, e.deviceId = some d.1.1.id ∧ e.organizationId = organizationId

/-- What a request found is of its organization, and of its user if one is given. -/
theorem found_own (h : Reaches (reports parseDate) OnRegistered (Config.start fun _ => none) c) {j : ι}
    {request : Request} {found : Found} (hfinds : request.Finds parseDate (doneBy c.trace j) found) :
    (∀ att ∈ found.attendances, OwnRow request.organizationId (givenUser request.userId) att.organizationId att.userId) ∧
    (∀ e ∈ found.activities, OwnRow request.organizationId (givenUser request.userId) e.organizationId e.userId) ∧
    ∀ d ∈ found.devices, OwnDevice request.organizationId.text d ∧ request.kind = .live := by
  cases request with
  | productivity userId organizationId from_ to_ =>
      obtain ⟨range, -, hatt, hact, -, hdevices⟩ := hfinds
      obtain ⟨tables, -, hrun⟩ := run_of_found h hatt
      obtain ⟨tables', -, hrun'⟩ := run_of_found h hact
      exact ⟨attendances_own hrun, activities_own hrun', hdevices ▸ List.forall_mem_nil _⟩
  | appUsage userId organizationId from_ to_ =>
      obtain ⟨range, -, hact, hatt, hdevices⟩ := hfinds
      obtain ⟨tables, -, hrun⟩ := run_of_found h hact
      exact ⟨hatt ▸ List.forall_mem_nil _, activities_own hrun, hdevices ▸ List.forall_mem_nil _⟩
  | report organizationId userId from_ to_ =>
      obtain ⟨rows, hact, hrows, hatt, hdevices⟩ := hfinds
      refine ⟨hatt ▸ List.forall_mem_nil _, ?_, hdevices ▸ List.forall_mem_nil _⟩
      rw [hrows]
      cases rows with
      | error e => exact List.forall_mem_nil _
      | ok rows =>
          obtain ⟨tables, -, hrun⟩ := run_of_found h hact
          exact activities_own hrun
  | live organizationId =>
      obtain ⟨-, hdev, hlast, hatt, hact⟩ := hfinds
      obtain ⟨tables, htables, hrun⟩ := run_of_found h hdev
      refine ⟨hatt ▸ List.forall_mem_nil _, hact ▸ List.forall_mem_nil _, fun d hd => ⟨?_, rfl⟩⟩
      obtain ⟨tables', -, hrun'⟩ := run_of_found h (hlast d hd)
      obtain ⟨horg, huser⟩ := activeDevices_own htables hrun d.1 (List.mem_map_of_mem hd)
      exact ⟨horg, huser, lastActivity_own hrun'⟩

theorem givenUser_id (id : Uuid) : givenUser (some id.text) = some id.text := by
  rw [givenUser, Option.filter_eq_some_iff]
  refine ⟨rfl, decide_eq_true fun h => ?_⟩
  have hlength := id.length
  rw [h] at hlength
  exact absurd hlength (by decide)

theorem givenUser_colon {text : String} (h : ':' ∈ text.toList) : givenUser (some text) = some text := by
  rw [givenUser, Option.filter_eq_some_iff]
  refine ⟨rfl, decide_eq_true ?_⟩
  rintro rfl
  exact absurd h List.not_mem_nil

/-- The rows that a request with the key of another may find are rows of the user who made the other. -/
theorem own_of_key {user : User} {request request' : Request} (hgranted : Granted user request)
    (hkey : request'.key = request.key) {rowOrganization rowUser : String}
    (hrow : OwnRow request'.organizationId (givenUser request'.userId) rowOrganization rowUser) :
    rowOrganization = user.organizationId.text ∧ (user.role = .employee → uuidIn user.id.text = some rowUser) := by
  obtain ⟨horg, huser⟩ := hrow
  refine ⟨by rw [horg, (Request.key_inj hkey).1, hgranted.1], fun hemployee => ?_⟩
  rcases key_userId hkey.symm (hgranted.2 hemployee) with hsame | ⟨text, htext, hcolon⟩
  · apply huser
    rw [hsame]
    exact givenUser_id user.id
  · -- the database takes no text with a colon for a UUID
    have hnone := huser text (by rw [htext]; exact givenUser_colon hcolon)
    rw [uuidIn_colon hcolon] at hnone
    cases hnone

/-- **Whose rows an answer is made of.** They are of the organization of the user that is answered; for an employee, they
are the employee's own. -/
theorem employees_see_own (h : Reaches (reports parseDate) OnRegistered (Config.start fun _ => none) c) {i : ι}
    {user : User} {request : Request} {answer : Value} {r : Unit}
    (hmem : doneBy c.trace i (.respond user request answer) r) :
    ∃ (j : ι) (request' : Request) (found : Found), request'.key = request.key ∧
      request'.Finds parseDate (doneBy c.trace j) found ∧ answer = request'.result parseDate found ∧
      (∀ att ∈ found.attendances, att.organizationId = user.organizationId.text ∧
        (user.role = .employee → uuidIn user.id.text = some att.userId)) ∧
      (∀ e ∈ found.activities, e.organizationId = user.organizationId.text ∧
        (user.role = .employee → uuidIn user.id.text = some e.userId)) ∧
      ∀ d ∈ found.devices, OwnDevice user.organizationId.text d ∧ user.role ≠ .employee := by
  obtain ⟨before, after, hc⟩ := List.append_of_mem hmem
  obtain ⟨hgranted, j, request', hkey, ⟨found, hfinds, hanswer⟩, -⟩ :=
    computed_of_reaches (h.mono fun _ _ _ => trivial) hc
  have hfinds' : request'.Finds parseDate (doneBy c.trace j) found := by
    apply hfinds.mono
    intro e r hdid
    rw [hc]
    exact List.mem_append_left _ hdid
  obtain ⟨hatt, hact, hdevices⟩ := found_own h hfinds'
  refine ⟨j, request', found, hkey, hfinds', hanswer, fun att hmem => own_of_key hgranted hkey (hatt att hmem),
    fun e hmem => own_of_key hgranted hkey (hact e hmem), fun d hmem => ?_⟩
  obtain ⟨hown, hlive⟩ := hdevices d hmem
  rw [(Request.key_inj hkey).1, hgranted.1] at hown
  refine ⟨hown, fun hemployee => ?_⟩
  have huser := hgranted.2 hemployee
  rw [Request.kind_eq hkey] at hlive
  cases request with
  | live organizationId => cases huser
  | _ => cases hlive

theorem employees_see_own_twice : ∃ (answer : Value) (j : Nat) (request' : Request) (found : Found),
    request'.key = anaReport.key ∧ request'.Finds noDates (doneBy asked.trace j) found ∧
      answer = request'.result noDates found ∧
      (∀ att ∈ found.attendances, att.organizationId = acme.text ∧
        (ana.role = .employee → uuidIn ana.id.text = some att.userId)) ∧
      (∀ e ∈ found.activities, e.organizationId = acme.text ∧
        (ana.role = .employee → uuidIn ana.id.text = some e.userId)) ∧
      ∀ d ∈ found.devices, OwnDevice acme.text d ∧ ana.role ≠ .employee := by
  obtain ⟨answer, htrace⟩ := asked_trace
  have hmem : doneBy asked.trace 1 (.respond ana anaReport answer) () :=
    htrace ▸ List.mem_append_right _ List.mem_cons_self
  have hregistered : ∀ a ∈ asksTwice, OnRegistered (Config.start fun _ => none) a := by decide
  have hreaches : Reaches (reports noDates) OnRegistered (Config.start fun _ => none) asked :=
    reaches_endOf (System.allowed_of_forall (fun a ha _ => hregistered a ha) _) isSome_asked
  exact ⟨answer, employees_see_own hreaches hmem⟩

end

end TimeChamp.Reports
