import TimeChamp.Dashboard.MonitoringStore
import TimeChamp.Lib.Runs

/-!
# Every employee that is shown is watched

* `Armed`, `Covered`, `Watched` : a timer of a user is still to come; those that a status needs are; and so for every
  employee of the store;
* `Converges` : the store is watched in every state of a run, and a timer never shows more activity than before;
* `Guarded` : who is seeded has the timers, and nobody is shown online or idle at a disconnect;
* `Owned` : every timeout that is still to come is in the record of its user, and in no other;
* `converges_iff` : **a run converges exactly when each of its steps is guarded**.
-/

namespace TimeChamp.Dashboard
open TimeChamp.Lib

/-! ## What is to hold -/

def Status.level : Status → Nat
  | .online => 2
  | .idle => 1
  | .offline => 0

/-- A timer of the user is still to come. -/
def Armed (s : Store) (userId : String) (target : Downgrade) : Prop :=
  ∃ t ∈ s.armed, t.userId = userId ∧ t.target = target

/-- The timers that a status needs are still to come. -/
def Covered (s : Store) (userId : String) : Status → Prop
  | .online => Armed s userId .idle ∧ Armed s userId .offline
  | .idle => Armed s userId .offline
  | .offline => True

def Watched (s : Store) : Prop := ∀ userId, ∀ e ∈ s.employees.lookup userId, Covered s userId e.status

/-- What a timer does: its user is at most what it lowers to, and nobody is more active than before. -/
def Lowers (t : Timeout) (s s' : Store) : Prop :=
  ∀ userId, ∀ e' ∈ s'.employees.lookup userId, ∃ e ∈ s.employees.lookup userId, e'.status.level ≤ e.status.level ∧
    (userId = t.userId → e'.status.level ≤ t.target.status.level)

structure Converges (es : List StoreEvent) : Prop where
  watched : ∀ pre, pre <+: es → ∀ s, play step Store.start pre = some s → Watched s
  lowers : ∀ pre handle, pre ++ [.fire handle] <+: es → ∀ s s', play step Store.start pre = some s →
    step (.fire handle) s = some s' → ∀ t ∈ s.armed, t.handle = handle → Lowers t s s'

/-- Who is given a status has the timers it needs, and nobody is shown online or idle at a disconnect. -/
def Guarded (s : Store) : StoreEvent → Prop
  | .setStatus payload => Covered s payload.userId payload.status
  | .seed devices => ∀ d ∈ devices, d.userId ≠ "" → Covered s d.userId .online
  | .disconnect => ∀ e ∈ s.employees.entries, e.2.status = .offline
  | _ => True

section Decidable
variable (s : Store) (userId : String)

instance (target : Downgrade) : Decidable (Armed s userId target) :=
  inferInstanceAs (Decidable (∃ t ∈ s.armed, t.userId = userId ∧ t.target = target))

instance : (status : Status) → Decidable (Covered s userId status)
  | .online => inferInstanceAs (Decidable (Armed s userId .idle ∧ Armed s userId .offline))
  | .idle => inferInstanceAs (Decidable (Armed s userId .offline))
  | .offline => isTrue trivial

instance : (e : StoreEvent) → Decidable (Guarded s e)
  | .setStatus payload => inferInstanceAs (Decidable (Covered s payload.userId payload.status))
  | .seed devices => inferInstanceAs (Decidable (∀ d ∈ devices, d.userId ≠ "" → Covered s d.userId .online))
  | .disconnect => inferInstanceAs (Decidable (∀ e ∈ s.employees.entries, e.2.status = .offline))
  | .connect | .socketConnect _ | .socketDisconnect _ | .status _ _ | .activity _ _ _ _ | .fire _ | .elapse _ =>
    isTrue trivial

end Decidable

/-! ## Timers -/

def PresenceTimers.handle (timers : PresenceTimers) : Downgrade → Option Nat
  | .idle => timers.idle
  | .offline => timers.offline

/-- Every timeout that is still to come is in the record of its user and in no other; the handles are not new. -/
structure Owned (s : Store) : Prop where
  recorded : ∀ t ∈ s.armed, ∃ timers ∈ s.timers.lookup t.userId, timers.handle t.target = some t.handle
  owner : ∀ t ∈ s.armed, ∀ userId, ∀ timers ∈ s.timers.lookup userId, ∀ target,
    timers.handle target = some t.handle → userId = t.userId ∧ target = t.target
  old : ∀ userId, ∀ timers ∈ s.timers.lookup userId, ∀ target, ∀ handle ∈ timers.handle target, handle < s.nextHandle

section Clearing
variable {s : Store} {timers : PresenceTimers} {armed : List Timeout} {t : Timeout}

theorem mem_clearTimeout {handle : Option Nat} :
    t ∈ clearTimeout handle armed ↔ t ∈ armed ∧ some t.handle ≠ handle := by
  unfold clearTimeout
  rw [List.mem_filter, decide_eq_true_iff]

theorem mem_clear :
    t ∈ timers.clear armed ↔ t ∈ armed ∧ ∀ target, timers.handle target ≠ some t.handle := by
  unfold PresenceTimers.clear
  rw [mem_clearTimeout, mem_clearTimeout, and_assoc]
  refine and_congr_right fun _ => ⟨fun ⟨hidle, hoffline⟩ target => ?_, fun h => ⟨?_, ?_⟩⟩
  · cases target with
    | idle => exact Ne.symm hidle
    | offline => exact Ne.symm hoffline
  · exact Ne.symm (h .idle)
  · exact Ne.symm (h .offline)

theorem Owned.mem_clear {userId : String} (h : Owned s) (hlookup : s.timers.lookup userId = some timers) :
    t ∈ timers.clear s.armed ↔ t ∈ s.armed ∧ t.userId ≠ userId := by
  rw [Dashboard.mem_clear]
  refine and_congr_right fun ht => ⟨fun hall huser => ?_, fun huser target hhandle => ?_⟩
  · obtain ⟨timers', htimers', hhandle⟩ := h.recorded t ht
    rw [huser, hlookup] at htimers'
    obtain rfl := Option.some.inj htimers'
    exact hall t.target hhandle
  · exact huser (h.owner t ht userId timers hlookup target hhandle).1.symm

theorem mem_foldl_clear {entries : List (Sigma fun _ : String => PresenceTimers)} :
    t ∈ entries.foldl (fun armed e => e.2.clear armed) armed →
      t ∈ armed ∧ ∀ e ∈ entries, ∀ target, e.2.handle target ≠ some t.handle := by
  induction entries generalizing armed with
  | nil => exact fun h => ⟨h, fun e he => absurd he List.not_mem_nil⟩
  | cons e entries ih =>
      intro h
      obtain ⟨hclear, hrest⟩ := ih h
      obtain ⟨harmed, he⟩ := Dashboard.mem_clear.mp hclear
      refine ⟨harmed, fun e' he' => ?_⟩
      rcases List.mem_cons.mp he' with rfl | he'
      · exact he
      · exact hrest e' he'

theorem Owned.armed_disconnect (h : Owned s) : s.disconnect.armed = [] := by
  apply List.eq_nil_iff_forall_not_mem.mpr
  intro t ht
  obtain ⟨hmem, hall⟩ := mem_foldl_clear ht
  obtain ⟨timers, hlookup, hhandle⟩ := h.recorded t hmem
  exact hall ⟨t.userId, timers⟩ (AList.mem_lookup_iff.mp hlookup) t.target hhandle

end Clearing

/-! ## The timers of one user -/

section Reset
variable {s : Store} {userId : String} {t : Timeout}

theorem Owned.of_armed {s' : Store} (h : Owned s) (htimers : s'.timers = s.timers)
    (harmed : ∀ t ∈ s'.armed, t ∈ s.armed) (hnext : s.nextHandle ≤ s'.nextHandle) : Owned s' where
  recorded t ht := by
    rw [htimers]
    exact h.recorded t (harmed t ht)
  owner t ht := by
    rw [htimers]
    exact h.owner t (harmed t ht)
  old u timers htimers' target handle hhandle := by
    rw [htimers] at htimers'
    exact (h.old u timers htimers' target handle hhandle).trans_le hnext

/-- The timers, their records and the next handle are the same. -/
structure SameTimers (s s' : Store) : Prop where
  armed : s'.armed = s.armed
  timers : s'.timers = s.timers
  nextHandle : s'.nextHandle = s.nextHandle

theorem Owned.of_same {s' : Store} (h : Owned s) (hsame : SameTimers s s') : Owned s' :=
  h.of_armed hsame.timers (fun _ ht => hsame.armed ▸ ht) hsame.nextHandle.ge

theorem Owned.mem_reset (h : Owned s) : t ∈ (s.resetPresenceTimers userId).armed ↔
    t = ⟨s.nextHandle, userId, .idle, s.now + idleAfterMs⟩ ∨
    t = ⟨s.nextHandle + 1, userId, .offline, s.now + offlineAfterMs⟩ ∨ t ∈ s.armed ∧ t.userId ≠ userId := by
  show t ∈ _ :: _ :: _ ↔ _
  rw [List.mem_cons, List.mem_cons]
  refine or_congr_right (or_congr_right ?_)
  cases hlookup : s.timers.lookup userId with
  | some existing => exact h.mem_clear hlookup
  | none =>
      refine ⟨fun ht => ⟨ht, ?_⟩, And.left⟩
      rintro rfl
      obtain ⟨timers, htimers, -⟩ := h.recorded t ht
      rw [hlookup] at htimers
      cases htimers

theorem Owned.lt_nextHandle (h : Owned s) (ht : t ∈ s.armed) : t.handle < s.nextHandle := by
  obtain ⟨timers, htimers, hhandle⟩ := h.recorded t ht
  exact h.old _ timers htimers _ _ hhandle

theorem handle_fresh {n : Nat} {target : Downgrade} {handle : Nat}
    (h : (PresenceTimers.mk (some n) (some (n + 1))).handle target = some handle) :
    n ≤ handle ∧ handle < n + 2 ∧ (target = .idle ↔ handle = n) := by
  cases target with
  | idle =>
      obtain rfl := Option.some.inj h
      exact ⟨le_rfl, by omega, by simp⟩
  | offline =>
      obtain rfl := Option.some.inj h
      exact ⟨by omega, by omega, by simp⟩

theorem Owned.reset (h : Owned s) : Owned (s.resetPresenceTimers userId) := by
  have hself : (s.resetPresenceTimers userId).timers.lookup userId =
      some ⟨some s.nextHandle, some (s.nextHandle + 1)⟩ := AList.lookup_insert _
  have hother : ∀ u, u ≠ userId → (s.resetPresenceTimers userId).timers.lookup u = s.timers.lookup u := fun u hu =>
    AList.lookup_insert_ne hu
  refine ⟨fun t ht => ?_, fun t ht u timers htimers target hhandle => ?_,
    fun u timers htimers target handle hhandle => ?_⟩
  · rcases h.mem_reset.mp ht with rfl | rfl | ⟨ht, hne⟩
    · exact ⟨_, hself, rfl⟩
    · exact ⟨_, hself, rfl⟩
    · rw [hother t.userId hne]
      exact h.recorded t ht
  · by_cases hu : u = userId
    · -- the new record has only new handles, each of one timer
      subst hu
      rw [hself] at htimers
      obtain rfl := Option.some.inj htimers
      obtain ⟨hle, -, hidle⟩ := handle_fresh hhandle
      rcases h.mem_reset.mp ht with rfl | rfl | ⟨ht, hne⟩
      · exact ⟨rfl, hidle.mpr rfl⟩
      · refine ⟨rfl, ?_⟩
        cases target with
        | idle => exact absurd (hidle.mp rfl) (by simp)
        | offline => rfl
      · have hlt := h.lt_nextHandle ht
        omega
    · rw [hother u hu] at htimers
      have hlt := h.old u timers htimers target _ hhandle
      rcases h.mem_reset.mp ht with rfl | rfl | ⟨ht, -⟩
      · exact absurd hlt (Nat.lt_irrefl _)
      · exact absurd hlt (by simp)
      · exact h.owner t ht u timers htimers target hhandle
  · show handle < s.nextHandle + 2
    by_cases hu : u = userId
    · subst hu
      rw [hself] at htimers
      obtain rfl := Option.some.inj htimers
      exact (handle_fresh hhandle).2.1
    · rw [hother u hu] at htimers
      exact (h.old u timers htimers target handle hhandle).trans (by omega)

end Reset

/-! ## What each action covers -/

section Cover
variable {s s' : Store} {userId : String}

/-- A status needs no more when the timers that were there still are. -/
theorem Covered.mono {status : Status} (h : Covered s userId status)
    (harmed : ∀ target, Armed s userId target → Armed s' userId target) : Covered s' userId status := by
  cases status with
  | online => exact ⟨harmed _ h.1, harmed _ h.2⟩
  | idle => exact harmed _ h
  | offline => trivial

theorem covered_congr {status : Status} (h : s'.armed = s.armed) :
    Covered s' userId status ↔ Covered s userId status := by
  have hiff : ∀ target, Armed s' userId target ↔ Armed s userId target := by
    intro target
    unfold Armed
    rw [h]
  exact ⟨fun hc => hc.mono fun target => (hiff target).mp, fun hc => hc.mono fun target => (hiff target).mpr⟩

theorem watched_congr (hemployees : s'.employees = s.employees) (h : s'.armed = s.armed) : Watched s' ↔ Watched s := by
  unfold Watched
  rw [hemployees]
  exact forall_congr' fun u => forall₂_congr fun e _ => covered_congr h

theorem Owned.covered_reset (h : Owned s) (status : Status) : Covered (s.resetPresenceTimers userId) userId status := by
  have hidle : Armed (s.resetPresenceTimers userId) userId .idle :=
    ⟨_, h.mem_reset.mpr (Or.inl rfl), rfl, rfl⟩
  have hoffline : Armed (s.resetPresenceTimers userId) userId .offline :=
    ⟨_, h.mem_reset.mpr (Or.inr (Or.inl rfl)), rfl, rfl⟩
  cases status with
  | online => exact ⟨hidle, hoffline⟩
  | idle => exact hoffline
  | offline => trivial

theorem Owned.watched_reset (h : Owned s)
    (hothers : ∀ u, u ≠ userId → ∀ e ∈ s.employees.lookup u, Covered s u e.status) :
    Watched (s.resetPresenceTimers userId) := by
  intro u e he
  by_cases hu : u = userId
  · subst hu
    exact h.covered_reset _
  · refine (hothers u hu e he).mono fun target ⟨t, ht, huser, htarget⟩ => ?_
    refine ⟨t, h.mem_reset.mpr (Or.inr (Or.inr ⟨ht, ?_⟩)), huser, htarget⟩
    rw [huser]
    exact hu

theorem watched_setStatus {payload : EmployeeStatus} (hw : Watched s) :
    Watched (s.setStatus payload) ↔ Covered s payload.userId payload.status := by
  constructor
  · intro h
    exact (covered_congr rfl).mp (h payload.userId payload (AList.lookup_insert _))
  · intro h u e he
    apply (covered_congr rfl).mpr
    by_cases hu : u = payload.userId
    · subst hu
      rw [Store.setStatus, Option.mem_def, AList.lookup_insert] at he
      obtain rfl := Option.some.inj he
      exact h
    · rw [Store.setStatus, Option.mem_def, AList.lookup_insert_ne hu] at he
      exact hw u e he

theorem Owned.watched_onStatus {payload : EmployeeStatus} (h : Owned s) (hw : Watched s) :
    Watched (s.onStatus payload) := by
  unfold Store.onStatus
  split_ifs with hoffline
  · apply (watched_setStatus hw).mpr
    rw [hoffline]
    trivial
  · have hset : Owned (s.setStatus payload) := h.of_same ⟨rfl, rfl, rfl⟩
    apply hset.watched_reset
    intro u hu e he
    rw [Store.setStatus, Option.mem_def, AList.lookup_insert_ne hu] at he
    exact (covered_congr rfl).mpr (hw u e he)

theorem status_setActivity {appName timestamp u : String} {e : EmployeeStatus}
    (h : e ∈ (s.setActivity userId appName timestamp).employees.lookup u) :
    ∃ e₀ ∈ s.employees.lookup u, e.status = e₀.status := by
  unfold Store.setActivity at h
  split at h
  next => exact ⟨e, h, rfl⟩
  next existing hexisting =>
    by_cases hu : u = userId
    · subst hu
      rw [Option.mem_def, AList.lookup_insert] at h
      obtain rfl := Option.some.inj h
      exact ⟨existing, hexisting, rfl⟩
    · rw [Option.mem_def, AList.lookup_insert_ne hu] at h
      exact ⟨e, h, rfl⟩

theorem setActivity_same (s : Store) (userId appName timestamp : String) :
    SameTimers s (s.setActivity userId appName timestamp) := by
  unfold Store.setActivity
  split <;> exact ⟨rfl, rfl, rfl⟩

theorem Owned.setActivity {appName timestamp : String} (h : Owned s) :
    Owned (s.setActivity userId appName timestamp) :=
  h.of_same (setActivity_same s userId appName timestamp)

theorem Owned.watched_onActivity {appName timestamp : String} (h : Owned s) (hw : Watched s) :
    Watched (s.onActivity userId appName timestamp) := by
  apply h.setActivity.watched_reset
  intro u _ e he
  obtain ⟨e₀, he₀, hstatus⟩ := status_setActivity he
  rw [hstatus]
  exact (covered_congr (setActivity_same s userId appName timestamp).armed).mpr (hw u e₀ he₀)

theorem Owned.watched_disconnect (h : Owned s) :
    Watched s.disconnect ↔ ∀ e ∈ s.employees.entries, e.2.status = .offline := by
  have hnone : ∀ u target, ¬ Armed s.disconnect u target := by
    rintro u target ⟨t, ht, -⟩
    rw [h.armed_disconnect] at ht
    exact absurd ht List.not_mem_nil
  constructor
  · intro hw e he
    have hcovered := hw e.1 e.2 (AList.mem_lookup_iff.mpr he)
    cases hstatus : e.2.status with
    | offline => rfl
    | idle =>
        rw [hstatus] at hcovered
        exact absurd hcovered (hnone _ _)
    | online =>
        rw [hstatus] at hcovered
        exact absurd hcovered.1 (hnone _ _)
  · intro hall u e he
    rw [hall ⟨u, e⟩ (AList.mem_lookup_iff.mp he)]
    trivial

end Cover

/-! ## Seeding -/

section Seed
variable {s : Store} {devices : List LiveDevice}

/-- Who is kept has a user, and is one of the devices; and every device with a user has one that is kept. -/
structure OneEach (users : AList fun _ : String => LiveDevice) (devices : List LiveDevice) : Prop where
  kept : ∀ u, ∀ d ∈ users.lookup u, d.userId = u ∧ u ≠ "" ∧ d ∈ devices
  all : ∀ d ∈ devices, d.userId ≠ "" → (users.lookup d.userId).isSome = true

section OneEach
variable {users : AList fun _ : String => LiveDevice} {d : LiveDevice}

/-- Either the device is kept for its user, or what was kept stays and its user has one. -/
theorem keepLatest_cases (users : AList fun _ : String => LiveDevice) (d : LiveDevice) :
    (d.userId ≠ "" ∧ keepLatest users d = users.insert d.userId d) ∨
      (keepLatest users d = users ∧ (d.userId ≠ "" → (users.lookup d.userId).isSome = true)) := by
  unfold keepLatest
  split_ifs with hempty
  · exact Or.inr ⟨rfl, fun hne => absurd hempty hne⟩
  · split
    next hnone => exact Or.inl ⟨hempty, rfl⟩
    next prev hprev =>
      split_ifs
      · exact Or.inl ⟨hempty, rfl⟩
      · exact Or.inr ⟨rfl, fun _ => by simp [hprev]⟩

theorem OneEach.insert (h : OneEach users devices) (hne : d.userId ≠ "") :
    OneEach (users.insert d.userId d) (devices ++ [d]) where
  kept u d' hd' := by
    by_cases hu : u = d.userId
    · subst hu
      rw [Option.mem_def, AList.lookup_insert] at hd'
      obtain rfl := Option.some.inj hd'
      exact ⟨rfl, hne, by simp⟩
    · rw [Option.mem_def, AList.lookup_insert_ne hu] at hd'
      obtain ⟨huser, hu', hmem⟩ := h.kept u d' hd'
      exact ⟨huser, hu', List.mem_append_left _ hmem⟩
  all d' hd' hne' := by
    by_cases hu : d'.userId = d.userId
    · rw [hu, AList.lookup_insert]
      rfl
    · rw [AList.lookup_insert_ne hu]
      rcases List.mem_append.mp hd' with hd' | hd'
      · exact h.all d' hd' hne'
      · exact absurd (congrArg LiveDevice.userId (List.mem_singleton.mp hd')) hu

theorem OneEach.stay (h : OneEach users devices) (hthere : d.userId ≠ "" → (users.lookup d.userId).isSome = true) :
    OneEach users (devices ++ [d]) where
  kept u d' hd' := by
    obtain ⟨huser, hu, hmem⟩ := h.kept u d' hd'
    exact ⟨huser, hu, List.mem_append_left _ hmem⟩
  all d' hd' hne := by
    rcases List.mem_append.mp hd' with hd' | hd'
    · exact h.all d' hd' hne
    · obtain rfl := List.mem_singleton.mp hd'
      exact hthere hne

theorem byUser_spec (devices : List LiveDevice) : OneEach (byUser devices) devices := by
  induction devices using List.reverseRecOn with
  | nil => exact ⟨fun _ _ hd => (by cases hd), fun _ hd => absurd hd List.not_mem_nil⟩
  | append_singleton devices d ih =>
      have hconcat : byUser (devices ++ [d]) = keepLatest (byUser devices) d := by
        unfold byUser
        rw [List.foldl_append]
        rfl
      rw [hconcat]
      rcases keepLatest_cases (byUser devices) d with ⟨hne, hins⟩ | ⟨hsame, hthere⟩
      · rw [hins]
        exact ih.insert hne
      · rw [hsame]
        exact ih.stay hthere

end OneEach

/-- A condition on the users of the entries is one on the users of the devices. -/
theorem forall_byUser {P : String → Prop} :
    (∀ e ∈ (byUser devices).entries, P e.2.userId) ↔ ∀ d ∈ devices, d.userId ≠ "" → P d.userId := by
  obtain ⟨hkept, hall⟩ := byUser_spec devices
  constructor
  · intro h d hd hne
    obtain ⟨d', hd'⟩ := Option.isSome_iff_exists.mp (hall d hd hne)
    have huser := (hkept _ d' hd').1
    rw [← huser]
    exact h ⟨d.userId, d'⟩ (AList.mem_lookup_iff.mp hd')
  · intro h e he
    obtain ⟨huser, hne, hmem⟩ := hkept e.1 e.2 (AList.mem_lookup_iff.mpr he)
    apply h e.2 hmem
    rw [huser]
    exact hne

theorem foldl_setStatus_same (entries : List (Sigma fun _ : String => LiveDevice)) (s : Store) :
    SameTimers s (entries.foldl (fun s d => s.setStatus d.2.seeded) s) := by
  induction entries generalizing s with
  | nil => exact ⟨rfl, rfl, rfl⟩
  | cons e entries ih =>
      obtain ⟨harmed, htimers, hnext⟩ := ih (s.setStatus e.2.seeded)
      exact ⟨harmed, htimers, hnext⟩

/-- Who is online stays online while others are seeded, who are online then. -/
theorem online_foldl {entries : List (Sigma fun _ : String => LiveDevice)} {u : String}
    (h : (∃ e ∈ s.employees.lookup u, e.status = .online) ∨ ∃ e ∈ entries, e.2.userId = u) :
    ∃ e ∈ (entries.foldl (fun s d => s.setStatus d.2.seeded) s).employees.lookup u, e.status = .online := by
  induction entries generalizing s with
  | nil => exact h.resolve_right fun ⟨e, he, _⟩ => absurd he List.not_mem_nil
  | cons e entries ih =>
      apply ih (s := s.setStatus e.2.seeded)
      by_cases hu : e.2.userId = u
      · subst hu
        exact Or.inl ⟨e.2.seeded, AList.lookup_insert _, rfl⟩
      · refine h.imp (fun ⟨e', he', honline⟩ => ⟨e', ?_, honline⟩) fun ⟨e', he', hu'⟩ => ?_
        · exact (AList.lookup_insert_ne (Ne.symm hu)).trans he'
        · rcases List.mem_cons.mp he' with rfl | he'
          · exact absurd hu' hu
          · exact ⟨e', he', hu'⟩

theorem watched_foldl {entries : List (Sigma fun _ : String => LiveDevice)} (hw : Watched s)
    (h : ∀ e ∈ entries, Covered s e.2.userId .online) :
    Watched (entries.foldl (fun s d => s.setStatus d.2.seeded) s) := by
  induction entries generalizing s with
  | nil => exact hw
  | cons e entries ih =>
      apply ih ((watched_setStatus hw).mpr (h e List.mem_cons_self))
      intro e' he'
      exact (covered_congr rfl).mpr (h e' (List.mem_cons_of_mem _ he'))

/-- Seeding keeps the store watched exactly when everybody who is seeded has both timers. -/
theorem watched_seed (hw : Watched s) :
    Watched (s.seed devices) ↔ ∀ d ∈ devices, d.userId ≠ "" → Covered s d.userId .online := by
  rw [← forall_byUser (P := fun u => Covered s u .online)]
  constructor
  · intro h e he
    obtain ⟨e', he', honline⟩ := online_foldl (s := s) (Or.inr ⟨e, he, rfl⟩)
    have hcovered := h e.2.userId e' he'
    rw [honline] at hcovered
    exact (covered_congr (foldl_setStatus_same _ s).armed).mp hcovered
  · exact watched_foldl hw

end Seed

/-! ## A timer fires -/

section Fire
variable {s s' : Store} {t : Timeout} {handle : Nat}

/-- What a task does. -/
def Does (s s' : Store) : StoreEvent → Prop
  | .connect => s' = s.connect
  | .disconnect => s' = s.disconnect
  | .socketConnect id => s' = s.setConnected id true
  | .socketDisconnect id => s' = s.setConnected id false
  | .status _ payload => s' = s.onStatus payload
  | .activity _ userId appName timestamp => s' = s.onActivity userId appName timestamp
  | .setStatus payload => s' = s.setStatus payload
  | .seed devices => s' = s.seed devices
  | .fire handle => ∃ t ∈ s.armed, t.handle = handle ∧
      s' = { s with armed := clearTimeout (some handle) s.armed }.downgradeStatus t.userId t.target
  | .elapse ms => s' = { s with now := s.now + ms }

theorem step_does {e : StoreEvent} (h : step e s = some s') : Does s s' e := by
  cases e with
  | socketConnect _ | socketDisconnect _ | status _ _ | activity _ _ _ _ =>
      simp only [step] at h
      split_ifs at h
      exact (Option.some.inj h).symm
  | fire handle =>
      simp only [step] at h
      split at h
      next => cases h
      next t hfind =>
        split_ifs at h
        exact ⟨t, List.mem_of_find?_eq_some hfind, by simpa using List.find?_some hfind, (Option.some.inj h).symm⟩
  | _ => exact (Option.some.inj h).symm

theorem downgradeStatus_same (userId : String) (target : Downgrade) (s : Store) :
    SameTimers s (s.downgradeStatus userId target) := by
  unfold Store.downgradeStatus
  split
  next => exact ⟨rfl, rfl, rfl⟩
  next => split_ifs <;> exact ⟨rfl, rfl, rfl⟩

/-- Who an employee was before a downgrade. -/
theorem downgradeStatus_lookup {u userId : String} {target : Downgrade} {e' : EmployeeStatus}
    (h : e' ∈ (s.downgradeStatus userId target).employees.lookup u) :
    ∃ e ∈ s.employees.lookup u,
      e'.status = e.status ∧ (u = userId → target = .idle ∧ e.status = .offline) ∨
      u = userId ∧ e'.status = target.status ∧ ¬ (target = .idle ∧ e.status = .offline) := by
  unfold Store.downgradeStatus at h
  split at h
  next hnone =>
    refine ⟨e', h, Or.inl ⟨rfl, fun hu => ?_⟩⟩
    rw [hu, hnone] at h
    cases h
  next existing hexisting =>
    split_ifs at h with hguard
    · refine ⟨e', h, Or.inl ⟨rfl, fun hu => ?_⟩⟩
      rw [hu, hexisting] at h
      obtain rfl := Option.some.inj h
      exact hguard
    · by_cases hu : u = userId
      · subst hu
        rw [Option.mem_def, AList.lookup_insert] at h
        obtain rfl := Option.some.inj h
        exact ⟨existing, hexisting, Or.inr ⟨rfl, rfl, hguard⟩⟩
      · rw [Option.mem_def, AList.lookup_insert_ne hu] at h
        exact ⟨e', h, Or.inl ⟨rfl, fun hu' => absurd hu' hu⟩⟩

theorem Owned.same (h : Owned s) {t' : Timeout} (ht : t ∈ s.armed) (ht' : t' ∈ s.armed)
    (hhandle : t'.handle = t.handle) : t'.userId = t.userId ∧ t'.target = t.target := by
  obtain ⟨timers, htimers, hrec⟩ := h.recorded t' ht'
  exact h.owner t ht t'.userId timers htimers t'.target (hrec.trans (congrArg some hhandle))

/-- **A timer never shows more activity.** -/
theorem Owned.lowers (h : Owned s) (hstep : step (.fire handle) s = some s') (ht : t ∈ s.armed)
    (hhandle : t.handle = handle) : Lowers t s s' := by
  obtain ⟨t₀, ht₀, hhandle₀, rfl⟩ := step_does hstep
  obtain ⟨huser, htarget⟩ := h.same ht ht₀ (hhandle₀.trans hhandle.symm)
  intro u e' he'
  obtain ⟨e, he, hcases⟩ := downgradeStatus_lookup he'
  refine ⟨e, he, ?_⟩
  rw [huser, htarget] at hcases
  rcases hcases with ⟨hstatus, hguard⟩ | ⟨-, hstatus, hguard⟩
  · refine ⟨(congrArg _ hstatus).le, fun hu => ?_⟩
    rw [hstatus, (hguard hu).2]
    exact Nat.zero_le _
  · rw [hstatus]
    refine ⟨?_, fun _ => le_rfl⟩
    cases htarget' : t.target with
    | offline => exact Nat.zero_le _
    | idle =>
        cases hold : e.status with
        | offline => exact absurd ⟨htarget', hold⟩ hguard
        | idle => exact le_rfl
        | online => exact Nat.le_succ 1

/-- A timer that fires leaves the others. -/
theorem Owned.armed_fire (h : Owned s) (ht : t ∈ s.armed) {userId : String} {target : Downgrade}
    (hother : userId = t.userId → target ≠ t.target) (harmed : Armed s userId target) :
    Armed ({ s with armed := clearTimeout (some t.handle) s.armed }.downgradeStatus t.userId t.target) userId
      target := by
  obtain ⟨t', ht', huser, htarget⟩ := harmed
  refine ⟨t', ?_, huser, htarget⟩
  rw [(downgradeStatus_same _ _ _).armed]
  refine mem_clearTimeout.mpr ⟨ht', fun hhandle => ?_⟩
  obtain ⟨huser', htarget'⟩ := h.same ht ht' (Option.some.inj hhandle)
  exact hother (huser.symm.trans huser') (htarget.symm.trans htarget')

theorem Owned.watched_fire (h : Owned s) (hw : Watched s) (hstep : step (.fire handle) s = some s') : Watched s' := by
  obtain ⟨t, ht, rfl, rfl⟩ := step_does hstep
  intro u e' he'
  obtain ⟨e, he, hcases⟩ := downgradeStatus_lookup he'
  have hcovered := hw u e he
  rcases hcases with ⟨hstatus, hguard⟩ | ⟨hu, hstatus, hguard⟩
  · rw [hstatus]
    by_cases hu : u = t.userId
    · rw [(hguard hu).2]
      trivial
    · exact hcovered.mono fun target => h.armed_fire ht fun huser => absurd huser hu
  · rw [hstatus]
    cases htarget : t.target with
    | offline => trivial
    | idle =>
        -- it was online or idle, and its offline timer is another one
        have hoffline : Armed s u .offline := by
          cases hold : e.status with
          | offline => exact absurd ⟨htarget, hold⟩ hguard
          | idle =>
              rw [hold] at hcovered
              exact hcovered
          | online =>
              rw [hold] at hcovered
              exact hcovered.2
        have hleft := h.armed_fire ht (fun _ hsame => by rw [htarget] at hsame; cases hsame) hoffline
        rw [htarget] at hleft
        exact hleft

end Fire

/-! ## Runs -/

section Runs
variable {s s' : Store} {e : StoreEvent}

theorem Owned.disconnect (h : Owned s) : Owned s.disconnect where
  recorded t ht := by
    rw [h.armed_disconnect] at ht
    exact absurd ht List.not_mem_nil
  owner t ht := by
    rw [h.armed_disconnect] at ht
    exact absurd ht List.not_mem_nil
  old u timers htimers := by
    rw [show s.disconnect.timers.lookup u = none from AList.lookup_empty u] at htimers
    cases htimers

theorem Owned.of_step (h : Owned s) (hstep : step e s = some s') : Owned s' := by
  have hdoes := step_does hstep
  cases e with
  | connect =>
      obtain rfl := hdoes
      unfold Store.connect
      split_ifs
      · exact h
      · exact h.of_armed rfl (fun _ ht => ht) (Nat.le_succ _)
  | disconnect =>
      obtain rfl := hdoes
      exact h.disconnect
  | status id payload =>
      obtain rfl := hdoes
      have hset : Owned (s.setStatus payload) := h.of_same ⟨rfl, rfl, rfl⟩
      unfold Store.onStatus
      split_ifs
      · exact hset
      · exact hset.reset
  | activity id userId appName timestamp =>
      obtain rfl := hdoes
      exact h.setActivity.reset
  | seed devices =>
      obtain rfl := hdoes
      exact h.of_same (foldl_setStatus_same (byUser devices).entries s)
  | fire handle =>
      obtain ⟨t, -, -, rfl⟩ := hdoes
      have hcleared : Owned { s with armed := clearTimeout (some handle) s.armed } :=
        h.of_armed rfl (fun _ ht => (mem_clearTimeout.mp ht).1) le_rfl
      exact hcleared.of_same (downgradeStatus_same t.userId t.target _)
  | _ =>
      obtain rfl := hdoes
      exact h.of_same ⟨rfl, rfl, rfl⟩

/-- **One task.** It keeps the store watched exactly when it is guarded. -/
theorem Owned.watched_step (h : Owned s) (hw : Watched s) (hstep : step e s = some s') : Watched s' ↔ Guarded s e := by
  have hdoes := step_does hstep
  cases e with
  | connect =>
      obtain rfl := hdoes
      unfold Store.connect
      split_ifs
      · exact iff_true_intro hw
      · exact iff_true_intro ((watched_congr rfl rfl).mpr hw)
  | disconnect =>
      obtain rfl := hdoes
      exact h.watched_disconnect
  | status id payload =>
      obtain rfl := hdoes
      exact iff_true_intro (h.watched_onStatus hw)
  | activity id userId appName timestamp =>
      obtain rfl := hdoes
      exact iff_true_intro (h.watched_onActivity hw)
  | setStatus payload =>
      obtain rfl := hdoes
      exact watched_setStatus hw
  | seed devices =>
      obtain rfl := hdoes
      exact watched_seed hw
  | fire handle => exact iff_true_intro (h.watched_fire hw hstep)
  | socketConnect _ | socketDisconnect _ | elapse _ =>
      obtain rfl := hdoes
      exact iff_true_intro ((watched_congr rfl rfl).mpr hw)

theorem owned_start : Owned Store.start where
  recorded t ht := absurd ht List.not_mem_nil
  owner t ht := absurd ht List.not_mem_nil
  old u timers htimers := by
    rw [show Store.start.timers.lookup u = none from AList.lookup_empty u] at htimers
    cases htimers

theorem watched_start : Watched Store.start := by
  intro u e he
  rw [show Store.start.employees.lookup u = none from AList.lookup_empty u] at he
  cases he

theorem owned_of_play {es : List StoreEvent} (h : play step Store.start es = some s) : Owned s :=
  play_inv (I := fun _ s => Owned s) h owned_start fun _ _ _ _ hs hstep => hs.of_step hstep

/-- **Presence converges.** A run keeps every employee who is shown online or idle under the timers that lower it, and
its timers never show more activity, exactly when each of its steps is guarded. -/
theorem converges_iff {es : List StoreEvent} (h : play step Store.start es = some s) :
    Converges es ↔ Allowed step Guarded Store.start es := by
  have hwatched := forall_prefix_iff_allowed (R := Owned) (I := Watched) (G := Guarded) h owned_start watched_start
    fun _ _ _ hs hw hstep => ⟨hs.of_step hstep, hs.watched_step hw hstep⟩
  refine ⟨fun hc => hwatched.mp hc.watched, fun hallowed => ⟨hwatched.mpr hallowed, ?_⟩⟩
  intro pre handle _ s₁ s₂ hs₁ hstep t ht hhandle
  exact (owned_of_play hs₁).lowers hstep ht hhandle

end Runs

/-- The socket connects and reports an employee, who falls silent for a minute. -/
def silentForAMinute : List StoreEvent :=
  [.connect, .socketConnect 0, .status 0 ⟨"u1", .online, none, "2026-01-05T09:00:00Z"⟩,
    .seed [⟨"u1", "2026-01-05T09:00:00Z", some "chrome", none⟩], .elapse 60000, .fire 1]

theorem converges_iff_silentForAMinute :
    (play step Store.start silentForAMinute).isSome = true ∧ Converges silentForAMinute := by
  have hplay : (play step Store.start silentForAMinute).isSome = true := by decide +kernel
  obtain ⟨s, hs⟩ := Option.isSome_iff_exists.mp hplay
  exact ⟨hplay, (converges_iff hs).mpr (by decide +kernel)⟩

/-- The live page is opened before any event of the employee. -/
def seededFirst : List StoreEvent := [.seed [⟨"u1", "2026-01-05T09:00:00Z", some "chrome", none⟩]]

/-- The employee is shown online, and no timer is armed. -/
theorem not_converges_seededFirst :
    ∃ s, play step Store.start seededFirst = some s ∧
      s.employees.lookup "u1" = some ⟨"u1", .online, some "chrome", "2026-01-05T09:00:00Z"⟩ ∧ s.armed = [] ∧
      ¬ Converges seededFirst := by
  have hplay : (play step Store.start seededFirst).isSome = true := by decide +kernel
  have hshown : (endOf step Store.start seededFirst).employees.lookup "u1" =
      some ⟨"u1", .online, some "chrome", "2026-01-05T09:00:00Z"⟩ := by decide +kernel
  have harmed : (endOf step Store.start seededFirst).armed = [] := by decide +kernel
  obtain ⟨s, hs⟩ := Option.isSome_iff_exists.mp hplay
  rw [endOf, hs, Option.getD_some] at hshown harmed
  refine ⟨s, hs, hshown, harmed, fun hc => ?_⟩
  obtain ⟨t, ht, -⟩ := (hc.watched seededFirst (List.prefix_refl _) s hs "u1" _ hshown).1
  rw [harmed] at ht
  exact absurd ht List.not_mem_nil

end TimeChamp.Dashboard
