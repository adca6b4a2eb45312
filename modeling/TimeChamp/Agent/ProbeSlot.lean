import Mathlib.Data.Fintype.Basic
import TimeChamp.Agent.Jobs

/-!
# Who gives the probe slot back

The half-open slot is taken by `IsAvailable` and released where an outcome is recorded. A goroutine that asks and then
performs a request gives the slot back; a goroutine that asks only to decide whether to go on does not: its own `Post`
is refused while the slot it took is in flight, and an empty buffer does not post at all.

* `slotProtocol` : the ghost mode of a goroutine, `holding` the slot or `free` of it;
* `NoLeak` : no gate of a flush or of the sync tick finds the breaker half-open with a free slot, and no body fails to
  encode, nor a request to build, while a probe is in flight;
* `slot_given_back` : in every run of the agent under `NoLeak`, the slot is free whenever no goroutine is running.
-/

namespace TimeChamp.Agent
open TimeChamp.Lib TimeChamp.Heartbeat TimeChamp.Buffer TimeChamp.Sync
open Function (update)

/-- The ghost mode of a goroutine. -/
inductive Slot where
  | free
  | holding
deriving DecidableEq

/-- The mode an answer leaves a goroutine in. A gate is taken not to acquire the slot. -/
def slotAfter (m : Slot) : (e : Op) → Reply e → Slot → Prop
  | .isAvailable (.flush _), _, m' | .isAvailable .syncTick, _, m' => m' = m
  | .isAvailable _, answer, m' => m' = m ∨ answer = true ∧ m' = .holding
  | .recordFailure, _, m' | .recordSuccess, _, m' | .releaseProbe, _, m' | .resetCircuit, _, m' => m' = .free
  | .isBlocked, blocked, m' => m' = if blocked then .free else m
  | .marshal _, .error _, m' | .newRequest _, .error _, m' => m' = .free
  | _, _, m' => m' = m

def slotProtocol : Protocol Op Reply Slot := ⟨fun _ _ => True, slotAfter⟩

/-- From `m` to the end, where the goroutine is free of the slot. -/
abbrev EndsFree {α : Type} (m : Slot) (p : Agent α) : Prop := Follows slotProtocol (fun m' _ => m' = .free) m p

section Programs
variable {α β : Type}

theorem endsFree_perform {m : Slot} {e : Op} {f : Reply e → Agent α}
    (h : ∀ r m', slotAfter m e r m' → EndsFree m' (f r)) : EndsFree m (Prog.perform e >>= f) :=
  ⟨trivial, h⟩

theorem EndsFree.bind {m : Slot} {p : Agent α} {f : α → Agent β} (hp : EndsFree m p)
    (hf : ∀ a, EndsFree .free (f a)) : EndsFree m (p >>= f) :=
  Follows.bind hp fun m' a h => by
    subst h
    exact hf a

theorem endsFree_record {m : Slot} {e : Op} {f : Reply e → Agent α} (he : ∀ r m', slotAfter m e r m' → m' = .free)
    (hf : ∀ r, EndsFree .free (f r)) : EndsFree m (Prog.perform e >>= f) :=
  endsFree_perform fun r m' h => by
    rw [he r m' h]
    exact hf r

/-- An attempt of `Post` records its outcome, or finds the breaker open. -/
theorem endsFree_postAttempt (m : Slot) (req : Request) : EndsFree m (postAttempt req) := by
  apply endsFree_perform
  intro blocked m' h
  cases blocked with
  | true => exact h
  | false =>
      apply endsFree_perform
      intro built m' h
      cases built with
      | error err => exact h
      | ok _ =>
          apply endsFree_perform
          intro reply m' _
          cases reply with
          | error err => exact endsFree_record (fun _ _ h => h) fun _ => rfl
          | ok status =>
              simp only [postOutcome]
              split_ifs
              · exact endsFree_record (fun _ _ h => h) fun _ => rfl
              · exact endsFree_record (fun _ _ h => h) fun _ => rfl
              · exact endsFree_record (fun _ _ h => h) fun _ => rfl

/-- A retry loop ends free when each attempt does, the first from `m` and the others from where the last one ended. -/
theorem endsFree_retryLoop (maxElapsedTime start : Int) {fn : Agent (Bool × Option String)}
    (hfn : EndsFree .free fn) (rounds : Nat) {m : Slot} (hm : EndsFree m fn) :
    EndsFree m (retryLoop maxElapsedTime start fn rounds) := by
  refine follows_retryLoop (A := fun m => EndsFree m fn) (B := fun m => m = .free)
    (fun m h => h.mono fun m' answer h' => ?_) (fun m h => ?_) (fun _ _ h => h) (fun m h => ⟨trivial, fun _ m' h' => ?_⟩) (fun _ _ => trivial) _ _ _ hm
  · split_ifs <;> exact h'
  · subst h
    exact hfn
  · subst h
    exact h'

theorem endsFree_withRetry (maxElapsedTime : Int) {fn : Agent (Bool × Option String)} (hfn : EndsFree .free fn)
    {m : Slot} (hm : EndsFree m fn) : EndsFree m (withRetry maxElapsedTime fn) := by
  apply endsFree_perform
  intro start m' h
  subst h
  apply endsFree_perform
  intro rounds m' h
  subst h
  exact endsFree_retryLoop _ _ hfn _ hm

theorem endsFree_post (req : Request) : EndsFree .free (post req) := by
  apply endsFree_perform
  intro available m h
  cases available with
  | false =>
      rcases h with h | ⟨h, -⟩
      · exact h
      · cases h
  | true =>
      apply endsFree_perform
      intro encoded m' h'
      cases encoded with
      | error err => exact h'
      | ok _ => exact endsFree_withRetry _ (endsFree_postAttempt _ req) (endsFree_postAttempt m' req)

/-- `GetPresignedUploadURL` records its outcome, so it gives back the slot its caller took. -/
theorem endsFree_getPresignedUploadURL (filename : String) (m : Slot) :
    EndsFree m (getPresignedUploadURL filename) := by
  apply endsFree_perform
  intro built m' h
  rcases built with err | ⟨⟩
  · exact h
  · apply endsFree_perform
    intro answer m' _
    cases answer with
    | error err => exact endsFree_record (fun _ _ h => h) fun _ => rfl
    | ok reply =>
        dsimp only
        split
        · exact endsFree_record (fun _ _ h => h) fun _ => rfl
        · split
          · exact endsFree_record (fun _ _ h => h) fun _ => rfl
          · split
            · exact endsFree_record (fun _ _ h => h) fun _ => rfl
            · exact endsFree_record (fun _ _ h => h) fun _ => rfl
            · split_ifs <;> exact endsFree_record (fun _ _ h => h) fun _ => rfl

theorem endsFree_other {e : Op} {f : Reply e → Agent α} (he : ∀ r m', slotAfter .free e r m' → m' = .free)
    (hf : ∀ r, EndsFree .free (f r)) : EndsFree .free (Prog.perform e >>= f) :=
  endsFree_record he hf

theorem endsFree_plain {p : Agent α} (hp : Performs Plain p) : EndsFree .free p := by
  refine hp.follows (F := fun m : Slot => m = .free) (fun m e hm he => ⟨trivial, fun r m' h => ?_⟩) rfl
  subst hm
  cases e with
  | isAvailable site => exact he.elim
  | isBlocked => exact he.elim
  | marshal body => cases r <;> exact h
  | newRequest path => cases r <;> exact h
  | _ => exact h

theorem endsFree_deleteByIDs (t : TableName) (ids : List Nat) : EndsFree .free (deleteByIDs t ids) := by
  unfold deleteByIDs
  split_ifs
  · rfl
  · exact ⟨trivial, fun _ _ h => h⟩

/-- A flush whose gate does not take the slot holds nothing at its end. -/
theorem endsFree_flush {t : TableName} (f : Flush t) : EndsFree .free f.run := by
  refine endsFree_other (fun _ _ h => h) fun available => ?_
  cases available with
  | false => rfl
  | true =>
      refine endsFree_other (fun _ _ h => h) fun listed => ?_
      cases listed with
      | error err => rfl
      | ok events =>
          dsimp only
          split_ifs
          · rfl
          · apply (endsFree_post _).bind
            intro uploaded
            cases uploaded with
            | some err => rfl
            | none => exact (endsFree_deleteByIDs _ _).bind fun marked => by cases marked <;> rfl

/-- An attempt at a screenshot gives back the slot its question took: it asks for the upload URL at once. -/
theorem endsFree_screenshotAttempt (r : ScreenshotRecord) : EndsFree .free (screenshotAttempt r) := by
  apply endsFree_perform
  intro available m h
  cases available with
  | false =>
      rcases h with h | ⟨h, -⟩
      · exact h
      · cases h
  | true =>
      apply (endsFree_getPresignedUploadURL _ m).bind
      intro target
      cases target with
      | error err => rfl
      | ok target =>
          refine endsFree_other (fun _ _ h => h) fun fi => ?_
          apply (endsFree_plain (plain_uploadFileToS3 _ _)).bind
          intro uploaded
          cases uploaded with
          | some err => rfl
          | none =>
              apply (endsFree_post _).bind
              intro saved
              cases saved with
              | some err => rfl
              | none =>
                  refine endsFree_other (fun _ _ h => h) fun marked => ?_
                  rcases marked with err | ⟨⟩
                  · rfl
                  · exact endsFree_other (fun _ _ h => h) fun _ => rfl

theorem endsFree_uploadScreenshots (records : List ScreenshotRecord) (flushed : Nat) :
    EndsFree .free (uploadScreenshots records flushed) := by
  induction records generalizing flushed with
  | nil => rfl
  | cons r records ih =>
      unfold uploadScreenshots
      refine endsFree_other (fun _ _ h => h) fun fi => ?_
      split
      · exact endsFree_other (fun _ _ h => h) fun _ => ih _
      · have hattempt := endsFree_screenshotAttempt r
        exact (endsFree_withRetry _ hattempt hattempt).bind fun err => by cases err <;> exact ih _

theorem endsFree_flushScreenshots : EndsFree .free flushScreenshots := by
  refine endsFree_other (fun _ _ h => h) fun available => ?_
  cases available with
  | false => rfl
  | true =>
      refine endsFree_other (fun _ _ h => h) fun listed => ?_
      cases listed with
      | error err => rfl
      | ok records => exact (endsFree_uploadScreenshots records 0).bind fun _ => rfl

theorem endsFree_burstUploadScreenshot (localPath : String) (capturedAt : Int) :
    EndsFree .free (burstUploadScreenshot localPath capturedAt) := by
  have hremove : ∀ err : Option String, EndsFree .free (Sync.Agent.remove localPath >>= fun _ => pure err) := fun err =>
    endsFree_other (fun _ _ h => h) fun _ => rfl
  apply endsFree_perform
  intro available m h
  cases available with
  | false =>
      rcases h with rfl | ⟨h, -⟩
      · exact hremove _
      · cases h
  | true =>
      apply (endsFree_getPresignedUploadURL _ m).bind
      intro target
      cases target with
      | error err => exact hremove _
      | ok target =>
          refine endsFree_other (fun _ _ h => h) fun fi => ?_
          apply (endsFree_plain (plain_uploadFileToS3 _ _)).bind
          intro uploaded
          cases uploaded with
          | some err => exact hremove _
          | none => exact (endsFree_post _).bind fun saved => by cases saved <;> exact hremove _

theorem endsFree_taskBody (task : Task) : EndsFree .free (taskBody task) := by
  cases task with
  | flushActivity => exact endsFree_flush _
  | flushKeystrokes => exact endsFree_flush _
  | flushScreenshots => exact endsFree_flushScreenshots
  | flushMetrics => exact endsFree_flush _

theorem endsFree_discard {p : Agent α} (hp : EndsFree .free p) : EndsFree .free (discard p) :=
  hp.bind fun _ => rfl

theorem endsFree_body (j : Job) : EndsFree .free j.body := by
  cases j with
  | post path body => exact endsFree_discard (endsFree_post _)
  | flushActivity => exact endsFree_discard (endsFree_flush _)
  | flushKeystrokes => exact endsFree_discard (endsFree_flush _)
  | flushMetrics => exact endsFree_discard (endsFree_flush _)
  | flushScreenshots => exact endsFree_discard endsFree_flushScreenshots
  | burstUploadScreenshot localPath capturedAt => exact endsFree_discard (endsFree_burstUploadScreenshot _ _)
  | syncTick =>
      refine endsFree_other (fun _ _ h => h) fun available => ?_
      cases available with
      | false => rfl
      | true =>
          refine endsFree_other (fun _ _ h => h) fun wg => ?_
          refine endsFree_other (fun _ _ h => h) fun _ => ?_
          refine endsFree_other (fun _ _ h => h) fun _ => ?_
          refine endsFree_other (fun _ _ h => h) fun _ => ?_
          refine endsFree_other (fun _ _ h => h) fun _ => ?_
          exact ⟨trivial, fun _ _ h => h⟩
  | spawned wg task => exact (endsFree_taskBody task).bind fun _ => ⟨trivial, fun _ _ h => h⟩
  | sleepResumeFlush =>
      refine endsFree_other (fun _ _ h => h) fun _ => ?_
      refine (endsFree_plain (plain_postBestEffort rfl)).bind fun _ => ?_
      refine (endsFree_flush _).bind fun _ => ?_
      refine endsFree_flushScreenshots.bind fun _ => ?_
      exact (endsFree_flush _).bind fun _ => rfl
  | resetCircuit => exact ⟨trivial, fun _ _ h => h⟩
  | insert t rows => exact endsFree_discard ⟨trivial, fun _ _ h => h⟩
  | capBuffer maxRows => exact endsFree_discard (endsFree_plain (plain_capTables _ _))
  | pruneSynced maxDays =>
      exact endsFree_discard (endsFree_other (fun _ _ h => h) fun _ => endsFree_plain (plain_pruneTables _ _))

end Programs
/-! ## The invariant -/

/-- The gates of the flushes and of the sync tick. -/
def isGate : Op → Bool
  | .isAvailable (.flush _) | .isAvailable .syncTick => true
  | _ => false

/-- Encoding a body and building a request. -/
def builds : Op → Bool
  | .marshal _ | .newRequest _ => true
  | _ => false

/-- The effects that lose a slot: a gate that takes it, and an encoding or a request that fails while it is taken. -/
def Loses (w : World) (ch : Choice) (e : Op) : Prop :=
  isGate e = true ∧ w.client.state = .stateHalfOpen ∧ w.client.probeInFlight = false ∨
    builds e = true ∧ ch.error ≠ none ∧ w.client.probeInFlight = true

instance (w : World) (ch : Choice) (e : Op) : Decidable (Loses w ch e) := inferInstanceAs (Decidable (_ ∨ _))

/-- The action loses no slot. -/
def NoLeak {ι : Type} (c : Config ι Op Reply World) (a : Act ι Choice Job) : Prop :=
  ∀ p ∈ c.performs a, ¬ Loses c.world p.1 p.2

instance {ι : Type} (c : Config ι Op Reply World) (a : Act ι Choice Job) : Decidable (NoLeak c a) :=
  inferInstanceAs (Decidable (∀ p ∈ c.performs a, ¬ Loses c.world p.1 p.2))

/-- A taken slot has a holder among the goroutines, and the breaker fields are sound. -/
def Held {ι : Type} (w : World) (m : ι → Slot) : Prop :=
  (∃ k, Sound k w.client) ∧ (w.client.probeInFlight = true → ∃ i, m i = .holding)

theorem sound_onClient {c : Client} (hs : ∃ k, Sound k c) (e : Op) (now : Int) : ∃ k, Sound k (e.onClient now c) := by
  obtain ⟨k, hs⟩ := hs
  cases e with
  | isAvailable site => exact ⟨k, hs.isAvailable now⟩
  | recordFailure => exact ⟨_, hs.recordFailure now⟩
  | recordSuccess => exact ⟨0, sound_recordSuccess c⟩
  | releaseProbe => exact ⟨k, hs.releaseProbe⟩
  | resetCircuit => exact ⟨0, sound_recordSuccess c⟩
  | _ => exact ⟨k, hs⟩

theorem probe_recordFailure {k : Nat} {c : Client} (hs : Sound k c) (now : Int) :
    (c.recordFailure now).probeInFlight = false := by
  have hstate : (c.recordFailure now).state ≠ .stateHalfOpen := by
    unfold Client.recordFailure
    cases hc : c.state with
    | stateHalfOpen => simp
    | stateClosed => dsimp only; split_ifs <;> simp
    | stateOpen => dsimp only; split_ifs <;> simp
  by_contra hp
  exact hstate ((hs.recordFailure now).probe (by simpa using hp))

theorem probe_releaseProbe {k : Nat} {c : Client} (hs : Sound k c) : c.releaseProbe.probeInFlight = false := by
  unfold Client.releaseProbe
  split_ifs with hc
  · rfl
  · by_contra hp
    exact hc (hs.probe (by simpa using hp))

theorem isAvailable_probe (c : Client) (now : Int) :
    (c.isAvailable now).2.probeInFlight = c.probeInFlight ∨
      c.state = .stateHalfOpen ∧ c.probeInFlight = false ∧ (c.isAvailable now).1 = true := by
  rcases isAvailable_cases c now with h | ⟨-, h⟩ | ⟨hc, hp, h⟩
  · exact Or.inl (by rw [h])
  · exact Or.inl (by rw [h])
  · exact Or.inr ⟨hc, hp, by rw [h]⟩

/-- **One effect.** Unless it loses the slot, whoever acts can be given a mode such that a slot taken afterwards is
its own, or was taken before and its mode has not changed. -/
theorem slot_step {ch : Choice} {e : Op} {w w' : World} {r : Reply e} {m : Slot} (hs : ∃ k, Sound k w.client)
    (hl : ¬ Loses w ch e) (h : exec ch e w = some (r, w')) :
    ∃ m', slotAfter m e r m' ∧
      (w'.client.probeInFlight = true → m' = .holding ∨ w.client.probeInFlight = true ∧ m' = m) := by
  obtain ⟨k, hs⟩ := hs
  rw [exec_client h]
  -- the slot as before, the mode as before
  have keep : w.client.probeInFlight = true → m = .holding ∨ w.client.probeInFlight = true ∧ m = m :=
    fun hp => Or.inr ⟨hp, rfl⟩
  cases e with
  | isAvailable site =>
      have hr : r = (w.client.isAvailable ch.now).1 := by
        simp only [exec, Option.some.injEq, Prod.mk.injEq] at h
        exact h.1.symm
      show ∃ m', slotAfter m (.isAvailable site) r m' ∧ ((w.client.isAvailable ch.now).2.probeInFlight = true → _)
      have hkeep : slotAfter m (.isAvailable site) r m := by
        cases site with
        | flush t => rfl
        | syncTick => rfl
        | _ => exact Or.inl rfl
      rcases isAvailable_probe w.client ch.now with hp | ⟨hc, hp, hyes⟩
      · rw [hp]
        exact ⟨m, hkeep, keep⟩
      · have htake : r = true := hr.trans hyes
        cases site with
        | flush t => exact absurd (Or.inl ⟨rfl, hc, hp⟩) hl
        | syncTick => exact absurd (Or.inl ⟨rfl, hc, hp⟩) hl
        | _ => exact ⟨.holding, Or.inr ⟨htake, rfl⟩, fun _ => Or.inl rfl⟩
  | isBlocked =>
      have hr : r = w.client.isBlocked ch.now := by
        simp only [exec, Option.some.injEq, Prod.mk.injEq] at h
        exact h.1.symm
      cases r with
      | false => exact ⟨m, rfl, keep⟩
      | true =>
          refine ⟨.free, rfl, fun hp => ?_⟩
          have hhalf := hs.probe hp
          simp [Client.isBlocked, hhalf] at hr
  | marshal body =>
      cases r with
      | ok _ => exact ⟨m, rfl, keep⟩
      | error err =>
          have herr : ch.error ≠ none := fun hnone => by simp [exec, Choice.fallible, hnone] at h
          exact ⟨.free, rfl, fun hp => absurd (Or.inr ⟨rfl, herr, hp⟩) hl⟩
  | newRequest path =>
      cases r with
      | ok _ => exact ⟨m, rfl, keep⟩
      | error err =>
          have herr : ch.error ≠ none := fun hnone => by simp [exec, Choice.fallible, hnone] at h
          exact ⟨.free, rfl, fun hp => absurd (Or.inr ⟨rfl, herr, hp⟩) hl⟩
  | recordFailure => exact ⟨.free, rfl, fun hp => by simp [Op.onClient, probe_recordFailure hs] at hp⟩
  | recordSuccess => exact ⟨.free, rfl, fun hp => by cases hp⟩
  | releaseProbe => exact ⟨.free, rfl, fun hp => by simp [Op.onClient, probe_releaseProbe hs] at hp⟩
  | resetCircuit => exact ⟨.free, rfl, fun hp => by cases hp⟩
  | _ => exact ⟨m, rfl, keep⟩

section Runs
variable {ι : Type} [DecidableEq ι]

/-- Whoever acts, a taken slot still has a holder. -/
theorem Held.update {w w' : World} {m : ι → Slot} {i : ι} {m' : Slot} (hh : Held w m)
    (hs : ∃ k, Sound k w'.client)
    (h : w'.client.probeInFlight = true → m' = .holding ∨ w.client.probeInFlight = true ∧ m' = m i) :
    Held w' (update m i m') := by
  refine ⟨hs, fun hp => ?_⟩
  rcases h hp with hm | ⟨hp', rfl⟩
  · exact ⟨i, by rw [Function.update_self, hm]⟩
  · rw [Function.update_eq_self]
    exact hh.2 hp'

/-- In every run that loses no slot, a taken slot has a holder, and every goroutine follows the protocol. -/
theorem held_of_reaches {db : DB} {c : Config ι Op Reply World}
    (h : Reaches agent NoLeak (Config.start (World.start db)) c) :
    ∃ m : ι → Slot, Held c.world m ∧ ∀ i, EndsFree (m i) (c.thread i) := by
  refine Reaches.inv (P := slotProtocol) (F := fun m => m = .free) (fun w _ m => Held w m) ?_ ?_ ?_ h
  · exact ⟨fun _ => .free, ⟨⟨0, sound_newClient⟩, fun hp => by cases hp⟩, fun _ => rfl⟩
  · intro c m i j w hI hfree _ hadmits
    have hclient : w.client = c.world.client := (admits_world hadmits).1
    refine ⟨.free, ?_, endsFree_body j⟩
    refine hI.update (hclient ▸ hI.1) fun hp => Or.inr ⟨hclient ▸ hp, hfree.symm⟩
  · intro c m i ch e k r w hI hG hop _ hexec
    have hl : ¬ Loses c.world ch e := hG _ (Config.performs_step hop ch)
    obtain ⟨m', hpost, hslot⟩ := slot_step hI.1 hl hexec
    exact ⟨m', hpost, hI.update (exec_client hexec ▸ sound_onClient hI.1 e ch.now) hslot⟩

/-- **The slot is given back.** In every run of the agent, on any number of goroutines, with any buffer, clock and
replies, in which no gate takes the slot and nothing fails to encode or build while it is taken, the slot is free
whenever no goroutine is running. -/
theorem slot_given_back {db : DB} {c : Config ι Op Reply World}
    (h : Reaches agent NoLeak (Config.start (World.start db)) c) (hidle : c.Idle) :
    c.world.client.probeInFlight = false := by
  obtain ⟨m, hheld, hends⟩ := held_of_reaches h
  by_contra hp
  obtain ⟨i, hi⟩ := hheld.2 (by simpa using hp)
  have hfree := hends i
  rw [hidle i, hi] at hfree
  cases hfree

end Runs

/-! ## A run that takes the slot, and one that loses it -/

/-- A `Post` whose three attempts at time zero fail; the fourth finds the breaker open. -/
def outage (i : Goroutine) : Schedule :=
  let refused : List Choice := [atStart, atStart, { error := some "connection refused" }, atStart]
  .call i (.post "/agent/sync/heartbeat" .empty) ::
    ([atStart, atStart, atStart, { number := 4 }] ++ refused ++ [atStart, atStart] ++ refused ++ [atStart, atStart] ++
      refused ++ [atStart, atStart, atStart]).map (.step i)

/-- A minute later, loops going round once. -/
def minuteLater : Choice := { now := 60 * second, number := 1 }

/-- After an outage a `Post` finds the breaker half open, a second one takes the slot; both succeed. -/
def recovery : Schedule :=
  let ask (i : Goroutine) : Schedule :=
    [.call i (.post "/agent/sync/heartbeat" .empty), .step i minuteLater]
  outage .main ++ ask .main ++ ask .worker ++ (List.replicate 7 (.step .worker minuteLater) : Schedule) ++
    (List.replicate 7 (.step .main minuteLater) : Schedule)

/-- After an outage the sync tick asks, and its flushes find an empty buffer. -/
def idleTick : Schedule :=
  let spawned (task : Task) (n : Nat) : Schedule :=
    .call .worker (.spawned 0 task) :: List.replicate n (.step .worker minuteLater)
  outage .main ++ (.call .main .syncTick :: List.replicate 6 (.step .main minuteLater) : Schedule) ++
    spawned .flushActivity 3 ++ spawned .flushKeystrokes 2 ++ spawned .flushScreenshots 2 ++ spawned .flushMetrics 2 ++
    ([.step .main minuteLater] : Schedule)

/-- The end of the recovery: both requests recorded, the slot free again. -/
theorem slot_given_back_recovery :
    (agent.endOf (startFrom .empty) recovery).world.client.probeInFlight = false :=
  slot_given_back (reaches_endOf (by decide +kernel) (by decide +kernel)) (by decide +kernel)

/-- The end of the idle tick: nobody runs and nobody is about to, but the slot is taken. -/
theorem idle_tick_loses_slot :
    ∃ c, Reaches agent (fun _ _ => True) (startFrom .empty) c ∧ c.Idle ∧ c.world.ready = [] ∧
      c.world.client.probeInFlight = true :=
  ⟨agent.endOf (startFrom .empty) idleTick, reaches_endOf (agent.allowed_true _ _) (by decide +kernel),
    by decide +kernel, by decide +kernel, by decide +kernel⟩

end TimeChamp.Agent
