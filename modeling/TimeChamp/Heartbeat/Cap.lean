import TimeChamp.Heartbeat.Coverage

/-!
# How long an event of the queue can get

`Push` commits a merged event once it is as long as the commit interval or `maxEventDuration`, and `HeartbeatMerge` adds
to a cached event at most the pulse time and the heartbeat. `Capped D P q` : what is cached is shorter than the limit of
the queue or was pushed as it is, and what was committed is longer than that by at most one merge. `capped_run` carries it
over any calls; `durations_bounded` reads it off. With short events no merge wraps (`allFit_of_short`).
-/

namespace TimeChamp.Heartbeat
open TimeChamp.Lib.Duration

section Cap
variable {δ : Type}

/-- The durations of the queue's events, when those pushed are at most `D` and the pulse times at most `P`. -/
structure Capped (D P : Int) (q : Queue δ) : Prop where
  cached : ∀ s e, q.cached s = some e → e.duration ≤ max q.limit D
  committed : ∀ s e, (s, e) ∈ q.committed → e.duration ≤ max q.limit D + P + D

theorem capped_newQueue (D P ci : Int) : Capped D P (newQueue ci : Queue δ) where
  cached s e h := by simp at h
  committed s e h := by simp at h

/-- What is cached may be committed as it is. -/
theorem Capped.of_holds {D P : Int} (hD : 0 ≤ D) (hP : 0 ≤ P) {q : Queue δ} (hq : Capped D P q) {s : String}
    {e : Event δ} (h : q.Holds s e) : e.duration ≤ max q.limit D + P + D := by
  rcases h with h | h
  · have := hq.cached s e h
    omega
  · exact hq.committed s e h

theorem limit_flush (q : Queue δ) (t : String) : (q.flush t).limit = q.limit := by
  rcases flush_cases q t with h | ⟨-, -, -, -, -, hci, -⟩
  · rw [h]
  · rw [Queue.limit, hci, Queue.limit]

theorem Capped.flush {D P : Int} (hD : 0 ≤ D) (hP : 0 ≤ P) {q : Queue δ} (hq : Capped D P q) (t : String) :
    Capped D P (q.flush t) := by
  refine ⟨fun s e he => ?_, fun s e he => ?_⟩ <;> rw [limit_flush]
  · rcases flush_cases q t with h | ⟨_, -, -, -, hnone, -, hne⟩
    · rw [h] at he
      exact hq.cached s e he
    · by_cases hst : s = t
      · rw [hst, hnone] at he
        cases he
      · exact hq.cached s e ((hne s hst).symm.trans he)
  · exact hq.of_holds hD hP (flush_holds (Or.inr he))

theorem Capped.flushAll {D P : Int} (hD : 0 ≤ D) (hP : 0 ≤ P) {q : Queue δ} (hq : Capped D P q) :
    Capped D P q.flushAll := by
  refine ⟨fun s e he => ?_, fun s e he => hq.of_holds hD hP (flushAll_holds (Or.inr he))⟩
  rw [cached_flushAll] at he
  cases he

end Cap

section Push
variable {δ : Type} [DecidableEq δ]

theorem heartbeatMerge_duration_le {last hb m : Event δ} {p : Int}
    (h : heartbeatMerge (some last) (some hb) p = some m) :
    m.duration ≤ max last.duration (last.duration + p + hb.duration) := by
  obtain ⟨-, ⟨hstart, hnear⟩, -, -, -⟩ := heartbeatMerge_eq_some.mp h
  have hle : newDur last hb ≤ hb.timestamp - last.timestamp + hb.duration := newDur_le hstart
  rw [heartbeatMerge_duration h]
  simp only [Event.span_start, Event.span_stop] at hnear
  omega

theorem limit_push (q : Queue δ) (t : String) (hb : Event δ) (p : Int) : (q.push t hb p).limit = q.limit := by
  rcases push_cases q t hb p with ⟨-, hp⟩ | ⟨_, -, ⟨_, -, -, hp⟩ | ⟨_, -, -, hp⟩ | ⟨-, hp⟩⟩ <;> rw [hp] <;> rfl

/-- After a push a stream has cached what it had, the heartbeat, or a merge below the limit. -/
theorem cached_push_cases {q : Queue δ} {t s : String} {hb e : Event δ} {p : Int}
    (h : (q.push t hb p).cached s = some e) : q.cached s = some e ∨ e = hb ∨ e.duration < q.limit := by
  by_cases hst : s = t
  · subst hst
    rcases push_cases q s hb p with ⟨-, hp⟩ | ⟨last, -, ⟨m, -, -, hp⟩ | ⟨m, -, hlt, hp⟩ | ⟨-, hp⟩⟩ <;>
      rw [hp, cached_cache_self] at h <;> obtain rfl := Option.some.inj h
    · exact Or.inr (Or.inl rfl)
    · exact Or.inr (Or.inl rfl)
    · exact Or.inr (Or.inr hlt)
    · exact Or.inr (Or.inl rfl)
  · rw [cached_push_of_ne q hb p hst] at h
    exact Or.inl h

theorem committed_push_cases {q : Queue δ} {t s : String} {hb e : Event δ} {p : Int}
    (h : (s, e) ∈ (q.push t hb p).committed) :
    (s, e) ∈ q.committed ∨
      ∃ last, q.cached t = some last ∧ (e = last ∨ heartbeatMerge (some last) (some hb) p = some e) := by
  rcases push_cases q t hb p with ⟨-, hp⟩ | ⟨last, hc, ⟨m, hm, -, hp⟩ | ⟨m, -, -, hp⟩ | ⟨-, hp⟩⟩ <;>
    simp only [hp, committed_cache, committed_onCommit, List.mem_append, List.mem_singleton, Prod.mk.injEq] at h
  · exact Or.inl h
  · rcases h with h | ⟨-, rfl⟩
    · exact Or.inl h
    · exact Or.inr ⟨last, hc, Or.inr hm⟩
  · exact Or.inl h
  · rcases h with h | ⟨-, rfl⟩
    · exact Or.inl h
    · exact Or.inr ⟨e, hc, Or.inl rfl⟩

theorem Capped.push {D P : Int} (hD : 0 ≤ D) (hP : 0 ≤ P) {q : Queue δ} (hq : Capped D P q) (t : String) {hb : Event δ}
    {p : Int} (hdur : hb.duration ≤ D) (hp : p ≤ P) : Capped D P (q.push t hb p) := by
  refine ⟨fun s e he => ?_, fun s e he => ?_⟩ <;> rw [limit_push]
  · rcases cached_push_cases he with he | rfl | hlt
    · exact hq.cached s e he
    · exact le_max_of_le_right hdur
    · exact le_max_of_le_left hlt.le
  · rcases committed_push_cases he with he | ⟨last, hc, rfl | hm⟩
    · exact hq.committed s e he
    · exact hq.of_holds hD hP (Or.inl hc)
    · have hlast := hq.cached t last hc
      have hle := heartbeatMerge_duration_le hm
      omega

theorem limit_run (q : Queue δ) (ops : List (QueueOp δ)) : (q.run ops).limit = q.limit := by
  induction ops using List.reverseRecOn with
  | nil => rfl
  | append_singleton ops op ih =>
      rw [run_snoc, ← ih]
      cases op with
      | push t hb p => exact limit_push _ t hb p
      | flush t => exact limit_flush _ t
      | flushAll => rfl

/-- **Every run keeps the cap.** -/
theorem capped_run {D P : Int} (hD : 0 ≤ D) (hP : 0 ≤ P) (ci : Int) {ops : List (QueueOp δ)}
    (hops : ∀ s e p, .push s e p ∈ ops → e.duration ≤ D ∧ p ≤ P) : Capped D P ((newQueue ci).run ops) := by
  induction ops using List.reverseRecOn with
  | nil => exact capped_newQueue D P ci
  | append_singleton ops op ih =>
      have ih := ih fun s e p hmem => hops s e p (List.mem_append_left _ hmem)
      rw [run_snoc]
      cases op with
      | push t hb p =>
          obtain ⟨hdur, hp⟩ := hops t hb p (by simp)
          exact ih.push hD hP t hdur hp
      | flush t => exact ih.flush hD hP t
      | flushAll => exact ih.flushAll hD hP

/-- No merge of short events wraps. -/
theorem allFit_of_short {D P : Int} (hD : 0 ≤ D) (hP : 0 ≤ P) {ci : Int} {ops : List (QueueOp δ)}
    (hops : ∀ s e p, .push s e p ∈ ops → e.duration ≤ D ∧ p ≤ P)
    (hshort : max (min ci maxEventDuration) D + P + D ≤ maxDuration) : (newQueue ci).AllFit ops := by
  induction ops using List.reverseRecOn with
  | nil => trivial
  | append_singleton ops op ih =>
      have hops' : ∀ s e p, .push s e p ∈ ops → e.duration ≤ D ∧ p ≤ P :=
        fun s e p hmem => hops s e p (List.mem_append_left _ hmem)
      refine (allFit_snoc _ _ _).mpr ⟨ih hops', ?_⟩
      cases op with
      | push t hb p =>
          intro last hlast m hm _
          obtain ⟨hdur, hp⟩ := hops t hb p (by simp)
          have hle := (capped_run hD hP ci hops').cached t last hlast
          rw [limit_run] at hle
          have hnear := (heartbeatMerge_eq_some.mp hm).2.1.2
          unfold Fits
          simp only [Queue.limit, newQueue, Event.span_start, Event.span_stop] at *
          omega
      | flush t => trivial
      | flushAll => trivial

/-- **No event of the queue outgrows the limit by more than one merge.** After any calls of `Push`, `Flush` and `FlushAll`
with events of duration at most `D` and pulse times at most `P`, whatever is cached or was handed to `onCommit`. -/
theorem durations_bounded (commitInterval : Int) (D P : Nat) (ops : List (QueueOp δ))
    (hops : ∀ s (e : Event δ) (p : Int), .push s e p ∈ ops → e.duration ≤ D ∧ p ≤ P) (s : String) (e : Event δ)
    (h : ((newQueue commitInterval).run ops).Holds s e) :
    e.duration ≤ max (min commitInterval hour) (D : Int) + P + D := by
  have hD := Int.natCast_nonneg D
  have hP := Int.natCast_nonneg P
  have hle := (capped_run hD hP commitInterval hops).of_holds hD hP h
  rw [limit_run] at hle
  exact hle

/-- The bound is reached: an event of 1 takes in another that begins 2 after its end. -/
theorem durations_bounded_sample :
    ∃ e : Event String, ("window", e) ∈ ((newQueue 1).run
        [.push "window" (.of 0 1 "a") 2, .push "window" (.of 3 1 "a") 2]).committed ∧
      e.duration = 4 ∧ e.duration ≤ max (min 1 hour) ((1 : Nat) : Int) + (2 : Nat) + (1 : Nat) := by
  refine ⟨.of 0 4 "a", by decide, rfl, durations_bounded 1 1 2
    [.push "window" (.of 0 1 "a") 2, .push "window" (.of 3 1 "a") 2] ?_ "window" _ (Or.inr (by decide))⟩
  intro s e p hmem
  simp only [List.mem_cons, QueueOp.push.injEq, List.not_mem_nil, or_false] at hmem
  rcases hmem with ⟨-, rfl, rfl⟩ | ⟨-, rfl, rfl⟩ <;> decide

end Push

end TimeChamp.Heartbeat
