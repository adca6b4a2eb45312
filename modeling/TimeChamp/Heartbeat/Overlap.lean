import TimeChamp.Heartbeat.Coverage

/-!
# When committed events overlap

One stream, pushes in order of their timestamps, whose spans do not overlap. A merge that reaches the limit commits
the merged event and caches the pushed one again, although the committed event already contains it (but for a merge whose
duration wrapped): the pushed span is then committed a second time.

* `Taken q t` : instants from `t` on belong to a committed event;
* `Recounts q s e p` : merging `e` puts it into an event on taken time, or takes the commit branch with an event that
  reaches past the start of `e` (`ReachesLimit`);
* `Doomed q s` : the commits overlap, or will once the cached event is committed (`doomed_flushAll`); a push dooms
  the queue exactly when it recounts (`doomed_push`);
* `commits_nonOverlapping_iff` : the commits of a run overlap exactly when some push recounts; with positive
  durations, exactly when some merge reaches the limit.
-/

namespace TimeChamp.Heartbeat
open TimeChamp.Lib.Pulse

section Stream
variable {δ : Type}

/-- Timestamps in order. -/
def Ordered (es : List (Event δ)) : Prop := es.Pairwise fun a b => a.timestamp ≤ b.timestamp

/-- No instant lies in two of the events. -/
def NonOverlapping (es : List (Event δ)) : Prop := es.Pairwise fun a b => Disjoint a.span.set b.span.set

/-- The events handed to `onCommit`, oldest first. -/
def Queue.commits (q : Queue δ) : List (Event δ) := q.committed.map Prod.snd

@[simp] theorem commits_onCommit (q : Queue δ) (s : String) (e : Event δ) :
    (q.onCommit s e).commits = q.commits ++ [e] := by
  simp [Queue.commits]

@[simp] theorem commits_cache (q : Queue δ) (s : String) (e : Event δ) : (q.cache s e).commits = q.commits := rfl

/-- A committed event with a duration reaches past `t`. -/
def Taken (q : Queue δ) (t : Int) : Prop := ∃ x ∈ q.commits, 0 < x.duration ∧ t < x.span.stop

theorem taken_cache (q : Queue δ) (s : String) (e : Event δ) (t : Int) : Taken (q.cache s e) t ↔ Taken q t := Iff.rfl

/-- The commits overlap, or will once the cached event of `s` is committed. -/
def Doomed (q : Queue δ) (s : String) : Prop :=
  ¬ NonOverlapping q.commits ∨ ∃ c, q.cached s = some c ∧ 0 < c.duration ∧ Taken q c.timestamp

theorem disjoint_of_not_pos {x y : Event δ} (h : ¬ 0 < x.duration) : Disjoint x.span.set y.span.set := by
  apply disjoint_of_empty
  simp only [Event.span_start, Event.span_stop]
  omega

theorem nonOverlapping_snoc {es : List (Event δ)} {y : Event δ} (hle : ∀ x ∈ es, x.timestamp ≤ y.timestamp) :
    NonOverlapping (es ++ [y]) ↔
      NonOverlapping es ∧ ¬ (0 < y.duration ∧ ∃ x ∈ es, 0 < x.duration ∧ y.timestamp < x.span.stop) := by
  have key : (∀ x ∈ es, Disjoint x.span.set y.span.set) ↔
      ¬ (0 < y.duration ∧ ∃ x ∈ es, 0 < x.duration ∧ y.timestamp < x.span.stop) := by
    constructor
    · rintro h ⟨hy, x, hx, -, hlt⟩
      have hne : y.span.start < y.span.stop := by
        simp only [Event.span_start, Event.span_stop]
        omega
      have hb : Before x.span y.span := Before.of_disjoint hne (hle x hx) (h x hx)
      exact absurd hlt (not_lt.mpr hb)
    · intro h x hx
      by_cases hy : 0 < y.duration
      · by_cases hxd : 0 < x.duration
        · have hb : Before x.span y.span := by
            by_contra hlt
            exact h ⟨hy, x, hx, hxd, not_le.mp hlt⟩
          exact hb.disjoint
        · exact disjoint_of_not_pos hxd
      · exact (disjoint_of_not_pos hy).symm
  simp only [NonOverlapping, List.pairwise_append, List.pairwise_singleton, List.mem_singleton, forall_eq, true_and]
  exact and_congr_right fun _ => key

/-- The cached event of `s` begins no earlier than any commit and no later than `t`, and commits come with one. -/
structure InOrder (q : Queue δ) (s : String) (t : Int) : Prop where
  cached_le : ∀ c, q.cached s = some c → c.timestamp ≤ t
  commits_le : ∀ c, q.cached s = some c → ∀ x ∈ q.commits, x.timestamp ≤ c.timestamp
  first : q.cached s = none → q.commits = []

theorem inOrder_newQueue (ci : Int) (s : String) (t : Int) : InOrder (newQueue ci : Queue δ) s t where
  cached_le c h := by simp at h
  commits_le c h := by simp at h
  first _ := rfl

theorem doomed_onCommit_cache {q : Queue δ} {s : String} {y e : Event δ}
    (hle : ∀ x ∈ q.commits, x.timestamp ≤ y.timestamp) :
    Doomed ((q.onCommit s y).cache s e) s ↔
      ¬ NonOverlapping q.commits ∨ (0 < y.duration ∧ Taken q y.timestamp) ∨
        0 < e.duration ∧ Taken ((q.onCommit s y).cache s e) e.timestamp := by
  have hsnoc : ¬ NonOverlapping (q.commits ++ [y]) ↔
      ¬ NonOverlapping q.commits ∨ 0 < y.duration ∧ Taken q y.timestamp := by
    rw [nonOverlapping_snoc hle, not_and_or, not_not]
    rfl
  unfold Doomed
  rw [commits_cache, commits_onCommit, hsnoc, or_assoc]
  simp only [cached_cache_self, Option.some.injEq, exists_eq_left']

variable [DecidableEq δ]

/-- The pushes of `es` on stream `s`. -/
def Queue.pushAll (q : Queue δ) (s : String) (es : List (Event δ)) (p : Int) : Queue δ :=
  es.foldl (fun q e => q.push s e p) q

theorem pushAll_snoc (q : Queue δ) (s : String) (es : List (Event δ)) (e : Event δ) (p : Int) :
    q.pushAll s (es ++ [e]) p = (q.pushAll s es p).push s e p := by
  simp [Queue.pushAll]

/-- Merging `e` would put it into an event with a duration that begins on taken time, or would reach the limit with an
event that lasts past the start of `e`, so that `e` is cached again. -/
def Recounts (q : Queue δ) (s : String) (e : Event δ) (p : Int) : Prop :=
  ∃ last m, q.cached s = some last ∧ heartbeatMerge (some last) (some e) p = some m ∧ 0 < m.duration ∧
    (Taken q last.timestamp ∨ q.limit ≤ m.duration ∧ 0 < e.duration ∧ e.timestamp < m.span.stop)

/-- The push merges, and the merged event has reached the commit interval or the hour cap and lasts past the start of the
pushed one. -/
def ReachesLimit (q : Queue δ) (s : String) (e : Event δ) (p : Int) : Prop :=
  ∃ last m, q.cached s = some last ∧ heartbeatMerge (some last) (some e) p = some m ∧ q.limit ≤ m.duration ∧
    e.timestamp < m.span.stop

theorem InOrder.push {q : Queue δ} {s : String} {t : Int} (ho : InOrder q s t) {e : Event δ} (hle : t ≤ e.timestamp)
    (p : Int) : InOrder (q.push s e p) s e.timestamp := by
  -- commit an event that begins where the cached one does, and cache the pushed one
  have recorded : ∀ last y, q.cached s = some last → y.timestamp = last.timestamp →
      InOrder ((q.onCommit s y).cache s e) s e.timestamp := by
    intro last y hc hy
    refine ⟨by simp, fun c hcc x hx => ?_, by simp⟩
    obtain rfl : e = c := by simpa using hcc
    have hlast := (ho.cached_le last hc).trans hle
    simp only [commits_cache, commits_onCommit, List.mem_append, List.mem_singleton] at hx
    rcases hx with hx | rfl
    · exact (ho.commits_le last hc x hx).trans hlast
    · exact hy.trans_le hlast
  rcases push_cases q s e p with ⟨hc, hp⟩ | ⟨last, hc, ⟨m, hm, -, hp⟩ | ⟨m, hm, -, hp⟩ | ⟨-, hp⟩⟩ <;> rw [hp]
  · have hnil := ho.first hc
    exact ⟨by simp, by simp [hnil], by simp⟩
  · exact recorded last m hc (heartbeatMerge_timestamp hm)
  · have hts := heartbeatMerge_timestamp hm
    refine ⟨fun c hcc => ?_, fun c hcc x hx => ?_, by simp⟩ <;> obtain rfl : m = c := by simpa using hcc
    · exact hts.trans_le ((ho.cached_le last hc).trans hle)
    · rw [hts]
      exact ho.commits_le last hc x hx
  · exact recorded last last hc rfl

theorem merged_pos_of_cached {last e m : Event δ} {p : Int} (hm : heartbeatMerge (some last) (some e) p = some m)
    (hpos : 0 < last.duration) : 0 < m.duration := by
  rw [heartbeatMerge_duration hm]
  exact lt_max_of_lt_left hpos

theorem merged_pos {last e m : Event δ} {p : Int} (hm : heartbeatMerge (some last) (some e) p = some m)
    (hlt : e.timestamp < m.span.stop) : 0 < m.duration := by
  have hstart := (heartbeatMerge_eq_some.mp hm).2.1.1
  have hts := heartbeatMerge_timestamp hm
  simp only [Event.span_start, Event.span_stop] at hstart hlt
  omega

/-- Every committed event, and the cached one, ends by `t`. -/
structure Ended (q : Queue δ) (s : String) (t : Int) : Prop where
  commits_stop_le : ∀ x ∈ q.commits, x.span.stop ≤ t
  cached_stop_le : ∀ c, q.cached s = some c → c.span.stop ≤ t

theorem Ended.push {q : Queue δ} {s : String} {t : Int} (h : Ended q s t) {e : Event δ} (he : e.span.stop ≤ t)
    (p : Int) : Ended (q.push s e p) s t := by
  have recorded : ∀ y : Event δ, y.span.stop ≤ t → Ended ((q.onCommit s y).cache s e) s t := by
    refine fun y hy => ⟨fun x hx => ?_, by simpa using he⟩
    simp only [commits_cache, commits_onCommit, List.mem_append, List.mem_singleton] at hx
    rcases hx with hx | rfl
    · exact h.commits_stop_le x hx
    · exact hy
  have merged : ∀ last m, q.cached s = some last → heartbeatMerge (some last) (some e) p = some m → m.span.stop ≤ t := by
    intro last m hc hm
    exact (merged_stop_le hm).trans (max_le (h.cached_stop_le last hc) he)
  rcases push_cases q s e p with ⟨-, hp⟩ | ⟨last, hc, ⟨m, hm, -, hp⟩ | ⟨m, hm, -, hp⟩ | ⟨-, hp⟩⟩ <;> rw [hp]
  · exact ⟨h.commits_stop_le, by simpa using he⟩
  · exact recorded m (merged last m hc hm)
  · exact ⟨h.commits_stop_le, by simpa using merged last m hc hm⟩
  · exact recorded last (h.cached_stop_le last hc)

omit [DecidableEq δ] in
theorem not_taken_of_ended {q : Queue δ} {s : String} {t : Int} (h : Ended q s t) : ¬ Taken q t := by
  rintro ⟨x, hx, -, hlt⟩
  exact absurd hlt (not_lt.mpr (h.commits_stop_le x hx))

/-- **A push dooms the queue exactly when it recounts.** -/
theorem doomed_push {q : Queue δ} {s : String} {t : Int} (ho : InOrder q s t) {e : Event δ}
    (hend : 0 < e.duration → Ended q s e.timestamp) (p : Int) :
    Doomed (q.push s e p) s ↔ Doomed q s ∨ Recounts q s e p := by
  rcases push_cases q s e p with ⟨hc, hp⟩ | ⟨last, hc, h⟩
  · simp [Recounts, hp, Doomed, hc, Taken, ho.first hc]
  · have hq : Doomed q s ↔ ¬ NonOverlapping q.commits ∨ 0 < last.duration ∧ Taken q last.timestamp := by
      simp [Doomed, hc]
    have hr : Recounts q s e p ↔ ∃ m, heartbeatMerge (some last) (some e) p = some m ∧ 0 < m.duration ∧
        (Taken q last.timestamp ∨ q.limit ≤ m.duration ∧ 0 < e.duration ∧ e.timestamp < m.span.stop) := by
      simp only [Recounts, hc, Option.some.injEq, exists_and_left, exists_eq_left']
    have hle := ho.commits_le last hc
    rw [hq, hr]
    rcases h with ⟨m, hm, hlim, hp⟩ | ⟨m, hm, hlim, hp⟩ | ⟨hm, hp⟩
    all_goals rw [hp, hm]
    · -- committed at the limit: the merged event may lie on taken time, and the one cached again may lie on its own
      have hts := heartbeatMerge_timestamp hm
      rw [doomed_onCommit_cache (by rw [hts]; exact hle)]
      simp only [Option.some.injEq, exists_eq_left', hts, hlim, true_and]
      constructor
      · rintro (h | h | ⟨hpos, x, hx, hx'⟩)
        · exact Or.inl (Or.inl h)
        · exact Or.inr ⟨h.1, Or.inl h.2⟩
        · -- the commits before have ended when `e` begins
          simp only [commits_cache, commits_onCommit, List.mem_append, List.mem_singleton] at hx
          rcases hx with hx | rfl
          · exact absurd ⟨x, hx, hx'⟩ (not_taken_of_ended (hend hpos))
          · exact Or.inr ⟨hx'.1, Or.inr ⟨hpos, hx'.2⟩⟩
      · rintro ((h | h) | ⟨hpos, h | h⟩)
        · exact Or.inl h
        · exact Or.inr (Or.inl ⟨merged_pos_of_cached hm h.1, h.2⟩)
        · exact Or.inr (Or.inl ⟨hpos, h⟩)
        · exact Or.inr (Or.inr ⟨h.1, m, by simp, hpos, h.2⟩)
    · -- kept in the cache: the start stays, the duration grows
      have hts := heartbeatMerge_timestamp hm
      simp only [Doomed, Option.some.injEq, exists_eq_left', cached_cache_self, commits_cache, taken_cache, hts,
        not_le.mpr hlim, false_and, or_false]
      constructor
      · rintro (h | h)
        · exact Or.inl (Or.inl h)
        · exact Or.inr h
      · rintro ((h | h) | h)
        · exact Or.inl h
        · exact Or.inr ⟨merged_pos_of_cached hm h.1, h.2⟩
        · exact Or.inr h
    · -- committed and started fresh: both have ended when `e` begins
      have hfresh : ¬ (0 < e.duration ∧ Taken ((q.onCommit s last).cache s e) e.timestamp) := by
        rintro ⟨hpos, x, hx, hx'⟩
        simp only [commits_cache, commits_onCommit, List.mem_append, List.mem_singleton] at hx
        rcases hx with hx | rfl
        · exact not_taken_of_ended (hend hpos) ⟨x, hx, hx'⟩
        · exact absurd hx'.2 (not_lt.mpr ((hend hpos).cached_stop_le x hc))
      rw [doomed_onCommit_cache hle]
      simp only [hfresh, or_false, reduceCtorEq, false_and, exists_false]

/-! ## Runs -/

/-- `R` holds of the queue before some push of the run, and of the pushed event. -/
def SomePush (q : Queue δ) (s : String) (es : List (Event δ)) (p : Int) (R : Queue δ → Event δ → Prop) : Prop :=
  ∃ pre e post, es = pre ++ e :: post ∧ R (q.pushAll s pre p) e

theorem not_somePush_nil (q : Queue δ) (s : String) (p : Int) (R : Queue δ → Event δ → Prop) :
    ¬ SomePush q s [] p R := by
  rintro ⟨pre, e, post, h, -⟩
  simp at h

theorem somePush_snoc {q : Queue δ} {s : String} {es : List (Event δ)} {e : Event δ} {p : Int}
    {R : Queue δ → Event δ → Prop} :
    SomePush q s (es ++ [e]) p R ↔ SomePush q s es p R ∨ R (q.pushAll s es p) e := by
  constructor
  · rintro ⟨pre, f, post, h, hR⟩
    rcases List.eq_nil_or_concat post with rfl | ⟨post, g, rfl⟩
    · obtain ⟨rfl, rfl⟩ : es = pre ∧ e = f := by simpa using h
      exact Or.inr hR
    · have h' : es ++ [e] = (pre ++ f :: post) ++ [g] := by simpa using h
      exact Or.inl ⟨pre, f, post, (List.append_inj_left' h' rfl), hR⟩
  · rintro (⟨pre, f, post, rfl, hR⟩ | hR)
    · exact ⟨pre, f, post ++ [e], by simp, hR⟩
    · exact ⟨es, e, [], rfl, hR⟩

omit [DecidableEq δ] in
theorem InOrder.mono {q : Queue δ} {s : String} {t t' : Int} (ho : InOrder q s t) (h : t ≤ t') :
    InOrder q s t' :=
  ⟨fun c hc => (ho.cached_le c hc).trans h, ho.commits_le, ho.first⟩

theorem inOrder_pushAll {es : List (Event δ)} (hord : Ordered es) (ci : Int) (s : String) (p : Int) {t : Int}
    (ht : ∀ e ∈ es, e.timestamp ≤ t) : InOrder ((newQueue ci).pushAll s es p) s t := by
  induction es using List.reverseRecOn generalizing t with
  | nil => exact inOrder_newQueue ci s t
  | append_singleton es e ih =>
      obtain ⟨hes, -, hlast⟩ := List.pairwise_append.mp hord
      rw [pushAll_snoc]
      have ho := ih hes fun x hx => hlast x hx e (List.mem_singleton_self e)
      exact (ho.push le_rfl p).mono (ht e (by simp))

theorem ended_pushAll {es : List (Event δ)} (ci : Int) (s : String) (p : Int) {t : Int}
    (ht : ∀ e ∈ es, e.span.stop ≤ t) : Ended ((newQueue ci).pushAll s es p) s t := by
  induction es using List.reverseRecOn with
  | nil => exact ⟨by simp [Queue.pushAll, Queue.commits, newQueue], by simp [Queue.pushAll]⟩
  | append_singleton es e ih =>
      rw [pushAll_snoc]
      exact (ih fun x hx => ht x (List.mem_append_left _ hx)).push (ht e (by simp)) p

/-- What was pushed before a later, disjoint event with a duration has ended when that begins. -/
theorem ended_before {es : List (Event δ)} {e : Event δ} (hord : Ordered (es ++ [e])) (hdis : NonOverlapping (es ++ [e]))
    (ci : Int) (s : String) (p : Int) (hpos : 0 < e.duration) :
    Ended ((newQueue ci).pushAll s es p) s e.timestamp := by
  refine ended_pushAll ci s p fun x hx => Before.of_disjoint (x := e.span) ?_ ?_ ?_
  · simp only [Event.span_start, Event.span_stop]
    omega
  · exact (List.pairwise_append.mp hord).2.2 x hx e (List.mem_singleton_self e)
  · exact (List.pairwise_append.mp hdis).2.2 x hx e (List.mem_singleton_self e)

/-- **A run dooms the queue exactly when some push recounts.** -/
theorem doomed_pushAll {es : List (Event δ)} (hord : Ordered es) (hdis : NonOverlapping es) (ci : Int) (s : String)
    (p : Int) : Doomed ((newQueue ci).pushAll s es p) s ↔ SomePush (newQueue ci) s es p fun q e => Recounts q s e p := by
  induction es using List.reverseRecOn with
  | nil =>
      refine iff_of_false ?_ (not_somePush_nil _ _ _ _)
      simp [Queue.pushAll, Doomed, NonOverlapping, Queue.commits]
  | append_singleton es e ih =>
      obtain ⟨hes, -, hlast⟩ := List.pairwise_append.mp hord
      have ho := inOrder_pushAll hes ci s p fun x hx => hlast x hx e (List.mem_singleton_self e)
      rw [pushAll_snoc, somePush_snoc, doomed_push ho (ended_before hord hdis ci s p),
        ih hes (List.pairwise_append.mp hdis).1]

theorem cached_pushAll_of_ne (ci : Int) {s t : String} (es : List (Event δ)) (p : Int) (h : t ≠ s) :
    ((newQueue ci).pushAll s es p).cached t = none := by
  induction es using List.reverseRecOn with
  | nil => rfl
  | append_singleton es e ih => rw [pushAll_snoc, cached_push_of_ne _ _ _ h, ih]

omit [DecidableEq δ] in
/-- What `FlushAll` commits when only `s` has a cached event. -/
theorem commits_flushAll {q : Queue δ} {s : String} (h : ∀ t, t ≠ s → q.cached t = none) :
    q.flushAll.commits = q.commits ++ ((q.cached s).filter fun c => 0 < c.duration).toList := by
  obtain ⟨ci, ⟨entries, hnd⟩, com⟩ := q
  simp only [Queue.flushAll, Queue.commits, List.map_append, List.map_map, List.append_cancel_left_eq]
  have key : ∀ k c, (⟨k, c⟩ : Sigma fun _ : String => Event δ) ∈ entries → k = s := by
    intro k c hmem
    by_contra hne
    have hl : (⟨ci, ⟨entries, hnd⟩, com⟩ : Queue δ).cached k = some c := AList.mem_lookup_iff.mpr hmem
    rw [h k hne] at hl
    cases hl
  rcases entries with - | ⟨⟨k, c⟩, rest⟩
  · rfl
  obtain rfl := key k c (by simp)
  rcases rest with - | ⟨⟨k', c'⟩, rest⟩
  · have hl : (⟨ci, ⟨[⟨k, c⟩], by simp⟩, com⟩ : Queue δ).cached k = some c :=
      AList.mem_lookup_iff.mpr (by simp)
    rw [hl]
    by_cases hc : 0 < c.duration <;> simp [hc, Option.filter]
  · -- a second entry would be on the same stream
    have hk := key k' c' (by simp)
    simp [List.nodupKeys_cons, List.keys, hk] at hnd

omit [DecidableEq δ] in
/-- A final `FlushAll` leaves overlapping commits exactly when the queue was doomed. -/
theorem doomed_flushAll {q : Queue δ} {s : String} {t : Int} (ho : InOrder q s t)
    (h : ∀ t, t ≠ s → q.cached t = none) : ¬ NonOverlapping q.flushAll.commits ↔ Doomed q s := by
  rw [commits_flushAll h]
  unfold Doomed
  cases hc : q.cached s with
  | none => simp
  | some c =>
      by_cases hpos : 0 < c.duration
      · simp only [Option.filter, hpos, decide_true, if_true, Option.toList_some,
          nonOverlapping_snoc (ho.commits_le c hc), not_and_or, not_not, Option.some.injEq, exists_eq_left', true_and]
        rfl
      · simp [Option.filter, hpos]

/-! ## Positive durations -/

/-- The cached event of `s` begins after every commit has ended. -/
def Spaced (q : Queue δ) (s : String) : Prop :=
  ∀ c, q.cached s = some c → ∀ x ∈ q.commits, x.span.stop ≤ c.timestamp

theorem Spaced.recounts_iff {q : Queue δ} {s : String} {e : Event δ} {p : Int} (hq : Spaced q s)
    (hpos : 0 < e.duration) : Recounts q s e p ↔ ReachesLimit q s e p := by
  constructor
  · rintro ⟨last, m, hc, hm, -, ⟨x, hx, -, hlt⟩ | h⟩
    · exact absurd hlt (not_lt.mpr (hq last hc x hx))
    · exact ⟨last, m, hc, hm, h.1, h.2.2⟩
  · rintro ⟨last, m, hc, hm, hlim, hlt⟩
    exact ⟨last, m, hc, hm, merged_pos hm hlt, Or.inr ⟨hlim, hpos, hlt⟩⟩

theorem Spaced.push {q : Queue δ} {s : String} {e : Event δ} {p t : Int} (hq : Spaced q s) (ho : InOrder q s t)
    (hend : Ended q s e.timestamp) (hlim : ¬ ReachesLimit q s e p) : Spaced (q.push s e p) s := by
  -- commit an event that has ended when the pushed one begins, and cache that
  have recorded : ∀ y : Event δ, y.span.stop ≤ e.timestamp → Spaced ((q.onCommit s y).cache s e) s := by
    intro y hy c hcc x hx
    obtain rfl : e = c := by simpa using hcc
    simp only [commits_cache, commits_onCommit, List.mem_append, List.mem_singleton] at hx
    rcases hx with hx | rfl
    · exact hend.commits_stop_le x hx
    · exact hy
  rcases push_cases q s e p with ⟨hc, hp⟩ | ⟨last, hc, ⟨m, hm, hle, hp⟩ | ⟨m, hm, -, hp⟩ | ⟨-, hp⟩⟩
  · rw [hp]
    intro c _ x hx
    simp [ho.first hc] at hx
  · rw [hp]
    exact recorded m (not_lt.mp fun hlt => hlim ⟨last, m, hc, hm, hle, hlt⟩)
  · rw [hp]
    intro c hcc x hx
    obtain rfl : m = c := by simpa using hcc
    rw [heartbeatMerge_timestamp hm]
    exact hq last hc x hx
  · rw [hp]
    exact recorded last (hend.cached_stop_le last hc)

/-- With positive durations no push recounts and the queue stays spaced, up to the first merge that reaches the
limit; and that one recounts. -/
theorem somePush_recounts_iff {es : List (Event δ)} (hord : Ordered es) (hdis : NonOverlapping es)
    (hpos : ∀ e ∈ es, 0 < e.duration) (ci p : Int) (s : String) :
    (SomePush (newQueue ci) s es p fun q e => Recounts q s e p) ↔
      SomePush (newQueue ci) s es p fun q e => ReachesLimit q s e p := by
  have key : ((SomePush (newQueue ci) s es p fun q e => Recounts q s e p) ↔
        SomePush (newQueue ci) s es p fun q e => ReachesLimit q s e p) ∧
      ((¬ SomePush (newQueue ci) s es p fun q e => ReachesLimit q s e p) → Spaced ((newQueue ci).pushAll s es p) s) := by
    induction es using List.reverseRecOn with
    | nil => exact ⟨iff_of_false (not_somePush_nil _ _ _ _) (not_somePush_nil _ _ _ _), fun _ c hc => by
        simp [Queue.pushAll] at hc⟩
    | append_singleton es e ih =>
        obtain ⟨hes, -, hlast⟩ := List.pairwise_append.mp hord
        have ho := inOrder_pushAll hes ci s p fun x hx => hlast x hx e (List.mem_singleton_self e)
        have hend := ended_before hord hdis ci s p (hpos e (by simp))
        obtain ⟨hiff, hspaced⟩ := ih hes (List.pairwise_append.mp hdis).1 fun x hx => hpos x (List.mem_append_left _ hx)
        rw [somePush_snoc, somePush_snoc, hiff, pushAll_snoc, not_or]
        refine ⟨?_, fun h => (hspaced h.1).push ho hend h.2⟩
        by_cases hlim : SomePush (newQueue ci) s es p fun q e => ReachesLimit q s e p
        · simp only [hlim, true_or]
        · rw [(hspaced hlim).recounts_iff (hpos e (by simp))]
  exact key.1

/-- **When the commits of a run overlap.** For pushes on one stream in order of their timestamps whose spans do not
overlap, the events handed to `onCommit` up to and including a final `FlushAll` do not overlap either if and only if
no push recounts; when all durations are positive, if and only if no merge reaches the commit interval or the hour and
past the start of the pushed event. -/
theorem commits_nonOverlapping_iff (ci p : Int) (s : String) (es : List (Event δ)) (hord : Ordered es)
    (hdis : NonOverlapping es) :
    (NonOverlapping ((newQueue ci).pushAll s es p).flushAll.commits ↔
        ¬ SomePush (newQueue ci) s es p fun q e => Recounts q s e p) ∧
      ((∀ e ∈ es, 0 < e.duration) → (NonOverlapping ((newQueue ci).pushAll s es p).flushAll.commits ↔
        ¬ SomePush (newQueue ci) s es p fun q e => ReachesLimit q s e p)) := by
  obtain ⟨t, ht⟩ : ∃ t, ∀ e ∈ es, e.timestamp ≤ t := by
    induction es with
    | nil => exact ⟨0, by simp⟩
    | cons e es ih =>
        obtain ⟨t, ht⟩ := ih (List.pairwise_cons.mp hord).2 (List.pairwise_cons.mp hdis).2
        refine ⟨max e.timestamp t, fun x hx => ?_⟩
        rcases List.mem_cons.mp hx with rfl | hx
        · exact le_max_left _ _
        · exact (ht x hx).trans (le_max_right _ _)
  have hmain : NonOverlapping ((newQueue ci).pushAll s es p).flushAll.commits ↔
      ¬ SomePush (newQueue ci) s es p fun q e => Recounts q s e p := by
    rw [← doomed_pushAll hord hdis, ← doomed_flushAll (inOrder_pushAll hord ci s p ht)
      (fun t h => cached_pushAll_of_ne ci es p h), not_not]
  exact ⟨hmain, fun hpos => hmain.trans (not_congr (somePush_recounts_iff hord hdis hpos ci p s))⟩

/-- Two pushes that merge below the limit: the commits do not overlap. -/
theorem commits_nonOverlapping_iff_merge :
    let es : List (Event String) := [.of 0 second "Code", .of second second "Code"]
    NonOverlapping ((newQueue (60 * second)).pushAll "window" es (2 * second)).flushAll.commits ↔
      ¬ SomePush (newQueue (60 * second)) "window" es (2 * second) fun q e => ReachesLimit q "window" e (2 * second) := by
  refine (commits_nonOverlapping_iff (60 * second) (2 * second) "window"
    [.of 0 second "Code", .of second second "Code"] ?_ ?_).2 (by decide)
  · simp [Ordered, second]
  · have hb : Before (Event.of 0 second "Code").span (Event.of second second "Code").span := by
      simp [Before]
    simpa [NonOverlapping] using hb.disjoint

/-- A minute in front of one window, pushed once a second: the sixtieth push commits the minute and its own second is
committed again. -/
theorem minute_committed_twice :
    let es : List (Event String) := (List.range 60).map fun i : Nat => .of (i * second) second "Code"
    Ordered es ∧ NonOverlapping es ∧
      ¬ NonOverlapping ((newQueue (60 * second)).pushAll "window" es (2 * second)).flushAll.commits := by
  have hcommits : ((newQueue (60 * second)).pushAll "window"
      ((List.range 60).map fun i : Nat => Event.of (i * second) second "Code") (2 * second)).flushAll.commits =
        [.of 0 (60 * second) "Code", .of (59 * second) second "Code"] := by decide +kernel
  refine ⟨?_, ?_, ?_⟩
  · refine List.pairwise_map.mpr (List.pairwise_lt_range.imp ?_)
    intro a b hab
    simp only [second]
    omega
  · refine List.pairwise_map.mpr (List.pairwise_lt_range.imp ?_)
    intro a b hab
    apply Before.disjoint
    simp only [Before, Event.span_start, Event.span_stop, second]
    omega
  · rw [hcommits]
    intro h
    have hd := (List.pairwise_cons.mp h).1 (.of (59 * second) second "Code") (by simp)
    have hin : (59 * second : Int) ∈ (Event.of 0 (60 * second) "Code").span.set := by simp [second]
    exact Set.disjoint_left.mp hd hin (by simp [second])

end Stream

end TimeChamp.Heartbeat
