import Mathlib.Data.List.Induction
import TimeChamp.Heartbeat.Merge

/-!
# What the queue commits: nothing lost, nothing invented

* `Accounts P ops q` : after the operations `ops`, whose pushes have positive durations and pulse times at most `P`, every
  event the queue holds (cached or committed) is grown from pushes of its stream and payload;
* `Covers ops q` : every push lies inside an event held for its stream with the same payload;
* `Queue.AllFit` : no merge of a run wraps, but one whose event is committed, and the pushed one cached;
* `accounts_run` carries the first over any mix of `Push`, `Flush` and `FlushAll`, `covers_run` the second where no merge
  wraps; `flushAll_covers_pushes` reads both off after a final `FlushAll`, when every held event is committed.
-/

namespace TimeChamp.Heartbeat
open TimeChamp.Lib.Pulse TimeChamp.Lib.Duration

/-- The calls on a queue. -/
inductive QueueOp (δ : Type) where
  | push (stream : String) (event : Event δ) (pulsetime : Int)
  | flush (stream : String)
  | flushAll

section Run
variable {δ : Type} [DecidableEq δ]

def Queue.apply (q : Queue δ) : QueueOp δ → Queue δ
  | .push s e p => q.push s e p
  | .flush s => q.flush s
  | .flushAll => q.flushAll

def Queue.run (q : Queue δ) (ops : List (QueueOp δ)) : Queue δ := ops.foldl Queue.apply q

theorem run_snoc (q : Queue δ) (ops : List (QueueOp δ)) (op : QueueOp δ) :
    q.run (ops ++ [op]) = (q.run ops).apply op := by
  simp [Queue.run]

/-- A push that merges into what stays cached ends in the reach of a duration from the beginning of that. -/
def Queue.FitsOp (q : Queue δ) : QueueOp δ → Prop
  | .push s e p =>
    ∀ last ∈ q.cached s, ∀ m ∈ heartbeatMerge (some last) (some e) p, m.duration < q.limit → Fits last e
  | _ => True

/-- No merge of the run wraps whose event stays cached. -/
def Queue.AllFit (q : Queue δ) : List (QueueOp δ) → Prop
  | [] => True
  | op :: ops => q.FitsOp op ∧ (q.apply op).AllFit ops

instance (q : Queue δ) : (op : QueueOp δ) → Decidable (q.FitsOp op)
  | .push s e p =>
    inferInstanceAs (Decidable (∀ last ∈ q.cached s, ∀ m ∈ heartbeatMerge (some last) (some e) p,
      m.duration < q.limit → Fits last e))
  | .flush _ => isTrue trivial
  | .flushAll => isTrue trivial

instance decidableAllFit : (q : Queue δ) → (ops : List (QueueOp δ)) → Decidable (q.AllFit ops)
  | _, [] => isTrue trivial
  | q, op :: ops =>
    have := decidableAllFit (q.apply op) ops
    inferInstanceAs (Decidable (q.FitsOp op ∧ (q.apply op).AllFit ops))

theorem allFit_snoc (q : Queue δ) (ops : List (QueueOp δ)) (op : QueueOp δ) :
    q.AllFit (ops ++ [op]) ↔ q.AllFit ops ∧ (q.run ops).FitsOp op := by
  induction ops generalizing q with
  | nil => simp [Queue.AllFit, Queue.run]
  | cons op' ops ih =>
      simp only [List.cons_append, Queue.AllFit, ih, and_assoc]
      rfl

end Run

section Held
variable {δ : Type}

/-- `e` is cached for stream `s`, or was committed for it. -/
def Queue.Holds (q : Queue δ) (s : String) (e : Event δ) : Prop := q.cached s = some e ∨ (s, e) ∈ q.committed

/-- `e` was pushed on stream `s`. -/
def Pushed (ops : List (QueueOp δ)) (s : String) (e : Event δ) : Prop := ∃ p, .push s e p ∈ ops

theorem Pushed.append {ops : List (QueueOp δ)} {s : String} {e : Event δ} (h : Pushed ops s e)
    (ops' : List (QueueOp δ)) : Pushed (ops ++ ops') s e :=
  h.imp fun _ hp => List.mem_append_left _ hp

/-- The spans pushed on stream `s` with payload `d`. -/
def Pulses (ops : List (QueueOp δ)) (s : String) (d : δ) (x : Span Int) : Prop :=
  ∃ e, Pushed ops s e ∧ e.data = d ∧ e.span = x

/-- Every operation of `q` keeps what it holds, up to stretching it. -/
def Retains (q q' : Queue δ) : Prop :=
  ∀ s e, q.Holds s e → ∃ e', q'.Holds s e' ∧ e'.data = e.data ∧ e.span.set ⊆ e'.span.set

theorem flushAll_holds {q : Queue δ} {s : String} {e : Event δ} (h : q.flushAll.Holds s e) : q.Holds s e := by
  rcases h with h | h
  · rw [cached_flushAll] at h
    cases h
  · rcases mem_committed_flushAll.mp h with h | ⟨h, -⟩
    · exact Or.inr h
    · exact Or.inl h

theorem flushAll_retains {q : Queue δ} (hpos : ∀ s e, q.Holds s e → 0 < e.duration) : Retains q q.flushAll := by
  intro s e h
  refine ⟨e, Or.inr (mem_committed_flushAll.mpr ?_), rfl, subset_rfl⟩
  rcases h with h | h
  · exact Or.inr ⟨h, hpos s e (Or.inl h)⟩
  · exact Or.inl h

theorem flush_holds {q : Queue δ} {t s : String} {e : Event δ} (h : (q.flush t).Holds s e) : q.Holds s e := by
  rcases flush_cases q t with heq | ⟨last, hc, -, hcom, hnone, -, hne⟩
  · rwa [heq] at h
  · rcases h with h | h
    · by_cases hst : s = t
      · rw [hst, hnone] at h
        cases h
      · exact Or.inl ((hne s hst).symm.trans h)
    · rw [hcom, List.mem_append, List.mem_singleton] at h
      rcases h with h | h
      · exact Or.inr h
      · cases h
        exact Or.inl hc

theorem flush_retains (q : Queue δ) (t : String) : Retains q (q.flush t) := by
  intro s e h
  refine ⟨e, ?_, rfl, subset_rfl⟩
  rcases flush_cases q t with heq | ⟨last, hc, -, hcom, -, -, hne⟩
  · rwa [heq]
  · rcases h with h | h
    · by_cases hst : s = t
      · subst hst
        rw [hc] at h
        cases h
        exact Or.inr (by rw [hcom]; simp)
      · exact Or.inl ((hne s hst).trans h)
    · exact Or.inr (by rw [hcom]; exact List.mem_append_left _ h)

variable [DecidableEq δ]

/-- After a push the queue holds only what it held, the pushed event, and the pushed event merged into a held one. -/
theorem push_holds {q : Queue δ} {t s : String} {h e : Event δ} {p : Int} (he : (q.push t h p).Holds s e) :
    q.Holds s e ∨ s = t ∧ (e = h ∨ ∃ last, q.Holds t last ∧ heartbeatMerge (some last) (some h) p = some e) := by
  by_cases hst : s = t
  · subst hst
    rcases push_cases q s h p with ⟨-, hp⟩ | ⟨last, hc, ⟨m, hm, -, hp⟩ | ⟨m, hm, -, hp⟩ | ⟨-, hp⟩⟩ <;>
      simp only [hp, Queue.Holds, cached_cache_self, committed_cache, committed_onCommit, List.mem_append,
        List.mem_singleton, Option.some.injEq, Prod.mk.injEq, true_and] at he
    · rcases he with rfl | he
      · exact Or.inr ⟨rfl, Or.inl rfl⟩
      · exact Or.inl (Or.inr he)
    · rcases he with rfl | he | rfl
      · exact Or.inr ⟨rfl, Or.inl rfl⟩
      · exact Or.inl (Or.inr he)
      · exact Or.inr ⟨rfl, Or.inr ⟨last, Or.inl hc, hm⟩⟩
    · rcases he with rfl | he
      · exact Or.inr ⟨rfl, Or.inr ⟨last, Or.inl hc, hm⟩⟩
      · exact Or.inl (Or.inr he)
    · rcases he with rfl | he | rfl
      · exact Or.inr ⟨rfl, Or.inl rfl⟩
      · exact Or.inl (Or.inr he)
      · exact Or.inl (Or.inl hc)
  · left
    rcases he with he | he
    · rw [cached_push_of_ne q h p hst] at he
      exact Or.inl he
    · right
      rcases push_cases q t h p with ⟨-, hp⟩ | ⟨last, -, ⟨m, -, -, hp⟩ | ⟨m, -, -, hp⟩ | ⟨-, hp⟩⟩ <;>
        simp only [hp, committed_cache, committed_onCommit, List.mem_append, List.mem_singleton, Prod.mk.injEq,
          hst, false_and, or_false] at he <;> exact he

theorem committed_push_subset (q : Queue δ) (t : String) (h : Event δ) (p : Int) {x : String × Event δ}
    (hx : x ∈ q.committed) : x ∈ (q.push t h p).committed := by
  rcases push_cases q t h p with ⟨-, hp⟩ | ⟨last, -, ⟨m, -, -, hp⟩ | ⟨m, -, -, hp⟩ | ⟨-, hp⟩⟩ <;>
    simp only [hp, committed_cache, committed_onCommit, List.mem_append, hx, true_or]

theorem merge_span_subset {last h m : Event δ} {p : Int} (hm : heartbeatMerge (some last) (some h) p = some m) :
    last.span.set ⊆ m.span.set := by
  obtain ⟨-, -, -, hts, hdur⟩ := heartbeatMerge_eq_some.mp hm
  apply Set.Ico_subset_Ico hts.le
  simp only [Event.span_stop, hts, hdur]
  omega

theorem push_retains (q : Queue δ) (t : String) (h : Event δ) (p : Int) : Retains q (q.push t h p) := by
  intro s e he
  rcases he with he | he
  · by_cases hst : s = t
    · subst hst
      rcases push_cases q s h p with ⟨hc, -⟩ | ⟨last, hc, ⟨m, hm, -, hp⟩ | ⟨m, hm, -, hp⟩ | ⟨-, hp⟩⟩
      · rw [hc] at he
        cases he
      all_goals obtain rfl : last = e := Option.some.inj (hc.symm.trans he)
      · refine ⟨m, Or.inr (by simp [hp]), ?_, merge_span_subset hm⟩
        exact (heartbeatMerge_eq_some.mp hm).2.2.1
      · refine ⟨m, Or.inl (by simp [hp]), ?_, merge_span_subset hm⟩
        exact (heartbeatMerge_eq_some.mp hm).2.2.1
      · exact ⟨last, Or.inr (by simp [hp]), rfl, subset_rfl⟩
    · exact ⟨e, Or.inl ((cached_push_of_ne q h p hst).trans he), rfl, subset_rfl⟩
  · exact ⟨e, Or.inr (committed_push_subset q t h p he), rfl, subset_rfl⟩

/-- The pushed event lies inside an event the queue then holds, unless the merge wraps. -/
theorem push_covers {q : Queue δ} {t : String} {h : Event δ} {p : Int} (hpos : 0 < h.duration)
    (hfit : q.FitsOp (.push t h p)) :
    ∃ e, (q.push t h p).Holds t e ∧ e.data = h.data ∧ h.span.set ⊆ e.span.set := by
  rcases push_cases q t h p with ⟨-, hp⟩ | ⟨last, hc, ⟨m, hm, -, hp⟩ | ⟨m, hm, hlim, hp⟩ | ⟨-, hp⟩⟩
  · exact ⟨h, Or.inl (by simp [hp]), rfl, subset_rfl⟩
  · exact ⟨h, Or.inl (by simp [hp]), rfl, subset_rfl⟩
  · have hspan := merged_span_of_fits hm hpos (hfit last hc m hm hlim)
    have hw := (heartbeatMerge_eq_some.mp hm).2.1
    refine ⟨m, Or.inl (by simp [hp]), heartbeatMerge_data hm, ?_⟩
    rw [hspan]
    exact Span.set_subset_stretch_of_le hw.1
  · exact ⟨h, Or.inl (by simp [hp]), rfl, subset_rfl⟩

end Held

/-! ## The account of a run -/

section Account
variable {δ : Type}

/-- **The account of a queue** after `ops`: what it holds is grown from the pushes of its stream and payload. -/
structure Accounts (P : Int) (ops : List (QueueOp δ)) (q : Queue δ) : Prop where
  positive : ∀ s e, q.Holds s e → 0 < e.duration
  grown : ∀ s e, q.Holds s e → Grown P (Pulses ops s e.data) e.span

/-- Every push lies inside something held. -/
def Covers (ops : List (QueueOp δ)) (q : Queue δ) : Prop :=
  ∀ s h, Pushed ops s h → ∃ e, q.Holds s e ∧ e.data = h.data ∧ h.span.set ⊆ e.span.set

theorem accounts_newQueue (P ci : Int) : Accounts P [] (newQueue ci : Queue δ) := by
  have hnone : ∀ s e, ¬ (newQueue ci : Queue δ).Holds s e := by
    intro s e h
    simp [Queue.Holds] at h
  exact ⟨fun s e h => absurd h (hnone s e), fun s e h => absurd h (hnone s e)⟩

theorem Pulses.snoc {ops : List (QueueOp δ)} {s : String} {d : δ} {x : Span Int} (op : QueueOp δ)
    (h : Pulses ops s d x) : Pulses (ops ++ [op]) s d x := by
  obtain ⟨e, he, hd, hx⟩ := h
  exact ⟨e, he.append [op], hd, hx⟩

/-- An operation that holds nothing new keeps the account. -/
theorem Accounts.of_holds {P : Int} {ops : List (QueueOp δ)} {q q' : Queue δ} (ha : Accounts P ops q)
    (op : QueueOp δ) (hold : ∀ s e, q'.Holds s e → q.Holds s e) : Accounts P (ops ++ [op]) q' where
  positive s e h := ha.positive s e (hold s e h)
  grown s e h := (ha.grown s e (hold s e h)).mono fun _ hx => hx.snoc op

/-- An operation that retains what was held covers what was pushed before. -/
theorem Covers.retained {ops : List (QueueOp δ)} {q q' : Queue δ} (hq : Covers ops q) (hret : Retains q q') :
    Covers ops q' := by
  intro s h hp
  obtain ⟨e, he, hd, hsub⟩ := hq s h hp
  obtain ⟨e', he', hd', hsub'⟩ := hret s e he
  exact ⟨e', he', hd'.trans hd, hsub.trans hsub'⟩

/-- Only a push adds to what must be covered. -/
theorem Covers.snoc {ops : List (QueueOp δ)} {op : QueueOp δ} {q : Queue δ} (hq : Covers ops q)
    (hop : ∀ s e p, op = .push s e p → ∃ e', q.Holds s e' ∧ e'.data = e.data ∧ e.span.set ⊆ e'.span.set) :
    Covers (ops ++ [op]) q := by
  rintro s h ⟨p, hmem⟩
  rcases List.mem_append.mp hmem with hmem | hmem
  · exact hq s h ⟨p, hmem⟩
  · exact hop s h p (List.mem_singleton.mp hmem).symm

theorem holds_flushAll_committed {q : Queue δ} {s : String} {e : Event δ} (h : q.flushAll.Holds s e) :
    (s, e) ∈ q.flushAll.committed := by
  rcases h with h | h
  · rw [cached_flushAll] at h
    cases h
  · exact h

/-- The calls of `Push` on the streams and events of `pushes`, at one pulse time. -/
def pushOps (pushes : List (String × Event δ)) (p : Int) : List (QueueOp δ) :=
  pushes.map fun x => .push x.1 x.2 p

theorem pushed_pushOps {pushes : List (String × Event δ)} {p : Int} {s : String} {e : Event δ} :
    Pushed (pushOps pushes p ++ [.flushAll]) s e ↔ (s, e) ∈ pushes := by
  simp [Pushed, pushOps]

variable [DecidableEq δ]

theorem Accounts.push {P : Int} {ops : List (QueueOp δ)} {q : Queue δ} (ha : Accounts P ops q) {t : String}
    {h : Event δ} {p : Int} (hpos : 0 < h.duration) (hle : p ≤ P) :
    Accounts P (ops ++ [.push t h p]) (q.push t h p) where
  positive s e he := by
    rcases push_holds he with he | ⟨-, rfl | ⟨last, hlast, hm⟩⟩
    · exact ha.positive s e he
    · exact hpos
    · have hl := ha.positive t last hlast
      rw [heartbeatMerge_duration hm]
      exact lt_max_of_lt_left hl
  grown s e he := by
    have hnew : Pulses (ops ++ [.push t h p]) t h.data h.span := ⟨h, ⟨p, by simp⟩, rfl, rfl⟩
    rcases push_holds he with he | ⟨rfl, rfl | ⟨last, hlast, hm⟩⟩
    · exact (ha.grown s e he).mono fun _ hx => hx.snoc _
    · exact .pulse hnew
    · obtain ⟨hd, hw, hmd, -⟩ := heartbeatMerge_eq_some.mp hm
      have hold := (ha.grown s last hlast).mono fun _ hx => hx.snoc (.push s h p)
      rw [hmd]
      by_cases hfits : Fits last h
      · rw [merged_span_of_fits hm hpos hfits]
        refine .stretch hold (hd ▸ hnew) ⟨hw.1, ?_⟩
        have := hw.2
        omega
      · rwa [merged_span_of_not_fits hm hpos (ha.positive s last hlast) hfits]

/-- The pushes of `ops` have positive durations and pulse times at most `P`. -/
def Paced (P : Int) (ops : List (QueueOp δ)) : Prop :=
  ∀ s e p, .push s e p ∈ ops → 0 < e.duration ∧ p ≤ P

/-- **Every run keeps the account.** -/
theorem accounts_run {P : Int} {ops : List (QueueOp δ)} (hp : Paced P ops) (ci : Int) :
    Accounts P ops ((newQueue ci).run ops) := by
  induction ops using List.reverseRecOn with
  | nil => exact accounts_newQueue P ci
  | append_singleton ops op ih =>
      have ih := ih fun s e p hmem => hp s e p (List.mem_append_left _ hmem)
      rw [run_snoc]
      cases op with
      | push t h p =>
          obtain ⟨hpos, hle⟩ := hp t h p (by simp)
          exact ih.push hpos hle
      | flush t => exact ih.of_holds _ fun s e => flush_holds
      | flushAll => exact ih.of_holds _ fun s e => flushAll_holds

/-- **A run in which no merge wraps covers its pushes.** -/
theorem covers_run {P : Int} {ops : List (QueueOp δ)} (hp : Paced P ops) {ci : Int} (hfit : (newQueue ci).AllFit ops) :
    Covers ops ((newQueue ci).run ops) := by
  induction ops using List.reverseRecOn with
  | nil =>
      rintro s h ⟨p, hmem⟩
      exact absurd hmem List.not_mem_nil
  | append_singleton ops op ih =>
      obtain ⟨hops, hop⟩ := (allFit_snoc _ _ _).mp hfit
      have hp' : Paced P ops := fun s e p hmem => hp s e p (List.mem_append_left _ hmem)
      have ih := ih hp' hops
      rw [run_snoc]
      cases op with
      | push t h p =>
          apply (ih.retained (push_retains _ t h p)).snoc
          intro s e p' heq
          cases heq
          exact push_covers (hp t h p (by simp)).1 hop
      | flush t => exact (ih.retained (flush_retains _ t)).snoc fun _ _ _ heq => nomatch heq
      | flushAll =>
          exact (ih.retained (flushAll_retains (accounts_run hp' ci).positive)).snoc fun _ _ _ heq => nomatch heq

/-- **The queue loses nothing and invents nothing.** After any pushes of positive duration at one pulse time and a
`FlushAll`, every instant of a committed event lies in a pushed event of its stream and payload or at most the pulse time
after the end of one; and if no merge wraps whose event stays cached, every pushed event lies inside a committed event of
its stream and payload. -/
theorem flushAll_covers_pushes (ci p : Int) (pushes : List (String × Event δ))
    (hpos : ∀ x ∈ pushes, 0 < x.2.duration) :
    ((newQueue ci).AllFit (pushOps pushes p) →
      ∀ s e, (s, e) ∈ pushes → ∃ c, (s, c) ∈ ((newQueue ci).run (pushOps pushes p ++ [.flushAll])).committed ∧
        c.data = e.data ∧ e.span.set ⊆ c.span.set) ∧
      ∀ s c, (s, c) ∈ ((newQueue ci).run (pushOps pushes p ++ [.flushAll])).committed → ∀ y ∈ c.span.set,
        ∃ e, (s, e) ∈ pushes ∧ e.data = c.data ∧
          (y ∈ e.span.set ∨ e.span.stop ≤ y ∧ y ≤ e.span.stop + p) := by
  have hpaced : Paced p (pushOps pushes p ++ [.flushAll]) := by
    intro s e p' hmem
    simp only [pushOps, List.mem_append, List.mem_map, List.mem_singleton, reduceCtorEq, or_false,
      QueueOp.push.injEq] at hmem
    obtain ⟨x, hx, -, rfl, rfl⟩ := hmem
    exact ⟨hpos x hx, le_rfl⟩
  constructor
  · intro hfit s e he
    have hfit' : (newQueue ci).AllFit (pushOps pushes p ++ [.flushAll]) := (allFit_snoc _ _ _).mpr ⟨hfit, trivial⟩
    obtain ⟨c, hc, hd, hsub⟩ := covers_run hpaced hfit' s e (pushed_pushOps.mpr he)
    rw [run_snoc] at hc ⊢
    exact ⟨c, holds_flushAll_committed hc, hd, hsub⟩
  · intro s c hc y hy
    obtain ⟨x, ⟨e, he, hd, rfl⟩, hnear⟩ := ((accounts_run hpaced ci).grown s c (Or.inr hc)).near hy
    refine ⟨e, pushed_pushOps.mp he, hd, hnear.imp_right fun h => ⟨h.1, h.2.le⟩⟩

/-- Two streams, a merge, a gap and an out-of-order heartbeat. -/
def samplePushes : List (String × Event String) :=
  [("window", .of 0 1 "a"), ("afk", .of 5 1 "idle"), ("window", .of 2 1 "a"), ("window", .of 1 1 "b")]

theorem flushAll_covers_pushes_sample :
    ∃ c : Event String, ("window", c) ∈ ((newQueue 60).run (pushOps samplePushes 2 ++ [.flushAll])).committed ∧
      c.data = "a" ∧ (Event.of 2 1 "a").span.set ⊆ c.span.set :=
  (flushAll_covers_pushes 60 2 samplePushes (by decide)).1 (by decide) "window" (.of 2 1 "a") (by decide)

/-- The second event merges into the first, whose new duration wraps: it is in no committed event. -/
theorem not_covers_pushes_wrapped :
    let pushes : List (String × Event String) := [("window", .of 0 second "a"), ("window", .of second maxDuration "a")]
    ((newQueue (60 * second)).run (pushOps pushes (2 * second) ++ [.flushAll])).committed =
        [("window", .of 0 second "a")] ∧
      ¬ ∃ c, ("window", c) ∈ ((newQueue (60 * second)).run (pushOps pushes (2 * second) ++ [.flushAll])).committed ∧
        c.data = "a" ∧ (Event.of second maxDuration "a").span.set ⊆ c.span.set := by
  have hcommitted : ((newQueue (60 * second)).run (pushOps [("window", .of 0 second "a"),
      ("window", .of second maxDuration "a")] (2 * second) ++ [.flushAll])).committed =
        [("window", Event.of 0 second "a")] := by decide
  refine ⟨hcommitted, ?_⟩
  rintro ⟨c, hc, -, hsub⟩
  rw [hcommitted, List.mem_singleton] at hc
  obtain rfl := (Prod.mk.inj hc).2
  have hin : (second : Int) ∈ (Event.of 0 second "a").span.set := hsub (by simp [second, maxDuration])
  simp at hin

end Account

end TimeChamp.Heartbeat
