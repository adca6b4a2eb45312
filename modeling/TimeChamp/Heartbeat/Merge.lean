import Mathlib.Data.List.AList
import TimeChamp.Lib.Duration
import TimeChamp.Lib.Pulse

/-!
# The heartbeat queue

`internal/heartbeat/merge.go`: events, `HeartbeatMerge` and the pre-merge `Queue`.

* Instants are integers of nanoseconds, the durations of events are those that fit 64 bits.
* `Event` is generic in its payload: the package only ever compares payloads (`reflect.DeepEqual`).
* `Queue.committed` is the record of the calls of `onCommit`, oldest first, each with the stream it was made for.
* `newDur` : the duration of a merged event, which wraps when the heartbeat ends too long after the cached event began
  (`newDur_of_fits`, `newDur_neg`);
* `heartbeatMerge_eq_some` : a merge succeeds exactly on equal payloads with the heartbeat `Within` the pulse time;
* `push_cases` : what one `push` can do to its stream.
-/

namespace TimeChamp.Heartbeat
open TimeChamp.Lib.Pulse TimeChamp.Lib.Duration

/-- `time.Second`, in nanoseconds. -/
def second : Int := 1000000000

/-- `time.Hour`. -/
def hour : Int := 3600 * second

/-- A heartbeat event: what was observed, when it began and for how long. -/
structure Event (δ : Type) where
  timestamp : Int
  duration : Int
  data : δ
  inRange : InRange duration
deriving DecidableEq

theorem inRange_second : InRange (1 * second) := by decide

/-- An event of a duration that is seen to be in range. -/
abbrev Event.of {δ : Type} (timestamp duration : Int) (data : δ) (h : InRange duration := by decide) : Event δ :=
  ⟨timestamp, duration, data, h⟩

/-- The span `[timestamp, timestamp + duration)` of an event. -/
def Event.span {δ : Type} (e : Event δ) : Span Int := ⟨e.timestamp, e.timestamp + e.duration⟩

@[simp] theorem Event.span_start {δ : Type} (e : Event δ) : e.span.start = e.timestamp := rfl

@[simp] theorem Event.span_stop {δ : Type} (e : Event δ) : e.span.stop = e.timestamp + e.duration := rfl

theorem Event.duration_le {δ : Type} (e : Event δ) : e.duration ≤ maxDuration := e.inRange.2

section Merge
variable {δ : Type}

/-- `heartbeat.Timestamp.Sub(lastEvent.Timestamp) + heartbeat.Duration`. -/
def newDur (lastEvent heartbeat : Event δ) : Int :=
  wrap (sub heartbeat.timestamp lastEvent.timestamp + heartbeat.duration)

theorem inRange_newDur (last hb : Event δ) : InRange (newDur last hb) := inRange_wrap _

/-- The heartbeat ends in the reach of a duration from the beginning of the cached event. -/
def Fits (last hb : Event δ) : Prop := hb.span.stop - last.timestamp ≤ maxDuration

instance (last hb : Event δ) : Decidable (Fits last hb) := inferInstanceAs (Decidable (_ ≤ _))

variable {last hb m : Event δ} {p : Int}

theorem newDur_of_fits (hle : last.timestamp ≤ hb.timestamp) (hpos : 0 < hb.duration) (h : Fits last hb) :
    newDur last hb = hb.timestamp - last.timestamp + hb.duration := by
  unfold Fits at h
  rw [Event.span_stop] at h
  have hsub : sub hb.timestamp last.timestamp = hb.timestamp - last.timestamp := by
    rw [sub_of_le hle]
    omega
  rw [newDur, hsub]
  apply wrap_eq
  constructor <;> rw [maxDuration_eq] at * <;> omega

/-- A heartbeat that does not fit makes the duration negative. -/
theorem newDur_neg (hle : last.timestamp ≤ hb.timestamp) (hpos : 0 < hb.duration) (h : ¬ Fits last hb) :
    newDur last hb < 0 := by
  have hd := hb.duration_le
  unfold Fits at h
  rw [Event.span_stop] at h
  rw [newDur, sub_of_le hle]
  apply wrap_neg <;> rw [maxDuration_eq] at * <;> omega

/-- A merged event never gets longer than to the end of the heartbeat. -/
theorem newDur_le (hle : last.timestamp ≤ hb.timestamp) :
    newDur last hb ≤ hb.timestamp - last.timestamp + hb.duration := by
  have hd := hb.inRange.1
  have hwrap : newDur last hb ≤ sub hb.timestamp last.timestamp + hb.duration := by
    apply wrap_le
    rw [sub_of_le hle]
    rw [maxDuration_eq] at *
    omega
  rw [sub_of_le hle] at hwrap
  omega

variable [DecidableEq δ]

/-- `HeartbeatMerge`: the cached event extended by the heartbeat, or nothing. -/
def heartbeatMerge (lastEvent heartbeat : Option (Event δ)) (pulsetime : Int) : Option (Event δ) :=
  match lastEvent, heartbeat with
  | some last, some hb =>
    if last.data ≠ hb.data then none
    else
      let pulseEnd := last.timestamp + last.duration + pulsetime
      if hb.timestamp < last.timestamp ∨ pulseEnd < hb.timestamp then none
      else
        some (if last.duration < newDur last hb then
          { last with duration := newDur last hb, inRange := inRange_newDur last hb } else last)
  | _, _ => none

/-- A merge succeeds exactly on equal payloads with the heartbeat within the pulse time, and never shortens the cached
event. -/
theorem heartbeatMerge_eq_some :
    heartbeatMerge (some last) (some hb) p = some m ↔
      last.data = hb.data ∧ Within p last.span hb.span ∧ m.data = last.data ∧ m.timestamp = last.timestamp ∧
        m.duration = max last.duration (newDur last hb) := by
  unfold heartbeatMerge
  by_cases hd : last.data = hb.data
  · by_cases hw : hb.timestamp < last.timestamp ∨ last.timestamp + last.duration + p < hb.timestamp
    · have hout : ¬ Within p last.span hb.span := by
        simp only [Within, Event.span_start, Event.span_stop]
        omega
      simp [hd, hw, hout]
    · have hin : Within p last.span hb.span := by
        simp only [Within, Event.span_start, Event.span_stop]
        omega
      simp only [hd, ne_eq, not_true_eq_false, if_false, hw, Option.some.injEq, hin, true_and]
      obtain ⟨ts, dur, d, hdur⟩ := m
      split_ifs with hlt
      · rw [max_eq_right hlt.le]
        constructor
        · intro h
          obtain ⟨rfl, rfl, rfl⟩ := Event.mk.inj h
          exact ⟨rfl, rfl, rfl⟩
        · rintro ⟨rfl, rfl, rfl⟩
          rfl
      · rw [max_eq_left (not_lt.mp hlt)]
        constructor
        · rintro rfl
          exact ⟨hd, rfl, rfl⟩
        · rintro ⟨rfl, rfl, rfl⟩
          cases last
          simp_all
  · simp [hd]

theorem heartbeatMerge_data (h : heartbeatMerge (some last) (some hb) p = some m) : m.data = hb.data := by
  obtain ⟨hd, -, hm, -⟩ := heartbeatMerge_eq_some.mp h
  exact hm.trans hd

theorem heartbeatMerge_timestamp (h : heartbeatMerge (some last) (some hb) p = some m) : m.timestamp = last.timestamp :=
  (heartbeatMerge_eq_some.mp h).2.2.2.1

theorem heartbeatMerge_duration (h : heartbeatMerge (some last) (some hb) p = some m) :
    m.duration = max last.duration (newDur last hb) :=
  (heartbeatMerge_eq_some.mp h).2.2.2.2

theorem merged_stop_le (h : heartbeatMerge (some last) (some hb) p = some m) :
    m.span.stop ≤ max last.span.stop hb.span.stop := by
  obtain ⟨-, hw, -, hts, hdur⟩ := heartbeatMerge_eq_some.mp h
  have hle : newDur last hb ≤ hb.timestamp - last.timestamp + hb.duration := newDur_le hw.1
  simp only [Event.span_stop, hts, hdur]
  omega

/-- A heartbeat that fits stretches the cached span. -/
theorem merged_span_of_fits (h : heartbeatMerge (some last) (some hb) p = some m) (hpos : 0 < hb.duration)
    (hfits : Fits last hb) : m.span = last.span.stretch hb.span := by
  obtain ⟨-, hw, -, hts, hdur⟩ := heartbeatMerge_eq_some.mp h
  rw [newDur_of_fits hw.1 hpos hfits] at hdur
  simp only [Event.span, Span.stretch, hts, hdur, Span.mk.injEq, true_and]
  omega

/-- One that does not fit leaves an event with a duration as it is. -/
theorem merged_span_of_not_fits (h : heartbeatMerge (some last) (some hb) p = some m) (hpos : 0 < hb.duration)
    (hlast : 0 < last.duration) (hfits : ¬ Fits last hb) : m.span = last.span := by
  obtain ⟨-, hw, -, hts, hdur⟩ := heartbeatMerge_eq_some.mp h
  have hneg := newDur_neg hw.1 hpos hfits
  simp only [Event.span, hts, hdur, Span.mk.injEq, true_and]
  omega

end Merge

/-! ## The queue -/

/-- A single cached event is committed once it is this long, whatever the commit interval. -/
def maxEventDuration : Int := hour

/-- The queue: the cached event of each stream, and the calls of `onCommit` so far. -/
structure Queue (δ : Type) where
  commitInterval : Int
  lastHeartbeat : AList fun _ : String => Event δ
  committed : List (String × Event δ)

variable {δ : Type}

def newQueue (commitInterval : Int) : Queue δ := ⟨commitInterval, ∅, []⟩

/-- The cached event of a stream. -/
def Queue.cached (q : Queue δ) (stream : String) : Option (Event δ) := q.lastHeartbeat.lookup stream

/-- `onCommit(e)`. -/
def Queue.onCommit (q : Queue δ) (stream : String) (e : Event δ) : Queue δ :=
  { q with committed := q.committed ++ [(stream, e)] }

/-- `q.lastHeartbeat[stream] = &e`. -/
def Queue.cache (q : Queue δ) (stream : String) (e : Event δ) : Queue δ :=
  { q with lastHeartbeat := q.lastHeartbeat.insert stream e }

def Queue.push [DecidableEq δ] (q : Queue δ) (stream : String) (event : Event δ) (pulsetime : Int) : Queue δ :=
  match q.cached stream with
  | none => q.cache stream event
  | some last =>
    match heartbeatMerge (some last) (some event) pulsetime with
    | some merged =>
      if q.commitInterval ≤ merged.duration then (q.onCommit stream merged).cache stream event
      else if maxEventDuration ≤ merged.duration then (q.onCommit stream merged).cache stream event
      else q.cache stream merged
    | none => (q.onCommit stream last).cache stream event

def Queue.flush (q : Queue δ) (stream : String) : Queue δ :=
  match q.cached stream with
  | some last =>
    if 0 < last.duration then
      { q.onCommit stream last with lastHeartbeat := q.lastHeartbeat.erase stream }
    else q
  | none => q

/-- `FlushAll`; the order in which it visits the streams is the order of the association list. -/
def Queue.flushAll (q : Queue δ) : Queue δ :=
  { q with
    committed := q.committed ++
      (q.lastHeartbeat.entries.filter fun e => 0 < e.2.duration).map fun e => (e.1, e.2)
    lastHeartbeat := ∅ }

/-! ### What the operations do to one stream -/

@[simp] theorem cached_newQueue (ci : Int) (s : String) : (newQueue ci : Queue δ).cached s = none := rfl

@[simp] theorem committed_newQueue (ci : Int) : (newQueue ci : Queue δ).committed = [] := rfl

@[simp] theorem committed_onCommit (q : Queue δ) (s : String) (e : Event δ) :
    (q.onCommit s e).committed = q.committed ++ [(s, e)] := rfl

@[simp] theorem committed_cache (q : Queue δ) (s : String) (e : Event δ) :
    (q.cache s e).committed = q.committed := rfl

@[simp] theorem cached_cache_self (q : Queue δ) (s : String) (e : Event δ) :
    (q.cache s e).cached s = some e :=
  AList.lookup_insert q.lastHeartbeat

theorem cached_cache_of_ne (q : Queue δ) {s t : String} (e : Event δ) (h : t ≠ s) :
    (q.cache s e).cached t = q.cached t :=
  AList.lookup_insert_ne h

/-- A merged event this long is committed: the commit interval, or the hour cap. -/
def Queue.limit (q : Queue δ) : Int := min q.commitInterval maxEventDuration

/-- The four things one `push` can do: cache the first event, commit a merged event that reached the limit and
cache the pushed one, cache the merged event, or commit the cached event and start fresh. -/
theorem push_cases [DecidableEq δ] (q : Queue δ) (s : String) (e : Event δ) (p : Int) :
    (q.cached s = none ∧ q.push s e p = q.cache s e) ∨
    ∃ last, q.cached s = some last ∧
      ((∃ m, heartbeatMerge (some last) (some e) p = some m ∧ q.limit ≤ m.duration ∧
          q.push s e p = (q.onCommit s m).cache s e) ∨
        (∃ m, heartbeatMerge (some last) (some e) p = some m ∧ m.duration < q.limit ∧
          q.push s e p = q.cache s m) ∨
        heartbeatMerge (some last) (some e) p = none ∧ q.push s e p = (q.onCommit s last).cache s e) := by
  unfold Queue.push
  cases hc : q.cached s with
  | none => exact Or.inl ⟨rfl, rfl⟩
  | some last =>
      refine Or.inr ⟨last, rfl, ?_⟩
      dsimp only
      cases hm : heartbeatMerge (some last) (some e) p with
      | none => exact Or.inr (Or.inr ⟨rfl, rfl⟩)
      | some m =>
          simp only [Queue.limit, min_le_iff, lt_min_iff]
          by_cases hci : q.commitInterval ≤ m.duration
          · exact Or.inl ⟨m, rfl, Or.inl hci, if_pos hci⟩
          · by_cases hcap : maxEventDuration ≤ m.duration
            · exact Or.inl ⟨m, rfl, Or.inr hcap, by rw [if_neg hci, if_pos hcap]⟩
            · exact Or.inr (Or.inl ⟨m, rfl, ⟨not_le.mp hci, not_le.mp hcap⟩, by rw [if_neg hci, if_neg hcap]⟩)

theorem cached_push_of_ne [DecidableEq δ] (q : Queue δ) {s t : String} (e : Event δ) (p : Int) (h : t ≠ s) :
    (q.push s e p).cached t = q.cached t := by
  rcases push_cases q s e p with ⟨-, hp⟩ | ⟨_, -, ⟨_, -, -, hp⟩ | ⟨_, -, -, hp⟩ | ⟨-, hp⟩⟩ <;>
    rw [hp, cached_cache_of_ne _ _ h] <;> rfl

@[simp] theorem cached_flushAll (q : Queue δ) (s : String) : q.flushAll.cached s = none := rfl

/-- `FlushAll` hands over exactly the cached events of positive duration. -/
theorem mem_committed_flushAll {q : Queue δ} {s : String} {e : Event δ} :
    (s, e) ∈ q.flushAll.committed ↔ (s, e) ∈ q.committed ∨ q.cached s = some e ∧ 0 < e.duration := by
  have hlook : q.cached s = some e ↔ (⟨s, e⟩ : Sigma fun _ : String => Event δ) ∈ q.lastHeartbeat.entries :=
    AList.mem_lookup_iff
  simp only [Queue.flushAll, List.mem_append, List.mem_map, List.mem_filter, decide_eq_true_eq, hlook]
  constructor
  · rintro (h | ⟨⟨s', e'⟩, ⟨hmem, hpos⟩, heq⟩)
    · exact Or.inl h
    · cases heq
      exact Or.inr ⟨hmem, hpos⟩
  · rintro (h | ⟨hmem, hpos⟩)
    · exact Or.inl h
    · exact Or.inr ⟨⟨s, e⟩, ⟨hmem, hpos⟩, rfl⟩

/-- `Flush` of a stream hands over its cached event when it has a duration, and leaves the other streams alone. -/
theorem flush_cases (q : Queue δ) (s : String) :
    q.flush s = q ∨ ∃ last, q.cached s = some last ∧ 0 < last.duration ∧
      (q.flush s).committed = q.committed ++ [(s, last)] ∧ (q.flush s).cached s = none ∧
        (q.flush s).commitInterval = q.commitInterval ∧ ∀ t, t ≠ s → (q.flush s).cached t = q.cached t := by
  unfold Queue.flush
  cases hc : q.cached s with
  | none => exact Or.inl rfl
  | some last =>
      dsimp only
      split_ifs with hpos
      · exact Or.inr ⟨last, rfl, hpos, rfl, AList.lookup_erase _ _, rfl,
          fun t ht => AList.lookup_erase_ne ht⟩
      · exact Or.inl rfl

end TimeChamp.Heartbeat
