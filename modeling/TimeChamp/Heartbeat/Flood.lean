import Mathlib.Data.List.Sort
import TimeChamp.Heartbeat.Overlap

/-!
# Flooding the gaps between events

`Flood` of `internal/heartbeat/merge.go`: sort by timestamp, then one pass over the adjacent pairs that closes gaps of at
most the pulse time. A merge leaves its right event behind with duration 0, and that event is the left neighbour of the
next pair.

* `Event.endAt`, `Event.startAt` : an event with its end or its start moved, whose new duration saturates;
* `Flooded p events out` : what the result should be;
* `Left` : what stands to the left of the next event during the pass, followed by `Left.next` through the sorted events;
* `Mendable p es` : nothing of the result is spoiled on the way;
* `pass_starts`, `pass_head`, `pass_full` : where the events that a pass leaves begin and end;
* `pass_emptied_open`, `pass_emptied_near` : what becomes of an event that was merged away.
-/

namespace TimeChamp.Heartbeat
open TimeChamp.Lib.Pulse TimeChamp.Lib.Duration

section Moves
variable {δ : Type}

/-- The event with its end moved to `t`. -/
def Event.endAt (e : Event δ) (t : Int) : Event δ :=
  { e with duration := sub t e.timestamp, inRange := inRange_sub t e.timestamp }

/-- The event with its start moved to `t`. -/
def Event.startAt (e : Event δ) (t : Int) : Event δ :=
  { e with timestamp := t, duration := sub e.span.stop t, inRange := inRange_sub e.span.stop t }

/-- What is left of an event that was merged away. -/
def Event.emptied (e : Event δ) : Event δ := { e with duration := 0, inRange := by decide }

variable {e : Event δ} {t : Int}

@[simp] theorem emptied_timestamp : e.emptied.timestamp = e.timestamp := rfl

@[simp] theorem emptied_duration : e.emptied.duration = 0 := rfl

@[simp] theorem emptied_data : e.emptied.data = e.data := rfl

theorem span_endAt (h : e.timestamp ≤ t) : (e.endAt t).span = ⟨e.timestamp, min t (e.timestamp + maxDuration)⟩ := by
  simp only [Event.span, Event.endAt, Span.mk.injEq, true_and]
  rw [sub_of_le h]
  omega

theorem span_startAt (h : t ≤ e.span.stop) : (e.startAt t).span = ⟨t, min e.span.stop (t + maxDuration)⟩ := by
  have hsub : (e.startAt t).duration = min (e.span.stop - t) maxDuration := sub_of_le h
  simp only [Event.span, hsub, Span.mk.injEq]
  exact ⟨rfl, by simp only [Event.startAt, Event.span_stop]; omega⟩

end Moves

section Flood
variable {δ : Type} [DecidableEq δ]

/-- The body of the loop: one pair of neighbours. -/
def close (pulsetime : Int) (e1 e2 : Event δ) : Event δ × Event δ :=
  let end1 := e1.span.stop
  let gap := sub e2.timestamp end1
  if gap ≤ 0 ∨ pulsetime < gap then (e1, e2)
  else if e1.data = e2.data then (e1.endAt e2.span.stop, e2.emptied)
  else if e2.duration ≤ e1.duration then (e1.endAt e2.timestamp, e2)
  else (e1, e2.startAt end1)

/-- The loop, from the left neighbour on. -/
def pass (pulsetime : Int) : Event δ → List (Event δ) → List (Event δ)
  | e1, [] => [e1]
  | e1, e2 :: rest =>
    let r := close pulsetime e1 e2
    r.1 :: pass pulsetime r.2 rest

/-- No later timestamp. -/
def NotAfter (a b : Event δ) : Prop := a.timestamp ≤ b.timestamp

instance : DecidableRel (NotAfter : Event δ → Event δ → Prop) := fun a b =>
  inferInstanceAs (Decidable (a.timestamp ≤ b.timestamp))

instance : Std.Total (NotAfter : Event δ → Event δ → Prop) := ⟨fun a b => le_total a.timestamp b.timestamp⟩

instance : IsTrans (Event δ) NotAfter := ⟨fun _ _ _ hab hbc => le_trans hab hbc⟩

/-- `sort.Slice` by `Timestamp.Before`; in which order it leaves equal timestamps is not specified. -/
def sortEvents (events : List (Event δ)) : List (Event δ) := events.insertionSort NotAfter

/-- The events that are not removed at the end. -/
def dropEmpty (es : List (Event δ)) : List (Event δ) := es.filter fun e => 0 < e.duration

/-- `Flood`. -/
def flood (events : List (Event δ)) (pulsetime : Int) : List (Event δ) :=
  if events.length < 2 then events
  else
    match sortEvents events with
    | [] => []
    | e :: rest => dropEmpty (pass pulsetime e rest)

/-! ## What it should give -/

/-- `b` is the next event after `a`, which it does not overlap. -/
def Adjacent (events : List (Event δ)) (a b : Event δ) : Prop :=
  a ∈ events ∧ b ∈ events ∧ Before a.span b.span ∧ ∀ c ∈ events, c.timestamp ≤ a.timestamp ∨ b.timestamp ≤ c.timestamp

/-- The result is sorted and without overlap, covers every event by events of its data, and adds only gaps of at most the
pulse time between adjacent events. -/
structure Flooded (p : Int) (events out : List (Event δ)) : Prop where
  ordered : Ordered out
  apart : NonOverlapping out
  covered : ∀ e ∈ events, ∀ y ∈ e.span.set, ∃ o ∈ out, o.data = e.data ∧ y ∈ o.span.set
  gaps : ∀ o ∈ out, ∀ y ∈ o.span.set, (∃ e ∈ events, y ∈ e.span.set) ∨
    ∃ a b, Adjacent events a b ∧ b.timestamp - a.span.stop ≤ p ∧ a.span.stop ≤ y ∧ y < b.timestamp

/-! ## When it does -/

/-- What is left of the next event, after the event `a`: an event from `start` to the end of `a`, or what remains of `a`
when it was merged into an event that covers it (`gone`) or that ends before it (`short`). -/
inductive Left where
  | whole (start : Int)
  | gone
  | short
deriving DecidableEq

/-- The gap from `stop` to `b` is left as it is. -/
def LeavesOpen (p stop : Int) (b : Event δ) : Prop := sub b.timestamp stop ≤ 0 ∨ p < sub b.timestamp stop

instance (p stop : Int) (b : Event δ) : Decidable (LeavesOpen p stop b) := inferInstanceAs (Decidable (_ ∨ _))

/-- An event from `start` to the end of `a` may be extended towards `b`: the gap is short enough, or it is of the longest
duration already. -/
def Extends (p start : Int) (a b : Event δ) : Prop :=
  b.timestamp - a.span.stop ≤ p ∨ a.span.stop - start = maxDuration

instance (p start : Int) (a b : Event δ) : Decidable (Extends p start a b) := inferInstanceAs (Decidable (_ ∨ _))

/-- What is left when `b` is merged into an event from `start` to the end of `a`. When the duration saturates, the merged
event ends before `b` does. -/
def Left.merged (p start : Int) (a b : Event δ) : Option Left :=
  if b.span.stop - start ≤ maxDuration then some .gone
  else if Extends p start a b ∧ start + maxDuration ≤ b.timestamp then some .short
  else none

/-- What is left after `b`; `none` when the result is spoiled. -/
def Left.next (p : Int) (a b : Event δ) : Left → Option Left
  | .whole start =>
    if LeavesOpen p a.span.stop b then some (.whole b.timestamp)
    else if a.data = b.data then merged p start a b
    else if b.duration ≤ a.span.stop - start then
      if Extends p start a b then some (.whole b.timestamp) else none
    else if b.span.stop - a.span.stop ≤ maxDuration then some (.whole a.span.stop)
    else none
  | .gone => if LeavesOpen p a.timestamp b then some (.whole b.timestamp) else none
  | .short => if ¬ LeavesOpen p a.timestamp b ∧ a.data = b.data then merged p a.timestamp a b else none

/-- What is left at the end of the list. -/
def Left.scan (p : Int) : Left → Event δ → List (Event δ) → Option Left
  | left, _, [] => some left
  | left, a, b :: rest => (left.next p a b).bind fun left' => scan p left' b rest

/-- Nothing is spoiled, and no event is left without its end. -/
def Left.Mends (p : Int) (left : Left) (a : Event δ) (rest : List (Event δ)) : Prop :=
  ∃ left' ∈ left.scan p a rest, left' ≠ .short

instance (p : Int) (left : Left) (a : Event δ) (rest : List (Event δ)) : Decidable (left.Mends p a rest) :=
  inferInstanceAs (Decidable (∃ left' ∈ _, _))

/-- The pass over the sorted events spoils nothing. -/
def Mendable (p : Int) : List (Event δ) → Prop
  | [] => True
  | a :: rest => (Left.whole a.timestamp).Mends p a rest

instance decidableMendable (p : Int) : ∀ es : List (Event δ), Decidable (Mendable p es)
  | [] => isTrue trivial
  | a :: rest => inferInstanceAs (Decidable ((Left.whole a.timestamp).Mends p a rest))

/-- Events with durations, each before the next. -/
structure Lined (es : List (Event δ)) : Prop where
  positive : ∀ e ∈ es, 0 < e.duration
  before : es.Pairwise fun a b => Before a.span b.span

section Left
variable {p : Int} {left : Left} {a b : Event δ} {rest : List (Event δ)}

theorem mends_nil : left.Mends p a [] ↔ left ≠ .short := by
  simp [Left.Mends, Left.scan]

theorem mends_cons : left.Mends p a (b :: rest) ↔ ∃ left' ∈ left.next p a b, left'.Mends p b rest := by
  simp only [Left.Mends, Left.scan, Option.mem_def, Option.bind_eq_some_iff]
  constructor
  · rintro ⟨end_, ⟨left', hnext, hscan⟩, hend⟩
    exact ⟨left', hnext, end_, hscan, hend⟩
  · rintro ⟨left', hnext, end_, hscan, hend⟩
    exact ⟨end_, ⟨left', hnext, hscan⟩, hend⟩

omit [DecidableEq δ] in
theorem leavesOpen_iff {stop : Int} (h : stop ≤ b.timestamp) :
    LeavesOpen p stop b ↔ b.timestamp = stop ∨ p < b.timestamp - stop ∧ p < maxDuration := by
  rw [LeavesOpen, sub_of_le h, lt_min_iff, maxDuration_eq]
  omega

omit [DecidableEq δ] in
theorem Lined.tail (h : Lined (a :: rest)) : Lined rest :=
  ⟨fun e he => h.positive e (List.mem_cons_of_mem _ he), h.before.of_cons⟩

omit [DecidableEq δ] in
theorem Lined.head_before (h : Lined (a :: b :: rest)) : a.span.stop ≤ b.timestamp :=
  (List.pairwise_cons.mp h.before).1 b List.mem_cons_self

omit [DecidableEq δ] in
/-- No event of the list begins before its head. -/
theorem Lined.head_le (h : Lined (a :: rest)) {e : Event δ} (he : e ∈ a :: rest) : a.timestamp ≤ e.timestamp := by
  rcases List.mem_cons.mp he with rfl | he
  · exact le_rfl
  · have hle := (List.pairwise_cons.mp h.before).1 e he
    have hpos := h.positive a List.mem_cons_self
    simp only [Before, Event.span_start, Event.span_stop] at hle
    omega

end Left

/-! ## One pair -/

theorem close_cases (p : Int) (x b : Event δ) :
    (LeavesOpen p x.span.stop b ∧ close p x b = (x, b)) ∨
    (¬ LeavesOpen p x.span.stop b ∧
      ((x.data = b.data ∧ close p x b = (x.endAt b.span.stop, b.emptied)) ∨
        (x.data ≠ b.data ∧ b.duration ≤ x.duration ∧ close p x b = (x.endAt b.timestamp, b)) ∨
        (x.data ≠ b.data ∧ x.duration < b.duration ∧ close p x b = (x, b.startAt x.span.stop)))) := by
  unfold close
  dsimp only
  by_cases hgap : LeavesOpen p x.span.stop b
  · exact Or.inl ⟨hgap, if_pos hgap⟩
  · have hgap' := hgap
    rw [LeavesOpen] at hgap'
    rw [if_neg hgap']
    refine Or.inr ⟨hgap, ?_⟩
    by_cases hd : x.data = b.data
    · exact Or.inl ⟨hd, if_pos hd⟩
    · rw [if_neg hd]
      by_cases hl : b.duration ≤ x.duration
      · exact Or.inr (Or.inl ⟨hd, hl, if_pos hl⟩)
      · exact Or.inr (Or.inr ⟨hd, not_le.mp hl, if_neg hl⟩)

theorem pass_cons (p : Int) (x b : Event δ) (rest : List (Event δ)) :
    pass p x (b :: rest) = (close p x b).1 :: pass p (close p x b).2 rest := rfl

section Close
omit [DecidableEq δ]
variable {p : Int} {x b e : Event δ}

/-- A gap that is closed is one. -/
theorem lt_of_not_leavesOpen {stop : Int} (h : ¬ LeavesOpen p stop b) : stop < b.timestamp ∧ 0 < p := by
  rw [LeavesOpen, not_or, not_le, not_lt, Lib.Duration.sub_pos] at h
  exact ⟨h.1, lt_of_lt_of_le (Lib.Duration.sub_pos.mpr h.1) h.2⟩

theorem duration_endAt_pos {t : Int} (h : x.timestamp < t) : 0 < (x.endAt t).duration := Lib.Duration.sub_pos.mpr h

theorem dropEmpty_cons_of_pos (h : 0 < e.duration) (es : List (Event δ)) : dropEmpty (e :: es) = e :: dropEmpty es := by
  simp [dropEmpty, h]

theorem dropEmpty_cons_of_zero (h : e.duration = 0) (es : List (Event δ)) : dropEmpty (e :: es) = dropEmpty es := by
  simp [dropEmpty, h]

end Close
/-! ## What the pass leaves -/

section Pass
variable {p : Int} {x a b c : Event δ} {rest : List (Event δ)}

/-- Nothing that the pass leaves begins before its left neighbour. -/
theorem pass_starts (hl : Lined rest) (hx : 0 ≤ x.duration) (hrest : ∀ b ∈ rest, x.span.stop ≤ b.timestamp) :
    ∀ o ∈ pass p x rest, x.timestamp ≤ o.timestamp := by
  induction rest generalizing x with
  | nil =>
      intro o ho
      rw [List.mem_singleton.mp ho]
  | cons b rest ih =>
      have hb := hl.positive b List.mem_cons_self
      have hxb := hrest b List.mem_cons_self
      have hxle : x.timestamp ≤ x.span.stop := by
        rw [Event.span_stop]
        omega
      have hbc : ∀ c ∈ rest, b.span.stop ≤ c.timestamp := (List.pairwise_cons.mp hl.before).1
      have hnext : ∀ e : Event δ, 0 ≤ e.duration → e.span.stop ≤ b.span.stop → x.timestamp ≤ e.timestamp →
          ∀ o ∈ pass p e rest, x.timestamp ≤ o.timestamp := fun e he hstop hle o ho =>
        hle.trans (ih hl.tail he (fun c hc => hstop.trans (hbc c hc)) o ho)
      rw [pass_cons]
      rcases close_cases p x b with ⟨-, hc⟩ | ⟨-, ⟨-, hc⟩ | ⟨-, -, hc⟩ | ⟨-, -, hc⟩⟩ <;> rw [hc] <;>
        refine List.forall_mem_cons.mpr ⟨le_rfl, ?_⟩
      · exact hnext b hb.le le_rfl (hxle.trans hxb)
      · refine hnext b.emptied le_rfl ?_ (hxle.trans hxb)
        simp only [Event.span_stop, emptied_timestamp, emptied_duration]
        omega
      · exact hnext b hb.le le_rfl (hxle.trans hxb)
      · have hle : x.span.stop ≤ b.span.stop := by
          simp only [Event.span_stop] at hxb ⊢
          omega
        have hspan := span_startAt hle
        refine hnext _ ?_ ?_ hxle
        · show 0 ≤ sub b.span.stop x.span.stop
          rw [sub_of_le hle, maxDuration_eq]
          omega
        · rw [hspan]
          exact min_le_left _ _

omit [DecidableEq δ] in
theorem mem_dropEmpty {es : List (Event δ)} {o : Event δ} : o ∈ dropEmpty es ↔ o ∈ es ∧ 0 < o.duration := by
  simp [dropEmpty]

/-- The first event that the pass leaves is its left neighbour, never shorter than before. -/
theorem pass_head (p : Int) (hrest : ∀ e ∈ rest, 0 < e.duration) :
    ∃ o tail, pass p x rest = o :: tail ∧ o.timestamp = x.timestamp ∧ o.data = x.data ∧ x.duration ≤ o.duration := by
  cases rest with
  | nil => exact ⟨x, [], rfl, rfl, rfl, le_rfl⟩
  | cons b rest =>
      have hb := hrest b List.mem_cons_self
      rw [pass_cons]
      rcases close_cases p x b with ⟨-, hc⟩ | ⟨hopen, hc⟩
      · rw [hc]
        exact ⟨x, _, rfl, rfl, rfl, le_rfl⟩
      · have hlt := (lt_of_not_leavesOpen hopen).1
        have hx := x.inRange
        simp only [Event.span_stop, InRange] at hlt hx
        rcases hc with ⟨-, hc⟩ | ⟨-, -, hc⟩ | ⟨-, -, hc⟩ <;> rw [hc] <;> refine ⟨_, _, rfl, rfl, rfl, ?_⟩
        · show x.duration ≤ sub b.span.stop x.timestamp
          simp only [sub, Event.span_stop]
          omega
        · show x.duration ≤ sub b.timestamp x.timestamp
          simp only [sub]
          omega
        · exact le_rfl

/-- An event of the longest duration stays as it is, and what comes after it begins with a later event. -/
theorem pass_full (hl : Lined rest) (hx : x.duration = maxDuration) (hrest : ∀ c ∈ rest, x.span.stop ≤ c.timestamp) :
    ∀ o ∈ pass p x rest, o.span = x.span ∨ ∃ c ∈ rest, c.timestamp ≤ o.timestamp := by
  cases rest with
  | nil =>
      intro o ho
      exact Or.inl (List.mem_singleton.mp ho ▸ rfl)
  | cons c rest =>
      have hc := hl.positive c List.mem_cons_self
      have hxc := hrest c List.mem_cons_self
      have hstop : x.span.stop = x.timestamp + maxDuration := by rw [Event.span_stop, hx]
      have hfull : ∀ t, x.span.stop ≤ t → (x.endAt t).span = x.span := by
        intro t ht
        have hle : x.timestamp ≤ t := by
          rw [hstop, maxDuration_eq] at ht
          omega
        rw [span_endAt hle, ← hstop, min_eq_right ht]
        rfl
      have hlater : ∀ e : Event δ, e.timestamp = c.timestamp → 0 ≤ e.duration → e.span.stop ≤ c.span.stop →
          ∀ o ∈ pass p e rest, o.span = x.span ∨ ∃ d ∈ c :: rest, d.timestamp ≤ o.timestamp := by
        intro e hstart he hle o ho
        have hafter : ∀ d ∈ rest, e.span.stop ≤ d.timestamp := fun d hd =>
          hle.trans ((List.pairwise_cons.mp hl.before).1 d hd)
        exact Or.inr ⟨c, List.mem_cons_self, hstart ▸ pass_starts hl.tail he hafter o ho⟩
      rw [pass_cons]
      rcases close_cases p x c with ⟨-, heq⟩ | ⟨-, ⟨-, heq⟩ | ⟨-, -, heq⟩ | ⟨-, hlong, -⟩⟩
      · rw [heq]
        exact List.forall_mem_cons.mpr ⟨Or.inl rfl, hlater c rfl hc.le le_rfl⟩
      · rw [heq]
        refine List.forall_mem_cons.mpr ⟨Or.inl (hfull _ ?_), hlater c.emptied rfl le_rfl ?_⟩ <;>
          simp only [Event.span_stop, emptied_timestamp, emptied_duration] at hxc ⊢ <;> omega
      · rw [heq]
        exact List.forall_mem_cons.mpr ⟨Or.inl (hfull _ hxc), hlater c rfl hc.le le_rfl⟩
      · have hmax := c.inRange.2
        omega

/-! ### What remains of an event that was merged away -/

theorem pass_emptied_nil (b : Event δ) : dropEmpty (pass p b.emptied []) = [] := rfl

omit [DecidableEq δ] in
theorem emptied_stop (b : Event δ) : b.emptied.span.stop = b.timestamp := by simp

theorem pass_emptied_open (hopen : LeavesOpen p b.timestamp c) :
    dropEmpty (pass p b.emptied (c :: rest)) = dropEmpty (pass p c rest) := by
  rw [pass_cons]
  rcases close_cases p b.emptied c with ⟨-, hc⟩ | ⟨hnot, -⟩
  · rw [hc]
    exact dropEmpty_cons_of_zero rfl _
  · exact absurd ((emptied_stop b).symm ▸ hopen) hnot

theorem pass_emptied_merge (hopen : ¬ LeavesOpen p b.timestamp c) (hd : b.data = c.data) :
    pass p b.emptied (c :: rest) = b.emptied.endAt c.span.stop :: pass p c.emptied rest := by
  rw [pass_cons]
  rcases close_cases p b.emptied c with ⟨hskip, -⟩ | ⟨-, ⟨-, hc⟩ | ⟨hne, -⟩ | ⟨hne, -⟩⟩
  · exact absurd (emptied_stop b ▸ hskip) hopen
  · rw [hc]
  · exact absurd hd hne
  · exact absurd hd hne

/-- When the next event is near, an event is back that begins where the one merged away did. -/
theorem pass_emptied_near (hl : Lined (c :: rest)) (hopen : ¬ LeavesOpen p b.timestamp c) :
    ∃ o ∈ dropEmpty (pass p b.emptied (c :: rest)), o.timestamp = b.timestamp ∧ o.data = c.data := by
  have hc := hl.positive c List.mem_cons_self
  have hlt := (lt_of_not_leavesOpen hopen).1
  have hstop : b.timestamp < c.span.stop := by
    rw [Event.span_stop]
    omega
  rw [pass_cons]
  rcases close_cases p b.emptied c with ⟨hskip, -⟩ | ⟨-, ⟨hd, heq⟩ | ⟨-, hlong, -⟩ | ⟨-, -, heq⟩⟩
  · exact absurd (emptied_stop b ▸ hskip) hopen
  · rw [heq]
    exact ⟨_, mem_dropEmpty.mpr ⟨List.mem_cons_self, duration_endAt_pos hstop⟩, rfl, hd⟩
  · exact absurd hlong (not_le.mpr hc)
  · rw [heq, emptied_stop]
    obtain ⟨o, tail, hpass, hstart, hdata, hdur⟩ :=
      pass_head p (x := c.startAt b.timestamp) fun e he => hl.positive e (List.mem_cons_of_mem _ he)
    have hpos : 0 < (c.startAt b.timestamp).duration := Lib.Duration.sub_pos.mpr hstop
    refine ⟨o, mem_dropEmpty.mpr ⟨List.mem_cons_of_mem _ ?_, hpos.trans_le hdur⟩, hstart, hdata⟩
    rw [hpass]
    exact List.mem_cons_self

end Pass

end Flood
end TimeChamp.Heartbeat
