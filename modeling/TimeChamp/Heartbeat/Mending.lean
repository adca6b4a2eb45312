import TimeChamp.Heartbeat.Flood

/-!
# When the flooded events are right

* `Filled p start a rest out` : what a pass over `rest` should leave, from an event that begins at `start` and ends with
  `a`;
* `filled_cons_iff` : the first event that it leaves and the rest are right together exactly when each is;
* `Decides p a rest`, `decides` : **what is left of the next event decides** whether the pass leaves what it should, an
  induction over the events with a step for each kind of `Left`;
* `mendable_iff_clear` : while no duration saturates, nothing is spoiled exactly when after each merge the next event is
  farther than the pulse time from the one merged away (`Clear`);
* `flood_iff` : **the flooded events are sorted, apart, and cover the events and gaps as they should exactly when the
  sorted events are mendable.**
-/

namespace TimeChamp.Heartbeat
open TimeChamp.Lib.Pulse TimeChamp.Lib.Duration

section Mending
variable {δ : Type} [DecidableEq δ]

/-! ## What it should leave -/

/-- `y` lies in a gap of at most `p` between two neighbours of the list. -/
def InGap (p : Int) (es : List (Event δ)) (y : Int) : Prop :=
  ∃ b c, [b, c] <:+: es ∧ c.timestamp - b.span.stop ≤ p ∧ b.span.stop ≤ y ∧ y < c.timestamp

/-- What a pass over `rest` should leave, from an event that begins at `start`, no later than the event `a`. -/
structure Filled (p start : Int) (a : Event δ) (rest out : List (Event δ)) : Prop where
  before : out.Pairwise fun o o' => Before o.span o'.span
  covered : ∀ e ∈ a :: rest, ∀ y ∈ e.span.set, ∃ o ∈ out, o.data = e.data ∧ y ∈ o.span.set
  gaps : ∀ o ∈ out, ∀ y ∈ o.span.set,
    (start ≤ y ∧ y < a.span.stop) ∨ (∃ e ∈ rest, y ∈ e.span.set) ∨ InGap p (a :: rest) y

section Gaps
omit [DecidableEq δ]
variable {p y t : Int} {a b : Event δ} {rest mid : List (Event δ)}

theorem InGap.mono {es es' : List (Event δ)} (h : InGap p es y) (hsub : es <:+: es') : InGap p es' y := by
  obtain ⟨b, c, hbc, hrest⟩ := h
  exact ⟨b, c, hbc.trans hsub, hrest⟩

theorem inGap_cons : InGap p (a :: b :: rest) y ↔
    (b.timestamp - a.span.stop ≤ p ∧ a.span.stop ≤ y ∧ y < b.timestamp) ∨ InGap p (b :: rest) y := by
  constructor
  · rintro ⟨a', b', hin, hgap⟩
    rcases List.infix_cons_iff.mp hin with hpre | hin
    · simp only [List.cons_prefix_cons, List.nil_prefix, and_true] at hpre
      exact Or.inl (hpre.1 ▸ hpre.2 ▸ hgap)
    · exact Or.inr ⟨a', b', hin, hgap⟩
  · rintro (hgap | hin)
    · exact ⟨a, b, ⟨[], rest, rfl⟩, hgap⟩
    · exact hin.mono (List.suffix_cons a _).isInfix

/-- Gaps come after the first event. -/
theorem InGap.after (hl : Lined (a :: rest)) (h : InGap p (a :: rest) y) : a.span.stop ≤ y := by
  obtain ⟨b, c, hin, -, hle, -⟩ := h
  refine le_trans ?_ hle
  rcases List.mem_cons.mp (hin.subset List.mem_cons_self) with rfl | hb
  · exact le_rfl
  · have hab := (List.pairwise_cons.mp hl.before).1 b hb
    have hpos := hl.positive b (List.mem_cons_of_mem _ hb)
    simp only [Before, Event.span_start, Event.span_stop] at hab ⊢
    omega

/-- From the end of the first events on, gaps are before the next event or after it. -/
theorem InGap.of_append (hmid : ∀ e ∈ mid, e.timestamp ≤ y) (h : InGap p (mid ++ b :: rest) y) :
    y < b.timestamp ∨ InGap p (b :: rest) y := by
  induction mid with
  | nil => exact Or.inr h
  | cons a mid ih =>
      have htail := ih fun e he => hmid e (List.mem_cons_of_mem _ he)
      cases mid with
      | nil => exact (inGap_cons.mp h).imp_left fun hgap => hgap.2.2
      | cons a' mid =>
          rcases inGap_cons.mp h with ⟨-, -, hlt⟩ | h
          · exact absurd hlt (not_lt.mpr (hmid a' (by simp)))
          · exact htail h

end Gaps

section Filled
omit [DecidableEq δ]
variable {p start t : Int} {a b o : Event δ} {mid rest out : List (Event δ)}

theorem filled_single (hcov : ∀ e ∈ a :: mid, o.data = e.data ∧ e.span.set ⊆ o.span.set)
    (hgap : ∀ y ∈ o.span.set, (start ≤ y ∧ y < a.span.stop) ∨ (∃ e ∈ mid, y ∈ e.span.set) ∨ InGap p (a :: mid) y) :
    Filled p start a mid [o] where
  before := List.pairwise_singleton ..
  covered e he y hy := ⟨o, List.mem_singleton_self o, (hcov e he).1, (hcov e he).2 hy⟩
  gaps o' ho' := by
    obtain rfl := List.mem_singleton.mp ho'
    exact hgap

/-- **An event for the first ones** and what the pass leaves from `t` on are right together exactly when each is. -/
theorem filled_cons_iff (mid : List (Event δ)) (hl : Lined (a :: (mid ++ b :: rest)))
    (hout : ∀ o' ∈ out, t ≤ o'.timestamp) (ho : o.span.stop ≤ t)
    (hcov : ∀ e ∈ a :: mid, o.data = e.data ∧ e.span.set ⊆ o.span.set) (hends : ∀ e ∈ a :: mid, e.span.stop ≤ t)
    (htb : t ≤ b.timestamp) (hpush : ∀ y, t ≤ y → y < b.timestamp → InGap p (a :: (mid ++ b :: rest)) y) :
    Filled p start a (mid ++ b :: rest) (o :: out) ↔
      (∀ y ∈ o.span.set, (start ≤ y ∧ y < a.span.stop) ∨ (∃ e ∈ mid ++ b :: rest, y ∈ e.span.set) ∨
        InGap p (a :: (mid ++ b :: rest)) y) ∧ Filled p t b rest out := by
  have hl' : Lined (b :: rest) :=
    ⟨fun e he => hl.positive e (by simp [List.mem_cons.mp he]),
      (hl.before.of_cons).sublist (List.sublist_append_right ..)⟩
  constructor
  · intro h
    refine ⟨h.gaps o List.mem_cons_self, h.before.of_cons, fun e he y hy => ?_, fun o' ho' y hy => ?_⟩
    · obtain ⟨o', ho', hd, hin⟩ := h.covered e (by simp [List.mem_cons.mp he]) y hy
      rcases List.mem_cons.mp ho' with rfl | ho'
      · have hbe := hl'.head_le he
        have hlt := hin.2
        have hge := hy.1
        simp only [Event.span_start] at hge
        omega
      · exact ⟨o', ho', hd, hin⟩
    · have hty : t ≤ y := (hout o' ho').trans hy.1
      rcases h.gaps o' (List.mem_cons_of_mem _ ho') y hy with ⟨-, hlt⟩ | ⟨e, he, hin⟩ | hin
      · exact absurd (hlt.trans_le (hends a List.mem_cons_self)) (not_lt.mpr hty)
      · rcases List.mem_append.mp he with he | he
        · exact absurd (hin.2.trans_le (hends e (List.mem_cons_of_mem _ he))) (not_lt.mpr hty)
        · rcases List.mem_cons.mp he with rfl | he
          · exact Or.inl ⟨hty, hin.2⟩
          · exact Or.inr (Or.inl ⟨e, he, hin⟩)
      · have hmid : ∀ e ∈ a :: mid, e.timestamp ≤ y := by
          intro e he
          have hpos := hl.positive e (by simpa using (List.mem_cons.mp he).imp_right Or.inl)
          have hend := hends e he
          simp only [Event.span_stop] at hend
          omega
        rcases InGap.of_append hmid hin with hlt | hin
        · have hb := hl'.positive b List.mem_cons_self
          refine Or.inl ⟨hty, ?_⟩
          rw [Event.span_stop]
          omega
        · exact Or.inr (Or.inr hin)
  · rintro ⟨hgap, h⟩
    refine ⟨List.pairwise_cons.mpr ⟨fun o' ho' => ho.trans (hout o' ho'), h.before⟩, fun e he y hy => ?_,
      List.forall_mem_cons.mpr ⟨hgap, fun o' ho' y hy => ?_⟩⟩
    · rcases List.mem_append.mp (show e ∈ (a :: mid) ++ b :: rest from he) with he | he
      · exact ⟨o, List.mem_cons_self, (hcov e he).1, (hcov e he).2 hy⟩
      · obtain ⟨o', ho', hd, hin⟩ := h.covered e he y hy
        exact ⟨o', List.mem_cons_of_mem _ ho', hd, hin⟩
    · rcases h.gaps o' ho' y hy with ⟨hty, hlt⟩ | ⟨e, he, hin⟩ | hin
      · by_cases hyb : y < b.timestamp
        · exact Or.inr (Or.inr (hpush y hty hyb))
        · exact Or.inr (Or.inl ⟨b, by simp, not_lt.mp hyb, hlt⟩)
      · exact Or.inr (Or.inl ⟨e, by simp [he], hin⟩)
      · exact Or.inr (Or.inr (hin.mono (List.suffix_append (a :: mid) (b :: rest)).isInfix))

/-! ### One pair -/

/-- An event that ends with `a`, before the next one. -/
theorem filled_keep_iff (hl : Lined (a :: b :: rest)) (hout : ∀ o' ∈ out, t ≤ o'.timestamp)
    (hspan : o.span = ⟨start, a.span.stop⟩)
    (hd : o.data = a.data) (hstart : start ≤ a.timestamp) (hat : a.span.stop ≤ t) (htb : t ≤ b.timestamp)
    (hpush : ∀ y, t ≤ y → y < b.timestamp → InGap p (a :: b :: rest) y) :
    Filled p start a (b :: rest) (o :: out) ↔ Filled p t b rest out := by
  refine (filled_cons_iff [] hl hout (by rw [hspan]; exact hat) ?_ (by simpa using hat) htb hpush).trans
    (and_iff_right fun y hy => Or.inl ?_)
  · refine List.forall_mem_singleton.mpr ⟨hd, fun y hy => ?_⟩
    rw [hspan]
    exact ⟨hstart.trans hy.1, hy.2⟩
  · rw [hspan] at hy
    exact hy

/-- An event that is extended towards `b`, as far as its duration goes. -/
theorem filled_extend_iff (hl : Lined (a :: b :: rest)) (hout : ∀ o' ∈ out, b.timestamp ≤ o'.timestamp)
    (hspan : o.span = ⟨start, min b.timestamp (start + maxDuration)⟩) (hd : o.data = a.data)
    (hstart : start ≤ a.timestamp) (hreach : a.span.stop - start ≤ maxDuration) (hp : 0 ≤ p) :
    Filled p start a (b :: rest) (o :: out) ↔ Extends p start a b ∧ Filled p b.timestamp b rest out := by
  have hab := hl.head_before
  have ha := hl.positive a List.mem_cons_self
  refine (filled_cons_iff [] hl hout (by rw [hspan]; exact min_le_left _ _) ?_ (by simpa using hab) le_rfl
    (fun y hy hlt => absurd hy (not_le.mpr hlt))).trans (and_congr_left fun _ => ?_)
  · refine List.forall_mem_singleton.mpr ⟨hd, fun y hy => ?_⟩
    rw [hspan]
    simp only [Span.mem_set, Event.span_start, Event.span_stop] at hy hab hreach ⊢
    omega
  · rw [hspan]
    simp only [Span.mem_set, List.nil_append, lt_min_iff]
    constructor
    · intro h
      by_contra hnot
      rw [Extends, not_or, not_le] at hnot
      have hlt : a.span.stop < b.timestamp ∧ a.span.stop < start + maxDuration := by omega
      have hge : start ≤ a.span.stop := by
        rw [Event.span_stop]
        omega
      rcases h a.span.stop ⟨hge, hlt⟩ with ⟨-, h⟩ | ⟨e, he, h⟩ | h
      · exact absurd h (lt_irrefl _)
      · have hle := (hl.tail.head_le he).trans h.1
        omega
      · rcases inGap_cons.mp h with ⟨hle, -⟩ | h
        · omega
        · have hle := h.after hl.tail
          have hb := hl.tail.positive b List.mem_cons_self
          rw [Event.span_stop b] at hle
          omega
    · rintro h y ⟨hsy, hyb, hys⟩
      by_cases hya : y < a.span.stop
      · exact Or.inl ⟨hsy, hya⟩
      · rcases h with hle | heq
        · exact Or.inr (Or.inr (inGap_cons.mpr (Or.inl ⟨hle, not_lt.mp hya, hyb⟩)))
        · omega

/-- An event that covers `a` and `b`. -/
theorem merged_covers (hspan : o.span = ⟨start, b.span.stop⟩) (hd : o.data = a.data) (hab : a.data = b.data)
    (hl : Lined (a :: b :: rest)) (hstart : start ≤ a.timestamp) :
    ∀ e ∈ [a, b], o.data = e.data ∧ e.span.set ⊆ o.span.set := by
  have hle := hl.head_before
  have ha := hl.positive a List.mem_cons_self
  have hb := hl.positive b (by simp)
  rw [hspan]
  refine List.forall_mem_cons.mpr ⟨⟨hd, fun y hy => ?_⟩, List.forall_mem_singleton.mpr ⟨hd.trans hab, fun y hy => ?_⟩⟩ <;>
    simp only [Span.mem_set, Event.span_start, Event.span_stop] at hy hle ⊢ <;> omega

theorem merged_gaps (hspan : o.span = ⟨start, b.span.stop⟩) (hle : b.timestamp - a.span.stop ≤ p) :
    ∀ y ∈ o.span.set, (start ≤ y ∧ y < a.span.stop) ∨ (∃ e ∈ b :: rest, y ∈ e.span.set) ∨ InGap p (a :: b :: rest) y := by
  intro y hy
  rw [hspan] at hy
  by_cases hya : y < a.span.stop
  · exact Or.inl ⟨hy.1, hya⟩
  · by_cases hyb : y < b.timestamp
    · exact Or.inr (Or.inr (inGap_cons.mpr (Or.inl ⟨hle, not_lt.mp hya, hyb⟩)))
    · exact Or.inr (Or.inl ⟨b, List.mem_cons_self, not_lt.mp hyb, hy.2⟩)

end Filled

/-! ## The pass over a list -/

/-- `x` is `a` with its start moved back. -/
structure Widened (x a : Event δ) : Prop where
  start : x.timestamp ≤ a.timestamp
  stop : x.span.stop = a.span.stop
  data : x.data = a.data

/-- What is left of the next event decides whether the pass over `rest` leaves what it should: after an event that ends
with `a`, after one that ends before `a`, and together with one that covers `a` and the event `a'` before it. -/
structure Decides (p : Int) (a : Event δ) (rest : List (Event δ)) : Prop where
  whole : ∀ x, Widened x a →
    (Filled p x.timestamp a rest (dropEmpty (pass p x rest)) ↔ (Left.whole x.timestamp).Mends p a rest)
  short : Filled p a.timestamp a rest (dropEmpty (pass p a.emptied rest)) ↔ Left.short.Mends p a rest
  gone : ∀ (start : Int) (a' o : Event δ), Lined (a' :: a :: rest) → start ≤ a'.timestamp →
    o.span = ⟨start, a.span.stop⟩ → o.data = a'.data → a'.data = a.data → a.timestamp - a'.span.stop ≤ p →
    (Filled p start a' (a :: rest) (o :: dropEmpty (pass p a.emptied rest)) ↔ Left.gone.Mends p a rest)

section Steps
variable {p start : Int} {x a b o : Event δ} {rest out : List (Event δ)}

omit [DecidableEq δ] in
theorem Widened.refl (a : Event δ) : Widened a a := ⟨le_rfl, rfl, rfl⟩

omit [DecidableEq δ] in
theorem Widened.duration_eq (hw : Widened x a) : x.duration = a.span.stop - x.timestamp := by
  rw [← hw.stop, Event.span_stop]
  omega

omit [DecidableEq δ] in
theorem Widened.span_eq (hw : Widened x a) : x.span = ⟨x.timestamp, a.span.stop⟩ := by
  rw [← hw.stop]
  rfl

omit [DecidableEq δ] in
theorem Widened.duration_pos (hw : Widened x a) (ha : 0 < a.duration) : 0 < x.duration := by
  have hstart := hw.start
  rw [hw.duration_eq, Event.span_stop]
  omega

theorem leaves_starts (hl : Lined (b :: rest)) (hx : 0 ≤ x.duration) (hstop : x.span.stop ≤ b.span.stop) :
    ∀ o ∈ dropEmpty (pass p x rest), x.timestamp ≤ o.timestamp := fun o ho =>
  pass_starts hl.tail hx (fun c hc => hstop.trans ((List.pairwise_cons.mp hl.before).1 c hc)) o (mem_dropEmpty.mp ho).1

theorem emptied_starts (hl : Lined (b :: rest)) : ∀ o ∈ dropEmpty (pass p b.emptied rest), b.timestamp ≤ o.timestamp := by
  have hb := hl.positive b List.mem_cons_self
  refine leaves_starts (x := b.emptied) hl le_rfl ?_
  rw [emptied_stop, Event.span_stop]
  omega

omit [DecidableEq δ] in
/-- Two events of the result that share an instant are one. -/
theorem Filled.eq_of_mem (h : Filled p start a rest out) {o o' : Event δ} (ho : o ∈ out) (ho' : o' ∈ out) {y : Int}
    (hy : y ∈ o.span.set) (hy' : y ∈ o'.span.set) : o = o' := by
  by_contra hne
  have hdis : out.Pairwise fun o o' : Event δ => Disjoint o.span.set o'.span.set := h.before.imp fun hb => hb.disjoint
  have : Std.Symm fun o o' : Event δ => Disjoint o.span.set o'.span.set := ⟨fun _ _ hd => hd.symm⟩
  exact Set.disjoint_left.mp (hdis.forall ho ho' hne) hy hy'

/-! ### An event that was merged away -/

theorem mends_gone_cons : Left.gone.Mends p a (b :: rest) ↔
    LeavesOpen p a.timestamp b ∧ (Left.whole b.timestamp).Mends p b rest := by
  rw [mends_cons, Left.next]
  by_cases hopen : LeavesOpen p a.timestamp b <;> simp [hopen]

theorem gone_nil (a : Event δ) (start : Int) (a' o : Event δ) (hl : Lined [a', a]) (hstart : start ≤ a'.timestamp)
    (hspan : o.span = ⟨start, a.span.stop⟩) (hd : o.data = a'.data) (hd' : a'.data = a.data)
    (hle : a.timestamp - a'.span.stop ≤ p) :
    Filled p start a' [a] (o :: dropEmpty (pass p a.emptied [])) ↔ Left.gone.Mends p a [] := by
  rw [mends_nil, pass_emptied_nil]
  exact iff_of_true (filled_single (merged_covers hspan hd hd' hl hstart) (merged_gaps hspan hle)) (by decide)

theorem gone_cons (ih : Decides p b rest) (start : Int) (a' o : Event δ) (hl : Lined (a' :: a :: b :: rest))
    (hstart : start ≤ a'.timestamp) (hspan : o.span = ⟨start, a.span.stop⟩) (hd : o.data = a'.data)
    (hd' : a'.data = a.data) (hle : a.timestamp - a'.span.stop ≤ p) :
    Filled p start a' (a :: b :: rest) (o :: dropEmpty (pass p a.emptied (b :: rest))) ↔
      Left.gone.Mends p a (b :: rest) := by
  have ha := hl.positive a (by simp)
  have hb := hl.positive b (by simp)
  have hab := hl.tail.head_before
  have ha'a := hl.head_before
  have ha' : a'.span.stop ≤ b.timestamp := by
    rw [Event.span_stop a] at hab
    omega
  rw [mends_gone_cons]
  by_cases hopen : LeavesOpen p a.timestamp b
  · rw [pass_emptied_open hopen, and_iff_right hopen, ← ih.whole b (Widened.refl b)]
    refine (filled_cons_iff [a] hl (leaves_starts hl.tail.tail hb.le le_rfl) (by rw [hspan]; exact hab)
      (merged_covers hspan hd hd' hl hstart) ?_ le_rfl fun y hy hlt => absurd hy (not_le.mpr hlt)).trans
      (and_iff_right (merged_gaps hspan hle))
    exact List.forall_mem_cons.mpr ⟨ha', List.forall_mem_singleton.mpr hab⟩
  · refine iff_of_false (fun h => ?_) fun h => hopen h.1
    obtain ⟨o', ho', hstart', -⟩ := pass_emptied_near hl.tail.tail hopen
    have hbefore := (List.pairwise_cons.mp h.before).1 o' ho'
    rw [hspan] at hbefore
    simp only [Before, Event.span_start, Event.span_stop] at hbefore
    omega

/-! ### A merge -/

/-- An event whose duration saturates ends inside the event that is merged into it: no event can have the rest. -/
theorem not_filled_overrun (hl : Lined (a :: b :: rest)) (hspan : o.span = ⟨start, start + maxDuration⟩)
    (hroom : b.timestamp < start + maxDuration) (hfit : start + maxDuration < b.span.stop) :
    ¬ Filled p start a (b :: rest) (o :: dropEmpty (pass p b.emptied rest)) := by
  intro h
  obtain ⟨o', ho', -, hin⟩ := h.covered b (by simp) (start + maxDuration) ⟨hroom.le, hfit⟩
  rcases List.mem_cons.mp ho' with rfl | ho'
  · rw [hspan] at hin
    exact absurd hin.2 (lt_irrefl _)
  · cases rest with
    | nil => exact absurd ho' List.not_mem_nil
    | cons c rest =>
        have hbc := hl.tail.head_before
        by_cases hopen : LeavesOpen p b.timestamp c
        · rw [pass_emptied_open hopen] at ho'
          have hc := hl.positive c (by simp)
          have hle := (leaves_starts hl.tail.tail hc.le le_rfl o' ho').trans hin.1
          omega
        · obtain ⟨o'', ho'', hstart, -⟩ := pass_emptied_near hl.tail.tail hopen
          have hbefore := (List.pairwise_cons.mp h.before).1 o'' ho''
          rw [hspan] at hbefore
          simp only [Before, Event.span_start] at hbefore
          omega

theorem merged_iff (ih : Decides p b rest) (hl : Lined (a :: b :: rest)) (hstart : x.timestamp ≤ a.timestamp)
    (hreach : a.span.stop - x.timestamp ≤ maxDuration) (hx : x.data = a.data) (hd : a.data = b.data) (hp : 0 < p)
    (hnear : b.span.stop - x.timestamp ≤ maxDuration → b.timestamp - a.span.stop ≤ p) :
    Filled p x.timestamp a (b :: rest) (dropEmpty (x.endAt b.span.stop :: pass p b.emptied rest)) ↔
      ∃ left ∈ Left.merged p x.timestamp a b, left.Mends p b rest := by
  have ha := hl.positive a List.mem_cons_self
  have hb := hl.positive b (by simp)
  have hxb : x.timestamp < b.span.stop := by
    have hab := hl.head_before
    simp only [Event.span_stop] at hab ⊢
    omega
  have hspan := span_endAt hxb.le
  rw [dropEmpty_cons_of_pos (duration_endAt_pos hxb), Left.merged]
  by_cases hfit : b.span.stop - x.timestamp ≤ maxDuration
  · rw [min_eq_left (by omega)] at hspan
    simp only [if_pos hfit, Option.mem_some_iff, exists_eq_left']
    exact ih.gone _ a _ hl hstart hspan hx hd (hnear hfit)
  · rw [min_eq_right (by omega)] at hspan
    rw [if_neg hfit]
    by_cases hroom : x.timestamp + maxDuration ≤ b.timestamp
    · rw [← min_eq_right hroom] at hspan
      rw [filled_extend_iff hl (emptied_starts hl.tail) hspan hx hstart hreach hp.le, ih.short]
      by_cases hext : Extends p x.timestamp a b <;> simp [hext, hroom]
    · rw [if_neg fun h => hroom h.2]
      refine iff_of_false (not_filled_overrun hl hspan (not_le.mp hroom) (by omega)) ?_
      simp

/-! ### An event that ends before the one merged into it -/

omit [DecidableEq δ] in
theorem not_filled_of_starts (ha : 0 < a.duration) (h : ∀ o ∈ out, a.timestamp < o.timestamp) :
    ¬ Filled p start a rest out := by
  intro hfilled
  obtain ⟨o, ho, -, hin⟩ := hfilled.covered a List.mem_cons_self a.timestamp
    ⟨le_rfl, by rw [Event.span_stop]; omega⟩
  exact absurd hin.1 (not_le.mpr (h o ho))

theorem short_nil (ha : 0 < a.duration) :
    Filled p a.timestamp a [] (dropEmpty (pass p a.emptied [])) ↔ Left.short.Mends p a [] := by
  rw [mends_nil, pass_emptied_nil]
  exact iff_of_false (not_filled_of_starts ha (by simp)) (by simp)

theorem short_cons (ih : Decides p b rest) (hl : Lined (a :: b :: rest)) :
    Filled p a.timestamp a (b :: rest) (dropEmpty (pass p a.emptied (b :: rest))) ↔
      Left.short.Mends p a (b :: rest) := by
  have ha := hl.positive a List.mem_cons_self
  have hb := hl.positive b (by simp)
  have hab := hl.head_before
  rw [mends_cons, Left.next]
  by_cases hopen : LeavesOpen p a.timestamp b
  · rw [pass_emptied_open hopen, if_neg fun h => h.1 hopen]
    refine iff_of_false (not_filled_of_starts ha fun o ho => ?_) (by simp)
    have hle := leaves_starts hl.tail hb.le le_rfl o ho
    rw [Event.span_stop] at hab
    omega
  · obtain ⟨hlt, hp⟩ := lt_of_not_leavesOpen hopen
    by_cases hd : a.data = b.data
    · rw [if_pos ⟨hopen, hd⟩, pass_emptied_merge hopen hd]
      refine merged_iff (x := a.emptied) ih hl le_rfl ?_ rfl hd hp fun hfit => ?_
      · have hmax := a.inRange.2
        rw [Event.span_stop, emptied_timestamp]
        omega
      · rw [LeavesOpen, sub_of_le hlt.le, not_or, not_lt] at hopen
        simp only [Event.span_stop, emptied_timestamp] at hfit ⊢
        omega
    · rw [if_neg fun h => hd h.2]
      refine iff_of_false (fun h => ?_) (by simp)
      have hmem : a.timestamp ∈ a.span.set := ⟨le_rfl, by rw [Event.span_stop]; omega⟩
      obtain ⟨o, ho, hdata, hin⟩ := h.covered a List.mem_cons_self _ hmem
      obtain ⟨o', ho', hstart, hdata'⟩ := pass_emptied_near hl.tail hopen
      have hin' : a.timestamp ∈ o'.span.set := by
        have hpos := (mem_dropEmpty.mp ho').2
        simp only [Span.mem_set, Event.span_start, Event.span_stop]
        omega
      exact hd (hdata.symm.trans ((congrArg Event.data (h.eq_of_mem ho ho' hin hin')).trans hdata'))

/-! ### A whole event -/

/-- An event pushed back out of reach loses its end. -/
theorem not_filled_pushBack (hl : Lined (a :: b :: rest)) (hw : Widened x a)
    (hfit : maxDuration < b.span.stop - a.span.stop) :
    ¬ Filled p start a (b :: rest) (x :: dropEmpty (pass p (b.startAt a.span.stop) rest)) := by
  intro h
  have hb := hl.positive b (by simp)
  have hab := hl.head_before
  have hreach := b.inRange.2
  have hafter : ∀ c ∈ rest, b.span.stop ≤ c.timestamp := (List.pairwise_cons.mp hl.tail.before).1
  have hdur : (b.startAt a.span.stop).duration = maxDuration := by
    show sub b.span.stop a.span.stop = maxDuration
    rw [sub_of_le (by omega)]
    exact min_eq_right hfit.le
  have hstop : (b.startAt a.span.stop).span.stop = a.span.stop + maxDuration := by
    rw [Event.span_stop, hdur]
    rfl
  have hmem : max b.timestamp (a.span.stop + maxDuration) ∈ b.span.set := by
    simp only [Span.mem_set, Event.span_start, Event.span_stop] at hfit ⊢
    omega
  obtain ⟨o, ho, -, hin⟩ := h.covered b (by simp) _ hmem
  rcases List.mem_cons.mp ho with rfl | ho
  · have hlt := hin.2
    rw [hw.stop] at hlt
    omega
  · have hfull := pass_full hl.tail.tail hdur (fun c hc => by have := hafter c hc; omega) o (mem_dropEmpty.mp ho).1
    rcases hfull with hspan | ⟨c, hc, hle⟩
    · rw [hspan] at hin
      have hlt := hin.2
      rw [hstop] at hlt
      omega
    · have hge := hafter c hc
      have hlo := hin.1
      have hhi := hmem.2
      simp only [Event.span_start] at hlo
      omega

/-- The next event is pushed back, as far as its duration goes. -/
theorem pushBack_iff (ih : Decides p b rest) (hl : Lined (a :: b :: rest)) (hw : Widened x a)
    (hlt : a.span.stop < b.timestamp)
    (hnear : b.span.stop - a.span.stop ≤ maxDuration → b.timestamp - a.span.stop ≤ p) :
    Filled p x.timestamp a (b :: rest) (x :: dropEmpty (pass p (b.startAt a.span.stop) rest)) ↔
      ∃ left ∈ if b.span.stop - a.span.stop ≤ maxDuration then some (Left.whole a.span.stop) else none,
        left.Mends p b rest := by
  have hb := hl.positive b (by simp)
  by_cases hfit : b.span.stop - a.span.stop ≤ maxDuration
  · have hle : a.span.stop ≤ b.span.stop := by
      rw [Event.span_stop b]
      omega
    have hpush : Widened (b.startAt a.span.stop) b := by
      refine ⟨hlt.le, ?_, rfl⟩
      rw [span_startAt hle]
      exact min_eq_left (by omega)
    have hgap := hnear hfit
    simp only [if_pos hfit, Option.mem_some_iff, exists_eq_left']
    refine Iff.trans ?_ (ih.whole _ hpush)
    exact filled_keep_iff hl (leaves_starts hl.tail (hpush.duration_pos hb).le hpush.stop.le) hw.span_eq hw.data hw.start
      le_rfl hlt.le fun y hy hyb => inGap_cons.mpr (Or.inl ⟨hgap, hy, hyb⟩)
  · rw [if_neg hfit]
    exact iff_of_false (not_filled_pushBack hl hw (not_le.mp hfit)) (by simp)

theorem whole_nil (hw : Widened x a) (ha : 0 < a.duration) :
    Filled p x.timestamp a [] (dropEmpty (pass p x [])) ↔ (Left.whole x.timestamp).Mends p a [] := by
  rw [mends_nil, pass, dropEmpty_cons_of_pos (hw.duration_pos ha)]
  refine iff_of_true (filled_single ?_ fun y hy => Or.inl ?_) (by simp)
  · refine List.forall_mem_singleton.mpr ⟨hw.data, fun y hy => ?_⟩
    rw [hw.span_eq]
    exact ⟨hw.start.trans hy.1, hy.2⟩
  · rw [hw.span_eq] at hy
    exact hy

theorem whole_cons (ih : Decides p b rest) (hl : Lined (a :: b :: rest)) (hw : Widened x a) :
    Filled p x.timestamp a (b :: rest) (dropEmpty (pass p x (b :: rest))) ↔
      (Left.whole x.timestamp).Mends p a (b :: rest) := by
  have hb := hl.positive b (by simp)
  have hab := hl.head_before
  have hstart := hw.start
  have hdur := hw.duration_eq
  have hreach : a.span.stop - x.timestamp ≤ maxDuration := hdur ▸ x.inRange.2
  have hx := hw.duration_pos (hl.positive a List.mem_cons_self)
  have hcases := close_cases p x b
  rw [hw.stop, hw.data] at hcases
  rw [mends_cons, pass_cons, Left.next]
  rcases hcases with ⟨hopen, hc⟩ | ⟨hopen, hc⟩
  · simp only [hc, if_pos hopen, Option.mem_some_iff, exists_eq_left', dropEmpty_cons_of_pos hx]
    rw [← ih.whole b (Widened.refl b)]
    exact filled_keep_iff hl (leaves_starts hl.tail hb.le le_rfl) hw.span_eq hw.data hstart hab le_rfl
      fun y hy hlt => absurd hy (not_le.mpr hlt)
  · obtain ⟨hlt, hp⟩ := lt_of_not_leavesOpen hopen
    have hnear : b.timestamp - a.span.stop ≤ p ∨ maxDuration < b.timestamp - a.span.stop := by
      rw [LeavesOpen, sub_of_le hlt.le, not_or, not_lt] at hopen
      omega
    rw [if_neg hopen]
    rcases hc with ⟨hd, hc⟩ | ⟨hd, hlong, hc⟩ | ⟨hd, hlong, hc⟩ <;> rw [hc]
    · rw [if_pos hd]
      refine merged_iff ih hl hstart hreach hw.data hd hp fun hfit => hnear.resolve_right ?_
      have ha := hl.positive a List.mem_cons_self
      simp only [Event.span_stop] at hfit hlt ⊢
      omega
    · have hxb : x.timestamp < b.timestamp := by
        rw [Event.span_stop] at hlt
        omega
      rw [if_neg hd, if_pos (hdur ▸ hlong), dropEmpty_cons_of_pos (duration_endAt_pos hxb),
        filled_extend_iff hl (leaves_starts hl.tail hb.le le_rfl) (span_endAt hxb.le) hw.data hstart hreach hp.le,
        ih.whole b (Widened.refl b)]
      by_cases hext : Extends p x.timestamp a b <;> simp [hext]
    · rw [if_neg hd, if_neg (not_le.mpr (hdur ▸ hlong)), dropEmpty_cons_of_pos hx]
      refine pushBack_iff ih hl hw hlt fun hfit => hnear.resolve_right ?_
      rw [Event.span_stop b] at hfit
      omega

/-- **What is left decides**, after each event. -/
theorem decides (hl : Lined (a :: rest)) : Decides p a rest := by
  induction rest generalizing a with
  | nil =>
      have ha := hl.positive a List.mem_cons_self
      exact ⟨fun x hw => whole_nil hw ha, short_nil ha, gone_nil a⟩
  | cons b rest ih =>
      exact ⟨fun x hw => whole_cons (ih hl.tail) hl hw, short_cons (ih hl.tail) hl, gone_cons (ih hl.tail)⟩

end Steps

/-! ## Without saturation -/

/-- The loop merges `b` into `a`. -/
def Joins (p : Int) (a b : Event δ) : Prop :=
  a.data = b.data ∧ a.span.stop < b.timestamp ∧ b.timestamp - a.span.stop ≤ p

instance (p : Int) (a b : Event δ) : Decidable (Joins p a b) :=
  inferInstanceAs (Decidable (a.data = b.data ∧ a.span.stop < b.timestamp ∧ b.timestamp - a.span.stop ≤ p))

/-- After each merge the next event begins more than the pulse time after the event merged away did. -/
def Clear (p : Int) : List (Event δ) → Prop
  | a :: b :: rest =>
    if Joins p a b then (∀ c ∈ rest.head?, p < c.timestamp - b.timestamp) ∧ Clear p rest else Clear p (b :: rest)
  | _ => True

instance decidableClear (p : Int) : ∀ es : List (Event δ), Decidable (Clear p es)
  | [] => isTrue trivial
  | [_] => isTrue trivial
  | a :: b :: rest =>
    have := decidableClear p rest
    have := decidableClear p (b :: rest)
    inferInstanceAs (Decidable (if Joins p a b then (∀ c ∈ rest.head?, p < c.timestamp - b.timestamp) ∧ Clear p rest
      else Clear p (b :: rest)))

/-- Wherever an event is near enough to the one before it, neither can be extended out of the reach of a duration. -/
def Reachable (p : Int) (es : List (Event δ)) : Prop :=
  p < maxDuration ∧
    es.IsChain fun a b => b.timestamp - a.span.stop ≤ p → b.span.stop - a.timestamp + p ≤ maxDuration

instance (p : Int) (es : List (Event δ)) : Decidable (Reachable p es) := inferInstanceAs (Decidable (_ ∧ _))

section Clear
variable {p start : Int} {a b : Event δ} {rest : List (Event δ)}

omit [DecidableEq δ] in
theorem Reachable.tail (h : Reachable p (a :: rest)) : Reachable p rest := ⟨h.1, h.2.of_cons⟩

/-- While no duration saturates, what is left of the next event ends with `a` or is gone. -/
theorem next_whole (hl : Lined (a :: b :: rest)) (hr : Reachable p (a :: b :: rest)) (hstart : start ≤ a.timestamp)
    (hnear : a.timestamp ≤ start + max p 0) :
    (Joins p a b ∧ Left.next p a b (.whole start) = some .gone) ∨
    (¬ Joins p a b ∧ ∃ start', Left.next p a b (.whole start) = some (.whole start') ∧ start' ≤ b.timestamp ∧
      b.timestamp ≤ start' + max p 0) := by
  have hab := hl.head_before
  have ha := hl.positive a List.mem_cons_self
  have hb := hl.positive b (by simp)
  have hp := hr.1
  have hchain := (List.isChain_cons_cons.mp hr.2).1
  rw [Left.next]
  by_cases hopen : LeavesOpen p a.span.stop b
  · refine Or.inr ⟨fun h => ?_, b.timestamp, if_pos hopen, le_rfl, by omega⟩
    rw [leavesOpen_iff hab] at hopen
    have := h.2
    omega
  · have hgap : a.span.stop < b.timestamp ∧ b.timestamp - a.span.stop ≤ p := by
      refine ⟨(lt_of_not_leavesOpen hopen).1, ?_⟩
      rw [leavesOpen_iff hab] at hopen
      omega
    have hreach := hchain hgap.2
    have hfit : b.span.stop - start ≤ maxDuration := by omega
    rw [if_neg hopen]
    by_cases hd : a.data = b.data
    · rw [if_pos hd]
      exact Or.inl ⟨⟨hd, hgap⟩, if_pos hfit⟩
    · rw [if_neg hd]
      refine Or.inr ⟨fun h => hd h.1, ?_⟩
      by_cases hlong : b.duration ≤ a.span.stop - start
      · rw [if_pos hlong]
        exact ⟨b.timestamp, if_pos (Or.inl hgap.2), le_rfl, by omega⟩
      · rw [if_neg hlong]
        refine ⟨a.span.stop, if_pos ?_, hgap.1.le, by omega⟩
        simp only [Event.span_stop] at hreach ⊢
        omega

/-- **While no duration saturates**, nothing is spoiled exactly when each merge is followed by an event that is not near
the one merged away. -/
theorem mends_iff_clear (hl : Lined (a :: rest)) (hr : Reachable p (a :: rest)) :
    (∀ start, start ≤ a.timestamp → a.timestamp ≤ start + max p 0 →
      ((Left.whole start).Mends p a rest ↔ Clear p (a :: rest))) ∧
    (Left.gone.Mends p a rest ↔ (∀ c ∈ rest.head?, p < c.timestamp - a.timestamp) ∧ Clear p rest) := by
  induction rest generalizing a with
  | nil => simp [mends_nil, Clear]
  | cons b rest ih =>
      obtain ⟨hwhole, hgone⟩ := ih hl.tail hr.tail
      constructor
      · intro start hstart hnear
        rw [mends_cons, Clear]
        rcases next_whole hl hr hstart hnear with ⟨hj, hnext⟩ | ⟨hj, start', hnext, hstart', hnear'⟩
        · rw [hnext, if_pos hj]
          simpa using hgone
        · rw [hnext, if_neg hj]
          simpa using hwhole start' hstart' hnear'
      · have hab := hl.head_before
        have ha := hl.positive a List.mem_cons_self
        have hp := hr.1
        rw [Event.span_stop] at hab
        rw [mends_gone_cons, hwhole b.timestamp le_rfl (by omega), leavesOpen_iff (by omega)]
        simp only [List.head?_cons, Option.mem_some_iff, forall_eq']
        refine and_congr_left fun _ => ?_
        omega

theorem mendable_iff_clear {es : List (Event δ)} (hl : Lined es) (hr : Reachable p es) : Mendable p es ↔ Clear p es := by
  cases es with
  | nil => exact iff_of_true trivial trivial
  | cons a rest => exact (mends_iff_clear hl hr).1 a.timestamp le_rfl (by omega)

end Clear

/-! ## Sorting -/

section Sorting
omit [DecidableEq δ]
variable {events : List (Event δ)}

theorem mem_sortEvents {e : Event δ} : e ∈ sortEvents events ↔ e ∈ events := (List.perm_insertionSort NotAfter _).mem_iff

theorem ordered_sortEvents (events : List (Event δ)) : Ordered (sortEvents events) :=
  List.pairwise_insertionSort NotAfter events

/-- Events apart from each other are, in order, each before the next. -/
theorem lined_sortEvents (hpos : ∀ e ∈ events, 0 < e.duration) (hapart : NonOverlapping events) :
    Lined (sortEvents events) := by
  have hpos' : ∀ e ∈ sortEvents events, 0 < e.duration := fun e he => hpos e (mem_sortEvents.mp he)
  have hapart' : NonOverlapping (sortEvents events) :=
    ((List.perm_insertionSort NotAfter events).pairwise_iff fun h => h.symm).mpr hapart
  refine ⟨hpos', ?_⟩
  refine ((ordered_sortEvents events).and hapart').imp_of_mem fun {a b} _ hb hab => ?_
  have hne : b.span.start < b.span.stop := by
    have := hpos' b hb
    simp only [Event.span_start, Event.span_stop]
    omega
  exact Before.of_disjoint hne hab.1 hab.2

/-- Events are adjacent when they are neighbours in the sorted list. -/
theorem adjacent_iff (hl : Lined (sortEvents events)) {a b : Event δ} :
    Adjacent events a b ↔ [a, b] <:+: sortEvents events := by
  constructor
  · rintro ⟨ha, hb, hab, hnone⟩
    obtain ⟨before, after, hs⟩ := List.append_of_mem (mem_sortEvents.mpr ha)
    have hb' := mem_sortEvents.mpr hb
    have hpos := hl.positive
    have horder := hl.before
    rw [hs] at hb' hpos horder
    have ha' := hpos a (by simp)
    simp only [List.pairwise_append, List.pairwise_cons, List.mem_cons] at horder
    simp only [Before, Event.span_start, Event.span_stop] at hab horder
    rcases List.mem_append.mp hb' with hmem | hmem
    · have hba := horder.2.2 b hmem a (Or.inl rfl)
      have hb'' := hpos b hb'
      omega
    · cases after with
      | nil =>
          obtain rfl := List.mem_singleton.mp hmem
          omega
      | cons c after =>
          have hac := horder.2.1.1 c List.mem_cons_self
          have hc := hnone c (mem_sortEvents.mp (hs ▸ by simp))
          have hc' := hpos c (by simp)
          rcases List.mem_cons.mp hmem with rfl | hmem
          · omega
          · rcases List.mem_cons.mp hmem with rfl | hmem
            · exact ⟨before, after, by rw [hs]; simp⟩
            · have hcb := (List.pairwise_cons.mp horder.2.1.2).1 b hmem
              omega
  · intro h
    have hmem : ∀ e ∈ [a, b], e ∈ events := fun e he => mem_sortEvents.mp (h.subset he)
    refine ⟨hmem a (by simp), hmem b (by simp), ?_, fun c hc => ?_⟩
    · exact List.rel_of_pairwise_cons (hl.before.sublist h.sublist) (List.mem_singleton_self b)
    · obtain ⟨pre, post, heq⟩ := h
      have hord := ordered_sortEvents events
      have hc' := mem_sortEvents.mpr hc
      rw [← heq] at hord hc'
      simp only [Ordered, List.pairwise_append, List.pairwise_cons, List.mem_append, List.mem_cons] at hord hc'
      rcases hc' with (hc' | rfl | rfl | hc') | hc'
      · exact Or.inl (hord.1.2.2 c hc' a (by simp))
      · exact Or.inl le_rfl
      · exact Or.inr le_rfl
      · cases hc'
      · exact Or.inr (hord.2.2 b (by simp) c hc')

variable {p : Int} {a : Event δ} {rest out : List (Event δ)}

/-- What a list of sorted events should be flooded to. -/
theorem flooded_iff (hl : Lined (sortEvents events)) (hs : sortEvents events = a :: rest)
    (hpos : ∀ o ∈ out, 0 < o.duration) : Flooded p events out ↔ Filled p a.timestamp a rest out := by
  have hall : ∀ e, e ∈ a :: rest ↔ e ∈ events := fun e => hs ▸ mem_sortEvents
  have hgap : ∀ y, InGap p (a :: rest) y ↔
      ∃ b c, Adjacent events b c ∧ c.timestamp - b.span.stop ≤ p ∧ b.span.stop ≤ y ∧ y < c.timestamp := fun y => by
    simp only [adjacent_iff hl, hs, InGap]
  have hmem : ∀ y, (∃ e ∈ events, y ∈ e.span.set) ↔ y ∈ a.span.set ∨ ∃ e ∈ rest, y ∈ e.span.set := fun y => by
    simp only [← hall, List.mem_cons, exists_eq_or_imp]
  constructor
  · intro h
    refine ⟨?_, fun e he => h.covered e ((hall e).mp he), fun o ho y hy => ?_⟩
    · refine (h.ordered.and h.apart).imp_of_mem fun {o o'} _ ho' hboth => ?_
      have hne : o'.span.start < o'.span.stop := by
        have := hpos o' ho'
        simp only [Event.span_start, Event.span_stop]
        omega
      exact Before.of_disjoint hne hboth.1 hboth.2
    · rcases h.gaps o ho y hy with hin | hin
      · exact ((hmem y).mp hin).imp_right Or.inl
      · exact Or.inr (Or.inr ((hgap y).mpr hin))
  · intro h
    refine ⟨?_, h.before.imp fun hb => hb.disjoint, fun e he => h.covered e ((hall e).mpr he), fun o ho y hy => ?_⟩
    · refine h.before.imp_of_mem fun {o o'} ho _ hb => ?_
      have := hpos o ho
      simp only [Before, Event.span_start, Event.span_stop] at hb
      omega
    · rcases h.gaps o ho y hy with hin | hin | hin
      · exact Or.inl ((hmem y).mpr (Or.inl hin))
      · exact Or.inl ((hmem y).mpr (Or.inr hin))
      · exact Or.inr ((hgap y).mp hin)

end Sorting

/-- A single event needs no pass, and passes unchanged. -/
theorem flood_eq {events : List (Event δ)} {p : Int} (hpos : ∀ e ∈ events, 0 < e.duration) {a : Event δ}
    {rest : List (Event δ)} (hs : sortEvents events = a :: rest) : flood events p = dropEmpty (pass p a rest) := by
  unfold flood
  by_cases hfew : events.length < 2
  · rw [if_pos hfew]
    match events, hfew with
    | [], _ => exact absurd hs (by simp [sortEvents])
    | [e], _ =>
        obtain ⟨rfl, rfl⟩ := List.cons.inj (show [e] = a :: rest by simpa [sortEvents] using hs)
        exact (dropEmpty_cons_of_pos (hpos e List.mem_cons_self) []).symm
    | _ :: _ :: _, hfew =>
        simp only [List.length_cons] at hfew
        omega
  · rw [if_neg hfew, hs]

/-- **When `Flood` does what it should.** For every list of events with positive durations and without overlap: the result
is sorted, without overlap, covers every event by events of its data and adds only gaps of at most the pulse time, exactly
when the pass over the sorted list spoils nothing. -/
theorem flood_iff (pulsetime : Int) (events : List (Event δ)) (hpos : ∀ e ∈ events, 0 < e.duration)
    (hapart : NonOverlapping events) :
    Flooded pulsetime events (flood events pulsetime) ↔ Mendable pulsetime (sortEvents events) := by
  have hl := lined_sortEvents hpos hapart
  cases hs : sortEvents events with
  | nil =>
      obtain rfl : events = [] := List.eq_nil_iff_forall_not_mem.mpr fun e he => by
        simpa [hs] using mem_sortEvents.mpr he
      exact iff_of_true ⟨List.Pairwise.nil, hapart, by simp, by simp [flood]⟩ trivial
  | cons a rest =>
      rw [flood_eq hpos hs, flooded_iff hl hs fun o ho => (mem_dropEmpty.mp ho).2]
      exact (decides (hs ▸ hl)).whole a (Widened.refl a)

/-- The merged event saturates, and does not reach the end of the second one. -/
example : ¬ Mendable (2 * second) (sortEvents [.of (2 * second) maxDuration "a", .of 0 second "a"]) := by decide

/-- Three equal events a second apart: the second one is merged into the first, and comes back for the third. -/
theorem flood_of_three_overlaps :
    let events : List (Event String) := [.of 0 1 "a", .of 2 1 "a", .of 4 1 "a"]
    ¬ Flooded 2 events (flood events 2) := by
  have hout : flood [Event.of 0 1 "a", .of 2 1 "a", .of 4 1 "a"] 2 = [.of 0 3 "a", .of 2 3 "a"] := by decide
  intro events
  rw [hout]
  intro h
  have hdis : Disjoint (Event.of 0 3 "a").span.set (Event.of 2 3 "a").span.set :=
    List.rel_of_pairwise_cons h.apart (List.mem_singleton_self _)
  exact Set.disjoint_left.mp hdis (show (2 : Int) ∈ _ by simp) (by simp)

/-- Two merges far from each other, a longer and a shorter neighbour, out of order. -/
theorem flood_iff_sample :
    let events : List (Event String) := [.of 20 1 "b", .of 0 1 "a", .of 2 1 "a", .of 10 5 "a", .of 16 1 "b"]
    Flooded 2 events (flood events 2) :=
  (flood_iff 2 [.of 20 1 "b", .of 0 1 "a", .of 2 1 "a", .of 10 5 "a", .of 16 1 "b"] (by decide) (by
    simp [NonOverlapping, Event.span, Span.set, Set.Ico_disjoint_Ico])).mpr (by decide)

end Mending
end TimeChamp.Heartbeat
