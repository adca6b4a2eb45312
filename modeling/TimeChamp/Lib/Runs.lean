import Mathlib.Data.List.Induction
import Mathlib.Order.Basic
import Mathlib.Tactic.Ring
import Mathlib.Tactic.Linarith

/-!
# Runs of a transition system

`Reached step G init` are the states reached from `init` by events that `G` allows where they happen; `Reached.inv` is
the invariant rule, and `reached_endOf` reaches the end of a list of events; `forall_prefix_iff_allowed`, that an
invariant holds throughout exactly when every event is allowed; `holds_iff_allowed`, the same of the end of a run, for
an invariant that is never restored. `Run step` is an infinite run of `step`, not necessarily from an initial state, and
`r.total w i n` the sum of the weights of its `n` steps from the `i`-th.

* `Run.balance` : a quantity that every step changes by what it gains and loses;
* `Run.charge` : a quantity that grows by at least `c` for each unit of weight bounds the weight of the steps;
* `Run.fires_le` : timers set at least `m` ahead, of which never more than `b` are pending, fire at most `b` times for
  each `m` of time;
* `Run.extend` : a run changed to take another step at some point, and to stay from there on.
-/

namespace TimeChamp.Lib

/-! ## Finite runs -/

section Finite
variable {σ ε : Type} (step : ε → σ → Option σ) (G : σ → ε → Prop)

/-- The states reached from `init` by events each allowed by `G` in the state it happens in. -/
inductive Reached (init : σ) : σ → Prop where
  | start : Reached init init
  | next {s s' : σ} {e : ε} (h : Reached init s) (hG : G s e) (hn : step e s = some s') : Reached init s'

/-- The events one after the other; `none` when one is not possible. -/
def play (s : σ) : List ε → Option σ
  | [] => some s
  | e :: es => (step e s).bind fun s' => play s' es

/-- Where the events lead; the state itself if they are not possible. -/
def endOf (s : σ) (es : List ε) : σ := (play step s es).getD s

variable {step G}

theorem play_concat (s : σ) (es : List ε) (e : ε) : play step s (es ++ [e]) = (play step s es).bind (step e) := by
  induction es generalizing s with
  | nil =>
      show (step e s).bind some = step e s
      exact Option.bind_fun_some _
  | cons a es ih =>
      show (step a s).bind (fun s' => play step s' (es ++ [e])) = ((step a s).bind fun s' => play step s' es).bind (step e)
      rw [Option.bind_assoc]
      exact congrArg _ (funext ih)

/-- **The invariant rule for the events so far.** -/
theorem play_inv {init s : σ} {I : List ε → σ → Prop} {es : List ε} (h : play step init es = some s) (hinit : I [] init)
    (hstep : ∀ es s e s', I es s → step e s = some s' → I (es ++ [e]) s') : I es s := by
  induction es using List.reverseRecOn generalizing s with
  | nil =>
      cases h
      exact hinit
  | append_singleton es e ih =>
      rw [play_concat] at h
      obtain ⟨t, ht, hnext⟩ := Option.bind_eq_some_iff.mp h
      exact hstep es t e s (ih ht) hnext

/-- **The invariant rule.** -/
theorem Reached.inv {init s : σ} {I : σ → Prop} (h : Reached step G init s) (hinit : I init)
    (hstep : ∀ s e s', I s → G s e → step e s = some s' → I s') : I s := by
  induction h with
  | start => exact hinit
  | next _ hG hn ih => exact hstep _ _ _ ih hG hn

/-- Each event is allowed where it happens. -/
def Allowed (step : ε → σ → Option σ) (G : σ → ε → Prop) (s : σ) : List ε → Prop
  | [] => True
  | e :: es => G s e ∧ ∀ s' ∈ step e s, Allowed step G s' es

instance decidableAllowed [∀ s e, Decidable (G s e)] : ∀ s es, Decidable (Allowed step G s es)
  | _, [] => isTrue trivial
  | s, e :: es =>
    have : ∀ s', Decidable (Allowed step G s' es) := fun s' => decidableAllowed s' es
    inferInstanceAs (Decidable (G s e ∧ ∀ s' ∈ step e s, Allowed step G s' es))

theorem allowed_true (s : σ) (es : List ε) : Allowed step (fun _ _ => True) s es := by
  induction es generalizing s with
  | nil => trivial
  | cons e es ih => exact ⟨trivial, fun s' _ => ih s'⟩

theorem Allowed.of_append {s : σ} {es rest : List ε} (h : Allowed step G s (es ++ rest)) : Allowed step G s es := by
  induction es generalizing s with
  | nil => trivial
  | cons e es ih => exact ⟨h.1, fun s' hs' => ih (h.2 s' hs')⟩

theorem Allowed.rest {s s' : σ} {es rest : List ε} (h : Allowed step G s (es ++ rest)) (hp : play step s es = some s') :
    Allowed step G s' rest := by
  induction es generalizing s with
  | nil =>
      cases hp
      exact h
  | cons e es ih =>
      obtain ⟨t, ht, hrest⟩ := Option.bind_eq_some_iff.mp hp
      exact ih (h.2 t ht) hrest

/-- Two conditions that agree wherever an invariant holds allow the same events. -/
theorem allowed_congr_of_inv {G' : σ → ε → Prop} {R : σ → Prop} (hR : ∀ {s e s'}, R s → step e s = some s' → R s')
    (h : ∀ {s e}, R s → (G s e ↔ G' s e)) {s : σ} (hs : R s) (es : List ε) :
    Allowed step G s es ↔ Allowed step G' s es := by
  induction es generalizing s with
  | nil => exact Iff.rfl
  | cons e es ih =>
      apply and_congr (h hs)
      apply forall_congr'
      intro s'
      apply imp_congr_right
      intro hs'
      exact ih (hR hs hs')

theorem allowed_congr {G' : σ → ε → Prop} (h : ∀ s e, G s e ↔ G' s e) (s : σ) (es : List ε) :
    Allowed step G s es ↔ Allowed step G' s es :=
  allowed_congr_of_inv (R := fun _ => True) (fun _ _ => trivial) (fun _ => h _ _) trivial es

/-- **When an invariant holds throughout.** If every step from a good state keeps it exactly when `G` allows the event,
then it holds of every state on the way exactly when every event is allowed. -/
theorem forall_prefix_iff_allowed {init s : σ} {R I : σ → Prop} {es : List ε} (h : play step init es = some s)
    (hR : R init) (hI : I init) (hstep : ∀ s e s', R s → I s → step e s = some s' → R s' ∧ (I s' ↔ G s e)) :
    (∀ pre, pre <+: es → ∀ t, play step init pre = some t → I t) ↔ Allowed step G init es := by
  induction es generalizing init with
  | nil =>
      refine ⟨fun _ => trivial, fun _ pre hpre t ht => ?_⟩
      rw [List.prefix_nil.mp hpre] at ht
      cases ht
      exact hI
  | cons e es ih =>
      obtain ⟨mid, hmid, hrest⟩ := Option.bind_eq_some_iff.mp h
      obtain ⟨hR', hiff⟩ := hstep init e mid hR hI hmid
      have hplay : ∀ pre, play step init (e :: pre) = play step mid pre := by
        intro pre
        show (step e init).bind (fun s => play step s pre) = _
        rw [hmid, Option.bind_some]
      constructor
      · intro hall
        have hI' : I mid := hall [e] (List.cons_prefix_cons.mpr ⟨rfl, List.nil_prefix⟩) mid (hplay [])
        refine ⟨hiff.mp hI', fun s' hs' => ?_⟩
        obtain rfl := Option.some.inj (hmid.symm.trans hs')
        apply (ih hrest hR' hI').mp
        intro pre hpre t ht
        exact hall (e :: pre) (List.cons_prefix_cons.mpr ⟨rfl, hpre⟩) t ((hplay pre).trans ht)
      · rintro ⟨hG, hallowed⟩ pre hpre t ht
        have hI' := hiff.mpr hG
        cases pre with
        | nil =>
            cases ht
            exact hI
        | cons e' pre =>
            obtain ⟨rfl, htail⟩ := List.cons_prefix_cons.mp hpre
            exact (ih hrest hR' hI').mpr (hallowed mid hmid) pre htail t ((hplay pre).symm.trans ht)

theorem allowed_concat {init s : σ} {es : List ε} (h : play step init es = some s) (e : ε) :
    Allowed step G init (es ++ [e]) ↔ Allowed step G init es ∧ G s e := by
  induction es generalizing init with
  | nil =>
      cases h
      exact ⟨fun hG => ⟨trivial, hG.1⟩, fun hG => ⟨hG.2, fun s' _ => trivial⟩⟩
  | cons a es ih =>
      obtain ⟨mid, hmid, hrest⟩ := Option.bind_eq_some_iff.mp h
      constructor
      · rintro ⟨hG, hallowed⟩
        obtain ⟨hes, he⟩ := (ih hrest).mp (hallowed mid hmid)
        refine ⟨⟨hG, fun s' hs' => ?_⟩, he⟩
        obtain rfl := Option.some.inj (hmid.symm.trans hs')
        exact hes
      · rintro ⟨⟨hG, hallowed⟩, he⟩
        refine ⟨hG, fun s' hs' => ?_⟩
        obtain rfl := Option.some.inj (hmid.symm.trans hs')
        exact (ih hrest).mpr ⟨hallowed mid hmid, he⟩

/-- **When an invariant that is never restored holds in the end**: if a step leads to a good state exactly from a good
one, by an event that `G` allows, then the end of a run is good exactly when every event is allowed. -/
theorem holds_iff_allowed {init s : σ} {R I : σ → Prop} {es : List ε} (h : play step init es = some s) (hR : R init)
    (hI : I init) (hstep : ∀ s e s', R s → step e s = some s' → R s' ∧ (I s' ↔ I s ∧ G s e)) :
    R s ∧ (I s ↔ Allowed step G init es) := by
  induction es using List.reverseRecOn generalizing s with
  | nil =>
      cases h
      exact ⟨hR, iff_of_true hI trivial⟩
  | append_singleton es e ih =>
      rw [play_concat] at h
      obtain ⟨t, ht, hnext⟩ := Option.bind_eq_some_iff.mp h
      obtain ⟨hRt, hiff⟩ := ih ht
      obtain ⟨hRs, hIs⟩ := hstep t e s hRt hnext
      exact ⟨hRs, by rw [hIs, hiff, allowed_concat ht]⟩

theorem Reached.play {init s s' : σ} (h : Reached step G init s) {es : List ε} (hG : Allowed step G s es)
    (hp : play step s es = some s') : Reached step G init s' := by
  induction es generalizing s with
  | nil =>
      cases hp
      exact h
  | cons e es ih =>
      obtain ⟨t, ht, hrest⟩ := Option.bind_eq_some_iff.mp hp
      exact ih (.next h hG.1 ht) (hG.2 t ht) hrest

theorem reached_endOf {init : σ} {es : List ε} (hG : Allowed step G init es)
    (h : (TimeChamp.Lib.play step init es).isSome = true) : Reached step G init (endOf step init es) := by
  obtain ⟨s, hs⟩ := Option.isSome_iff_exists.mp h
  rw [endOf, hs, Option.getD_some]
  exact Reached.start.play hG hs

end Finite

/-! ## Infinite runs -/

/-- An infinite run. -/
structure Run {σ ε : Type} (step : ε → σ → Option σ) where
  state : Nat → σ
  event : Nat → ε
  next : ∀ n, step (event n) (state n) = some (state (n + 1))

namespace Run
variable {σ ε : Type} {step : ε → σ → Option σ}

/-- The weight of the `n` steps from the `i`-th. -/
def total (r : Run step) (w : σ → ε → Nat) (i : Nat) : Nat → Nat
  | 0 => 0
  | n + 1 => r.total w i n + w (r.state (i + n)) (r.event (i + n))

theorem total_add (r : Run step) (w w' : σ → ε → Nat) (i n : Nat) :
    r.total (fun s e => w s e + w' s e) i n = r.total w i n + r.total w' i n := by
  induction n with
  | zero => rfl
  | succ n ih =>
      simp only [total, ih]
      omega

/-- What each step gains and loses, the run does. -/
theorem balance (r : Run step) {φ : σ → Nat} {gain loss : σ → ε → Nat}
    (h : ∀ {s e s'}, step e s = some s' → φ s' + loss s e = φ s + gain s e) (i n : Nat) :
    φ (r.state (i + n)) + r.total loss i n = φ (r.state i) + r.total gain i n := by
  induction n with
  | zero => rfl
  | succ n ih =>
      have hstep := h (r.next (i + n))
      simp only [total, ← Nat.add_assoc] at hstep ⊢
      omega

theorem balance_le (r : Run step) {φ : σ → Nat} {gain loss : σ → ε → Nat}
    (h : ∀ {s e s'}, step e s = some s' → φ s' + loss s e ≤ φ s + gain s e) (i n : Nat) :
    φ (r.state (i + n)) + r.total loss i n ≤ φ (r.state i) + r.total gain i n := by
  induction n with
  | zero => exact le_rfl
  | succ n ih =>
      have hstep := h (r.next (i + n))
      simp only [total, ← Nat.add_assoc] at hstep ⊢
      omega

theorem charge (r : Run step) {φ : σ → Int} {c : Int} {w : σ → ε → Nat}
    (h : ∀ {s e s'}, step e s = some s' → φ s + c * w s e ≤ φ s') (i n : Nat) :
    φ (r.state i) + c * r.total w i n ≤ φ (r.state (i + n)) := by
  induction n with
  | zero => simp [total]
  | succ n ih =>
      have hstep := h (r.next (i + n))
      simp only [total, ← Nat.add_assoc, Nat.cast_add, Int.mul_add] at hstep ⊢
      linarith

/-! ## Timers -/

/-- `early θ s` counts the timers pending in `s` whose deadline is before `θ`. Timers are set at least `m` ahead, and
fire after their deadline. -/
structure Timers (step : ε → σ → Option σ) (now : σ → Int) (early : Int → σ → Nat) (fires : σ → ε → Nat)
    (m : Int) : Prop where
  mono : ∀ {s e s'}, step e s = some s' → now s ≤ now s'
  early_step : ∀ {s e s' θ}, step e s = some s' → now s < θ → θ ≤ now s + m →
    early θ s' + fires s e ≤ early θ s

/-- **How often timers fire.** The run is cut into spans of at least `m`; what fires in a span was pending when it
began. -/
theorem fires_le (r : Run step) {now : σ → Int} {early : Int → σ → Nat} {fires : σ → ε → Nat} {m : Int} {b : Nat}
    (h : Timers step now early fires m) (hm : 0 < m) (hb : ∀ k θ, early θ (r.state k) ≤ b) (i n : Nat) :
    (r.total fires i n : Int) ≤ b * ((now (r.state (i + n)) - now (r.state i)) / m + 1) := by
  have spans : ∃ (k : Nat) (θ : Int), now (r.state (i + n)) < θ ∧ θ ≤ now (r.state (i + n)) + m ∧
      early θ (r.state (i + n)) + r.total fires i n ≤ b * k ∧ k * m ≤ θ - now (r.state i) := by
    induction n with
    | zero => exact ⟨1, now (r.state i) + m, by simpa using hm, le_rfl, by simpa [total] using hb i _, by simp⟩
    | succ n ih =>
        obtain ⟨k, θ, hlt, hle, hcount, hlen⟩ := ih
        have hmono := h.mono (r.next (i + n))
        have hstep := h.early_step (r.next (i + n)) hlt hle
        simp only [total, ← Nat.add_assoc]
        by_cases hin : now (r.state (i + n + 1)) < θ
        · exact ⟨k, θ, hin, by omega, by omega, hlen⟩
        · -- the clock has passed the end of the span: the next one begins now
          have hnew := hb (i + n + 1) (now (r.state (i + n + 1)) + m)
          refine ⟨k + 1, now (r.state (i + n + 1)) + m, by omega, le_rfl, ?_, ?_⟩
          · rw [Nat.mul_succ]
            omega
          · rw [Nat.cast_succ, Int.add_mul]
            omega
  obtain ⟨k, θ, -, hle, hcount, hlen⟩ := spans
  have hk : (k : Int) ≤ (now (r.state (i + n)) - now (r.state i)) / m + 1 := by
    rw [← Int.add_mul_ediv_left _ 1 hm.ne', Int.mul_one]
    exact Int.le_ediv_of_mul_le hm (by omega)
  calc (r.total fires i n : Int)
      ≤ b * k := by exact_mod_cast (Nat.le_add_left _ _).trans hcount
    _ ≤ b * ((now (r.state (i + n)) - now (r.state i)) / m + 1) := mul_le_mul_of_nonneg_left hk (Int.natCast_nonneg _)

/-! ## Changing a run -/

/-- Follow `r` up to its `n`-th state, take the step `e` from there, and then `idle` for ever. -/
def extend (r : Run step) (n : Nat) {e idle : ε} {s' : σ} (h : step e (r.state n) = some s')
    (hidle : step idle s' = some s') : Run step where
  state k := if k ≤ n then r.state k else s'
  event k := if k < n then r.event k else if k = n then e else idle
  next k := by
    rcases Nat.lt_trichotomy k n with hk | rfl | hk
    · rw [if_pos hk.le, if_pos hk, if_pos (Nat.succ_le_of_lt hk)]
      exact r.next k
    · rw [if_pos le_rfl, if_neg (Nat.lt_irrefl _), if_pos rfl, if_neg (Nat.not_succ_le_self _)]
      exact h
    · rw [if_neg hk.not_ge, if_neg hk.not_gt, if_neg hk.ne', if_neg (Nat.lt_succ_of_lt hk).not_ge]
      exact hidle

theorem extend_state_succ (r : Run step) (n : Nat) {e idle : ε} {s' : σ} (h : step e (r.state n) = some s')
    (hidle : step idle s' = some s') : (r.extend n h hidle).state (n + 1) = s' :=
  if_neg (Nat.not_succ_le_self n)

/-- What holds of every step of `r`, of the new step and of staying holds of every step. -/
theorem extend_forall (r : Run step) (n : Nat) {e idle : ε} {s' : σ} (h : step e (r.state n) = some s')
    (hidle : step idle s' = some s') {P : σ → ε → Prop} (hr : ∀ k, P (r.state k) (r.event k)) (he : P (r.state n) e)
    (hs : P s' idle) (k : Nat) : P ((r.extend n h hidle).state k) ((r.extend n h hidle).event k) := by
  simp only [extend]
  rcases Nat.lt_trichotomy k n with hk | rfl | hk
  · rw [if_pos hk.le, if_pos hk]
    exact hr k
  · rw [if_pos le_rfl, if_neg (Nat.lt_irrefl _), if_pos rfl]
    exact he
  · rw [if_neg hk.not_ge, if_neg hk.not_gt, if_neg hk.ne']
    exact hs

end Run
end TimeChamp.Lib
