import TimeChamp.Lib.Pool

/-!
# Threads that do not interfere

The threads of a pool are divided into domains. Some of what they share is of one domain only, and each effect is
permitted to a domain only where it stays within that.

* `ofDomain dom d as` : the schedule with the actions of one domain only;
* `Unwinding S dom G Owned Sim` : the effects of other domains are not seen, those of one's own are answered alike and
  stay possible; `Sim d w v` is that `v` has all that `d` has in `w`, and no more that could stand in its way;
* `Sees` : what a domain is left to do, and what it has been answered;
* `Unwinding.alone` : **a domain does in every schedule what it does in the schedule of its own actions**;
* `leavingOut out silent as` : the schedule without the jobs `out` and their effects;
* `Omission S G out Rel` : such a job keeps `Rel` to a run in which its thread does nothing, and all others can do there
  what they do; `Omission.play` : **so they do it in the schedule without those jobs**.
-/

namespace TimeChamp.Lib
open Function (update)

section
variable {ι E D : Type} [DecidableEq ι] [DecidableEq D] {R : E → Type} {σ χ J : Type}

/-- The actions of one domain. -/
def ofDomain (dom : ι → D) (d : D) (as : List (Act ι χ J)) : List (Act ι χ J) := as.filter fun a => dom a.who = d

/-- What a domain is left to do and what it was answered is what it is alone. -/
structure Sees (dom : ι → D) (Sim : D → σ → σ → Prop) (d : D) (c c' : Config ι E R σ) : Prop where
  world : Sim d c.world c'.world
  thread : ∀ i, dom i = d → c'.thread i = c.thread i
  trace : c'.trace = c.trace.filter fun p => dom p.1 = d

/-- The conditions on single effects and on the admission of jobs. `G` is what holds of every action. -/
structure Unwinding (S : System E R σ χ J) (dom : ι → D) (G : Act ι χ J → Prop) (Owned : D → σ → E → Prop)
    (Sim : D → σ → σ → Prop) : Prop where
  call_other : ∀ {d i j w w' v}, G (.call i j) → dom i ≠ d → S.admits j w = some w' → Sim d w v → Sim d w' v
  call_own : ∀ {i j w w' v}, G (.call i j) → S.admits j w = some w' → Sim (dom i) w v →
    ∃ v', S.admits j v = some v' ∧ Sim (dom i) w' v'
  step_other : ∀ {d d' ch e r w w' v}, d' ≠ d → Owned d' w e → S.exec ch e w = some (r, w') → Sim d w v → Sim d w' v
  step_own : ∀ {d ch e r w w' v}, Owned d w e → Owned d v e → S.exec ch e w = some (r, w') → Sim d w v →
    ∃ v', S.exec ch e v = some (r, v') ∧ Sim d w' v'

variable {S : System E R σ χ J} {dom : ι → D} {G : Act ι χ J → Prop} {Owned : D → σ → E → Prop} {Sim : D → σ → σ → Prop}
  {d : D} {c c' c₁ : Config ι E R σ} {a : Act ι χ J}

/-- The next effect of every thread is one that its domain is permitted. -/
def OwnedAll (dom : ι → D) (Owned : D → σ → E → Prop) (c : Config ι E R σ) : Prop :=
  ∀ i e k, c.thread i = .op e k → Owned (dom i) c.world e

omit [DecidableEq D] in
theorem thread_update_other {i : ι} (hi : dom i ≠ d) {p : Prog E R Unit} (h : ∀ j, dom j = d → c'.thread j = c.thread j)
    (j : ι) (hj : dom j = d) : c'.thread j = update c.thread i p j := by
  have hne : j ≠ i := by
    rintro rfl
    exact hi hj
  rw [Function.update_of_ne hne]
  exact h j hj

omit [DecidableEq D] in
theorem thread_update_own (i : ι) (p : Prog E R Unit) (h : ∀ j, dom j = d → c'.thread j = c.thread j) (j : ι)
    (hj : dom j = d) : update c'.thread i p j = update c.thread i p j := by
  by_cases hji : j = i
  · subst hji
    rw [Function.update_self, Function.update_self]
  · rw [Function.update_of_ne hji, Function.update_of_ne hji]
    exact h j hj

/-- An action of another domain is not seen. -/
theorem Unwinding.other (U : Unwinding S dom G Owned Sim) (h : Sees dom Sim d c c') (hG : G a)
    (hown : OwnedAll dom Owned c) (hd : dom a.who ≠ d) (hn : S.next c a = some c₁) : Sees dom Sim d c₁ c' := by
  rcases System.next_cases hn with ⟨i, j, w, rfl, -, hw, rfl⟩ | ⟨i, ch, e, k, r, w, rfl, hop, hr, rfl⟩
  · exact ⟨U.call_other hG hd hw h.world, thread_update_other hd h.thread, h.trace⟩
  · refine ⟨U.step_other hd (hown i e k hop) hr h.world, thread_update_other hd h.thread, ?_⟩
    show c'.trace = (c.trace ++ [((i, ⟨e, r⟩) : Performed ι E R)]).filter fun p => dom p.1 = d
    have hne : dom i ≠ d := hd
    rw [List.filter_append, List.filter_singleton, decide_eq_false hne, Bool.cond_false, List.append_nil]
    exact h.trace

/-- An action of the domain is possible alone, and answered alike. -/
theorem Unwinding.own (U : Unwinding S dom G Owned Sim) (h : Sees dom Sim d c c') (hG : G a)
    (hown : OwnedAll dom Owned c) (hown' : OwnedAll dom Owned c') (hd : dom a.who = d) (hn : S.next c a = some c₁) :
    ∃ c₁', S.next c' a = some c₁' ∧ Sees dom Sim d c₁ c₁' := by
  rcases System.next_cases hn with ⟨i, j, w, rfl, hret, hw, rfl⟩ | ⟨i, ch, e, k, r, w, rfl, hop, hr, rfl⟩
  · obtain rfl : dom i = d := hd
    obtain ⟨v, hv, hsim⟩ := U.call_own hG hw h.world
    refine ⟨⟨v, update c'.thread i (S.body j), c'.trace⟩, ?_, hsim, thread_update_own i _ h.thread, h.trace⟩
    simp only [System.next, h.thread i rfl, hret, hv, Option.map_some]
  · obtain rfl : dom i = d := hd
    have hop' : c'.thread i = .op e k := (h.thread i rfl).trans hop
    obtain ⟨v, hv, hsim⟩ := U.step_own (hown i e k hop) (hown' i e k hop') hr h.world
    refine ⟨⟨v, update c'.thread i (k r), c'.trace ++ [(i, ⟨e, r⟩)]⟩, ?_, hsim, thread_update_own i _ h.thread, ?_⟩
    · simp only [System.next, hop', hv, Option.map_some]
    · show c'.trace ++ [((i, ⟨e, r⟩) : Performed ι E R)] =
        (c.trace ++ [((i, ⟨e, r⟩) : Performed ι E R)]).filter fun p => dom p.1 = dom i
      rw [List.filter_append, List.filter_singleton, decide_eq_true rfl, Bool.cond_true, h.trace]

/-- **Noninterference.** Whatever the other domains do, what a domain is answered and what it is left to do is what it
is in the schedule of its own actions, which is possible. -/
theorem Unwinding.alone (U : Unwinding S dom G Owned Sim) {w : σ} (hw : Sim d w w)
    (hown : ∀ c, Reaches S (fun _ a => G a) (Config.start w) c → OwnedAll dom Owned c) {as : List (Act ι χ J)}
    (hG : ∀ a ∈ as, G a) (hplay : S.play (Config.start w) as = some c) :
    ∃ c', S.play (Config.start w) (ofDomain dom d as) = some c' ∧ Sees dom Sim d c c' := by
  have run : ∀ (as : List (Act ι χ J)) (c₀ c₀' : Config ι E R σ), Reaches S (fun _ a => G a) (Config.start w) c₀ →
      Reaches S (fun _ a => G a) (Config.start w) c₀' → Sees dom Sim d c₀ c₀' → (∀ a ∈ as, G a) →
      S.play c₀ as = some c → ∃ c', S.play c₀' (ofDomain dom d as) = some c' ∧ Sees dom Sim d c c' := by
    intro as
    induction as with
    | nil =>
        intro c₀ c₀' _ _ hsees _ hp
        obtain rfl := Option.some.inj hp
        exact ⟨c₀', rfl, hsees⟩
    | cons a as ih =>
        intro c₀ c₀' hc₀ hc₀' hsees hall hp
        obtain ⟨hGa, hall⟩ := List.forall_mem_cons.mp hall
        obtain ⟨c₁, hc₁, hp⟩ := Option.bind_eq_some_iff.mp hp
        by_cases hd : dom a.who = d
        · obtain ⟨c₁', hc₁', hsees'⟩ := U.own hsees hGa (hown c₀ hc₀) (hown c₀' hc₀') hd hc₁
          obtain ⟨c', hc', hend⟩ := ih c₁ c₁' (hc₀.next hGa hc₁) (hc₀'.next hGa hc₁') hsees' hall hp
          refine ⟨c', ?_, hend⟩
          rw [ofDomain, List.filter_cons_of_pos (by simpa using hd)]
          show (S.next c₀' a).bind _ = some c'
          rw [hc₁', Option.bind_some]
          exact hc'
        · obtain ⟨c', hc', hend⟩ := ih c₁ c₀' (hc₀.next hGa hc₁) hc₀' (U.other hsees hGa (hown c₀ hc₀) hd hc₁) hall hp
          refine ⟨c', ?_, hend⟩
          rw [ofDomain, List.filter_cons_of_neg (by simpa using hd)]
          exact hc'
  exact run as _ _ .start .start ⟨hw, fun _ _ => rfl, rfl⟩ hG hplay

end

/-! ## Jobs left out -/

section
variable {ι E : Type} [DecidableEq ι] {R : E → Type} {σ χ J : Type}

/-- The schedule without the jobs `out` and their effects; the threads `silent` are running one. -/
def leavingOut (out : J → Bool) : (ι → Bool) → List (Act ι χ J) → List (Act ι χ J)
  | _, [] => []
  | silent, .call i j :: as =>
    if out j then leavingOut out (update silent i true) as
    else .call i j :: leavingOut out (update silent i false) as
  | silent, .step i ch :: as =>
    if silent i then leavingOut out silent as else .step i ch :: leavingOut out silent as

/-- The conditions on single actions, for a relation between a configuration and one in which the threads `silent` do
nothing. -/
structure Omission (S : System E R σ χ J) (G : Config ι E R σ → Act ι χ J → Prop) (out : J → Bool)
    (Rel : (ι → Bool) → Config ι E R σ → Config ι E R σ → Prop) : Prop where
  call_out : ∀ {silent c c' c₁ i j}, Rel silent c c' → G c (.call i j) → out j = true →
    S.next c (.call i j) = some c₁ → Rel (update silent i true) c₁ c'
  call_in : ∀ {silent c c' c₁ i j}, Rel silent c c' → G c (.call i j) → out j = false →
    S.next c (.call i j) = some c₁ → ∃ c₁', S.next c' (.call i j) = some c₁' ∧ Rel (update silent i false) c₁ c₁'
  step_out : ∀ {silent c c' c₁ i ch}, Rel silent c c' → G c (.step i ch) → silent i = true →
    S.next c (.step i ch) = some c₁ → Rel silent c₁ c'
  step_in : ∀ {silent c c' c₁ i ch}, Rel silent c c' → G c (.step i ch) → silent i = false →
    S.next c (.step i ch) = some c₁ → ∃ c₁', S.next c' (.step i ch) = some c₁' ∧ Rel silent c₁ c₁'

variable {S : System E R σ χ J} {G : Config ι E R σ → Act ι χ J → Prop} {out : J → Bool}
  {Rel : (ι → Bool) → Config ι E R σ → Config ι E R σ → Prop} {c c' c₁ : Config ι E R σ}

/-- **The jobs make no difference to the others.** The schedule without them is possible, and ends related. -/
theorem Omission.play (O : Omission S G out Rel) {silent : ι → Bool} (h : Rel silent c c') {as : List (Act ι χ J)}
    (hG : S.Allowed G c as) (hplay : S.play c as = some c₁) :
    ∃ c₁' silent', S.play c' (leavingOut out silent as) = some c₁' ∧ Rel silent' c₁ c₁' := by
  induction as generalizing c c' silent with
  | nil =>
      obtain rfl := Option.some.inj hplay
      exact ⟨c', silent, rfl, h⟩
  | cons a as ih =>
      obtain ⟨hGa, hrest⟩ := hG
      obtain ⟨d, hd, htail⟩ := Option.bind_eq_some_iff.mp hplay
      have hGd := hrest d hd
      cases a with
      | call i j =>
          cases hout : out j with
          | true =>
              simp only [leavingOut, hout, if_true]
              exact ih (O.call_out h hGa hout hd) hGd htail
          | false =>
              obtain ⟨d', hd', hrel⟩ := O.call_in h hGa hout hd
              obtain ⟨c₁', silent', hplay', hend⟩ := ih hrel hGd htail
              refine ⟨c₁', silent', ?_, hend⟩
              simp only [leavingOut, hout, Bool.false_eq_true, if_false, System.play, hd', Option.bind_some]
              exact hplay'
      | step i ch =>
          cases hsilent : silent i with
          | true =>
              simp only [leavingOut, hsilent, if_true]
              exact ih (O.step_out h hGa hsilent hd) hGd htail
          | false =>
              obtain ⟨d', hd', hrel⟩ := O.step_in h hGa hsilent hd
              obtain ⟨c₁', silent', hplay', hend⟩ := ih hrel hGd htail
              refine ⟨c₁', silent', ?_, hend⟩
              simp only [leavingOut, hsilent, Bool.false_eq_true, if_false, System.play, hd', Option.bind_some]
              exact hplay'

end

end TimeChamp.Lib
