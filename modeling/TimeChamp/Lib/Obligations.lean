import Mathlib.Algebra.Order.Group.Multiset
import Mathlib.Algebra.BigOperators.Group.List.Basic
import TimeChamp.Lib.Parallel
import TimeChamp.Lib.Pool

/-!
# What is left to do

Some effects, once answered, leave a program something to do, and others do it. Each is done once.

* `Obligations` : what is left by which effects, and what does it;
* `Discharges O Q due p` : with `due` left to do, the program does what it does of it once, and leaves what `Q` says;
* `Discharges.frame`, `Discharges.both`, `Discharges.all` : **side by side, each part does its own**;
* `Clears` : programs that may throw and leave nothing either way;
* `accounted` : **what the effects of a thread left to do was done once each**, but for what it has yet to do;
  `exists_owed`, that nothing else was done.
-/

namespace TimeChamp.Lib
open Function (update)

/-- What answered effects leave to do, and what they do of it. -/
structure Obligations (E : Type) (R : E → Type) (D C : Type) where
  owes : (e : E) → R e → Multiset D
  settles : (e : E) → R e → Option C
  Matches : D → C → Prop

section
variable {E : Type} {R : E → Type} {D C α β : Type} {O : Obligations E R D C}

namespace Obligations

/-- Of what is left to do before the effect, this is left after it. -/
def Pays (O : Obligations E R D C) (e : E) (r : R e) (due rest : Multiset D) : Prop :=
  match O.settles e r with
  | none => rest = due
  | some c => ∃ d, O.Matches d c ∧ due = d ::ₘ rest

/-- The effect neither does anything of it nor leaves anything. -/
def Neutral (O : Obligations E R D C) (e : E) : Prop := ∀ r, O.settles e r = none ∧ O.owes e r = 0

theorem Pays.frame {e : E} {r : R e} {due rest : Multiset D} (h : O.Pays e r due rest) (f : Multiset D) :
    O.Pays e r (due + f) (rest + f) := by
  unfold Pays at h ⊢
  split at h
  · rw [h]
  · obtain ⟨d, hd, rfl⟩ := h
    exact ⟨d, hd, Multiset.cons_add d rest f⟩

theorem Neutral.pays {e : E} (h : O.Neutral e) (r : R e) (due : Multiset D) : O.Pays e r due due := by
  unfold Pays
  rw [(h r).1]

end Obligations

/-- With `due` left to do, the program does nothing else and nothing twice, and returns with what `Q` says left. -/
def Discharges (O : Obligations E R D C) (Q : Multiset D → α → Prop) : Multiset D → Prog E R α → Prop
  | due, .ret a => Q due a
  | due, .op e k => ∀ r, ∃ rest, O.Pays e r due rest ∧ Discharges O Q (rest + O.owes e r) (k r)

/-! ## Rules -/

section
variable {Q Q₁ : Multiset D → α → Prop} {Q' : Multiset D → β → Prop} {due due' : Multiset D} {p : Prog E R α}
  {q : Prog E R β}

theorem Discharges.bind {f : α → Prog E R β} (h : Discharges O Q due p)
    (hf : ∀ due a, Q due a → Discharges O Q' due (f a)) : Discharges O Q' due (p >>= f) := by
  induction p generalizing due with
  | ret a => exact hf due a h
  | op e k ih =>
      intro r
      obtain ⟨rest, hpays, hk⟩ := h r
      exact ⟨rest, hpays, ih r hk⟩

/-- **The frame rule.** What others left to do stays. -/
theorem Discharges.frame (h : Discharges O Q due p) (f : Multiset D) :
    Discharges O (fun d a => ∃ d', Q d' a ∧ d = d' + f) (due + f) p := by
  induction p generalizing due with
  | ret a => exact ⟨due, h, rfl⟩
  | op e k ih =>
      intro r
      obtain ⟨rest, hpays, hk⟩ := h r
      refine ⟨rest + f, hpays.frame f, ?_⟩
      rw [add_right_comm]
      exact ih r hk

/-- An effect that has nothing to do with it. -/
theorem Discharges.neutral {e : E} {k : R e → Prog E R α} (he : O.Neutral e) (h : ∀ r, Discharges O Q due (k r)) :
    Discharges O Q due (.op e k) := by
  intro r
  refine ⟨due, he.pays r due, ?_⟩
  rw [(he r).2, add_zero]
  exact h r

variable {turn : E} {left : R turn → Bool}

/-- **Two programs side by side.** Each does what is left to it. -/
theorem Discharges.both (hturn : O.Neutral turn) (hp : Discharges O Q due p) (hq : Discharges O Q' due' q) :
    Discharges O (fun d ab => ∃ d₁ d₂, Q d₁ ab.1 ∧ Q' d₂ ab.2 ∧ d = d₁ + d₂) (due + due') (Prog.both turn left p q) := by
  induction p generalizing due due' q with
  | ret a =>
      rw [add_comm]
      apply (hq.frame due).bind
      rintro d b ⟨d', hb, rfl⟩
      exact ⟨due, d', hp, hb, add_comm d' due⟩
  | op e k ih =>
      induction q generalizing due' with
      | ret b =>
          intro r
          obtain ⟨rest, hpays, hk⟩ := hp r
          refine ⟨rest + due', hpays.frame due', ?_⟩
          rw [add_right_comm]
          apply (hk.frame due').bind
          rintro d a ⟨d', ha, rfl⟩
          exact ⟨d', due', ha, hq, rfl⟩
      | op e' k' ih' =>
          apply Discharges.neutral hturn
          intro t
          show Discharges O _ _ (if left t then _ else _)
          split
          · intro r
            obtain ⟨rest, hpays, hk⟩ := hp r
            refine ⟨rest + due', hpays.frame due', ?_⟩
            rw [add_right_comm]
            exact ih r hk hq
          · intro r
            obtain ⟨rest', hpays', hk'⟩ := hq r
            refine ⟨due + rest', ?_, ?_⟩
            · rw [add_comm due, add_comm due]
              exact hpays'.frame due
            · rw [add_assoc]
              exact ih' r hk'

/-- Any number of programs that leave nothing. -/
theorem Discharges.all (hturn : O.Neutral turn) {ps : List (Prog E R α)}
    (h : ∀ p ∈ ps, Discharges O (fun d _ => d = 0) 0 p) : Discharges O (fun d _ => d = 0) 0 (Prog.all turn left ps) := by
  induction ps with
  | nil => rfl
  | cons p ps ih =>
      obtain ⟨hp, hps⟩ := List.forall_mem_cons.mp h
      apply (Discharges.both hturn hp (ih hps)).bind
      rintro d as ⟨d₁, d₂, rfl, rfl, rfl⟩
      rfl

end

/-! ### Programs that may throw -/

/-- The program leaves nothing to do, whether it throws or not. -/
def Clears {ε : Type} (O : Obligations E R D C) (x : Throwing ε E R α) : Prop :=
  Discharges O (fun due _ => due = 0) 0 x.run

section
variable {ε : Type}

theorem clears_pure (a : α) : Clears O (pure a : Throwing ε E R α) := rfl

theorem clears_throw (e : ε) : Clears O (throw e : Throwing ε E R α) := rfl

theorem Clears.bind {x : Throwing ε E R α} {f : α → Throwing ε E R β} (h : Clears O x) (hf : ∀ a, Clears O (f a)) :
    Clears O (x >>= f) := by
  apply Discharges.bind h
  rintro _ r rfl
  cases r with
  | error e => exact clears_throw e
  | ok a => exact hf a

theorem clears_lift {e : E} (he : O.Neutral e) : Clears O (ExceptT.lift (Prog.perform e) : Throwing ε E R (R e)) :=
  Discharges.neutral he fun _ => rfl

theorem Clears.all {turn : E} {left : R turn → Bool} (hturn : O.Neutral turn) {ps : List (Throwing ε E R α)}
    (h : ∀ p ∈ ps, Clears O p) : Clears O (Throwing.all turn left ps) := by
  have hall : Discharges O (fun due _ => due = 0) 0 (Prog.all turn left (ps.map fun p => p.run)) := by
    apply Discharges.all hturn
    intro p hp
    obtain ⟨x, hx, rfl⟩ := List.mem_map.mp hp
    exact h x hx
  apply hall.bind
  rintro _ rs rfl
  rfl

end

/-! ## Runs -/

section
variable {ι : Type} [DecidableEq ι] {σ χ J : Type} {S : System E R σ χ J} {G : Config ι E R σ → Act ι χ J → Prop} {w : σ}
  {c : Config ι E R σ}

/-- What the effects of a thread left to do. -/
def Obligations.owed (O : Obligations E R D C) (i : ι) (tr : List (Performed ι E R)) : Multiset D :=
  (tr.map fun p => if p.1 = i then O.owes p.2.1 p.2.2 else 0).sum

/-- What its effects did of it. -/
def Obligations.settled (O : Obligations E R D C) (i : ι) (tr : List (Performed ι E R)) : Multiset C :=
  (tr.filterMap fun p => if p.1 = i then O.settles p.2.1 p.2.2 else none : List C)

/-- What was left to do was done once each, but for what is still due. -/
def Obligations.Accounted (O : Obligations E R D C) (i : ι) (tr : List (Performed ι E R)) (due : Multiset D) : Prop :=
  ∃ paid, O.owed i tr = paid + due ∧ Multiset.Rel O.Matches paid (O.settled i tr)

theorem Obligations.accounted_of_ne {i i' : ι} (hi : i' ≠ i) {tr : List (Performed ι E R)} {due : Multiset D}
    (h : O.Accounted i tr due) (x : (e : E) × R e) : O.Accounted i (tr ++ [(i', x)]) due := by
  obtain ⟨paid, howed, hrel⟩ := h
  refine ⟨paid, ?_, ?_⟩
  · simp [owed, hi] at howed ⊢
    exact howed
  · simpa [settled, hi] using hrel

theorem Obligations.accounted_concat {i : ι} {tr : List (Performed ι E R)} {due rest : Multiset D} {e : E} {r : R e}
    (h : O.Accounted i tr due) (hpays : O.Pays e r due rest) : O.Accounted i (tr ++ [(i, ⟨e, r⟩)]) (rest + O.owes e r) := by
  obtain ⟨paid, howed, hrel⟩ := h
  have howed' : O.owed i (tr ++ [(i, ⟨e, r⟩)]) = O.owed i tr + O.owes e r := by simp [owed]
  unfold Pays at hpays
  split at hpays
  next hnone =>
    refine ⟨paid, ?_, ?_⟩
    · rw [howed', howed, hpays, add_assoc]
    · simpa [settled, hnone] using hrel
  next c hsome =>
    obtain ⟨d, hd, rfl⟩ := hpays
    refine ⟨d ::ₘ paid, ?_, ?_⟩
    · rw [howed', howed, Multiset.add_cons, Multiset.cons_add, Multiset.cons_add, add_assoc]
    · have hsettled : O.settled i (tr ++ [(i, ⟨e, r⟩)]) = c ::ₘ O.settled i tr := by
        unfold settled
        rw [List.filterMap_append, ← Multiset.coe_add, add_comm, ← Multiset.singleton_add]
        simp [hsome]
      rw [hsettled]
      exact Multiset.Rel.cons hd hrel

/-- **Everything is done once.** What the effects of a thread left to do, its later effects did, but for what it has yet
to do. -/
theorem accounted (hbody : ∀ j, Discharges O (fun due _ => due = 0) 0 (S.body j)) (h : Reaches S G (Config.start w) c)
    (i : ι) : ∃ due, O.Accounted i c.trace due ∧ (c.thread i = .ret () → due = 0) := by
  have hinv : ∀ i, ∃ due, O.Accounted i c.trace due ∧ Discharges O (fun due _ => due = 0) due (c.thread i) := by
    induction h with
    | start => exact fun i => ⟨0, ⟨0, rfl, Multiset.Rel.zero⟩, rfl⟩
    | @next c c' a _ _ hn ih =>
        rcases System.next_cases hn with ⟨i, j, w, rfl, hret, _, rfl⟩ | ⟨i, ch, e, k, r, w, rfl, hop, _, rfl⟩
        · intro i'
          obtain ⟨due, haccounted, hdis⟩ := ih i'
          by_cases hi : i' = i
          · subst hi
            rw [hret] at hdis
            obtain rfl : due = 0 := hdis
            refine ⟨0, haccounted, ?_⟩
            show Discharges O _ 0 (update c.thread i' (S.body j) i')
            rw [Function.update_self]
            exact hbody j
          · refine ⟨due, haccounted, ?_⟩
            show Discharges O _ due (update c.thread i (S.body j) i')
            rwa [Function.update_of_ne hi]
        · intro i'
          obtain ⟨due, haccounted, hdis⟩ := ih i'
          by_cases hi : i' = i
          · subst hi
            rw [hop] at hdis
            obtain ⟨rest, hpays, hk⟩ := hdis r
            refine ⟨rest + O.owes e r, O.accounted_concat haccounted hpays, ?_⟩
            show Discharges O _ _ (update c.thread i' (k r) i')
            rw [Function.update_self]
            exact hk
          · refine ⟨due, O.accounted_of_ne (Ne.symm hi) haccounted _, ?_⟩
            show Discharges O _ due (update c.thread i (k r) i')
            rwa [Function.update_of_ne hi]
  obtain ⟨due, haccounted, hdis⟩ := hinv i
  refine ⟨due, haccounted, fun hret => ?_⟩
  rw [hret] at hdis
  exact hdis

theorem Obligations.mem_settled {i : ι} {tr : List (Performed ι E R)} {e : E} {r : R e} {x : C}
    (h : ((i, ⟨e, r⟩) : Performed ι E R) ∈ tr) (hx : O.settles e r = some x) : x ∈ O.settled i tr :=
  Multiset.mem_coe.mpr (List.mem_filterMap.mpr ⟨_, h, (if_pos rfl).trans hx⟩)

theorem Obligations.exists_of_mem_settled {i : ι} {tr : List (Performed ι E R)} {x : C} (h : x ∈ O.settled i tr) :
    ∃ e r, ((i, ⟨e, r⟩) : Performed ι E R) ∈ tr ∧ O.settles e r = some x := by
  obtain ⟨p, hp, hx⟩ := List.mem_filterMap.mp (Multiset.mem_coe.mp h)
  split_ifs at hx with hi
  exact ⟨p.2.1, p.2.2, hi ▸ hp, hx⟩

theorem Obligations.exists_of_mem_owed {i : ι} {tr : List (Performed ι E R)} {d : D} (h : d ∈ O.owed i tr) :
    ∃ e r, ((i, ⟨e, r⟩) : Performed ι E R) ∈ tr ∧ d ∈ O.owes e r := by
  unfold owed at h
  induction tr with
  | nil => exact absurd h (Multiset.notMem_zero d)
  | cons p tr ih =>
      rw [List.map_cons, List.sum_cons] at h
      rcases Multiset.mem_add.mp h with h | h
      · split at h
        next hp => exact ⟨p.2.1, p.2.2, hp ▸ List.mem_cons_self, h⟩
        next => exact absurd h (Multiset.notMem_zero d)
      · obtain ⟨e, r, hmem, hd⟩ := ih h
        exact ⟨e, r, List.mem_cons_of_mem _ hmem, hd⟩

/-- **What is done was called for** by an effect of the same thread. -/
theorem exists_owed (hbody : ∀ j, Discharges O (fun due _ => due = 0) 0 (S.body j)) (h : Reaches S G (Config.start w) c)
    {i : ι} {e : E} {r : R e} (hmem : ((i, ⟨e, r⟩) : Performed ι E R) ∈ c.trace) {x : C} (hx : O.settles e r = some x) :
    ∃ e' r' d, ((i, ⟨e', r'⟩) : Performed ι E R) ∈ c.trace ∧ d ∈ O.owes e' r' ∧ O.Matches d x := by
  obtain ⟨due, ⟨paid, howed, hrel⟩, -⟩ := accounted hbody h i
  obtain ⟨d, hd, hmatches⟩ := Multiset.exists_mem_of_rel_of_mem (Multiset.rel_flip.mpr hrel) (O.mem_settled hmem hx)
  obtain ⟨e', r', hmem', howes⟩ := O.exists_of_mem_owed (howed ▸ Multiset.mem_add.mpr (.inl hd))
  exact ⟨e', r', d, hmem', howes, hmatches⟩

end

end

end TimeChamp.Lib
