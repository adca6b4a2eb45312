import TimeChamp.Lib.Memo
import TimeChamp.Lib.Parallel
import TimeChamp.Lib.Pool

/-!
# Effects that what was done before them calls for

Each job of a pool may perform an effect only after others of its own that were answered in some way.

* `History` : what a job has done, and what it was answered;
* `history pre` : the protocol of the jobs that perform an effect only where `pre` permits it; `history_monotone`;
* `guarantees_perform` : what is known after an effect;
* `Called`, `called_of_reaches` : **every effect of a run was permitted by effects of the same thread before it**;
* `performed_cases` : every effect of a run was allowed, and answered by the interpreter.
-/

namespace TimeChamp.Lib
open Function (update)

/-- What a job has done, with the answers. -/
structure History (E : Type) (R : E → Type) where
  done : List ((e : E) × R e)

section
variable {E : Type} {R : E → Type}

instance : Preorder (History E R) where
  le m m' := m.done ⊆ m'.done
  le_refl m := List.Subset.refl m.done
  le_trans _ _ _ h h' := List.Subset.trans h h'

namespace History

def start : History E R := ⟨[]⟩

def then_ (m : History E R) (e : E) (r : R e) : History E R := ⟨m.done ++ [⟨e, r⟩]⟩

theorem le_then (m : History E R) (e : E) (r : R e) : m ≤ m.then_ e r := List.subset_append_left _ _

theorem mem_then (m : History E R) (e : E) (r : R e) : (⟨e, r⟩ : (e : E) × R e) ∈ (m.then_ e r).done :=
  List.mem_append_right _ List.mem_cons_self

end History

/-- An effect is performed where `pre` permits it. -/
def history (pre : History E R → E → Prop) : Protocol E R (History E R) where
  pre := pre
  post m e r m' := m' = m.then_ e r

variable {pre : History E R → E → Prop}

theorem history_monotone (hpre : ∀ m m' e, m ≤ m' → pre m e → pre m' e) : (history pre).Monotone where
  pre {m m' e} h hm := hpre m m' e hm h
  grows {m e r m'} h := h ▸ m.le_then e r
  post {m m' e r m''} h hm := by
    refine ⟨m.then_ e r, rfl, ?_⟩
    rw [h]
    intro x hx
    rcases List.mem_append.mp hx with hx | hx
    · exact List.mem_append_left _ (hm hx)
    · exact List.mem_append_right _ hx

theorem guarantees_perform {ε : Type} {m : History E R} {e : E} {Q : History E R → R e → Prop} (he : pre m e)
    (h : ∀ r, Q (m.then_ e r) r) :
    Guarantees (history pre) Q m (ExceptT.lift (Prog.perform e) : Throwing ε E R (R e)) := by
  apply guarantees_lift he
  rintro r _ rfl
  exact h r

/-! ## Runs -/

section
variable {ι : Type} [DecidableEq ι] {σ χ J : Type} {S : System E R σ χ J} {G : Config ι E R σ → Act ι χ J → Prop} {w : σ}
  {c : Config ι E R σ}

/-- What a thread did before permits the effect that it performs. -/
def Called (pre : History E R → E → Prop) (before : List (Performed ι E R)) (p : Performed ι E R) : Prop :=
  ∃ m : History E R, pre m p.2.1 ∧ ∀ x ∈ m.done, (p.1, x) ∈ before

/-- **Every effect was called for** by what its thread had done before. -/
theorem called_of_reaches (hbody : ∀ j, Follows (history pre) (fun _ _ => True) History.start (S.body j))
    (h : Reaches S G (Config.start w) c) :
    ∀ before p after, c.trace = before ++ p :: after → Called pre before p := by
  have hinv := h.inv (P := history pre) (F := fun _ => True)
    (fun _ tr m => (∀ i, ∀ x ∈ (m i).done, (i, x) ∈ tr) ∧
      ∀ before p after, tr = before ++ p :: after → Called pre before p) ?_ ?_ ?_
  · obtain ⟨-, ⟨-, hall⟩, -⟩ := hinv
    exact hall
  · refine ⟨fun _ => History.start, ⟨fun i x hx => absurd hx List.not_mem_nil, fun before p after heq => ?_⟩,
      fun i => trivial⟩
    exact absurd heq.symm (List.append_ne_nil_of_right_ne_nil before (List.cons_ne_nil _ _))
  · rintro c m i j w ⟨hdone, hall⟩ - - -
    refine ⟨History.start, ⟨fun i' x hx => ?_, hall⟩, hbody j⟩
    by_cases hi : i' = i
    · subst hi
      rw [Function.update_self] at hx
      exact absurd hx List.not_mem_nil
    · rw [Function.update_of_ne hi] at hx
      exact hdone i' x hx
  · rintro c m i ch e k r w ⟨hdone, hall⟩ - - hpre -
    refine ⟨(m i).then_ e r, rfl, fun i' x hx => ?_, Memo.forall_split_concat.mpr ⟨hall, m i, hpre, hdone i⟩⟩
    by_cases hi : i' = i
    · subst hi
      rw [Function.update_self] at hx
      rcases List.mem_append.mp hx with hx | hx
      · exact List.mem_append_left _ (hdone i' x hx)
      · rw [List.mem_singleton.mp hx]
        exact List.mem_append_right _ List.mem_cons_self
    · rw [Function.update_of_ne hi] at hx
      exact List.mem_append_left _ (hdone i' x hx)

/-- Every effect was allowed, and answered by the interpreter. -/
theorem performed_cases (h : Reaches S G (Config.start w) c) {i : ι} {e : E} {r : R e}
    (hmem : ((i, ⟨e, r⟩) : Performed ι E R) ∈ c.trace) :
    ∃ before ch v, G before (.step i ch) ∧ S.exec ch e before.world = some (r, v) := by
  induction h with
  | start => exact absurd hmem List.not_mem_nil
  | @next c c' a _ hG hn ih =>
      rcases System.next_cases hn with ⟨_, _, _, rfl, _, _, rfl⟩ | ⟨i', ch, e', k, r', v, rfl, -, hexec, rfl⟩
      · exact ih hmem
      · rcases List.mem_append.mp hmem with hmem | hmem
        · exact ih hmem
        · obtain ⟨rfl, heq⟩ := Prod.mk.inj (List.mem_singleton.mp hmem)
          obtain ⟨rfl, heq'⟩ := Sigma.mk.inj heq
          obtain rfl := eq_of_heq heq'
          exact ⟨_, ch, _, hG, hexec⟩

end

end

end TimeChamp.Lib
