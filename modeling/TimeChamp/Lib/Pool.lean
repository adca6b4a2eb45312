import Mathlib.Data.Fintype.Defs
import Mathlib.Logic.Function.Basic
import TimeChamp.Lib.Prog

/-!
# A pool of threads over a shared world

Any number of threads `ι`, each running a `Prog` one effect at a time over a shared world `σ`. Between two effects
of one thread any others may take theirs; what the outside decides about an effect (a clock reading, a reply, a
failure) is the scheduler's choice `χ`, and an idle thread may be given any job the system admits.

* `Config` : the world, what each thread has left to do, and the trace of the effects performed with their answers;
* `System.next` : one action of the scheduler, `System.play` a list of them;
* `Reaches S G init c` : `c` is reached from `init` by actions each allowed by `G` in the configuration it is taken in;
* `since i tr` : what the others did since the last effect of `i`, and so what may have changed under it; `sinceLast p tr`,
  what was done since the last effect satisfying `p`;
* `Reaches.job` : a job that nobody comes between runs as if alone;
* `exclusive_update` : what one thread may take when no two hold the same thing;
* `Reaches.inv` : an invariant of the world, the trace and one ghost mode per thread holds of every reached
  configuration, once each job follows a `Protocol` and each permitted effect keeps the invariant.
-/

namespace TimeChamp.Lib
open Function (update)

/-- What the jobs are and what the effects do. -/
structure System (E : Type) (R : E → Type) (σ χ J : Type) where
  exec : χ → (e : E) → σ → Option (R e × σ)
  admits : J → σ → Option σ
  body : J → Prog E R Unit

/-- A thread's effect, with its answer. -/
abbrev Performed (ι E : Type) (R : E → Type) := ι × (e : E) × R e

/-- A configuration of the pool. -/
structure Config (ι E : Type) (R : E → Type) (σ : Type) where
  world : σ
  thread : ι → Prog E R Unit
  trace : List (Performed ι E R)

/-- Nobody runs, nothing has been done. -/
def Config.start {ι E : Type} {R : E → Type} {σ : Type} (w : σ) : Config ι E R σ := ⟨w, fun _ => .ret (), []⟩

/-- No thread is running a job. -/
def Config.Idle {ι E : Type} {R : E → Type} {σ : Type} (c : Config ι E R σ) : Prop := ∀ i, c.thread i = .ret ()

instance {E : Type} {R : E → Type} : (p : Prog E R Unit) → Decidable (p = .ret ())
  | .ret () => isTrue rfl
  | .op _ _ => isFalse fun h => by cases h

instance {ι E : Type} [Fintype ι] {R : E → Type} {σ : Type} (c : Config ι E R σ) : Decidable c.Idle :=
  inferInstanceAs (Decidable (∀ i, c.thread i = .ret ()))

/-- An action of the scheduler: hand a job to an idle thread, or let one perform its next effect. -/
inductive Act (ι χ J : Type) where
  | call (i : ι) (j : J)
  | step (i : ι) (ch : χ)

/-- The thread of an action. -/
def Act.who {ι χ J : Type} : Act ι χ J → ι
  | .call i _ => i
  | .step i _ => i

/-- The choice and the effect of an action. -/
def Config.performs {ι E : Type} {R : E → Type} {σ χ J : Type} (c : Config ι E R σ) : Act ι χ J → Option (χ × E)
  | .call _ _ => none
  | .step i ch =>
    match c.thread i with
    | .ret () => none
    | .op e _ => some (ch, e)

theorem Config.performs_step {ι E : Type} {R : E → Type} {σ χ J : Type} {c : Config ι E R σ} {i : ι} {e : E}
    {k : R e → Prog E R Unit} (h : c.thread i = .op e k) (ch : χ) :
    c.performs (.step i ch : Act ι χ J) = some (ch, e) := by
  simp only [performs, h]

theorem Config.performs_eq_some {ι E : Type} {R : E → Type} {σ χ J : Type} {c : Config ι E R σ} {a : Act ι χ J} {ch : χ}
    {e : E} (h : c.performs a = some (ch, e)) : ∃ i k, a = .step i ch ∧ c.thread i = .op e k := by
  cases a with
  | call i j => cases h
  | step i ch' =>
      simp only [performs] at h
      split at h
      next => cases h
      next e' k hop =>
        obtain ⟨rfl, rfl⟩ := Prod.mk.inj (Option.some.inj h)
        exact ⟨i, k, rfl, hop⟩

section
variable {ι E : Type} [DecidableEq ι] {R : E → Type} {σ χ J : Type}

/-- One action; `none` when it is not possible. -/
def System.next (S : System E R σ χ J) (c : Config ι E R σ) : Act ι χ J → Option (Config ι E R σ)
  | .call i j =>
    match c.thread i with
    | .ret () => (S.admits j c.world).map fun w => { c with world := w, thread := update c.thread i (S.body j) }
    | .op _ _ => none
  | .step i ch =>
    match c.thread i with
    | .ret () => none
    | .op e k =>
      (S.exec ch e c.world).map fun r => ⟨r.2, update c.thread i (k r.1), c.trace ++ [(i, ⟨e, r.1⟩)]⟩

def System.play (S : System E R σ χ J) (c : Config ι E R σ) : List (Act ι χ J) → Option (Config ι E R σ)
  | [] => some c
  | a :: as => (S.next c a).bind fun c' => S.play c' as

/-- Where a schedule leads; the configuration itself if it is not possible. -/
def System.endOf (S : System E R σ χ J) (c : Config ι E R σ) (as : List (Act ι χ J)) : Config ι E R σ :=
  (S.play c as).getD c

theorem System.play_endOf {S : System E R σ χ J} {c : Config ι E R σ} {as : List (Act ι χ J)}
    (h : (S.play c as).isSome = true) : S.play c as = some (S.endOf c as) := by
  obtain ⟨c', hc'⟩ := Option.isSome_iff_exists.mp h
  rw [System.endOf, hc', Option.getD_some]

/-- The two kinds of action, taken apart. -/
theorem System.next_cases {S : System E R σ χ J} {c c' : Config ι E R σ} {a : Act ι χ J}
    (h : S.next c a = some c') :
    (∃ i j w, a = .call i j ∧ c.thread i = .ret () ∧ S.admits j c.world = some w ∧
      c' = { c with world := w, thread := update c.thread i (S.body j) }) ∨
    ∃ i ch e k r w, a = .step i ch ∧ c.thread i = .op e k ∧ S.exec ch e c.world = some (r, w) ∧
      c' = ⟨w, update c.thread i (k r), c.trace ++ [(i, ⟨e, r⟩)]⟩ := by
  cases a with
  | call i j =>
      simp only [System.next] at h
      split at h
      next hret =>
        obtain ⟨w, hw, rfl⟩ := Option.map_eq_some_iff.mp h
        exact Or.inl ⟨i, j, w, rfl, hret, hw, rfl⟩
      next => cases h
  | step i ch =>
      simp only [System.next] at h
      split at h
      next => cases h
      next e k hop =>
        obtain ⟨⟨r, w⟩, hr, rfl⟩ := Option.map_eq_some_iff.mp h
        exact Or.inr ⟨i, ch, e, k, r, w, rfl, hop, hr, rfl⟩

/-- What the other threads did since the last effect of `i`, latest first. -/
def since (i : ι) (tr : List (Performed ι E R)) : List (Performed ι E R) := tr.reverse.takeWhile fun p => p.1 ≠ i

theorem since_concat_of_ne {i j : ι} (h : j ≠ i) (tr : List (Performed ι E R)) (r : (e : E) × R e) :
    since i (tr ++ [(j, r)]) = (j, r) :: since i tr := by
  simp [since, h]

/-- What was done since the last effect satisfying `p`, latest first. -/
def sinceLast (p : Performed ι E R → Bool) (tr : List (Performed ι E R)) : List (Performed ι E R) :=
  tr.reverse.takeWhile fun x => !p x

omit [DecidableEq ι] in
theorem sinceLast_concat (p : Performed ι E R → Bool) (tr : List (Performed ι E R)) (x : Performed ι E R) :
    sinceLast p (tr ++ [x]) = if p x then [] else x :: sinceLast p tr := by
  unfold sinceLast
  rw [List.reverse_append, List.reverse_singleton, List.singleton_append, List.takeWhile_cons]
  cases p x <;> rfl

omit [DecidableEq ι] in
/-- A later effect is added to what was done since. -/
theorem any_sinceLast_concat {p f : Performed ι E R → Bool} {tr : List (Performed ι E R)} {x : Performed ι E R}
    (hx : p x = false) (h : (sinceLast p tr).any f = true ∨ f x = true) : (sinceLast p (tr ++ [x])).any f = true := by
  rw [sinceLast_concat, if_neg (by rw [hx]; exact Bool.false_ne_true), List.any_cons, Bool.or_eq_true]
  exact h.symm

/-- **Modes that exclude each other.** When no two threads hold the same thing, one of them may take a mode that holds
what no other holds. -/
theorem exclusive_update {μ κ : Type} (holds : μ → κ → Prop) {m : ι → μ} {i : ι} {x : μ}
    (h : ∀ i j k, holds (m i) k → holds (m j) k → i = j) (hnew : ∀ k, holds x k → ∀ j, j ≠ i → ¬ holds (m j) k)
    (a b : ι) (k : κ) (ha : holds (update m i x a) k) (hb : holds (update m i x b) k) : a = b := by
  by_cases hai : a = i <;> by_cases hbi : b = i
  · exact hai.trans hbi.symm
  · subst hai
    rw [Function.update_self] at ha
    rw [Function.update_of_ne hbi] at hb
    exact absurd hb (hnew k ha b hbi)
  · subst hbi
    rw [Function.update_self] at hb
    rw [Function.update_of_ne hai] at ha
    exact absurd ha (hnew k hb a hai)
  · rw [Function.update_of_ne hai] at ha
    rw [Function.update_of_ne hbi] at hb
    exact h a b k ha hb

/-! ## Runs -/

/-- The configurations reached from `init` by actions that `G` allows. -/
inductive Reaches (S : System E R σ χ J) (G : Config ι E R σ → Act ι χ J → Prop) (init : Config ι E R σ) :
    Config ι E R σ → Prop where
  | start : Reaches S G init init
  | next {c c' : Config ι E R σ} {a : Act ι χ J} (h : Reaches S G init c) (hG : G c a) (hn : S.next c a = some c') :
      Reaches S G init c'

/-- Each action of the schedule is allowed where it is taken. -/
def System.Allowed (S : System E R σ χ J) (G : Config ι E R σ → Act ι χ J → Prop) (c : Config ι E R σ) :
    List (Act ι χ J) → Prop
  | [] => True
  | a :: as => G c a ∧ ∀ c' ∈ S.next c a, S.Allowed G c' as

theorem Reaches.play {S : System E R σ χ J} {G : Config ι E R σ → Act ι χ J → Prop} {init c c' : Config ι E R σ}
    (h : Reaches S G init c) {as : List (Act ι χ J)} (hG : S.Allowed G c as) (hp : S.play c as = some c') :
    Reaches S G init c' := by
  induction as generalizing c with
  | nil =>
      cases hp
      exact h
  | cons a as ih =>
      obtain ⟨d, hd, hrest⟩ := Option.bind_eq_some_iff.mp hp
      exact ih (.next h hG.1 hd) (hG.2 d hd) hrest

theorem Reaches.mono {S : System E R σ χ J} {G G' : Config ι E R σ → Act ι χ J → Prop} {init c : Config ι E R σ}
    (h : Reaches S G init c) (hG : ∀ c a, G c a → G' c a) : Reaches S G' init c := by
  induction h with
  | start => exact .start
  | next _ hGa hn ih => exact ih.next (hG _ _ hGa) hn

theorem reaches_endOf {S : System E R σ χ J} {G : Config ι E R σ → Act ι χ J → Prop} {init : Config ι E R σ}
    {as : List (Act ι χ J)} (hG : S.Allowed G init as) (h : (S.play init as).isSome = true) :
    Reaches S G init (S.endOf init as) :=
  Reaches.start.play hG (System.play_endOf h)

theorem System.allowed_of_forall {S : System E R σ χ J} {G : Config ι E R σ → Act ι χ J → Prop} {as : List (Act ι χ J)}
    (h : ∀ a ∈ as, ∀ c, G c a) (c : Config ι E R σ) : S.Allowed G c as := by
  induction as generalizing c with
  | nil => trivial
  | cons a as ih =>
      exact ⟨h a List.mem_cons_self c, fun c' _ => ih (fun b hb => h b (List.mem_cons_of_mem _ hb)) c'⟩

theorem System.allowed_true (S : System E R σ χ J) (c : Config ι E R σ) (as : List (Act ι χ J)) :
    S.Allowed (fun _ _ => True) c as :=
  System.allowed_of_forall (fun _ _ _ => trivial) c

theorem Reaches.alone {S : System E R σ χ J} {init c : Config ι E R σ} (h : Reaches S (fun _ _ => True) init c) {i : ι}
    {f f' : Nat → χ} {w : σ} (hrun : (c.thread i).run (Prog.fed S.exec) (f, c.world) = some ((), f', w)) :
    ∃ c', Reaches S (fun _ _ => True) init c' ∧ c'.world = w ∧ c'.thread = update c.thread i (.ret ()) := by
  generalize hp : c.thread i = p at hrun
  induction p generalizing c f with
  | ret a =>
      obtain ⟨-, heq⟩ := Prod.mk.inj (Option.some.inj hrun)
      exact ⟨c, h, (Prod.mk.inj heq).2, (Function.update_eq_self_iff.mpr hp.symm).symm⟩
  | op e k ih =>
      obtain ⟨r, ⟨f₁, w₁⟩, hr, hrest⟩ := Prog.run_op_eq_some _ hrun
      have hexec := Prog.fed_eq_some hr
      have hnext : S.next c (.step i (f 0)) = some ⟨w₁, update c.thread i (k r), c.trace ++ [(i, ⟨e, r⟩)]⟩ := by
        simp only [System.next, hp, hexec, Option.map_some]
      obtain ⟨c', hc', hw, hthread⟩ := ih r (h.next trivial hnext) (Function.update_self _ _ _) hrest
      exact ⟨c', hc', hw, by rw [hthread, Function.update_idem]⟩

theorem Reaches.job {S : System E R σ χ J} {init c : Config ι E R σ} (h : Reaches S (fun _ _ => True) init c)
    (hidle : c.Idle) (i : ι) {j : J} {w w' : σ} (hj : S.admits j c.world = some w) {f f' : Nat → χ}
    (hrun : (S.body j).run (Prog.fed S.exec) (f, w) = some ((), f', w')) :
    ∃ c', Reaches S (fun _ _ => True) init c' ∧ c'.world = w' ∧ c'.Idle := by
  have hnext : S.next c (.call i j : Act ι χ J) =
      some { c with world := w, thread := update c.thread i (S.body j) } := by
    simp only [System.next, hidle i, hj, Option.map_some]
  have halone : (update c.thread i (S.body j) i).run (Prog.fed S.exec) (f, w) = some ((), f', w') := by
    rw [Function.update_self]
    exact hrun
  obtain ⟨c', hc', hw, hthread⟩ := (h.next trivial hnext).alone halone
  refine ⟨c', hc', hw, fun k => ?_⟩
  rw [hthread, Function.update_idem]
  by_cases hk : k = i
  · subst hk
    exact Function.update_self _ _ _
  · rw [Function.update_of_ne hk]
    exact hidle k

instance (S : System E R σ χ J) (G : Config ι E R σ → Act ι χ J → Prop) [∀ c a, Decidable (G c a)] :
    ∀ c as, Decidable (S.Allowed G c as)
  | _, [] => isTrue trivial
  | c, a :: as =>
    have : ∀ c', Decidable (S.Allowed G c' as) := fun c' => instDecidableAllowed S G c' as
    inferInstanceAs (Decidable (G c a ∧ ∀ c' ∈ S.next c a, S.Allowed G c' as))

/-- **The invariant rule.** Each thread carries a ghost mode. Every job, from the mode its thread ended the last
one in, follows the protocol to a mode in `F`; every permitted effect leads to a mode the protocol foresees. Then in
every reached configuration the invariant holds and every thread follows the protocol from its mode. -/
theorem Reaches.inv {S : System E R σ χ J} {G : Config ι E R σ → Act ι χ J → Prop} {init : Config ι E R σ} {μ : Type}
    {P : Protocol E R μ} {F : μ → Prop} (I : σ → List (Performed ι E R) → (ι → μ) → Prop)
    (hinit : ∃ m, I init.world init.trace m ∧ ∀ i, Follows P (fun m _ => F m) (m i) (init.thread i))
    (hcall : ∀ c m i j w, I c.world c.trace m → F (m i) → G c (.call i j) → S.admits j c.world = some w →
      ∃ m', I w c.trace (update m i m') ∧ Follows P (fun m _ => F m) m' (S.body j))
    (hstep : ∀ c m i ch e k r w, I c.world c.trace m → G c (.step i ch) → c.thread i = .op e k → P.pre (m i) e →
      S.exec ch e c.world = some (r, w) →
      ∃ m', P.post (m i) e r m' ∧ I w (c.trace ++ [(i, ⟨e, r⟩)]) (update m i m'))
    {c : Config ι E R σ} (h : Reaches S G init c) :
    ∃ m, I c.world c.trace m ∧ ∀ i, Follows P (fun m _ => F m) (m i) (c.thread i) := by
  induction h with
  | start => exact hinit
  | @next c c' a _ hG hn ih =>
      obtain ⟨m, hI, hF⟩ := ih
      -- the thread that acts changes its mode and its program together; the others keep both
      have others : ∀ {i : ι} {m' : μ} {p : Prog E R Unit}, Follows P (fun m _ => F m) m' p →
          ∀ i', Follows P (fun m _ => F m) (update m i m' i') (update c.thread i p i') := by
        intro i m' p hp i'
        by_cases hi : i' = i
        · subst hi
          simpa using hp
        · simpa [hi] using hF i'
      rcases System.next_cases hn with ⟨i, j, w, rfl, hret, hw, rfl⟩ | ⟨i, ch, e, k, r, w, rfl, hop, hr, rfl⟩
      · have hdone : F (m i) := by simpa [hret] using hF i
        obtain ⟨m', hI', hF'⟩ := hcall c m i j w hI hdone hG hw
        exact ⟨_, hI', others hF'⟩
      · have hi := hF i
        rw [hop, follows_op] at hi
        obtain ⟨m', hpost, hI'⟩ := hstep c m i ch e k r w hI hG hop hi.1 hr
        exact ⟨_, hI', others (hi.2 r m' hpost)⟩

end

end TimeChamp.Lib
