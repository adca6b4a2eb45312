import Mathlib.Logic.Basic

/-!
# Sequential programs over effects

A `Prog E R α` performs effects `e : E`, each answered by an `R e`, and returns an `α`. What an effect does is left to
an interpreter; a program is the tree of all answers it may get.

* `Prog.run exec` : the program run alone by an interpreter of its effects, which may block; `Prog.fed`, one that is given
  a choice for each effect;
* `Protocol μ` : which effects a caller in mode `μ` may perform, and the modes an answer may leave it in;
* `Protocol.pull`, `follows_embed`, `Follows.embed` : a program embedded in more effects follows a protocol for those;
* `Performs S p` : every effect of `p` is in `S`, and so harmless to whatever `S` leaves alone (`Performs.follows`); a
  program that follows a protocol performs only what that permits (`Follows.performs`), and follows it within `S` if it
  performs only effects in `S` (`Follows.within`);
* `Outcome.answer` : the answer and the effect of a call that may fail, before or after it took effect;
* `Follows P Q m p` : from mode `m` the program `p` only performs permitted effects, whatever the answers, and returns
  in a mode and with a value satisfying `Q`; `follows_bind` and `Follows.mono` compose such facts;
* `Throwing`, `Guarantees` : programs that may throw, and the same of those.
-/

namespace TimeChamp.Lib

/-- A program: return a value, or perform an effect and continue with its answer. -/
inductive Prog (E : Type) (R : E → Type) (α : Type) where
  | ret (a : α)
  | op (e : E) (k : R e → Prog E R α)

namespace Prog
variable {E : Type} {R : E → Type} {α β γ : Type}

protected def bind : Prog E R α → (α → Prog E R β) → Prog E R β
  | ret a, f => f a
  | op e k, f => op e fun r => (k r).bind f

instance : Monad (Prog E R) where
  pure := ret
  bind := Prog.bind

/-- Perform one effect and return its answer. -/
def perform (e : E) : Prog E R (R e) := op e ret

/-- The program over more effects: each `e` becomes `emb e`, and what that answers is read by `back e`. -/
def embed {E' : Type} {R' : E' → Type} (emb : E → E') (back : (e : E) → R' (emb e) → R e) : Prog E R α → Prog E' R' α
  | ret a => .ret a
  | op e k => .op (emb e) fun r => (k (back e r)).embed emb back

/-! ## Running alone -/

section Run
variable {σ : Type} (exec : (e : E) → σ → Option (R e × σ))

/-- The program run alone; `none` when an effect blocks for ever. -/
def run : Prog E R α → σ → Option (α × σ)
  | ret a, s => some (a, s)
  | op e k, s => (exec e s).bind fun r => (k r.1).run r.2

@[simp] theorem run_pure (a : α) (s : σ) : (pure a : Prog E R α).run exec s = some (a, s) := rfl

theorem run_op {e : E} {k : R e → Prog E R α} {s s' : σ} {r : R e} (h : exec e s = some (r, s')) :
    (op e k).run exec s = (k r).run exec s' := by
  rw [run, h, Option.bind_some]

/-- An effect of a run that ends was answered. -/
theorem run_op_eq_some {e : E} {k : R e → Prog E R α} {s : σ} {x : α × σ} (h : (op e k).run exec s = some x) :
    ∃ r s', exec e s = some (r, s') ∧ (k r).run exec s' = some x := by
  obtain ⟨⟨r, s'⟩, hr, hrest⟩ := Option.bind_eq_some_iff.mp h
  exact ⟨r, s', hr, hrest⟩

theorem run_bind (p : Prog E R α) (f : α → Prog E R β) (s : σ) :
    (p >>= f).run exec s = (p.run exec s).bind fun r => (f r.1).run exec r.2 := by
  induction p generalizing s with
  | ret a => rfl
  | op e k ih =>
      show (exec e s).bind (fun r => (k r.1 >>= f).run exec r.2) =
        ((exec e s).bind fun r => (k r.1).run exec r.2).bind fun r => (f r.1).run exec r.2
      rw [Option.bind_assoc]
      exact congrArg _ (funext fun r => ih r.1 r.2)

theorem run_bind_of {p : Prog E R α} {f : α → Prog E R β} {s s' : σ} {a : α} (h : p.run exec s = some (a, s')) :
    (p >>= f).run exec s = (f a).run exec s' := by
  rw [run_bind, h, Option.bind_some]

end Run

/-- An interpreter that the outside feeds one choice for each effect. -/
def fed {σ χ : Type} (exec : χ → (e : E) → σ → Option (R e × σ)) (e : E) (s : (Nat → χ) × σ) :
    Option (R e × (Nat → χ) × σ) :=
  (exec (s.1 0) e s.2).map fun r => (r.1, fun n => s.1 (n + 1), r.2)

theorem fed_eq {σ χ : Type} {exec : χ → (e : E) → σ → Option (R e × σ)} {e : E} {f : Nat → χ} {s s' : σ} {r : R e}
    (h : exec (f 0) e s = some (r, s')) : fed exec e (f, s) = some (r, fun n => f (n + 1), s') := by
  unfold fed
  rw [h, Option.map_some]

theorem fed_eq_some {σ χ : Type} {exec : χ → (e : E) → σ → Option (R e × σ)} {e : E} {f : Nat → χ} {s : σ} {r : R e}
    {t : (Nat → χ) × σ} (h : fed exec e (f, s) = some (r, t)) : exec (f 0) e s = some (r, t.2) := by
  obtain ⟨⟨r', s'⟩, hr, heq⟩ := Option.map_eq_some_iff.mp h
  obtain ⟨rfl, rfl⟩ := Prod.mk.inj heq
  exact hr

end Prog

/-! ## Calls that may fail -/

/-- How a call ends: well, or with an error before or after it took effect. -/
inductive Outcome where
  | ok
  | failed
  | lost
deriving DecidableEq

/-- The answer `a` or the error `e`, and the state `s'` if the call took effect. -/
def Outcome.answer {ε α σ : Type} (outcome : Outcome) (e : ε) (a : α) (s s' : σ) : Except ε α × σ :=
  match outcome with
  | .ok => (.ok a, s')
  | .failed => (.error e, s)
  | .lost => (.error e, s')

theorem Outcome.answer_cases {ε α σ : Type} {outcome : Outcome} {e : ε} {a : α} {s s' : σ} {r : Except ε α} {t : σ}
    (h : outcome.answer e a s s' = (r, t)) : t = s' ∧ r = .ok a ∨ r = .error e ∧ (t = s ∨ t = s') := by
  unfold Outcome.answer at h
  cases outcome <;> obtain ⟨rfl, rfl⟩ := Prod.mk.inj h
  · exact Or.inl ⟨rfl, rfl⟩
  · exact Or.inr ⟨rfl, Or.inl rfl⟩
  · exact Or.inr ⟨rfl, Or.inr rfl⟩

theorem Outcome.answer_read {ε α σ : Type} {outcome : Outcome} {e : ε} {a : α} {s : σ} {r : Except ε α} {t : σ}
    (h : outcome.answer e a s s = (r, t)) : t = s ∧ (r = .ok a ∨ r = .error e) := by
  rcases Outcome.answer_cases h with ⟨hs, hr⟩ | ⟨hr, hs⟩
  · exact ⟨hs, Or.inl hr⟩
  · exact ⟨or_self_iff.mp hs, Or.inr hr⟩

/-! ## Protocols -/

/-- What a caller may do in each mode: the effects it may perform, and the modes in which an answer may leave it. -/
structure Protocol (E : Type) (R : E → Type) (μ : Type) where
  pre : μ → E → Prop
  post : μ → (e : E) → R e → μ → Prop

section Follows
variable {E : Type} {R : E → Type} {μ α β : Type} {P : Protocol E R μ}

/-- From mode `m` the program keeps to the protocol and ends satisfying `Q`. -/
def Follows (P : Protocol E R μ) (Q : μ → α → Prop) : μ → Prog E R α → Prop
  | m, .ret a => Q m a
  | m, .op e k => P.pre m e ∧ ∀ r m', P.post m e r m' → Follows P Q m' (k r)

@[simp] theorem follows_ret {Q : μ → α → Prop} {m : μ} {a : α} : Follows P Q m (.ret a) ↔ Q m a := Iff.rfl

theorem follows_op {Q : μ → α → Prop} {m : μ} {e : E} {k : R e → Prog E R α} :
    Follows P Q m (.op e k) ↔ P.pre m e ∧ ∀ r m', P.post m e r m' → Follows P Q m' (k r) := Iff.rfl

/-- **The sequence rule.** -/
theorem follows_bind {Q : μ → β → Prop} {m : μ} {p : Prog E R α} {f : α → Prog E R β} :
    Follows P Q m (p >>= f) ↔ Follows P (fun m' a => Follows P Q m' (f a)) m p := by
  induction p generalizing m with
  | ret a => exact Iff.rfl
  | op e k ih =>
      exact and_congr_right fun _ => forall_congr' fun r => forall_congr' fun m' => imp_congr_right fun _ => ih r

/-- The rule of consequence. -/
theorem Follows.mono {Q Q' : μ → α → Prop} {m : μ} {p : Prog E R α} (h : Follows P Q m p)
    (hQ : ∀ m a, Q m a → Q' m a) : Follows P Q' m p := by
  induction p generalizing m with
  | ret a => exact hQ m a h
  | op e k ih => exact ⟨h.1, fun r m' hr => ih r (h.2 r m' hr)⟩

/-- A program followed by another, each with its own condition. -/
theorem Follows.bind {Q : μ → α → Prop} {Q' : μ → β → Prop} {m : μ} {p : Prog E R α} {f : α → Prog E R β}
    (h : Follows P Q m p) (hf : ∀ m a, Q m a → Follows P Q' m (f a)) : Follows P Q' m (p >>= f) :=
  follows_bind.mpr (h.mono hf)

theorem follows_perform_bind {Q : μ → α → Prop} {m : μ} {e : E} {k : R e → Prog E R α} :
    Follows P Q m (Prog.perform e >>= k) ↔ P.pre m e ∧ ∀ r m', P.post m e r m' → Follows P Q m' (k r) := Iff.rfl

/-- A protocol for more effects, read as one for those embedded. -/
def Protocol.pull {E' : Type} {R' : E' → Type} (P : Protocol E' R' μ) (emb : E → E')
    (back : (e : E) → R' (emb e) → R e) : Protocol E R μ where
  pre m e := P.pre m (emb e)
  post m e r m' := ∃ r', back e r' = r ∧ P.post m (emb e) r' m'

theorem follows_embed {E' : Type} {R' : E' → Type} {P : Protocol E' R' μ} {emb : E → E'}
    {back : (e : E) → R' (emb e) → R e} {Q : μ → α → Prop} {m : μ} {p : Prog E R α} :
    Follows P Q m (p.embed emb back) ↔ Follows (P.pull emb back) Q m p := by
  induction p generalizing m with
  | ret a => exact Iff.rfl
  | op e k ih =>
      refine and_congr_right fun _ => ⟨fun h r m' hr => ?_, fun h r m' hr => ?_⟩
      · obtain ⟨r', rfl, hpost⟩ := hr
        exact ih _ |>.mp (h r' m' hpost)
      · exact ih _ |>.mpr (h (back e r) m' ⟨r, rfl, hr⟩)

/-- **The embedding rule.** A program follows a protocol for more effects as it follows its own, the modes of one being
those of the other. -/
theorem Follows.embed {E' : Type} {R' : E' → Type} {μ' : Type} {P' : Protocol E' R' μ'} {emb : E → E'}
    {back : (e : E) → R' (emb e) → R e} {Q : μ → α → Prop} {Q' : μ' → α → Prop} {m : μ} {p : Prog E R α}
    (mode : μ → μ') (h : Follows P Q m p) (hpre : ∀ m e, P.pre m e → P'.pre (mode m) (emb e))
    (hpost : ∀ m e r m', P'.post (mode m) (emb e) r m' → ∃ m₁, mode m₁ = m' ∧ P.post m e (back e r) m₁)
    (hQ : ∀ m a, Q m a → Q' (mode m) a) : Follows P' Q' (mode m) (p.embed emb back) := by
  induction p generalizing m with
  | ret a => exact hQ m a h
  | op e k ih =>
      refine ⟨hpre m e h.1, fun r m' hr => ?_⟩
      obtain ⟨m₁, rfl, hm₁⟩ := hpost m e r m' hr
      exact ih (back e r) (h.2 (back e r) m₁ hm₁)

/-! ### Programs of harmless effects -/

/-- Every effect the program may perform satisfies `S`. -/
def Performs (S : E → Prop) : Prog E R α → Prop
  | .ret _ => True
  | .op e k => S e ∧ ∀ r, Performs S (k r)

theorem performs_perform {S : E → Prop} {e : E} {f : R e → Prog E R α} (he : S e) (hf : ∀ r, Performs S (f r)) :
    Performs S (Prog.perform e >>= f) :=
  ⟨he, hf⟩

theorem performs_one {S : E → Prop} {e : E} (he : S e) : Performs S (Prog.perform (R := R) e) :=
  ⟨he, fun _ => trivial⟩

theorem Performs.bind {S : E → Prop} {p : Prog E R α} {f : α → Prog E R β} (hp : Performs S p)
    (hf : ∀ a, Performs S (f a)) : Performs S (p >>= f) := by
  induction p with
  | ret a => exact hf a
  | op e k ih => exact ⟨hp.1, fun r => ih r (hp.2 r)⟩

theorem Performs.mono {S T : E → Prop} {p : Prog E R α} (hp : Performs S p) (h : ∀ e, S e → T e) : Performs T p := by
  induction p with
  | ret a => trivial
  | op e k ih => exact ⟨h e hp.1, fun r => ih r (hp.2 r)⟩

theorem Performs.embed {E' : Type} {R' : E' → Type} {emb : E → E'} {back : (e : E) → R' (emb e) → R e} {S : E' → Prop}
    {p : Prog E R α} (h : Performs (fun e => S (emb e)) p) : Performs S (p.embed emb back) := by
  induction p with
  | ret a => trivial
  | op e k ih => exact ⟨h.1, fun r => ih (back e r) (h.2 (back e r))⟩

/-- A program that follows a protocol performs only what some mode permits, if an answer never leaves it without a
mode. -/
theorem Follows.performs {S : E → Prop} {Q : μ → α → Prop} {m : μ} {p : Prog E R α} (h : Follows P Q m p)
    (hpre : ∀ m e, P.pre m e → S e) (hpost : ∀ m e r, ∃ m', P.post m e r m') : Performs S p := by
  induction p generalizing m with
  | ret a => trivial
  | op e k ih =>
      refine ⟨hpre m e h.1, fun r => ?_⟩
      obtain ⟨m', hm'⟩ := hpost m e r
      exact ih r (h.2 r m' hm')

/-- The protocol where only effects in `S` are permitted. -/
def Protocol.within (P : Protocol E R μ) (S : E → Prop) : Protocol E R μ where
  pre m e := P.pre m e ∧ S e
  post := P.post

theorem Follows.within {S : E → Prop} {Q : μ → α → Prop} {m : μ} {p : Prog E R α} (h : Follows P Q m p)
    (hS : Performs S p) : Follows (P.within S) Q m p := by
  induction p generalizing m with
  | ret a => exact h
  | op e k ih => exact ⟨⟨h.1, hS.1⟩, fun r m' hr => ih r (h.2 r m' hr) (hS.2 r)⟩

/-- **The frame rule.** A program whose effects are permitted in every mode of `F` and stay in `F` follows the
protocol from any mode of `F` to a mode of `F`. -/
theorem Performs.follows {S : E → Prop} {F : μ → Prop}
    (hS : ∀ m e, F m → S e → P.pre m e ∧ ∀ r m', P.post m e r m' → F m') {p : Prog E R α} (hp : Performs S p)
    {m : μ} (hm : F m) : Follows P (fun m' _ => F m') m p := by
  induction p generalizing m with
  | ret a => exact hm
  | op e k ih =>
      obtain ⟨hpre, hpost⟩ := hS m e hm hp.1
      exact ⟨hpre, fun r m' hr => ih r (hp.2 r) (hpost r m' hr)⟩

end Follows

/-! ## Programs that may throw -/

abbrev Throwing (ε E : Type) (R : E → Type) := ExceptT ε (Prog E R)

section Throws
variable {ε E : Type} {R : E → Type} {μ α β : Type} {P : Protocol E R μ} {Q : μ → α → Prop} {Q' : μ → β → Prop} {m : μ}

/-- The program follows the protocol, and returns a value satisfying `Q` if it does not throw. -/
def Guarantees (P : Protocol E R μ) (Q : μ → α → Prop) (m : μ) (x : Throwing ε E R α) : Prop :=
  Follows P (fun m r => ∀ a, r = .ok a → Q m a) m x.run

theorem guarantees_pure {a : α} (h : Q m a) : Guarantees P Q m (pure a : Throwing ε E R α) := by
  rintro _ ⟨⟩
  exact h

theorem guarantees_throw (e : ε) : Guarantees P Q m (throw e : Throwing ε E R α) := by
  rintro _ ⟨⟩

theorem guarantees_lift {e : E} {Q : μ → R e → Prop} (he : P.pre m e) (h : ∀ r m', P.post m e r m' → Q m' r) :
    Guarantees P Q m (ExceptT.lift (Prog.perform e) : Throwing ε E R (R e)) := by
  refine ⟨he, fun r m' hm' => ?_⟩
  rintro _ ⟨⟩
  exact h r m' hm'

theorem Guarantees.bind {x : Throwing ε E R α} {f : α → Throwing ε E R β} (h : Guarantees P Q m x)
    (hf : ∀ m a, Q m a → Guarantees P Q' m (f a)) : Guarantees P Q' m (x >>= f) := by
  refine Follows.bind h ?_
  intro m' r hr
  cases r with
  | error e => exact guarantees_throw e
  | ok a => exact hf m' a (hr a rfl)

theorem Guarantees.mono {Q' : μ → α → Prop} {x : Throwing ε E R α} (h : Guarantees P Q m x)
    (hQ : ∀ m a, Q m a → Q' m a) : Guarantees P Q' m x := by
  apply Follows.mono h
  intro m' r hr a ha
  exact hQ m' a (hr a ha)

end Throws

end TimeChamp.Lib
