import Mathlib.Data.List.Forall2
import Mathlib.Order.Basic
import TimeChamp.Lib.Prog

/-!
# Programs side by side

Two programs of one request that are awaited together, as `Promise.all` does: whose effect comes next is asked each time,
by an effect of its own, as long as both have some left.

* `Prog.both p q` : both, and what they return; `Throwing.both`, where they may throw; `Prog.all ps` : any number;
* `Protocol.Monotone` : what a caller may do in a mode, it may do in every greater one, and no answer makes it less;
* `Follows.both`, `Guarantees.both`, `Follows.all` : **side by side, each part may know what the others learn**.
-/

namespace TimeChamp.Lib
namespace Prog
variable {E : Type} {R : E → Type} {α β : Type} (turn : E) (left : R turn → Bool)

/-- One program is at the effect `e`; `rest` is what it is after the answer, beside what is left of the other. -/
def beside (e : E) (k : R e → Prog E R α) (rest : R e → Prog E R β → Prog E R (α × β)) : Prog E R β → Prog E R (α × β)
  | .ret b => .op e fun r => k r >>= fun a => .ret (a, b)
  | .op e' k' => .op turn fun t =>
    if left t then .op e fun r => rest r (.op e' k') else .op e' fun r => beside e k rest (k' r)

def both : Prog E R α → Prog E R β → Prog E R (α × β)
  | .ret a => fun q => q >>= fun b => .ret (a, b)
  | .op e k => beside turn left e k fun r => both (k r)

def all : List (Prog E R α) → Prog E R (List α)
  | [] => .ret []
  | p :: ps => both turn left p (all ps) >>= fun as => .ret (as.1 :: as.2)

/-- What two parts return, or what the one threw that is asked first. -/
def pair {ε : Type} : Except ε α → Except ε β → Except ε (α × β)
  | .ok a, .ok b => .ok (a, b)
  | .error e, _ => .error e
  | .ok _, .error e => .error e

end Prog

/-- Two parts that may throw; what they threw is thrown once both have ended. -/
def Throwing.both {ε E : Type} {R : E → Type} {α β : Type} (turn : E) (left : R turn → Bool) (p : Throwing ε E R α)
    (q : Throwing ε E R β) : Throwing ε E R (α × β) :=
  ExceptT.mk (Prog.both turn left p.run q.run >>= fun r => .ret (Prog.pair r.1 r.2))

/-- Any number of parts that may throw. -/
def Throwing.all {ε E : Type} {R : E → Type} {α : Type} (turn : E) (left : R turn → Bool) (ps : List (Throwing ε E R α)) :
    Throwing ε E R (List α) :=
  ExceptT.mk (Prog.all turn left (ps.map fun p => p.run) >>= fun rs => .ret (rs.mapM id))

section
variable {E : Type} {R : E → Type} {μ α β : Type} [Preorder μ] {P : Protocol E R μ} {turn : E} {left : R turn → Bool}

/-- Modes only grow, and a greater one allows no less: what it learns from an answer a smaller one would have learned
too. -/
structure Protocol.Monotone (P : Protocol E R μ) : Prop where
  pre : ∀ {m m' e}, P.pre m e → m ≤ m' → P.pre m' e
  grows : ∀ {m e r m'}, P.post m e r m' → m ≤ m'
  post : ∀ {m m' e r m''}, P.post m' e r m'' → m ≤ m' → ∃ m₁, P.post m e r m₁ ∧ m₁ ≤ m''

/-- A condition on the mode that greater ones satisfy too. -/
def Upward (Q : μ → α → Prop) : Prop := ∀ m m' a, m ≤ m' → Q m a → Q m' a

theorem Follows.le (hP : P.Monotone) {Q : μ → α → Prop} (hQ : Upward Q) {m m' : μ} {p : Prog E R α}
    (h : Follows P Q m p) (hm : m ≤ m') : Follows P Q m' p := by
  induction p generalizing m m' with
  | ret a => exact hQ m m' a hm h
  | op e k ih =>
      refine ⟨hP.pre h.1 hm, fun r m'' hr => ?_⟩
      obtain ⟨m₁, hm₁, hle⟩ := hP.post hr hm
      exact ih r (h.2 r m₁ hm₁) hle

/-- A condition that holds stays so along a program. -/
theorem Follows.and_of_upward (hP : P.Monotone) {Q : μ → α → Prop} {T : μ → Prop} (hT : ∀ m m', m ≤ m' → T m → T m')
    {m : μ} {p : Prog E R α} (h : Follows P Q m p) (hm : T m) : Follows P (fun m a => Q m a ∧ T m) m p := by
  induction p generalizing m with
  | ret a => exact ⟨h, hm⟩
  | op e k ih => exact ⟨h.1, fun r m' hr => ih r (h.2 r m' hr) (hT m m' (hP.grows hr) hm)⟩

theorem Guarantees.and_of_upward {ε : Type} (hP : P.Monotone) {Q : μ → α → Prop} {T : μ → Prop}
    (hT : ∀ m m', m ≤ m' → T m → T m') {m : μ} {p : Throwing ε E R α} (h : Guarantees P Q m p) (hm : T m) :
    Guarantees P (fun m a => Q m a ∧ T m) m p := by
  apply (Follows.and_of_upward hP hT h hm).mono
  intro m' r hr a ha
  exact ⟨hr.1 a ha, hr.2⟩

/-- **Two programs side by side.** The effect that asks whose turn it is must be permitted. -/
theorem Follows.both (hP : P.Monotone) (hturn : ∀ m, P.pre m turn) {Q : μ → α → Prop} {Q' : μ → β → Prop}
    (hQ : Upward Q) (hQ' : Upward Q') {m : μ} {p : Prog E R α} {q : Prog E R β} (hp : Follows P Q m p)
    (hq : Follows P Q' m q) : Follows P (fun m ab => Q m ab.1 ∧ Q' m ab.2) m (Prog.both turn left p q) := by
  induction p generalizing m q with
  | ret a =>
      refine (hq.and_of_upward hP (T := fun m => Q m a) (fun m m' => hQ m m' a) hp).bind ?_
      intro m' b hb
      exact ⟨hb.2, hb.1⟩
  | op e k ih =>
      induction q generalizing m with
      | ret b =>
          refine ⟨hp.1, fun r m' hr => ?_⟩
          refine ((hp.2 r m' hr).and_of_upward hP (T := fun m => Q' m b) (fun m m' => hQ' m m' b)
            (hQ' m m' b (hP.grows hr) hq)).bind ?_
          intro m'' a ha
          exact ha
      | op e' k' ih' =>
          refine ⟨hturn m, fun t m₀ ht => ?_⟩
          have hp₀ := hp.le hP hQ (hP.grows ht)
          have hq₀ := hq.le hP hQ' (hP.grows ht)
          show Follows P _ m₀ (if left t then _ else _)
          split
          · exact ⟨hp₀.1, fun r m' hr => ih r (hp₀.2 r m' hr) (hq₀.le hP hQ' (hP.grows hr))⟩
          · exact ⟨hq₀.1, fun r m' hr => ih' r (hp₀.le hP hQ (hP.grows hr)) (hq₀.2 r m' hr)⟩

theorem Guarantees.both {ε : Type} (hP : P.Monotone) (hturn : ∀ m, P.pre m turn) {Q : μ → α → Prop} {Q' : μ → β → Prop}
    (hQ : Upward Q) (hQ' : Upward Q') {m : μ} {p : Throwing ε E R α} {q : Throwing ε E R β} (hp : Guarantees P Q m p)
    (hq : Guarantees P Q' m q) : Guarantees P (fun m ab => Q m ab.1 ∧ Q' m ab.2) m (Throwing.both turn left p q) := by
  have hup : Upward fun (m : μ) (r : Except ε α) => ∀ a, r = .ok a → Q m a :=
    fun m m' r hm hr a ha => hQ m m' a hm (hr a ha)
  have hup' : Upward fun (m : μ) (r : Except ε β) => ∀ b, r = .ok b → Q' m b :=
    fun m m' r hm hr b hb => hQ' m m' b hm (hr b hb)
  refine (Follows.both hP hturn hup hup' hp hq).bind ?_
  rintro m' ⟨ra, rb⟩ ⟨ha, hb⟩ ab hab
  cases ra with
  | error e => cases hab
  | ok a =>
      cases rb with
      | error e => cases hab
      | ok b =>
          obtain rfl := Except.ok.inj hab
          exact ⟨ha a rfl, hb b rfl⟩

theorem Follows.all (hP : P.Monotone) (hturn : ∀ m, P.pre m turn) {X : Type} {Q : X → μ → α → Prop}
    (hQ : ∀ x, Upward (Q x)) {m : μ} {f : X → Prog E R α} {xs : List X} (h : ∀ x ∈ xs, Follows P (Q x) m (f x)) :
    Follows P (fun m as => List.Forall₂ (fun x a => Q x m a) xs as) m (Prog.all turn left (xs.map f)) := by
  induction xs with
  | nil => exact List.Forall₂.nil
  | cons x xs ih =>
      obtain ⟨hx, hxs⟩ := List.forall_mem_cons.mp h
      have hup : Upward fun (m : μ) (as : List α) => List.Forall₂ (fun x a => Q x m a) xs as :=
        fun m m' as hm has => has.imp fun x a => hQ x m m' a hm
      refine (Follows.both hP hturn (hQ x) hup hx (ih hxs)).bind ?_
      intro m' as has
      exact List.Forall₂.cons has.1 has.2

theorem Guarantees.all {ε : Type} (hP : P.Monotone) (hturn : ∀ m, P.pre m turn) {X : Type} {Q : X → μ → α → Prop}
    (hQ : ∀ x, Upward (Q x)) {m : μ} {f : X → Throwing ε E R α} {xs : List X}
    (h : ∀ x ∈ xs, Guarantees P (Q x) m (f x)) :
    Guarantees P (fun m as => List.Forall₂ (fun x a => Q x m a) xs as) m (Throwing.all turn left (xs.map f)) := by
  have hup : ∀ x, Upward fun (m : μ) (r : Except ε α) => ∀ a, r = .ok a → Q x m a :=
    fun x m m' r hm hr a ha => hQ x m m' a hm (hr a ha)
  have hall : Follows P _ m (Prog.all turn left (xs.map fun x => (f x).run)) := Follows.all hP hturn hup h
  rw [show xs.map (fun x => (f x).run) = (xs.map f).map fun p => p.run by rw [List.map_map]; rfl] at hall
  refine hall.bind ?_
  intro m' rs hrs as has
  have hforall : ∀ (xs : List X) (rs : List (Except ε α)) (as : List α),
      List.Forall₂ (fun x r => ∀ a, r = .ok a → Q x m' a) xs rs → rs.mapM id = .ok as →
        List.Forall₂ (fun x a => Q x m' a) xs as := by
    intro xs rs as h
    induction h generalizing as with
    | nil =>
        rintro ⟨⟩
        exact List.Forall₂.nil
    | @cons x r xs rs hr _ ih =>
        intro hmap
        rw [List.mapM_cons] at hmap
        cases r with
        | error e => cases hmap
        | ok a =>
            cases hrs : rs.mapM id with
            | error e =>
                rw [hrs] at hmap
                cases hmap
            | ok bs =>
                rw [hrs] at hmap
                obtain rfl := Except.ok.inj hmap
                exact List.Forall₂.cons (hr a rfl) (ih bs hrs)
  exact hforall xs rs as hrs has

end

end TimeChamp.Lib
