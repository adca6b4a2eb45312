import Mathlib.Data.List.Basic

/-!
# Registers that the last writer decides

Events of which some write a register, each its own value, whatever was there.

* `lastWrite write a es` : the register after some events, from `a`;
* `lastWrite_eq` : when all writers write `b`, it is `a` or `b`, and `b` once one of them has come;
* `SameEvents E es` : the events of `E`, in any order and any number of times each;
* `orderIndependent_iff` : **the register is the same after all orders and repetitions of some events exactly when all
  writers among them agree**.
-/

namespace TimeChamp.Lib

section
variable {ε α : Type} (write : ε → Option α)

/-- The register after some events. -/
def lastWrite (a : α) (es : List ε) : α := es.foldl (fun a e => (write e).getD a) a

/-- The same events, in any order and any number of times each. -/
def SameEvents (E es : List ε) : Prop := ∀ e, e ∈ es ↔ e ∈ E

/-- No two events write different values. -/
def WritersAgree (E : List ε) : Prop := ∀ e ∈ E, ∀ e' ∈ E, ∀ a ∈ write e, ∀ a' ∈ write e', a = a'

/-- The register after all orders and repetitions of some events is the same. -/
def OrderIndependent (a : α) (E : List ε) : Prop :=
  ∀ es es', SameEvents E es → SameEvents E es' → lastWrite write a es = lastWrite write a es'

variable {write}

theorem lastWrite_concat (a : α) (es : List ε) (e : ε) :
    lastWrite write a (es ++ [e]) = (write e).getD (lastWrite write a es) := by
  rw [lastWrite, List.foldl_append]
  rfl

theorem lastWrite_of_none {es : List ε} (h : ∀ e ∈ es, write e = none) (a : α) : lastWrite write a es = a := by
  induction es with
  | nil => rfl
  | cons e es ih =>
      obtain ⟨he, hes⟩ := List.forall_mem_cons.mp h
      rw [lastWrite, List.foldl_cons, he]
      exact ih hes

theorem lastWrite_eq {es : List ε} {b : α} (h : ∀ e ∈ es, ∀ b' ∈ write e, b' = b) (a : α)
    (hsome : a = b ∨ ∃ e ∈ es, (write e).isSome = true) : lastWrite write a es = b := by
  induction es generalizing a with
  | nil =>
      rcases hsome with rfl | ⟨e, he, -⟩
      · rfl
      · exact absurd he List.not_mem_nil
  | cons e es ih =>
      obtain ⟨he, hes⟩ := List.forall_mem_cons.mp h
      rw [lastWrite, List.foldl_cons]
      apply ih hes
      cases hwrite : write e with
      | some b' => exact Or.inl (he b' hwrite)
      | none =>
          rcases hsome with rfl | ⟨e', he', hsome⟩
          · exact Or.inl rfl
          · rcases List.mem_cons.mp he' with rfl | he'
            · rw [hwrite] at hsome
              exact nomatch hsome
            · exact Or.inr ⟨e', he', hsome⟩

/-- The register is what it was, or what some event wrote. -/
theorem lastWrite_cases (a : α) (es : List ε) :
    lastWrite write a es = a ∨ ∃ e ∈ es, write e = some (lastWrite write a es) := by
  induction es generalizing a with
  | nil => exact Or.inl rfl
  | cons e es ih =>
      rw [lastWrite, List.foldl_cons]
      rcases ih ((write e).getD a) with heq | ⟨e', he', hwrite⟩
      · show lastWrite write ((write e).getD a) es = a ∨ ∃ e' ∈ e :: es, write e' = some (lastWrite write _ es)
        rw [heq]
        cases hwrite : write e with
        | none => exact Or.inl rfl
        | some b => exact Or.inr ⟨e, List.mem_cons_self, hwrite⟩
      · exact Or.inr ⟨e', List.mem_cons_of_mem _ he', hwrite⟩

theorem lastWrite_same {E es : List ε} (h : WritersAgree write E) (hsame : SameEvents E es) {e : ε} (he : e ∈ E) {b : α}
    (hb : write e = some b) (a : α) : lastWrite write a es = b := by
  refine lastWrite_eq (fun e' he' b' hb' => h e' ((hsame e').mp he') e he b' hb' b hb) a (Or.inr ⟨e, (hsame e).mpr he, ?_⟩)
  rw [hb]
  rfl

/-- **The last writer does not matter** exactly when all writers agree. -/
theorem orderIndependent_iff (a : α) (E : List ε) : OrderIndependent write a E ↔ WritersAgree write E := by
  constructor
  · intro h e he e' he' b hb b' hb'
    have hsame : ∀ x ∈ E, SameEvents E (E ++ [x]) := by
      intro x hx y
      rw [List.mem_append, List.mem_singleton]
      exact ⟨fun hy => hy.elim id fun hy => hy ▸ hx, Or.inl⟩
    have heq := h _ _ (hsame e he) (hsame e' he')
    rw [lastWrite_concat, lastWrite_concat, Option.mem_def.mp hb, Option.mem_def.mp hb'] at heq
    exact heq
  · intro h es es' hes hes'
    by_cases hwriter : ∃ e ∈ E, (write e).isSome = true
    · obtain ⟨e, he, hsome⟩ := hwriter
      obtain ⟨b, hb⟩ := Option.isSome_iff_exists.mp hsome
      rw [lastWrite_same h hes he hb, lastWrite_same h hes' he hb]
    · have hnone : ∀ e ∈ E, write e = none := fun e he => by
        by_contra hne
        exact hwriter ⟨e, he, Option.isSome_iff_ne_none.mpr hne⟩
      rw [lastWrite_of_none fun e he => hnone e ((hes e).mp he), lastWrite_of_none fun e he => hnone e ((hes' e).mp he)]

end

end TimeChamp.Lib
