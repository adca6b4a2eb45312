import Mathlib.Algebra.BigOperators.Group.Finset.Basic

/-!
# What is in flight

Each member of a pool, in its mode, holds some amount that is not yet where it belongs; all but finitely many hold none.

* `InFlight f m n` : the members in the modes `m` hold `n` in all, where a mode `x` holds `f x`;
* `InFlight.update` : what one member does changes the total by what it holds;
* `InFlight.eq_zero` : when nobody holds anything, nothing is in flight.
-/

namespace TimeChamp.Lib

variable {ι μ : Type} {f : μ → Nat} {m : ι → μ} {n : Nat}

/-- The members hold `n` in all. -/
def InFlight (f : μ → Nat) (m : ι → μ) (n : Nat) : Prop :=
  ∃ s : Finset ι, (∀ i ∉ s, f (m i) = 0) ∧ ∑ i ∈ s, f (m i) = n

theorem inFlight_zero (h : ∀ i, f (m i) = 0) : InFlight f m 0 := ⟨∅, fun i _ => h i, Finset.sum_empty⟩

theorem InFlight.eq_zero (h : InFlight f m n) (hzero : ∀ i, f (m i) = 0) : n = 0 := by
  obtain ⟨s, -, rfl⟩ := h
  exact Finset.sum_eq_zero fun i _ => hzero i

/-- **One member goes on**, from what it held to what it holds. -/
theorem InFlight.update [DecidableEq ι] (h : InFlight f m n) (i : ι) (x : μ) :
    ∃ rest, n = f (m i) + rest ∧ InFlight f (Function.update m i x) (f x + rest) := by
  obtain ⟨s, hout, rfl⟩ := h
  have hsame : ∀ j ∈ s.erase i, f (Function.update m i x j) = f (m j) := fun j hj => by
    rw [Function.update_of_ne (Finset.ne_of_mem_erase hj)]
  refine ⟨∑ j ∈ s.erase i, f (m j), ?_, insert i s, fun j hj => ?_, ?_⟩
  · by_cases hi : i ∈ s
    · exact (Finset.add_sum_erase s (fun j => f (m j)) hi).symm
    · rw [hout i hi, Finset.erase_eq_of_notMem hi, Nat.zero_add]
  · obtain ⟨hne, hj⟩ := not_or.mp fun h => hj (Finset.mem_insert.mpr h)
    rw [Function.update_of_ne hne]
    exact hout j hj
  · rw [← Finset.add_sum_erase _ _ (Finset.mem_insert_self i s), Finset.erase_insert_eq_erase, Function.update_self,
      Finset.sum_congr rfl hsame]

end TimeChamp.Lib
