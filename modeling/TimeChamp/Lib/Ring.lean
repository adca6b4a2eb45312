import Mathlib.Data.List.Rotate

/-!
# A ring of slots and one counter

The slot that is written is the number of writes modulo the number of slots; nothing else says where the ring begins.

* `Holds slots xs` : each of the last writes of `xs` is in the slot of its number; other slots may hold anything;
* `Holds.put` : the next write keeps this;
* `Holds.perm` : **the slots in use hold the last writes**, in some order;
* `Holds.last` : the last slot in use holds the last write only until the ring is full, and from then on the last one
  whose number is a multiple of the number of slots.
-/

namespace TimeChamp.Lib.Ring

variable {α : Type} {slots xs : List α}

/-- Each of the last `slots.length` elements of `xs` is in its slot. -/
def Holds (slots xs : List α) : Prop :=
  ∀ j, j < xs.length → xs.length ≤ j + slots.length → slots[j % slots.length]? = xs[j]?

/-- The writes that are still in the ring. -/
def recent (n : Nat) (xs : List α) : List α := xs.drop (xs.length - n)

theorem Holds.nil (slots : List α) : Holds slots [] := fun j hj => absurd hj (Nat.not_lt_zero j)

/-- Two numbers less than a turn apart are in different slots. -/
theorem mod_ne_of_lt {j k n : Nat} (hlt : j < k) (hle : k < j + n) : j % n ≠ k % n := by
  intro heq
  have hzero : (k - j) % n = 0 := Nat.sub_mod_eq_zero_of_mod_eq heq.symm
  rw [Nat.mod_eq_of_lt (by omega)] at hzero
  omega

theorem Holds.put (h : Holds slots xs) (hpos : 0 < slots.length) (x : α) :
    Holds (slots.set (xs.length % slots.length) x) (xs ++ [x]) := by
  intro j hj hle
  rw [List.length_append, List.length_singleton] at hj hle
  rw [List.length_set] at hle ⊢
  by_cases heq : j = xs.length
  · subst heq
    rw [List.getElem?_set_self (Nat.mod_lt _ hpos), List.getElem?_concat_length]
  · have hlt : j < xs.length := by omega
    rw [List.getElem?_set_ne (mod_ne_of_lt hlt (by omega)).symm, List.getElem?_append_left hlt]
    exact h j hlt (by omega)

/-- Until the ring is full the slots are in order. -/
theorem Holds.take (h : Holds slots xs) (hle : xs.length ≤ slots.length) : slots.take xs.length = xs := by
  apply List.ext_getElem?
  intro i
  by_cases hi : i < xs.length
  · have hslot := h i hi (by omega)
    rw [Nat.mod_eq_of_lt (by omega)] at hslot
    rw [List.getElem?_take_of_lt hi, hslot]
  · rw [List.getElem?_eq_none (by rw [List.length_take]; omega), List.getElem?_eq_none (by omega)]

/-- From then on they are turned by the counter. -/
theorem Holds.rotate (h : Holds slots xs) (hle : slots.length ≤ xs.length) :
    slots.rotate xs.length = xs.drop (xs.length - slots.length) := by
  apply List.ext_getElem?
  intro i
  by_cases hi : i < slots.length
  · have hslot := h (xs.length - slots.length + i) (by omega) (by omega)
    have hturn : (xs.length - slots.length + i) % slots.length = (i + xs.length) % slots.length := by
      rw [← Nat.add_mod_right]
      congr 1
      omega
    rw [List.getElem?_rotate hi, ← hturn, hslot, List.getElem?_drop]
  · rw [List.getElem?_eq_none (by rw [List.length_rotate]; omega)]
    rw [List.getElem?_eq_none (by rw [List.length_drop]; omega)]

/-- **The slots in use** hold the last writes. -/
theorem Holds.perm (h : Holds slots xs) : (slots.take xs.length).Perm (recent slots.length xs) := by
  unfold recent
  by_cases hle : xs.length ≤ slots.length
  · rw [h.take hle, Nat.sub_eq_zero_of_le hle, List.drop_zero]
  · rw [List.take_of_length_le (by omega), ← h.rotate (by omega)]
    exact (List.rotate_perm slots xs.length).symm

/-- **The last slot in use.** -/
theorem Holds.last (h : Holds slots xs) (hpos : 0 < slots.length) (hne : xs ≠ []) :
    slots[min xs.length slots.length - 1]? =
      xs[(if xs.length ≤ slots.length then xs.length else slots.length * (xs.length / slots.length)) - 1]? := by
  have hlen := List.length_pos_iff.mpr hne
  split_ifs with hle
  · have hslot := h (xs.length - 1) (by omega) (by omega)
    rw [Nat.mod_eq_of_lt (by omega)] at hslot
    rw [Nat.min_eq_left hle, hslot]
  · -- the last whole turn ended with the last slot
    have hturns := Nat.div_add_mod xs.length slots.length
    have hrest := Nat.mod_lt xs.length hpos
    have hone : 1 ≤ xs.length / slots.length := (Nat.one_le_div_iff hpos).mpr (by omega)
    obtain ⟨t, ht⟩ : ∃ t, xs.length / slots.length = t + 1 := ⟨xs.length / slots.length - 1, by omega⟩
    rw [ht, Nat.mul_succ] at hturns ⊢
    have hslot := h (slots.length * t + slots.length - 1) (by omega) (by omega)
    have hmod : (slots.length * t + slots.length - 1) % slots.length = slots.length - 1 := by
      rw [Nat.add_sub_assoc hpos, Nat.mul_add_mod, Nat.mod_eq_of_lt (by omega)]
    rw [hmod] at hslot
    rw [Nat.min_eq_right (by omega), hslot]

end TimeChamp.Lib.Ring
