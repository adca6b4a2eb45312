import Mathlib.Data.List.Nodup
import Mathlib.Order.Basic

/-!
# Tables with automatic keys

A table of rows in increasing key order, whose keys are handed out by a counter and never reused.

* `Table.insert`, `Table.update`, `Table.remove`, `Table.removeKeys` : the statements that change a table;
* `Table.modify f` : every row changed by `f`, which keeps the keys;
* `Table.select p n` : the first `n` rows satisfying `p`, in key order;
* `Table.eq_of_key` : a key names one row;
* `Table.Evolves` : what any sequence of statements can do to a table, as far as keys are concerned;
* `Table.Shrinks` : what deletes can do to it;
* `Table.filter_removeKeys_select` : removing the first `n` rows satisfying `p` by their keys removes exactly them.
-/

namespace TimeChamp.Lib

/-- Rows that carry a numeric key. -/
class Keyed (ρ : Type) where
  key : ρ → Nat
  withKey : Nat → ρ → ρ
  key_withKey : ∀ k r, key (withKey k r) = k

open Keyed (key withKey key_withKey)

/-- Rows in increasing key order, all keys below the next one to be handed out. -/
structure Table (ρ : Type) [Keyed ρ] where
  rows : List ρ
  nextKey : Nat
  sorted : rows.Pairwise fun r s => key r < key s
  bounded : ∀ r ∈ rows, key r < nextKey

namespace Table
variable {ρ : Type} [Keyed ρ]

/-- The empty table; automatic keys start at one. -/
def empty : Table ρ := ⟨[], 1, List.Pairwise.nil, by simp⟩

/-- Add a row under the next key. -/
def insert (t : Table ρ) (r : ρ) : Table ρ where
  rows := t.rows ++ [withKey t.nextKey r]
  nextKey := t.nextKey + 1
  sorted := by
    refine List.pairwise_append.mpr ⟨t.sorted, List.pairwise_singleton _ _, fun a ha b hb => ?_⟩
    rw [List.mem_singleton.mp hb, key_withKey]
    exact t.bounded a ha
  bounded := fun a ha => by
    rcases List.mem_append.mp ha with ha | ha
    · exact Nat.lt_succ_of_lt (t.bounded a ha)
    · rw [List.mem_singleton.mp ha, key_withKey]
      exact Nat.lt_succ_self _

/-- Replace the row with the key of `r`, if there is one, by `r`. -/
def update (t : Table ρ) (r : ρ) : Table ρ where
  rows := t.rows.map fun s => if key s = key r then r else s
  nextKey := t.nextKey
  sorted := by
    refine List.pairwise_map.mpr (t.sorted.imp fun {a b} hab => ?_)
    rwa [apply_ite key, apply_ite key, ite_eq_right_iff.mpr (Eq.symm), ite_eq_right_iff.mpr (Eq.symm)]
  bounded := fun s hs => by
    obtain ⟨a, ha, rfl⟩ := List.mem_map.mp hs
    rw [apply_ite key, ite_eq_right_iff.mpr (Eq.symm)]
    exact t.bounded a ha

/-- Change every row by `f`, which keeps the keys. -/
def modify (t : Table ρ) (f : ρ → ρ) (hf : ∀ r, key (f r) = key r) : Table ρ where
  rows := t.rows.map f
  nextKey := t.nextKey
  sorted := List.pairwise_map.mpr (t.sorted.imp fun h => by rwa [hf, hf])
  bounded := fun s hs => by
    obtain ⟨a, ha, rfl⟩ := List.mem_map.mp hs
    rw [hf]
    exact t.bounded a ha

/-- Delete the rows satisfying `p`. -/
def remove (t : Table ρ) (p : ρ → Bool) : Table ρ where
  rows := t.rows.filter fun r => !p r
  nextKey := t.nextKey
  sorted := t.sorted.filter _
  bounded := fun r hr => t.bounded r (List.mem_of_mem_filter hr)

/-- Delete the rows with the given keys. -/
def removeKeys (t : Table ρ) (ks : List Nat) : Table ρ := t.remove fun r => ks.contains (key r)

/-- The first `n` rows satisfying `p`. -/
def select (t : Table ρ) (p : ρ → Bool) (n : Nat) : List ρ := (t.rows.filter p).take n

/-- How many rows satisfy `p`. -/
def count (t : Table ρ) (p : ρ → Bool) : Nat := (t.rows.filter p).length

/-! ## Keys name rows -/

theorem keys_nodup (t : Table ρ) : (t.rows.map key).Nodup :=
  List.pairwise_map.mpr (t.sorted.imp fun h => Nat.ne_of_lt h)

theorem eq_of_key (t : Table ρ) {r s : ρ} (hr : r ∈ t.rows) (hs : s ∈ t.rows) (h : key r = key s) : r = s :=
  List.inj_on_of_nodup_map t.keys_nodup hr hs h

@[simp] theorem mem_insert {t : Table ρ} {r s : ρ} :
    s ∈ (t.insert r).rows ↔ s ∈ t.rows ∨ s = withKey t.nextKey r := by
  simp [insert]

@[simp] theorem mem_remove {t : Table ρ} {p : ρ → Bool} {s : ρ} : s ∈ (t.remove p).rows ↔ s ∈ t.rows ∧ p s = false := by
  simp [remove]

@[simp] theorem mem_removeKeys {t : Table ρ} {ks : List Nat} {s : ρ} :
    s ∈ (t.removeKeys ks).rows ↔ s ∈ t.rows ∧ key s ∉ ks := by
  simp [removeKeys]

@[simp] theorem mem_modify {t : Table ρ} {f : ρ → ρ} (hf : ∀ r, key (f r) = key r) {s : ρ} :
    s ∈ (t.modify f hf).rows ↔ ∃ r ∈ t.rows, f r = s := by
  simp [modify]

theorem mem_of_mem_select {t : Table ρ} {p : ρ → Bool} {n : Nat} {s : ρ} (h : s ∈ t.select p n) :
    s ∈ t.rows ∧ p s = true :=
  List.mem_filter.mp (List.mem_of_mem_take h)

theorem select_subset {t : Table ρ} {p : ρ → Bool} {n k : Nat} (h : n ≤ k) : t.select p n ⊆ t.select p k :=
  (List.take_sublist_take_left h).subset

theorem select_keys_nodup (t : Table ρ) (p : ρ → Bool) (n : Nat) : ((t.select p n).map key).Nodup :=
  t.keys_nodup.sublist (((List.take_sublist _ _).trans List.filter_sublist).map key)

theorem mem_update {t : Table ρ} {r s : ρ} :
    s ∈ (t.update r).rows ↔ s ∈ t.rows ∧ key s ≠ key r ∨ s = r ∧ ∃ a ∈ t.rows, key a = key r := by
  simp only [update, List.mem_map]
  constructor
  · rintro ⟨a, ha, rfl⟩
    by_cases hk : key a = key r
    · rw [if_pos hk]
      exact Or.inr ⟨rfl, a, ha, hk⟩
    · rw [if_neg hk]
      exact Or.inl ⟨ha, hk⟩
  · rintro (⟨hs, hk⟩ | ⟨rfl, a, ha, hk⟩)
    · exact ⟨s, hs, if_neg hk⟩
    · exact ⟨a, ha, if_pos hk⟩

/-- An update by a row that does not satisfy `p` leaves at most the rows that did. -/
theorem count_update_le {t : Table ρ} {r : ρ} {p : ρ → Bool} (h : p r = false) : (t.update r).count p ≤ t.count p := by
  simp only [count, update]
  induction t.rows with
  | nil => exact Nat.le_refl _
  | cons a rows ih =>
      rw [List.map_cons, List.filter_cons, List.filter_cons]
      by_cases hk : key a = key r
      · rw [if_pos hk, if_neg (by rw [h]; exact Bool.false_ne_true)]
        split_ifs
        · exact Nat.le_succ_of_le ih
        · exact ih
      · rw [if_neg hk]
        split_ifs
        · exact Nat.succ_le_succ ih
        · exact ih

theorem count_insert (t : Table ρ) (r : ρ) (p : ρ → Bool) :
    (t.insert r).count p = t.count p + if p (withKey t.nextKey r) then 1 else 0 := by
  simp only [count, insert, List.filter_append, List.length_append]
  congr 1
  split_ifs with h
  · rw [List.filter_cons_of_pos h]
    rfl
  · rw [List.filter_cons_of_neg h]
    rfl

/-! ## Evolution -/

/-- `t'` comes from `t` by removing rows and adding rows under new keys. -/
def Evolves (t t' : Table ρ) : Prop :=
  t.nextKey ≤ t'.nextKey ∧ ∀ r ∈ t'.rows, r ∈ t.rows ∨ t.nextKey ≤ key r

theorem Evolves.refl (t : Table ρ) : Evolves t t := ⟨Nat.le_refl _, fun _ h => Or.inl h⟩

theorem Evolves.trans {t t' t'' : Table ρ} (h : Evolves t t') (h' : Evolves t' t'') : Evolves t t'' :=
  ⟨Nat.le_trans h.1 h'.1, fun r hr => (h'.2 r hr).elim (h.2 r) fun hk => Or.inr (Nat.le_trans h.1 hk)⟩

theorem evolves_remove (t : Table ρ) (p : ρ → Bool) : Evolves t (t.remove p) :=
  ⟨Nat.le_refl _, fun _ hr => Or.inl (mem_remove.mp hr).1⟩

theorem evolves_insert (t : Table ρ) (r : ρ) : Evolves t (t.insert r) :=
  ⟨Nat.le_succ _, fun s hs => (mem_insert.mp hs).imp id fun h => by simp [h, key_withKey]⟩

theorem evolves_foldl_insert (rs : List ρ) (t : Table ρ) : Evolves t (rs.foldl insert t) := by
  induction rs generalizing t with
  | nil => exact .refl t
  | cons r rs ih => exact (evolves_insert t r).trans (ih _)

/-- `t'` comes from `t` by removing rows. -/
def Shrinks (t t' : Table ρ) : Prop := t'.rows.Sublist t.rows ∧ t'.nextKey = t.nextKey

theorem Shrinks.refl (t : Table ρ) : Shrinks t t := ⟨List.Sublist.refl _, rfl⟩

theorem shrinks_remove (t : Table ρ) (p : ρ → Bool) : Shrinks t (t.remove p) := ⟨List.filter_sublist, rfl⟩

theorem mem_foldl_insert {t : Table ρ} {s : ρ} (rs : List ρ) (h : s ∈ t.rows) : s ∈ (rs.foldl insert t).rows := by
  induction rs generalizing t with
  | nil => exact h
  | cons r rs ih => exact ih (mem_insert.mpr (Or.inl h))

/-- **Removing a selection.** Deleting the first `n` rows satisfying `p` by their keys leaves the others, in order. -/
theorem filter_removeKeys_select (t : Table ρ) (p : ρ → Bool) (n : Nat) :
    (t.removeKeys ((t.select p n).map key)).rows.filter p = (t.rows.filter p).drop n := by
  have hnodup : ((t.rows.filter p).map key).Nodup := t.keys_nodup.sublist (List.filter_sublist.map key)
  simp only [removeKeys, remove, select]
  rw [List.filter_comm]
  generalize t.rows.filter p = u at hnodup ⊢
  have hsplit : u = u.take n ++ u.drop n := (List.take_append_drop n u).symm
  have htake : (u.take n).filter (fun r => !((u.take n).map key).contains (key r)) = [] := by
    apply List.filter_eq_nil_iff.mpr
    intro r hr
    have hmem : key r ∈ (u.take n).map key := List.mem_map_of_mem hr
    simpa only [Bool.not_eq_true', Bool.not_eq_false, List.contains_iff_mem] using hmem
  have hdrop : (u.drop n).filter (fun r => !((u.take n).map key).contains (key r)) = u.drop n := by
    apply List.filter_eq_self.mpr
    intro r hr
    rw [hsplit, List.map_append] at hnodup
    have hout : key r ∉ (u.take n).map key := fun hmem =>
      (List.nodup_append.mp hnodup).2.2 _ hmem _ (List.mem_map_of_mem hr) rfl
    simpa only [Bool.not_eq_true', ← Bool.not_eq_true, List.contains_iff_mem] using hout
  calc u.filter (fun r => !((u.take n).map key).contains (key r))
      = (u.take n ++ u.drop n).filter (fun r => !((u.take n).map key).contains (key r)) := by rw [← hsplit]
    _ = u.drop n := by rw [List.filter_append, htake, hdrop, List.nil_append]

end Table
end TimeChamp.Lib
