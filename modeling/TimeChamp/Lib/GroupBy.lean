import Mathlib.Data.List.Dedup
import Mathlib.Data.List.Induction
import Mathlib.Algebra.BigOperators.Group.List.Basic
import Mathlib.Algebra.Ring.Int.Defs

/-!
# Maps in order of insertion

A map from keys to values as the list of its entries, in the order in which the keys came.

* `upsert k f m` : the map with the value of `k` changed by `f`, or put in last if there was none;
* `groupFold key f es` : what comes of the elements of each key;
* `lookup_groupFold` : **it is what comes of them alone**;
* `nodup_keys`, `mem_keys_groupFold` : its keys, each once;
* `sum_groupFold` : sums of the values, where each element adds to the value of its key.
-/

namespace TimeChamp.Lib

section
variable {κ α ε : Type} [DecidableEq κ]

/-- The map with the value of `k` changed by `f`. -/
def upsert (k : κ) (f : Option α → α) : List (κ × α) → List (κ × α)
  | [] => [(k, f none)]
  | (k', a) :: m => if k' = k then (k', f (some a)) :: m else (k', a) :: upsert k f m

/-- The elements, each put into the value of its key. -/
def groupFold (key : ε → κ) (f : Option α → ε → α) (es : List ε) : List (κ × α) :=
  es.foldl (fun m e => upsert (key e) (f · e) m) []

theorem lookup_upsert (k k' : κ) (f : Option α → α) (m : List (κ × α)) :
    (upsert k f m).lookup k' = if k' = k then some (f (m.lookup k)) else m.lookup k' := by
  induction m with
  | nil =>
      by_cases h : k' = k
      · simp [upsert, h]
      · simp [upsert, h, List.lookup_cons, beq_eq_false_iff_ne.mpr h]
  | cons entry m ih =>
      obtain ⟨key, a⟩ := entry
      by_cases hkey : key = k
      · subst hkey
        by_cases h : k' = key
        · simp [upsert, h]
        · simp [upsert, h, List.lookup_cons, beq_eq_false_iff_ne.mpr h]
      · rw [upsert, if_neg hkey]
        by_cases h : k' = key
        · subst h
          simp [hkey]
        · simp only [List.lookup_cons, beq_eq_false_iff_ne.mpr h, beq_eq_false_iff_ne.mpr (Ne.symm hkey)]
          exact ih

theorem keys_upsert (k : κ) (f : Option α → α) (m : List (κ × α)) :
    (upsert k f m).map Prod.fst = if k ∈ m.map Prod.fst then m.map Prod.fst else m.map Prod.fst ++ [k] := by
  induction m with
  | nil => rfl
  | cons entry m ih =>
      obtain ⟨key, a⟩ := entry
      by_cases hkey : key = k
      · subst hkey
        simp [upsert]
      · have hne : k ≠ key := Ne.symm hkey
        rw [upsert, if_neg hkey, List.map_cons, ih]
        by_cases hmem : k ∈ m.map Prod.fst
        · rw [if_pos hmem, if_pos (by rw [List.map_cons]; exact List.mem_cons_of_mem _ hmem)]
          rfl
        · rw [if_neg hmem, if_neg (by rw [List.map_cons, List.mem_cons]; exact not_or.mpr ⟨hne, hmem⟩)]
          rfl

/-! ## Groups -/

variable {key : ε → κ} {f : Option α → ε → α}

theorem groupFold_concat (es : List ε) (e : ε) :
    groupFold key f (es ++ [e]) = upsert (key e) (f · e) (groupFold key f es) := by
  rw [groupFold, List.foldl_append]
  rfl

/-- **The value of a key** is what comes of its elements alone. -/
theorem lookup_groupFold (es : List ε) (k : κ) :
    (groupFold key f es).lookup k = (es.filter fun e => key e = k).foldl (fun a e => some (f a e)) none := by
  induction es using List.reverseRecOn with
  | nil => rfl
  | append_singleton es e ih =>
      rw [groupFold_concat, lookup_upsert, List.filter_append]
      by_cases h : k = key e
      · subst h
        rw [if_pos rfl, ih, List.filter_cons_of_pos (by simp), List.foldl_append]
        rfl
      · rw [if_neg h, ih, List.filter_cons_of_neg (by simpa using Ne.symm h), List.filter_nil, List.append_nil]

theorem nodup_keys (es : List ε) : ((groupFold key f es).map Prod.fst).Nodup := by
  induction es using List.reverseRecOn with
  | nil => exact List.nodup_nil
  | append_singleton es e ih =>
      rw [groupFold_concat, keys_upsert]
      split_ifs with h
      · exact ih
      · exact List.Nodup.append ih (List.nodup_singleton _) (by simpa using h)

theorem mem_keys_groupFold {es : List ε} {k : κ} : k ∈ (groupFold key f es).map Prod.fst ↔ ∃ e ∈ es, key e = k := by
  induction es using List.reverseRecOn with
  | nil => simp [groupFold]
  | append_singleton es e ih =>
      rw [groupFold_concat, keys_upsert]
      split_ifs with h
      · simp only [ih, List.mem_append, List.mem_singleton]
        constructor
        · rintro ⟨x, hx, rfl⟩
          exact ⟨x, Or.inl hx, rfl⟩
        · rintro ⟨x, hx | rfl, rfl⟩
          · exact ⟨x, hx, rfl⟩
          · exact ih.mp h
      · simp only [List.mem_append, List.mem_singleton, ih]
        constructor
        · rintro (⟨x, hx, rfl⟩ | rfl)
          · exact ⟨x, Or.inl hx, rfl⟩
          · exact ⟨e, Or.inr rfl, rfl⟩
        · rintro ⟨x, hx | rfl, rfl⟩
          · exact Or.inl ⟨x, hx, rfl⟩
          · exact Or.inr rfl

/-- In a map with each key once, an entry is what its key looks up. -/
theorem mem_iff_lookup {m : List (κ × α)} (h : (m.map Prod.fst).Nodup) {k : κ} {a : α} :
    (k, a) ∈ m ↔ m.lookup k = some a := by
  induction m with
  | nil => simp
  | cons entry m ih =>
      obtain ⟨key, b⟩ := entry
      obtain ⟨hnot, hnodup⟩ := List.nodup_cons.mp h
      by_cases hk : k = key
      · subst hk
        have hnone : (k, a) ∉ m := fun hmem => hnot (List.mem_map.mpr ⟨(k, a), hmem, rfl⟩)
        simp [hnone, eq_comm]
      · simp only [List.mem_cons, Prod.mk.injEq, hk, false_and, false_or, List.lookup_cons, beq_eq_false_iff_ne.mpr hk]
        exact ih hnodup

end

/-! ## Sums -/

section
variable {κ ε : Type} [DecidableEq κ]

theorem sum_upsert (k : κ) (d : Int) (m : List (κ × Int)) :
    ((upsert k (fun a => a.getD 0 + d) m).map Prod.snd).sum = (m.map Prod.snd).sum + d := by
  induction m with
  | nil => simp [upsert]
  | cons entry m ih =>
      obtain ⟨key, a⟩ := entry
      by_cases hkey : key = k
      · simp only [upsert, if_pos hkey, Option.getD_some, List.map_cons, List.sum_cons]
        omega
      · simp only [upsert, if_neg hkey, List.map_cons, List.sum_cons, ih]
        omega

theorem sum_groupFold (key : ε → κ) (d : ε → Int) (es : List ε) :
    ((groupFold key (fun a e => a.getD 0 + d e) es).map Prod.snd).sum = (es.map d).sum := by
  induction es using List.reverseRecOn with
  | nil => rfl
  | append_singleton es e ih => rw [groupFold_concat, sum_upsert, ih, List.map_append, List.sum_append]; simp

theorem getD_lookup_groupFold (key : ε → κ) (d : ε → Int) (es : List ε) (k : κ) :
    ((groupFold key (fun a e => a.getD 0 + d e) es).lookup k).getD 0 =
      ((es.filter fun e => key e = k).map d).sum := by
  rw [lookup_groupFold]
  induction es.filter (fun e => key e = k) using List.reverseRecOn with
  | nil => rfl
  | append_singleton es e ih =>
      rw [List.foldl_append, List.map_append, List.sum_append, ← ih]
      simp

end

end TimeChamp.Lib
