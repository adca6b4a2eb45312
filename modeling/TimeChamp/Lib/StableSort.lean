import Mathlib.Data.List.Sort
import Mathlib.Data.List.TakeWhile

/-!
# One element in a stable sort

Insertion sort is stable: what is equal stays in order. So one element of a list comes after the elements before it that
may precede it and those behind it that must.

* `orderedInsert_around` : an element inserted into a sorted list lands on one side of another, whether that is there
  or not;
* `insertionSort_around` : the sorted list with an element is the one without it, and how many come before it.
-/

namespace TimeChamp.Lib

section
variable {α : Type} {r : α → α → Prop} [DecidableRel r] [IsTrans α r]

/-- Behind the first element that may follow `d`, all may. -/
theorem rel_of_mem_dropWhile {d : α} {l : List α} (h : l.Pairwise r) {b : α}
    (hb : b ∈ l.dropWhile fun b => ¬ r d b) : r d b := by
  induction l with
  | nil => exact absurd hb List.not_mem_nil
  | cons a l ih =>
      obtain ⟨ha, hl⟩ := List.pairwise_cons.mp h
      rw [List.dropWhile_cons] at hb
      split_ifs at hb with hda
      · exact ih hl hb
      · have hda' : r d a := by simpa using hda
        rcases List.mem_cons.mp hb with rfl | hb
        · exact hda'
        · exact trans_of r hda' (ha b hb)

theorem orderedInsert_around {t d : α} {before after : List α} (h : (before ++ d :: after).Pairwise r) :
    ∃ before' after', (before ++ d :: after).orderedInsert r t = before' ++ d :: after' ∧
      (before ++ after).orderedInsert r t = before' ++ after' ∧
      before'.length = before.length + if r t d then 1 else 0 := by
  induction before with
  | nil =>
      have hd := (List.pairwise_cons.mp h).1
      by_cases htd : r t d
      · refine ⟨[t], after, ?_, ?_, by rw [if_pos htd]; rfl⟩
        · exact List.orderedInsert_cons_of_le r after htd
        · show after.orderedInsert r t = t :: after
          cases after with
          | nil => rfl
          | cons a after => exact List.orderedInsert_cons_of_le r after (trans_of r htd (hd a List.mem_cons_self))
      · refine ⟨[], after.orderedInsert r t, ?_, rfl, by rw [if_neg htd]; rfl⟩
        exact List.orderedInsert_of_not_le r after htd
  | cons b before ih =>
      obtain ⟨hb, hrest⟩ := List.pairwise_cons.mp h
      by_cases htb : r t b
      · -- it lands before `b`, and so before `d`
        have htd : r t d := trans_of r htb (hb d (List.mem_append_right _ List.mem_cons_self))
        refine ⟨t :: b :: before, after, ?_, ?_, ?_⟩
        · exact List.orderedInsert_cons_of_le r _ htb
        · exact List.orderedInsert_cons_of_le r _ htb
        · rw [if_pos htd]
          simp only [List.length_cons]
      · obtain ⟨before', after', hwith, hwithout, hlength⟩ := ih hrest
        refine ⟨b :: before', after', ?_, ?_, ?_⟩
        · exact (List.orderedInsert_of_not_le r _ htb).trans (congrArg (List.cons b) hwith)
        · exact (List.orderedInsert_of_not_le r _ htb).trans (congrArg (List.cons b) hwithout)
        · simp only [List.length_cons, hlength]
          omega

/-- **One element in a stable sort.** -/
theorem insertionSort_around [Std.Total r] (d : α) (l₁ l₂ : List α) :
    ∃ before after, (l₁ ++ d :: l₂).insertionSort r = before ++ d :: after ∧
      (l₁ ++ l₂).insertionSort r = before ++ after ∧
      before.length = l₁.countP (fun t => r t d) + l₂.countP (fun t => ¬ r d t) := by
  induction l₁ with
  | nil =>
      have hsorted := List.pairwise_insertionSort r l₂
      refine ⟨(l₂.insertionSort r).takeWhile fun b => ¬ r d b, (l₂.insertionSort r).dropWhile fun b => ¬ r d b,
        ?_, ?_, ?_⟩
      · exact List.orderedInsert_eq_take_drop r d _
      · exact (List.takeWhile_append_dropWhile).symm
      · have hnone : ((l₂.insertionSort r).dropWhile fun b => ¬ r d b).countP (fun t => ¬ r d t) = 0 := by
          apply List.countP_eq_zero.mpr
          intro b hb
          simpa using rel_of_mem_dropWhile hsorted hb
        have hall : ((l₂.insertionSort r).takeWhile fun b => ¬ r d b).countP (fun t => ¬ r d t) =
            ((l₂.insertionSort r).takeWhile fun b => ¬ r d b).length :=
          List.countP_eq_length.mpr fun b hb => List.mem_takeWhile_imp (p := fun b => decide ¬ r d b) hb
        have hperm := (List.perm_insertionSort r l₂).countP_eq (fun t => decide ¬ r d t)
        rw [← List.takeWhile_append_dropWhile (p := fun b => decide ¬ r d b) (l := l₂.insertionSort r),
          List.countP_append, hnone, hall] at hperm
        rw [List.countP_nil, Nat.zero_add]
        exact hperm
  | cons t l₁ ih =>
      obtain ⟨before, after, hwith, hwithout, hlength⟩ := ih
      have hsorted : (before ++ d :: after).Pairwise r := hwith ▸ List.pairwise_insertionSort r _
      obtain ⟨before', after', hwith', hwithout', hlength'⟩ := orderedInsert_around (t := t) hsorted
      refine ⟨before', after', ?_, ?_, ?_⟩
      · rw [List.cons_append, List.insertionSort_cons, hwith, hwith']
      · rw [List.cons_append, List.insertionSort_cons, hwithout, hwithout']
      · rw [hlength', hlength, List.countP_cons]
        simp only [decide_eq_true_eq]
        omega

end

end TimeChamp.Lib
