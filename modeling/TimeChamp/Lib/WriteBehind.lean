import Mathlib.Data.Option.Basic
import Mathlib.Order.Lattice
import Mathlib.Order.Defs.LinearOrder

/-!
# A write-behind cell

One cell of a store behind a buffer. Values are collected into numbered batches; a closed batch is stored, finished, or
given back to the batch being collected, and batches need not be stored in the order in which they were closed.

* `Cell` : the store, what each batch holds, and the history the invariant speaks of;
* `put`, `close`, `store`, `finish`, `giveBack` : the operations;
* `Cell.Inv` : later batches hold later values, and the store is behind all of them but those closed before the batch
  stored last; one lemma for each operation, with the condition under which it keeps the invariant;
* `Cell.Inv.stored_store` : a store in order does not go back;
* `Cell.Inv.stored_eq` : once a batch closed after the last `put` was finished and none is left, the last value is stored.
-/

namespace TimeChamp.Lib
open Function (update)

/-- A cell. The batches up to `closed` are closed; `closed + 1` is being collected. -/
@[ext]
structure Cell (τ : Type) where
  held : Nat → Option τ
  closed : Nat
  /-- The closed batches that were not given back. -/
  kept : Nat → Prop
  /-- The batches that were stored and not finished yet. -/
  written : Nat → Prop
  stored : Option τ
  /-- The last value put, and how many batches were closed before it. -/
  latest : Option τ
  latestAfter : Nat
  /-- The latest batch stored. -/
  storedBy : Nat

namespace Cell
variable {τ : Type} [LinearOrder τ]

def put (c : Cell τ) (v : τ) : Cell τ :=
  { c with held := update c.held (c.closed + 1) (some v), latest := some v, latestAfter := c.closed }

def close (c : Cell τ) : Cell τ :=
  { c with closed := c.closed + 1, kept := fun n => c.kept n ∨ n = c.closed + 1 }

def store (c : Cell τ) (n : Nat) : Cell τ :=
  { c with
    stored := (c.held n).or c.stored
    storedBy := if (c.held n).isSome then max c.storedBy n else c.storedBy
    written := fun k => c.written k ∨ k = n }

def finish (c : Cell τ) (n : Nat) : Cell τ :=
  { c with held := update c.held n none, written := fun k => c.written k ∧ k ≠ n }

def giveBack (c : Cell τ) (n : Nat) : Cell τ :=
  { c with
    held := update (update c.held n none) (c.closed + 1) (Option.merge max (c.held (c.closed + 1)) (c.held n))
    kept := fun k => c.kept k ∧ k ≠ n
    written := fun k => c.written k ∧ k ≠ n }

structure Inv (c : Cell τ) : Prop where
  held_le : ∀ n v, c.held n = some v → n ≤ c.closed + 1
  kept_le : ∀ n, c.kept n → n ≤ c.closed
  written_le : ∀ n, c.written n → n ≤ c.closed
  storedBy_le : c.storedBy ≤ c.closed
  /-- Later batches hold later values. -/
  ordered : ∀ n k v w, c.held n = some v → c.held k = some w → n < k → v < w
  /-- No value is later than the last one put. -/
  held_latest : ∀ n v, c.held n = some v → ∃ m, c.latest = some m ∧ v ≤ m
  stored_latest : ∀ v, c.stored = some v → ∃ m, c.latest = some m ∧ v ≤ m
  /-- The store is behind every batch but those closed before the one stored last. -/
  behind : ∀ n v u, c.held n = some v → c.stored = some u → u ≤ v ∨ n < c.storedBy
  /-- The last batch to hold a value holds the last one put, if it was not closed before another. -/
  newest : ∀ n v, c.held n = some v → c.closed ≤ n → (∀ k w, c.held k = some w → k ≤ n) → c.latest = some v
  /-- What a stored batch holds is stored, or something later. -/
  written_stored : ∀ n v, c.written n → c.held n = some v → ∃ u, c.stored = some u ∧ v ≤ u
  /-- The last value put is stored, or some batch holds it. -/
  accounted : ∀ m, c.latest = some m → c.stored = some m ∨ ∃ n, c.held n = some m
  /-- A batch that holds it is not later than any batch kept that was closed after the value was put. -/
  covered : ∀ n m j, c.held n = some m → c.latest = some m → c.kept j → j ≤ c.latestAfter ∨ n ≤ j

/-- Nothing collected, and what is stored counts as put. -/
def start (stored : Option τ) : Cell τ := ⟨fun _ => none, 0, fun _ => False, fun _ => False, stored, stored, 0, 0⟩

theorem inv_start (stored : Option τ) : Inv (start stored) where
  held_le _ _ h := nomatch h
  kept_le _ h := h.elim
  written_le _ h := h.elim
  storedBy_le := Nat.le_refl 0
  ordered _ _ _ _ h := nomatch h
  held_latest _ _ h := nomatch h
  stored_latest v h := ⟨v, h, le_rfl⟩
  behind _ _ _ h := nomatch h
  newest _ _ h := nomatch h
  written_stored _ _ h := h.elim
  accounted _ h := Or.inl h
  covered _ _ _ h := nomatch h

/-! ## Putting, closing, storing -/

section
variable {c : Cell τ} {n k : Nat} {v w : τ}

omit [LinearOrder τ] in
theorem held_put : (c.put v).held n = some w ↔ (n = c.closed + 1 ∧ w = v) ∨ n ≠ c.closed + 1 ∧ c.held n = some w := by
  simp only [put, Function.update_apply]
  split_ifs with hn
  · simp [hn, eq_comm]
  · simp [hn]

omit [LinearOrder τ] in
theorem held_finish : (c.finish n).held k = some w ↔ k ≠ n ∧ c.held k = some w := by
  simp only [finish, Function.update_apply]
  split_ifs with hk
  · simp [hk]
  · simp [hk]

theorem Inv.put (h : Inv c) (hv : ∀ t, c.latest = some t → t < v) : Inv (c.put v) := by
  have hnew : ∀ k w, c.held k = some w → w < v := by
    intro k w hk
    obtain ⟨m, hm, hle⟩ := h.held_latest k w hk
    exact lt_of_le_of_lt hle (hv m hm)
  refine ⟨?held_le, h.kept_le, h.written_le, h.storedBy_le, ?ordered, ?held_latest, ?stored_latest, ?behind, ?newest,
    ?written_stored, ?accounted, ?covered⟩
  case held_le =>
    intro k w hk
    rcases held_put.mp hk with ⟨rfl, -⟩ | ⟨-, hk⟩
    · exact le_rfl
    · exact h.held_le k w hk
  case ordered =>
    intro n k w u hn hk hlt
    rcases held_put.mp hk with ⟨rfl, rfl⟩ | ⟨-, hkold⟩
    · rcases held_put.mp hn with ⟨rfl, -⟩ | ⟨-, hnold⟩
      · exact absurd hlt (Nat.lt_irrefl _)
      · exact hnew n w hnold
    · rcases held_put.mp hn with ⟨rfl, -⟩ | ⟨-, hnold⟩
      · exact absurd (h.held_le k u hkold) (Nat.not_le.mpr hlt)
      · exact h.ordered n k w u hnold hkold hlt
  case held_latest =>
    intro k w hk
    refine ⟨v, rfl, ?_⟩
    rcases held_put.mp hk with ⟨-, rfl⟩ | ⟨-, hk⟩
    · exact le_rfl
    · exact (hnew k w hk).le
  case stored_latest =>
    intro u hu
    obtain ⟨m, hm, hle⟩ := h.stored_latest u hu
    exact ⟨v, rfl, hle.trans (hv m hm).le⟩
  case behind =>
    intro k w u hk hu
    rcases held_put.mp hk with ⟨-, rfl⟩ | ⟨-, hk⟩
    · obtain ⟨m, hm, hle⟩ := h.stored_latest u hu
      exact Or.inl (hle.trans (hv m hm).le)
    · exact h.behind k w u hk hu
  case newest =>
    intro k w hk hclosed hmax
    rcases held_put.mp hk with ⟨-, rfl⟩ | ⟨hne, hk⟩
    · rfl
    · have hle := hmax (c.closed + 1) v (held_put.mpr (Or.inl ⟨rfl, rfl⟩))
      exact absurd (h.held_le k w hk) (by omega)
  case written_stored =>
    intro k w hk hw
    rcases held_put.mp hw with ⟨rfl, -⟩ | ⟨-, hw⟩
    · exact absurd (h.written_le _ hk) (by omega)
    · exact h.written_stored k w hk hw
  case accounted =>
    intro m hm
    exact Or.inr ⟨c.closed + 1, held_put.mpr (Or.inl ⟨rfl, (Option.some.inj hm).symm⟩)⟩
  case covered =>
    intro k m j hk hm hj
    exact Or.inl (h.kept_le j hj)

theorem Inv.close (h : Inv c) : Inv c.close := by
  refine ⟨?held_le, ?kept_le, ?written_le, ?storedBy_le, h.ordered, h.held_latest, h.stored_latest, h.behind, ?newest,
    h.written_stored, h.accounted, ?covered⟩
  case held_le =>
    exact fun k w hk => (h.held_le k w hk).trans (Nat.le_succ _)
  case kept_le =>
    rintro k (hk | rfl)
    · exact (h.kept_le k hk).trans (Nat.le_succ _)
    · exact le_rfl
  case written_le =>
    exact fun k hk => (h.written_le k hk).trans (Nat.le_succ _)
  case storedBy_le =>
    exact h.storedBy_le.trans (Nat.le_succ _)
  case newest =>
    exact fun k w hk hclosed hmax => h.newest k w hk ((Nat.le_succ _).trans hclosed) hmax
  case covered =>
    rintro k m j hk hm (hj | rfl)
    · exact h.covered k m j hk hm hj
    · exact Or.inr (h.held_le k m hk)

/-- A batch not later than the store: what is stored is not later than what the batch holds. -/
theorem Inv.le_held (h : Inv c) (hn : c.storedBy ≤ n) (hv : c.held n = some v) {u : τ} (hu : c.stored = some u) :
    u ≤ v := by
  rcases h.behind n v u hv hu with hle | hlt
  · exact hle
  · exact absurd hn (Nat.not_le.mpr hlt)

/-- **A store in order does not go back.** -/
theorem Inv.stored_store (h : Inv c) (hn : (c.held n).isSome = true → c.storedBy ≤ n) {u : τ} (hu : c.stored = some u) :
    ∃ w, (c.store n).stored = some w ∧ u ≤ w := by
  cases hheld : c.held n with
  | none => exact ⟨u, by simp only [Cell.store, hheld, Option.none_or, hu], le_rfl⟩
  | some v => exact ⟨v, by simp only [Cell.store, hheld, Option.some_or], h.le_held (hn (by rw [hheld]; rfl)) hheld hu⟩

theorem Inv.store (h : Inv c) (hclosed : n ≤ c.closed) (hn : (c.held n).isSome = true → c.storedBy ≤ n) :
    Inv (c.store n) := by
  have hcases : ((c.store n).stored = c.stored ∧ (c.store n).storedBy = c.storedBy ∧ c.held n = none) ∨
      ∃ v, c.held n = some v ∧ (c.store n).stored = some v ∧ (c.store n).storedBy = n := by
    cases hheld : c.held n with
    | none => exact Or.inl ⟨by simp [Cell.store, hheld], by simp [Cell.store, hheld], rfl⟩
    | some v =>
        have hle := hn (by rw [hheld]; rfl)
        exact Or.inr ⟨v, rfl, by simp [Cell.store, hheld], by simp [Cell.store, hheld, hle]⟩
  refine ⟨h.held_le, h.kept_le, ?written_le, ?storedBy_le, h.ordered, h.held_latest, ?stored_latest, ?behind,
    h.newest, ?written_stored, ?accounted, h.covered⟩
  case written_le =>
    rintro k (hk | rfl)
    · exact h.written_le k hk
    · exact hclosed
  case storedBy_le =>
    rcases hcases with ⟨-, hby, -⟩ | ⟨v, -, -, hby⟩ <;> rw [hby]
    · exact h.storedBy_le
    · exact hclosed
  case stored_latest =>
    intro u hu
    rcases hcases with ⟨hsame, -, -⟩ | ⟨v, hv, hnew, -⟩
    · exact h.stored_latest u (hsame.symm.trans hu)
    · obtain rfl := Option.some.inj (hnew.symm.trans hu)
      exact h.held_latest n v hv
  case behind =>
    intro k w u hk hu
    rcases hcases with ⟨hsame, hby, -⟩ | ⟨v, hv, hnew, hby⟩ <;> rw [hby]
    · exact h.behind k w u hk (hsame.symm.trans hu)
    · obtain rfl := Option.some.inj (hnew.symm.trans hu)
      rcases Nat.lt_trichotomy k n with hlt | rfl | hlt
      · exact Or.inr hlt
      · exact Or.inl (Option.some.inj (hv.symm.trans hk)).le
      · exact Or.inl (h.ordered n k v w hv hk hlt).le
  case written_stored =>
    rintro k w (hk | rfl) hw
    · obtain ⟨u, hu, hle⟩ := h.written_stored k w hk hw
      obtain ⟨u', hu', hle'⟩ := h.stored_store hn hu
      exact ⟨u', hu', hle.trans hle'⟩
    · rcases hcases with ⟨-, -, hnone⟩ | ⟨v, hv, hnew, -⟩
      · exact absurd (hnone.symm.trans hw) nofun
      · exact ⟨v, hnew, (Option.some.inj (hv.symm.trans hw)).ge⟩
  case accounted =>
    intro m hm
    rcases h.accounted m hm with hstored | hheld
    · -- what is stored instead is not earlier, and nothing is later than `m`
      obtain ⟨u, hu, hle⟩ := h.stored_store hn hstored
      refine Or.inl (hu.trans (congrArg some (le_antisymm ?_ hle)))
      rcases hcases with ⟨hsame, -, -⟩ | ⟨v, hv, hnew, -⟩
      · exact (Option.some.inj ((hstored.symm.trans hsame.symm).trans hu)).ge
      · obtain rfl := Option.some.inj (hnew.symm.trans hu)
        obtain ⟨m', hm', hle'⟩ := h.held_latest n v hv
        rwa [Option.some.inj (hm.symm.trans hm')]
    · exact Or.inr hheld

/-! ## Finishing and giving back -/

theorem Inv.finish (h : Inv c) (hn : c.written n) : Inv (c.finish n) := by
  have hclosed := h.written_le n hn
  refine ⟨?held_le, h.kept_le, fun k hk => h.written_le k hk.1, h.storedBy_le, ?ordered, ?held_latest,
    h.stored_latest, ?behind, ?newest, ?written_stored, ?accounted, ?covered⟩
  case held_le =>
    exact fun k w hk => h.held_le k w (held_finish.mp hk).2
  case ordered =>
    exact fun k j w u hk hj => h.ordered k j w u (held_finish.mp hk).2 (held_finish.mp hj).2
  case held_latest =>
    exact fun k w hk => h.held_latest k w (held_finish.mp hk).2
  case behind =>
    exact fun k w u hk => h.behind k w u (held_finish.mp hk).2
  case newest =>
    intro k w hk hle hmax
    apply h.newest k w (held_finish.mp hk).2 hle
    intro j u hj
    by_cases hjn : j = n
    · exact hjn.le.trans (hclosed.trans hle)
    · exact hmax j u (held_finish.mpr ⟨hjn, hj⟩)
  case written_stored =>
    exact fun k w hk hw => h.written_stored k w hk.1 (held_finish.mp hw).2
  case accounted =>
    intro m hm
    rcases h.accounted m hm with hstored | ⟨k, hk⟩
    · exact Or.inl hstored
    · by_cases hkn : k = n
      · subst hkn
        obtain ⟨u, hu, hle⟩ := h.written_stored k m hn hk
        obtain ⟨m', hm', hle'⟩ := h.stored_latest u hu
        rw [Option.some.inj (hm'.symm.trans hm)] at hle'
        exact Or.inl (hu.trans (congrArg some (le_antisymm hle' hle)))
      · exact Or.inr ⟨k, held_finish.mpr ⟨hkn, hk⟩⟩
  case covered =>
    exact fun k m j hk hm hj => h.covered k m j (held_finish.mp hk).2 hm hj

/-- What a batch gives back is kept where nothing was collected since, which is later. -/
theorem Inv.held_giveBack (h : Inv c) (hclosed : n ≤ c.closed) :
    (c.giveBack n).held k = some w ↔
      k ≠ n ∧ c.held k = some w ∨ k = c.closed + 1 ∧ c.held (c.closed + 1) = none ∧ c.held n = some w := by
  have hlt : n < c.closed + 1 := Nat.lt_succ_of_le hclosed
  simp only [giveBack, Function.update_apply]
  by_cases hk : k = c.closed + 1
  · subst hk
    rw [if_pos rfl]
    cases hnext : c.held (c.closed + 1) with
    | none => simp
    | some x =>
        have hmax : Option.merge max (some x) (c.held n) = some x := by
          cases hheld : c.held n with
          | none => rfl
          | some v => rw [Option.merge_some_some, max_eq_left (h.ordered n _ v x hheld hnext hlt).le]
        rw [hmax]
        simp [hlt.ne']
  · rw [if_neg hk]
    split_ifs with hkn
    · simp [hkn, hlt.ne]
    · simp [hk, hkn]

/-- Nothing is being collected while a closed batch holds the last value put. -/
theorem Inv.next_eq_none (h : Inv c) (hclosed : n ≤ c.closed) (hv : c.held n = some v) (hlatest : c.latest = some v) :
    c.held (c.closed + 1) = none := by
  cases hnext : c.held (c.closed + 1) with
  | none => rfl
  | some x =>
      have hlt := h.ordered n _ v x hv hnext (Nat.lt_succ_of_le hclosed)
      obtain ⟨m, hm, hle⟩ := h.held_latest _ x hnext
      rw [Option.some.inj (hm.symm.trans hlatest)] at hle
      exact absurd hlt (not_lt.mpr hle)

/-- Giving back a batch after which no other was closed, unless a later value is being collected. -/
theorem Inv.giveBack (h : Inv c) (hclosed : n ≤ c.closed)
    (hn : ∀ v, c.held n = some v → c.held (c.closed + 1) = none → n = c.closed) : Inv (c.giveBack n) := by
  have hold : ∀ {k w}, k ≠ n → c.held k = some w → (c.giveBack n).held k = some w := fun hk hw =>
    (h.held_giveBack hclosed).mpr (Or.inl ⟨hk, hw⟩)
  refine ⟨?held_le, fun k hk => h.kept_le k hk.1, fun k hk => h.written_le k hk.1, h.storedBy_le, ?ordered,
    ?held_latest, h.stored_latest, ?behind, ?newest, ?written_stored, ?accounted, ?covered⟩
  case held_le =>
    intro k w hk
    rcases (h.held_giveBack hclosed).mp hk with ⟨-, hk⟩ | ⟨rfl, -, -⟩
    · exact h.held_le k w hk
    · exact le_rfl
  case ordered =>
    intro k j w u hk hj hlt
    rcases (h.held_giveBack hclosed).mp hk with ⟨hkn, hkold⟩ | ⟨rfl, -, -⟩
    · rcases (h.held_giveBack hclosed).mp hj with ⟨-, hjold⟩ | ⟨rfl, hnext, hgiven⟩
      · exact h.ordered k j w u hkold hjold hlt
      · obtain rfl := hn u hgiven hnext
        exact h.ordered k _ w u hkold hgiven (lt_of_le_of_ne (Nat.lt_succ_iff.mp hlt) hkn)
    · rcases (h.held_giveBack hclosed).mp hj with ⟨-, hjold⟩ | ⟨rfl, -, -⟩
      · exact absurd (h.held_le j u hjold) (Nat.not_le.mpr hlt)
      · exact absurd hlt (Nat.lt_irrefl _)
  case held_latest =>
    intro k w hk
    rcases (h.held_giveBack hclosed).mp hk with ⟨-, hk⟩ | ⟨-, -, hk⟩
    · exact h.held_latest k w hk
    · exact h.held_latest n w hk
  case behind =>
    intro k w u hk hu
    rcases (h.held_giveBack hclosed).mp hk with ⟨-, hk⟩ | ⟨-, hnext, hk⟩
    · exact h.behind k w u hk hu
    · obtain rfl := hn w hk hnext
      exact Or.inl (h.le_held h.storedBy_le hk hu)
  case newest =>
    intro k w hk hle hmax
    rcases (h.held_giveBack hclosed).mp hk with ⟨-, hk⟩ | ⟨-, hnext, hk⟩
    · apply h.newest k w hk hle
      intro j u hj
      by_cases hjn : j = n
      · exact hjn.le.trans (hclosed.trans hle)
      · exact hmax j u (hold hjn hj)
    · -- the batch given back was the last to hold a value
      obtain rfl := hn w hk hnext
      apply h.newest _ w hk le_rfl
      intro j u hj
      rcases Nat.lt_or_eq_of_le (h.held_le j u hj) with hlt | rfl
      · exact Nat.lt_succ_iff.mp hlt
      · exact absurd (hnext.symm.trans hj) nofun
  case written_stored =>
    intro k w hk hw
    rcases (h.held_giveBack hclosed).mp hw with ⟨-, hw⟩ | ⟨rfl, -, -⟩
    · exact h.written_stored k w hk.1 hw
    · exact absurd (h.written_le _ hk.1) (Nat.not_succ_le_self _)
  case accounted =>
    intro m hm
    rcases h.accounted m hm with hstored | ⟨k, hk⟩
    · exact Or.inl hstored
    · apply Or.inr
      by_cases hkn : k = n
      · subst hkn
        exact ⟨c.closed + 1, (h.held_giveBack hclosed).mpr (Or.inr ⟨rfl, h.next_eq_none hclosed hk hm, hk⟩)⟩
      · exact ⟨k, hold hkn hk⟩
  case covered =>
    rintro k m j hk hm ⟨hj, hjn⟩
    rcases (h.held_giveBack hclosed).mp hk with ⟨-, hk⟩ | ⟨-, hnext, hk⟩
    · exact h.covered k m j hk hm hj
    · obtain rfl := hn m hk hnext
      rcases h.covered _ m j hk hm hj with hle | hle
      · exact Or.inl hle
      · exact absurd (le_antisymm (h.kept_le j hj) hle) hjn

/-- **Once a batch closed after the last `put` was kept and no batch holds a value, the last value put is stored.** -/
theorem Inv.stored_eq (h : Inv c) (hnone : ∀ n ≤ c.closed, c.held n = none) (hn : c.kept n)
    (hafter : c.latestAfter < n) : c.stored = c.latest := by
  cases hlatest : c.latest with
  | none =>
      cases hstored : c.stored with
      | none => rfl
      | some u =>
          obtain ⟨m, hm, -⟩ := h.stored_latest u hstored
          exact absurd (hlatest.symm.trans hm) nofun
  | some m =>
      rcases h.accounted m hlatest with hstored | ⟨k, hk⟩
      · exact hstored
      · rcases h.covered k m n hk hlatest hn with hle | hle
        · exact absurd hafter (Nat.not_lt.mpr hle)
        · exact absurd ((hnone k (hle.trans (h.kept_le n hn))).symm.trans hk) nofun

end

end Cell
end TimeChamp.Lib
