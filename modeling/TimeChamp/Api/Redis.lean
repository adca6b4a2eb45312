import Mathlib.Logic.Function.Basic
import Mathlib.Data.Int.Basic

/-!
# The key-value store

What `RedisService` does with a key, with the clock at which the store does it.

* `MemEntry`, `Mem` : a value that may expire, and the map of them, by whatever the keys spell;
* `Mem.set`, `Mem.get`, `Mem.del` : the calls; an expired entry is removed by the read that finds it;
* `Mem.get_eq_some` : what a read returns is stored and has not expired.
-/

namespace TimeChamp.Api
open Function (update)

structure MemEntry where
  value : String
  expiresAt : Option Int
deriving DecidableEq

abbrev Mem (κ : Type) := κ → Option MemEntry

/-- The entry has expired. -/
def MemEntry.expired (entry : MemEntry) (now : Int) : Bool := entry.expiresAt.any fun at_ => decide (at_ < now)

/-- A time to live of zero counts as none. -/
def expiry (now : Int) (ttlSeconds : Option Nat) : Option Int :=
  match ttlSeconds with
  | none => none
  | some 0 => none
  | some ttl => some (now + ttl * 1000)

namespace Mem
variable {κ : Type} [DecidableEq κ] (now : Int) (key : κ)

def set (value : String) (ttlSeconds : Option Nat) (mem : Mem κ) : Mem κ :=
  update mem key (some ⟨value, expiry now ttlSeconds⟩)

/-- The value a read returns. -/
def get (mem : Mem κ) : Option String :=
  match mem key with
  | none => none
  | some entry => if entry.expired now then none else some entry.value

/-- The map after a read. -/
def afterGet (mem : Mem κ) : Mem κ :=
  match mem key with
  | none => mem
  | some entry => if entry.expired now then update mem key none else mem

def del (mem : Mem κ) : Mem κ := update mem key none

variable {now key}

omit [DecidableEq κ] in
/-- **What a read returns** is stored, and has not expired. -/
theorem get_eq_some {mem : Mem κ} {value : String} (h : mem.get now key = some value) :
    ∃ entry, mem key = some entry ∧ entry.value = value ∧ ∀ at_, entry.expiresAt = some at_ → now ≤ at_ := by
  unfold get at h
  cases hkey : mem key with
  | none =>
      rw [hkey] at h
      exact nomatch h
  | some entry =>
      rw [hkey] at h
      dsimp only at h
      split_ifs at h with hexp
      refine ⟨entry, rfl, Option.some.inj h, fun at_ hat => ?_⟩
      rw [MemEntry.expired, hat, Option.any_some, decide_eq_true_eq] at hexp
      exact Int.not_lt.mp hexp

omit [DecidableEq κ] in
theorem get_congr {mem mem' : Mem κ} (h : mem' key = mem key) : mem'.get now key = mem.get now key := by
  unfold get
  rw [h]

theorem afterGet_of_ne {mem : Mem κ} {k : κ} (h : k ≠ key) : mem.afterGet now key k = mem k := by
  unfold afterGet
  cases mem key with
  | none => rfl
  | some entry =>
      dsimp only
      split_ifs
      · exact Function.update_of_ne h _ _
      · rfl

theorem set_of_ne {mem : Mem κ} {value : String} {ttlSeconds : Option Nat} {k : κ} (h : k ≠ key) :
    mem.set now key value ttlSeconds k = mem k :=
  Function.update_of_ne h _ _

theorem afterGet_congr {mem mem' : Mem κ} {k : κ} (h : mem' k = mem k) :
    mem'.afterGet now key k = mem.afterGet now key k := by
  by_cases hk : k = key
  · subst hk
    unfold afterGet
    rw [h]
    cases mem k with
    | none => exact h
    | some entry =>
        dsimp only
        split_ifs
        · rw [Function.update_self, Function.update_self]
        · exact h
  · rw [afterGet_of_ne hk, afterGet_of_ne hk, h]

/-- A read removes at most the entry it finds expired. -/
theorem afterGet_eq_some {mem : Mem κ} {k : κ} {entry : MemEntry} (h : mem.afterGet now key k = some entry) :
    mem k = some entry := by
  unfold afterGet at h
  cases hkey : mem key with
  | none =>
      rw [hkey] at h
      exact h
  | some found =>
      rw [hkey] at h
      dsimp only at h
      split_ifs at h
      · by_cases hk : k = key
        · rw [hk, Function.update_self] at h
          exact nomatch h
        · rwa [Function.update_of_ne hk] at h
      · exact h

theorem del_eq_some {mem : Mem κ} {k : κ} {entry : MemEntry} (h : mem.del key k = some entry) :
    k ≠ key ∧ mem k = some entry := by
  unfold del at h
  by_cases hk : k = key
  · rw [hk, Function.update_self] at h
    exact nomatch h
  · rw [Function.update_of_ne hk] at h
    exact ⟨hk, h⟩

theorem set_eq_some {mem : Mem κ} {value : String} {ttlSeconds : Option Nat} {k : κ} {entry : MemEntry}
    (h : mem.set now key value ttlSeconds k = some entry) :
    k = key ∧ entry = ⟨value, expiry now ttlSeconds⟩ ∨ k ≠ key ∧ mem k = some entry := by
  unfold set at h
  by_cases hk : k = key
  · rw [hk, Function.update_self] at h
    exact Or.inl ⟨hk, (Option.some.inj h).symm⟩
  · rw [Function.update_of_ne hk] at h
    exact Or.inr ⟨hk, h⟩

end Mem

end TimeChamp.Api
