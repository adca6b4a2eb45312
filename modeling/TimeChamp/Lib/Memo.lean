import Mathlib.Data.List.Induction
import Mathlib.Data.List.Nodup

/-!
# Memoising a function under a key, first in first out

A cache of at most `n` entries remembers what `f` gave under `key`, and drops its oldest entry for a new one.

* `ask` : one call through the cache, `after` : the cache a sequence of calls leaves;
* `held` : the keys that are cached, which depend on the keys of the calls alone (`keys_after`);
* `lastWith` : the last call with a given key;
* `Recent calls` : every cached value is that of the last call with its key;
* `answers_iff` : **every call is answered with the value of `f` exactly when every call whose key is cached has the value
  of the last call with that key**.
-/

namespace TimeChamp.Lib.Memo

section
variable {α κ β : Type} [DecidableEq κ]

/-- Add an entry, in the place of the oldest when the cache is full. -/
def store (n : Nat) (c : List (κ × β)) (k : κ) (v : β) : List (κ × β) :=
  (if n ≤ c.length then c.tail else c) ++ [(k, v)]

/-- The value cached for a key. -/
def cached (c : List (κ × β)) (k : κ) : Option β := (c.find? fun p => p.1 = k).map Prod.snd

variable (key : α → κ) (f : α → β) (n : Nat)

/-- One call through the cache: the answer, and the cache after it. -/
def ask (c : List (κ × β)) (a : α) : β × List (κ × β) :=
  match cached c (key a) with
  | some v => (v, c)
  | none => (f a, store n c (key a) (f a))

/-- The cache after some calls. -/
def after (calls : List α) : List (κ × β) := calls.foldl (fun c a => (ask key f n c a).2) []

/-- The keys cached after calls with these keys. -/
def held (ks : List κ) : List κ :=
  ks.foldl (fun h k => if k ∈ h then h else (if n ≤ h.length then h.tail else h) ++ [k]) []

/-- The last of the calls with a key. -/
def lastWith (calls : List α) (k : κ) : Option α := calls.reverse.find? fun a => key a = k

/-- Each call is answered with the value of `f`. -/
def Answers (calls : List α) : Prop :=
  ∀ pre a post, calls = pre ++ a :: post → (ask key f n (after key f n pre) a).1 = f a

/-- A call whose key is cached has the value of the last call with that key. -/
def Stable (calls : List α) : Prop :=
  ∀ pre a post, calls = pre ++ a :: post → key a ∈ held n (pre.map key) → ∀ b ∈ lastWith key pre (key a), f b = f a

variable {key f n}

/-! ## The cache as a list -/

theorem cached_eq_none {c : List (κ × β)} {k : κ} : cached c k = none ↔ k ∉ c.map Prod.fst := by
  simp only [cached, Option.map_eq_none_iff, List.find?_eq_none, decide_eq_true_eq, List.mem_map, not_exists, not_and]

theorem cached_append {c d : List (κ × β)} {k : κ} : cached (c ++ d) k = (cached c k).or (cached d k) := by
  simp only [cached, List.find?_append]
  cases c.find? fun p => p.1 = k <;> rfl

theorem mem_of_cached {c : List (κ × β)} {k : κ} {v : β} (h : cached c k = some v) : (k, v) ∈ c := by
  obtain ⟨p, hp, rfl⟩ := Option.map_eq_some_iff.mp h
  obtain rfl : p.1 = k := by simpa using List.find?_some hp
  exact List.mem_of_find?_eq_some hp

theorem cached_of_mem {c : List (κ × β)} (hc : (c.map Prod.fst).Nodup) {k : κ} {v : β} (h : (k, v) ∈ c) :
    cached c k = some v := by
  obtain ⟨w, hw⟩ : ∃ w, cached c k = some w := by
    by_contra hnone
    exact cached_eq_none.mp (Option.eq_none_iff_forall_ne_some.mpr fun w hw => hnone ⟨w, hw⟩) (List.mem_map_of_mem h)
  have := List.inj_on_of_nodup_map hc (mem_of_cached hw) h rfl
  rw [hw, (Prod.mk.inj this).2]

omit [DecidableEq κ] in
theorem keys_store (c : List (κ × β)) (k : κ) (v : β) :
    (store n c k v).map Prod.fst = (if n ≤ c.length then (c.map Prod.fst).tail else c.map Prod.fst) ++ [k] := by
  unfold store
  split <;> simp [List.map_tail]

/-! ## The calls, one after the other -/

@[simp] theorem after_concat (calls : List α) (a : α) :
    after key f n (calls ++ [a]) = (ask key f n (after key f n calls) a).2 := by
  simp [after]

@[simp] theorem held_concat (ks : List κ) (k : κ) :
    held n (ks ++ [k]) =
      if k ∈ held n ks then held n ks else (if n ≤ (held n ks).length then (held n ks).tail else held n ks) ++ [k] := by
  rw [held, List.foldl_append]
  rfl

theorem lastWith_concat (calls : List α) (a : α) (k : κ) :
    lastWith key (calls ++ [a]) k = if key a = k then some a else lastWith key calls k := by
  simp only [lastWith, List.reverse_append, List.reverse_singleton, List.singleton_append, List.find?_cons]
  by_cases h : key a = k <;> simp [h]

/-- **Which keys are cached does not depend on what `f` gives.** -/
theorem keys_after (calls : List α) : (after key f n calls).map Prod.fst = held n (calls.map key) := by
  induction calls using List.reverseRecOn with
  | nil => rfl
  | append_singleton calls a ih =>
      have hlen : (after key f n calls).length = (held n (calls.map key)).length := by rw [← ih, List.length_map]
      rw [List.map_append, List.map_singleton, held_concat, after_concat, ask, ← ih]
      cases hc : cached (after key f n calls) (key a) with
      | none =>
          rw [if_neg (cached_eq_none.mp hc), keys_store, hlen, ← ih]
      | some v =>
          rw [if_pos (List.mem_map_of_mem (mem_of_cached hc))]

theorem nodup_held (ks : List κ) : (held n ks).Nodup := by
  induction ks using List.reverseRecOn with
  | nil => exact List.nodup_nil
  | append_singleton ks k ih =>
      rw [held_concat]
      split
      next => exact ih
      next hk =>
        refine List.nodup_append.mpr ⟨?_, List.nodup_singleton k, ?_⟩
        · split
          · exact ih.sublist (List.tail_sublist _)
          · exact ih
        · intro a ha b hb
          obtain rfl := List.mem_singleton.mp hb
          rintro rfl
          split at ha
          · exact hk (List.mem_of_mem_tail ha)
          · exact hk ha

theorem nodup_after (calls : List α) : ((after key f n calls).map Prod.fst).Nodup := by
  rw [keys_after]
  exact nodup_held _

/-! ## Right answers -/

/-- Every cached value is that of the last call with its key. -/
def Recent (key : α → κ) (f : α → β) (n : Nat) (calls : List α) : Prop :=
  ∀ k v, (k, v) ∈ after key f n calls → ∃ b, lastWith key calls k = some b ∧ f b = v

/-- With recent values a call is answered rightly exactly when, if its key is cached, the last call with the key had the
same value. -/
theorem Recent.answer_iff {calls : List α} (h : Recent key f n calls) (a : α) :
    (ask key f n (after key f n calls) a).1 = f a ↔
      (key a ∈ held n (calls.map key) → ∀ b ∈ lastWith key calls (key a), f b = f a) := by
  rw [← keys_after (f := f), ask]
  cases hc : cached (after key f n calls) (key a) with
  | none =>
      have hout := cached_eq_none.mp hc
      simp [hout]
  | some v =>
      obtain ⟨b, hb, rfl⟩ := h _ _ (mem_of_cached hc)
      have hin : key a ∈ (after key f n calls).map Prod.fst := List.mem_map_of_mem (mem_of_cached hc)
      simp [hin, hb]

theorem Recent.concat {calls : List α} (h : Recent key f n calls) {a : α}
    (ha : (ask key f n (after key f n calls) a).1 = f a) : Recent key f n (calls ++ [a]) := by
  intro k v hmem
  rw [after_concat] at hmem
  rw [lastWith_concat]
  rw [ask] at hmem ha
  cases hc : cached (after key f n calls) (key a) with
  | none =>
      simp only [hc, store, List.mem_append, List.mem_singleton, Prod.mk.injEq] at hmem
      rcases hmem with hmem | ⟨rfl, rfl⟩
      · have hold : (k, v) ∈ after key f n calls := by
          split at hmem
          · exact List.mem_of_mem_tail hmem
          · exact hmem
        have hne : key a ≠ k := fun heq => cached_eq_none.mp hc (heq ▸ List.mem_map_of_mem hold)
        rw [if_neg hne]
        exact h k v hold
      · exact ⟨a, if_pos rfl, rfl⟩
  | some w =>
      simp only [hc] at hmem ha
      by_cases heq : key a = k
      · subst heq
        have : cached (after key f n calls) (key a) = some v := cached_of_mem (nodup_after calls) hmem
        refine ⟨a, if_pos rfl, ?_⟩
        rw [← ha]
        exact Option.some.inj (hc.symm.trans this)
      · rw [if_neg heq]
        exact h k v hmem

/-- A statement about every call of a sequence with the calls before it, one call at a time. -/
theorem forall_split_concat {P : List α → α → Prop} {calls : List α} {x : α} :
    (∀ pre a post, calls ++ [x] = pre ++ a :: post → P pre a) ↔
      (∀ pre a post, calls = pre ++ a :: post → P pre a) ∧ P calls x := by
  constructor
  · intro h
    refine ⟨fun pre a post heq => h pre a (post ++ [x]) ?_, h calls x [] rfl⟩
    rw [heq, List.append_assoc, List.cons_append]
  · rintro ⟨hinit, hlast⟩ pre a post heq
    rcases List.eq_nil_or_concat' post with rfl | ⟨post', y, rfl⟩
    · obtain ⟨rfl, hx⟩ := List.append_inj' heq rfl
      obtain rfl : x = a := by simpa using hx
      exact hlast
    · rw [← List.cons_append, ← List.append_assoc] at heq
      exact hinit pre a post' (List.append_inj' heq rfl).1

/-- **When memoisation is right.** -/
theorem answers_iff (calls : List α) : Answers key f n calls ↔ Stable key f n calls := by
  suffices h : (Answers key f n calls ↔ Stable key f n calls) ∧ (Answers key f n calls → Recent key f n calls) from h.1
  induction calls using List.reverseRecOn with
  | nil =>
      refine ⟨⟨fun _ pre a post heq => by simp at heq, fun _ pre a post heq => by simp at heq⟩, fun _ k v hmem => ?_⟩
      cases hmem
  | append_singleton calls a ih =>
      obtain ⟨hiff, hrecent⟩ := ih
      refine ⟨?_, fun hall => ?_⟩
      · rw [Answers, Stable, forall_split_concat, forall_split_concat]
        constructor
        · rintro ⟨hpre, ha⟩
          exact ⟨hiff.mp hpre, ((hrecent hpre).answer_iff a).mp ha⟩
        · rintro ⟨hpre, ha⟩
          have hans := hiff.mpr hpre
          exact ⟨hans, ((hrecent hans).answer_iff a).mpr ha⟩
      · obtain ⟨hpre, ha⟩ := forall_split_concat.mp hall
        exact (hrecent hpre).concat ha

end

end TimeChamp.Lib.Memo
