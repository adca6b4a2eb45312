import TimeChamp.Agent.Classifier
import TimeChamp.Lib.Runs

/-!
# The classifier's cache under overlapping calls

`Cache.Classify` releases the lock between its lookup and its insertion.

* `Shared` : a cache and the calls that missed and have not inserted yet; one event for each section under the lock;
* `Cache.store` : the second section; `Cache.classify_eq`, that a call that is not overlapped is a lookup and a store;
* `Cache.Mirrored` : the keys are those of the entries, once each, and the entries at most `maxSize`;
* `Cache.store_isSome` : `c.keys[0]` is there whenever it is read, mirrored or not;
* `mirrored_iff_allowed` : **the cache is mirrored throughout a run exactly when each insertion is of a key that is not
  cached, or of the oldest key of a full cache.**
-/

namespace TimeChamp.Classifier
open TimeChamp.Lib

/-- The oldest key leaves the map and the slice; `none` where `c.keys[0]` would panic. -/
def Cache.evict (c : Cache) : Option Cache :=
  match c.keys with
  | [] => none
  | oldest :: keys => some { c with entries := c.entries.erase oldest, keys := keys }

def Cache.insert (c : Cache) (key : GoString) (cat : Category) : Cache :=
  { c with entries := c.entries.insert key cat, keys := c.keys ++ [key] }

/-- The second section of `Cache.Classify` under the lock. -/
def Cache.store (c : Cache) (key : GoString) (cat : Category) : Option Cache :=
  (if c.maxSize ≤ c.entries.keys.length then c.evict else some c).map fun c => c.insert key cat

/-- A call that missed: its key, and the category it is about to insert. -/
structure Miss where
  key : GoString
  category : Category
deriving DecidableEq

/-- A cache, and the calls between their two sections. -/
structure Shared where
  cache : Cache
  misses : List Miss

inductive Shared.Event where
  /-- A call looks its key up, and on a miss asks the rules. -/
  | call (w : Window) (rules : List Rule)
  /-- The call behind the `i`-th miss inserts. -/
  | insert (i : Nat)

def Shared.start (maxSize : Nat) : Shared := ⟨newCache maxSize, []⟩

/-- What happens while the lock is held once; `none` for a call that is not there, or a panic. -/
def Shared.step : Shared.Event → Shared → Option Shared
  | .call w rules, s =>
    match s.cache.entries.lookup w.key with
    | some _ => some s
    | none => some { s with misses := s.misses ++ [⟨w.key, w.category rules⟩] }
  | .insert i, s =>
    match s.misses[i]? with
    | none => none
    | some m => (s.cache.store m.key m.category).map fun c => ⟨c, s.misses.eraseIdx i⟩

theorem Cache.classify_eq (c : Cache) (w : Window) (rules : List Rule) :
    c.classify w.app w.title w.url rules =
      match c.entries.lookup w.key with
      | some cat => some (cat, c)
      | none => (c.store w.key (w.category rules)).map fun c' => (w.category rules, c') := by
  unfold Cache.classify Window.key Window.category
  dsimp only
  cases c.entries.lookup (cacheKey w.app w.title) with
  | some cat => rfl
  | none =>
      unfold Cache.store Cache.evict
      dsimp only
      split_ifs
      · cases c.keys <;> rfl
      · rfl

theorem Cache.evict_cases {c c' : Cache} (he : c.evict = some c') :
    ∃ oldest, c.keys = oldest :: c'.keys ∧ c'.entries = c.entries.erase oldest ∧ c'.maxSize = c.maxSize := by
  unfold Cache.evict at he
  split at he
  · exact absurd he (by simp)
  · rename_i oldest keys hkeys
    obtain rfl := Option.some.inj he
    exact ⟨oldest, hkeys, rfl, rfl⟩

theorem Cache.store_cases {c c' : Cache} {key : GoString} {cat : Category} (hs : c.store key cat = some c') :
    ∃ e, c' = e.insert key cat ∧ (c.maxSize ≤ c.entries.keys.length ∧ c.evict = some e ∨
      c.entries.keys.length < c.maxSize ∧ e = c) := by
  obtain ⟨e, he, rfl⟩ := Option.map_eq_some_iff.mp hs
  refine ⟨e, rfl, ?_⟩
  split at he
  · exact Or.inl ⟨‹_›, he⟩
  · exact Or.inr ⟨by omega, (Option.some.inj he).symm⟩

/-! ## The representation -/

/-- The slice of keys mirrors the map. -/
structure Cache.Mirrored (c : Cache) : Prop where
  nodup : c.keys.Nodup
  mem : ∀ k, k ∈ c.keys ↔ k ∈ c.entries
  size : c.entries.keys.length ≤ c.maxSize

/-- The slice has as many keys as the map. -/
theorem length_of_mem_iff {c : Cache} (hnd : c.keys.Nodup) (hmem : ∀ k, k ∈ c.keys ↔ k ∈ c.entries) :
    c.keys.length = c.entries.keys.length := by
  apply List.Perm.length_eq
  apply (List.perm_ext_iff_of_nodup hnd c.entries.nodupKeys).mpr
  intro k
  rw [hmem, AList.mem_keys]
  exact Iff.rfl

theorem newCache_mirrored (maxSize : Nat) : (newCache maxSize).Mirrored :=
  ⟨List.nodup_nil, fun k => by simp [newCache], Nat.zero_le _⟩

/-- A key that is inserted is one more of the keys exactly if it was not cached. -/
theorem Cache.insert_mirrored_iff {c : Cache} (hnd : c.keys.Nodup) (hmem : ∀ k, k ∈ c.keys ↔ k ∈ c.entries)
    (hroom : c.entries.keys.length < c.maxSize) (key : GoString) (cat : Category) :
    (c.insert key cat).Mirrored ↔ key ∉ c.keys := by
  constructor
  · intro h hin
    have hdisj := (List.nodup_append.mp h.nodup).2.2
    exact hdisj key hin key (List.mem_singleton_self key) rfl
  · intro hout
    have hnd' : (c.insert key cat).keys.Nodup := by
      apply List.nodup_append.mpr
      refine ⟨hnd, List.nodup_singleton key, ?_⟩
      intro a ha b hb hab
      rw [List.mem_singleton] at hb
      exact hout (hb ▸ hab ▸ ha)
    have hmem' : ∀ k, k ∈ (c.insert key cat).keys ↔ k ∈ (c.insert key cat).entries := by
      intro k
      show k ∈ c.keys ++ [key] ↔ k ∈ c.entries.insert key cat
      rw [List.mem_append, List.mem_singleton, AList.mem_insert, hmem, or_comm]
    refine ⟨hnd', hmem', ?_⟩
    rw [← length_of_mem_iff hnd' hmem']
    show (c.keys ++ [key]).length ≤ c.maxSize
    rw [List.length_append, List.length_singleton, length_of_mem_iff hnd hmem]
    omega

theorem Cache.Mirrored.evict {c c' : Cache} (h : c.Mirrored) (he : c.evict = some c') :
    ∃ oldest, c.keys = oldest :: c'.keys ∧ c'.maxSize = c.maxSize ∧
      c'.keys.Nodup ∧ ∀ k, k ∈ c'.keys ↔ k ∈ c'.entries := by
  obtain ⟨oldest, hkeys, hentries, hsize⟩ := Cache.evict_cases he
  have hnd := h.nodup
  rw [hkeys, List.nodup_cons] at hnd
  refine ⟨oldest, hkeys, hsize, hnd.2, ?_⟩
  intro k
  rw [hentries, AList.mem_erase, ← h.mem, hkeys, List.mem_cons]
  constructor
  · intro hk
    exact ⟨fun heq => hnd.1 (heq ▸ hk), Or.inr hk⟩
  · rintro ⟨hne, heq | hk⟩
    · exact absurd heq hne
    · exact hk

/-- The key of an insertion is not cached, or it is the one that the insertion evicts. -/
def Cache.Fresh (c : Cache) (key : GoString) : Prop :=
  key ∉ c.entries ∨ c.maxSize ≤ c.entries.keys.length ∧ c.keys.head? = some key

/-- **One insertion** into a mirrored cache. -/
theorem Cache.store_mirrored_iff {c c' : Cache} {key : GoString} {cat : Category} (h : c.Mirrored)
    (hs : c.store key cat = some c') : c'.Mirrored ↔ c.Fresh key := by
  obtain ⟨e, rfl, ⟨hfull, he⟩ | ⟨hroom, rfl⟩⟩ := Cache.store_cases hs
  · obtain ⟨oldest, hkeys, hsize, hnd, hmem⟩ := h.evict he
    have hroom : e.entries.keys.length < e.maxSize := by
      have hlen := length_of_mem_iff h.nodup h.mem
      have hle := h.size
      rw [hkeys, List.length_cons] at hlen
      rw [← length_of_mem_iff hnd hmem]
      omega
    have hout := h.nodup
    rw [hkeys, List.nodup_cons] at hout
    rw [insert_mirrored_iff hnd hmem hroom, Cache.Fresh, ← h.mem, hkeys, List.mem_cons, List.head?_cons,
      Option.some.injEq]
    constructor
    · intro hk
      by_cases heq : oldest = key
      · exact Or.inr ⟨hfull, heq⟩
      · exact Or.inl fun hor => hor.elim (fun h' => heq h'.symm) hk
    · rintro (hk | ⟨-, heq⟩) hin
      · exact hk (Or.inr hin)
      · exact hout.1 (heq ▸ hin)
  · rw [insert_mirrored_iff h.nodup h.mem hroom, Cache.Fresh, ← h.mem]
    constructor
    · exact Or.inl
    · rintro (hk | ⟨hfull, -⟩)
      · exact hk
      · omega

theorem Cache.store_maxSize {c c' : Cache} {key : GoString} {cat : Category} (hs : c.store key cat = some c') :
    c'.maxSize = c.maxSize := by
  obtain ⟨e, rfl, ⟨-, he⟩ | ⟨-, rfl⟩⟩ := Cache.store_cases hs
  · obtain ⟨-, -, -, hsize⟩ := Cache.evict_cases he
    exact hsize
  · rfl

/-! ## No panic -/

/-- Each entry has its key in the slice. -/
def Cache.Listed (c : Cache) : Prop := ∀ k, k ∈ c.entries → k ∈ c.keys

theorem Cache.Listed.store {c c' : Cache} {key : GoString} {cat : Category} (h : c.Listed)
    (hs : c.store key cat = some c') : c'.Listed := by
  obtain ⟨e, rfl, hcases⟩ := Cache.store_cases hs
  have hlisted : e.Listed := by
    obtain ⟨-, he⟩ | ⟨-, rfl⟩ := hcases
    · obtain ⟨oldest, hkeys, hentries, -⟩ := Cache.evict_cases he
      intro k hk
      rw [hentries, AList.mem_erase] at hk
      have hor := h k hk.2
      rw [hkeys, List.mem_cons] at hor
      exact hor.resolve_left hk.1
    · exact h
  intro k hk
  show k ∈ e.keys ++ [key]
  rw [List.mem_append, List.mem_singleton]
  have hor : k = key ∨ k ∈ e.entries := by
    rwa [Cache.insert, AList.mem_insert] at hk
  obtain heq | hin := hor
  · exact Or.inr heq
  · exact Or.inl (hlisted k hin)

theorem Cache.store_isSome {c : Cache} (h : c.Listed) (hmax : 1 ≤ c.maxSize) (key : GoString) (cat : Category) :
    (c.store key cat).isSome = true := by
  unfold Cache.store
  rw [Option.isSome_map]
  split
  · rename_i hfull
    cases hkeys : c.entries.keys with
    | nil =>
        rw [hkeys, List.length_nil] at hfull
        omega
    | cons k ks =>
        have hk : k ∈ c.keys := h k (AList.mem_keys.mpr (hkeys ▸ List.mem_cons_self))
        unfold Cache.evict
        cases hslice : c.keys with
        | nil => exact absurd (hslice ▸ hk) List.not_mem_nil
        | cons oldest keys => rfl
  · rfl

/-! ## Runs -/

namespace Shared

/-- Whether an event keeps a mirrored cache so. -/
def Right (s : Shared) : Event → Prop
  | .call _ _ => True
  | .insert i => ∀ m ∈ s.misses[i]?, s.cache.Fresh m.key

theorem step_cache {s s' : Shared} {e : Event} (h : step e s = some s') :
    (s'.cache = s.cache ∧ ∃ w rules, e = .call w rules) ∨
      ∃ i m, e = .insert i ∧ s.misses[i]? = some m ∧ s.cache.store m.key m.category = some s'.cache := by
  cases e with
  | call w rules =>
      left
      refine ⟨?_, w, rules, rfl⟩
      simp only [step] at h
      split at h
      · rw [Option.some.inj h]
      · rw [← Option.some.inj h]
  | insert i =>
      right
      simp only [step] at h
      split at h
      · exact absurd h (by simp)
      · rename_i m hm
        obtain ⟨c, hc, rfl⟩ := Option.map_eq_some_iff.mp h
        exact ⟨i, m, rfl, hm, hc⟩

/-- The representation holds whenever the lock is free, from a new cache on. -/
def Mirrors (maxSize : Nat) (es : List Event) : Prop :=
  ∀ pre, pre <+: es → ∀ t, play step (start maxSize) pre = some t → t.cache.Mirrored

/-- **When the cache is mirrored.** For every size and every run of overlapping calls: whenever the lock is
free, the keys are without duplicates, the same as those of the entries, and the entries at most `maxSize`, exactly when
each insertion is of a key that is not cached then, or of the oldest key of a full cache. -/
theorem mirrored_iff_allowed {maxSize : Nat} {es : List Event} {s : Shared}
    (h : play step (start maxSize) es = some s) :
    Mirrors maxSize es ↔ Allowed step Right (start maxSize) es := by
  apply forall_prefix_iff_allowed (R := fun t => t.cache.maxSize = maxSize) h rfl (newCache_mirrored maxSize)
  intro t e t' hsize hI hstep
  obtain ⟨hcache, w, rules, rfl⟩ | ⟨i, m, rfl, hm, hstore⟩ := step_cache hstep
  · rw [hcache]
    exact ⟨hsize, iff_of_true hI trivial⟩
  · refine ⟨(Cache.store_maxSize hstore).trans hsize, ?_⟩
    rw [Cache.store_mirrored_iff hI hstore]
    show t.cache.Fresh m.key ↔ ∀ m' ∈ t.misses[i]?, t.cache.Fresh m'.key
    simp only [hm, Option.mem_some_iff, forall_eq']

/-- The page behind a window in the cases below. -/
def page (title : String) : Window := ⟨ascii "code", ascii title, []⟩

/-- Two callers that miss on one key. -/
def twoCallers : List Event := [.call (page "main.go") [], .call (page "main.go") [], .insert 0, .insert 0]

/-- **The key is in the slice twice.** -/
theorem not_mirrors_twoCallers : ¬ Mirrors 2 twoCallers := by
  intro h
  have hrun : (play step (start 2) twoCallers).map (fun t => t.cache.keys) =
      some [(page "main.go").key, (page "main.go").key] := by
    decide +kernel
  obtain ⟨t, ht, hkeys⟩ := Option.map_eq_some_iff.mp hrun
  have hnd := (h twoCallers (List.prefix_refl _) t ht).nodup
  rw [hkeys] at hnd
  exact (List.nodup_cons.mp hnd).1 List.mem_cons_self

/-- Three more insertions and the map is above its size: the second eviction of the key finds nothing to delete. -/
example : (play step (start 2) (twoCallers ++ ["a", "b", "c"].flatMap fun t => [.call (page t) [], .insert 0])).map
    (fun t => (t.cache.entries.keys.length, t.cache.maxSize)) = some (3, 2) := by
  decide +kernel

/-- Two callers that miss on one key of a cache of one entry: the second insertion evicts what the first inserted. -/
theorem mirrored_iff_allowed_sample :
    Mirrors 1 twoCallers ↔ Allowed step Right (start 1) twoCallers := by
  have hrun : (play step (start 1) twoCallers).isSome = true := by decide +kernel
  obtain ⟨s, hs⟩ := Option.isSome_iff_exists.mp hrun
  exact mirrored_iff_allowed hs

/-- **No call panics**, mirrored or not. -/
theorem insert_isSome {maxSize : Nat} (hmax : 1 ≤ maxSize) {es : List Event} {s : Shared}
    (h : play step (start maxSize) es = some s) {i : Nat} (hi : i < s.misses.length) :
    (step (.insert i) s).isSome = true := by
  have hinv : s.cache.maxSize = maxSize ∧ s.cache.Listed := by
    apply play_inv (I := fun _ t => t.cache.maxSize = maxSize ∧ t.cache.Listed) h
    · exact ⟨rfl, fun k hk => absurd hk (AList.notMem_empty k)⟩
    · rintro - t e t' ⟨hsize, hlisted⟩ hstep
      obtain ⟨hcache, -⟩ | ⟨-, m, -, -, hstore⟩ := step_cache hstep
      · rw [hcache]
        exact ⟨hsize, hlisted⟩
      · exact ⟨(Cache.store_maxSize hstore).trans hsize, hlisted.store hstore⟩
  have hstore := Cache.store_isSome hinv.2 (by omega) s.misses[i].key s.misses[i].category
  simp only [step, List.getElem?_eq_getElem hi, Option.isSome_map]
  exact hstore

end Shared
end TimeChamp.Classifier
