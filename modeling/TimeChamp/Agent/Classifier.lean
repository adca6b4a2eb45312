import Mathlib.Data.List.AList
import Mathlib.Data.List.Infix
import TimeChamp.Lib.Memo

/-!
# The classifier and its cache

`internal/classifier/classifier.go`: the category of a window by the first rule that matches, and the cache in front of it.

* Strings are their bytes, as in Go; a compiled pattern is its `MatchString`.
* `Cache.classify` is `none` where `c.keys[0]` would panic.
* `Refines c m` : the map and the slice of keys of a cache are the entries `m` of a first-in-first-out memo;
* `Refines.classifyAll` : the answers of the cache are those of `Lib.Memo.ask`;
* `agrees_iff` : **the cache agrees with the rules exactly on the sequences of calls in which a call whose key is still cached
  has the category of the last call with that key.**
-/

namespace TimeChamp.Classifier
open TimeChamp.Lib

/-- A string, as its bytes. -/
abbrev GoString := List UInt8

/-- A dot-delimited path, e.g. `Work.Development`. -/
abbrev Category := String

structure Rule where
  fields : List String
  pattern : Option (GoString → Bool)
  category : Category

/-- What `strings.ToLower` makes of a rune, exact where that is an ASCII letter: besides A to Z these are the dotted I and
the Kelvin sign. -/
def lowerRune (c : Char) : Char :=
  if c.toNat = 0x130 then 'i' else if c.toNat = 0x212A then 'k' else c.toLower

/-- The values a rule looks at. -/
def Rule.values (r : Rule) (app title url : GoString) : List GoString :=
  if r.fields.length = 0 then [app, title, url]
  else
    r.fields.flatMap fun f =>
      let lower := f.toList.map lowerRune
      if lower = "app".toList then [app]
      else if lower = "title".toList then [title]
      else if lower = "url".toList then [url]
      else []

/-- `Classify`: the category of the first rule that matches. -/
def classify (app title url : GoString) : List Rule → Category
  | [] => "Uncategorized"
  | r :: rules =>
    match r.pattern with
    | none => classify app title url rules
    | some matchString =>
      if (r.values app title url).any fun val => val != [] && matchString val then r.category
      else classify app title url rules

/-- `Cache`. -/
structure Cache where
  entries : AList fun _ : GoString => Category
  keys : List GoString
  maxSize : Nat

def newCache (maxSize : Nat) : Cache := ⟨∅, [], maxSize⟩

/-- `cacheKey`: the app, a bar, and the first 32 bytes of the title. -/
def cacheKey (app title : GoString) : GoString :=
  let t := if 32 < title.length then title.take 32 else title
  app ++ [124] ++ t

/-- `Cache.Classify`. -/
def Cache.classify (c : Cache) (app title url : GoString) (rules : List Rule) : Option (Category × Cache) :=
  let key := cacheKey app title
  match c.entries.lookup key with
  | some cat => some (cat, c)
  | none =>
    let cat := Classifier.classify app title url rules
    if c.maxSize ≤ c.entries.keys.length then
      match c.keys with
      | [] => none
      | oldest :: keys => some (cat, { c with entries := (c.entries.erase oldest).insert key cat, keys := keys ++ [key] })
    else some (cat, { c with entries := c.entries.insert key cat, keys := c.keys ++ [key] })

/-- The arguments of a call that change from call to call. -/
structure Window where
  app : GoString
  title : GoString
  url : GoString
deriving DecidableEq

def Window.key (w : Window) : GoString := cacheKey w.app w.title

/-- The category without the cache. -/
def Window.category (rules : List Rule) (w : Window) : Category := Classifier.classify w.app w.title w.url rules

/-- Calls with one rule list, one after the other; `none` when one panics. -/
def Cache.classifyAll (c : Cache) (rules : List Rule) : List Window → Option (List Category × Cache)
  | [] => some ([], c)
  | w :: ws =>
    (c.classify w.app w.title w.url rules).bind fun r =>
      (r.2.classifyAll rules ws).map fun rs => (r.1 :: rs.1, rs.2)

/-- Every call through a new cache returns, and with the category the rules give. -/
def Agrees (rules : List Rule) (maxSize : Nat) (calls : List Window) : Prop :=
  ∃ c, (newCache maxSize).classifyAll rules calls = some (calls.map (Window.category rules), c)

/-! ## The cache is a first-in-first-out memo -/

/-- The entries of a cache, oldest first. -/
structure Refines (c : Cache) (m : List (GoString × Category)) : Prop where
  keys : c.keys = m.map Prod.fst
  nodup : c.keys.Nodup
  lookup : ∀ k, c.entries.lookup k = Memo.cached m k

theorem Refines.start (n : Nat) : Refines (newCache n) [] := ⟨rfl, List.nodup_nil, fun _ => rfl⟩

theorem Refines.length {c : Cache} {m : List (GoString × Category)} (h : Refines c m) :
    c.entries.keys.length = m.length := by
  have hmem : ∀ k, k ∈ c.entries.keys ↔ k ∈ m.map Prod.fst := by
    intro k
    rw [← not_iff_not, ← Memo.cached_eq_none, ← h.lookup, AList.lookup_eq_none, AList.mem_keys]
  have hperm := (List.perm_ext_iff_of_nodup c.entries.nodupKeys (h.keys ▸ h.nodup)).mpr hmem
  exact hperm.length_eq.trans (List.length_map _)

theorem cached_concat_of_ne {m : List (GoString × Category)} {k k' : GoString} {v : Category} (h : k' ≠ k) :
    Memo.cached (m ++ [(k, v)]) k' = Memo.cached m k' := by
  rw [Memo.cached_append, show Memo.cached [(k, v)] k' = none from Memo.cached_eq_none.mpr (by simpa using h),
    Option.or_none]

theorem cached_concat_self {m : List (GoString × Category)} {k : GoString} (v : Category)
    (h : Memo.cached m k = none) : Memo.cached (m ++ [(k, v)]) k = some v := by
  rw [Memo.cached_append, h, Option.none_or]
  simp [Memo.cached]

theorem Refines.insert {c : Cache} {m : List (GoString × Category)} (h : Refines c m) {k : GoString} (v : Category)
    (hk : Memo.cached m k = none) :
    Refines { c with entries := c.entries.insert k v, keys := c.keys ++ [k] } (m ++ [(k, v)]) := by
  have hout : k ∉ c.keys := h.keys ▸ Memo.cached_eq_none.mp hk
  refine ⟨by simp [h.keys], ?_, fun k' => ?_⟩
  · exact List.nodup_append.mpr ⟨h.nodup, List.nodup_singleton k, fun a ha b hb hab =>
      hout (List.mem_singleton.mp hb ▸ hab ▸ ha)⟩
  · by_cases hne : k' = k
    · subst hne
      rw [cached_concat_self v hk]
      exact AList.lookup_insert _
    · rw [cached_concat_of_ne hne, ← h.lookup]
      exact AList.lookup_insert_ne hne

theorem Refines.erase {c : Cache} {p : GoString × Category} {m : List (GoString × Category)} (h : Refines c (p :: m)) :
    Refines { c with entries := c.entries.erase p.1, keys := m.map Prod.fst } m := by
  have hnd := h.nodup
  rw [h.keys, List.map_cons, List.nodup_cons] at hnd
  refine ⟨rfl, hnd.2, fun k => ?_⟩
  by_cases hne : k = p.1
  · subst hne
    rw [Memo.cached_eq_none.mpr hnd.1]
    exact AList.lookup_erase _ _
  · have hcons : Memo.cached (p :: m) k = Memo.cached m k := by
      simp [Memo.cached, Ne.symm hne]
    rw [← hcons, ← h.lookup]
    exact AList.lookup_erase_ne hne

/-- **One call** through a cache of at least one entry is one call through the memo. -/
theorem Refines.classify {c : Cache} {m : List (GoString × Category)} (h : Refines c m) (hmax : 1 ≤ c.maxSize)
    (rules : List Rule) (w : Window) :
    ∃ c', c.classify w.app w.title w.url rules =
        some ((Memo.ask Window.key (Window.category rules) c.maxSize m w).1, c') ∧
      c'.maxSize = c.maxSize ∧ Refines c' (Memo.ask Window.key (Window.category rules) c.maxSize m w).2 := by
  have hlook := h.lookup (cacheKey w.app w.title)
  rw [Cache.classify, Memo.ask, Window.key]
  cases hc : Memo.cached m (cacheKey w.app w.title) with
  | some v =>
      rw [hc] at hlook
      exact ⟨c, by simp only [hlook], rfl, h⟩
  | none =>
      rw [hc] at hlook
      simp only [hlook, Memo.store, h.length]
      by_cases hfull : c.maxSize ≤ m.length
      · rw [if_pos hfull, if_pos hfull]
        cases m with
        | nil =>
            rw [List.length_nil] at hfull
            omega
        | cons p m =>
            have hkeys : c.keys = p.1 :: m.map Prod.fst := h.keys
            have hout : Memo.cached m (cacheKey w.app w.title) = none := by
              rw [Memo.cached_eq_none] at hc ⊢
              exact fun hmem => hc (List.mem_cons_of_mem _ hmem)
            rw [hkeys]
            exact ⟨_, rfl, rfl, h.erase.insert _ hout⟩
      · rw [if_neg hfull, if_neg hfull]
        exact ⟨_, rfl, rfl, h.insert _ hc⟩

/-- A sequence of calls through the memo, from some entries. -/
def memoAll (rules : List Rule) (n : Nat) (m : List (GoString × Category)) : List Window → List Category
  | [] => []
  | w :: ws =>
    let r := Memo.ask Window.key (Window.category rules) n m w
    r.1 :: memoAll rules n r.2 ws

/-- **The cache answers as the memo does.** -/
theorem Refines.classifyAll {c : Cache} {m : List (GoString × Category)} (h : Refines c m) (hmax : 1 ≤ c.maxSize)
    (rules : List Rule) (ws : List Window) :
    ∃ c', c.classifyAll rules ws = some (memoAll rules c.maxSize m ws, c') := by
  induction ws generalizing c m with
  | nil => exact ⟨c, rfl⟩
  | cons w ws ih =>
      obtain ⟨c₁, hc₁, hsize, href⟩ := h.classify hmax rules w
      obtain ⟨c₂, hc₂⟩ := ih href (hsize ▸ hmax)
      rw [hsize] at hc₂
      exact ⟨c₂, by rw [Cache.classifyAll, hc₁, Option.bind_some, hc₂]; rfl⟩

theorem memoAll_eq_map_iff (rules : List Rule) (n : Nat) (pre ws : List Window) :
    memoAll rules n (Memo.after Window.key (Window.category rules) n pre) ws = ws.map (Window.category rules) ↔
      ∀ mid w post, ws = mid ++ w :: post →
        (Memo.ask Window.key (Window.category rules) n
          (Memo.after Window.key (Window.category rules) n (pre ++ mid)) w).1 = w.category rules := by
  induction ws generalizing pre with
  | nil => simp [memoAll]
  | cons w ws ih =>
      rw [memoAll, List.map_cons, List.cons.injEq, ← Memo.after_concat, ih]
      constructor
      · rintro ⟨hw, hrest⟩ mid x post heq
        cases mid with
        | nil =>
            obtain ⟨rfl, -⟩ := List.cons.inj heq
            rw [List.append_nil]
            exact hw
        | cons y mid =>
            obtain ⟨rfl, htail⟩ := List.cons.inj heq
            have := hrest mid x post htail
            rwa [List.append_assoc] at this
      · intro h
        refine ⟨?_, fun mid x post heq => ?_⟩
        · have := h [] w ws rfl
          rwa [List.append_nil] at this
        · have := h (w :: mid) x post (by rw [heq]; rfl)
          rwa [List.append_assoc]

/-- **When the cache agrees with the rules.** For every rule list, every size of at least 1 and every sequence of calls: each
call returns the category of the rules exactly when each call whose key (the app and the first 32 bytes of the title) is
among the keys still cached has the category of the last call with that key. -/
theorem agrees_iff (rules : List Rule) (maxSize : Nat) (hmax : 1 ≤ maxSize) (calls : List Window) :
    Agrees rules maxSize calls ↔ Memo.Stable Window.key (Window.category rules) maxSize calls := by
  obtain ⟨c, hc⟩ := (Refines.start maxSize).classifyAll hmax rules calls
  have hmemo := memoAll_eq_map_iff rules maxSize [] calls
  rw [← Memo.answers_iff, Memo.Answers]
  simp only [List.nil_append] at hmemo
  rw [Agrees, hc, ← hmemo]
  constructor
  · rintro ⟨c', heq⟩
    exact (Prod.mk.inj (Option.some.inj heq)).1
  · intro heq
    exact ⟨c, congrArg some (Prod.ext heq rfl)⟩

/-! ## A tab that moves on -/

/-- The bytes of an ASCII text. -/
def ascii (s : String) : GoString := s.toList.map fun c => UInt8.ofNat c.toNat

/-- The default rule `YouTube`, letter case apart: `youtube\.com` in the URL. -/
def youTube : Rule := ⟨["url"], some fun val => decide (ascii "youtube.com" <:+: val), "Leisure.Video"⟩

/-- Two pages behind one app and title. -/
def newTab (url : String) : Window := ⟨ascii "chrome", ascii "New Tab", ascii url⟩

/-- **The cache does not agree with the rules.** The key leaves out the URL the rule looks at. -/
theorem cached_category_stale : ¬ Agrees [youTube] 512 [newTab "https://youtube.com/", newTab "https://github.com/"] := by
  rintro ⟨c, hc⟩
  have hanswers : ((newCache 512).classifyAll [youTube] [newTab "https://youtube.com/", newTab "https://github.com/"]).map
      Prod.fst = some ([newTab "https://youtube.com/", newTab "https://github.com/"].map (Window.category [youTube])) := by
    rw [hc, Option.map_some]
  exact absurd hanswers (by decide +kernel)

/-- In a cache of one entry, a page in another app between the two drops the stale entry. -/
theorem agrees_iff_sample :
    Agrees [youTube] 1 [newTab "https://youtube.com/", ⟨ascii "code", [], []⟩, newTab "https://github.com/"] ↔
      Memo.Stable Window.key (Window.category [youTube]) 1
        [newTab "https://youtube.com/", ⟨ascii "code", [], []⟩, newTab "https://github.com/"] :=
  agrees_iff [youTube] 1 (by decide) _

end TimeChamp.Classifier
