import Mathlib.Data.List.Induction
import Mathlib.Logic.Function.Basic
import TimeChamp.Lib.Floats

/-!
# The store in a file

`infrastructure/redis/redis.service.ts` without a `REDIS_URL`: a map in memory, written to a file as one JSON object
after every change and read back when the service starts.

* `RedisService` : the map and the file; `RedisService.call` and `RedisService.restart`;
* `onDisk` : what the file holds of an entry: nothing under the key `__proto__`, and no expiry that is not finite;
* `Written` : the file is that of the map, or the map was loaded from it and nothing was written since;
* `Store.answers_iff` : two maps answer alike exactly when the first read of each key does;
* `answers_restart_iff` : **the calls after a restart are answered as without it exactly when the first read of each key
  finds nothing that the restart has lost, made immortal or brought back.**
-/

namespace TimeChamp.FileStore
open TimeChamp.Lib
open Function (update)

/-- `MemEntry`. -/
structure MemEntry where
  value : String
  expiresAt : Option Double
deriving DecidableEq

/-- `Map<string, MemEntry>`. -/
abbrev Store := String → Option MemEntry

/-- `Date.now() > entry.expiresAt`, where there is one. -/
def MemEntry.expired (entry : MemEntry) (now : Int) : Bool := entry.expiresAt.any fun at_ => at_.lt now

/-- `v.expiresAt === null || v.expiresAt > now`. -/
def MemEntry.kept (entry : MemEntry) (now : Int) : Bool := entry.expiresAt.all fun at_ => at_.gt now

/-- `ttlSeconds ? Date.now() + ttlSeconds * 1000 : null`. -/
def expiry (now : Int) : Option Double → Option Double
  | none => none
  | some ttlSeconds =>
    if ttlSeconds = .finite 0 ∨ ttlSeconds = .nan then none
    else some ((Double.finite now).add (ttlSeconds.mul (.finite 1000)))

/-- A call, with what the clock says during it. -/
inductive Call where
  | set (now : Int) (key value : String) (ttlSeconds : Option Double)
  | get (now : Int) (key : String)
  | del (now : Int) (key : String)
  | exists_ (now : Int) (key : String)

inductive Answer where
  | done
  | value (v : Option String)
  | bool (b : Bool)
deriving DecidableEq

/-- What `get` returns of the entry of its key. -/
def seen (now : Int) : Option MemEntry → Option String
  | none => none
  | some entry => if entry.expired now then none else some entry.value

/-- And what it leaves of it. -/
def left (now : Int) : Option MemEntry → Option MemEntry
  | none => none
  | some entry => if entry.expired now then none else some entry

def Call.key : Call → String
  | .set _ key _ _ | .get _ key | .del _ key | .exists_ _ key => key

/-- A call on the entry of its key. -/
def Call.onEntry : Call → Option MemEntry → Answer × Option MemEntry
  | .set now _ value ttlSeconds, _ => (.done, some ⟨value, expiry now ttlSeconds⟩)
  | .get now _, entry => (.value (seen now entry), left now entry)
  | .del _ _, _ => (.done, none)
  | .exists_ now _, entry => (.bool (seen now entry).isSome, left now entry)

/-- A call on the map. -/
def Store.call (c : Call) (mem : Store) : Answer × Store :=
  let r := c.onEntry (mem c.key)
  (r.1, update mem c.key r.2)

/-- Whether the call writes the file. -/
def Call.saves : Call → Option MemEntry → Bool
  | .set _ _ _ _, _ | .del _ _, _ => true
  | .get now _, entry | .exists_ now _, entry => entry.any fun e => e.expired now

/-- What `JSON.stringify` writes of an expiry: a number, or `null`. -/
def jsonNumber : Double → Option Double
  | .finite q => some (.finite q)
  | _ => none

/-- An entry as it is read back; texts and numbers come back as they are. -/
def MemEntry.stringify (entry : MemEntry) : MemEntry := ⟨entry.value, entry.expiresAt.bind jsonNumber⟩

/-- What the file holds of an entry. Setting `__proto__` of an object sets its prototype, which is not written. -/
def onDisk (key : String) (entry : Option MemEntry) : Option MemEntry :=
  if key = "__proto__" then none else entry.map MemEntry.stringify

/-- The map in memory, and the object in the file, if there is one. -/
structure RedisService where
  mem : Store
  file : Option Store

/-- Before the first start. -/
def RedisService.fresh : RedisService := ⟨fun _ => none, none⟩

/-- `saveToDisk`. -/
def saveToDisk (mem : Store) : Store := fun key => onDisk key (mem key)

/-- The object that is read from the file; there may be no file. -/
def RedisService.entries (s : RedisService) : Store := fun key => s.file.bind fun obj => obj key

/-- `loadFromDisk`, into an empty map. -/
def loadFromDisk (now : Int) (entries : Store) : Store := fun key => (entries key).filter fun e => e.kept now

def RedisService.call (c : Call) (s : RedisService) : Answer × RedisService :=
  let r := s.mem.call c
  (r.1, ⟨r.2, if c.saves (s.mem c.key) then some (saveToDisk r.2) else s.file⟩)

/-- The process ends, and the next one starts at `now`. -/
def RedisService.restart (now : Int) (s : RedisService) : RedisService := ⟨loadFromDisk now s.entries, s.file⟩

inductive Event where
  | call (c : Call)
  | restart (now : Int)

def RedisService.next (s : RedisService) : Event → RedisService
  | .call c => (s.call c).2
  | .restart now => s.restart now

/-- The service after some calls and restarts. -/
def after (es : List Event) : RedisService := es.foldl RedisService.next .fresh

/-- The answers to some calls, one after the other. -/
def RedisService.answers (s : RedisService) : List Call → List Answer
  | [] => []
  | c :: cs => (s.call c).1 :: (s.call c).2.answers cs

/-! ## Maps that answer alike -/

/-- The answers, by the map alone. -/
def Store.answers (mem : Store) : List Call → List Answer
  | [] => []
  | c :: cs => (mem.call c).1 :: Store.answers (mem.call c).2 cs

theorem RedisService.answers_eq (s : RedisService) (cs : List Call) : s.answers cs = Store.answers s.mem cs := by
  induction cs generalizing s with
  | nil => rfl
  | cons c cs ih =>
      rw [RedisService.answers, ih]
      rfl

/-- When a call reads. -/
def Call.readAt : Call → Option Int
  | .get now _ | .exists_ now _ => some now
  | .set _ _ _ _ | .del _ _ => none

/-- When the first of the calls on a key reads, if it does. -/
def firstRead (key : String) : List Call → Option Int
  | [] => none
  | c :: cs => if c.key = key then c.readAt else firstRead key cs

/-- No read tells the entries apart. -/
def Alike (a b : Option MemEntry) : Prop := ∀ now, seen now a = seen now b

/-- The entries are alike if they are ever both seen. -/
def Comparable (a b : Option MemEntry) : Prop :=
  ∀ now, (seen now a).isSome = true → (seen now b).isSome = true → Alike a b

theorem Alike.comparable {a b : Option MemEntry} (h : Alike a b) : Comparable a b := fun _ _ _ => h

theorem left_of_isSome {now : Int} {a : Option MemEntry} (h : (seen now a).isSome = true) : left now a = a := by
  cases a with
  | none => exact absurd h (by simp [seen])
  | some e =>
      unfold seen at h
      unfold left
      dsimp only at h ⊢
      split_ifs at h ⊢
      · exact absurd h (by simp)
      · rfl

theorem left_of_not_isSome {now : Int} {a : Option MemEntry} (h : (seen now a).isSome = false) : left now a = none := by
  cases a with
  | none => rfl
  | some e =>
      unfold seen at h
      unfold left
      dsimp only at h ⊢
      split_ifs at h ⊢
      · rfl
      · exact absurd h (by simp)

theorem Comparable.left {a b : Option MemEntry} {now : Int} (h : Comparable a b) (heq : seen now a = seen now b) :
    Alike (left now a) (left now b) := by
  cases hseen : (seen now a).isSome with
  | true =>
      have hb : (seen now b).isSome = true := heq ▸ hseen
      rw [left_of_isSome hseen, left_of_isSome hb]
      exact h now hseen hb
  | false =>
      have hb : (seen now b).isSome = false := heq ▸ hseen
      rw [left_of_not_isSome hseen, left_of_not_isSome hb]
      intro _
      rfl

/-- Existence is seen the same exactly if the value is. -/
theorem Comparable.isSome_iff {a b : Option MemEntry} {now : Int} (h : Comparable a b) :
    (seen now a).isSome = (seen now b).isSome ↔ seen now a = seen now b := by
  constructor
  · intro heq
    cases hseen : (seen now a).isSome with
    | true => exact h now hseen (heq ▸ hseen) now
    | false =>
        have hb : (seen now b).isSome = false := heq ▸ hseen
        rw [Option.isSome_eq_false_iff, Option.isNone_iff_eq_none] at hseen hb
        rw [hseen, hb]
  · intro heq
    rw [heq]

/-- **One call** on two entries. -/
theorem Comparable.onEntry {a b : Option MemEntry} (h : Comparable a b) (c : Call) :
    ((c.onEntry a).1 = (c.onEntry b).1 ↔ ∀ now ∈ c.readAt, seen now a = seen now b) ∧
      ((∀ now ∈ c.readAt, seen now a = seen now b) → Alike (c.onEntry a).2 (c.onEntry b).2) := by
  cases c with
  | set now key value ttlSeconds =>
      refine ⟨iff_of_true rfl ?_, fun _ _ => rfl⟩
      intro t ht
      exact absurd ht (by simp [Call.readAt])
  | del now key =>
      refine ⟨iff_of_true rfl ?_, fun _ _ => rfl⟩
      intro t ht
      exact absurd ht (by simp [Call.readAt])
  | get now key =>
      simp only [Call.onEntry, Call.readAt, Option.mem_some_iff, forall_eq', Answer.value.injEq, true_and]
      exact h.left
  | exists_ now key =>
      simp only [Call.onEntry, Call.readAt, Option.mem_some_iff, forall_eq', Answer.bool.injEq]
      exact ⟨h.isSome_iff, h.left⟩

theorem Store.call_of_ne (mem : Store) {c : Call} {key : String} (h : key ≠ c.key) : (mem.call c).2 key = mem key :=
  Function.update_of_ne h _ _

theorem Store.call_self (mem : Store) (c : Call) : (mem.call c).2 c.key = (c.onEntry (mem c.key)).2 :=
  Function.update_self _ _ _

theorem firstRead_self (c : Call) (cs : List Call) : firstRead c.key (c :: cs) = c.readAt := if_pos rfl

theorem firstRead_of_ne {key : String} {c : Call} (h : key ≠ c.key) (cs : List Call) :
    firstRead key (c :: cs) = firstRead key cs :=
  if_neg h.symm

theorem Store.comparable_call {m m' : Store} (h : ∀ key, Comparable (m key) (m' key)) {c : Call}
    (hread : ∀ now ∈ c.readAt, seen now (m c.key) = seen now (m' c.key)) (key : String) :
    Comparable ((m.call c).2 key) ((m'.call c).2 key) := by
  by_cases hkey : key = c.key
  · rw [hkey, call_self, call_self]
    exact (((h c.key).onEntry c).2 hread).comparable
  · rw [call_of_ne m hkey, call_of_ne m' hkey]
    exact h key

/-- **When two maps answer alike**: exactly if the first read of each key does. -/
theorem Store.answers_iff {m m' : Store} (h : ∀ key, Comparable (m key) (m' key)) (cs : List Call) :
    Store.answers m cs = Store.answers m' cs ↔
      ∀ key, ∀ now ∈ firstRead key cs, seen now (m key) = seen now (m' key) := by
  induction cs generalizing m m' with
  | nil => simp [Store.answers, firstRead]
  | cons c cs ih =>
      obtain ⟨hanswer, halike⟩ := (h c.key).onEntry c
      rw [Store.answers, Store.answers, List.cons.injEq]
      have hhead : (m.call c).1 = (m'.call c).1 ↔ ∀ now ∈ c.readAt, seen now (m c.key) = seen now (m' c.key) := hanswer
      rw [hhead]
      constructor
      · rintro ⟨hread, htail⟩ key now hnow
        by_cases hkey : key = c.key
        · subst hkey
          rw [firstRead_self] at hnow
          exact hread now hnow
        · rw [firstRead_of_ne hkey] at hnow
          have hseen := (ih (Store.comparable_call h hread)).mp htail key now hnow
          rwa [Store.call_of_ne m hkey, Store.call_of_ne m' hkey] at hseen
      · intro hall
        have hread : ∀ now ∈ c.readAt, seen now (m c.key) = seen now (m' c.key) := by
          rw [← firstRead_self c cs]
          exact hall c.key
        refine ⟨hread, (ih (Store.comparable_call h hread)).mpr ?_⟩
        intro key now hnow
        by_cases hkey : key = c.key
        · rw [hkey, Store.call_self, Store.call_self]
          exact halike hread now
        · rw [Store.call_of_ne m hkey, Store.call_of_ne m' hkey]
          rw [← firstRead_of_ne hkey] at hnow
          exact hall key now hnow

/-! ## What a restart changes -/

theorem seen_some_eq_none {now : Int} {e : MemEntry} : seen now (some e) = none ↔ e.expired now = true := by
  unfold seen
  dsimp only
  split_ifs with h <;> simp [h]

theorem not_expired_of_isSome {now : Int} {e : MemEntry} (h : (seen now (some e)).isSome = true) :
    e.expired now = false := by
  rw [← Bool.not_eq_true, ← seen_some_eq_none]
  intro hnone
  rw [hnone] at h
  exact absurd h (by simp)

/-- Only an expiry of minus infinity is read back as a later one. -/
theorem stringify_expired {e : MemEntry} (h : e.expiresAt ≠ some (.infinite true)) (now : Int) :
    e.stringify.expired now = e.expired now := by
  obtain ⟨value, expiresAt⟩ := e
  rcases expiresAt with _ | _ | negative | q
  · rfl
  · rfl
  · cases negative
    · rfl
    · exact absurd rfl h
  · rfl

theorem expired_of_negative {e : MemEntry} (h : e.expiresAt = some (.infinite true)) (now : Int) :
    e.expired now = true := by
  unfold MemEntry.expired
  rw [h]
  rfl

theorem stringify_of_negative {e : MemEntry} (h : e.expiresAt = some (.infinite true)) :
    e.stringify = ⟨e.value, none⟩ := by
  unfold MemEntry.stringify
  rw [h]
  rfl

theorem stringify_stringify (e : MemEntry) : e.stringify.stringify = e.stringify := by
  obtain ⟨value, expiresAt⟩ := e
  rcases expiresAt with _ | _ | negative | q <;> rfl

theorem stringify_alike {e : MemEntry} (h : e.expiresAt ≠ some (.infinite true)) :
    Alike (some e) (some e.stringify) := by
  intro now
  unfold seen
  dsimp only
  rw [stringify_expired h]
  rfl

theorem onDisk_of_ne {key : String} (h : key ≠ "__proto__") (e : MemEntry) :
    onDisk key (some e) = some e.stringify :=
  if_neg h

theorem onDisk_proto (a : Option MemEntry) : onDisk "__proto__" a = none := if_pos rfl

theorem filter_of_kept {e : MemEntry} {now : Int} (h : e.kept now = true) :
    ((some e).filter fun e => e.kept now) = some e := by
  rw [Option.filter_some, if_pos h]

theorem filter_of_not_kept {e : MemEntry} {now : Int} (h : e.kept now = false) :
    ((some e).filter fun e => e.kept now) = none := by
  rw [Option.filter_some, if_neg (by rw [h]; decide)]

/-- What a read at `now` finds of an entry `a` in memory and, after a restart at `r`, of the one that was written. -/
structure Survives (key : String) (a : Option MemEntry) (r now : Int) : Prop where
  /-- An entry that is not written, or not kept, has expired. -/
  lost : ∀ e ∈ a, key = "__proto__" ∨ e.stringify.kept r = false → e.expired now = true
  /-- An expiry of minus infinity, which is written as none, is not written at all. -/
  immortal : ∀ e ∈ a, e.expiresAt = some (.infinite true) → key = "__proto__"

theorem survives_none (key : String) (r now : Int) : Survives key none r now :=
  ⟨fun e he => absurd he (by simp), fun e he => absurd he (by simp)⟩

theorem survives_some {key : String} {e : MemEntry} {r now : Int} :
    Survives key (some e) r now ↔
      (key = "__proto__" ∨ e.stringify.kept r = false → e.expired now = true) ∧
        (e.expiresAt = some (.infinite true) → key = "__proto__") := by
  constructor
  · intro h
    exact ⟨h.lost e rfl, h.immortal e rfl⟩
  · rintro ⟨hlost, himmortal⟩
    constructor
    · intro f hf
      obtain rfl := Option.some.inj hf
      exact hlost
    · intro f hf
      obtain rfl := Option.some.inj hf
      exact himmortal

theorem onDisk_none (key : String) : onDisk key none = none := by
  unfold onDisk
  split_ifs <;> rfl

theorem seen_saved_iff (key : String) (a : Option MemEntry) (r now : Int) :
    seen now a = seen now ((onDisk key a).filter fun e => e.kept r) ↔ Survives key a r now := by
  cases a with
  | none =>
      rw [onDisk_none]
      exact iff_of_true rfl (survives_none key r now)
  | some e =>
      rw [survives_some]
      by_cases hkey : key = "__proto__"
      · subst hkey
        rw [onDisk_proto]
        show seen now (some e) = none ↔ _
        rw [seen_some_eq_none]
        constructor
        · intro hexp
          exact ⟨fun _ => hexp, fun _ => rfl⟩
        · intro h
          exact h.1 (Or.inl rfl)
      · rw [onDisk_of_ne hkey]
        by_cases hneg : e.expiresAt = some (.infinite true)
        · rw [seen_some_eq_none.mpr (expired_of_negative hneg now), stringify_of_negative hneg]
          refine iff_of_false ?_ fun h => hkey (h.2 hneg)
          rw [filter_of_kept (show (MemEntry.mk e.value none).kept r = true from rfl)]
          show ¬ none = some e.value
          simp
        · cases hkept : e.stringify.kept r with
          | true =>
              rw [filter_of_kept hkept]
              refine iff_of_true (stringify_alike hneg now) ⟨?_, fun h => absurd h hneg⟩
              rintro (hproto | hdropped)
              · exact absurd hproto hkey
              · exact absurd hdropped (by decide)
          | false =>
              rw [filter_of_not_kept hkept]
              show seen now (some e) = none ↔ _
              rw [seen_some_eq_none]
              constructor
              · intro hexp
                exact ⟨fun _ => hexp, fun h => absurd h hneg⟩
              · intro h
                exact h.1 (Or.inr rfl)

/-- After a load at `r'` and no write, an entry that this load dropped is still in the file. -/
theorem seen_loaded_iff (key : String) (a : Option MemEntry) (r' r now : Int) :
    seen now ((onDisk key a).filter fun e => e.kept r') = seen now ((onDisk key a).filter fun e => e.kept r) ↔
      Survives key ((onDisk key a).filter fun e => e.kept r') r now ∧
        (((onDisk key a).filter fun e => e.kept r') = none →
          ∀ e ∈ onDisk key a, e.kept r = true → e.expired now = true) := by
  by_cases hkey : key = "__proto__"
  · subst hkey
    rw [onDisk_proto]
    exact iff_of_true rfl ⟨survives_none _ r now, fun _ e he => absurd he (by simp)⟩
  · cases a with
    | none =>
        rw [onDisk_none]
        exact iff_of_true rfl ⟨survives_none _ r now, fun _ e he => absurd he (by simp)⟩
    | some e =>
        rw [onDisk_of_ne hkey]
        cases hkept : e.stringify.kept r' with
        | true =>
            have hsaved := seen_saved_iff key (some e.stringify) r now
            rw [onDisk_of_ne hkey, stringify_stringify] at hsaved
            rw [filter_of_kept hkept, hsaved]
            exact ⟨fun h => ⟨h, fun hnone => absurd hnone (by simp)⟩, fun h => h.1⟩
        | false =>
            rw [filter_of_not_kept hkept]
            show none = seen now ((some e.stringify).filter fun e => e.kept r) ↔ _
            have hrevived : none = seen now ((some e.stringify).filter fun e => e.kept r) ↔
                (e.stringify.kept r = true → e.stringify.expired now = true) := by
              cases hagain : e.stringify.kept r with
              | true => rw [filter_of_kept hagain, eq_comm, seen_some_eq_none, forall_prop_of_true rfl]
              | false =>
                  rw [filter_of_not_kept hagain]
                  exact iff_of_true rfl fun h => absurd h (by decide)
            rw [hrevived]
            constructor
            · intro h
              refine ⟨survives_none _ r now, fun _ f hf => ?_⟩
              obtain rfl := Option.some.inj hf
              exact h
            · intro h
              exact h.2 rfl _ rfl

theorem comparable_saved (key : String) (a : Option MemEntry) (r : Int) :
    Comparable a ((onDisk key a).filter fun e => e.kept r) := by
  intro now ha hb
  cases a with
  | none => exact absurd ha (by simp [seen])
  | some e =>
      by_cases hkey : key = "__proto__"
      · subst hkey
        rw [onDisk_proto] at hb
        exact absurd hb (by simp [seen])
      · rw [onDisk_of_ne hkey] at hb ⊢
        cases hkept : e.stringify.kept r with
        | true =>
            rw [filter_of_kept hkept]
            apply stringify_alike
            intro hneg
            exact absurd (not_expired_of_isSome ha) (by rw [expired_of_negative hneg]; decide)
        | false =>
            rw [filter_of_not_kept hkept] at hb
            exact absurd hb (by simp [seen])

theorem comparable_loaded (b : Option MemEntry) (r' r : Int) :
    Comparable (b.filter fun e => e.kept r') (b.filter fun e => e.kept r) := by
  intro now ha hb
  cases b with
  | none => exact absurd ha (by simp [seen])
  | some e =>
      cases hkept : e.kept r' with
      | false =>
          rw [filter_of_not_kept hkept] at ha
          exact absurd ha (by simp [seen])
      | true =>
          cases hagain : e.kept r with
          | false =>
              rw [filter_of_not_kept hagain] at hb
              exact absurd hb (by simp [seen])
          | true =>
              rw [filter_of_kept hkept, filter_of_kept hagain]
              intro _
              rfl

/-! ## The file and the map -/

/-- The file was written for some map, which is the one in memory, or which it was loaded from since. -/
def Written (s : RedisService) : Prop :=
  ∃ m : Store, (∀ key, s.entries key = onDisk key (m key)) ∧
    ((∀ key, s.mem key = m key) ∨ ∃ now, ∀ key, s.mem key = (onDisk key (m key)).filter fun e => e.kept now)

theorem written_fresh : Written .fresh := by
  refine ⟨fun _ => none, fun key => ?_, Or.inl fun _ => rfl⟩
  show none = onDisk key none
  rw [onDisk_none]

theorem call_of_not_saves {c : Call} {mem : Store} (h : c.saves (mem c.key) = false) : (mem.call c).2 = mem := by
  have hsame : (c.onEntry (mem c.key)).2 = mem c.key := by
    cases c with
    | set now key value ttlSeconds => exact absurd h (by simp [Call.saves])
    | del now key => exact absurd h (by simp [Call.saves])
    | get now key | exists_ now key =>
        simp only [Call.saves] at h
        show left now (mem key) = mem key
        change ((mem key).any fun e => e.expired now) = false at h
        cases hentry : mem key with
        | none => rfl
        | some e =>
            rw [hentry, Option.any_some] at h
            exact if_neg (by rw [h]; decide)
  show update mem c.key (c.onEntry (mem c.key)).2 = mem
  rw [hsame, Function.update_eq_self]

theorem mem_restart {s : RedisService} {key : String} {a : Option MemEntry} (h : s.entries key = onDisk key a)
    (r : Int) : (s.restart r).mem key = (onDisk key a).filter fun e => e.kept r := by
  show (s.entries key).filter _ = _
  rw [h]

theorem Written.next {s : RedisService} (h : Written s) (e : Event) : Written (s.next e) := by
  cases e with
  | call c =>
      cases hsaves : c.saves (s.mem c.key) with
      | true =>
          refine ⟨(s.mem.call c).2, fun key => ?_, Or.inl fun _ => rfl⟩
          show (if c.saves (s.mem c.key) = true then some (saveToDisk (s.mem.call c).2) else s.file).bind _ = _
          rw [if_pos hsaves]
          rfl
      | false =>
          have hstate : s.next (.call c) = s := by
            show RedisService.mk (s.mem.call c).2
              (if c.saves (s.mem c.key) = true then some (saveToDisk (s.mem.call c).2) else s.file) = s
            rw [call_of_not_saves hsaves, hsaves]
            rfl
          rw [hstate]
          exact h
  | restart now =>
      obtain ⟨m, hfile, -⟩ := h
      exact ⟨m, hfile, Or.inr ⟨now, fun key => mem_restart (hfile key) now⟩⟩

/-- **After any calls and restarts** the file is that of the map, or the map is what a load made of it. -/
theorem written_after (es : List Event) : Written (after es) := by
  induction es using List.reverseRecOn with
  | nil => exact written_fresh
  | append_singleton es e ih =>
      rw [after, List.foldl_append]
      exact ih.next e

/-- What a read at `now` finds under a key after a restart at `r` is what it finds without it. -/
structure Harmless (s : RedisService) (key : String) (r now : Int) : Prop where
  survives : Survives key (s.mem key) r now
  /-- An entry that an earlier load dropped, and that is still in the file, is dropped again, or has expired. -/
  revived : s.mem key = none → ∀ e ∈ s.entries key, e.kept r = true → e.expired now = true

theorem seen_restart_iff {s : RedisService} (h : Written s) (key : String) (r now : Int) :
    seen now ((s.restart r).mem key) = seen now (s.mem key) ↔ Harmless s key r now := by
  obtain ⟨m, hfile, hmem⟩ := h
  rw [mem_restart (hfile key), eq_comm]
  obtain hsaved | ⟨r', hloaded⟩ := hmem
  · rw [hsaved, seen_saved_iff]
    constructor
    · intro hs
      refine ⟨by rw [hsaved]; exact hs, fun hnone e he => ?_⟩
      rw [hfile, ← hsaved, hnone, onDisk_none] at he
      exact absurd he (by simp)
    · intro hs
      rw [← hsaved]
      exact hs.survives
  · rw [hloaded, seen_loaded_iff, ← hloaded, ← hfile]
    exact ⟨fun hs => ⟨hs.1, hs.2⟩, fun hs => ⟨hs.survives, hs.revived⟩⟩

theorem comparable_restart {s : RedisService} (h : Written s) (key : String) (r : Int) :
    Comparable (s.mem key) ((s.restart r).mem key) := by
  obtain ⟨m, hfile, hmem⟩ := h
  rw [mem_restart (hfile key)]
  obtain hsaved | ⟨r', hloaded⟩ := hmem
  · rw [hsaved]
    exact comparable_saved key (m key) r
  · rw [hloaded]
    exact comparable_loaded _ r' r

/-- **When a restart is not noticed.** After any calls and restarts, for a restart at `r` and any calls after it: each
is answered as it would have been without this restart exactly when the first read of each key, if no call writes the key
before it, finds nothing that the restart has lost, made immortal or brought back. -/
theorem answers_restart_iff (es : List Event) (r : Int) (cs : List Call) :
    ((after es).restart r).answers cs = (after es).answers cs ↔
      ∀ key, ∀ now ∈ firstRead key cs, Harmless (after es) key r now := by
  have hwritten := written_after es
  rw [RedisService.answers_eq, RedisService.answers_eq, eq_comm,
    Store.answers_iff fun key => comparable_restart hwritten key r]
  simp only [← seen_restart_iff hwritten, eq_comm]

/-- A session that is stored for a minute. -/
def session : List Event := [.call (.set 0 "session" "u1" (some (.finite 60)))]

/-- **A restart at the instant the entry expires** loses it, though it is still read at that instant. -/
theorem answers_restart_session :
    ((after session).restart 60000).answers [.get 60000 "session"] ≠
      (after session).answers [.get 60000 "session"] := by
  decide +kernel

/-- A key that the file cannot hold. -/
example : ((after [.call (.set 0 "__proto__" "u1" none)]).restart 1).answers [.get 2 "__proto__"] = [.value none] := by
  decide +kernel

end TimeChamp.FileStore
