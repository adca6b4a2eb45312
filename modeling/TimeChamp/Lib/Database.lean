import Mathlib.Data.List.Basic
import Mathlib.Logic.Function.Basic
import TimeChamp.Lib.Prog

/-!
# Tables whose rows have owners

A database of tables with generated keys, foreign keys and unique constraints, shared by several owners. A row is its
owner's who had it inserted; some tables have a column that says so, others are told by what they refer to.

* `Schema` : the tables and their constraints; `Schema.Lawful`, that none of them ties rows of two owners together;
* `Db` : the rows, and which keys were generated for whom;
* `Stmt`, `Stmt.run` : one statement, which may fail before or after it took effect;
* `Db.of d` : the rows of an owner; `Db.Sound`, that rows are where their columns say and refer to rows of their owner;
* `Permitted d db s` : the statement stays within the rows of `d`;
* `run_of_other`, `run_of_own` : **a permitted statement leaves the rows of others, and is answered by those of its own**.
-/

namespace TimeChamp.Lib
open Function (update)

/-- Why the database refuses a statement. -/
inductive DbError where
  | failed
  | badValue
  | duplicateKey
  | foreignKey
deriving DecidableEq

/-- The tables of a database, with keys `K` and owners `D`. -/
structure Schema (K D : Type) where
  Table : Type
  Row : Table → Type
  key : (t : Table) → Row t → K
  /-- The column that names the owner, where the table has one. -/
  owner : (t : Table) → Row t → Option D
  /-- The foreign keys that are set. -/
  refs : (t : Table) → Row t → List (Table × K)
  /-- The values fit their columns: none is missing that may not be, and none is too large. -/
  fits : (t : Table) → Row t → Bool
  /-- A unique constraint forbids the two rows. -/
  clash : (t : Table) → Row t → Row t → Bool
  /-- What becomes of a row when the row it may refer to is deleted. -/
  onDelete : Table × K → (t : Table) → Row t → Option (Row t)

namespace Schema
variable {K D : Type}

/-- Unique constraints are among rows of one owner, and a delete changes only the rows that refer to what it deletes. -/
structure Lawful (S : Schema K D) : Prop where
  clash : ∀ {t r r'}, S.clash t r r' = true → ∃ d, S.owner t r = some d ∧ S.owner t r' = some d
  onDelete_keeps : ∀ {q t r r'}, S.onDelete q t r = some r' → S.key t r' = S.key t r ∧ S.owner t r' = S.owner t r ∧
    S.refs t r' ⊆ S.refs t r ∧ q ∉ S.refs t r'
  onDelete_other : ∀ {q t r}, q ∉ S.refs t r → S.onDelete q t r = some r

/-- Nothing refers to the rows that go with a row of the table. -/
def Shallow (S : Schema K D) (t : S.Table) : Prop :=
  ∀ k t' r, S.onDelete (t, k) t' r = none → ∀ k' t'' r', (t', k') ∉ S.refs t'' r'

end Schema

/-- The rows of the tables, and the keys that were generated, each with the owner it was generated for. -/
structure Db {K D : Type} (S : Schema K D) where
  rows : (t : S.Table) → List (S.Row t)
  born : List (S.Table × K × D)

/-- A statement. What is inserted says for whom; a generated key and the clock of the database are filled in. -/
inductive Stmt {K D : Type} (S : Schema K D) where
  | find (t : S.Table) (w : S.Row t → Bool)
  | insert (t : S.Table) (d : D) (row : K → Int → S.Row t)
  | insertAs (t : S.Table) (d : D) (row : S.Row t)
  | modify (t : S.Table) (k : K) (f : Int → S.Row t → S.Row t)
  | delete (t : S.Table) (k : K)
  | clear (t : S.Table) (w : S.Row t → Bool)

abbrev Stmt.Reply {K D : Type} {S : Schema K D} : Stmt S → Type
  | .find t _ => Except DbError (List (S.Row t))
  | .insert t _ _ => Except DbError (S.Row t)
  | .insertAs t _ _ => Except DbError (S.Row t)
  | .modify t _ _ => Except DbError (List (S.Row t))
  | .delete _ _ => Except DbError Unit
  | .clear _ _ => Except DbError Unit

/-- How a statement ends, the clock of the database, and the key that it generates. -/
structure DbChoice (K : Type) where
  outcome : Outcome
  now : Int
  fresh : K

section
variable {K D : Type} {S : Schema K D} [DecidableEq S.Table] [DecidableEq K] [DecidableEq D]

namespace Db

def start : Db S := ⟨fun _ => [], []⟩

/-- There is a row with the key. -/
def has (db : Db S) (q : S.Table × K) : Bool := (db.rows q.1).any fun r => S.key q.1 r = q.2

def setRows (db : Db S) (t : S.Table) (rows : List (S.Row t)) : Db S := { db with rows := update db.rows t rows }

/-- The key was generated. -/
def Used (db : Db S) (t : S.Table) (k : K) : Prop := ∃ d, (t, k, d) ∈ db.born

instance (db : Db S) (t : S.Table) (k : K) : Decidable (db.Used t k) :=
  decidable_of_iff (∃ x ∈ db.born, x.1 = t ∧ x.2.1 = k) (by
    constructor
    · rintro ⟨⟨_, _, d⟩, hx, rfl, rfl⟩
      exact ⟨d, hx⟩
    · rintro ⟨d, hd⟩
      exact ⟨_, hd, rfl, rfl⟩)

/-- Why the row may not be inserted. -/
def refuses (db : Db S) (t : S.Table) (r : S.Row t) : Option DbError :=
  if !S.fits t r then some .badValue
  else if (db.rows t).any fun r' => S.key t r' = S.key t r || S.clash t r r' then some .duplicateKey
  else if (S.refs t r).all db.has then none
  else some .foreignKey

/-- The rows after the delete, of one table. -/
def afterDelete (db : Db S) (t : S.Table) (k : K) (t' : S.Table) : List (S.Row t') :=
  ((db.rows t').filter fun r => ¬ (t' = t ∧ S.key t' r = k)).filterMap (S.onDelete (t, k) t')

/-- The rows with these keys deleted, one after the other. -/
def deleteAll (db : Db S) (t : S.Table) (ks : List K) : Db S :=
  ks.foldl (fun db k => { db with rows := db.afterDelete t k }) db

/-- The rows of an owner. -/
def of (db : Db S) (d : D) (t : S.Table) : List (S.Row t) := (db.rows t).filter fun r => (t, S.key t r, d) ∈ db.born

/-- The row may be an owner's: its column says so, and it refers to rows of the owner. -/
structure Mine (db : Db S) (d : D) (t : S.Table) (r : S.Row t) : Prop where
  owner : ∀ d' ∈ S.owner t r, d' = d
  refs : ∀ q ∈ S.refs t r, (q.1, q.2, d) ∈ db.born

/-- A key is of one owner, and of one row; every row was inserted for its owner, and refers to rows that are there. -/
structure Sound (db : Db S) : Prop where
  born : ∀ {t k d d'}, (t, k, d) ∈ db.born → (t, k, d') ∈ db.born → d = d'
  keys : ∀ t, ((db.rows t).map (S.key t)).Nodup
  mine : ∀ {t r}, r ∈ db.rows t → ∃ d, (t, S.key t r, d) ∈ db.born ∧ db.Mine d t r
  refs : ∀ {t r}, r ∈ db.rows t → ∀ q ∈ S.refs t r, db.has q = true

end Db

/-- One statement. Keys that are generated are new; a change returns the rows that it changed. -/
def Stmt.run (ch : DbChoice K) : (s : Stmt S) → Db S → Option (s.Reply × Db S)
  | .find t w, db => some (ch.outcome.answer .failed ((db.rows t).filter w) db db)
  | .insert t d row, db =>
    if db.Used t ch.fresh then none
    else
      match db.refuses t (row ch.fresh ch.now) with
      | some e => some (.error e, db)
      | none =>
        let r := row ch.fresh ch.now
        some (ch.outcome.answer .failed r db
          { db.setRows t (db.rows t ++ [r]) with born := (t, S.key t r, d) :: db.born })
  | .insertAs t _ row, db =>
    match db.refuses t row with
    | some e => some (.error e, db)
    | none => some (ch.outcome.answer .failed row db (db.setRows t (db.rows t ++ [row])))
  | .modify t k f, db =>
    let changed := ((db.rows t).filter fun r => S.key t r = k).map (f ch.now)
    if !changed.all (S.fits t) then some (.error .badValue, db)
    else
      some (ch.outcome.answer .failed changed db
        (db.setRows t ((db.rows t).map fun r => if S.key t r = k then f ch.now r else r)))
  | .delete t k, db => some (ch.outcome.answer .failed () db { db with rows := db.afterDelete t k })
  | .clear t w, db => some (ch.outcome.answer .failed () db (db.deleteAll t (((db.rows t).filter w).map (S.key t))))

/-- A change of a row leaves its key, its owner and what it refers to. -/
def Keeps (t : S.Table) (f : Int → S.Row t → S.Row t) : Prop :=
  ∀ now r, S.key t (f now r) = S.key t r ∧ S.owner t (f now r) = S.owner t r ∧ S.refs t (f now r) = S.refs t r

/-- The statement stays within the rows of the owner. -/
def Permitted (d : D) (db : Db S) : Stmt S → Prop
  | .find t w => ∀ r ∈ db.rows t, w r = true → (t, S.key t r, d) ∈ db.born
  | .insert t d' row => d' = d ∧ ∀ k now, S.key t (row k now) = k ∧ db.Mine d t (row k now)
  | .insertAs t d' row => d' = d ∧ (t, S.key t row, d) ∈ db.born ∧ db.Mine d t row
  | .modify t k f => (t, k, d) ∈ db.born ∧ Keeps t f
  | .delete t k => (t, k, d) ∈ db.born ∧ S.Shallow t
  | .clear t w => (∀ r ∈ db.rows t, w r = true → (t, S.key t r, d) ∈ db.born) ∧ S.Shallow t

/-- The second has all that the owner has in the first, and no key that the first could still generate. -/
structure Db.Sim (d : D) (w v : Db S) : Prop where
  of : w.of d = v.of d
  born : ∀ {t k}, (t, k, d) ∈ w.born → (t, k, d) ∈ v.born
  used : ∀ {t k}, v.Used t k → w.Used t k

/-! ## The rows of an owner -/

section
variable {db w v w' : Db S} {d d' : D} {t t' : S.Table} {k : K} {r : S.Row t}

omit [DecidableEq S.Table] [DecidableEq K] [DecidableEq D] in
theorem Db.Mine.mono {db' : Db S} (h : db.Mine d t r) (hborn : db.born ⊆ db'.born) : db'.Mine d t r :=
  ⟨h.owner, fun q hq => hborn (h.refs q hq)⟩

theorem mem_of {x : S.Row t} : x ∈ db.of d t ↔ x ∈ db.rows t ∧ (t, S.key t x, d) ∈ db.born := by
  simp only [Db.of, List.mem_filter, decide_eq_true_eq]

/-- Two lists of rows, with some keys generated meanwhile. -/
theorem filter_born_congr {rows : List (S.Row t)} {born born' : List (S.Table × K × D)}
    (h : ∀ r ∈ rows, (t, S.key t r, d) ∈ born' ↔ (t, S.key t r, d) ∈ born) :
    rows.filter (fun r => (t, S.key t r, d) ∈ born') = rows.filter fun r => (t, S.key t r, d) ∈ born := by
  apply List.filter_congr
  intro r hr
  exact decide_eq_decide.mpr (h r hr)

theorem find_eq_of {p : S.Row t → Bool} (h : ∀ r ∈ db.rows t, p r = true → (t, S.key t r, d) ∈ db.born) :
    (db.rows t).filter p = (db.of d t).filter p := by
  rw [Db.of, List.filter_filter]
  apply List.filter_congr
  intro r hr
  cases hp : p r with
  | false => simp
  | true => simp [h r hr hp]

theorem has_eq_of {q : S.Table × K} (hq : (q.1, q.2, d) ∈ db.born) :
    db.has q = (db.of d q.1).any fun r => S.key q.1 r = q.2 := by
  rw [Bool.eq_iff_iff, Db.has, List.any_eq_true, List.any_eq_true]
  constructor
  · rintro ⟨r, hr, hk⟩
    exact ⟨r, mem_of.mpr ⟨hr, by rwa [of_decide_eq_true hk]⟩, hk⟩
  · rintro ⟨r, hr, hk⟩
    exact ⟨r, (mem_of.mp hr).1, hk⟩

theorem Db.Sound.refuses_eq (hS : S.Lawful) (hw : w.Sound) (hv : v.Sound) (hsim : Db.Sim d w v)
    (hkey : ∀ r' ∈ w.rows t, S.key t r' = S.key t r → (t, S.key t r', d) ∈ w.born)
    (hkey' : ∀ r' ∈ v.rows t, S.key t r' = S.key t r → (t, S.key t r', d) ∈ v.born) (hmine : w.Mine d t r) :
    v.refuses t r = w.refuses t r := by
  have clash : ∀ {db : Db S}, db.Sound → (∀ r' ∈ db.rows t, S.key t r' = S.key t r → (t, S.key t r', d) ∈ db.born) →
      ∀ r' ∈ db.rows t, (decide (S.key t r' = S.key t r) || S.clash t r r') = true → (t, S.key t r', d) ∈ db.born := by
    intro db hdb hk r' hr' h
    rcases Bool.or_eq_true_iff.mp h with h | h
    · exact hk r' hr' (of_decide_eq_true h)
    · obtain ⟨d₁, hd₁, hd₁'⟩ := hS.clash h
      obtain ⟨d₂, hborn, hm⟩ := hdb.mine hr'
      obtain rfl := hm.owner d₁ hd₁'
      obtain rfl := hmine.owner d₁ hd₁
      exact hborn
  have hany : ∀ {db : Db S}, db.Sound →
      (∀ r' ∈ db.rows t, S.key t r' = S.key t r → (t, S.key t r', d) ∈ db.born) →
      ((db.rows t).any fun r' => S.key t r' = S.key t r || S.clash t r r') =
        (db.of d t).any fun r' => S.key t r' = S.key t r || S.clash t r r' := by
    intro db hdb hk
    rw [Bool.eq_iff_iff, List.any_eq_true, List.any_eq_true]
    constructor
    · rintro ⟨r', hr', h⟩
      exact ⟨r', mem_of.mpr ⟨hr', clash hdb hk r' hr' h⟩, h⟩
    · rintro ⟨r', hr', h⟩
      exact ⟨r', (mem_of.mp hr').1, h⟩
  have hall : (S.refs t r).all v.has = (S.refs t r).all w.has := by
    rw [Bool.eq_iff_iff, List.all_eq_true, List.all_eq_true]
    apply forall₂_congr
    intro q hq
    rw [has_eq_of (hmine.refs q hq), has_eq_of (hsim.born (hmine.refs q hq)), hsim.of]
  unfold Db.refuses
  rw [hany hv hkey', hany hw hkey, hsim.of, hall]

end

/-! ## Changes of the rows -/

section
variable {db w v w' : Db S} {d d' : D} {t t' : S.Table} {k : K} {r : S.Row t}

omit [DecidableEq S.Table] [DecidableEq K] [DecidableEq D] in
/-- A change that keeps what is selected, selected after or before. -/
theorem filter_filterMap_comm {α : Type} {p : α → Bool} {h : α → Option α} {l : List α}
    (hp : ∀ a ∈ l, ∀ b, h a = some b → p b = p a) : (l.filterMap h).filter p = (l.filter p).filterMap h := by
  induction l with
  | nil => rfl
  | cons a l ih =>
      obtain ⟨ha, hl⟩ := List.forall_mem_cons.mp hp
      cases hh : h a with
      | none =>
          rw [List.filterMap_cons_none hh, ih hl, List.filter_cons]
          split
          · rw [List.filterMap_cons_none hh]
          · rfl
      | some b =>
          rw [List.filterMap_cons_some hh, List.filter_cons, List.filter_cons, ha b hh, ih hl]
          split
          · rw [List.filterMap_cons_some hh]
          · rfl

omit [DecidableEq S.Table] [DecidableEq K] [DecidableEq D] in
theorem filterMap_eq_self {α : Type} {h : α → Option α} {l : List α} (hl : ∀ a ∈ l, h a = some a) : l.filterMap h = l := by
  rw [List.filterMap_congr hl, List.filterMap_some]

/-- The rows of an owner in the table that changes, and in the others. -/
theorem of_setRows {rows : List (S.Row t)} (hrows : rows.filter (fun r => (t, S.key t r, d) ∈ db.born) = db.of d t) :
    (db.setRows t rows).of d = db.of d := by
  funext t'
  by_cases ht : t' = t
  · subst ht
    show (update db.rows t' rows t').filter _ = db.of d t'
    rw [Function.update_self]
    exact hrows
  · show (update db.rows t rows t').filter _ = db.of d t'
    rw [Function.update_of_ne ht]
    rfl

/-- The rows of an owner change alike in two databases that have the same of them. -/
theorem of_setRows_congr {rows rows' : List (S.Row t)} (hof : w.of d = v.of d)
    (hrows : rows.filter (fun r => (t, S.key t r, d) ∈ w.born) = rows'.filter fun r => (t, S.key t r, d) ∈ v.born) :
    (w.setRows t rows).of d = (v.setRows t rows').of d := by
  funext t'
  by_cases ht : t' = t
  · subst ht
    show (update w.rows t' rows t').filter _ = (update v.rows t' rows' t').filter _
    rw [Function.update_self, Function.update_self]
    exact hrows
  · show (update w.rows t rows t').filter _ = (update v.rows t rows' t').filter _
    rw [Function.update_of_ne ht, Function.update_of_ne ht]
    exact congrFun hof t'

end

/-! ## Sound databases -/

section
variable {db w w' : Db S} {d : D} {t t' : S.Table} {k : K} {r : S.Row t} {q : S.Table × K}

omit [DecidableEq S.Table] [DecidableEq D] in
theorem has_iff : db.has q = true ↔ ∃ r ∈ db.rows q.1, S.key q.1 r = q.2 := by
  simp only [Db.has, List.any_eq_true, decide_eq_true_eq]

omit [DecidableEq S.Table] [DecidableEq D] in
theorem Db.start_sound : (Db.start : Db S).Sound :=
  ⟨fun h => absurd h List.not_mem_nil, fun _ => List.nodup_nil, fun h => absurd h List.not_mem_nil,
    fun h => absurd h List.not_mem_nil⟩

omit [DecidableEq S.Table] [DecidableEq D] in
theorem not_mem_of_refuses (h : db.refuses t r = none) {x : S.Row t} (hx : x ∈ db.rows t) : S.key t x ≠ S.key t r := by
  intro hkey
  have hany : ((db.rows t).any fun r' => S.key t r' = S.key t r || S.clash t r r') = true :=
    List.any_eq_true.mpr ⟨x, hx, by simp [hkey]⟩
  unfold Db.refuses at h
  rw [if_pos hany] at h
  split at h <;> cases h

omit [DecidableEq S.Table] [DecidableEq D] in
theorem has_of_refuses (h : db.refuses t r = none) (hq : q ∈ S.refs t r) : db.has q = true := by
  unfold Db.refuses at h
  split at h
  next => cases h
  next =>
    split at h
    next => cases h
    next =>
      split at h
      next hall => exact List.all_eq_true.mp hall q hq
      next => cases h

omit [DecidableEq D] in
theorem Db.Sound.add (hw : w.Sound) {born : List (S.Table × K × D)} (hsub : w.born ⊆ born)
    (hfun : ∀ {t k d d'}, (t, k, d) ∈ born → (t, k, d') ∈ born → d = d') (hr : (t, S.key t r, d) ∈ born)
    (hmine : (⟨w.rows, born⟩ : Db S).Mine d t r) (hrefuses : w.refuses t r = none) :
    Db.Sound (⟨update w.rows t (w.rows t ++ [r]), born⟩ : Db S) := by
  have hrows : ∀ {t'} {x : S.Row t'}, x ∈ update w.rows t (w.rows t ++ [r]) t' →
      x ∈ w.rows t' ∨ ∃ h : t' = t, x = h ▸ r := by
    intro t' x hx
    by_cases ht : t' = t
    · subst ht
      rw [Function.update_self] at hx
      rcases List.mem_append.mp hx with hx | hx
      · exact Or.inl hx
      · exact Or.inr ⟨rfl, List.mem_singleton.mp hx⟩
    · rw [Function.update_of_ne ht] at hx
      exact Or.inl hx
  have hkeep : ∀ {t'} {x : S.Row t'}, x ∈ w.rows t' → x ∈ update w.rows t (w.rows t ++ [r]) t' := by
    intro t' x hx
    by_cases ht : t' = t
    · subst ht
      rw [Function.update_self]
      exact List.mem_append_left _ hx
    · rwa [Function.update_of_ne ht]
  have hhas : ∀ {q}, w.has q = true → (⟨update w.rows t (w.rows t ++ [r]), born⟩ : Db S).has q = true := by
    intro q hq
    obtain ⟨x, hx, hk⟩ := has_iff.mp hq
    exact has_iff.mpr ⟨x, hkeep hx, hk⟩
  refine ⟨hfun, fun t' => ?_, fun {t'} {x} hx => ?_, fun {t'} {x} hx q hq => ?_⟩
  · by_cases ht : t' = t
    · subst ht
      show ((update w.rows t' (w.rows t' ++ [r]) t').map (S.key t')).Nodup
      rw [Function.update_self, List.map_append, List.map_singleton]
      refine List.nodup_append.mpr ⟨hw.keys t', List.pairwise_singleton _ _, fun k hk k' hk' => ?_⟩
      obtain ⟨x, hx, rfl⟩ := List.mem_map.mp hk
      rw [List.mem_singleton.mp hk']
      exact not_mem_of_refuses hrefuses hx
    · show ((update w.rows t (w.rows t ++ [r]) t').map (S.key t')).Nodup
      rw [Function.update_of_ne ht]
      exact hw.keys t'
  · rcases hrows hx with hx | ⟨rfl, rfl⟩
    · obtain ⟨d', hd', hm⟩ := hw.mine hx
      exact ⟨d', hsub hd', hm.mono hsub⟩
    · exact ⟨d, hr, hmine.owner, hmine.refs⟩
  · rcases hrows hx with hx | ⟨rfl, rfl⟩
    · exact hhas (hw.refs hx q hq)
    · exact hhas (has_of_refuses hrefuses hq)

omit [DecidableEq D] in
theorem Db.Sound.insert (hw : w.Sound) (hk : ¬ w.Used t k) (hkey : S.key t r = k) (hmine : w.Mine d t r)
    (hrefuses : w.refuses t r = none) :
    Db.Sound { w.setRows t (w.rows t ++ [r]) with born := (t, S.key t r, d) :: w.born } := by
  refine hw.add (List.subset_cons_self _ _) (fun {t₁ k₁ d₁ d₂} h₁ h₂ => ?_) List.mem_cons_self
    (hmine.mono (List.subset_cons_self _ _)) hrefuses
  have hnew : ∀ {d₃}, (t₁, k₁, d₃) ∈ w.born → (t₁, k₁) ≠ (t, S.key t r) := by
    intro d₃ h₃ heq
    obtain ⟨rfl, rfl⟩ := Prod.mk.inj heq
    rw [hkey] at h₃
    exact hk ⟨d₃, h₃⟩
  rcases List.mem_cons.mp h₁ with e₁ | h₁ <;> rcases List.mem_cons.mp h₂ with e₂ | h₂
  · exact (Prod.mk.inj (Prod.mk.inj e₁).2).2.trans (Prod.mk.inj (Prod.mk.inj e₂).2).2.symm
  · obtain ⟨ht, e⟩ := Prod.mk.inj e₁
    exact absurd (Prod.mk.injEq .. ▸ ⟨ht, (Prod.mk.inj e).1⟩) (hnew h₂)
  · obtain ⟨ht, e⟩ := Prod.mk.inj e₂
    exact absurd (Prod.mk.injEq .. ▸ ⟨ht, (Prod.mk.inj e).1⟩) (hnew h₁)
  · exact hw.born h₁ h₂

omit [DecidableEq D] in
theorem Db.Sound.modify (hw : w.Sound) {f : Int → S.Row t → S.Row t} (hf : Keeps t f) (k : K) (now : Int) :
    (w.setRows t ((w.rows t).map fun r => if S.key t r = k then f now r else r)).Sound := by
  let g : S.Row t → S.Row t := fun r => if S.key t r = k then f now r else r
  have hg : ∀ r, S.key t (g r) = S.key t r ∧ S.owner t (g r) = S.owner t r ∧ S.refs t (g r) = S.refs t r := by
    intro r
    show S.key t (if _ then _ else _) = _ ∧ S.owner t (if _ then _ else _) = _ ∧ S.refs t (if _ then _ else _) = _
    split
    · exact hf now r
    · exact ⟨rfl, rfl, rfl⟩
  have hrows : ∀ {t'} {x : S.Row t'}, x ∈ update w.rows t ((w.rows t).map g) t' → ∃ y ∈ w.rows t',
      S.key t' x = S.key t' y ∧ S.owner t' x = S.owner t' y ∧ S.refs t' x = S.refs t' y := by
    intro t' x hx
    by_cases ht : t' = t
    · subst ht
      rw [Function.update_self] at hx
      obtain ⟨y, hy, rfl⟩ := List.mem_map.mp hx
      exact ⟨y, hy, hg y⟩
    · rw [Function.update_of_ne ht] at hx
      exact ⟨x, hx, rfl, rfl, rfl⟩
  have hhas : ∀ {q}, w.has q = true → (w.setRows t ((w.rows t).map g)).has q = true := by
    rintro ⟨t', k'⟩ hq
    obtain ⟨x, hx, hk⟩ := has_iff.mp hq
    apply has_iff.mpr
    by_cases ht : t' = t
    · subst ht
      refine ⟨g x, ?_, (hg x).1.trans hk⟩
      show g x ∈ update w.rows t' ((w.rows t').map g) t'
      rw [Function.update_self]
      exact List.mem_map_of_mem hx
    · refine ⟨x, ?_, hk⟩
      show x ∈ update w.rows t ((w.rows t).map g) t'
      rwa [Function.update_of_ne ht]
  refine ⟨hw.born, fun t' => ?_, fun {t'} {x} hx => ?_, fun {t'} {x} hx q hq => ?_⟩
  · by_cases ht : t' = t
    · subst ht
      show ((update w.rows t' ((w.rows t').map g) t').map (S.key t')).Nodup
      have hkeys : S.key t' ∘ g = S.key t' := funext fun r => (hg r).1
      rw [Function.update_self, List.map_map, hkeys]
      exact hw.keys t'
    · show ((update w.rows t ((w.rows t).map g) t').map (S.key t')).Nodup
      rw [Function.update_of_ne ht]
      exact hw.keys t'
  · obtain ⟨y, hy, hkey, howner, hrefs⟩ := hrows hx
    obtain ⟨d', hd', hm⟩ := hw.mine hy
    exact ⟨d', by rwa [hkey], ⟨by rw [howner]; exact hm.owner, by rw [hrefs]; exact hm.refs⟩⟩
  · obtain ⟨y, hy, -, -, hrefs⟩ := hrows hx
    rw [hrefs] at hq
    exact hhas (hw.refs hy q hq)

omit [DecidableEq D] in
theorem Db.Sound.delete (hS : S.Lawful) (hw : w.Sound) (ht : S.Shallow t) (k : K) :
    Db.Sound { w with rows := w.afterDelete t k } := by
  have hrows : ∀ {t'} {x : S.Row t'}, x ∈ w.afterDelete t k t' → ∃ y ∈ w.rows t', S.onDelete (t, k) t' y = some x := by
    intro t' x hx
    obtain ⟨y, hy, hxy⟩ := List.mem_filterMap.mp hx
    exact ⟨y, (List.mem_filter.mp hy).1, hxy⟩
  refine ⟨hw.born, fun t' => ?_, fun {t'} {x} hx => ?_, fun {t'} {x} hx q hq => ?_⟩
  · -- what is left of the rows has some of their keys
    have hsub : ∀ l : List (S.Row t'), ((l.filterMap (S.onDelete (t, k) t')).map (S.key t')).Sublist (l.map (S.key t')) := by
      intro l
      induction l with
      | nil => exact List.Sublist.refl _
      | cons a l ih =>
          cases ha : S.onDelete (t, k) t' a with
          | none =>
              rw [List.filterMap_cons_none ha]
              exact ih.cons _
          | some b =>
              rw [List.filterMap_cons_some ha, List.map_cons, List.map_cons, (hS.onDelete_keeps ha).1]
              exact ih.cons_cons _
    exact (hw.keys t').sublist ((hsub _).trans (List.filter_sublist.map _))
  · obtain ⟨y, hy, hxy⟩ := hrows hx
    obtain ⟨hkey, howner, hrefs, -⟩ := hS.onDelete_keeps hxy
    obtain ⟨d', hd', hm⟩ := hw.mine hy
    exact ⟨d', by rwa [hkey], ⟨by rw [howner]; exact hm.owner, fun q hq => hm.refs q (hrefs hq)⟩⟩
  · obtain ⟨y, hy, hxy⟩ := hrows hx
    obtain ⟨-, -, hrefs, hne⟩ := hS.onDelete_keeps hxy
    obtain ⟨z, hz, hkey⟩ := has_iff.mp (hw.refs hy q (hrefs hq))
    -- the row it refers to is neither the one deleted nor one that goes with it
    have hstays : ¬ (q.1 = t ∧ S.key q.1 z = k) := by
      rintro ⟨hqt, hzk⟩
      apply hne
      have hqk : q.2 = k := hkey.symm.trans hzk
      rwa [← hqt, ← hqk]
    have hleft : ∃ z', S.onDelete (t, k) q.1 z = some z' := by
      cases hz' : S.onDelete (t, k) q.1 z with
      | none => exact absurd (hrefs hq) (ht k q.1 z hz' q.2 t' y)
      | some z' => exact ⟨z', rfl⟩
    obtain ⟨z', hz'⟩ := hleft
    refine has_iff.mpr ⟨z', ?_, (hS.onDelete_keeps hz').1.trans hkey⟩
    exact List.mem_filterMap.mpr ⟨z, List.mem_filter.mpr ⟨hz, decide_eq_true hstays⟩, hz'⟩

omit [DecidableEq D] in
theorem Db.Sound.deleteAll (hS : S.Lawful) (hw : w.Sound) (ht : S.Shallow t) (ks : List K) :
    (w.deleteAll t ks).Sound := by
  induction ks generalizing w with
  | nil => exact hw
  | cons k ks ih => exact ih (hw.delete hS ht k)

end

/-! ## One statement -/

section
variable {db w v w' : Db S} {d d' : D} {t t' : S.Table} {k : K} {r : S.Row t} {ch : DbChoice K} {s : Stmt S}
  {reply : s.Reply}

/-- A statement of another owner changes no row of the owner, and generates no key for it. -/
structure Frame (d : D) (w w' : Db S) : Prop where
  of : w'.of d = w.of d
  born : w.born ⊆ w'.born
  mine : ∀ {t k}, (t, k, d) ∈ w'.born → (t, k, d) ∈ w.born

omit [DecidableEq S.Table] [DecidableEq K] [DecidableEq D] in
theorem frame_or {α : Type} {P : Db S → Prop} {e : DbError} {a : α} {outcome : Outcome} {reply : Except DbError α}
    {w₁ : Db S} (h : outcome.answer e a w w₁ = (reply, w')) (hw : P w) (hw₁ : P w₁) : P w' := by
  rcases Outcome.answer_cases h with ⟨rfl, -⟩ | ⟨-, rfl | rfl⟩
  exacts [hw₁, hw, hw₁]

theorem Frame.refl (d : D) (w : Db S) : Frame d w w := ⟨rfl, List.Subset.refl _, id⟩

omit [DecidableEq S.Table] [DecidableEq D] in
/-- A key that was not generated is in no row. -/
theorem Db.Sound.key_ne (hw : w.Sound) (hk : ¬ w.Used t k) {x : S.Row t} (hx : x ∈ w.rows t) : S.key t x ≠ k := by
  rintro rfl
  obtain ⟨d, hd, -⟩ := hw.mine hx
  exact hk ⟨d, hd⟩

theorem frame_insert (hne : d' ≠ d) (hkey : S.key t r = k) (hk : ¬ w.Used t k) :
    Frame d w { w.setRows t (w.rows t ++ [r]) with born := (t, S.key t r, d') :: w.born } := by
  have hborn : ∀ {t₁ k₁}, (t₁, k₁, d) ∈ (t, S.key t r, d') :: w.born ↔ (t₁, k₁, d) ∈ w.born := by
    intro t₁ k₁
    refine ⟨fun h => ?_, fun h => List.mem_cons_of_mem _ h⟩
    rcases List.mem_cons.mp h with h | h
    · obtain rfl : d = d' := (Prod.mk.inj (Prod.mk.inj h).2).2
      exact absurd rfl hne
    · exact h
  refine ⟨?_, List.subset_cons_self _ _, fun h => hborn.mp h⟩
  have hrows : (w.setRows t (w.rows t ++ [r])).of d = w.of d := by
    apply of_setRows
    rw [List.filter_append, List.filter_singleton]
    have hnot : (t, S.key t r, d) ∉ w.born := by
      rw [hkey]
      exact fun h => hk ⟨d, h⟩
    rw [decide_eq_false hnot, Bool.cond_false, List.append_nil]
    rfl
  rw [← hrows]
  funext t₁
  exact filter_born_congr fun r₁ _ => hborn

theorem frame_insertAs (hw : w.Sound) (hne : d' ≠ d) (hr : (t, S.key t r, d') ∈ w.born) :
    Frame d w (w.setRows t (w.rows t ++ [r])) := by
  refine ⟨of_setRows ?_, List.Subset.refl _, id⟩
  have hnot : (t, S.key t r, d) ∉ w.born := fun h => hne (hw.born hr h)
  rw [List.filter_append, List.filter_singleton, decide_eq_false hnot, Bool.cond_false, List.append_nil]
  rfl

theorem frame_modify (hw : w.Sound) (hne : d' ≠ d) (hk : (t, k, d') ∈ w.born) {f : Int → S.Row t → S.Row t}
    (hf : Keeps t f) (now : Int) :
    Frame d w (w.setRows t ((w.rows t).map fun r => if S.key t r = k then f now r else r)) := by
  refine ⟨of_setRows ?_, List.Subset.refl _, id⟩
  have hkey : ∀ r, S.key t (if S.key t r = k then f now r else r) = S.key t r := by
    intro r
    split
    · exact (hf now r).1
    · rfl
  rw [List.filter_map, Db.of]
  have hsame : (fun r => decide ((t, S.key t r, d) ∈ w.born)) ∘ (fun r => if S.key t r = k then f now r else r) =
      fun r => decide ((t, S.key t r, d) ∈ w.born) := by
    funext r
    show decide ((t, S.key t (if S.key t r = k then f now r else r), d) ∈ w.born) = _
    rw [hkey]
  have hrow : ∀ r ∈ w.of d t, (if S.key t r = k then f now r else r) = id r := by
    intro r hr
    apply if_neg
    rintro rfl
    exact hne (hw.born hk (mem_of.mp hr).2)
  rw [hsame]
  exact (List.map_congr_left hrow).trans (List.map_id _)

theorem of_afterDelete (hS : S.Lawful) (db : Db S) (d : D) (t : S.Table) (k : K) (t' : S.Table) :
    (db.afterDelete t k t').filter (fun r => (t', S.key t' r, d) ∈ db.born) =
      ((db.of d t').filter fun r => ¬ (t' = t ∧ S.key t' r = k)).filterMap (S.onDelete (t, k) t') := by
  rw [Db.afterDelete, filter_filterMap_comm, Db.of, List.filter_filter, List.filter_filter]
  · congr 2
    funext r
    exact Bool.and_comm _ _
  · intro r _ r' hr'
    rw [(hS.onDelete_keeps hr').1]

theorem frame_delete (hS : S.Lawful) (hw : w.Sound) (hne : d' ≠ d) (hk : (t, k, d') ∈ w.born) :
    Frame d w { w with rows := w.afterDelete t k } := by
  refine ⟨funext fun t' => ?_, List.Subset.refl _, id⟩
  refine (of_afterDelete hS w d t k t').trans ?_
  have hrow : ∀ r ∈ w.of d t', ¬ (t' = t ∧ S.key t' r = k) ∧ S.onDelete (t, k) t' r = some r := by
    intro r hr
    obtain ⟨hr, hd⟩ := mem_of.mp hr
    constructor
    · rintro ⟨rfl, rfl⟩
      exact hne (hw.born hk hd)
    · apply hS.onDelete_other
      intro href
      obtain ⟨d₁, hd₁, hmine⟩ := hw.mine hr
      obtain rfl := hw.born hd₁ hd
      exact hne (hw.born hk (hmine.refs _ href))
  rw [List.filter_eq_self.mpr fun r hr => decide_eq_true (hrow r hr).1, filterMap_eq_self fun r hr => (hrow r hr).2]

theorem Frame.trans {w₁ w₂ : Db S} (h : Frame d w w₁) (h' : Frame d w₁ w₂) : Frame d w w₂ :=
  ⟨h'.of.trans h.of, List.Subset.trans h.born h'.born, fun hk => h.mine (h'.mine hk)⟩

omit [DecidableEq D] in
theorem born_deleteAll (db : Db S) (t : S.Table) (ks : List K) : (db.deleteAll t ks).born = db.born := by
  induction ks generalizing db with
  | nil => rfl
  | cons k ks ih => exact ih _

theorem frame_deleteAll (hS : S.Lawful) (hw : w.Sound) (hne : d' ≠ d) (ht : S.Shallow t) {ks : List K}
    (hks : ∀ k ∈ ks, (t, k, d') ∈ w.born) : Frame d w (w.deleteAll t ks) := by
  induction ks generalizing w with
  | nil => exact Frame.refl d w
  | cons k ks ih =>
      obtain ⟨hk, hks⟩ := List.forall_mem_cons.mp hks
      exact (frame_delete hS hw hne hk).trans (ih (hw.delete hS ht k) hks)

omit [DecidableEq S.Table] [DecidableEq K] [DecidableEq D] in
/-- The keys of the rows that a condition picks, all of an owner. -/
theorem keys_born {p : S.Row t → Bool} (hp : ∀ r ∈ w.rows t, p r = true → (t, S.key t r, d) ∈ w.born) :
    ∀ k ∈ ((w.rows t).filter p).map (S.key t), (t, k, d) ∈ w.born := by
  intro k hk
  obtain ⟨r, hr, rfl⟩ := List.mem_map.mp hk
  obtain ⟨hmem, hpr⟩ := List.mem_filter.mp hr
  exact hp r hmem hpr

/-- **A statement of another owner.** -/
theorem run_frame (hS : S.Lawful) (hw : w.Sound) (hs : Permitted d' w s) (hne : d' ≠ d)
    (h : s.run ch w = some (reply, w')) : Frame d w w' := by
  cases s with
  | find t p =>
      obtain ⟨rfl, -⟩ := Outcome.answer_read (Option.some.inj h)
      exact Frame.refl d w'
  | insert t d₁ row =>
      obtain ⟨rfl, hrow⟩ := hs
      simp only [Stmt.run] at h
      split at h
      next => cases h
      next hk =>
        split at h
        next =>
          obtain ⟨-, rfl⟩ := Prod.mk.inj (Option.some.inj h)
          exact Frame.refl d w
        next => exact frame_or (Option.some.inj h) (Frame.refl d w) (frame_insert hne (hrow _ _).1 hk)
  | insertAs t d₁ row =>
      obtain ⟨rfl, hborn, -⟩ := hs
      simp only [Stmt.run] at h
      split at h
      next =>
        obtain ⟨-, rfl⟩ := Prod.mk.inj (Option.some.inj h)
        exact Frame.refl d w
      next => exact frame_or (Option.some.inj h) (Frame.refl d w) (frame_insertAs hw hne hborn)
  | modify t k f =>
      simp only [Stmt.run] at h
      split at h
      next =>
        obtain ⟨-, rfl⟩ := Prod.mk.inj (Option.some.inj h)
        exact Frame.refl d w
      next => exact frame_or (Option.some.inj h) (Frame.refl d w) (frame_modify hw hne hs.1 hs.2 _)
  | delete t k => exact frame_or (Option.some.inj h) (Frame.refl d w) (frame_delete hS hw hne hs.1)
  | clear t p => exact frame_or (Option.some.inj h) (Frame.refl d w) (frame_deleteAll hS hw hne hs.2 (keys_born hs.1))

theorem run_of_other (hS : S.Lawful) (hw : w.Sound) (hs : Permitted d' w s) (hne : d' ≠ d)
    (h : s.run ch w = some (reply, w')) (hsim : Db.Sim d w v) : Db.Sim d w' v := by
  have hf := run_frame hS hw hs hne h
  refine ⟨hf.of.trans hsim.of, fun hk => hsim.born (hf.mine hk), fun hk => ?_⟩
  obtain ⟨d₁, hd₁⟩ := hsim.used hk
  exact ⟨d₁, hf.born hd₁⟩

end

/-! ## Statements of one owner in two databases -/

section
variable {db w v w' : Db S} {d d' : D} {t t' : S.Table} {k : K} {r : S.Row t} {ch : DbChoice K} {s : Stmt S}
  {reply : s.Reply}

omit [DecidableEq S.Table] [DecidableEq K] [DecidableEq D] in
/-- The same answer in both, and the same effect or none. -/
theorem answer_own {α : Type} {P : Db S → Db S → Prop} {e : DbError} {a : α} {outcome : Outcome}
    {reply : Except DbError α} {w₁ v₁ : Db S} (h : outcome.answer e a w w₁ = (reply, w')) (hwv : P w v)
    (hwv₁ : P w₁ v₁) : ∃ v', some (outcome.answer e a v v₁) = some (reply, v') ∧ P w' v' := by
  cases outcome <;> obtain ⟨rfl, rfl⟩ := Prod.mk.inj h
  exacts [⟨v₁, rfl, hwv₁⟩, ⟨v, rfl, hwv⟩, ⟨v₁, rfl, hwv₁⟩]

theorem sim_insert (hw : w.Sound) (hv : v.Sound) (hsim : Db.Sim d w v) (hkey : S.key t r = k) (hk : ¬ w.Used t k) :
    Db.Sim d { w.setRows t (w.rows t ++ [r]) with born := (t, S.key t r, d) :: w.born }
      { v.setRows t (v.rows t ++ [r]) with born := (t, S.key t r, d) :: v.born } := by
  have hk' : ¬ v.Used t k := fun h => hk (hsim.used h)
  have hold : ∀ {db : Db S}, db.Sound → ¬ db.Used t k → ∀ x ∈ db.rows t,
      (t, S.key t x, d) ∈ (t, S.key t r, d) :: db.born ↔ (t, S.key t x, d) ∈ db.born := by
    intro db hdb hused x hx
    refine ⟨fun h => ?_, fun h => List.mem_cons_of_mem _ h⟩
    rcases List.mem_cons.mp h with h | h
    · obtain h := (Prod.mk.inj (Prod.mk.inj h).2).1
      exact absurd (h.trans hkey) (hdb.key_ne hused hx)
    · exact h
  have hnew : ∀ {db : Db S}, db.Sound → ¬ db.Used t k →
      (db.rows t ++ [r]).filter (fun x => (t, S.key t x, d) ∈ (t, S.key t r, d) :: db.born) = db.of d t ++ [r] := by
    intro db hdb hused
    rw [List.filter_append, filter_born_congr (hold hdb hused), List.filter_singleton,
      decide_eq_true List.mem_cons_self]
    rfl
  refine ⟨?_, ?_, ?_⟩
  · funext t'
    by_cases ht : t' = t
    · subst ht
      show (update w.rows t' _ t').filter _ = (update v.rows t' _ t').filter _
      rw [Function.update_self, Function.update_self, hnew hw hk, hnew hv hk', hsim.of]
    · have hother : ∀ {db : Db S} (x : S.Row t'), (t', S.key t' x, d) ∈ (t, S.key t r, d) :: db.born ↔
          (t', S.key t' x, d) ∈ db.born := by
        intro db x
        rw [List.mem_cons, Prod.mk.injEq, or_iff_right]
        exact fun h => ht h.1
      show (update w.rows t _ t').filter _ = (update v.rows t _ t').filter _
      rw [Function.update_of_ne ht, Function.update_of_ne ht, filter_born_congr fun x _ => hother x,
        filter_born_congr fun x _ => hother x]
      exact congrFun hsim.of t'
  · intro t₁ k₁ h
    rcases List.mem_cons.mp h with h | h
    · rw [h]
      exact List.mem_cons_self
    · exact List.mem_cons_of_mem _ (hsim.born h)
  · rintro t₁ k₁ ⟨d₁, hd₁⟩
    rcases List.mem_cons.mp hd₁ with h | h
    · exact ⟨d, by rw [(Prod.mk.inj h).1, (Prod.mk.inj (Prod.mk.inj h).2).1]; exact List.mem_cons_self⟩
    · obtain ⟨d₂, hd₂⟩ := hsim.used ⟨d₁, h⟩
      exact ⟨d₂, List.mem_cons_of_mem _ hd₂⟩

theorem sim_setRows {rows rows' : List (S.Row t)} (hsim : Db.Sim d w v)
    (hrows : rows.filter (fun r => (t, S.key t r, d) ∈ w.born) = rows'.filter fun r => (t, S.key t r, d) ∈ v.born) :
    Db.Sim d (w.setRows t rows) (v.setRows t rows') :=
  ⟨of_setRows_congr hsim.of hrows, hsim.born, hsim.used⟩

theorem sim_modify (hsim : Db.Sim d w v) {f : Int → S.Row t → S.Row t} (hf : Keeps t f) (k : K) (now : Int) :
    Db.Sim d (w.setRows t ((w.rows t).map fun r => if S.key t r = k then f now r else r))
      (v.setRows t ((v.rows t).map fun r => if S.key t r = k then f now r else r)) := by
  have hkey : ∀ r, S.key t (if S.key t r = k then f now r else r) = S.key t r := by
    intro r
    split
    · exact (hf now r).1
    · rfl
  have hmap : ∀ db : Db S, ((db.rows t).map fun r => if S.key t r = k then f now r else r).filter
      (fun r => (t, S.key t r, d) ∈ db.born) = (db.of d t).map fun r => if S.key t r = k then f now r else r := by
    intro db
    rw [List.filter_map, Db.of]
    congr 2
    funext r
    show decide ((t, S.key t (if S.key t r = k then f now r else r), d) ∈ db.born) = _
    rw [hkey]
  apply sim_setRows hsim
  rw [hmap w, hmap v, hsim.of]

theorem sim_delete (hS : S.Lawful) (hsim : Db.Sim d w v) (t : S.Table) (k : K) :
    Db.Sim d { w with rows := w.afterDelete t k } { v with rows := v.afterDelete t k } := by
  refine ⟨funext fun t' => ?_, hsim.born, hsim.used⟩
  refine (of_afterDelete hS w d t k t').trans ((of_afterDelete hS v d t k t').trans ?_).symm
  rw [hsim.of]

theorem sim_deleteAll (hS : S.Lawful) (hsim : Db.Sim d w v) (t : S.Table) (ks : List K) :
    Db.Sim d (w.deleteAll t ks) (v.deleteAll t ks) := by
  induction ks generalizing w v with
  | nil => exact hsim
  | cons k ks ih => exact ih (sim_delete hS hsim t k)

/-- **A statement of the owner.** -/
theorem run_of_own (hS : S.Lawful) (hw : w.Sound) (hv : v.Sound) (hs : Permitted d w s) (hs' : Permitted d v s)
    (h : s.run ch w = some (reply, w')) (hsim : Db.Sim d w v) : ∃ v', s.run ch v = some (reply, v') ∧ Db.Sim d w' v' := by
  cases s with
  | find t p =>
      have hfind : (v.rows t).filter p = (w.rows t).filter p := by rw [find_eq_of hs, find_eq_of hs', hsim.of]
      simp only [Stmt.run, hfind]
      exact answer_own (Option.some.inj h) hsim hsim
  | insert t d₁ row =>
      obtain ⟨rfl, hrow⟩ := hs
      simp only [Stmt.run] at h ⊢
      split at h
      next => cases h
      next hk =>
        have hk' : ¬ v.Used t ch.fresh := fun hv => hk (hsim.used hv)
        have hkey := (hrow ch.fresh ch.now).1
        have hrefuses := Db.Sound.refuses_eq hS hw hv hsim
          (fun r' hr' he => absurd (he.trans hkey) (hw.key_ne hk hr'))
          (fun r' hr' he => absurd (he.trans hkey) (hv.key_ne hk' hr')) (hrow ch.fresh ch.now).2
        rw [if_neg hk', hrefuses]
        split at h
        next e he =>
          obtain ⟨rfl, rfl⟩ := Prod.mk.inj (Option.some.inj h)
          exact ⟨v, rfl, hsim⟩
        next he => exact answer_own (Option.some.inj h) hsim (sim_insert hw hv hsim hkey hk)
  | insertAs t d₁ row =>
      obtain ⟨rfl, hborn, hmine⟩ := hs
      have hrefuses := Db.Sound.refuses_eq hS hw hv hsim (fun r' _ he => by rw [he]; exact hborn)
        (fun r' _ he => by rw [he]; exact hsim.born hborn) hmine
      simp only [Stmt.run, hrefuses] at h ⊢
      split at h
      next e he =>
        obtain ⟨rfl, rfl⟩ := Prod.mk.inj (Option.some.inj h)
        exact ⟨v, rfl, hsim⟩
      next he =>
        refine answer_own (Option.some.inj h) hsim (sim_setRows hsim ?_)
        rw [List.filter_append, List.filter_append, List.filter_singleton, List.filter_singleton,
          decide_eq_true hborn, decide_eq_true (hsim.born hborn)]
        exact congrArg (· ++ [row]) (congrFun hsim.of t)
  | modify t k f =>
      have hborn : ∀ {db : Db S}, (t, k, d) ∈ db.born → ∀ r ∈ db.rows t, decide (S.key t r = k) = true →
          (t, S.key t r, d) ∈ db.born := by
        intro db hk r _ hr
        rw [of_decide_eq_true hr]
        exact hk
      have hfind : (v.rows t).filter (fun r => S.key t r = k) = (w.rows t).filter fun r => S.key t r = k := by
        rw [find_eq_of (hborn hs.1), find_eq_of (hborn hs'.1), hsim.of]
      simp only [Stmt.run, hfind] at h ⊢
      split at h
      next hfits =>
        obtain ⟨rfl, rfl⟩ := Prod.mk.inj (Option.some.inj h)
        exact ⟨v, if_pos hfits, hsim⟩
      next hfits =>
        rw [if_neg hfits]
        exact answer_own (Option.some.inj h) hsim (sim_modify hsim hs.2 k _)
  | delete t k => exact answer_own (Option.some.inj h) hsim (sim_delete hS hsim t k)
  | clear t p =>
      have hfind : (v.rows t).filter p = (w.rows t).filter p := by rw [find_eq_of hs.1, find_eq_of hs'.1, hsim.of]
      simp only [Stmt.run, hfind]
      exact answer_own (Option.some.inj h) hsim (sim_deleteAll hS hsim t _)

end

/-! ## What statements keep -/

section
variable {w w' : Db S} {d : D} {ch : DbChoice K} {s : Stmt S} {reply : s.Reply}

omit [DecidableEq D] in
/-- **What every permitted statement keeps.** -/
theorem run_sound (hS : S.Lawful) (hw : w.Sound) (hs : Permitted d w s) (h : s.run ch w = some (reply, w')) :
    w'.Sound ∧ w.born ⊆ w'.born := by
  have keep : w.Sound ∧ w.born ⊆ w.born := ⟨hw, List.Subset.refl _⟩
  cases s with
  | find t p =>
      obtain ⟨rfl, -⟩ := Outcome.answer_read (Option.some.inj h)
      exact keep
  | insert t d₁ row =>
      obtain ⟨rfl, hrow⟩ := hs
      simp only [Stmt.run] at h
      split at h
      next => cases h
      next hk =>
        split at h
        next =>
          obtain ⟨-, rfl⟩ := Prod.mk.inj (Option.some.inj h)
          exact keep
        next hrefuses =>
          obtain ⟨hkey, hmine⟩ := hrow ch.fresh ch.now
          exact frame_or (P := fun db => db.Sound ∧ w.born ⊆ db.born) (Option.some.inj h) keep
            ⟨hw.insert hk hkey hmine hrefuses, List.subset_cons_self _ _⟩
  | insertAs t d₁ row =>
      obtain ⟨rfl, hborn, hmine⟩ := hs
      simp only [Stmt.run] at h
      split at h
      next =>
        obtain ⟨-, rfl⟩ := Prod.mk.inj (Option.some.inj h)
        exact keep
      next hrefuses =>
        exact frame_or (P := fun db => db.Sound ∧ w.born ⊆ db.born) (Option.some.inj h) keep
          ⟨hw.add (List.Subset.refl _) hw.born hborn hmine hrefuses, List.Subset.refl _⟩
  | modify t k f =>
      simp only [Stmt.run] at h
      split at h
      next =>
        obtain ⟨-, rfl⟩ := Prod.mk.inj (Option.some.inj h)
        exact keep
      next =>
        exact frame_or (P := fun db => db.Sound ∧ w.born ⊆ db.born) (Option.some.inj h) keep
          ⟨hw.modify hs.2 k _, List.Subset.refl _⟩
  | delete t k =>
      exact frame_or (P := fun db => db.Sound ∧ w.born ⊆ db.born) (Option.some.inj h) keep
        ⟨hw.delete hS hs.2 k, List.Subset.refl _⟩
  | clear t p =>
      exact frame_or (P := fun db => db.Sound ∧ w.born ⊆ db.born) (Option.some.inj h) keep
        ⟨hw.deleteAll hS hs.2 _, (born_deleteAll w t _).symm ▸ List.Subset.refl _⟩

end

end

end TimeChamp.Lib
