import TimeChamp.Lib.Noninterference
import TimeChamp.Lib.Parallel
import TimeChamp.Lib.Repository

/-!
# Requests that stay within the rows of their owner

Requests of several owners on one database. A request may use the column that names the owner, and the keys of rows that
it was given for that.

* `Known` : for whom a request is made, and the keys it has seen; `Known.Allows`, what it may do with them;
* `owning` : the protocol; `guarantees_findOne_owned`, `guarantees_insert`, `guarantees_save`, `guarantees_delete` : its rules;
* `reaches_sound` : what requests that follow it keep;
* `isolated` : **what a request is answered, and the rows of its owner, are as without the requests of other owners**.
-/

namespace TimeChamp.Lib

/-! ## What a request knows -/

/-- For whom a request is made, and the keys of rows that it has seen. -/
structure Known {K D : Type} (S : Schema K D) where
  owner : D
  keys : List (S.Table × K)

section
variable {K D : Type} {S : Schema K D} {L : Type} {A : L → Type}

instance : Preorder (Known S) where
  le m m' := m.owner = m'.owner ∧ m.keys ⊆ m'.keys
  le_refl _ := ⟨rfl, List.Subset.refl _⟩
  le_trans _ _ _ h h' := ⟨h.1.trans h'.1, List.Subset.trans h.2 h'.2⟩

namespace Known

/-- The keys of the rows, and of those they refer to. -/
def learn (m : Known S) (t : S.Table) (rows : List (S.Row t)) : Known S :=
  ⟨m.owner, m.keys ++ rows.flatMap fun r => (t, S.key t r) :: S.refs t r⟩

/-- The request may insert the row. -/
structure Vouches (m : Known S) (t : S.Table) (r : S.Row t) : Prop where
  owner : ∀ d ∈ S.owner t r, d = m.owner
  refs : S.refs t r ⊆ m.keys

/-- The request has seen the row. -/
structure Holds (m : Known S) (t : S.Table) (r : S.Row t) : Prop extends m.Vouches t r where
  key : (t, S.key t r) ∈ m.keys

/-- The row is one of the owner's: it says so, or has a key that was seen, or refers to one. -/
def Sees (m : Known S) (t : S.Table) (r : S.Row t) : Prop :=
  S.owner t r = some m.owner ∨ (t, S.key t r) ∈ m.keys ∨ ∃ q ∈ S.refs t r, q ∈ m.keys

def Allows (m : Known S) : Stmt S → Prop
  | .find t w => ∀ r, w r = true → m.Sees t r
  | .insert t d row => d = m.owner ∧ ∀ k now, S.key t (row k now) = k ∧ m.Vouches t (row k now)
  | .insertAs t d row => d = m.owner ∧ (t, S.key t row) ∈ m.keys ∧ m.Vouches t row
  | .modify t k f => (t, k) ∈ m.keys ∧ Keeps t f
  | .delete t k => (t, k) ∈ m.keys ∧ S.Shallow t
  | .clear t w => (∀ r, w r = true → m.Sees t r) ∧ S.Shallow t

/-- All the keys were generated for the owner. -/
def In (m : Known S) (db : Db S) : Prop := ∀ q ∈ m.keys, (q.1, q.2, m.owner) ∈ db.born

variable {m m' : Known S} {t : S.Table} {rows : List (S.Row t)} {r : S.Row t} {db db' : Db S}

theorem le_learn (m : Known S) (t : S.Table) (rows : List (S.Row t)) : m ≤ m.learn t rows :=
  ⟨rfl, List.subset_append_left _ _⟩

theorem learn_mono (h : m ≤ m') (t : S.Table) (rows : List (S.Row t)) : m.learn t rows ≤ m'.learn t rows :=
  ⟨h.1, List.append_subset.mpr ⟨fun _ hq => List.mem_append_left _ (h.2 hq), List.subset_append_right _ _⟩⟩

theorem key_mem_learn (h : r ∈ rows) : (t, S.key t r) ∈ (m.learn t rows).keys :=
  List.mem_append_right _ (List.mem_flatMap.mpr ⟨r, h, List.mem_cons_self⟩)

theorem refs_subset_learn (h : r ∈ rows) : S.refs t r ⊆ (m.learn t rows).keys := fun _ hq =>
  List.mem_append_right _ (List.mem_flatMap.mpr ⟨r, h, List.mem_cons_of_mem _ hq⟩)

theorem Vouches.mono (h : m.Vouches t r) (hm : m ≤ m') : m'.Vouches t r :=
  ⟨fun d hd => (h.owner d hd).trans hm.1, List.Subset.trans h.refs hm.2⟩

theorem Holds.mono (h : m.Holds t r) (hm : m ≤ m') : m'.Holds t r := ⟨h.toVouches.mono hm, hm.2 h.key⟩

theorem Sees.mono (h : m.Sees t r) (hm : m ≤ m') : m'.Sees t r := by
  rcases h with ho | hk | ⟨q, hq, hk⟩
  · exact Or.inl (by rw [ho, hm.1])
  · exact Or.inr (Or.inl (hm.2 hk))
  · exact Or.inr (Or.inr ⟨q, hq, hm.2 hk⟩)

theorem Allows.mono {s : Stmt S} (h : m.Allows s) (hm : m ≤ m') : m'.Allows s := by
  cases s with
  | find t w => exact fun r hr => (h r hr).mono hm
  | insert t d row => exact ⟨h.1.trans hm.1, fun k now => ⟨(h.2 k now).1, (h.2 k now).2.mono hm⟩⟩
  | insertAs t d row => exact ⟨h.1.trans hm.1, hm.2 h.2.1, h.2.2.mono hm⟩
  | modify t k f => exact ⟨hm.2 h.1, h.2⟩
  | delete t k => exact ⟨hm.2 h.1, h.2⟩
  | clear t w => exact ⟨fun r hr => (h.1 r hr).mono hm, h.2⟩

theorem Vouches.mine (h : m.Vouches t r) (hm : m.In db) : db.Mine m.owner t r :=
  ⟨h.owner, fun q hq => hm q (h.refs hq)⟩

theorem In.mono (h : m.In db) (hborn : db.born ⊆ db'.born) : m.In db' := fun q hq => hborn (h q hq)

/-- Rows of the owner refer to rows of the owner. -/
theorem In.learn [DecidableEq K] (h : m.In db) (hdb : db.Sound)
    (hrows : ∀ r ∈ rows, r ∈ db.rows t ∧ (t, S.key t r, m.owner) ∈ db.born) : (m.learn t rows).In db := by
  intro q hq
  rcases List.mem_append.mp hq with hq | hq
  · exact h q hq
  · obtain ⟨r, hr, hq⟩ := List.mem_flatMap.mp hq
    obtain ⟨hmem, hborn⟩ := hrows r hr
    rcases List.mem_cons.mp hq with rfl | hq
    · exact hborn
    · obtain ⟨d, hd, hmine⟩ := hdb.mine hmem
      obtain rfl := hdb.born hd hborn
      exact hmine.refs q hq

theorem Sees.born [DecidableEq K] (h : m.Sees t r) (hm : m.In db) (hdb : db.Sound) (hr : r ∈ db.rows t) :
    (t, S.key t r, m.owner) ∈ db.born := by
  obtain ⟨d, hd, hmine⟩ := hdb.mine hr
  have hown : d = m.owner := by
    rcases h with ho | hk | ⟨q, hq, hk⟩
    · exact (hmine.owner m.owner ho).symm
    · exact hdb.born hd (hm _ hk)
    · exact hdb.born (hmine.refs q hq) (hm q hk)
  rwa [hown] at hd

/-- **What a request may do stays within the rows of its owner.** -/
theorem Allows.permitted [DecidableEq K] {s : Stmt S} (h : m.Allows s) (hm : m.In db) (hdb : db.Sound) : Permitted m.owner db s := by
  cases s with
  | find t w =>
      intro r hr hw
      exact (h r hw).born hm hdb hr
  | insert t d row => exact ⟨h.1, fun k now => ⟨(h.2 k now).1, (h.2 k now).2.mine hm⟩⟩
  | insertAs t d row => exact ⟨h.1, hm _ h.2.1, h.2.2.mine hm⟩
  | modify t k f => exact ⟨hm _ h.1, h.2⟩
  | delete t k => exact ⟨hm _ h.1, h.2⟩
  | clear t w => exact ⟨fun r hr hw => (h.1 r hw).born hm hdb hr, h.2⟩

end Known

/-! ## The protocol -/

/-- Each request keeps to what it knows, and learns from the rows that it is given. -/
def owning : Protocol (TableOp S L) (TableOp.Reply A) (Known S) where
  pre m
    | .stmt s => m.Allows s
    | .ask _ => True
    | .turn => True
  post m
    | .stmt (.find t w), .ok rows, m' => (∀ r ∈ rows, w r = true) ∧ m' = m.learn t rows
    | .stmt (.insert t _ row), .ok r, m' => (∃ k now, r = row k now) ∧ m' = m.learn t [r]
    | _, _, m' => m' = m

theorem owning_monotone : (owning (S := S) (A := A)).Monotone where
  pre {m m' e} h hm := by
    cases e with
    | stmt s => exact Known.Allows.mono h hm
    | ask l => trivial
    | turn => trivial
  grows {m e r m'} h := by
    simp only [owning] at h
    split at h
    next t w rows => exact h.2 ▸ m.le_learn t rows
    next t d row r => exact h.2 ▸ m.le_learn t [r]
    next => exact h ▸ le_rfl
  post {m m' e r m''} h hm := by
    simp only [owning] at h ⊢
    split at h
    next t w rows => exact ⟨m.learn t rows, ⟨h.1, rfl⟩, h.2 ▸ Known.learn_mono hm t rows⟩
    next t d row r => exact ⟨m.learn t [r], ⟨h.1, rfl⟩, h.2 ▸ Known.learn_mono hm t [r]⟩
    next => exact ⟨m, rfl, h ▸ hm⟩

/-! ### Rules -/

section
variable {X α : Type} {m : Known S} {Q : Known S → α → Prop}

theorem guarantees_orThrow {P : Protocol (TableOp S L) (TableOp.Reply A) (Known S)} {answer : Except DbError α}
    (h : ∀ a, answer = .ok a → Q m a) : Guarantees P Q m (orThrow answer : Querying S A X α) := by
  cases answer with
  | ok a => exact guarantees_pure (h a rfl)
  | error e => exact guarantees_throw _

theorem guarantees_ask {l : L} {Q : Known S → A l → Prop} (h : ∀ r, Q m r) :
    Guarantees owning Q m (ask l : Querying S A X (A l)) := by
  refine guarantees_lift (e := TableOp.ask l) trivial fun r m' hm' => ?_
  obtain rfl : m' = m := hm'
  exact h r

theorem guarantees_query {s : Stmt S} {Q : Known S → s.Reply → Prop} (hs : m.Allows s)
    (h : ∀ r m', (owning (A := A)).post m (.stmt s) r m' → Q m' r) :
    Guarantees owning Q m (query s : Querying S A X s.Reply) := guarantees_lift hs h

theorem guarantees_find {t : S.Table} {w : S.Row t → Bool} {Q : Known S → List (S.Row t) → Prop}
    (hs : m.Allows (.find t w)) (h : ∀ rows, (∀ r ∈ rows, w r = true) → Q (m.learn t rows) rows) :
    Guarantees owning Q m (find t w : Querying S A X (List (S.Row t))) := by
  refine Guarantees.bind (guarantees_query hs (Q := fun m' r => ∀ rows, r = Except.ok rows → Q m' rows) ?_) ?_
  · rintro _ m' hm' rows rfl
    obtain ⟨hrows, rfl⟩ := hm'
    exact h rows hrows
  · intro m' r hr
    exact guarantees_orThrow hr

theorem guarantees_findOne {t : S.Table} {w : S.Row t → Bool} {Q : Known S → Option (S.Row t) → Prop}
    (hs : m.Allows (.find t w)) (hnone : Q m none)
    (hsome : ∀ r m', w r = true → m ≤ m' → (t, S.key t r) ∈ m'.keys → S.refs t r ⊆ m'.keys → Q m' (some r)) :
    Guarantees owning Q m (findOne t w : Querying S A X (Option (S.Row t))) := by
  refine Guarantees.bind (guarantees_find hs (Q := fun m' rows => Q m' rows.head?) ?_) fun _ _ h => guarantees_pure h
  intro rows hrows
  cases rows with
  | nil =>
      have hm : m.learn t [] = m := by rw [Known.learn, List.flatMap_nil, List.append_nil]
      rw [hm]
      exact hnone
  | cons r rows =>
      exact hsome r _ (hrows r List.mem_cons_self) (m.le_learn t _) (Known.key_mem_learn List.mem_cons_self)
        (Known.refs_subset_learn List.mem_cons_self)

/-- A row that is looked for by the column that names the owner. -/
theorem guarantees_findOne_owned {t : S.Table} {w : S.Row t → Bool}
    (hw : ∀ r, w r = true → S.owner t r = some m.owner) :
    Guarantees owning (fun m' r => m ≤ m' ∧ ∀ r' ∈ r, w r' = true ∧ m'.Holds t r') m
      (findOne t w : Querying S A X (Option (S.Row t))) := by
  refine guarantees_findOne (fun r hr => Or.inl (hw r hr)) ⟨le_rfl, fun _ h => absurd h (Option.not_mem_none _)⟩ ?_
  rintro r m' hr hm hkey hrefs
  refine ⟨hm, ?_⟩
  rintro _ ⟨⟩
  refine ⟨hr, ⟨fun d hd => ?_, hrefs⟩, hkey⟩
  rw [hw r hr] at hd
  exact (Option.some.inj hd).symm.trans hm.1

theorem guarantees_insert {t : S.Table} {d : D} {row : K → Int → S.Row t} {Q : Known S → S.Row t → Prop}
    (hs : m.Allows (.insert t d row)) (h : ∀ k now, Q (m.learn t [row k now]) (row k now)) :
    Guarantees owning Q m (insert t d row : Querying S A X (S.Row t)) := by
  refine Guarantees.bind (guarantees_query hs (Q := fun m' r => ∀ r', r = Except.ok r' → Q m' r') ?_) ?_
  · rintro _ m' hm' r rfl
    obtain ⟨⟨k, now, rfl⟩, rfl⟩ := hm'
    exact h k now
  · intro m' r hr
    exact guarantees_orThrow hr

theorem guarantees_delete {t : S.Table} {k : K} (hk : (t, k) ∈ m.keys) (ht : S.Shallow t) :
    Guarantees owning (fun _ _ => True) m (delete t k : Querying S A X Unit) := by
  refine Guarantees.bind (guarantees_query ⟨hk, ht⟩ fun _ _ _ => trivial) ?_
  intro m' r _
  exact guarantees_orThrow fun _ _ => trivial

theorem guarantees_clear {t : S.Table} {w : S.Row t → Bool} (hw : ∀ r, w r = true → m.Sees t r) (ht : S.Shallow t) :
    Guarantees owning (fun _ _ => True) m (clear t w : Querying S A X Unit) := by
  refine Guarantees.bind (guarantees_query ⟨hw, ht⟩ fun _ _ _ => trivial) ?_
  intro m' r _
  exact guarantees_orThrow fun _ _ => trivial

theorem guarantees_save [DecidableEq K] {t : S.Table} {columns : Columns S t} {r : S.Row t}
    (hcolumns : ∀ stored, Keeps t (columns.write stored r)) (hr : m.Holds t r) :
    Guarantees owning (fun _ _ => True) m (save columns m.owner r : Querying S A X (S.Row t)) := by
  refine Guarantees.bind (Q := fun m' _ => m ≤ m') (guarantees_findOne ?_ le_rfl fun _ _ _ hm _ _ => hm) ?_
  · intro r' hr'
    have hkey : S.key t r' = S.key t r := of_decide_eq_true hr'
    exact Or.inr (Or.inl (hkey ▸ hr.key))
  · intro m' stored hm
    cases stored with
    | none =>
        refine Guarantees.bind (guarantees_query ⟨hm.1, hm.2 hr.key, hr.toVouches.mono hm⟩ fun _ _ _ => trivial) ?_
        intro m'' a _
        exact guarantees_orThrow fun _ _ => trivial
    | some stored =>
        show Guarantees owning _ m' (if columns.differs stored r then _ else _)
        split
        · refine Guarantees.bind (Q := fun _ _ => True) ?_ fun _ _ _ => guarantees_pure trivial
          refine Guarantees.bind (guarantees_query ⟨hm.2 hr.key, hcolumns stored⟩ fun _ _ _ => trivial) ?_
          intro m'' a _
          exact guarantees_orThrow fun _ _ => trivial
        · exact guarantees_pure trivial

end

/-! ## What requests keep -/

section
variable [DecidableEq S.Table] [DecidableEq K] {ι J : Type} [DecidableEq ι] {ch : TableChoice K L A} {m : Known S}
  {w w' : Db S} {body : J → Prog (TableOp S L) (TableOp.Reply A) Unit} {dom : ι → D} {owner : J → D}

/-- **One effect of a request.** -/
theorem owning_step (hS : S.Lawful) {e : TableOp S L} {r : e.Reply A} (hpre : (owning (A := A)).pre m e) (hm : m.In w)
    (hw : w.Sound) (h : TableOp.exec ch e w = some (r, w')) :
    ∃ m', owning.post m e r m' ∧ m'.owner = m.owner ∧ m'.In w' ∧ w'.Sound ∧ w.born ⊆ w'.born := by
  cases e with
  | ask l =>
      obtain ⟨rfl, rfl⟩ := Prod.mk.inj (Option.some.inj h)
      exact ⟨m, rfl, rfl, hm, hw, List.Subset.refl _⟩
  | turn =>
      obtain ⟨rfl, rfl⟩ := Prod.mk.inj (Option.some.inj h)
      exact ⟨m, rfl, rfl, hm, hw, List.Subset.refl _⟩
  | stmt s =>
      have hs := Known.Allows.permitted hpre hm hw
      obtain ⟨hw', hborn⟩ := run_sound hS hw hs h
      have hm' := hm.mono hborn
      have keep : (∀ m', (owning (A := A)).post m (.stmt s) r m' ↔ m' = m) →
          ∃ m', (owning (A := A)).post m (.stmt s) r m' ∧ m'.owner = m.owner ∧ m'.In w' ∧ w'.Sound ∧
            w.born ⊆ w'.born :=
        fun hpost => ⟨m, (hpost m).mpr rfl, rfl, hm', hw', hborn⟩
      cases s with
      | find t p =>
          obtain ⟨rfl, rfl | rfl⟩ := Outcome.answer_read (Option.some.inj h)
          · refine ⟨m.learn t ((w'.rows t).filter p), ⟨fun r hr => (List.mem_filter.mp hr).2, rfl⟩, rfl, ?_, hw', hborn⟩
            apply hm.learn hw
            intro r hr
            obtain ⟨hmem, hp⟩ := List.mem_filter.mp hr
            exact ⟨hmem, hs r hmem hp⟩
          · exact keep fun _ => Iff.rfl
      | insert t d row =>
          obtain ⟨rfl, hrow⟩ := hpre
          simp only [TableOp.exec, Stmt.run] at h
          split at h
          next => cases h
          next =>
            split at h
            next =>
              obtain ⟨rfl, -⟩ := Prod.mk.inj (Option.some.inj h)
              exact keep fun _ => Iff.rfl
            next =>
              rcases Outcome.answer_cases (Option.some.inj h) with ⟨rfl, rfl⟩ | ⟨rfl, -⟩
              · refine ⟨m.learn t [row ch.fresh ch.now], ⟨⟨_, _, rfl⟩, rfl⟩, rfl, ?_, hw', hborn⟩
                apply hm'.learn hw'
                intro r hr
                rw [List.mem_singleton.mp hr]
                refine ⟨?_, List.mem_cons_self⟩
                show _ ∈ Function.update w.rows t _ t
                rw [Function.update_self]
                exact List.mem_append_right _ List.mem_cons_self
              · exact keep fun _ => Iff.rfl
      | insertAs t d row => exact keep fun _ => Iff.rfl
      | modify t k f => exact keep fun _ => Iff.rfl
      | delete t k => exact keep fun _ => Iff.rfl
      | clear t w => exact keep fun _ => Iff.rfl

/-- A thread is given requests of its own domain only. -/
def Serves (dom : ι → D) (owner : J → D) : Act ι (TableChoice K L A) J → Prop
  | .call i j => owner j = dom i
  | .step _ _ => True

instance [DecidableEq D] : DecidablePred (Serves (A := A) dom owner : Act ι (TableChoice K L A) J → Prop)
  | .call i j => inferInstanceAs (Decidable (owner j = dom i))
  | .step _ _ => isTrue trivial

theorem reaches_owning (hS : S.Lawful) (hbody : ∀ j, Follows owning (fun _ _ => True) ⟨owner j, []⟩ (body j))
    (hw : w.Sound) {c : Config ι (TableOp S L) (TableOp.Reply A) (Db S)}
    (h : Reaches (requests body) (fun _ a => Serves dom owner a) (Config.start w) c) :
    ∃ m : ι → Known S, (c.world.Sound ∧ ∀ i, (m i).owner = dom i ∧ (m i).In c.world) ∧
      ∀ i, Follows owning (fun _ _ => True) (m i) (c.thread i) := by
  refine h.inv (P := owning) (F := fun _ => True) (fun w _ m => w.Sound ∧ ∀ i, (m i).owner = dom i ∧ (m i).In w) ?_ ?_ ?_
  · refine ⟨fun i => ⟨dom i, []⟩, ⟨hw, fun i => ⟨rfl, ?_⟩⟩, fun i => trivial⟩
    exact fun q hq => absurd hq List.not_mem_nil
  · rintro c m i j w' ⟨hsound, hall⟩ - hserves hadmits
    obtain rfl := Option.some.inj hadmits
    refine ⟨⟨dom i, []⟩, ⟨hsound, fun i' => ?_⟩, ?_⟩
    · by_cases hi : i' = i
      · subst hi
        rw [Function.update_self]
        exact ⟨rfl, fun q hq => absurd hq List.not_mem_nil⟩
      · rw [Function.update_of_ne hi]
        exact hall i'
    · have howner : owner j = dom i := hserves
      rw [← howner]
      exact hbody j
  · rintro c m i ch e k r w' ⟨hsound, hall⟩ - - hpre hexec
    obtain ⟨m', hpost, howner, hin, hsound', hborn⟩ := owning_step hS hpre (hall i).2 hsound hexec
    refine ⟨m', hpost, hsound', fun i' => ?_⟩
    by_cases hi : i' = i
    · subst hi
      rw [Function.update_self]
      exact ⟨howner.trans (hall i').1, hin⟩
    · rw [Function.update_of_ne hi]
      exact ⟨(hall i').1, (hall i').2.mono hborn⟩

/-- **What is stored stays sound.** -/
theorem reaches_sound (hS : S.Lawful) (hbody : ∀ j, Follows owning (fun _ _ => True) ⟨owner j, []⟩ (body j))
    (hw : w.Sound) {c : Config ι (TableOp S L) (TableOp.Reply A) (Db S)}
    (h : Reaches (requests body) (fun _ a => Serves dom owner a) (Config.start w) c) : c.world.Sound := by
  obtain ⟨-, ⟨hsound, -⟩, -⟩ := reaches_owning hS hbody hw h
  exact hsound

/-- The statement that an effect performs stays within the rows of a domain. -/
def Stays (d : D) (w : Db S) : TableOp S L → Prop
  | .stmt s => w.Sound ∧ Permitted d w s
  | .ask _ => True
  | .turn => True

/-- **Requests of other owners are not noticed.** -/
theorem isolated [DecidableEq D] (hS : S.Lawful)
    (hbody : ∀ j, Follows owning (fun _ _ => True) ⟨owner j, []⟩ (body j)) (hw : w.Sound)
    {as : List (Act ι (TableChoice K L A) J)} (has : ∀ a ∈ as, Serves dom owner a)
    {c : Config ι (TableOp S L) (TableOp.Reply A) (Db S)} (hplay : (requests body).play (Config.start w) as = some c)
    (d : D) :
    ∃ c', (requests body).play (Config.start w) (ofDomain dom d as) = some c' ∧ Sees dom Db.Sim d c c' := by
  have U : Unwinding (requests body) dom (Serves dom owner) Stays Db.Sim := by
    constructor
    · intro d i j w w' v _ _ hadmits hsim
      obtain rfl := Option.some.inj hadmits
      exact hsim
    · intro i j w w' v _ hadmits hsim
      obtain rfl := Option.some.inj hadmits
      exact ⟨v, rfl, hsim⟩
    · intro d d' ch e r w w' v hne hstays hexec hsim
      cases e with
      | stmt s => exact run_of_other hS hstays.1 hstays.2 hne hexec hsim
      | ask l =>
          obtain ⟨-, rfl⟩ := Prod.mk.inj (Option.some.inj hexec)
          exact hsim
      | turn =>
          obtain ⟨-, rfl⟩ := Prod.mk.inj (Option.some.inj hexec)
          exact hsim
    · intro d ch e r w w' v hstays hstays' hexec hsim
      cases e with
      | stmt s => exact run_of_own hS hstays.1 hstays'.1 hstays.2 hstays'.2 hexec hsim
      | ask l =>
          obtain ⟨rfl, rfl⟩ := Prod.mk.inj (Option.some.inj hexec)
          exact ⟨v, rfl, hsim⟩
      | turn =>
          obtain ⟨rfl, rfl⟩ := Prod.mk.inj (Option.some.inj hexec)
          exact ⟨v, rfl, hsim⟩
  refine U.alone ⟨rfl, id, id⟩ (fun c hc i e k hop => ?_) has hplay
  obtain ⟨m, ⟨hsound, hall⟩, hfollows⟩ := reaches_owning hS hbody hw hc
  have hi := hfollows i
  rw [hop, follows_op] at hi
  obtain ⟨howner, hin⟩ := hall i
  cases e with
  | stmt s => exact ⟨hsound, howner ▸ Known.Allows.permitted hi.1 hin hsound⟩
  | ask l => trivial
  | turn => trivial

end

end

end TimeChamp.Lib
