import TimeChamp.Lib.Ownership

/-!
# Where rows come from

In a table whose rows are only inserted and deleted, what a request reads was inserted by one for the same owner.

* `Fixed t` : what is deleted elsewhere does not change a row of the table; `Written`, that nobody else writes one;
* `rows_of_run` : a row that is there after a statement was there before, or was inserted;
* `Inserted` : who inserted a row; `read_inserted` : **what is read was inserted for the same owner**.
-/

namespace TimeChamp.Lib

section
variable {K D : Type} {S : Schema K D}

/-- A row that does not go with what is deleted stays as it is. -/
def Schema.Fixed (S : Schema K D) (t : S.Table) : Prop := ∀ q r r', S.onDelete q t r = some r' → r' = r

/-- The statement changes no row of the table, and inserts none again. -/
def Stmt.Leaves (t : S.Table) (s : Stmt S) : Prop :=
  (∀ d row, s ≠ .insertAs t d row) ∧ ∀ k f, s ≠ .modify t k f

section
variable [DecidableEq S.Table] [DecidableEq K] {w w' : Db S} {t t' : S.Table} {r : S.Row t}

theorem mem_afterDelete (ht : S.Fixed t) {k : K} (h : r ∈ w.afterDelete t' k t) : r ∈ w.rows t := by
  obtain ⟨r', hr', hdelete⟩ := List.mem_filterMap.mp h
  obtain rfl := ht _ _ _ hdelete
  exact (List.mem_filter.mp hr').1

theorem mem_deleteAll (ht : S.Fixed t) {ks : List K} (h : r ∈ (w.deleteAll t' ks).rows t) : r ∈ w.rows t := by
  induction ks generalizing w with
  | nil => exact h
  | cons k ks ih => exact mem_afterDelete ht (ih h)

omit [DecidableEq K] in
theorem mem_setRows_of_ne {rows : List (S.Row t')} (hne : t ≠ t') (h : r ∈ (w.setRows t' rows).rows t) :
    r ∈ w.rows t := by
  change r ∈ Function.update w.rows t' rows t at h
  rwa [Function.update_of_ne hne] at h

/-- **A row after a statement.** It was there before, or the statement inserted it. -/
theorem rows_of_run [DecidableEq D] {ch : DbChoice K} {s : Stmt S} {reply : s.Reply} (ht : S.Fixed t)
    (hs : s.Leaves t) (h : s.run ch w = some (reply, w')) (hr : r ∈ w'.rows t) :
    r ∈ w.rows t ∨ ∃ d row, s = .insert t d row ∧ r = row ch.fresh ch.now ∧ (t, S.key t r, d) ∈ w'.born := by
  cases s with
  | find t' p =>
      obtain ⟨rfl, -⟩ := Outcome.answer_read (Option.some.inj h)
      exact .inl hr
  | insert t' d row =>
      simp only [Stmt.run] at h
      split at h
      next => cases h
      next =>
        split at h
        next =>
          obtain ⟨-, rfl⟩ := Prod.mk.inj (Option.some.inj h)
          exact .inl hr
        next =>
          refine frame_or (P := fun db => r ∈ db.rows t → r ∈ w.rows t ∨ ∃ d₁ row₁, Stmt.insert t' d row = .insert t d₁ row₁ ∧
            r = row₁ ch.fresh ch.now ∧ (t, S.key t r, d₁) ∈ db.born) (Option.some.inj h) .inl (fun hr => ?_) hr
          by_cases htt : t = t'
          · subst htt
            change r ∈ Function.update w.rows t _ t at hr
            rw [Function.update_self] at hr
            rcases List.mem_append.mp hr with hr | hr
            · exact .inl hr
            · obtain rfl := List.mem_singleton.mp hr
              exact .inr ⟨d, row, rfl, rfl, List.mem_cons_self⟩
          · exact .inl (mem_setRows_of_ne htt hr)
  | insertAs t' d row =>
      have htt : t ≠ t' := by
        rintro rfl
        exact hs.1 d row rfl
      simp only [Stmt.run] at h
      split at h
      next =>
        obtain ⟨-, rfl⟩ := Prod.mk.inj (Option.some.inj h)
        exact .inl hr
      next => exact .inl (frame_or (P := fun db => r ∈ db.rows t → r ∈ w.rows t) (Option.some.inj h) id
          (mem_setRows_of_ne htt) hr)
  | modify t' k f =>
      have htt : t ≠ t' := by
        rintro rfl
        exact hs.2 k f rfl
      simp only [Stmt.run] at h
      split at h
      next =>
        obtain ⟨-, rfl⟩ := Prod.mk.inj (Option.some.inj h)
        exact .inl hr
      next => exact .inl (frame_or (P := fun db => r ∈ db.rows t → r ∈ w.rows t) (Option.some.inj h) id
          (mem_setRows_of_ne htt) hr)
  | delete t' k =>
      exact .inl (frame_or (P := fun db => r ∈ db.rows t → r ∈ w.rows t) (Option.some.inj h) id (mem_afterDelete ht) hr)
  | clear t' p =>
      exact .inl (frame_or (P := fun db => r ∈ db.rows t → r ∈ w.rows t) (Option.some.inj h) id (mem_deleteAll ht) hr)

end

/-! ## Runs -/

section
variable {L : Type} {A : L → Type} {ι J : Type} {dom : ι → D} {t : S.Table}

/-- A thread of the owner inserted the row. -/
def Inserted (dom : ι → D) (tr : List (Performed ι (TableOp S L) (TableOp.Reply A))) (t : S.Table) (r : S.Row t) (d : D) :
    Prop :=
  ∃ j row k now reply, ((j, ⟨.stmt (.insert t d row), reply⟩) : Performed ι (TableOp S L) (TableOp.Reply A)) ∈ tr ∧
    dom j = d ∧ r = row k now

theorem Inserted.mono {tr tr' : List (Performed ι (TableOp S L) (TableOp.Reply A))} {r : S.Row t} {d : D}
    (h : Inserted dom tr t r d) (htr : tr ⊆ tr') : Inserted dom tr' t r d := by
  obtain ⟨j, row, k, now, reply, hmem, hdom, hr⟩ := h
  exact ⟨j, row, k, now, reply, htr hmem, hdom, hr⟩

variable [DecidableEq S.Table] [DecidableEq K] [DecidableEq D] [DecidableEq ι]
  {body : J → Prog (TableOp S L) (TableOp.Reply A) Unit} {owner : J → D}
  {c : Config ι (TableOp S L) (TableOp.Reply A) (Db S)}

omit [DecidableEq D] in
/-- A thread's statement stays within the rows of its domain. -/
theorem permitted_of_op (hS : S.Lawful) (hbody : ∀ j, Follows owning (fun _ _ => True) ⟨owner j, []⟩ (body j))
    (h : Reaches (requests body) (fun _ a => Serves dom owner a) (Config.start Db.start) c) {i : ι} {s : Stmt S}
    {k : s.Reply → Prog (TableOp S L) (TableOp.Reply A) Unit} (hop : c.thread i = .op (.stmt s) k) :
    Permitted (dom i) c.world s := by
  obtain ⟨m, ⟨hsound, hall⟩, hfollows⟩ := reaches_owning hS hbody Db.start_sound h
  obtain ⟨howner, hin⟩ := hall i
  have hi := hfollows i
  rw [hop, follows_op] at hi
  exact howner ▸ Known.Allows.permitted hi.1 hin hsound

/-- **What is read was inserted for the same owner**, where only inserts and deletes concern the table. -/
theorem read_inserted (hS : S.Lawful) (hbody : ∀ j, Follows owning (fun _ _ => True) ⟨owner j, []⟩ (body j))
    (ht : S.Fixed t) (h : Reaches (requests body) (fun _ a => Serves dom owner a) (Config.start Db.start) c)
    (hleaves : ∀ i s reply, ((i, ⟨.stmt s, reply⟩) : Performed ι (TableOp S L) (TableOp.Reply A)) ∈ c.trace →
      s.Leaves t) :
    ∀ i w rows, ((i, ⟨.stmt (.find t w), .ok rows⟩) : Performed ι (TableOp S L) (TableOp.Reply A)) ∈ c.trace →
      ∀ r ∈ rows, Inserted dom c.trace t r (dom i) := by
  have hinv : (∀ r ∈ c.world.rows t, ∀ d, (t, S.key t r, d) ∈ c.world.born → Inserted dom c.trace t r d) ∧
      ∀ i w rows, ((i, ⟨.stmt (.find t w), .ok rows⟩) : Performed ι (TableOp S L) (TableOp.Reply A)) ∈ c.trace →
        ∀ r ∈ rows, Inserted dom c.trace t r (dom i) := by
    induction h with
    | start => exact ⟨fun r hr => absurd hr List.not_mem_nil, fun i w rows hmem => absurd hmem List.not_mem_nil⟩
    | @next c c' a h' _ hn ih =>
        rcases System.next_cases hn with ⟨i, j, w', rfl, -, hadmits, rfl⟩ | ⟨i, ch, e, k, reply, w', rfl, hop, hexec, rfl⟩
        · obtain rfl := Option.some.inj hadmits
          exact ih hleaves
        · have hsub : c.trace ⊆ c.trace ++ [(i, ⟨e, reply⟩)] := List.subset_append_left _ _
          obtain ⟨hrows, hread⟩ := ih fun i' s reply' hmem => hleaves i' s reply' (hsub hmem)
          have hlast : ((i, ⟨e, reply⟩) : Performed ι (TableOp S L) (TableOp.Reply A)) ∈ c.trace ++ [(i, ⟨e, reply⟩)] :=
            List.mem_append_right _ List.mem_cons_self
          have keep : w' = c.world → (∀ s, e ≠ .stmt s) →
              (∀ r ∈ w'.rows t, ∀ d, (t, S.key t r, d) ∈ w'.born → Inserted dom (c.trace ++ [(i, ⟨e, reply⟩)]) t r d) ∧
                ∀ i' w rows, ((i', ⟨.stmt (.find t w), .ok rows⟩) : Performed ι (TableOp S L) (TableOp.Reply A)) ∈
                  c.trace ++ [(i, ⟨e, reply⟩)] → ∀ r ∈ rows, Inserted dom (c.trace ++ [(i, ⟨e, reply⟩)]) t r (dom i') := by
            rintro rfl hne
            refine ⟨fun r hr d hd => (hrows r hr d hd).mono hsub, fun i' w rows hmem r hr => ?_⟩
            rcases List.mem_append.mp hmem with hmem | hmem
            · exact (hread i' w rows hmem r hr).mono hsub
            · obtain ⟨-, heq⟩ := Prod.mk.inj (List.mem_singleton.mp hmem)
              exact absurd (Sigma.mk.inj heq).1.symm (hne _)
          cases e with
          | ask l => exact keep (Prod.mk.inj (Option.some.inj hexec)).2.symm nofun
          | turn => exact keep (Prod.mk.inj (Option.some.inj hexec)).2.symm nofun
          | stmt s =>
              have hpermitted := permitted_of_op hS hbody h' hop
              have hsound := reaches_sound hS hbody Db.start_sound h'
              have hrun : s.run ch.toDbChoice c.world = some (reply, w') := hexec
              obtain ⟨hsound', hborn⟩ := run_sound hS hsound hpermitted hrun
              constructor
              · intro r hr d hd
                rcases rows_of_run ht (hleaves i s reply hlast) hrun hr with hold | ⟨d', row, rfl, hrow, hd'⟩
                · obtain ⟨d', hd', -⟩ := hsound.mine hold
                  obtain rfl := hsound'.born (hborn hd') hd
                  exact (hrows r hold d' hd').mono hsub
                · obtain rfl := hsound'.born hd' hd
                  exact ⟨i, row, ch.fresh, ch.now, reply, hlast, hpermitted.1.symm, hrow⟩
              · intro i' w rows hmem r hr
                rcases List.mem_append.mp hmem with hmem | hmem
                · exact (hread i' w rows hmem r hr).mono hsub
                · obtain ⟨rfl, heq⟩ := Prod.mk.inj (List.mem_singleton.mp hmem)
                  cases heq
                  obtain ⟨rfl, hanswer⟩ := Outcome.answer_read (Option.some.inj hrun)
                  have hfound : rows = (c.world.rows t).filter w := by
                    rcases hanswer with hok | herror
                    · exact Except.ok.inj hok
                    · cases herror
                  rw [hfound] at hr
                  obtain ⟨hmem, hw⟩ := List.mem_filter.mp hr
                  exact (hrows r hmem (dom i') (hpermitted r hmem hw)).mono hsub
  exact hinv.2

end

end

end TimeChamp.Lib
