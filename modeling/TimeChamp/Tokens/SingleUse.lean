import TimeChamp.Tokens.Service

/-!
# A token is used once

`consume` reads a key and then deletes it; nothing makes the two one step.

* `UsedOnce c` : each token was answered at most once, for the purpose and the user it was generated for, and from a read
  within its time to live;
* `Alone` : no other call deleted the key since this one, which deletes it, read it;
* `usedOnce` : **if every deletion is alone and no token is generated for the empty user, each token is used once**.
-/

namespace TimeChamp.Tokens
open Lib Api
open Function (update)

/-- A call deleted the key, and knows. -/
def deleted {ι : Type} (key : String) : Performed ι Op Op.Reply → Bool
  | (_, ⟨.del k, .ok _⟩) => k == key
  | _ => false

/-- A call answered with the user of the token of this key. -/
def answeredKey {ι : Type} (key : String) : Performed ι Op Op.Reply → Bool
  | (_, ⟨.answer purpose token (some _), _⟩) => tokenKey purpose token == key
  | _ => false

/-- A call answered with the user of this token. -/
def answered {ι : Type} (token : String) : Performed ι Op Op.Reply → Bool
  | (_, ⟨.answer _ t (some _), _⟩) => t == token
  | _ => false

/-- A call read this user under the key, at this time. -/
def reads (key userId : String) (at_ : Int) : (op : Op) × op.Reply := ⟨.get key, .ok (some userId, at_)⟩

/-- What the tokens are for. Every answer comes from a read of the same call, and every read is in time. -/
structure UsedOnce {ι : Type} (c : Running ι) : Prop where
  once : ∀ token, c.trace.countP (answered token) ≤ 1
  genuine : ∀ i purpose token userId, (i, (⟨.answer purpose token (some userId), ()⟩ : (op : Op) × op.Reply)) ∈ c.trace →
    ⟨purpose, userId, token⟩ ∈ c.world.issued ∧ ∃ at_, (i, reads (tokenKey purpose token) userId at_) ∈ c.trace
  inTime : ∀ i purpose token userId at_, (i, reads (tokenKey purpose token) userId at_) ∈ c.trace →
    ∃ w ∈ c.world.written, w.key = tokenKey purpose token ∧ w.value = userId ∧ at_ ≤ w.at_ + purpose.TTL * 1000

/-- When the action deletes a key, no other call deleted it since this one's last call, which read it. -/
def Alone {ι : Type} [DecidableEq ι] (c : Running ι) (a : Act ι Choice Call) : Prop :=
  (match c.performs a with
    | some (_, .del key) => (since a.who c.trace).any (deleted key)
    | _ => false) = false

instance {ι : Type} [DecidableEq ι] (c : Running ι) (a : Act ι Choice Call) : Decidable (Alone c a) :=
  inferInstanceAs (Decidable (_ = false))

/-- No token is generated for the empty user. -/
def Named {ι : Type} : Act ι Choice Call → Prop
  | .call _ (.generate _ userId) => userId ≠ ""
  | _ => True

instance {ι : Type} : (a : Act ι Choice Call) → Decidable (Named a)
  | .call _ (.generate _ userId) => inferInstanceAs (Decidable (userId ≠ ""))
  | .call _ (.peek _ _) => isTrue trivial
  | .call _ (.consume _ _) => isTrue trivial
  | .step _ _ => isTrue trivial

/-- What the runs below keep to. -/
def Orderly {ι : Type} [DecidableEq ι] (c : Running ι) (a : Act ι Choice Call) : Prop := Alone c a ∧ Named a

instance {ι : Type} [DecidableEq ι] (c : Running ι) (a : Act ι Choice Call) : Decidable (Orderly c a) :=
  inferInstanceAs (Decidable (_ ∧ _))

/-! ## Stages of a call -/

/-- Where a call stands: nothing to lose, a token not yet stored, a user read, or its key deleted. -/
inductive Stage where
  | idle
  | fresh (issue : Issue)
  | read (key userId : String)
  | taken (key userId : String)

/-- The key that no other call may have in this stage. -/
def Stage.claim : Stage → Option String
  | fresh issue => some (tokenKey issue.purpose issue.token)
  | taken key _ => some key
  | _ => none

/-- A token is stored once, under its own key and lifetime; a key is deleted after it was read, and a user is the answer
after that. -/
def tokenProtocol : Protocol Op Op.Reply Stage where
  pre m
    | .randomBytes _ userId => userId ≠ ""
    | .set key value ttlSeconds => ∃ a, m = .fresh a ∧ key = tokenKey a.purpose a.token ∧ value = a.userId ∧
      ttlSeconds = some a.purpose.TTL
    | .del key => ∃ userId, m = .read key userId
    | .answer purpose token (some userId) => m = .taken (tokenKey purpose token) userId ∨
      m = .read (tokenKey purpose token) userId ∧ userId = ""
    | _ => True
  post m op r m' :=
    match op, r with
    | .randomBytes purpose userId, token => m' = .fresh ⟨purpose, userId, token⟩
    | .get key, .ok (some userId, _) => m' = .read key userId
    | .del key, .ok _ => ∃ userId, m = .read key userId ∧ m' = .taken key userId
    | _, _ => m' = .idle

theorem follows_body {call : Call} (hnamed : ∀ purpose userId, call = .generate purpose userId → userId ≠ "") :
    Follows tokenProtocol (fun _ _ => True) .idle call.body := by
  cases call with
  | generate purpose userId =>
      refine ⟨hnamed purpose userId rfl, fun token m hm => ?_⟩
      subst hm
      refine ⟨⟨_, rfl, rfl, rfl, rfl⟩, fun r m _ => ?_⟩
      cases r <;> trivial
  | peek purpose token =>
      refine ⟨trivial, fun r m _ => ?_⟩
      rcases r with e | ⟨userId, now⟩ <;> trivial
  | consume purpose token =>
      refine follows_bind.mpr (follows_perform_bind.mpr ⟨trivial, fun r m hm => ?_⟩)
      rcases r with e | ⟨_ | userId, now⟩
      · trivial
      · exact ⟨trivial, fun _ _ _ => trivial⟩
      · subst hm
        dsimp only
        split_ifs with hempty
        · exact ⟨Or.inr ⟨rfl, hempty⟩, fun _ _ _ => trivial⟩
        · refine ⟨⟨userId, rfl⟩, fun r m hm => ?_⟩
          rcases r with e | u
          · trivial
          · obtain ⟨userId', hread, rfl⟩ := hm
            obtain ⟨-, rfl⟩ := Stage.read.inj hread
            exact ⟨Or.inl rfl, fun _ _ _ => trivial⟩

/-! ## The ledger -/

/-- The key was written with this value. -/
def Wrote (s : Store) (key value : String) : Prop := ∃ w ∈ s.written, w.key = key ∧ w.value = value

/-- The facts about the store and the trace. A key is written for one issued token; what is stored was written and never
deleted; what is deleted was written; a read is in time; an answer has its token deleted and read. -/
structure Ledger {ι : Type} (s : Store) (tr : List (Performed ι Op Op.Reply)) : Prop where
  unique : ∀ a ∈ s.issued, ∀ b ∈ s.issued, a.token = b.token → a = b
  named : ∀ a ∈ s.issued, a.userId ≠ ""
  written : ∀ w ∈ s.written, ∃ a ∈ s.issued,
    w.key = tokenKey a.purpose a.token ∧ w.value = a.userId ∧ w.ttlSeconds = some a.purpose.TTL
  stored : ∀ key entry, s.mem key = some entry → tr.any (deleted key) = false ∧ ∃ w ∈ s.written,
    w.key = key ∧ w.value = entry.value ∧ entry.expiresAt = expiry w.at_ w.ttlSeconds
  deleted : ∀ key, tr.any (deleted key) = true → ∃ w ∈ s.written, w.key = key
  inTime : ∀ i key userId at_, (i, reads key userId at_) ∈ tr →
    ∃ w ∈ s.written, w.key = key ∧ w.value = userId ∧ ∀ t, expiry w.at_ w.ttlSeconds = some t → at_ ≤ t
  once : ∀ key, tr.countP (answeredKey key) ≤ 1
  genuine : ∀ i purpose token userId, (i, (⟨.answer purpose token (some userId), ()⟩ : (op : Op) × op.Reply)) ∈ tr →
    tr.any (Tokens.deleted (tokenKey purpose token)) = true ∧ Wrote s (tokenKey purpose token) userId ∧
      ∃ at_, (i, reads (tokenKey purpose token) userId at_) ∈ tr

section Ledger
variable {ι : Type} {s : Store} {tr : List (Performed ι Op Op.Reply)}

theorem Ledger.issue (h : Ledger s tr) {purpose : TokenPurpose} {userId token : String} (hnamed : userId ≠ "")
    (hnew : ∀ a ∈ s.issued, a.token ≠ token) : Ledger { s with issued := ⟨purpose, userId, token⟩ :: s.issued } tr where
  unique := by
    intro a ha b hb htoken
    rcases List.mem_cons.mp ha with rfl | ha <;> rcases List.mem_cons.mp hb with rfl | hb
    · rfl
    · exact absurd htoken.symm (hnew b hb)
    · exact absurd htoken (hnew a ha)
    · exact h.unique a ha b hb htoken
  named := by
    intro a ha
    rcases List.mem_cons.mp ha with rfl | ha
    · exact hnamed
    · exact h.named a ha
  written := by
    intro w hw
    obtain ⟨a, ha, hfacts⟩ := h.written w hw
    exact ⟨a, List.mem_cons_of_mem _ ha, hfacts⟩
  stored := h.stored
  deleted := h.deleted
  inTime := h.inTime
  once := h.once
  genuine := h.genuine

/-- A write of a token under its key, which was not written before. -/
theorem Ledger.set (h : Ledger s tr) {a : Issue} (ha : a ∈ s.issued)
    (hnew : ∀ w ∈ s.written, w.key ≠ tokenKey a.purpose a.token) (now : Int) :
    Ledger { s with
      mem := s.mem.set now (tokenKey a.purpose a.token) a.userId (some a.purpose.TTL)
      written := ⟨tokenKey a.purpose a.token, a.userId, some a.purpose.TTL, now⟩ :: s.written } tr where
  unique := h.unique
  named := h.named
  written := by
    intro w hw
    rcases List.mem_cons.mp hw with rfl | hw
    · exact ⟨a, ha, rfl, rfl, rfl⟩
    · exact h.written w hw
  stored := by
    intro key entry hentry
    rcases Mem.set_eq_some hentry with ⟨rfl, rfl⟩ | ⟨-, hold⟩
    · refine ⟨?_, _, List.mem_cons_self, rfl, rfl, rfl⟩
      apply Bool.eq_false_iff.mpr
      intro hdel
      obtain ⟨w, hw, hkey⟩ := h.deleted _ hdel
      exact hnew w hw hkey
    · obtain ⟨hdel, w, hw, hfacts⟩ := h.stored key entry hold
      exact ⟨hdel, w, List.mem_cons_of_mem _ hw, hfacts⟩
  deleted := by
    intro key hdel
    obtain ⟨w, hw, hkey⟩ := h.deleted key hdel
    exact ⟨w, List.mem_cons_of_mem _ hw, hkey⟩
  inTime := by
    intro i key userId at_ hmem
    obtain ⟨w, hw, hfacts⟩ := h.inTime i key userId at_ hmem
    exact ⟨w, List.mem_cons_of_mem _ hw, hfacts⟩
  once := h.once
  genuine := by
    intro i purpose token userId hmem
    obtain ⟨hdel, ⟨w, hw, hkey⟩, hread⟩ := h.genuine i purpose token userId hmem
    exact ⟨hdel, ⟨w, List.mem_cons_of_mem _ hw, hkey⟩, hread⟩

theorem Ledger.shrink (h : Ledger s tr) {mem : Mem String} (hmem : ∀ key entry, mem key = some entry → s.mem key = some entry) :
    Ledger { s with mem } tr :=
  ⟨h.unique, h.named, h.written, fun key entry hentry => h.stored key entry (hmem key entry hentry), h.deleted, h.inTime,
    h.once, h.genuine⟩

/-- What a step must say to be added to the trace. -/
theorem Ledger.concat (h : Ledger s tr) {i : ι} {p : (op : Op) × op.Reply}
    (hdel : ∀ key, Tokens.deleted key (i, p) = true → s.mem key = none ∧ ∃ w ∈ s.written, w.key = key)
    (hread : ∀ key userId at_, p = reads key userId at_ →
      ∃ w ∈ s.written, w.key = key ∧ w.value = userId ∧ ∀ t, expiry w.at_ w.ttlSeconds = some t → at_ ≤ t)
    (hanswer : ∀ purpose token userId, p = ⟨.answer purpose token (some userId), ()⟩ →
      tr.any (answeredKey (tokenKey purpose token)) = false ∧ tr.any (Tokens.deleted (tokenKey purpose token)) = true ∧
        Wrote s (tokenKey purpose token) userId ∧ ∃ at_, (i, reads (tokenKey purpose token) userId at_) ∈ tr) :
    Ledger s (tr ++ [(i, p)]) where
  unique := h.unique
  named := h.named
  written := h.written
  stored := by
    intro key entry hentry
    obtain ⟨hnot, hw⟩ := h.stored key entry hentry
    refine ⟨?_, hw⟩
    rw [List.any_append, hnot, List.any_cons, List.any_nil, Bool.false_or, Bool.or_false]
    apply Bool.eq_false_iff.mpr
    intro hd
    rw [(hdel key hd).1] at hentry
    exact nomatch hentry
  deleted := by
    intro key hany
    rw [List.any_append, Bool.or_eq_true] at hany
    rcases hany with hany | hany
    · exact h.deleted key hany
    · rw [List.any_cons, List.any_nil, Bool.or_false] at hany
      exact (hdel key hany).2
  inTime := by
    intro j key userId at_ hmem
    rcases List.mem_append.mp hmem with hmem | hmem
    · exact h.inTime j key userId at_ hmem
    · exact hread key userId at_ (Prod.mk.inj (List.mem_singleton.mp hmem)).2.symm
  once := by
    intro key
    rw [List.countP_append, List.countP_singleton]
    split_ifs with hans
    · -- it answers: nobody had
      rcases p with ⟨op, r⟩
      cases op with
      | answer purpose token userId =>
          cases userId with
          | none => exact absurd hans Bool.false_ne_true
          | some userId =>
              obtain rfl : tokenKey purpose token = key := by simpa [answeredKey] using hans
              have hnone := (hanswer purpose token userId rfl).1
              rw [List.countP_eq_zero.mpr fun x hx => by
                rw [List.any_eq_false] at hnone
                exact hnone x hx]
      | _ => exact absurd hans Bool.false_ne_true
    · exact h.once key
  genuine := by
    intro j purpose token userId hmem
    have hgrow : ∀ {key}, tr.any (Tokens.deleted key) = true → (tr ++ [(i, p)]).any (Tokens.deleted key) = true :=
      fun hany => by rw [List.any_append, hany, Bool.true_or]
    rcases List.mem_append.mp hmem with hmem | hmem
    · obtain ⟨hany, hw, at_, hat⟩ := h.genuine j purpose token userId hmem
      exact ⟨hgrow hany, hw, at_, List.mem_append_left _ hat⟩
    · obtain ⟨rfl, rfl⟩ := Prod.mk.inj (List.mem_singleton.mp hmem)
      obtain ⟨-, hany, hw, at_, hat⟩ := hanswer purpose token userId rfl
      exact ⟨hgrow hany, hw, at_, List.mem_append_left _ hat⟩

/-- An answer comes after a deletion. -/
theorem Ledger.unanswered (h : Ledger s tr) {key : String} (hnot : tr.any (Tokens.deleted key) = false) :
    tr.any (answeredKey key) = false := by
  apply Bool.eq_false_iff.mpr
  intro hans
  obtain ⟨⟨j, op, r⟩, hmem, hans⟩ := List.any_eq_true.mp hans
  cases op with
  | answer purpose token userId =>
      cases userId with
      | none => exact nomatch hans
      | some u =>
          obtain rfl : tokenKey purpose token = key := by simpa [answeredKey] using hans
          rw [(h.genuine j purpose token u hmem).1] at hnot
          exact nomatch hnot
  | _ => exact nomatch hans

/-- A step that neither tells of a deletion, nor of a value read, nor answers with a user. -/
def Quiet (i : ι) (p : (op : Op) × op.Reply) : Prop :=
  (∀ key, deleted key (i, p) = false) ∧ (∀ key, answeredKey key (i, p) = false) ∧
    ∀ key userId at_, p ≠ reads key userId at_

theorem Ledger.quiet (h : Ledger s tr) {i : ι} {p : (op : Op) × op.Reply} (hp : Quiet i p) : Ledger s (tr ++ [(i, p)]) := by
  refine h.concat (fun key hdel => ?_) (fun key userId at_ hread => absurd hread (hp.2.2 key userId at_))
    fun purpose token userId hans => ?_
  · rw [hp.1 key] at hdel
    exact nomatch hdel
  · have hnot := hp.2.1 (tokenKey purpose token)
    rw [hans] at hnot
    simp [answeredKey] at hnot

end Ledger

/-! ## The stages of all calls -/

/-- What a call in this stage relies on. -/
def Sound {ι : Type} [DecidableEq ι] (s : Store) (tr : List (Performed ι Op Op.Reply)) (i : ι) : Stage → Prop
  | .idle => True
  | .fresh a => a ∈ s.issued ∧ ∀ w ∈ s.written, w.key ≠ tokenKey a.purpose a.token
  | .read key userId => Wrote s key userId ∧ (∃ at_, (i, reads key userId at_) ∈ tr) ∧
    (tr.any (deleted key) = true → (since i tr).any (deleted key) = true)
  | .taken key userId => Wrote s key userId ∧ (∃ at_, (i, reads key userId at_) ∈ tr) ∧
    tr.any (deleted key) = true ∧ tr.any (answeredKey key) = false

section
variable {ι : Type} [DecidableEq ι] {s s' : Store} {tr : List (Performed ι Op Op.Reply)}

theorem Sound.store {i : ι} {stage : Stage} (h : Sound s tr i stage) (hissued : s.issued ⊆ s'.issued)
    (hwritten : s.written ⊆ s'.written) (hfresh : ∀ a, stage = .fresh a → ∀ w ∈ s'.written,
      w ∈ s.written ∨ w.key ≠ tokenKey a.purpose a.token) : Sound s' tr i stage := by
  have hwrote : ∀ {key value}, Wrote s key value → Wrote s' key value := fun ⟨w, hw, hkey⟩ => ⟨w, hwritten hw, hkey⟩
  cases stage with
  | idle => trivial
  | fresh a =>
      refine ⟨hissued h.1, fun w hw => ?_⟩
      rcases hfresh a rfl w hw with hw | hkey
      · exact h.2 w hw
      · exact hkey
  | read key userId => exact ⟨hwrote h.1, h.2⟩
  | taken key userId => exact ⟨hwrote h.1, h.2⟩

/-- The stage of another call after a step. -/
theorem Sound.other {i j : ι} {p : (op : Op) × op.Reply} {stage : Stage} (h : Sound s tr j stage) (hij : i ≠ j)
    (hanswer : ∀ key userId, stage = .taken key userId → answeredKey key (i, p) = false) :
    Sound s (tr ++ [(i, p)]) j stage := by
  have hread : ∀ {key userId}, (∃ at_, (j, reads key userId at_) ∈ tr) →
      ∃ at_, (j, reads key userId at_) ∈ tr ++ [(i, p)] :=
    fun ⟨at_, hat⟩ => ⟨at_, List.mem_append_left _ hat⟩
  cases stage with
  | idle => trivial
  | fresh a => exact h
  | read key userId =>
      refine ⟨h.1, hread h.2.1, fun hdel => ?_⟩
      rw [since_concat_of_ne hij, List.any_cons]
      rw [List.any_append, Bool.or_eq_true] at hdel
      rcases hdel with hdel | hdel
      · rw [h.2.2 hdel, Bool.or_true]
      · rw [List.any_cons, List.any_nil, Bool.or_false] at hdel
        rw [hdel, Bool.true_or]
  | taken key userId =>
      refine ⟨h.1, hread h.2.1, ?_, ?_⟩
      · rw [List.any_append, h.2.2.1, Bool.true_or]
      · rw [List.any_append, h.2.2.2, List.any_cons, hanswer key userId rfl]
        rfl


/-- The ledger is right, every call relies on what holds, and no two calls claim one key. -/
structure TokenInv (s : Store) (tr : List (Performed ι Op Op.Reply)) (m : ι → Stage) : Prop where
  ledger : Ledger s tr
  sound : ∀ i, Sound s tr i (m i)
  claims : ∀ i j key, (m i).claim = some key → (m j).claim = some key → i = j

theorem claims_update {m : ι → Stage} (h : ∀ i j key, (m i).claim = some key → (m j).claim = some key → i = j) {i : ι}
    {stage : Stage} (hclaim : ∀ key, stage.claim = some key → ∀ j, (m j).claim = some key → j = i) :
    ∀ j k key, (update m i stage j).claim = some key → (update m i stage k).claim = some key → j = k :=
  exclusive_update (fun (stage : Stage) key => stage.claim = some key) h fun key hkey j hj hother =>
    hj (hclaim key hkey j hother)

/-- What an action of `i` must do to keep the invariant. -/
theorem TokenInv.act {m : ι → Stage} (h : TokenInv s tr m) {i : ι} {p : (op : Op) × op.Reply} {stage : Stage}
    (hledger : Ledger s' (tr ++ [(i, p)])) (hothers : ∀ j, j ≠ i → Sound s' (tr ++ [(i, p)]) j (m j))
    (hself : Sound s' (tr ++ [(i, p)]) i stage)
    (hclaim : ∀ key, stage.claim = some key → ∀ j, (m j).claim = some key → j = i) :
    TokenInv s' (tr ++ [(i, p)]) (update m i stage) where
  ledger := hledger
  sound := (Function.forall_update_iff m fun j stage => Sound s' (tr ++ [(i, p)]) j stage).mpr ⟨hself, hothers⟩
  claims := claims_update h.claims hclaim

/-- A quiet step after which its call has nothing to lose. -/
theorem TokenInv.drop {m : ι → Stage} (h : TokenInv s tr m) {i : ι} {p : (op : Op) × op.Reply} (hp : Quiet i p)
    (hledger : Ledger s' tr) (hothers : ∀ j, j ≠ i → Sound s' tr j (m j)) :
    TokenInv s' (tr ++ [(i, p)]) (update m i .idle) :=
  h.act (hledger.quiet hp) (fun j hj => (hothers j hj).other hj.symm fun key _ _ => hp.2.1 key) trivial
    fun _ hkey => nomatch hkey

theorem TokenInv.shrink {m : ι → Stage} (h : TokenInv s tr m) (mem : Mem String)
    (hmem : ∀ key entry, mem key = some entry → s.mem key = some entry) :
    Ledger { s with mem } tr ∧ ∀ j, Sound { s with mem } tr j (m j) :=
  ⟨h.ledger.shrink hmem, fun j => (h.sound j).store (fun _ ha => ha) (fun _ hw => hw) fun _ _ _ hw => Or.inl hw⟩

/-! ## Steps -/

variable {m : ι → Stage} {i : ι} {ch : Choice}

theorem step_randomBytes (h : TokenInv s tr m) {purpose : TokenPurpose} {userId : String} (hnamed : userId ≠ "")
    {token : String} (hr : exec ch (.randomBytes purpose userId) s = some (token, s')) :
    TokenInv s' (tr ++ [(i, ⟨.randomBytes purpose userId, token⟩)]) (update m i (.fresh ⟨purpose, userId, token⟩)) := by
  unfold exec at hr
  dsimp only at hr
  split_ifs at hr with hused
  obtain ⟨rfl, rfl⟩ := Prod.mk.inj (Option.some.inj hr)
  have hnew : ∀ a ∈ s.issued, a.token ≠ ch.random := by
    simpa using hused
  -- no key of the new token was written
  have hunwritten : ∀ w ∈ s.written, w.key ≠ tokenKey purpose ch.random := by
    intro w hw hkey
    obtain ⟨a, ha, hwkey, -⟩ := h.ledger.written w hw
    exact hnew a ha (tokenKey_inj (hwkey.symm.trans hkey)).2
  have hquiet : Quiet i (⟨.randomBytes purpose userId, ch.random⟩ : (op : Op) × op.Reply) :=
    ⟨fun _ => rfl, fun _ => rfl, fun _ _ _ heq => nomatch heq⟩
  refine h.act ((h.ledger.issue hnamed hnew).quiet hquiet) (fun j hj => ?_) ⟨List.mem_cons_self, hunwritten⟩
    fun key hkey j hj => ?_
  · have hstored : Sound { s with issued := ⟨purpose, userId, ch.random⟩ :: s.issued } tr j (m j) :=
      (h.sound j).store (List.subset_cons_self _ _) (fun _ hw => hw) fun _ _ _ hw => Or.inl hw
    exact hstored.other hj.symm fun _ _ _ => rfl
  · obtain rfl := Option.some.inj hkey
    have hsound := h.sound j
    cases hm : m j with
    | idle => simp [hm, Stage.claim] at hj
    | read key userId => simp [hm, Stage.claim] at hj
    | fresh a =>
        rw [hm] at hj hsound
        exact absurd (tokenKey_inj (Option.some.inj hj)).2 (hnew a hsound.1)
    | taken key userId =>
        rw [hm] at hj hsound
        obtain ⟨⟨w, hw, hwkey, -⟩, -⟩ := hsound
        exact absurd (hwkey.trans (Option.some.inj hj)) (hunwritten w hw)

theorem step_set (h : TokenInv s tr m) {a : Issue} (hm : m i = .fresh a) {r : Except String Unit}
    (hr : exec ch (.set (tokenKey a.purpose a.token) a.userId (some a.purpose.TTL)) s = some (r, s')) :
    TokenInv s' (tr ++ [(i, ⟨.set (tokenKey a.purpose a.token) a.userId (some a.purpose.TTL), r⟩)])
      (update m i .idle) := by
  have hquiet : Quiet i (⟨.set (tokenKey a.purpose a.token) a.userId (some a.purpose.TTL), r⟩ : (op : Op) × op.Reply) :=
    ⟨fun _ => rfl, fun _ => rfl, fun _ _ _ heq => nomatch heq⟩
  obtain ⟨hissued, hunwritten⟩ : Sound s tr i (.fresh a) := hm ▸ h.sound i
  have hset := h.ledger.set hissued hunwritten ch.now
  have hothers : ∀ j, j ≠ i → Sound { s with
      mem := s.mem.set ch.now (tokenKey a.purpose a.token) a.userId (some a.purpose.TTL)
      written := ⟨tokenKey a.purpose a.token, a.userId, some a.purpose.TTL, ch.now⟩ :: s.written } tr j (m j) := by
    intro j hj
    refine (h.sound j).store (fun _ ha => ha) (List.subset_cons_self _ _) fun b hb w hw => ?_
    rcases List.mem_cons.mp hw with rfl | hw
    · right
      intro hkey
      exact hj (h.claims j i _ (by rw [hb]; rfl) (by rw [hm, ← hkey]; rfl))
    · exact Or.inl hw
  rcases Outcome.answer_cases (Option.some.inj hr) with ⟨rfl, rfl⟩ | ⟨rfl, rfl | rfl⟩
  · exact h.drop hquiet hset hothers
  · exact h.drop hquiet h.ledger fun j _ => h.sound j
  · exact h.drop hquiet hset hothers

theorem step_get (h : TokenInv s tr m) {key : String} {r : Except String (Option String × Int)}
    (hr : exec ch (.get key) s = some (r, s')) :
    ∃ stage, tokenProtocol.post (m i) (.get key) r stage ∧
      TokenInv s' (tr ++ [(i, ⟨.get key, r⟩)]) (update m i stage) := by
  obtain ⟨hledger, hsound⟩ := h.shrink (s.mem.afterGet ch.now key) fun _ _ => Mem.afterGet_eq_some
  rcases Outcome.answer_cases (Option.some.inj hr) with ⟨rfl, rfl⟩ | ⟨rfl, hs⟩
  · cases hvalue : s.mem.get ch.now key with
    | none =>
        refine ⟨.idle, rfl, h.drop ⟨fun _ => rfl, fun _ => rfl, fun _ _ _ heq => ?_⟩ hledger fun j _ => hsound j⟩
        simp [reads] at heq
    | some userId =>
        obtain ⟨entry, hentry, rfl, hexp⟩ := Mem.get_eq_some hvalue
        obtain ⟨hnot, w, hw, rfl, hval, hexpiry⟩ := h.ledger.stored key entry hentry
        refine ⟨_, rfl, h.act ?_ (fun j hj => (hsound j).other hj.symm fun _ _ _ => rfl) ⟨⟨w, hw, rfl, hval⟩, ?_, ?_⟩
          fun _ hkey => nomatch hkey⟩
        · refine hledger.concat (fun _ hdel => nomatch hdel) (fun k u t heq => ?_) fun _ _ _ heq => nomatch heq
          simp only [reads, Sigma.mk.injEq, Op.get.injEq] at heq
          obtain ⟨rfl, heq⟩ := heq
          obtain ⟨hu, ht⟩ := Prod.mk.inj (Except.ok.inj (eq_of_heq heq))
          obtain rfl := Option.some.inj hu
          subst ht
          exact ⟨w, hw, rfl, hval, fun t ht => hexp t (hexpiry.trans ht)⟩
        · exact ⟨ch.now, List.mem_append_right _ (List.mem_singleton.mpr rfl)⟩
        · intro hdel
          rw [List.any_append, hnot] at hdel
          exact nomatch hdel
  · have hquiet : Quiet i (⟨.get key, .error storeError⟩ : (op : Op) × op.Reply) :=
      ⟨fun _ => rfl, fun _ => rfl, fun _ _ _ heq => nomatch heq⟩
    rcases hs with rfl | rfl
    · exact ⟨.idle, rfl, h.drop hquiet h.ledger fun j _ => h.sound j⟩
    · exact ⟨.idle, rfl, h.drop hquiet hledger fun j _ => hsound j⟩

/-- Nobody claims a key that was written and never deleted. -/
theorem TokenInv.unclaimed (h : TokenInv s tr m) {key userId : String} (hwrote : Wrote s key userId)
    (hnot : tr.any (deleted key) = false) (j : ι) : (m j).claim ≠ some key := by
  intro hj
  have hs := h.sound j
  cases hmj : m j with
  | idle => simp [hmj, Stage.claim] at hj
  | read k u => simp [hmj, Stage.claim] at hj
  | fresh a =>
      rw [hmj] at hj hs
      obtain ⟨w, hw, hwkey, -⟩ := hwrote
      exact absurd (hwkey.trans (Option.some.inj hj).symm) (hs.2 w hw)
  | taken k u =>
      rw [hmj] at hj hs
      obtain rfl := Option.some.inj hj
      rw [hs.2.2.1] at hnot
      exact nomatch hnot

theorem step_del (h : TokenInv s tr m) {key userId : String} (hm : m i = .read key userId)
    (halone : (since i tr).any (deleted key) = false) {r : Except String Unit}
    (hr : exec ch (.del key) s = some (r, s')) :
    ∃ stage, tokenProtocol.post (m i) (.del key) r stage ∧
      TokenInv s' (tr ++ [(i, ⟨.del key, r⟩)]) (update m i stage) := by
  obtain ⟨hledger, hsound⟩ := h.shrink (s.mem.del key) fun _ _ hentry => (Mem.del_eq_some hentry).2
  obtain ⟨hwrote, hread, hsince⟩ : Sound s tr i (.read key userId) := hm ▸ h.sound i
  have hnot : tr.any (deleted key) = false := by
    apply Bool.eq_false_iff.mpr
    intro hdel
    rw [hsince hdel] at halone
    exact nomatch halone
  rcases Outcome.answer_cases (Option.some.inj hr) with ⟨rfl, rfl⟩ | ⟨rfl, hs⟩
  · have hdel : (tr ++ [(i, (⟨.del key, .ok ()⟩ : (op : Op) × op.Reply))]).any (deleted key) = true := by
      simp [deleted]
    refine ⟨.taken key userId, ⟨userId, hm, rfl⟩, h.act ?_ (fun j hj => (hsound j).other hj.symm fun _ _ _ => rfl)
      ⟨hwrote, ?_, hdel, ?_⟩ fun k hkey j hj => ?_⟩
    · refine hledger.concat (fun k hk => ?_) (fun _ _ _ heq => nomatch heq) fun _ _ _ heq => nomatch heq
      obtain rfl : key = k := by simpa [deleted] using hk
      obtain ⟨w, hw, hwkey, -⟩ := hwrote
      exact ⟨Function.update_self _ _ _, w, hw, hwkey⟩
    · obtain ⟨at_, hat⟩ := hread
      exact ⟨at_, List.mem_append_left _ hat⟩
    · -- an answer would have come after another deletion
      rw [List.any_append, h.ledger.unanswered hnot]
      rfl
    · obtain rfl := Option.some.inj hkey
      exact absurd hj (h.unclaimed hwrote hnot j)
  · have hquiet : Quiet i (⟨.del key, .error storeError⟩ : (op : Op) × op.Reply) :=
      ⟨fun _ => rfl, fun _ => rfl, fun _ _ _ heq => nomatch heq⟩
    rcases hs with rfl | rfl
    · exact ⟨.idle, rfl, h.drop hquiet h.ledger fun j _ => h.sound j⟩
    · exact ⟨.idle, rfl, h.drop hquiet hledger fun j _ => hsound j⟩

theorem step_answer (h : TokenInv s tr m) {purpose : TokenPurpose} {token userId : String}
    (hm : m i = .taken (tokenKey purpose token) userId) :
    TokenInv s (tr ++ [(i, ⟨.answer purpose token (some userId), ()⟩)]) (update m i .idle) := by
  obtain ⟨hwrote, hread, hdel, hnot⟩ : Sound s tr i (.taken (tokenKey purpose token) userId) := hm ▸ h.sound i
  refine h.act ?_ (fun j hj => (h.sound j).other hj.symm fun key u hmj => ?_) trivial fun _ hkey => nomatch hkey
  · refine h.ledger.concat (fun _ hd => nomatch hd) (fun _ _ _ heq => nomatch heq) fun purpose' token' userId' heq => ?_
    cases heq
    exact ⟨hnot, hdel, hwrote, hread⟩
  · refine Bool.eq_false_iff.mpr fun hans => hj ?_
    obtain rfl : tokenKey purpose token = key := by simpa [answeredKey] using hans
    exact h.claims j i (tokenKey purpose token) (by rw [hmj]; rfl) (by rw [hm]; rfl)

theorem tokenInv_step {c : Running ι} {op : Op} {k : op.Reply → Program Unit} {r : op.Reply}
    (hI : TokenInv c.world c.trace m) (hG : Orderly c (.step i ch)) (hop : c.thread i = .op op k)
    (hpre : tokenProtocol.pre (m i) op) (hr : exec ch op c.world = some (r, s')) :
    ∃ stage, tokenProtocol.post (m i) op r stage ∧ TokenInv s' (c.trace ++ [(i, ⟨op, r⟩)]) (update m i stage) := by
  cases op with
  | randomBytes purpose userId => exact ⟨_, rfl, step_randomBytes hI hpre hr⟩
  | set key value ttlSeconds =>
      obtain ⟨a, hm, rfl, rfl, rfl⟩ := hpre
      exact ⟨.idle, rfl, step_set hI hm hr⟩
  | get key => exact step_get hI hr
  | del key =>
      obtain ⟨userId, hm⟩ := hpre
      have halone : (since i c.trace).any (deleted key) = false := by
        have := hG.1
        rwa [Alone, Config.performs_step hop ch] at this
      exact step_del hI hm halone hr
  | answer purpose token userId =>
      obtain ⟨rfl, rfl⟩ := Prod.mk.inj (Option.some.inj hr)
      refine ⟨.idle, rfl, ?_⟩
      cases userId with
      | none =>
          exact hI.drop ⟨fun _ => rfl, fun _ => rfl, fun _ _ _ heq => nomatch heq⟩ hI.ledger fun j _ => hI.sound j
      | some userId =>
          rcases hpre with hm | ⟨hm, rfl⟩
          · exact step_answer hI hm
          · -- no token is for the empty user
            obtain ⟨⟨w, hw, -, hval⟩, -⟩ : Sound c.world c.trace i (.read (tokenKey purpose token) "") := hm ▸ hI.sound i
            obtain ⟨a, ha, -, hname, -⟩ := hI.ledger.written w hw
            exact absurd (hname.symm.trans hval) (hI.ledger.named a ha)

/-! ## Runs -/

theorem expiry_TTL (now : Int) (purpose : TokenPurpose) :
    expiry now (some purpose.TTL) = some (now + purpose.TTL * 1000) := by
  cases purpose <;> rfl

theorem TokenInv.answersOnce {c : Running ι} (h : TokenInv c.world c.trace m) : UsedOnce c := by
  have hgenuine : ∀ i purpose token userId,
      (i, (⟨.answer purpose token (some userId), ()⟩ : (op : Op) × op.Reply)) ∈ c.trace →
      ⟨purpose, userId, token⟩ ∈ c.world.issued ∧ ∃ at_, (i, reads (tokenKey purpose token) userId at_) ∈ c.trace := by
    intro i purpose token userId hmem
    obtain ⟨-, ⟨w, hw, hkey, hval⟩, hread⟩ := h.ledger.genuine i purpose token userId hmem
    obtain ⟨a, ha, hwkey, hwval, -⟩ := h.ledger.written w hw
    obtain ⟨hpurpose, htoken⟩ := tokenKey_inj (hwkey.symm.trans hkey)
    have hissue : a = ⟨purpose, userId, token⟩ := by
      rw [← hpurpose, ← htoken, ← hval, hwval]
    exact ⟨hissue ▸ ha, hread⟩
  refine ⟨fun token => ?_, hgenuine, ?_⟩
  · by_contra hmany
    have hpos : 0 < c.trace.countP (answered token) := by omega
    obtain ⟨⟨i, op, r⟩, hmem, hans⟩ := List.countP_pos_iff.mp hpos
    cases op with
    | answer purpose token' userId =>
        cases userId with
        | none => exact nomatch hans
        | some userId =>
            obtain rfl : token' = token := by simpa [answered] using hans
            -- the token was generated once, so all its answers are for one key
            have hle : c.trace.countP (answered token') ≤ c.trace.countP (answeredKey (tokenKey purpose token')) := by
              refine List.countP_mono_left fun ⟨j, op, r⟩ hx hx' => ?_
              cases op with
              | answer purpose' token'' userId' =>
                  cases userId' with
                  | none => exact nomatch hx'
                  | some userId' =>
                      obtain rfl : token'' = token' := by simpa [answered] using hx'
                      have hone := h.ledger.unique _ (hgenuine i purpose token'' userId hmem).1 _
                        (hgenuine j purpose' token'' userId' hx).1 rfl
                      rw [(Issue.mk.inj hone).1]
                      simp [answeredKey]
              | _ => exact nomatch hx'
            have := h.ledger.once (tokenKey purpose token')
            omega
    | _ => exact nomatch hans
  · intro i purpose token userId at_ hmem
    obtain ⟨w, hw, hkey, hval, htime⟩ := h.ledger.inTime i _ userId at_ hmem
    obtain ⟨a, -, hwkey, -, httl⟩ := h.ledger.written w hw
    refine ⟨w, hw, hkey, hval, htime _ ?_⟩
    rw [httl, (tokenKey_inj (hwkey.symm.trans hkey)).1, expiry_TTL]

/-- **If every deletion is alone and no token is for the empty user, each token is used once**, for its own purpose and
user, in time. -/
theorem usedOnce {c : Running ι} (h : Reaches service Orderly (Config.start Store.empty) c) : UsedOnce c := by
  have hinv : ∃ m, TokenInv c.world c.trace m ∧ ∀ i, Follows tokenProtocol (fun _ _ => True) (m i) (c.thread i) := by
    refine Reaches.inv (P := tokenProtocol) (F := fun _ => True) TokenInv ?_ ?_ ?_ h
    · refine ⟨fun _ => .idle, ⟨?_, fun _ => trivial, fun _ _ _ hkey => nomatch hkey⟩, fun _ => trivial⟩
      exact ⟨fun _ ha => absurd ha List.not_mem_nil, fun _ ha => absurd ha List.not_mem_nil,
        fun _ hw => absurd hw List.not_mem_nil, (fun _ _ hentry => nomatch hentry), (fun _ hdel => nomatch hdel),
        fun _ _ _ _ hmem => absurd hmem List.not_mem_nil, fun _ => Nat.zero_le _,
        fun _ _ _ _ hmem => absurd hmem List.not_mem_nil⟩
    · intro c m i call s hI _ hG hs
      obtain rfl := Option.some.inj hs
      refine ⟨.idle, ⟨hI.ledger, ?_, claims_update hI.claims fun _ hkey => nomatch hkey⟩,
        follows_body fun purpose userId hcall => ?_⟩
      · exact (Function.forall_update_iff m fun j stage => Sound c.world c.trace j stage).mpr
          ⟨trivial, fun j _ => hI.sound j⟩
      · subst hcall
        exact hG.2
    · intro c m i ch op k r s hI hG hop hpre hr
      exact tokenInv_step hI hG hop hpre hr
  obtain ⟨m, hI, -⟩ := hinv
  exact hI.answersOnce

/-! ### Two requests with one invite -/

section Race

def call (now : Int) : Choice := ⟨.ok, now, "7f3a"⟩

/-- An invite, and two requests that present it. -/
def invited : List (Act Nat Choice Call) :=
  [.call 0 (.generate .invite "u"), .step 0 (call 0), .step 0 (call 1),
    .call 1 (.consume .invite "7f3a"), .call 2 (.consume .invite "7f3a")]

/-- The second reads after the first has deleted. -/
def inTurn : List (Act Nat Choice Call) :=
  invited ++
    ([.step 1 (call 2), .step 1 (call 3), .step 1 (call 3), .step 2 (call 4), .step 2 (call 4)] : List (Act Nat Choice Call))

theorem usedOnce_in_turn : UsedOnce (service.endOf (Config.start Store.empty) inTurn) :=
  usedOnce (reaches_endOf (by decide +kernel) (by decide +kernel))

/-- Both read before either deletes. -/
def together : List (Act Nat Choice Call) :=
  invited ++ ([.step 1 (call 2), .step 2 (call 2), .step 1 (call 3), .step 2 (call 3), .step 1 (call 3),
    .step 2 (call 3)] : List (Act Nat Choice Call))

theorem not_usedOnce_together :
    ¬ ∀ c : Running Nat, Reaches service (fun _ _ => True) (Config.start Store.empty) c → UsedOnce c := by
  intro h
  have hone := (h _ (reaches_endOf (System.allowed_true _ _ together) (by decide +kernel))).once "7f3a"
  exact absurd hone (by decide +kernel)

end Race

end

end TimeChamp.Tokens
