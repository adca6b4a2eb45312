import TimeChamp.Lib.Texts

/-!
# The tenant of a request

`common/middleware/tenant.middleware.ts`: before a request is handled, the organization of its user is set in the
database.

* `use` : what the middleware does, in order; `next` is called last, with an error or without;
* `startsWith_iff` : the paths the code takes for public are all that begin with a slash, as the root is one of the
  prefixes;
* `Public` : the paths that are listed, or below one that is listed, the root apart;
* `statement_safe` : **a statement is run only for an id of hexadecimal digits and dashes**;
* `tenantSet_iff` : **the tenant is set as it should be exactly when there is none to set, or the path is public, or it
  does not begin with a slash.**
-/

namespace TimeChamp.Tenant
open TimeChamp.Lib

/-- `PUBLIC_PATHS`. -/
def publicPaths : List String :=
  ["/api/docs", "/api/v1/auth/register", "/api/v1/auth/login", "/api/v1/auth/refresh", "/api/v1/billing/webhook",
    "/health", "/robots933456.txt", "/favicon.ico", "/"]

/-- A character of `[0-9a-f]`, in either case. -/
def hexDigit (c : Char) : Bool := c.isDigit || ('a' ≤ c && c ≤ 'f') || ('A' ≤ c && c ≤ 'F')

/-- Groups of so many hexadecimal digits with dashes between. -/
def hexGroups : List Nat → List Char → Bool
  | [], _ => false
  | [n], cs => cs.length == n && cs.all hexDigit
  | n :: ns, cs =>
    (cs.take n).length == n && (cs.take n).all hexDigit && cs[n]? == some '-' && hexGroups ns (cs.drop (n + 1))

/-- `UUID_REGEX.test`. -/
def uuidRegex (s : String) : Bool := hexGroups [8, 4, 4, 4, 12] s.toList

def startsWith (s p : String) : Bool := p.toList.isPrefixOf s.toList

/-- What the middleware reads of `req.user`. -/
structure User where
  organizationId : Option String
deriving DecidableEq

structure Error where
  message : String
deriving DecidableEq

/-- What the middleware does: a statement is run, or the next handler called. -/
inductive Action where
  | query (statement : String)
  | next (err : Option Error)
deriving DecidableEq

/-- The statement that sets the tenant. -/
def setCurrentOrg (orgId : String) : String := "SET LOCAL app.current_org = '" ++ orgId ++ "'"

/-- `user?.organizationId`, if it is not empty. -/
def orgOf (user : Option User) : Option String :=
  (user.bind User.organizationId).filter fun orgId => orgId != ""

/-- `TenantMiddleware.use`; `query` says whether a statement fails. -/
def use (query : String → Option Error) (path : String) (user : Option User) : List Action :=
  if publicPaths.any (startsWith path) then [.next none]
  else
    match orgOf user with
    | none => [.next none]
    | some orgId =>
      if !uuidRegex orgId then [.next (some ⟨"Invalid organization id format"⟩)]
      else
        match query (setCurrentOrg orgId) with
        | some err => [.query (setCurrentOrg orgId), .next (some err)]
        | none => [.query (setCurrentOrg orgId), .next none]

/-- The path is listed, or below one that is listed other than the root. -/
def Public (path : String) : Prop :=
  path ∈ publicPaths ∨ ∃ p ∈ publicPaths, p ≠ "/" ∧ startsWith path (p ++ "/") = true

instance (path : String) : Decidable (Public path) := inferInstanceAs (Decidable (_ ∨ _))

/-- The tenant of the user, if there is one that may be set. -/
def HasTenant (user : Option User) (orgId : String) : Prop := orgOf user = some orgId ∧ uuidRegex orgId = true

/-- What the middleware is for. -/
structure TenantSet (query : String → Option Error) (path : String) (user : Option User) : Prop where
  /-- The tenant is set before the next handler is called. -/
  sets : ¬ Public path → ∀ orgId, HasTenant user orgId →
    ∃ err, use query path user = [.query (setCurrentOrg orgId), .next err]
  /-- No other statement is run. -/
  only : ∀ statement, .query statement ∈ use query path user →
    ∃ orgId, HasTenant user orgId ∧ statement = setCurrentOrg orgId
  /-- And none on a public path. -/
  nothing : Public path → ∀ statement, .query statement ∉ use query path user

/-! ## Public paths -/

theorem startsWith_trans {s p q : String} (h : startsWith s p = true) (hq : startsWith p q = true) :
    startsWith s q = true := by
  unfold startsWith at *
  rw [List.isPrefixOf_iff_prefix] at *
  exact hq.trans h

theorem publicPaths_slash : publicPaths.all (fun p => startsWith p "/") = true := by decide +kernel

/-- **The root makes every path public that begins with a slash.** -/
theorem startsWith_iff (path : String) : publicPaths.any (startsWith path) = true ↔ startsWith path "/" = true := by
  rw [List.any_eq_true]
  constructor
  · rintro ⟨p, hp, hstarts⟩
    exact startsWith_trans hstarts (List.all_eq_true.mp publicPaths_slash p hp)
  · intro h
    refine ⟨"/", ?_, h⟩
    simp [publicPaths]

theorem Public.slash {path : String} (h : Public path) : startsWith path "/" = true := by
  have hall := List.all_eq_true.mp publicPaths_slash
  obtain hmem | ⟨p, hp, -, hbelow⟩ := h
  · exact hall path hmem
  · apply startsWith_trans _ (hall p hp)
    apply startsWith_trans hbelow
    unfold startsWith
    rw [List.isPrefixOf_iff_prefix, String.toList_append]
    exact List.prefix_append _ _

/-! ## What is run -/

theorem use_of_slash (query : String → Option Error) {path : String} (user : Option User)
    (h : startsWith path "/" = true) : use query path user = [.next none] :=
  if_pos ((startsWith_iff path).mpr h)

theorem use_of_not_slash (query : String → Option Error) {path : String} {user : Option User} {orgId : String}
    (h : startsWith path "/" = false) (ht : HasTenant user orgId) :
    use query path user = [.query (setCurrentOrg orgId), .next (query (setCurrentOrg orgId))] := by
  have hnot : ¬ publicPaths.any (startsWith path) = true := by
    rw [startsWith_iff, h]
    decide
  unfold use
  rw [if_neg hnot, ht.1]
  simp only [ht.2, Bool.not_true, Bool.false_eq_true, if_false]
  cases query (setCurrentOrg orgId) <;> rfl

theorem statement_of_mem {query : String → Option Error} {path : String} {user : Option User} {statement : String}
    (h : .query statement ∈ use query path user) : ∃ orgId, HasTenant user orgId ∧ statement = setCurrentOrg orgId := by
  unfold use at h
  split at h
  · simp at h
  · split at h
    · simp at h
    · rename_i orgId horg
      split at h
      · simp at h
      · rename_i huuid
        refine ⟨orgId, ⟨horg, by simpa using huuid⟩, ?_⟩
        split at h <;> simpa using h

theorem all_uuidChar_of_hexGroups {ns : List Nat} {cs : List Char} (h : hexGroups ns cs = true) :
    cs.all uuidChar = true := by
  have hhex : ∀ ds : List Char, ds.all hexDigit = true → ds.all uuidChar = true := by
    intro ds hds
    rw [List.all_eq_true] at hds ⊢
    intro c hc
    unfold uuidChar
    rw [Bool.or_eq_true]
    exact Or.inl (hds c hc)
  induction ns generalizing cs with
  | nil => exact absurd h (by simp [hexGroups])
  | cons n ns ih =>
      cases ns with
      | nil =>
          rw [hexGroups, Bool.and_eq_true] at h
          exact hhex cs h.2
      | cons m ms =>
          rw [hexGroups] at h
          · simp only [Bool.and_eq_true, beq_iff_eq] at h
            obtain ⟨⟨⟨-, hdigits⟩, hdash⟩, hrest⟩ := h
            have hsplit : cs = cs.take n ++ '-' :: cs.drop (n + 1) := by
              obtain ⟨hn, hc⟩ := List.getElem?_eq_some_iff.mp hdash
              rw [← hc, ← List.drop_eq_getElem_cons hn, List.take_append_drop]
            rw [hsplit, List.all_append, List.all_cons, hhex _ hdigits, ih hrest]
            decide
          · simp

/-- **No quote in the id** ends the literal it stands in. -/
theorem statement_safe {query : String → Option Error} {path : String} {user : Option User} {statement : String}
    (h : .query statement ∈ use query path user) :
    ∃ orgId, orgId.toList.all uuidChar = true ∧ statement = setCurrentOrg orgId := by
  obtain ⟨orgId, ht, rfl⟩ := statement_of_mem h
  exact ⟨orgId, all_uuidChar_of_hexGroups ht.2, rfl⟩

/-! ## When the tenant is set -/

/-- **When the middleware does what it is for.** For every path, every user and whatever the database answers: the tenant
is set before the next handler on a path that is not public, no other statement is run, and none on a public path, exactly
when there is no tenant, or the path is public, or it does not begin with a slash. -/
theorem tenantSet_iff (query : String → Option Error) (path : String) (user : Option User) :
    TenantSet query path user ↔ (∀ orgId, ¬ HasTenant user orgId) ∨ Public path ∨ startsWith path "/" = false := by
  constructor
  · intro h
    by_contra hnot
    rw [not_or, not_or, not_forall] at hnot
    obtain ⟨⟨orgId, ht⟩, hpublic, hslash⟩ := hnot
    obtain ⟨err, herr⟩ := h.sets hpublic orgId (not_not.mp ht)
    rw [use_of_slash query user (by simpa using hslash)] at herr
    exact absurd herr (by simp)
  · intro h
    refine ⟨?_, fun _ => statement_of_mem, ?_⟩
    · intro hpublic orgId ht
      obtain hnone | hin | hslash := h
      · exact absurd ht (hnone orgId)
      · exact absurd hin hpublic
      · exact ⟨_, use_of_not_slash query hslash ht⟩
    · intro hpublic statement
      rw [use_of_slash query user hpublic.slash]
      simp

/-- The list of employees, asked for by a user of an organization. -/
def employees : String × Option User := ("/api/v1/employees", some ⟨some "123e4567-e89b-12d3-a456-426614174000"⟩)

/-- **The tenant is not set** for a request to the API. -/
theorem not_tenantSet_employees : ¬ TenantSet (fun _ => none) employees.1 employees.2 := by
  intro h
  have htenant : HasTenant employees.2 "123e4567-e89b-12d3-a456-426614174000" := ⟨by decide +kernel, by decide +kernel⟩
  obtain ⟨err, herr⟩ := h.sets (by decide +kernel) _ htenant
  have hnext : use (fun _ => none) employees.1 employees.2 = [.next none] := by decide +kernel
  rw [hnext] at herr
  exact absurd herr (by simp)

end TimeChamp.Tenant
