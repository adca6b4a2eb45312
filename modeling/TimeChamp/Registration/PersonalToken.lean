import Mathlib.Data.List.Basic

/-!
# Personal tokens

The dashboard shows each user a token that is built from its name, and the registration of an agent asks for a UUID.

* `trim`, `toLowerCase` : what the builder does to a name, as far as it shows in the result;
* `buildPersonalToken` : `<slug>-<hex>`; `count_buildPersonalToken` : **it has one dash**;
* `digits_of_buildPersonalToken` : after the dash it has the random number;
* `isUUID` : the form the registration asks for; `count_of_isUUID` : it has four;
* `not_isUUID_buildPersonalToken` : so no token that is built is a UUID.
-/

namespace TimeChamp.Registration

structure User where
  id : String
  organizationId : String
  email : String
  firstName : String
  lastName : String
  isActive : Bool
  agentToken : Option String
deriving DecidableEq

/-! ## Texts -/

/-- The white space and line ends of the language. -/
def isWhiteSpace (c : Char) : Bool :=
  c.toNat ∈ [0x9, 0xA, 0xB, 0xC, 0xD, 0x20, 0xA0, 0x1680, 0x2028, 0x2029, 0x202F, 0x205F, 0x3000, 0xFEFF] ||
    (0x2000 ≤ c.toNat && c.toNat ≤ 0x200A)

def trim (s : String) : String :=
  String.ofList ((s.toList.dropWhile isWhiteSpace).reverse.dropWhile isWhiteSpace).reverse

/-- `toLowerCase`, exact on what becomes a letter from a to z: besides A to Z these are the dotted I and the Kelvin sign.
Other letters are left as they are. -/
def toLowerCase (c : Char) : List Char :=
  if c.toNat = 0x130 then ['i', Char.ofNat 0x307] else if c.toNat = 0x212A then ['k'] else [c.toLower]

/-- `[a-z0-9]`. -/
def isSlugChar (c : Char) : Bool := ('a' ≤ c && c ≤ 'z') || ('0' ≤ c && c ≤ '9')

/-- The first of two texts that is not empty. -/
def orElse (s t : String) : String := if s = "" then t else s

/-! ## The builder -/

/-- The name, or else what the address has before its first `@`. -/
def nameSource (u : User) : String :=
  orElse (trim (u.firstName ++ u.lastName)) (String.ofList (u.email.toList.takeWhile (· ≠ '@')))

def slug (u : User) : String :=
  orElse (String.ofList ((((nameSource u).toList.flatMap toLowerCase).filter isSlugChar).take 24)) "user"

/-- With what `randomUUID` returned. -/
def buildPersonalToken (u : User) (uuid : String) : String :=
  slug u ++ "-" ++ String.ofList (uuid.toList.filter (· ≠ '-'))

def userName (u : User) : String := orElse (trim (u.firstName ++ " " ++ u.lastName)) u.email

/-! ## The validator -/

/-- A hexadecimal digit, in either case. -/
def isHexDigit (c : Char) : Bool := c.isDigit || ('a' ≤ c && c ≤ 'f') || ('A' ≤ c && c ≤ 'F')

/-- The form 8-4-4-4-12: four dashes at their places, and 32 hexadecimal digits. -/
def isUUID (s : String) : Bool :=
  let digits := s.toList.filter (· ≠ '-')
  s.toList.length == 36 && [8, 13, 18, 23].all (fun i => s.toList[i]? == some '-') && digits.length == 32 &&
    digits.all isHexDigit

example : isUUID "123e4567-E89b-12d3-a456-426614174000" = true := by decide +kernel

/-! ## Dashes -/

theorem count_slug (u : User) : (slug u).toList.count '-' = 0 := by
  rw [List.count_eq_zero]
  unfold slug orElse
  split_ifs
  · decide
  · rw [String.toList_ofList]
    intro hmem
    exact absurd (List.mem_filter.mp (List.mem_of_mem_take hmem)).2 (by decide)

/-- **A token that is built has one dash.** -/
theorem count_buildPersonalToken (u : User) (uuid : String) : (buildPersonalToken u uuid).toList.count '-' = 1 := by
  have hhex : (uuid.toList.filter (· ≠ '-')).count '-' = 0 := by
    rw [List.count_eq_zero]
    intro hmem
    exact absurd (List.mem_filter.mp hmem).2 (by decide)
  unfold buildPersonalToken
  rw [String.toList_append, String.toList_append, List.count_append, List.count_append, count_slug, String.toList_ofList,
    String.toList_ofList, hhex]
  rfl

/-- **What a built token has after its dash is the random number.** -/
theorem digits_of_buildPersonalToken {u v : User} {uuid uuid' : String}
    (h : buildPersonalToken u uuid = buildPersonalToken v uuid') :
    uuid.toList.filter (· ≠ '-') = uuid'.toList.filter (· ≠ '-') := by
  have hafter : ∀ (w : User) (x : String), ((buildPersonalToken w x).toList.dropWhile (· ≠ '-')) =
      '-' :: x.toList.filter (· ≠ '-') := by
    intro w x
    have hslug : ∀ c ∈ (slug w).toList, decide (c ≠ '-') = true := by
      intro c hc
      apply decide_eq_true
      intro heq
      exact absurd (heq ▸ hc) (List.count_eq_zero.mp (count_slug w))
    unfold buildPersonalToken
    rw [String.toList_append, String.toList_append, String.toList_ofList, List.append_assoc,
      List.dropWhile_append_of_pos hslug, String.toList_ofList]
    rfl
  have heq := hafter u uuid
  rw [h, hafter v uuid'] at heq
  exact (List.cons.inj heq).2.symm

theorem count_of_isUUID {s : String} (h : isUUID s = true) : s.toList.count '-' = 4 := by
  unfold isUUID at h
  dsimp only at h
  rw [Bool.and_eq_true, Bool.and_eq_true, Bool.and_eq_true, beq_iff_eq, beq_iff_eq] at h
  obtain ⟨⟨⟨hlen, -⟩, hdigits⟩, -⟩ := h
  have hsplit := List.length_eq_countP_add_countP (fun c => c == '-') (l := s.toList)
  have hothers : s.toList.countP (fun c => decide ¬(c == '-') = true) = (s.toList.filter (· ≠ '-')).length := by
    rw [List.countP_eq_length_filter]
    congr 2
    funext c
    simp
  change s.toList.length = s.toList.count '-' + _ at hsplit
  omega

/-- **No token that is built is a UUID.** -/
theorem not_isUUID_buildPersonalToken (u : User) (uuid : String) : isUUID (buildPersonalToken u uuid) = false := by
  rw [Bool.eq_false_iff]
  intro h
  have hfour := count_of_isUUID h
  rw [count_buildPersonalToken] at hfour
  exact absurd hfour (by decide)

end TimeChamp.Registration
