import Mathlib.Data.List.Basic
import Mathlib.Data.Nat.Notation

/-!
# Objects of strings in JSON

The texts that `JSON.stringify` writes of strings, booleans, null and objects of these, and readers that take such a
text off the head of another.

* `quote s`, `booleanText`, `nullableText`, `object fields` : the texts; `quoteHTML s`, as a writer for HTML has it;
* `chars_escape` : a character is read back from its escape;
* `Within length r` : what the reader takes is no longer than the text; `Within.bind` composes such facts;
* `Reads r text a` : the reader takes `text` for `a`, whatever follows; `Reads.bind`, and `reads_string`,
  `reads_boolean`, `reads_nullable`, `reads_first`, `reads_next`, `reads_close` : the rules, one for each kind of text.
-/

namespace TimeChamp.Lib.Json

abbrev Text := List Char

/-! ## Strings -/

/-- Characters with an escape of their own, and the letter of it. -/
def escapes : List (Char × Char) :=
  [('"', '"'), ('\\', '\\'), (Char.ofNat 8, 'b'), (Char.ofNat 9, 't'), (Char.ofNat 10, 'n'), (Char.ofNat 12, 'f'),
    (Char.ofNat 13, 'r')]

def hexDigit (n : Nat) : Char := if n < 10 then Char.ofNat (48 + n) else Char.ofNat (87 + n)

def hexValue (c : Char) : Option Nat :=
  if '0' ≤ c ∧ c ≤ '9' then some (c.toNat - 48)
  else if 'a' ≤ c ∧ c ≤ 'f' then some (c.toNat - 87)
  else if 'A' ≤ c ∧ c ≤ 'F' then some (c.toNat - 55)
  else none

/-- A character as it stands in a string. -/
def escape (c : Char) : Text :=
  match escapes.find? fun e => e.1 = c with
  | some e => ['\\', e.2]
  | none => if c.toNat < 32 then ['\\', 'u', '0', '0', hexDigit (c.toNat / 16), hexDigit (c.toNat % 16)] else [c]

def quote (s : String) : Text := '"' :: s.toList.flatMap escape ++ ['"']

/-- The character that a backslash and this letter stand for. -/
def unescape (letter : Char) : Option Char :=
  if letter = '/' then some '/' else (escapes.find? fun e => e.2 = letter).map Prod.fst

/-- The character of four hexadecimal digits; half a surrogate pair is none. -/
def ofHex (a b c d : Char) : Option Char := do
  let n := (((← hexValue a) * 16 + (← hexValue b)) * 16 + (← hexValue c)) * 16 + (← hexValue d)
  if n.isValidChar then some (Char.ofNat n) else none

/-- The rest of a string up to its closing quote, and what follows. -/
def chars : Text → Option (Text × Text)
  | [] => none
  | c :: rest =>
    if c = '"' then some ([], rest)
    else if c = '\\' then
      match rest with
      | [] => none
      | letter :: rest =>
        if letter = 'u' then
          match rest with
          | w :: x :: y :: z :: rest => (ofHex w x y z).bind fun c => (chars rest).map fun p => (c :: p.1, p.2)
          | _ => none
        else (unescape letter).bind fun c => (chars rest).map fun p => (c :: p.1, p.2)
    else if c.toNat < 32 then none
    else (chars rest).map fun p => (c :: p.1, p.2)

theorem hexValue_hexDigit {n : Nat} (h : n < 16) : hexValue (hexDigit n) = some n := by
  have hall : ∀ n < 16, hexValue (hexDigit n) = some n := by decide
  exact hall n h

theorem ofHex_control {n : Nat} (h : n < 32) :
    ofHex '0' '0' (hexDigit (n / 16)) (hexDigit (n % 16)) = some (Char.ofNat n) := by
  have hzero : hexValue '0' = some 0 := by decide
  have hhigh : hexValue (hexDigit (n / 16)) = some (n / 16) := hexValue_hexDigit (by omega)
  have hlow : hexValue (hexDigit (n % 16)) = some (n % 16) := hexValue_hexDigit (by omega)
  have hn : ((0 * 16 + 0) * 16 + n / 16) * 16 + n % 16 = n := by omega
  have hvalid : n.isValidChar := Or.inl (by omega)
  simp only [ofHex, hzero, hhigh, hlow, Option.bind_eq_bind, Option.bind_some, hn, if_pos hvalid]

theorem unescape_of_mem {e : Char × Char} (h : e ∈ escapes) : e.2 ≠ 'u' ∧ unescape e.2 = some e.1 := by
  have hall : ∀ e ∈ escapes, e.2 ≠ 'u' ∧ unescape e.2 = some e.1 := by decide
  exact hall e h

theorem chars_letter {letter : Char} (h : letter ≠ 'u') (rest : Text) :
    chars ('\\' :: letter :: rest) = (unescape letter).bind fun c => (chars rest).map fun p => (c :: p.1, p.2) := by
  rw [chars.eq_def]
  simp only [show ¬ '\\' = '"' by decide, h, if_false, if_true]

theorem chars_hex (w x y z : Char) (rest : Text) :
    chars ('\\' :: 'u' :: w :: x :: y :: z :: rest) =
      (ofHex w x y z).bind fun c => (chars rest).map fun p => (c :: p.1, p.2) := by
  rw [chars.eq_def]
  simp only [show ¬ '\\' = '"' by decide, if_false, if_true]

theorem chars_end (rest : Text) : chars ('"' :: rest) = some ([], rest) := by
  rw [chars.eq_def]
  simp only [if_true]

theorem chars_plain {c : Char} (hquote : c ≠ '"') (hslash : c ≠ '\\') (hlow : ¬ c.toNat < 32) (rest : Text) :
    chars (c :: rest) = (chars rest).map fun p => (c :: p.1, p.2) := by
  rw [chars.eq_def]
  simp only [hquote, hslash, hlow, if_false]

/-- **A character is read back from its escape.** -/
theorem chars_escape (c : Char) (rest : Text) :
    chars (escape c ++ rest) = (chars rest).map fun p => (c :: p.1, p.2) := by
  unfold escape
  cases hfind : escapes.find? fun e => e.1 = c with
  | some e =>
      obtain ⟨hletter, hchar⟩ := unescape_of_mem (List.mem_of_find?_eq_some hfind)
      have hc : e.1 = c := by simpa using List.find?_some hfind
      show chars ('\\' :: e.2 :: rest) = _
      rw [chars_letter hletter, hchar, Option.bind_some, hc]
  | none =>
      have hnot := List.find?_eq_none.mp hfind
      split_ifs with hlow
      · show chars ('\\' :: 'u' :: '0' :: '0' :: hexDigit (c.toNat / 16) :: hexDigit (c.toNat % 16) :: rest) = _
        rw [chars_hex, ofHex_control hlow, Char.ofNat_toNat, Option.bind_some]
      · have hquote : c ≠ '"' := fun h => by simpa [h] using hnot ('"', '"') (by decide)
        have hslash : c ≠ '\\' := fun h => by simpa [h] using hnot ('\\', '\\') (by decide)
        exact chars_plain hquote hslash hlow rest

/-- Characters that are each read back from what is written of them. -/
theorem chars_flatMap {write : Char → Text}
    (h : ∀ c rest, chars (write c ++ rest) = (chars rest).map fun p => (c :: p.1, p.2)) (t rest : Text) :
    chars (t.flatMap write ++ '"' :: rest) = some (t, rest) := by
  induction t with
  | nil => rw [List.flatMap_nil, List.nil_append, chars_end]
  | cons c t ih => rw [List.flatMap_cons, List.append_assoc, h, ih, Option.map_some]


/-! ## Strings for HTML -/

/-- Characters that a writer for HTML escapes as well. -/
def htmlUnsafe : List Char := ['<', '>', '&', Char.ofNat 8232, Char.ofNat 8233]

/-- A character below two to the 16 by its four hexadecimal digits. -/
def escapeHex (n : Nat) : Text :=
  ['\\', 'u', hexDigit (n / 4096 % 16), hexDigit (n / 256 % 16), hexDigit (n / 16 % 16), hexDigit (n % 16)]

def escapeHTML (c : Char) : Text := if c ∈ htmlUnsafe then escapeHex c.toNat else escape c

def quoteHTML (s : String) : Text := '"' :: s.toList.flatMap escapeHTML ++ ['"']

/-! ## Readers -/

/-- Takes a value off the head of a text. -/
abbrev Reader (α : Type) := StateT Text Option α

/-- The reader takes the text for this value, whatever follows. -/
def Reads {α : Type} (r : Reader α) (text : Text) (a : α) : Prop := ∀ rest, r.run (text ++ rest) = some (a, rest)

def literal (text : Text) : Reader Unit := fun cs => if text.isPrefixOf cs then some ((), cs.drop text.length) else none

def string : Reader String := do
  literal ['"']
  let t ← (chars : Reader Text)
  return String.ofList t

def booleanText (b : Bool) : Text := if b then "true".toList else "false".toList

def boolean : Reader Bool := fun cs =>
  match (literal "true".toList).run cs with
  | some p => some (true, p.2)
  | none => ((literal "false".toList).run cs).map fun p => (false, p.2)

def nullText : Text := "null".toList

def nullableText {α : Type} (text : α → Text) : Option α → Text
  | none => nullText
  | some a => text a

def nullable {α : Type} (r : Reader α) : Reader (Option α) := fun cs =>
  match (literal nullText).run cs with
  | some p => some (none, p.2)
  | none => (r.run cs).map fun p => (some p.1, p.2)

/-! ## Objects -/

def field (key : String) (text : Text) : Text := quote key ++ ':' :: text

def moreFields : List (String × Text) → Text
  | [] => ['}']
  | f :: fields => (',' :: field f.1 f.2) ++ moreFields fields

/-- An object with these keys and texts, in this order. -/
def object : List (String × Text) → Text
  | [] => ['{', '}']
  | f :: fields => ('{' :: field f.1 f.2) ++ moreFields fields

def member {α : Type} (key : String) (r : Reader α) : Reader α := do
  literal (quote key ++ [':'])
  r

/-- The first field of an object. -/
def first {α : Type} (key : String) (r : Reader α) : Reader α := do
  literal ['{']
  member key r

/-- A further one. -/
def next {α : Type} (key : String) (r : Reader α) : Reader α := do
  literal [',']
  member key r

/-- The end of an object, which was this one. -/
def close {α : Type} (a : α) : Reader α := do
  literal ['}']
  return a

/-- What the reader takes the whole text for. -/
def parse {α : Type} (r : Reader α) (s : String) : Option α :=
  match r.run s.toList with
  | some (a, []) => some a
  | _ => none

section
variable {α β : Type} {r : Reader α} {text : Text} {a : α}

theorem Reads.bind {f : α → Reader β} {more : Text} {b : β} (h : Reads r text a) (hf : Reads (f a) more b) :
    Reads (r >>= f) (text ++ more) b := by
  intro rest
  rw [StateT.run_bind, List.append_assoc, h]
  exact hf rest

theorem reads_literal (text : Text) : Reads (literal text) text () := by
  intro rest
  have hstarts : text.isPrefixOf (text ++ rest) = true := List.isPrefixOf_iff_prefix.mpr (List.prefix_append _ _)
  show (if _ then _ else _) = _
  rw [if_pos hstarts, List.drop_left]

theorem reads_return (a : α) : Reads (pure a) [] a := fun _ => rfl

/-- A string is read back from whatever its characters are read back from. -/
theorem reads_flatMap {write : Char → Text}
    (h : ∀ c rest, chars (write c ++ rest) = (chars rest).map fun p => (c :: p.1, p.2)) (s : String) :
    Reads string ('"' :: s.toList.flatMap write ++ ['"']) s := by
  have hchars : Reads (chars : Reader Text) (s.toList.flatMap write ++ ['"']) s.toList := by
    intro rest
    rw [List.append_assoc]
    exact chars_flatMap h s.toList rest
  have hreturn := hchars.bind (f := fun t => (pure (String.ofList t) : Reader String)) (reads_return _)
  rw [String.ofList_toList, List.append_nil] at hreturn
  exact (reads_literal ['"']).bind hreturn

/-- **A string is read back.** -/
theorem reads_string (s : String) : Reads string (quote s) s := reads_flatMap chars_escape s

theorem reads_boolean (b : Bool) : Reads boolean (booleanText b) b := by
  intro rest
  cases b <;> rfl

/-- The text is not that of null. -/
def NotNull (text : Text) : Prop := ∀ rest, (literal nullText).run (text ++ rest) = none

theorem notNull_quote (s : String) : NotNull (quote s) := fun _ => rfl

theorem nullable_run (r : Reader α) (cs : Text) :
    (nullable r).run cs = match (literal nullText).run cs with
      | some p => some (none, p.2)
      | none => (r.run cs).map fun p => (some p.1, p.2) := rfl

theorem reads_nullable {write : α → Text} (hread : ∀ a, Reads r (write a) a) (hnull : ∀ a, NotNull (write a))
    (value : Option α) : Reads (nullable r) (nullableText write value) value := by
  intro rest
  cases value with
  | none => rw [nullable_run, nullableText, reads_literal nullText rest]
  | some a => rw [nullable_run, nullableText, hnull a rest, hread a rest, Option.map_some]

theorem reads_member (h : Reads r text a) (key : String) : Reads (member key r) (field key text) a := by
  have hboth := (reads_literal (quote key ++ [':'])).bind (f := fun _ => r) h
  rw [List.append_assoc] at hboth
  exact hboth

theorem reads_first (h : Reads r text a) (key : String) : Reads (first key r) ('{' :: field key text) a :=
  (reads_literal ['{']).bind (f := fun _ => member key r) (reads_member h key)

theorem reads_next (h : Reads r text a) (key : String) : Reads (next key r) (',' :: field key text) a :=
  (reads_literal [',']).bind (f := fun _ => member key r) (reads_member h key)

theorem reads_close (a : α) : Reads (close a) ['}'] a := (reads_literal ['}']).bind (reads_return a)

/-! ## Lengths -/

/-- A value that the reader takes, and what it leaves, are together no longer than the text. -/
def Within {α : Type} (length : α → Nat) (r : Reader α) : Prop :=
  ∀ (cs rest : Text) (a : α), r.run cs = some (a, rest) → length a + rest.length ≤ cs.length

theorem within_literal (text : Text) : Within (fun _ => 0) (literal text) := by
  intro cs rest a h
  change (if _ then some ((), cs.drop text.length) else none) = _ at h
  split_ifs at h
  obtain ⟨-, rfl⟩ := Prod.mk.inj (Option.some.inj h)
  rw [Nat.zero_add, List.length_drop]
  exact Nat.sub_le _ _

theorem Within.bind {length : β → Nat} {first : Reader Unit} {r : Reader β} (hfirst : Within (fun _ => 0) first)
    (h : Within length r) : Within length (first >>= fun _ => r) := by
  intro cs rest b hrun
  rw [StateT.run_bind] at hrun
  obtain ⟨⟨_, mid⟩, hmid, hrest⟩ := Option.bind_eq_some_iff.mp hrun
  have hle := hfirst cs mid () hmid
  rw [Nat.zero_add] at hle
  exact Nat.le_trans (h mid rest b hrest) hle

/-- **What is read of a text is all of it.** -/
theorem Reads.parse (h : Reads r text a) : parse r (String.ofList text) = some a := by
  have hrun := h []
  rw [List.append_nil] at hrun
  rw [Json.parse, String.toList_ofList, hrun]

end

end TimeChamp.Lib.Json
