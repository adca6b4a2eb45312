import TimeChamp.Lib.Bytes
import TimeChamp.Lib.Json

/-!
# Objects of strings, as `encoding/json` reads them

`json.Unmarshal` into a struct: white space may stand between the tokens, the members may come in any order and be of
any kind, and those that are not read may hold anything.

* `decodeRunes` : the characters of some bytes, U+FFFD for each byte that is of none;
* `piece`, `joinHalves`, `text` : a string, with surrogate pairs joined; `Token`, `tokens` : the tokens of a text;
* `State`, `step`, `members` : the reader, with the brackets that are open, and the members of the outermost object;
* `members_object` : **an object of strings is read back**;
* `size_of_members` : **what is read is no longer than the text**.
-/

namespace TimeChamp.Lib.GoJson
open Json (Text Reader Reads)

/-! ## Characters -/

/-- What stands for bytes or code points that are no character. -/
def replacement : Char := Char.ofNat 0xFFFD

/-- The characters, once some more bytes of the last one are passed over. -/
def runes : Nat → List UInt8 → Text
  | _, [] => []
  | more + 1, _ :: bs => runes more bs
  | 0, b :: bs =>
    match ByteArray.utf8DecodeChar? ⟨(b :: bs).toArray⟩ 0 with
    | some c => c :: runes (c.utf8Size - 1) bs
    | none => replacement :: runes 0 bs

def decodeRunes (bs : List UInt8) : Text := runes 0 bs

example : decodeRunes [0x61, 0xE2, 0x82, 0xC3, 0xA9] = ['a', replacement, replacement, 'é'] := by decide +kernel

theorem length_runes (more : Nat) (bs : List UInt8) : (runes more bs).length ≤ bs.length := by
  induction bs generalizing more with
  | nil => cases more <;> exact Nat.le_refl _
  | cons b bs ih =>
      cases more with
      | zero =>
          rw [runes]
          split
          · exact Nat.succ_le_succ (ih _)
          · exact Nat.succ_le_succ (ih _)
      | succ more => exact Nat.le_succ_of_le (ih more)

theorem runes_append {more : Nat} {bs : List UInt8} (h : bs.length = more) (rest : List UInt8) :
    runes more (bs ++ rest) = runes 0 rest := by
  induction bs generalizing more with
  | nil =>
      obtain rfl := h
      rfl
  | cons b bs ih =>
      obtain rfl := h
      exact ih rfl

/-- **A text is read back from its bytes.** -/
theorem decodeRunes_utf8 (s : String) : decodeRunes (utf8 s) = s.toList := by
  have hlist : ∀ cs : List Char, runes 0 cs.utf8Encode.data.toList = cs := by
    intro cs
    induction cs with
    | nil => rfl
    | cons c cs ih =>
        have hbytes : (c :: cs).utf8Encode.data.toList = String.utf8EncodeChar c ++ cs.utf8Encode.data.toList := by
          rw [List.utf8Encode_cons, List.utf8Encode_singleton]
          simp
        have hdecode := List.utf8DecodeChar?_utf8Encode_cons (l := cs) (c := c)
        have hlength : (String.utf8EncodeChar c).length = c.utf8Size := String.length_utf8EncodeChar c
        have hpos := c.utf8Size_pos
        cases hchar : String.utf8EncodeChar c with
        | nil =>
            rw [hchar] at hlength
            simp at hlength
            omega
        | cons b bs =>
            rw [hchar] at hlength
            have harray : (⟨(b :: (bs ++ cs.utf8Encode.data.toList)).toArray⟩ : ByteArray) = (c :: cs).utf8Encode := by
              rw [← List.cons_append, ← hchar, ← hbytes]
            rw [hbytes, hchar, List.cons_append, runes, harray, hdecode]
            show c :: runes (c.utf8Size - 1) (bs ++ _) = _
            rw [runes_append (by simp at hlength; omega), ih]
  have h := hlist s.toList
  have hs : s.toList.utf8Encode = s.toByteArray := by
    rw [← String.toByteArray_ofList, String.ofList_toList]
  rw [hs] at h
  exact h

/-! ## Strings -/

/-- The number of four hexadecimal digits. -/
def hexCode (w x y z : Char) : Option Nat := do
  return (((← Json.hexValue w) * 16 + (← Json.hexValue x)) * 16 + (← Json.hexValue y)) * 16 + (← Json.hexValue z)

/-- What a character of a string, or its escape, stands for: a code point or half of one. -/
def piece : Reader Nat := fun cs =>
  match cs with
  | [] => none
  | c :: rest =>
    if c ≠ '\\' then if c.toNat < 32 then none else some (c.toNat, rest)
    else
      match rest with
      | [] => none
      | letter :: rest =>
        if letter ≠ 'u' then (Json.unescape letter).map fun c => (c.toNat, rest)
        else
          match rest with
          | w :: x :: y :: z :: rest => (hexCode w x y z).map fun n => (n, rest)
          | _ => none

/-- At most so many of them, up to the closing quote. -/
def pieces : Nat → Reader (List Nat)
  | 0 => fun _ => none
  | n + 1 => fun cs =>
    match cs with
    | [] => none
    | c :: rest =>
      if c = '"' then some ([], rest)
      else (piece.run cs).bind fun p => ((pieces n).run p.2).map fun q => (p.1 :: q.1, q.2)

def charOf (n : Nat) : Char := if n.isValidChar then Char.ofNat n else replacement

/-- The code point of two halves. -/
def pair (high low : Nat) : Option Nat :=
  if 0xD800 ≤ high ∧ high < 0xDC00 ∧ 0xDC00 ≤ low ∧ low < 0xE000 then
    some (0x10000 + (high - 0xD800) * 0x400 + (low - 0xDC00))
  else none

/-- The characters; a half without the other is replaced. -/
def joinHalves : List Nat → Text
  | [] => []
  | [n] => [charOf n]
  | high :: low :: ns =>
    match pair high low with
    | some n => charOf n :: joinHalves ns
    | none => charOf high :: joinHalves (low :: ns)

/-- A string, with its quotes. -/
def text : Reader String := do
  Json.literal ['"']
  let ns : List Nat ← fun cs => (pieces cs.length).run cs
  return String.ofList (joinHalves ns)

example : (text.run "\"\\ud83d\\ude00\\ud83d\\u0041\"".toList).map Prod.fst =
    some (String.ofList [Char.ofNat 0x1F600, replacement, 'A']) := by decide +kernel

/-- One character is written so that it is read back, and does not end the string. -/
def Writes (write : Char → Text) : Prop :=
  ∀ c, (∃ d ds, write c = d :: ds ∧ d ≠ '"') ∧ ∀ rest, piece.run (write c ++ rest) = some (c.toNat, rest)

theorem hexCode_control {n : Nat} (h : n < 32) :
    hexCode '0' '0' (Json.hexDigit (n / 16)) (Json.hexDigit (n % 16)) = some n := by
  have hall : ∀ n < 32, hexCode '0' '0' (Json.hexDigit (n / 16)) (Json.hexDigit (n % 16)) = some n := by decide
  exact hall n h

theorem piece_letter {letter : Char} (h : letter ≠ 'u') (rest : Text) :
    piece.run ('\\' :: letter :: rest) = (Json.unescape letter).map fun c => (c.toNat, rest) := by
  show (if letter ≠ 'u' then _ else _) = _
  exact if_pos h

theorem piece_hex (w x y z : Char) (rest : Text) :
    piece.run ('\\' :: 'u' :: w :: x :: y :: z :: rest) = (hexCode w x y z).map fun n => (n, rest) := rfl

theorem writes_escape : Writes Json.escape := by
  intro c
  unfold Json.escape
  cases hfind : Json.escapes.find? fun e => e.1 = c with
  | some e =>
      obtain ⟨hletter, hchar⟩ := Json.unescape_of_mem (List.mem_of_find?_eq_some hfind)
      have hc : e.1 = c := by simpa using List.find?_some hfind
      refine ⟨⟨'\\', [e.2], rfl, by decide⟩, fun rest => ?_⟩
      show piece.run ('\\' :: e.2 :: rest) = _
      rw [piece_letter hletter, hchar, Option.map_some, hc]
  | none =>
      have hnot := List.find?_eq_none.mp hfind
      dsimp only
      split_ifs with hlow
      · refine ⟨⟨'\\', _, rfl, by decide⟩, fun rest => ?_⟩
        show piece.run ('\\' :: 'u' :: '0' :: '0' :: Json.hexDigit (c.toNat / 16) ::
          Json.hexDigit (c.toNat % 16) :: rest) = _
        rw [piece_hex, hexCode_control hlow, Option.map_some]
      · have hquote : c ≠ '"' := fun h => by simpa [h] using hnot ('"', '"') (by decide)
        have hslash : c ≠ '\\' := fun h => by simpa [h] using hnot ('\\', '\\') (by decide)
        refine ⟨⟨c, [], rfl, hquote⟩, fun rest => ?_⟩
        show (if c ≠ '\\' then if c.toNat < 32 then none else some (c.toNat, rest) else _) = _
        rw [if_pos hslash, if_neg hlow]

theorem writes_escapeHTML : Writes Json.escapeHTML := by
  intro c
  unfold Json.escapeHTML
  split_ifs with hunsafe
  · have hall : Json.htmlUnsafe.all (fun c => hexCode (Json.hexDigit (c.toNat / 4096 % 16))
        (Json.hexDigit (c.toNat / 256 % 16)) (Json.hexDigit (c.toNat / 16 % 16)) (Json.hexDigit (c.toNat % 16)) ==
          some c.toNat) = true := by decide
    have hhex := eq_of_beq (List.all_eq_true.mp hall c hunsafe)
    refine ⟨⟨'\\', _, rfl, by decide⟩, fun rest => ?_⟩
    show piece.run ('\\' :: 'u' :: Json.hexDigit (c.toNat / 4096 % 16) :: Json.hexDigit (c.toNat / 256 % 16) ::
      Json.hexDigit (c.toNat / 16 % 16) :: Json.hexDigit (c.toNat % 16) :: rest) = _
    rw [piece_hex, hhex, Option.map_some]
  · exact writes_escape c

theorem pieces_flatMap {write : Char → Text} (h : Writes write) {n : Nat} (t rest : Text) (hn : t.length < n) :
    (pieces n).run (t.flatMap write ++ '"' :: rest) = some (t.map Char.toNat, rest) := by
  induction t generalizing n with
  | nil =>
      obtain ⟨n, rfl⟩ : ∃ m, n = m + 1 := ⟨n - 1, by simp at hn; omega⟩
      rfl
  | cons c t ih =>
      obtain ⟨n, rfl⟩ : ∃ m, n = m + 1 := ⟨n - 1, by simp at hn; omega⟩
      obtain ⟨⟨d, ds, hd, hquote⟩, hpiece⟩ := h c
      have hread := hpiece (t.flatMap write ++ '"' :: rest)
      rw [List.flatMap_cons, List.append_assoc]
      rw [hd] at hread ⊢
      show (if d = '"' then _ else (piece.run (d :: ds ++ (t.flatMap write ++ '"' :: rest))).bind _) = _
      rw [if_neg hquote, hread, Option.bind_some, ih (by simpa using hn), Option.map_some, List.map_cons]

theorem charOf_toNat (c : Char) : charOf c.toNat = c := by
  have hvalid : c.toNat.isValidChar := c.valid
  rw [charOf, if_pos hvalid, Char.ofNat_toNat]

/-- A character is no half. -/
theorem pair_toNat (c : Char) (low : Nat) : pair c.toNat low = none := by
  have hvalid : c.toNat < 0xD800 ∨ 0xDFFF < c.toNat ∧ c.toNat < 0x110000 := c.valid
  refine if_neg fun h => ?_
  omega

theorem joinHalves_map_toNat (t : Text) : joinHalves (t.map Char.toNat) = t := by
  induction t with
  | nil => rfl
  | cons c t ih =>
      cases t with
      | nil => rw [List.map_cons, List.map_nil, joinHalves, charOf_toNat]
      | cons d t =>
          rw [List.map_cons, List.map_cons, joinHalves, pair_toNat]
          show charOf c.toNat :: joinHalves ((d :: t).map Char.toNat) = _
          rw [charOf_toNat, ih]

/-- **A string is read back.** -/
theorem reads_text {write : Char → Text} (h : Writes write) (s : String) :
    Reads text ('"' :: s.toList.flatMap write ++ ['"']) s := by
  have hpieces : Reads (fun cs => (pieces cs.length).run cs : Reader (List Nat)) (s.toList.flatMap write ++ ['"'])
      (s.toList.map Char.toNat) := by
    intro rest
    have hlength : s.toList.length ≤ (s.toList.flatMap write).length := by
      induction s.toList with
      | nil => exact Nat.zero_le _
      | cons c t ih =>
          obtain ⟨⟨d, ds, hd, -⟩, -⟩ := h c
          rw [List.flatMap_cons, List.length_append, hd, List.length_cons, List.length_cons]
          omega
    rw [List.append_assoc]
    refine pieces_flatMap h s.toList rest ?_
    simp only [List.length_append, List.length_singleton]
    omega
  have hreturn := hpieces.bind (f := fun ns => (pure (String.ofList (joinHalves ns)) : Reader String))
    (Json.reads_return _)
  rw [joinHalves_map_toNat, String.ofList_toList, List.append_nil] at hreturn
  exact (Json.reads_literal ['"']).bind hreturn

/-! ## Tokens -/

inductive Token where
  | punct (c : Char)
  | string (s : String)
  | null
  /-- A number or a boolean. -/
  | other
deriving DecidableEq

def isSpace (c : Char) : Bool := c ∈ [' ', Char.ofNat 9, Char.ofNat 10, Char.ofNat 13]

def digits : Reader Unit := fun cs =>
  match cs with
  | [] => none
  | c :: rest => if c.isDigit then some ((), rest.dropWhile Char.isDigit) else none

/-- What must come after one of these, where one stands. -/
def after (marks : List Char) (r : Reader Unit) : Reader Unit := fun cs =>
  match cs with
  | [] => some ((), [])
  | c :: rest => if c ∈ marks then r.run rest else some ((), cs)

/-- Digits without a zero before others. -/
def whole : Reader Unit := fun cs =>
  match cs with
  | [] => none
  | c :: rest => if c = '0' then some ((), rest) else digits.run cs

def number : Reader Unit := do
  after ['-'] (pure ())
  whole
  after ['.'] digits
  after ['e', 'E'] (do after ['+', '-'] (pure ()); digits)

def token : Reader Token := fun cs =>
  match cs with
  | [] => none
  | c :: rest =>
    if c ∈ ['{', '}', '[', ']', ':', ','] then some (.punct c, rest)
    else if c = '"' then (text.run cs).map fun p => (.string p.1, p.2)
    else if c = 'n' then ((Json.literal Json.nullText).run cs).map fun p => (.null, p.2)
    else if c = 't' ∨ c = 'f' then (Json.boolean.run cs).map fun p => (.other, p.2)
    else (number.run cs).map fun p => (.other, p.2)

/-- At most so many tokens, and white space. -/
def tokens : Nat → Text → Option (List Token)
  | 0, cs => if cs.dropWhile isSpace = [] then some [] else none
  | n + 1, cs =>
    if cs.dropWhile isSpace = [] then some []
    else (token.run (cs.dropWhile isSpace)).bind fun p => (tokens n p.2).map (p.1 :: ·)

example : tokens 20 " [-0.5e+3 , true]\n".toList = some [.punct '[', .other, .punct ',', .other, .punct ']'] := by
  decide +kernel

example : tokens 20 "[1.]".toList = none := by decide +kernel

/-- The text is read as these tokens, whatever follows. -/
structure Lexes (cs : Text) (ts : List Token) : Prop where
  size : ts.length ≤ cs.length
  read : ∀ n rest, tokens (ts.length + n) (cs ++ rest) = (tokens n rest).map (ts ++ ·)

theorem Lexes.append {cs ds : Text} {ts us : List Token} (h : Lexes cs ts) (h' : Lexes ds us) :
    Lexes (cs ++ ds) (ts ++ us) where
  size := by
    have hcs := h.size
    have hds := h'.size
    rw [List.length_append, List.length_append]
    omega
  read n rest := by
    rw [List.length_append, Nat.add_assoc, List.append_assoc, h.read, h'.read, Option.map_map]
    congr 1
    funext vs
    exact (List.append_assoc ts us vs).symm

theorem lexes_token {c : Char} {cs : Text} {t : Token} (hspace : isSpace c = false) (h : Reads token (c :: cs) t) :
    Lexes (c :: cs) [t] where
  size := by simp
  read n rest := by
    have hdrop : (c :: cs ++ rest).dropWhile isSpace = c :: cs ++ rest := by
      rw [List.cons_append, List.dropWhile_cons, if_neg (by simp [hspace])]
    rw [List.length_singleton, Nat.add_comm, tokens, hdrop, if_neg (by simp), h rest, Option.bind_some]
    rfl

theorem lexes_punct {c : Char} (h : c ∈ ['{', '}', '[', ']', ':', ',']) : Lexes [c] [.punct c] := by
  apply lexes_token
  · have hall : ['{', '}', '[', ']', ':', ','].all (fun c => !isSpace c) = true := by decide
    have hc := List.all_eq_true.mp hall c h
    simpa using hc
  · intro rest
    show (if c ∈ ['{', '}', '[', ']', ':', ','] then some (Token.punct c, rest) else _) = _
    exact if_pos h

theorem lexes_string {write : Char → Text} (h : Writes write) (s : String) :
    Lexes ('"' :: s.toList.flatMap write ++ ['"']) [.string s] := by
  rw [List.cons_append]
  apply lexes_token (by decide)
  intro rest
  show (text.run _).map _ = _
  rw [← List.cons_append, reads_text h s rest, Option.map_some]

theorem tokens_of_lexes {cs : Text} {ts : List Token} (h : Lexes cs ts) : tokens cs.length cs = some ts := by
  obtain ⟨n, hn⟩ := Nat.exists_eq_add_of_le h.size
  have hread := h.read n []
  have hend : tokens n [] = some [] := by
    cases n <;> rfl
  rw [List.append_nil, hend, Option.map_some, List.append_nil] at hread
  rw [hn, hread]

/-! ## The reader -/

/-- What a member holds. -/
inductive Held where
  | string (s : String)
  | null
  | other
deriving DecidableEq

/-- An open bracket; of an object, with the key that was read last. -/
inductive Frame where
  | array
  | object (key : String)
deriving DecidableEq

inductive Awaits where
  | value
  /-- A value, or the end of an array that has just begun. -/
  | element
  | key
  /-- A key, or the end of an object that has just begun. -/
  | member
  | colon
  | separator
deriving DecidableEq

/-- The open brackets, the innermost first, what may come next, and the members of the outermost object so far. -/
structure State where
  stack : List Frame
  awaits : Awaits
  members : List (String × Held)

def maxNestingDepth : Nat := 10000

namespace State

/-- A value has been read. -/
def took (s : State) (held : Held) : State where
  stack := s.stack
  awaits := .separator
  members :=
    match s.stack with
    | [.object key] => s.members ++ [(key, held)]
    | _ => s.members

def push (s : State) (f : Frame) (awaits : Awaits) : Option State :=
  if s.stack.length < maxNestingDepth then some ⟨f :: s.stack, awaits, s.members⟩ else none

/-- The end of an array or an object, which is a value of what holds it. -/
def pop (s : State) : State := took { s with stack := s.stack.tail } .other

/-- Where a value may stand. -/
def value (s : State) : Token → Option State
  | .string str => some (s.took (.string str))
  | .null => some (s.took .null)
  | .other => some (s.took .other)
  | .punct c =>
    if c = '{' then s.push (.object "") .member
    else if c = '[' then s.push .array .element
    else none

/-- After a value. -/
def separated (s : State) (c : Char) : Option State :=
  match s.stack with
  | [] => none
  | .array :: _ =>
    if c = ',' then some { s with awaits := .value } else if c = ']' then some s.pop else none
  | .object _ :: _ =>
    if c = ',' then some { s with awaits := .key } else if c = '}' then some s.pop else none

def keyed (s : State) (key : String) : State := ⟨.object key :: s.stack.tail, .colon, s.members⟩

def step (s : State) (t : Token) : Option State :=
  match s.awaits, t with
  | .value, t => s.value t
  | .element, t => if t = .punct ']' then some s.pop else s.value t
  | .key, .string key => some (s.keyed key)
  | .member, .string key => some (s.keyed key)
  | .member, .punct c => if c = '}' then some s.pop else none
  | .colon, .punct c => if c = ':' then some { s with awaits := .value } else none
  | .separator, .punct c => s.separated c
  | _, _ => none

end State

/-- The members of an object, as they come; none of null. -/
def membersOf : List Token → Option (List (String × Held))
  | [.null] => some []
  | .punct c :: ts =>
    if c = '{' then
      (ts.foldlM State.step ⟨[.object ""], .member, []⟩).bind fun s => if s.stack = [] then some s.members else none
    else none
  | _ => none

def members (cs : Text) : Option (List (String × Held)) := (tokens cs.length cs).bind membersOf

example : members "\x7b \"b\" : [\x7b\"a\":1\x7d, null],\"a\":\"x\" ,\"a\":null \x7d".toList =
    some [("b", .other), ("a", .string "x"), ("a", .null)] := by decide +kernel

example : members "\x7b\"a\":\"x\",\x7d".toList = none := by decide +kernel

/-! ## Objects of strings -/

/-- The tokens of a member. -/
def memberTokens (f : String × String) : List Token := [.string f.1, .punct ':', .string f.2]

def moreTokens : List (String × String) → List Token
  | [] => [.punct '}']
  | f :: fields => .punct ',' :: memberTokens f ++ moreTokens fields

theorem lexes_field (f : String × String) : Lexes (Json.field f.1 (Json.quoteHTML f.2)) (memberTokens f) := by
  have h := ((lexes_string writes_escape f.1).append (lexes_punct (c := ':') (by decide))).append
    (lexes_string writes_escapeHTML f.2)
  rw [List.append_assoc] at h
  exact h

theorem lexes_moreFields (fields : List (String × String)) :
    Lexes (Json.moreFields (fields.map fun f => (f.1, Json.quoteHTML f.2))) (moreTokens fields) := by
  induction fields with
  | nil => exact lexes_punct (by decide)
  | cons f fields ih => exact ((lexes_punct (c := ',') (by decide)).append (lexes_field f)).append ih

theorem step_member (ms : List (String × Held)) (f : String × String) (ts : List Token)
    (key : String) (awaits : Awaits) (h : awaits = .key ∨ awaits = .member) :
    (memberTokens f ++ ts).foldlM State.step ⟨[.object key], awaits, ms⟩ =
      ts.foldlM State.step ⟨[.object f.1], .separator, ms ++ [(f.1, .string f.2)]⟩ := by
  rcases h with rfl | rfl <;> rfl

theorem foldlM_moreTokens (fields : List (String × String)) (key : String) (ms : List (String × Held)) :
    (moreTokens fields).foldlM State.step ⟨[.object key], .separator, ms⟩ =
      some ⟨[], .separator, ms ++ fields.map fun f => (f.1, .string f.2)⟩ := by
  induction fields generalizing key ms with
  | nil =>
      rw [List.map_nil, List.append_nil]
      rfl
  | cons f fields ih =>
      show (memberTokens f ++ moreTokens fields).foldlM State.step ⟨[.object key], .key, ms⟩ = _
      rw [step_member ms f _ key .key (Or.inl rfl), ih, List.append_assoc]
      rfl

/-- **An object of strings is read back.** -/
theorem members_object (fields : List (String × String)) :
    members (Json.object (fields.map fun f => (f.1, Json.quoteHTML f.2))) =
      some (fields.map fun f => (f.1, .string f.2)) := by
  have hread : ∃ ts, Lexes (Json.object (fields.map fun f => (f.1, Json.quoteHTML f.2))) (.punct '{' :: ts) ∧
      ts.foldlM State.step ⟨[.object ""], .member, []⟩ =
        some ⟨[], .separator, fields.map fun f => (f.1, .string f.2)⟩ := by
    have hopen := lexes_punct (c := '{') (by decide)
    cases fields with
    | nil => exact ⟨_, hopen.append (lexes_punct (c := '}') (by decide)), rfl⟩
    | cons f fields =>
        refine ⟨_, (hopen.append (lexes_field f)).append (lexes_moreFields fields), ?_⟩
        show (memberTokens f ++ moreTokens fields).foldlM State.step _ = _
        rw [step_member [] f _ "" .member (Or.inr rfl), foldlM_moreTokens]
        rfl
  obtain ⟨ts, hlexes, hrun⟩ := hread
  rw [members, tokens_of_lexes hlexes, Option.bind_some, membersOf, if_pos rfl, hrun, Option.bind_some, if_pos rfl]

/-! ## Lengths -/

def Token.size : Token → Nat
  | .string s => s.toList.length
  | _ => 0

def Held.size : Held → Nat
  | .string s => s.toList.length
  | _ => 0

theorem length_of_piece {cs rest : Text} {n : Nat} (h : piece.run cs = some (n, rest)) : rest.length < cs.length := by
  change piece cs = some (n, rest) at h
  unfold piece at h
  split at h
  next => cases h
  next c cs =>
    split_ifs at h
    · cases h
      exact Nat.lt_succ_self _
    · split at h
      next => cases h
      next letter cs =>
        split_ifs at h
        · obtain ⟨_, -, heq⟩ := Option.map_eq_some_iff.mp h
          cases heq
          simp only [List.length_cons]
          omega
        · split at h
          next =>
            obtain ⟨_, -, heq⟩ := Option.map_eq_some_iff.mp h
            cases heq
            simp only [List.length_cons]
            omega
          next => cases h

theorem length_of_pieces {n : Nat} {cs rest : Text} {ns : List Nat} (h : (pieces n).run cs = some (ns, rest)) :
    ns.length + rest.length ≤ cs.length := by
  induction n generalizing cs ns with
  | zero => cases h
  | succ n ih =>
      change pieces (n + 1) cs = _ at h
      cases cs with
      | nil => cases h
      | cons c cs =>
          rw [pieces] at h
          dsimp only at h
          split_ifs at h
          · cases h
            simp
          · obtain ⟨⟨code, mid⟩, hpiece, hmap⟩ := Option.bind_eq_some_iff.mp h
            obtain ⟨⟨ns', rest'⟩, hmore, heq⟩ := Option.map_eq_some_iff.mp hmap
            cases heq
            have hfirst := length_of_piece hpiece
            have hlater := ih hmore
            dsimp only at hlater ⊢
            rw [List.length_cons]
            omega

theorem length_joinHalves (ns : List Nat) : (joinHalves ns).length ≤ ns.length := by
  induction ns using joinHalves.induct with
  | case1 => exact Nat.le_refl _
  | case2 n => exact Nat.le_refl _
  | case3 high low ns n hpair ih =>
      rw [joinHalves, hpair]
      simp only [List.length_cons]
      omega
  | case4 high low ns hpair ih =>
      rw [joinHalves, hpair]
      simp only [List.length_cons] at ih ⊢
      omega

theorem within_text : Json.Within (fun s => s.toList.length) text := by
  refine (Json.within_literal ['"']).bind
    (r := (fun cs => (pieces cs.length).run cs : Reader (List Nat)) >>= fun ns => pure (String.ofList (joinHalves ns))) ?_
  intro cs rest s hrun
  rw [StateT.run_bind] at hrun
  obtain ⟨⟨ns, mid⟩, hpieces, hpure⟩ := Option.bind_eq_some_iff.mp hrun
  obtain ⟨rfl, rfl⟩ := Prod.mk.inj (Option.some.inj hpure)
  have hle := length_of_pieces hpieces
  have hjoined := length_joinHalves ns
  show (String.ofList (joinHalves ns)).toList.length + mid.length ≤ cs.length
  rw [String.toList_ofList]
  omega

theorem within_digits : Json.Within (fun _ => 0) digits := by
  intro cs rest a h
  change digits cs = _ at h
  unfold digits at h
  split at h
  next => cases h
  next c cs =>
    split_ifs at h
    cases h
    have hle := (List.dropWhile_suffix (l := cs) Char.isDigit).length_le
    rw [Nat.zero_add, List.length_cons]
    exact Nat.le_succ_of_le hle

theorem within_after {marks : List Char} {r : Reader Unit} (h : Json.Within (fun _ => 0) r) :
    Json.Within (fun _ => 0) (after marks r) := by
  intro cs rest a hrun
  change after marks r cs = _ at hrun
  unfold after at hrun
  split at hrun
  next =>
    cases hrun
    exact Nat.le_refl _
  next c cs =>
    split_ifs at hrun
    · exact Nat.le_succ_of_le (h cs rest a hrun)
    · cases hrun
      exact Nat.le_of_eq (Nat.zero_add _)

theorem within_pure : Json.Within (fun _ => 0) (pure () : Reader Unit) := by
  intro cs rest a h
  cases h
  exact Nat.le_of_eq (Nat.zero_add _)

theorem within_whole : Json.Within (fun _ => 0) whole := by
  intro cs rest a h
  change whole cs = _ at h
  unfold whole at h
  split at h
  next => cases h
  next c cs =>
    split_ifs at h
    · cases h
      exact Nat.le_of_lt (by simp)
    · exact within_digits _ _ a h

theorem within_number : Json.Within (fun _ => 0) number :=
  (within_after within_pure).bind (within_whole.bind ((within_after within_digits).bind
    (within_after ((within_after within_pure).bind within_digits))))

theorem within_boolean : Json.Within (fun _ => 0) Json.boolean := by
  intro cs rest a h
  change Json.boolean cs = _ at h
  unfold Json.boolean at h
  split at h
  next hrun =>
    cases h
    exact Json.within_literal _ _ _ () hrun
  next =>
    obtain ⟨⟨_, rest'⟩, hrun, heq⟩ := Option.map_eq_some_iff.mp h
    cases heq
    exact Json.within_literal _ _ _ () hrun

theorem within_token : Json.Within Token.size token := by
  intro cs rest t h
  change token cs = _ at h
  unfold token at h
  split at h
  next => cases h
  next c cs =>
    split_ifs at h
    · cases h
      exact Nat.le_of_lt (by simp [Token.size])
    all_goals
      obtain ⟨⟨a, rest'⟩, hrun, heq⟩ := Option.map_eq_some_iff.mp h
      cases heq
    · exact within_text _ _ _ hrun
    · exact Json.within_literal _ _ _ _ hrun
    · exact within_boolean _ _ _ hrun
    · exact within_number _ _ _ hrun

theorem size_of_tokens {n : Nat} {cs : Text} {ts : List Token} (h : tokens n cs = some ts) :
    (ts.map Token.size).sum ≤ cs.length := by
  induction n generalizing cs ts with
  | zero =>
      rw [tokens] at h
      split_ifs at h
      cases h
      exact Nat.zero_le _
  | succ n ih =>
      rw [tokens] at h
      split_ifs at h
      · cases h
        exact Nat.zero_le _
      · obtain ⟨⟨t, mid⟩, htoken, hmap⟩ := Option.bind_eq_some_iff.mp h
        obtain ⟨us, hus, rfl⟩ := Option.map_eq_some_iff.mp hmap
        have hdrop := (List.dropWhile_suffix (l := cs) isSpace).length_le
        have hfirst := within_token _ _ _ htoken
        have hlater := ih hus
        rw [List.map_cons, List.sum_cons]
        dsimp only at hlater ⊢
        omega

/-- What the strings among some members take. -/
def size (ms : List (String × Held)) : Nat := (ms.map fun m => m.2.size).sum

namespace State

theorem size_took (s : State) (held : Held) : size (s.took held).members ≤ size s.members + held.size := by
  unfold took
  dsimp only
  split
  · rw [size, size, List.map_append, List.sum_append, List.map_singleton, List.sum_singleton]
  · exact Nat.le_add_right _ _

theorem size_push {s s' : State} {f : Frame} {awaits : Awaits} (h : s.push f awaits = some s') :
    s'.members = s.members := by
  unfold push at h
  split_ifs at h
  cases h
  rfl

theorem size_value {s s' : State} {t : Token} (h : s.value t = some s') : size s'.members ≤ size s.members + t.size := by
  cases t with
  | punct c =>
      simp only [value] at h
      split_ifs at h
      all_goals
        rw [size_push h]
        exact Nat.le_refl _
  | string str =>
      cases h
      exact size_took s _
  | null | other =>
      cases h
      exact size_took s _

theorem size_separated {s s' : State} {c : Char} (h : s.separated c = some s') : size s'.members ≤ size s.members := by
  unfold separated at h
  split at h
  next => cases h
  all_goals
    split_ifs at h
    · cases h
      exact Nat.le_refl _
    · cases h
      exact size_took _ .other

theorem size_step {s s' : State} {t : Token} (h : s.step t = some s') : size s'.members ≤ size s.members + t.size := by
  unfold step at h
  split at h
  next => exact size_value h
  next =>
    split_ifs at h
    · cases h
      exact Nat.le_trans (size_took _ .other) (Nat.le_add_right _ _)
    · exact size_value h
  next =>
    cases h
    exact Nat.le_add_right _ _
  next =>
    cases h
    exact Nat.le_add_right _ _
  next =>
    split_ifs at h
    cases h
    exact size_took _ .other
  next =>
    split_ifs at h
    cases h
    exact Nat.le_refl _
  next => exact size_separated h
  next => cases h

theorem size_foldlM {s s' : State} {ts : List Token} (h : ts.foldlM step s = some s') :
    size s'.members ≤ size s.members + (ts.map Token.size).sum := by
  induction ts generalizing s with
  | nil =>
      cases h
      exact Nat.le_refl _
  | cons t ts ih =>
      obtain ⟨mid, hmid, hrest⟩ := Option.bind_eq_some_iff.mp h
      have hfirst := size_step hmid
      have hlater := ih hrest
      rw [List.map_cons, List.sum_cons]
      omega

end State

/-- **What is read is no longer than the text.** -/
theorem size_of_members {cs : Text} {ms : List (String × Held)} (h : members cs = some ms) : size ms ≤ cs.length := by
  obtain ⟨ts, hts, hms⟩ := Option.bind_eq_some_iff.mp h
  refine Nat.le_trans ?_ (size_of_tokens hts)
  unfold membersOf at hms
  split at hms
  next =>
    cases hms
    exact Nat.zero_le _
  next c ts =>
    split_ifs at hms
    obtain ⟨s, hrun, hend⟩ := Option.bind_eq_some_iff.mp hms
    split_ifs at hend
    cases hend
    have hle := State.size_foldlM hrun
    rw [List.map_cons, List.sum_cons]
    have hnone : size ([] : List (String × Held)) = 0 := rfl
    dsimp only at hle
    omega
  next => cases hms

end TimeChamp.Lib.GoJson
