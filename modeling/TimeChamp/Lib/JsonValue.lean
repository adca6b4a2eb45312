import TimeChamp.Lib.Json
import TimeChamp.Lib.Texts

/-!
# Values in JSON

Arrays and objects besides what `Json` has, with integers for the numbers.

* `Value`, `Value.text` : the values, and the texts that `JSON.stringify` writes of them;
* `Ends`, `ReadsBefore` : a reader takes a text before what cannot go on a number;
* `sequence close r` : what stands between commas, up to the closing bracket; `readsBefore_sequence`;
* `value n` : any value, for texts of at most `n` characters;
* `parse_stringify` : **a value is read back**.
-/

namespace TimeChamp.Lib.Json

inductive Value where
  | null
  | bool (b : Bool)
  | num (n : Int)
  | str (s : String)
  | arr (vs : List Value)
  | obj (fields : List (String × Value))

/-! ## Texts -/

/-- More texts after commas, and the closing bracket. -/
def more (close : Char) : List Text → Text
  | [] => [close]
  | t :: ts => ',' :: t ++ more close ts

/-- Texts with commas between them, and the closing bracket. -/
def joined (close : Char) : List Text → Text
  | [] => [close]
  | t :: ts => t ++ more close ts

mutual

def Value.text : Value → Text
  | .null => nullText
  | .bool b => booleanText b
  | .num n => intText n
  | .str s => quote s
  | .arr vs => '[' :: joined ']' (texts vs)
  | .obj fields => '{' :: joined '}' (memberTexts fields)

def texts : List Value → List Text
  | [] => []
  | v :: vs => v.text :: texts vs

def memberTexts : List (String × Value) → List Text
  | [] => []
  | (key, v) :: fields => field key v.text :: memberTexts fields

end

theorem texts_eq_map (vs : List Value) : texts vs = vs.map Value.text := by
  induction vs with
  | nil => rfl
  | cons v vs ih => rw [texts, ih, List.map_cons]

theorem memberTexts_eq_map (fields : List (String × Value)) :
    memberTexts fields = fields.map fun f => field f.1 f.2.text := by
  induction fields with
  | nil => rfl
  | cons f fields ih => rw [memberTexts, ih, List.map_cons]

/-! ## Readers -/

/-- The digits of a number. -/
def nat : Reader Nat := fun cs =>
  let ds := cs.takeWhile Char.isDigit
  if ds = [] then none else some (Nat.ofDigitChars 10 ds 0, cs.dropWhile Char.isDigit)

def int : Reader Int := fun cs =>
  match (literal ['-']).run cs with
  | some p => (nat.run p.2).map fun q => (-(q.1 : Int), q.2)
  | none => (nat.run cs).map fun q => ((q.1 : Int), q.2)

/-- One item or more. -/
def items {α : Type} (close : Char) (r : Reader α) : Nat → Reader (List α)
  | 0 => fun _ => none
  | n + 1 => do
    let a ← r
    fun cs =>
      match cs with
      | [] => none
      | c :: rest =>
        if c = ',' then ((items close r n).run rest).map fun p => (a :: p.1, p.2)
        else if c = close then some ([a], rest)
        else none

/-- At most `n` items. -/
def sequence {α : Type} (close : Char) (r : Reader α) (n : Nat) : Reader (List α) := fun cs =>
  match (literal [close]).run cs with
  | some p => some ([], p.2)
  | none => (items close r n).run cs

/-- One field of an object. -/
def memberOf {α : Type} (r : Reader α) : Reader (String × α) := do
  let key ← string
  literal [':']
  let a ← r
  return (key, a)

def value : Nat → Reader Value
  | 0 => fun _ => none
  | n + 1 => fun cs =>
    match cs with
    | [] => none
    | c :: rest =>
      if c = '"' then (string.run cs).map fun p => (.str p.1, p.2)
      else if c = '[' then ((sequence ']' (value n) n).run rest).map fun p => (.arr p.1, p.2)
      else if c = '{' then ((sequence '}' (memberOf (value n)) n).run rest).map fun p => (.obj p.1, p.2)
      else if c = 'n' then ((literal nullText).run cs).map fun p => (.null, p.2)
      else if c = 't' ∨ c = 'f' then (boolean.run cs).map fun p => (.bool p.1, p.2)
      else (int.run cs).map fun p => (.num p.1, p.2)

/-- `JSON.stringify`. -/
def Value.stringify (v : Value) : String := String.ofList v.text

/-- `JSON.parse`, for texts that `JSON.stringify` may have written; it throws on any other. -/
def Value.parse (s : String) : Option Value := Json.parse (value s.length) s

/-! ## What is read -/

/-- What follows does not go on a number. -/
def Ends (rest : Text) : Prop := ∀ c ∈ rest.head?, c.isDigit = false

/-- The reader takes the text for this value, before whatever may follow. -/
def ReadsBefore {α : Type} (r : Reader α) (text : Text) (a : α) : Prop :=
  ∀ rest, Ends rest → r.run (text ++ rest) = some (a, rest)

section
variable {α : Type} {r : Reader α} {text : Text} {a : α} {close : Char}

theorem ends_cons {c : Char} (h : c.isDigit = false) (rest : Text) : Ends (c :: rest) := by
  intro c' hc'
  obtain rfl := Option.some.inj hc'
  exact h

theorem isDigit_toDigits {n : Nat} {c : Char} (h : c ∈ Nat.toDigits 10 n) : c.isDigit = true :=
  Nat.isDigit_of_mem_toDigits (by omega) (by omega) h

theorem nat_toDigits (n : Nat) : ReadsBefore nat (Nat.toDigits 10 n) n := by
  intro rest hrest
  have hdigits : ∀ c ∈ Nat.toDigits 10 n, c.isDigit = true := fun c hc => isDigit_toDigits hc
  have htake : rest.takeWhile Char.isDigit = [] ∧ rest.dropWhile Char.isDigit = rest := by
    cases rest with
    | nil => exact ⟨rfl, rfl⟩
    | cons c rest => simp [hrest c rfl]
  have hne : Nat.toDigits 10 n ≠ [] := Nat.toDigits_ne_nil
  show (if (Nat.toDigits 10 n ++ rest).takeWhile Char.isDigit = [] then none else _) = _
  rw [List.takeWhile_append_of_pos hdigits, List.dropWhile_append_of_pos hdigits, htake.1, htake.2, List.append_nil,
    if_neg hne, Nat.ofDigitChars_ten_toDigits]

theorem int_intText (n : Int) : ReadsBefore int (intText n) n := by
  intro rest hrest
  unfold intText
  by_cases hn : n < 0
  · rw [if_pos hn]
    show (nat.run (Nat.toDigits 10 n.natAbs ++ rest)).map _ = _
    rw [nat_toDigits _ rest hrest, Option.map_some]
    congr 2
    omega
  · rw [if_neg hn]
    have hminus : (literal ['-']).run (Nat.toDigits 10 n.natAbs ++ rest) = none := by
      cases hdigits : Nat.toDigits 10 n.natAbs with
      | nil => exact absurd hdigits Nat.toDigits_ne_nil
      | cons c cs =>
          have hc : c.isDigit = true := by
            apply isDigit_toDigits
            rw [hdigits]
            exact List.mem_cons_self
          have hne : ('-' == c) = false := by
            apply beq_false_of_ne
            rintro rfl
            exact absurd hc (by decide)
          show (if (['-'].isPrefixOf (c :: cs ++ rest)) = true then _ else none) = none
          rw [List.cons_append, List.isPrefixOf_cons_cons, hne, Bool.false_and, if_neg Bool.false_ne_true]
    show (match (literal ['-']).run (Nat.toDigits 10 n.natAbs ++ rest) with | some p => _ | none => _) = _
    rw [hminus]
    show (nat.run (Nat.toDigits 10 n.natAbs ++ rest)).map _ = _
    rw [nat_toDigits _ rest hrest, Option.map_some]
    congr 2
    omega

/-- A text that is not empty and does not begin with a bracket that closes. -/
def Opens (text : Text) : Prop := ∃ c rest, text = c :: rest ∧ c ≠ ']' ∧ c ≠ '}'

theorem Opens.literal_none (h : Opens text) (hclose : close = ']' ∨ close = '}') (rest : Text) :
    (literal [close]).run (text ++ rest) = none := by
  obtain ⟨c, cs, rfl, hsquare, hcurly⟩ := h
  have hne : (close == c) = false := by
    apply beq_false_of_ne
    rcases hclose with rfl | rfl
    · exact hsquare.symm
    · exact hcurly.symm
  show (if ([close].isPrefixOf (c :: cs ++ rest)) = true then _ else none) = none
  rw [List.cons_append, List.isPrefixOf_cons_cons, hne, Bool.false_and, if_neg Bool.false_ne_true]

theorem ends_more (hclose : close = ']' ∨ close = '}') (ts : List Text) (rest : Text) :
    Ends (more close ts ++ rest) := by
  cases ts with
  | nil =>
      apply ends_cons
      rcases hclose with rfl | rfl <;> decide
  | cons t ts => exact ends_cons (by decide) _

theorem items_joined (hclose : close = ']' ∨ close = '}') {write : α → Text} {n : Nat} {a : α} {as : List α}
    (hlength : (a :: as).length ≤ n) (h : ∀ b ∈ a :: as, ReadsBefore r (write b) b) (rest : Text) :
    (items close r n).run (write a ++ more close (as.map write) ++ rest) = some (a :: as, rest) := by
  induction as generalizing n a with
  | nil =>
      obtain ⟨n, rfl⟩ : ∃ m, n = m + 1 := ⟨n - 1, by simp at hlength; omega⟩
      have ha := h a List.mem_cons_self (close :: rest) (by
        apply ends_cons
        rcases hclose with rfl | rfl <;> decide)
      show (r.run _).bind _ = _
      have htext : write a ++ more close ([].map write) ++ rest = write a ++ close :: rest := by simp [more]
      rw [htext, ha, Option.bind_some]
      show (if close = ',' then _ else if close = close then some ([a], rest) else none) = _
      rw [if_neg (by rcases hclose with rfl | rfl <;> decide), if_pos rfl]
  | cons b as ih =>
      obtain ⟨n, rfl⟩ : ∃ m, n = m + 1 := ⟨n - 1, by simp at hlength; omega⟩
      obtain ⟨ha, has⟩ := List.forall_mem_cons.mp h
      have hrest := ih (n := n) (a := b) (by simpa using hlength) has
      have hread := ha (more close ((b :: as).map write) ++ rest) (ends_more hclose _ rest)
      show (r.run _).bind _ = _
      rw [List.append_assoc, hread, Option.bind_some]
      show (if ',' = ',' then ((items close r n).run (write b ++ more close (as.map write) ++ rest)).map _ else _) = _
      rw [if_pos rfl, hrest, Option.map_some]

/-- **A sequence is read back** when its items are. -/
theorem readsBefore_sequence (hclose : close = ']' ∨ close = '}') {write : α → Text} {n : Nat} {as : List α}
    (hlength : as.length ≤ n) (hopens : ∀ b ∈ as, Opens (write b)) (h : ∀ b ∈ as, ReadsBefore r (write b) b)
    (rest : Text) : (sequence close r n).run (joined close (as.map write) ++ rest) = some (as, rest) := by
  cases as with
  | nil =>
      show (match (literal [close]).run ([close] ++ rest) with | some p => _ | none => _) = _
      rw [reads_literal [close] rest]
  | cons a as =>
      have hnone := (hopens a List.mem_cons_self).literal_none hclose (more close (as.map write) ++ rest)
      rw [← List.append_assoc] at hnone
      show (match (literal [close]).run (write a ++ more close _ ++ rest) with | some p => _ | none => _) = _
      rw [hnone]
      exact items_joined hclose hlength h rest

theorem Reads.bindBefore {β : Type} {f : α → Reader β} {rest : Text} {b : β} (h : Reads r text a)
    (hf : ReadsBefore (f a) rest b) : ReadsBefore (r >>= f) (text ++ rest) b := by
  intro after hafter
  rw [StateT.run_bind, List.append_assoc, h]
  exact hf after hafter

theorem ReadsBefore.map {β : Type} (h : ReadsBefore r text a) (f : α → β) :
    ReadsBefore (r >>= fun a => pure (f a)) text (f a) := by
  intro rest hrest
  rw [StateT.run_bind, h rest hrest]
  rfl

theorem readsBefore_memberOf {key : String} (h : ReadsBefore r text a) :
    ReadsBefore (memberOf r) (field key text) (key, a) :=
  (reads_string key).bindBefore ((reads_literal [':']).bindBefore (f := fun _ => r >>= fun a => pure (key, a))
    (h.map fun a => (key, a)))

end

/-! ## Values -/

theorem opens_intText (n : Int) : ∃ c rest, intText n = c :: rest ∧ (c = '-' ∨ c.isDigit = true) := by
  unfold intText
  split_ifs
  · exact ⟨'-', _, rfl, .inl rfl⟩
  · cases hdigits : Nat.toDigits 10 n.natAbs with
    | nil => exact absurd hdigits Nat.toDigits_ne_nil
    | cons c cs =>
        refine ⟨c, cs, rfl, .inr (isDigit_toDigits (n := n.natAbs) ?_)⟩
        rw [hdigits]
        exact List.mem_cons_self

theorem opens_text (v : Value) : Opens v.text := by
  cases v with
  | null => exact ⟨'n', _, rfl, by decide, by decide⟩
  | bool b =>
      cases b
      · exact ⟨'f', _, rfl, by decide, by decide⟩
      · exact ⟨'t', _, rfl, by decide, by decide⟩
  | num n =>
      obtain ⟨c, rest, htext, hc⟩ := opens_intText n
      refine ⟨c, rest, htext, ?_, ?_⟩ <;>
        · rintro rfl
          exact absurd hc (by decide)
  | str s => exact ⟨'"', _, rfl, by decide, by decide⟩
  | arr vs => exact ⟨'[', _, by rw [Value.text], by decide, by decide⟩
  | obj fields => exact ⟨'{', _, by rw [Value.text], by decide, by decide⟩

theorem length_le_more (close : Char) {t : Text} {ts : List Text} (h : t ∈ ts) : t.length ≤ (more close ts).length := by
  induction ts with
  | nil => exact absurd h List.not_mem_nil
  | cons t' ts ih =>
      rw [more, List.length_append, List.length_cons]
      rcases List.mem_cons.mp h with rfl | h
      · omega
      · have := ih h
        omega

theorem length_lt_more (close : Char) (ts : List Text) : ts.length < (more close ts).length := by
  induction ts with
  | nil => exact Nat.one_pos
  | cons t ts ih =>
      rw [more, List.length_append, List.length_cons, List.length_cons]
      omega

theorem length_le_joined (close : Char) {t : Text} {ts : List Text} (h : t ∈ ts) :
    t.length ≤ (joined close ts).length := by
  cases ts with
  | nil => exact absurd h List.not_mem_nil
  | cons t' ts =>
      rw [joined, List.length_append]
      rcases List.mem_cons.mp h with rfl | h
      · omega
      · have := length_le_more close h
        omega

theorem length_le_joined_all (close : Char) (ts : List Text) : ts.length ≤ (joined close ts).length := by
  cases ts with
  | nil => exact Nat.zero_le _
  | cons t ts =>
      have := length_lt_more close ts
      rw [joined, List.length_append, List.length_cons]
      omega

/-- **A value is read back**, by a reader for texts of its length. -/
theorem readsBefore_value {n : Nat} {v : Value} (hn : v.text.length ≤ n) : ReadsBefore (value n) v.text v := by
  induction n generalizing v with
  | zero =>
      obtain ⟨c, cs, htext, -⟩ := opens_text v
      rw [htext] at hn
      exact absurd hn (Nat.not_succ_le_zero _)
  | succ n ih =>
      intro rest hrest
      match v with
      | .null => rfl
      | .bool b => cases b <;> rfl
      | .num i =>
          obtain ⟨c, cs, htext, hc⟩ := opens_intText i
          have hread := int_intText i rest hrest
          rw [htext] at hread
          show (value (n + 1)).run (intText i ++ rest) = _
          rw [htext]
          have hne : ∀ c' : Char, c' ≠ '-' → c'.isDigit = false → c ≠ c' := by
            rintro c' hminus hdigit rfl
            rcases hc with hc | hc
            · exact hminus hc
            · rw [hdigit] at hc
              cases hc
          show (if c = '"' then _ else if c = '[' then _ else if c = '{' then _ else if c = 'n' then _ else
            if c = 't' ∨ c = 'f' then _ else (int.run (c :: cs ++ rest)).map _) = _
          rw [if_neg (hne _ (by decide) (by decide)), if_neg (hne _ (by decide) (by decide)),
            if_neg (hne _ (by decide) (by decide)), if_neg (hne _ (by decide) (by decide)),
            if_neg (not_or.mpr ⟨hne _ (by decide) (by decide), hne _ (by decide) (by decide)⟩), hread, Option.map_some]
      | .str s =>
          show (string.run (quote s ++ rest)).map _ = _
          rw [reads_string s rest, Option.map_some]
      | .arr vs =>
          have htext : (Value.arr vs).text = '[' :: joined ']' (vs.map Value.text) := by rw [Value.text, texts_eq_map]
          rw [htext, List.length_cons] at hn
          have hread : (sequence ']' (value n) n).run (joined ']' (vs.map Value.text) ++ rest) = some (vs, rest) := by
            apply readsBefore_sequence (.inl rfl)
            · have := length_le_joined_all ']' (vs.map Value.text)
              rw [List.length_map] at this
              omega
            · exact fun v' _ => opens_text v'
            · intro v' hv'
              have := length_le_joined ']' (List.mem_map_of_mem (f := Value.text) hv')
              exact ih (by omega)
          rw [htext]
          show ((sequence ']' (value n) n).run (joined ']' (vs.map Value.text) ++ rest)).map _ = _
          rw [hread, Option.map_some]
      | .obj fields =>
          have htext : (Value.obj fields).text = '{' :: joined '}' (fields.map fun f => field f.1 f.2.text) := by
            rw [Value.text, memberTexts_eq_map]
          rw [htext, List.length_cons] at hn
          have hread : (sequence '}' (memberOf (value n)) n).run
              (joined '}' (fields.map fun f => field f.1 f.2.text) ++ rest) = some (fields, rest) := by
            apply readsBefore_sequence (.inr rfl)
            · have := length_le_joined_all '}' (fields.map fun f => field f.1 f.2.text)
              rw [List.length_map] at this
              omega
            · exact fun f _ => ⟨'"', _, rfl, by decide, by decide⟩
            · intro f hf
              have hlength := length_le_joined '}' (List.mem_map_of_mem (f := fun f => field f.1 f.2.text) hf)
              have hvalue : f.2.text.length ≤ n := by
                rw [field, List.length_append, List.length_cons] at hlength
                omega
              exact readsBefore_memberOf (ih hvalue)
          rw [htext]
          show ((sequence '}' (memberOf (value n)) n).run (_ ++ rest)).map _ = _
          rw [hread, Option.map_some]

/-- **What is written is read back.** -/
@[simp] theorem parse_stringify (v : Value) : Value.parse v.stringify = some v := by
  have hlength : v.text.length ≤ v.stringify.length := Nat.le_of_eq String.length_ofList.symm
  have hread := readsBefore_value hlength [] nofun
  rw [List.append_nil] at hread
  unfold Value.parse Json.parse Value.stringify
  rw [String.toList_ofList]
  unfold Value.stringify at hread
  rw [hread]

end TimeChamp.Lib.Json
