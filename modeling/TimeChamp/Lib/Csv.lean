import Mathlib.Data.List.Forall2

/-!
# Comma-separated values

The reader of RFC 4180, with a line feed taken for a line break too. Outside quotes a field has no quote and no carriage
return other than in a line break; a quoted field ends at a quote that no quote follows.

* `scan`, `parse` : the reader, letter by letter, and its records;
* `Yields raw value` : wherever a field may stand, `raw` is read as `value`; `Never raw value`, it is not;
* `yields_plain`, `yields_quote` : a text without special letters, and one in quotes with its quotes doubled;
* `never_of_special`, `never_of_quote`, `never_of_undoubled` : one with special letters but not in quotes, one that
  begins with a quote, and one in quotes whose own are not doubled;
* `Cell.Decides`, `RowDecides` : what makes a field, and all fields of a record, be read as they should be;
* `parse_document` : **a document is read as it was meant exactly when each of its cells is**.
-/

namespace TimeChamp.Lib.Csv

abbrev Text := List Char

/-- What may stand in a field without quotes. -/
def plainChar (c : Char) : Bool := c ≠ '"' && c ≠ ',' && c ≠ '\n' && c ≠ '\r'

/-- Where the reader is: before a field, in one without or with quotes, after a quote in one with quotes, after a
carriage return. -/
inductive Mode where
  | start
  | plain
  | quoted
  | quote
  | cr
deriving DecidableEq

/-- What there is from some point on: the rest of a field, the other fields of its record, and the other records. -/
structure Rest where
  head : Text
  fields : List Text
  records : List (List Text)
deriving DecidableEq

namespace Rest

def empty : Rest := ⟨[], [], []⟩

/-- All records. -/
def all (r : Rest) : List (List Text) := (r.head :: r.fields) :: r.records

/-- The letters of `t` before the rest. -/
def push (t : Text) (r : Rest) : Rest := { r with head := t ++ r.head }

/-- A comma before the rest. -/
def comma (r : Rest) : Rest := ⟨[], r.head :: r.fields, r.records⟩

/-- A line break before the rest. -/
def line (r : Rest) : Rest := ⟨[], [], r.all⟩

@[simp] theorem push_nil (r : Rest) : r.push [] = r := rfl

@[simp] theorem head_push (t : Text) (r : Rest) : (r.push t).head = t ++ r.head := rfl

@[simp] theorem push_push (s t : Text) (r : Rest) : (r.push t).push s = r.push (s ++ t) := by
  simp [push]

end Rest

/-- The reader. The last record may end with a line break. -/
def scan : Mode → Text → Option Rest
  | .start, [] => some .empty
  | .start, c :: cs =>
    if c = '"' then scan .quoted cs
    else if c = ',' then (scan .start cs).map .comma
    else if c = '\n' then if cs = [] then some .empty else (scan .start cs).map .line
    else if c = '\r' then scan .cr cs
    else (scan .plain cs).map (.push [c])
  | .plain, [] => some .empty
  | .plain, c :: cs =>
    if c = '"' then none
    else if c = ',' then (scan .start cs).map .comma
    else if c = '\n' then if cs = [] then some .empty else (scan .start cs).map .line
    else if c = '\r' then scan .cr cs
    else (scan .plain cs).map (.push [c])
  | .quoted, [] => none
  | .quoted, c :: cs => if c = '"' then scan .quote cs else (scan .quoted cs).map (.push [c])
  | .quote, [] => some .empty
  | .quote, c :: cs =>
    if c = '"' then (scan .quoted cs).map (.push [c])
    else if c = ',' then (scan .start cs).map .comma
    else if c = '\n' then if cs = [] then some .empty else (scan .start cs).map .line
    else if c = '\r' then scan .cr cs
    else none
  | .cr, [] => none
  | .cr, c :: cs => if c = '\n' then if cs = [] then some .empty else (scan .start cs).map .line else none

/-- The records of a text. -/
def parse (t : Text) : Option (List (List Text)) := if t = [] then some [] else (scan .start t).map Rest.all

example : parse "a,\"b \"\"c\"\"\"\r\n,\n".toList = some [["a".toList, "b \"c\"".toList], [[], []]] := by decide

example : parse "a\rb".toList = none := by decide

/-! ## Where fields end -/

/-- A field may end before this: at the end, before a comma or before a line feed. -/
def Ends : Text → Prop
  | [] => True
  | c :: _ => c = ',' ∨ c = '\n'

theorem Ends.head_ne {c d : Char} {cs : Text} (h : Ends (c :: cs)) (hd : d ≠ ',') (hd' : d ≠ '\n') : c ≠ d := by
  rcases h with rfl | rfl
  · exact hd.symm
  · exact hd'.symm

theorem ends_comma (cs : Text) : Ends (',' :: cs) := Or.inl rfl

/-- There nothing is left of the field, whatever it was. -/
theorem scan_ends {rest : Text} (h : Ends rest) :
    scan .start rest = scan .plain rest ∧ scan .quote rest = scan .plain rest ∧
      ∀ r ∈ scan .plain rest, r.head = [] := by
  cases rest with
  | nil => exact ⟨rfl, rfl, fun r hr => by obtain rfl := Option.some.inj hr; rfl⟩
  | cons c cs =>
      rcases h with rfl | rfl
      · refine ⟨rfl, rfl, fun r hr => ?_⟩
        obtain ⟨r', -, rfl⟩ := Option.map_eq_some_iff.mp hr
        rfl
      · refine ⟨rfl, rfl, fun r hr => ?_⟩
        by_cases hcs : cs = []
        · rw [Option.mem_def, show scan .plain ('\n' :: cs) = some .empty from if_pos hcs] at hr
          obtain rfl := Option.some.inj hr
          rfl
        · rw [Option.mem_def, show scan .plain ('\n' :: cs) = (scan .start cs).map .line from if_neg hcs] at hr
          obtain ⟨r', -, rfl⟩ := Option.map_eq_some_iff.mp hr
          rfl

/-- And nothing is, before the line feed of a line break. -/
theorem head_of_scan_cr {t : Text} {r : Rest} (h : scan .cr t = some r) : r.head = [] := by
  cases t with
  | nil => exact nomatch h
  | cons c cs =>
      unfold scan at h
      split_ifs at h
      · obtain rfl := Option.some.inj h
        rfl
      · obtain ⟨r', -, rfl⟩ := Option.map_eq_some_iff.mp h
        rfl

/-- Wherever a field may stand, `raw` is read as `value`. -/
def Yields (raw value : Text) : Prop :=
  ∀ rest, Ends rest → scan .start (raw ++ rest) = (scan .plain rest).map (.push value)

/-- Wherever a field may stand, `raw` is not read as `value`. -/
def Never (raw value : Text) : Prop := ∀ rest, Ends rest → ∀ r ∈ scan .start (raw ++ rest), r.head ≠ value

/-! ## Fields without quotes -/

theorem plainChar_iff {c : Char} : plainChar c = true ↔ c ≠ '"' ∧ c ≠ ',' ∧ c ≠ '\n' ∧ c ≠ '\r' := by
  simp [plainChar, and_assoc]

theorem scan_plain_append {t : Text} (h : ∀ c ∈ t, plainChar c = true) (rest : Text) :
    scan .plain (t ++ rest) = (scan .plain rest).map (.push t) := by
  induction t with
  | nil => exact Option.map_id'.symm
  | cons c t ih =>
      obtain ⟨h1, h2, h3, h4⟩ := plainChar_iff.mp (h c List.mem_cons_self)
      have hstep : scan .plain (c :: (t ++ rest)) = (scan .plain (t ++ rest)).map (.push [c]) := by
        simp [scan, h1, h2, h3, h4]
      rw [List.cons_append, hstep, ih fun d hd => h d (List.mem_cons_of_mem _ hd), Option.map_map]
      exact congrArg (Option.map · _) (funext fun r => Rest.push_push [c] t r)

/-- Before a field whose first letter is not a quote. -/
theorem scan_start_eq_plain {c : Char} (h : c ≠ '"') (cs : Text) : scan .start (c :: cs) = scan .plain (c :: cs) := by
  simp [scan, h]

/-- **A text without special letters** is read as it is. -/
theorem yields_plain {t : Text} (h : ∀ c ∈ t, plainChar c = true) : Yields t t := by
  intro rest hrest
  cases t with
  | nil => exact (scan_ends hrest).1.trans Option.map_id'.symm
  | cons c t =>
      rw [List.cons_append, scan_start_eq_plain (plainChar_iff.mp (h c List.mem_cons_self)).1, ← List.cons_append]
      exact scan_plain_append h rest

theorem plainChar_of_scan_plain {t : Text} {r : Rest} (h : scan .plain t = some r) :
    ∀ c ∈ r.head, plainChar c = true := by
  induction t generalizing r with
  | nil =>
      obtain rfl := Option.some.inj h
      exact fun c hc => absurd hc List.not_mem_nil
  | cons d t ih =>
      by_cases h1 : d = '"'
      · subst h1
        exact nomatch h
      by_cases h2 : d = ',' ∨ d = '\n'
      · have hends : Ends (d :: t) := h2
        rw [(scan_ends hends).2.2 r h]
        exact fun c hc => absurd hc List.not_mem_nil
      rw [not_or] at h2
      by_cases h3 : d = '\r'
      · subst h3
        rw [head_of_scan_cr h]
        exact fun c hc => absurd hc List.not_mem_nil
      · have hstep : scan .plain (d :: t) = (scan .plain t).map (.push [d]) := by
          simp [scan, h1, h2.1, h2.2, h3]
        rw [hstep] at h
        obtain ⟨r', hr', rfl⟩ := Option.map_eq_some_iff.mp h
        intro c hc
        rcases List.mem_cons.mp hc with rfl | hc
        · exact plainChar_iff.mpr ⟨h1, h2.1, h2.2, h3⟩
        · exact ih hr' c hc

/-- **A text that is not in quotes but has a special letter** is never read as it is. -/
theorem never_of_special {t : Text} (hquote : t.head? ≠ some '"') (h : ∃ c ∈ t, plainChar c = false) : Never t t := by
  intro rest _ r hr hhead
  obtain ⟨d, hd, hspecial⟩ := h
  obtain ⟨c, cs, rfl⟩ := List.exists_cons_of_ne_nil (List.ne_nil_of_mem hd)
  have hc : c ≠ '"' := fun hc => hquote (by rw [List.head?_cons, hc])
  rw [List.cons_append, scan_start_eq_plain hc] at hr
  rw [plainChar_of_scan_plain hr d (hhead ▸ hd)] at hspecial
  exact nomatch hspecial

/-! ## Fields in quotes -/

/-- The text with its quotes doubled. -/
def double (t : Text) : Text := t.flatMap fun c => if c = '"' then ['"', '"'] else [c]

/-- The text in quotes, with its quotes doubled. -/
def quote (t : Text) : Text := '"' :: double t ++ ['"']

@[simp] theorem double_nil : double [] = [] := rfl

@[simp] theorem double_cons_quote (t : Text) : double ('"' :: t) = '"' :: '"' :: double t := rfl

theorem double_cons {c : Char} (h : c ≠ '"') (t : Text) : double (c :: t) = c :: double t := by
  rw [double, List.flatMap_cons, if_neg h]
  rfl

theorem double_eq_self {t : Text} (h : '"' ∉ t) : double t = t := by
  induction t with
  | nil => rfl
  | cons c t ih =>
      rw [List.mem_cons, not_or] at h
      rw [double_cons (Ne.symm h.1), ih h.2]

theorem scan_quoted_append (t rest : Text) :
    scan .quoted (double t ++ rest) = (scan .quoted rest).map (.push t) := by
  induction t with
  | nil => exact Option.map_id'.symm
  | cons c t ih =>
      have hpush : (scan .quoted (double t ++ rest)).map (Rest.push [c]) =
          (scan .quoted rest).map (Rest.push (c :: t)) := by
        rw [ih, Option.map_map]
        exact congrArg (Option.map · _) (funext fun r => Rest.push_push [c] t r)
      rw [← hpush]
      by_cases hc : c = '"'
      · subst hc
        rfl
      · simp [double_cons hc, scan, hc]

/-- **A text in quotes with its quotes doubled** is read as it was. -/
theorem yields_quote (t : Text) : Yields (quote t) t := by
  intro rest hrest
  have hraw : quote t ++ rest = '"' :: (double t ++ '"' :: rest) := by simp [quote]
  rw [hraw]
  show scan .quoted (double t ++ '"' :: rest) = _
  rw [scan_quoted_append]
  show (scan .quote rest).map _ = _
  rw [(scan_ends hrest).2.1]

/-- What is read in quotes stands there with its quotes doubled, and a quote that no quote follows comes after it. -/
theorem eq_of_scan_quoted {t : Text} {r : Rest} (h : scan .quoted t = some r) :
    ∃ rest, t = double r.head ++ '"' :: rest ∧ rest.head? ≠ some '"' := by
  suffices hboth : (∀ r, scan .quoted t = some r →
        ∃ rest, t = double r.head ++ '"' :: rest ∧ rest.head? ≠ some '"') ∧
      ∀ r, scan .quote t = some r →
        ∃ rest, '"' :: t = double r.head ++ '"' :: rest ∧ rest.head? ≠ some '"' from hboth.1 r h
  clear h r
  induction t with
  | nil =>
      refine ⟨fun r hr => (nomatch hr), fun r hr => ?_⟩
      obtain rfl := Option.some.inj hr
      exact ⟨[], rfl, fun h => nomatch h⟩
  | cons c t ih =>
      constructor
      · intro r hr
        by_cases hc : c = '"'
        · subst hc
          exact ih.2 r hr
        · have hstep : scan .quoted (c :: t) = (scan .quoted t).map (.push [c]) := by
            simp [scan, hc]
          rw [hstep] at hr
          obtain ⟨r', hr', rfl⟩ := Option.map_eq_some_iff.mp hr
          obtain ⟨rest, ht, hrest⟩ := ih.1 r' hr'
          refine ⟨rest, ?_, hrest⟩
          rw [Rest.head_push, List.singleton_append, double_cons hc, ht]
          rfl
      · intro r hr
        by_cases hc : c = '"'
        · subst hc
          obtain ⟨r', hr', rfl⟩ := Option.map_eq_some_iff.mp hr
          obtain ⟨rest, ht, hrest⟩ := ih.1 r' hr'
          refine ⟨rest, ?_, hrest⟩
          rw [ht]
          rfl
        · -- the field ended
          have hhead : r.head = [] := by
            by_cases h2 : c = ',' ∨ c = '\n'
            · have hends : Ends (c :: t) := h2
              exact (scan_ends hends).2.2 r ((scan_ends hends).2.1 ▸ hr)
            rw [not_or] at h2
            by_cases h3 : c = '\r'
            · subst h3
              exact head_of_scan_cr hr
            · simp [scan, hc, h2.1, h2.2, h3] at hr
          exact ⟨c :: t, by rw [hhead]; rfl, by simpa using hc⟩

/-- How many quotes a text begins with. -/
def lead : Text → Nat
  | [] => 0
  | c :: t => if c = '"' then lead t + 1 else 0

theorem lead_eq_zero {t : Text} (h : t.head? ≠ some '"') : lead t = 0 := by
  cases t with
  | nil => rfl
  | cons c t => exact if_neg fun hc => h (by rw [List.head?_cons, hc])

theorem lead_le_double (t : Text) {u v : Text} (h : lead u ≤ lead v) : lead (t ++ u) ≤ lead (double t ++ v) := by
  induction t with
  | nil => exact h
  | cons c t ih =>
      by_cases hc : c = '"'
      · subst hc
        show lead (t ++ u) + 1 ≤ lead (double t ++ v) + 1 + 1
        omega
      · rw [List.cons_append, lead, if_neg hc]
        exact Nat.zero_le _

/-- **A text that begins with a quote** is never read as it is. -/
theorem never_of_quote (t : Text) : Never ('"' :: t) ('"' :: t) := by
  intro rest hrest r hr hhead
  obtain ⟨rest', heq, -⟩ := eq_of_scan_quoted (t := t ++ rest) hr
  have hends : rest.head? ≠ some '"' := by
    cases rest with
    | nil => exact fun h => nomatch h
    | cons c cs => exact fun h => hrest.head_ne (by decide) (by decide) (Option.some.inj h)
  rw [hhead, double_cons_quote] at heq
  have hlead : lead (t ++ rest) = lead (double t ++ '"' :: rest') + 1 + 1 := by rw [heq]; rfl
  have hle := lead_le_double t (v := '"' :: rest') (le_of_eq_of_le (lead_eq_zero hends) (Nat.zero_le _))
  omega

/-- **A text put in quotes as it is, with a quote in it,** is never read as it was. -/
theorem never_of_undoubled {t : Text} (h : '"' ∈ t) : Never ('"' :: t ++ ['"']) t := by
  intro rest hrest r hr hhead
  have hraw : '"' :: t ++ ['"'] ++ rest = '"' :: (t ++ '"' :: rest) := by simp
  rw [hraw] at hr
  obtain ⟨rest', heq, hrest'⟩ := eq_of_scan_quoted (t := t ++ '"' :: rest) hr
  have hends : rest.head? ≠ some '"' := by
    cases rest with
    | nil => exact fun h => nomatch h
    | cons c cs => exact fun h => hrest.head_ne (by decide) (by decide) (Option.some.inj h)
  rw [hhead] at heq
  clear hr hhead hraw
  induction t with
  | nil => exact List.not_mem_nil h
  | cons c t ih =>
      by_cases hc : c = '"'
      · -- the first quote of `t` was read with the one after it
        subst hc
        have hlead : lead (t ++ '"' :: rest) = lead (double t ++ '"' :: rest') + 1 := by
          rw [show t ++ '"' :: rest = '"' :: (double t ++ '"' :: rest') from (List.cons.inj heq).2]
          rfl
        have hquote : lead ('"' :: rest) ≤ lead ('"' :: rest') := by
          show lead rest + 1 ≤ lead rest' + 1
          have hzero := lead_eq_zero hends
          omega
        have hle := lead_le_double t hquote
        omega
      · apply ih ((List.mem_cons.mp h).resolve_left (Ne.symm hc))
        rw [double_cons hc] at heq
        exact (List.cons.inj heq).2

/-- A text in quotes that has none. -/
theorem yields_undoubled {t : Text} (h : '"' ∉ t) : Yields ('"' :: t ++ ['"']) t := by
  have hquote := yields_quote t
  rwa [quote, double_eq_self h] at hquote

/-! ## Documents -/

/-- A field as it is written, and what it should be read as if that matters. -/
structure Cell where
  raw : Text
  want : Option Text

def Cell.Good (c : Cell) : Prop := ∃ value, Yields c.raw value ∧ ∀ w ∈ c.want, value = w

def Cell.Bad (c : Cell) : Prop := ∃ w, c.want = some w ∧ Never c.raw w

theorem Cell.not_good_of_bad {c : Cell} (h : c.Bad) : ¬ c.Good := by
  rintro ⟨value, hyields, hwant⟩
  obtain ⟨w, hw, hnever⟩ := h
  apply hnever [] trivial _ (hyields [] trivial)
  rw [← hwant w hw]
  exact List.append_nil _

/-- The cell is good if `P` holds, and bad if it does not. -/
def Cell.Decides (c : Cell) (P : Prop) : Prop := (P → c.Good) ∧ (¬ P → c.Bad)

theorem Cell.Decides.good_iff {c : Cell} {P : Prop} (h : c.Decides P) : c.Good ↔ P :=
  ⟨fun hgood => Classical.byContradiction fun hP => c.not_good_of_bad (h.2 hP) hgood, h.1⟩

theorem Cell.Decides.good_or_bad {c : Cell} {P : Prop} (h : c.Decides P) : c.Good ∨ c.Bad :=
  (Classical.em P).imp h.1 h.2

theorem Cell.good_of_plain {t : Text} {want : Option Text} (h : ∀ c ∈ t, plainChar c = true)
    (hwant : ∀ w ∈ want, t = w) : Cell.Good ⟨t, want⟩ :=
  ⟨t, yields_plain h, hwant⟩

/-- A text without quotes, that should be read as it is. -/
theorem decides_bare (t : Text) : Cell.Decides ⟨t, some t⟩ (∀ c ∈ t, plainChar c = true) := by
  refine ⟨fun h => ⟨t, yields_plain h, fun w hw => Option.some.inj hw⟩, fun h => ⟨t, rfl, ?_⟩⟩
  cases t with
  | nil => exact absurd (fun c hc => absurd hc List.not_mem_nil) h
  | cons c t =>
      by_cases hc : c = '"'
      · subst hc
        exact never_of_quote t
      · refine never_of_special (fun hhead => hc (Option.some.inj hhead)) ?_
        simpa only [not_forall, exists_prop, Bool.not_eq_true] using h

/-- A text in quotes that should be read as it is. -/
theorem decides_undoubled (t : Text) : Cell.Decides ⟨'"' :: t ++ ['"'], some t⟩ ('"' ∉ t) :=
  ⟨fun h => ⟨t, yields_undoubled h, fun _ hw => Option.some.inj hw⟩,
    fun h => ⟨t, rfl, never_of_undoubled (Classical.not_not.mp h)⟩⟩

/-- Each cell is good or bad, and all are good exactly when `P` holds. -/
def RowDecides (cells : List Cell) (P : Prop) : Prop :=
  (∀ c ∈ cells, c.Good ∨ c.Bad) ∧ ((∀ c ∈ cells, c.Good) ↔ P)

theorem rowDecides_nil : RowDecides [] True :=
  ⟨fun _ hc => absurd hc List.not_mem_nil, iff_of_true (fun _ hc => absurd hc List.not_mem_nil) trivial⟩

theorem RowDecides.good {c : Cell} {cells : List Cell} {P : Prop} (hc : c.Good) (h : RowDecides cells P) :
    RowDecides (c :: cells) P :=
  ⟨List.forall_mem_cons.mpr ⟨Or.inl hc, h.1⟩, List.forall_mem_cons.trans ((and_iff_right hc).trans h.2)⟩

theorem RowDecides.decides {c : Cell} {cells : List Cell} {P Q : Prop} (hc : c.Decides Q) (h : RowDecides cells P) :
    RowDecides (c :: cells) (Q ∧ P) :=
  ⟨List.forall_mem_cons.mpr ⟨hc.good_or_bad, h.1⟩, List.forall_mem_cons.trans (and_congr hc.good_iff h.2)⟩

/-- A record has a field for each cell, and each is what it should be. -/
def Agrees (cells : List Cell) (record : List Text) : Prop :=
  List.Forall₂ (fun c field => ∀ w ∈ c.want, field = w) cells record

/-- The fields of a record. -/
def row (cells : List Cell) : Text := [','].intercalate (cells.map Cell.raw)

/-- The records of a document. -/
def document (rows : List (List Cell)) : Text := ['\n'].intercalate (rows.map row)

/-- A record may end before this. -/
def EndsRow (rest : Text) : Prop := rest = [] ∨ ∃ cs, rest = '\n' :: cs

theorem EndsRow.ends {rest : Text} (h : EndsRow rest) : Ends rest := by
  rcases h with rfl | ⟨cs, rfl⟩
  · trivial
  · exact Or.inr rfl

theorem EndsRow.fields {rest : Text} (h : EndsRow rest) {r : Rest} (hr : scan .plain rest = some r) :
    r.head = [] ∧ r.fields = [] := by
  refine ⟨(scan_ends h.ends).2.2 r hr, ?_⟩
  rcases h with rfl | ⟨cs, rfl⟩
  · obtain rfl := Option.some.inj hr
    rfl
  · by_cases hcs : cs = []
    · rw [show scan .plain ('\n' :: cs) = some .empty from if_pos hcs] at hr
      obtain rfl := Option.some.inj hr
      rfl
    · rw [show scan .plain ('\n' :: cs) = (scan .start cs).map .line from if_neg hcs] at hr
      obtain ⟨r', -, rfl⟩ := Option.map_eq_some_iff.mp hr
      rfl

theorem row_append_cons (c d : Cell) (cells : List Cell) (rest : Text) :
    row (c :: d :: cells) ++ rest = c.raw ++ ',' :: (row (d :: cells) ++ rest) := by
  simp [row]

/-- **A record of good cells** is read as it should be. -/
theorem scan_row {c : Cell} {cells : List Cell} (h : ∀ d ∈ c :: cells, d.Good) {rest : Text} (hrest : EndsRow rest) :
    ∃ head fields, Agrees (c :: cells) (head :: fields) ∧
      scan .start (row (c :: cells) ++ rest) = (scan .plain rest).map fun r => ⟨head, fields, r.records⟩ := by
  induction cells generalizing c with
  | nil =>
      obtain ⟨value, hyields, hwant⟩ := h c List.mem_cons_self
      refine ⟨value, [], List.forall₂_cons.mpr ⟨hwant, .nil⟩, ?_⟩
      rw [show row [c] = c.raw by simp [row], hyields rest hrest.ends]
      apply Option.map_congr
      intro r hr
      obtain ⟨hhead, hfields⟩ := hrest.fields hr
      rw [Rest.push, hhead, hfields, List.append_nil]
  | cons d cells ih =>
      obtain ⟨value, hyields, hwant⟩ := h c List.mem_cons_self
      obtain ⟨head, fields, hagrees, hscan⟩ := ih fun e he => h e (List.mem_cons_of_mem _ he)
      refine ⟨value, head :: fields, List.forall₂_cons.mpr ⟨hwant, hagrees⟩, ?_⟩
      rw [row_append_cons, hyields _ (ends_comma _)]
      show ((scan .start (row (d :: cells) ++ rest)).map Rest.comma).map (Rest.push value) = _
      rw [hscan, Option.map_map, Option.map_map]
      refine congrArg (Option.map · _) (funext fun r => ?_)
      simp [Rest.comma, Rest.push]

/-- **Only a record of good cells** is read as it should be. -/
theorem good_of_scan_row {c : Cell} {cells : List Cell} (h : ∀ d ∈ c :: cells, d.Good ∨ d.Bad) {rest : Text}
    (hrest : EndsRow rest) {r : Rest} (hr : scan .start (row (c :: cells) ++ rest) = some r)
    (hagrees : Agrees (c :: cells) (r.head :: r.fields)) : ∀ d ∈ c :: cells, d.Good := by
  induction cells generalizing c r with
  | nil =>
      obtain ⟨hwant, -⟩ := List.forall₂_cons.mp hagrees
      rw [show row [c] = c.raw by simp [row]] at hr
      intro d hd
      rw [List.mem_singleton.mp hd]
      apply (h c List.mem_cons_self).resolve_right
      rintro ⟨w, hw, hnever⟩
      exact hnever rest hrest.ends r hr (hwant w hw)
  | cons d cells ih =>
      obtain ⟨hwant, htail⟩ := List.forall₂_cons.mp hagrees
      rw [row_append_cons] at hr
      have hgood : c.Good := by
        apply (h c List.mem_cons_self).resolve_right
        rintro ⟨w, hw, hnever⟩
        exact hnever _ (ends_comma _) r hr (hwant w hw)
      obtain ⟨value, hyields, hvalue⟩ := hgood
      rw [hyields _ (ends_comma _)] at hr
      obtain ⟨r', hr', rfl⟩ := Option.map_eq_some_iff.mp hr
      obtain ⟨r'', hr'', rfl⟩ := Option.map_eq_some_iff.mp
        (show (scan .start (row (d :: cells) ++ rest)).map Rest.comma = some r' from hr')
      intro e he
      rcases List.mem_cons.mp he with rfl | he
      · exact ⟨value, hyields, hvalue⟩
      · exact ih (fun e he => h e (List.mem_cons_of_mem _ he)) hr'' htail e he

theorem row_ne_nil {cells : List Cell} (h : 2 ≤ cells.length) : row cells ≠ [] := by
  match cells, h with
  | c :: d :: cells, _ =>
    intro hnil
    have := row_append_cons c d cells []
    simp [hnil] at this

theorem document_cons_cons (first second : List Cell) (rows : List (List Cell)) :
    document (first :: second :: rows) = row first ++ '\n' :: document (second :: rows) := by
  simp [document]

theorem document_ne_nil {cells : List Cell} (h : 2 ≤ cells.length) (rows : List (List Cell)) :
    document (cells :: rows) ≠ [] := by
  cases rows with
  | nil => simpa [document] using row_ne_nil h
  | cons second rows =>
      rw [document_cons_cons]
      exact List.append_ne_nil_of_left_ne_nil (row_ne_nil h) _

/-- After a record, the reader goes on with the next. -/
theorem scan_plain_line {t : Text} (h : t ≠ []) : scan .plain ('\n' :: t) = (scan .start t).map Rest.line := if_neg h

/-- A document of good cells is read as it should be. -/
theorem scan_document {cells : List Cell} {rows : List (List Cell)} (hlength : ∀ row ∈ cells :: rows, 2 ≤ row.length)
    (h : ∀ row ∈ cells :: rows, ∀ c ∈ row, c.Good) :
    ∃ r, scan .start (document (cells :: rows)) = some r ∧ List.Forall₂ Agrees (cells :: rows) r.all := by
  induction rows generalizing cells with
  | nil =>
      match cells, hlength cells List.mem_cons_self with
      | c :: cs, _ =>
        obtain ⟨head, fields, hagrees, hscan⟩ := scan_row (h _ List.mem_cons_self) (Or.inl rfl)
        refine ⟨⟨head, fields, []⟩, ?_, List.forall₂_cons.mpr ⟨hagrees, .nil⟩⟩
        rw [show document [c :: cs] = row (c :: cs) ++ [] by simp [document], hscan]
        rfl
  | cons second rows ih =>
      match cells, hlength cells List.mem_cons_self with
      | c :: cs, _ =>
        have hlength' : ∀ row ∈ second :: rows, 2 ≤ row.length := fun row hrow =>
          hlength row (List.mem_cons_of_mem _ hrow)
        obtain ⟨r, hr, hrest⟩ := ih hlength' fun row hrow => h row (List.mem_cons_of_mem _ hrow)
        obtain ⟨head, fields, hagrees, hscan⟩ := scan_row (h _ List.mem_cons_self)
          (Or.inr ⟨document (second :: rows), rfl⟩)
        refine ⟨⟨head, fields, r.all⟩, ?_, List.forall₂_cons.mpr ⟨hagrees, hrest⟩⟩
        rw [document_cons_cons, hscan, scan_plain_line (document_ne_nil (hlength' second List.mem_cons_self) rows), hr]
        rfl

/-- Only a document of good cells is read as it should be. -/
theorem good_of_scan_document {cells : List Cell} {rows : List (List Cell)}
    (hlength : ∀ row ∈ cells :: rows, 2 ≤ row.length) (h : ∀ row ∈ cells :: rows, ∀ c ∈ row, c.Good ∨ c.Bad) {r : Rest}
    (hr : scan .start (document (cells :: rows)) = some r) (hagrees : List.Forall₂ Agrees (cells :: rows) r.all) :
    ∀ row ∈ cells :: rows, ∀ c ∈ row, c.Good := by
  induction rows generalizing cells r with
  | nil =>
      have hfirst := (List.forall₂_cons.mp hagrees).1
      match cells, hlength cells List.mem_cons_self with
      | c :: cs, _ =>
        rw [show document [c :: cs] = row (c :: cs) ++ [] by simp [document]] at hr
        have hgood := good_of_scan_row (h _ List.mem_cons_self) (Or.inl rfl) hr hfirst
        intro row hrow
        rwa [List.mem_singleton.mp hrow]
  | cons second rows ih =>
      obtain ⟨hfirst, hrest⟩ := List.forall₂_cons.mp hagrees
      match cells, hlength cells List.mem_cons_self with
      | c :: cs, _ =>
        have hlength' : ∀ row ∈ second :: rows, 2 ≤ row.length := fun row hrow =>
          hlength row (List.mem_cons_of_mem _ hrow)
        have hends : EndsRow ('\n' :: document (second :: rows)) := Or.inr ⟨_, rfl⟩
        rw [document_cons_cons] at hr
        have hgood := good_of_scan_row (h _ List.mem_cons_self) hends hr hfirst
        -- so this record was read as it should be, and what is left is the rest of the document
        obtain ⟨head, fields, -, hscan⟩ := scan_row hgood hends
        rw [hscan, scan_plain_line (document_ne_nil (hlength' second List.mem_cons_self) rows), Option.map_map] at hr
        obtain ⟨r', hr', rfl⟩ := Option.map_eq_some_iff.mp hr
        have hothers := ih hlength' (fun row hrow => h row (List.mem_cons_of_mem _ hrow)) hr' hrest
        intro row hrow
        rcases List.mem_cons.mp hrow with rfl | hrow
        · exact hgood
        · exact hothers row hrow

/-- **Documents.** With at least two cells in each record, a document is read as it should be exactly when each of its
cells is. -/
theorem parse_document {cells : List Cell} {rows : List (List Cell)} (hlength : ∀ row ∈ cells :: rows, 2 ≤ row.length)
    (h : ∀ row ∈ cells :: rows, ∀ c ∈ row, c.Good ∨ c.Bad) :
    (∃ records, parse (document (cells :: rows)) = some records ∧ List.Forall₂ Agrees (cells :: rows) records) ↔
      ∀ row ∈ cells :: rows, ∀ c ∈ row, c.Good := by
  rw [parse, if_neg (document_ne_nil (hlength cells List.mem_cons_self) rows)]
  constructor
  · rintro ⟨records, hparse, hagrees⟩
    obtain ⟨r, hr, rfl⟩ := Option.map_eq_some_iff.mp hparse
    exact good_of_scan_document hlength h hr hagrees
  · intro hgood
    obtain ⟨r, hr, hagrees⟩ := scan_document hlength hgood
    exact ⟨r.all, by rw [hr, Option.map_some], hagrees⟩

end TimeChamp.Lib.Csv
