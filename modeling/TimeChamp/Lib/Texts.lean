import Mathlib.Algebra.Group.Nat.Defs
import Mathlib.Data.List.Basic
import Mathlib.Data.Nat.Notation

/-!
# Numbers, instants and ids as texts

Instants are milliseconds since 1970, dates those of the proleptic Gregorian calendar.

* `unitLength s`, `slice n s` : the length of a text and its beginning, in UTF-16 units;
* `digits w n` : the last `w` decimal digits of `n`; `digits_inj`;
* `intText`, `sixtieths` : an integer, and a number of sixtieths with two decimals, as they are printed;
* `civil z` : the date of the day `z`; `civil_inj`;
* `toISOString t` : the text of an instant; `isoChar_of_mem`;
* `dateText z` : the text of a day, what `slice(0, 10)` leaves of it in a year of four digits; `dateText_inj` : **it names
  the day**;
* `Uuid` : a text in the form of one.
-/

namespace TimeChamp.Lib

/-! ## UTF-16 -/

/-- The UTF-16 units of a character. -/
def unitsOf (c : Char) : Nat := if c.toNat < 0x10000 then 1 else 2

/-- `s.length`. -/
def unitLength (s : String) : Nat := s.toList.foldl (fun n c => n + unitsOf c) 0

/-- The first `n` units; half of a surrogate pair becomes the replacement character, as it does when it is written. -/
def sliceUnits : Nat → List Char → List Char
  | _, [] => []
  | 0, _ => []
  | 1, c :: _ => if c.toNat < 0x10000 then [c] else ['\uFFFD']
  | n + 2, c :: cs => if c.toNat < 0x10000 then c :: sliceUnits (n + 1) cs else c :: sliceUnits n cs

/-- `s.slice(0, n)`. -/
def slice (n : Nat) (s : String) : String := String.ofList (sliceUnits n s.toList)

/-! ## Digits -/

/-- The last `w` decimal digits of `n`. -/
def digits : Nat → Nat → List Char
  | 0, _ => []
  | w + 1, n => digits w (n / 10) ++ [Nat.digitChar (n % 10)]

@[simp] theorem length_digits (w n : Nat) : (digits w n).length = w := by
  induction w generalizing n with
  | zero => rfl
  | succ w ih => simp [digits, ih]

theorem digitChar_inj {a b : Nat} (ha : a < 10) (hb : b < 10) (h : Nat.digitChar a = Nat.digitChar b) : a = b := by
  have hall : ∀ a < 10, ∀ b < 10, Nat.digitChar a = Nat.digitChar b → a = b := by decide
  exact hall a ha b hb h

theorem digits_inj {w n m : Nat} (hn : n < 10 ^ w) (hm : m < 10 ^ w) (h : digits w n = digits w m) : n = m := by
  induction w generalizing n m with
  | zero => omega
  | succ w ih =>
      obtain ⟨hrest, hlast⟩ := List.append_inj' h rfl
      have hdiv : n / 10 = m / 10 := ih (by omega) (by omega) hrest
      have hmod : n % 10 = m % 10 :=
        digitChar_inj (Nat.mod_lt _ (by decide)) (Nat.mod_lt _ (by decide)) (List.singleton_inj.mp hlast)
      omega

theorem isDigit_of_mem_digits {w n : Nat} {c : Char} (h : c ∈ digits w n) : c.isDigit = true := by
  induction w generalizing n with
  | zero => exact absurd h List.not_mem_nil
  | succ w ih =>
      rcases List.mem_append.mp h with h | h
      · exact ih h
      · rw [List.mem_singleton.mp h, Nat.isDigit_digitChar]
        exact decide_eq_true (Nat.mod_lt _ (by decide))

/-- An integer as it is printed. -/
def intText (n : Int) : List Char := if n < 0 then '-' :: Nat.toDigits 10 n.natAbs else Nat.toDigits 10 n.natAbs

/-- `(n / 60).toFixed(2)`. It is the hundredth nearest to `5 * n / 3`, which is never halfway between two. -/
def sixtieths (n : Int) : List Char :=
  let h := (10 * n.natAbs + 3) / 6
  (if n < 0 then ['-'] else []) ++ Nat.toDigits 10 (h / 100) ++ '.' :: digits 2 (h % 100)

/-! ## Dates -/

structure Date where
  year : Int
  month : Int
  day : Int
deriving DecidableEq

/-- Years that begin in March: the century, the year and the day of the year of the `n`-th day. -/
def dayOfCentury (n : Int) : Int := (4 * n + 3) % 146097 / 4

def marchYear (n : Int) : Int := 100 * ((4 * n + 3) / 146097) + (4 * dayOfCentury n + 3) / 1461

def dayOfYear (n : Int) : Int := (4 * dayOfCentury n + 3) % 1461 / 4

/-- The first day of a year that begins in March. -/
def marchFirst (y : Int) : Int := 146097 * (y / 100) / 4 + 1461 * (y % 100) / 4

/-- The month and the day in it, of a day of a year that begins in March. -/
def monthOf (doy : Int) : Int := if (5 * doy + 2) / 153 < 10 then (5 * doy + 2) / 153 + 3 else (5 * doy + 2) / 153 - 9

def dayOfMonth (doy : Int) : Int := doy - (153 * ((5 * doy + 2) / 153) + 2) / 5 + 1

/-- The date of the day `z`, counted from 1970. -/
def civil (z : Int) : Date :=
  let n := z + 719468
  let month := monthOf (dayOfYear n)
  ⟨marchYear n + (if month ≤ 2 then 1 else 0), month, dayOfMonth (dayOfYear n)⟩

example : civil 19781 = ⟨2024, 2, 28⟩ ∧ civil 19782 = ⟨2024, 2, 29⟩ ∧ civil 19783 = ⟨2024, 3, 1⟩ := by decide

theorem dayOfYear_bounds (n : Int) : 0 ≤ dayOfYear n ∧ dayOfYear n ≤ 365 := by
  unfold dayOfYear
  omega

theorem marchFirst_add_dayOfYear (n : Int) : marchFirst (marchYear n) + dayOfYear n = n := by
  have hc : 0 ≤ dayOfCentury n ∧ dayOfCentury n ≤ 36524 := by
    unfold dayOfCentury
    omega
  have hyear : (4 * dayOfCentury n + 3) / 1461 < 100 := by omega
  have hcentury : marchYear n / 100 = (4 * n + 3) / 146097 := by
    unfold marchYear
    omega
  have hmod : marchYear n % 100 = (4 * dayOfCentury n + 3) / 1461 := by
    unfold marchYear
    omega
  have hn : 146097 * ((4 * n + 3) / 146097) / 4 + dayOfCentury n = n := by
    unfold dayOfCentury
    omega
  have hd : 1461 * ((4 * dayOfCentury n + 3) / 1461) / 4 + dayOfYear n = dayOfCentury n := by
    unfold dayOfYear
    omega
  rw [marchFirst, hcentury, hmod]
  omega

theorem monthOf_bounds {doy : Int} (h : 0 ≤ doy ∧ doy ≤ 365) : 1 ≤ monthOf doy ∧ monthOf doy ≤ 12 := by
  unfold monthOf
  split_ifs <;> omega

theorem dayOfMonth_bounds (doy : Int) : 1 ≤ dayOfMonth doy ∧ dayOfMonth doy ≤ 31 := by
  unfold dayOfMonth
  omega

/-- The month and the day in it name the day of the year. -/
theorem monthOf_inj {a b : Int} (ha : 0 ≤ a ∧ a ≤ 365) (hb : 0 ≤ b ∧ b ≤ 365) (hm : monthOf a = monthOf b)
    (hd : dayOfMonth a = dayOfMonth b) : a = b := by
  unfold monthOf at hm
  unfold dayOfMonth at hd
  split_ifs at hm <;> omega

/-- **A date names one day.** -/
theorem civil_inj {a b : Int} (h : civil a = civil b) : a = b := by
  obtain ⟨hyear, hmonth, hday⟩ := Date.mk.inj h
  have hdoy := monthOf_inj (dayOfYear_bounds _) (dayOfYear_bounds _) hmonth hday
  rw [hdoy] at hyear
  have hmarch : marchYear (a + 719468) = marchYear (b + 719468) := by omega
  have h1 := marchFirst_add_dayOfYear (a + 719468)
  have h2 := marchFirst_add_dayOfYear (b + 719468)
  rw [hmarch, hdoy] at h1
  omega

theorem month_bounds (z : Int) : 1 ≤ (civil z).month ∧ (civil z).month ≤ 12 := monthOf_bounds (dayOfYear_bounds _)

theorem day_bounds (z : Int) : 1 ≤ (civil z).day ∧ (civil z).day ≤ 31 := dayOfMonth_bounds _

/-- The year of a day is about its number over the length of a year. -/
theorem year_bounds {z : Int} (h : -100000000 ≤ z) (h' : z ≤ 100000000) :
    -1000000 < (civil z).year ∧ (civil z).year < 1000000 := by
  have hyear : -999999 ≤ marchYear (z + 719468) ∧ marchYear (z + 719468) < 999998 := by
    unfold marchYear dayOfCentury
    omega
  unfold civil
  dsimp only
  constructor <;> split_ifs <;> omega

/-- The days of the years 0 to 9999. -/
def FourDigits (z : Int) : Prop := -719528 ≤ z ∧ z ≤ 2932896

instance (z : Int) : Decidable (FourDigits z) := inferInstanceAs (Decidable (_ ∧ _))

theorem year_of_fourDigits {z : Int} (h : FourDigits z) : 0 ≤ (civil z).year ∧ (civil z).year < 10000 := by
  unfold FourDigits at h
  have hfirst := marchFirst_add_dayOfYear (z + 719468)
  have hdoy := dayOfYear_bounds (z + 719468)
  have hmarch : -1 ≤ marchYear (z + 719468) ∧ marchYear (z + 719468) ≤ 9999 := by
    unfold marchYear dayOfCentury
    omega
  have hlow : marchYear (z + 719468) = -1 → monthOf (dayOfYear (z + 719468)) ≤ 2 := by
    intro hy
    rw [hy] at hfirst
    unfold marchFirst at hfirst
    unfold monthOf
    split_ifs <;> omega
  have hhigh : marchYear (z + 719468) = 9999 → ¬ monthOf (dayOfYear (z + 719468)) ≤ 2 := by
    intro hy
    rw [hy] at hfirst
    unfold marchFirst at hfirst
    unfold monthOf
    split_ifs <;> omega
  unfold civil
  dsimp only
  split_ifs with hmonth <;> omega

/-- And no others. -/
theorem fourDigits_iff (z : Int) : FourDigits z ↔ 0 ≤ (civil z).year ∧ (civil z).year < 10000 := by
  refine ⟨year_of_fourDigits, fun h => ?_⟩
  have hfirst := marchFirst_add_dayOfYear (z + 719468)
  have hdoy := dayOfYear_bounds (z + 719468)
  by_contra hout
  unfold FourDigits at hout
  unfold civil at h
  dsimp only at h
  obtain hlow | hhigh : z < -719528 ∨ 2932896 < z := by omega
  · have hmarch : marchYear (z + 719468) ≤ -1 := by
      unfold marchYear dayOfCentury
      omega
    have hmonth : marchYear (z + 719468) = -1 → ¬ monthOf (dayOfYear (z + 719468)) ≤ 2 := by
      intro hy
      rw [hy] at hfirst
      unfold marchFirst at hfirst
      unfold monthOf
      split_ifs <;> omega
    split_ifs at h <;> omega
  · have hmarch : 9999 ≤ marchYear (z + 719468) := by
      unfold marchYear dayOfCentury
      omega
    have hmonth : marchYear (z + 719468) = 9999 → monthOf (dayOfYear (z + 719468)) ≤ 2 := by
      intro hy
      rw [hy] at hfirst
      unfold marchFirst at hfirst
      unfold monthOf
      split_ifs <;> omega
    split_ifs at h <;> omega

/-! ## Texts -/

/-- Four digits, or a sign and six. -/
def yearText (y : Int) : List Char :=
  if 0 ≤ y ∧ y < 10000 then digits 4 y.toNat else (if y < 0 then '-' else '+') :: digits 6 y.natAbs

/-- The month and the day of a date. -/
def monthDayText (d : Date) : List Char := '-' :: digits 2 d.month.toNat ++ '-' :: digits 2 d.day.toNat

/-- The text of the day `z`. -/
def dateText (z : Int) : List Char := yearText (civil z).year ++ monthDayText (civil z)

/-- The text of a time of day. -/
def timeText (ms : Nat) : List Char :=
  'T' :: digits 2 (ms / 3600000) ++ ':' :: digits 2 (ms / 60000 % 60) ++ ':' :: digits 2 (ms / 1000 % 60) ++
    '.' :: digits 3 (ms % 1000) ++ ['Z']

def msOfDay (t : Int) : Nat := (t % 86400000).toNat

/-- `toISOString`. -/
def toISOString (t : Int) : List Char := dateText (t / 86400000) ++ timeText (msOfDay t)

/-- The instants that a `Date` can hold. -/
def ValidTime (t : Int) : Prop := -8640000000000000 ≤ t ∧ t ≤ 8640000000000000

instance (t : Int) : Decidable (ValidTime t) := inferInstanceAs (Decidable (_ ∧ _))

example : String.ofList (toISOString 1709164800123) = "2024-02-29T00:00:00.123Z" := by decide +kernel

theorem length_timeText (ms : Nat) : (timeText ms).length = 14 := by
  simp [timeText]

theorem length_monthDayText (d : Date) : (monthDayText d).length = 6 := by
  simp [monthDayText]

theorem length_yearText (y : Int) : (yearText y).length = if 0 ≤ y ∧ y < 10000 then 4 else 7 := by
  unfold yearText
  split_ifs <;> simp

theorem yearText_inj {y y' : Int} (hy : -1000000 < y ∧ y < 1000000) (hy' : -1000000 < y' ∧ y' < 1000000)
    (h : yearText y = yearText y') : y = y' := by
  have hlength := congrArg List.length h
  rw [length_yearText, length_yearText] at hlength
  unfold yearText at h
  by_cases h4 : 0 ≤ y ∧ y < 10000
  · by_cases h4' : 0 ≤ y' ∧ y' < 10000
    · rw [if_pos h4, if_pos h4'] at h
      have := digits_inj (by omega) (by omega) h
      omega
    · rw [if_pos h4, if_neg h4'] at hlength
      exact absurd hlength (by decide)
  · by_cases h4' : 0 ≤ y' ∧ y' < 10000
    · rw [if_neg h4, if_pos h4'] at hlength
      exact absurd hlength (by decide)
    · rw [if_neg h4, if_neg h4'] at h
      obtain ⟨hsign, hdigits⟩ := List.cons.inj h
      have habs := digits_inj (by omega) (by omega) hdigits
      have hneg : y < 0 ↔ y' < 0 := by
        split_ifs at hsign with h1 h2 h2 <;> first | exact absurd hsign (by decide) | simp only [h1, h2]
      omega

theorem monthDayText_inj {d d' : Date} (hm : 1 ≤ d.month ∧ d.month ≤ 12) (hm' : 1 ≤ d'.month ∧ d'.month ≤ 12)
    (hd : 1 ≤ d.day ∧ d.day ≤ 31) (hd' : 1 ≤ d'.day ∧ d'.day ≤ 31) (h : monthDayText d = monthDayText d') :
    d.month = d'.month ∧ d.day = d'.day := by
  obtain ⟨hmonth, hday⟩ := List.append_inj h (by simp)
  have h1 := digits_inj (by omega) (by omega) (List.cons.inj hmonth).2
  have h2 := digits_inj (by omega) (by omega) (List.cons.inj hday).2
  omega

theorem dateText_inj {z z' : Int} (hz : -100000000 ≤ z ∧ z ≤ 100000000) (hz' : -100000000 ≤ z' ∧ z' ≤ 100000000)
    (h : dateText z = dateText z') : z = z' := by
  obtain ⟨hyear, hrest⟩ := List.append_inj' h (by rw [length_monthDayText, length_monthDayText])
  have h1 := yearText_inj (year_bounds hz.1 hz.2) (year_bounds hz'.1 hz'.2) hyear
  obtain ⟨h2, h3⟩ := monthDayText_inj (month_bounds z) (month_bounds z') (day_bounds z) (day_bounds z') hrest
  have hdate : civil z = civil z' := by
    generalize civil z = d at h1 h2 h3
    generalize civil z' = d' at h1 h2 h3
    cases d
    cases d'
    simp_all
  exact civil_inj hdate

theorem take_toISOString {t : Int} (h : FourDigits (t / 86400000)) :
    (toISOString t).take 10 = dateText (t / 86400000) := by
  have hlength : (dateText (t / 86400000)).length = 10 := by
    rw [dateText, List.length_append, length_yearText, if_pos (year_of_fourDigits h), length_monthDayText]
  rw [toISOString, ← hlength, List.take_left]

/-- A year begins with a digit exactly when it has four. -/
theorem head_dateText (z : Int) : ∃ c cs, dateText z = c :: cs ∧
    (c.isDigit = true ↔ 0 ≤ (civil z).year ∧ (civil z).year < 10000) := by
  unfold dateText yearText
  by_cases h : 0 ≤ (civil z).year ∧ (civil z).year < 10000
  · rw [if_pos h]
    obtain ⟨c, cs, hc⟩ := List.exists_cons_of_length_pos (l := digits 4 (civil z).year.toNat) (by simp)
    refine ⟨c, cs ++ monthDayText (civil z), by rw [hc]; rfl, iff_of_true ?_ h⟩
    exact isDigit_of_mem_digits (hc ▸ List.mem_cons_self)
  · rw [if_neg h]
    refine ⟨_, _, rfl, iff_of_false ?_ h⟩
    split_ifs <;> decide

/-- Two days of which the first ten letters are the same are the same, if one is in a year of four digits. -/
theorem eq_of_take_toISOString {t z : Int} (ht : ValidTime t) (hz : FourDigits z)
    (h : (toISOString t).take 10 = dateText z) : t / 86400000 = z := by
  unfold ValidTime at ht
  obtain ⟨c, cs, hc, hdigit⟩ := head_dateText (t / 86400000)
  obtain ⟨d, ds, hd, hdigit'⟩ := head_dateText z
  have hhead : c = d := by
    rw [toISOString, hc, hd] at h
    exact (List.cons.inj h).1
  have hyear := hdigit.mp (hhead ▸ hdigit'.mpr (year_of_fourDigits hz))
  have hlength : (dateText (t / 86400000)).length = 10 := by
    rw [dateText, List.length_append, length_yearText, if_pos hyear, length_monthDayText]
  rw [toISOString, ← hlength, List.take_left] at h
  unfold FourDigits at hz
  exact dateText_inj (by omega) (by omega) h

/-! ## Letters -/

/-- Digits, signs and separators. -/
def isoChar (c : Char) : Bool := c.isDigit || ['-', '+', ':', '.', 'T', 'Z'].contains c

theorem isoChar_digits {w n : Nat} {c : Char} (h : c ∈ digits w n) : isoChar c = true := by
  rw [isoChar, isDigit_of_mem_digits h, Bool.true_or]

theorem isoChar_toDigits {n : Nat} {c : Char} (h : c ∈ Nat.toDigits 10 n) : isoChar c = true := by
  rw [isoChar, Nat.isDigit_of_mem_toDigits (by decide) (by decide) h, Bool.true_or]

theorem isoChar_intText {n : Int} {c : Char} (h : c ∈ intText n) : isoChar c = true := by
  unfold intText at h
  split_ifs at h
  · rcases List.mem_cons.mp h with rfl | h
    · rfl
    · exact isoChar_toDigits h
  · exact isoChar_toDigits h

theorem isoChar_sixtieths {n : Int} {c : Char} (h : c ∈ sixtieths n) : isoChar c = true := by
  simp only [sixtieths, List.mem_append, List.mem_cons] at h
  rcases h with (h | h) | rfl | h
  · split_ifs at h
    · rw [List.mem_singleton.mp h]
      rfl
    · exact absurd h List.not_mem_nil
  · exact isoChar_toDigits h
  · rfl
  · exact isoChar_digits h

theorem isoChar_yearText {y : Int} {c : Char} (h : c ∈ yearText y) : isoChar c = true := by
  unfold yearText at h
  by_cases h4 : 0 ≤ y ∧ y < 10000
  · rw [if_pos h4] at h
    exact isoChar_digits h
  · rw [if_neg h4] at h
    rcases List.mem_cons.mp h with rfl | h
    · split_ifs <;> rfl
    · exact isoChar_digits h

theorem isoChar_dateText {z : Int} {c : Char} (h : c ∈ dateText z) : isoChar c = true := by
  simp only [dateText, monthDayText, List.mem_append, List.mem_cons] at h
  rcases h with h | (rfl | h) | rfl | h
  · exact isoChar_yearText h
  · rfl
  · exact isoChar_digits h
  · rfl
  · exact isoChar_digits h

theorem isoChar_of_mem {t : Int} {c : Char} (h : c ∈ toISOString t) : isoChar c = true := by
  rcases List.mem_append.mp h with h | h
  · exact isoChar_dateText h
  · simp only [timeText, List.mem_append, List.mem_cons, List.not_mem_nil, or_false] at h
    rcases h with (((((rfl | h) | rfl | h) | rfl | h) | rfl | h)) | rfl <;> first | exact isoChar_digits h | rfl

/-! ## Ids -/

/-- A hexadecimal digit or a dash. -/
def uuidChar (c : Char) : Bool := c.isDigit || ('a' ≤ c && c ≤ 'f') || ('A' ≤ c && c ≤ 'F') || c = '-'

/-- The text of a UUID. -/
structure Uuid where
  text : String
  length : text.length = 36
  chars : text.toList.all uuidChar = true
deriving DecidableEq

theorem Uuid.uuidChar_of_mem (id : Uuid) {c : Char} (h : c ∈ id.text.toList) : uuidChar c = true :=
  List.all_eq_true.mp id.chars c h

theorem Uuid.ext_text {a b : Uuid} (h : a.text = b.text) : a = b := by
  cases a
  cases b
  congr

/-- Texts of one length end at the same place. -/
theorem append_inj_of_length {a b s t : String} (hlength : a.length = b.length) (h : a ++ s = b ++ t) : a = b ∧ s = t := by
  have hchars := congrArg String.toList h
  rw [String.toList_append, String.toList_append] at hchars
  obtain ⟨h1, h2⟩ := List.append_inj hchars (by rw [String.length_toList, String.length_toList, hlength])
  exact ⟨String.toList_inj.mp h1, String.toList_inj.mp h2⟩

end TimeChamp.Lib
