import Mathlib.Algebra.Order.Floor.Ring
import Mathlib.Algebra.Order.Field.Power
import Mathlib.Data.Int.Log
import Mathlib.Data.Rat.Floor
import Mathlib.Tactic.FieldSimp
import Mathlib.Tactic.Linarith
import Mathlib.Tactic.Ring

/-!
# Numbers of a given precision

Rounding to a number of so many bits, to the nearest one and to the even one of two, with no bound on the exponent.

* `nearestEven` : to an integer; `ulp`, `roundBits` : to a number of `p` bits;
* `OfBits` : the numbers of `p` bits, which rounding leaves alone (`roundBits_eq_self`);
* `roundBits_le`, `le_roundBits`, `roundBits_mono` : **rounding keeps the order**;
* `abs_roundBits_sub_le` : **its error is at most one part in two to the `p`**;
* `Double` : the numbers of 53 bits with the infinities, and what is not a number; `Double.mul`, `Double.add` and
  `Double.div`, rounded.

Order is shown for the numbers that are not negative.
-/

namespace TimeChamp.Lib

section
variable {K : Type} [Field K] [LinearOrder K] [IsStrictOrderedRing K] [FloorRing K]

/-- The nearest integer, and the even one of two. -/
def nearestEven (q : K) : Int :=
  if q - ⌊q⌋ < 1 / 2 then ⌊q⌋ else if 1 / 2 < q - ⌊q⌋ then ⌊q⌋ + 1 else if ⌊q⌋ % 2 = 0 then ⌊q⌋ else ⌊q⌋ + 1

/-- The distance of the numbers of `p` bits about `q`. -/
def ulp (p : Nat) (q : K) : K := 2 ^ (Int.log 2 |q| - ((p : Int) - 1))

/-- The nearest number of `p` bits. -/
def roundBits (p : Nat) (q : K) : K := if q = 0 then 0 else nearestEven (q / ulp p q) * ulp p q

/-- The numbers of `p` bits. -/
def OfBits (p : Nat) (q : K) : Prop := ∃ m e : Int, |m| ≤ 2 ^ p ∧ q = m * 2 ^ e

variable {p : Nat} {q r : K}

/-! ## Integers -/

theorem abs_nearestEven_sub_le (q : K) : |(nearestEven q : K) - q| ≤ 1 / 2 := by
  have hlow := Int.floor_le q
  have hhigh := Int.lt_floor_add_one q
  unfold nearestEven
  rw [abs_le]
  split_ifs <;> push_cast <;> constructor <;> linarith

theorem nearestEven_intCast (n : Int) : nearestEven (n : K) = n := by
  unfold nearestEven
  rw [Int.floor_intCast, sub_self, if_pos one_half_pos]

theorem nearestEven_mono (h : q ≤ r) : nearestEven q ≤ nearestEven r := by
  obtain rfl | hlt := eq_or_lt_of_le h
  · exact le_refl _
  have hq := (abs_le.mp (abs_nearestEven_sub_le q)).2
  have hr := (abs_le.mp (abs_nearestEven_sub_le r)).1
  have hcast : (nearestEven q : K) < (nearestEven r + 1 : Int) := by
    push_cast
    linarith
  exact Int.lt_add_one_iff.mp (Int.cast_lt.mp hcast)

theorem nearestEven_le {n : Int} (h : q ≤ n) : nearestEven q ≤ n := by
  have hmono := nearestEven_mono h
  rwa [nearestEven_intCast] at hmono

theorem le_nearestEven {n : Int} (h : (n : K) ≤ q) : n ≤ nearestEven q := by
  have hmono := nearestEven_mono h
  rwa [nearestEven_intCast] at hmono

/-- An integer that is nearer than half is the nearest. -/
theorem nearestEven_eq_of_near {n : Int} (h : |q - n| < 1 / 2) : nearestEven q = n := by
  have hnear := abs_le.mp (abs_nearestEven_sub_le q)
  rw [abs_lt] at h
  have hlow : (n : K) < (nearestEven q + 1 : Int) := by
    push_cast
    linarith
  have hhigh : (nearestEven q : K) < (n + 1 : Int) := by
    push_cast
    linarith
  exact le_antisymm (Int.lt_add_one_iff.mp (Int.cast_lt.mp hhigh)) (Int.lt_add_one_iff.mp (Int.cast_lt.mp hlow))

/-! ## Numbers of `p` bits -/

omit [LinearOrder K] [IsStrictOrderedRing K] [FloorRing K] in
theorem ofBits_intCast {n : Int} (h : |n| ≤ 2 ^ p) : OfBits p (n : K) := ⟨n, 0, h, by rw [zpow_zero, mul_one]⟩

omit [LinearOrder K] [IsStrictOrderedRing K] [FloorRing K] in
theorem ofBits_two_zpow (p : Nat) (e : Int) : OfBits p ((2 : K) ^ e) :=
  ⟨1, e, by rw [abs_one]; exact one_le_pow₀ one_le_two, by rw [Int.cast_one, one_mul]⟩

/-! ## The distance of two numbers -/

theorem ulp_pos (p : Nat) (q : K) : 0 < ulp p q := zpow_pos two_pos _

omit [IsStrictOrderedRing K] in
theorem two_pow_log (hp : 0 < p) (q : K) : (2 : K) ^ Int.log 2 |q| = ((2 ^ (p - 1) : Int) : K) * ulp p q := by
  obtain ⟨n, rfl⟩ : ∃ n, p = n + 1 := ⟨p - 1, by omega⟩
  unfold ulp
  rw [Nat.add_sub_cancel]
  push_cast
  rw [← zpow_natCast (2 : K) n, ← zpow_add₀ two_ne_zero]
  congr 1
  omega

theorem two_pow_log_le (hq : 0 < q) : (2 : K) ^ Int.log 2 |q| ≤ q := by
  rw [abs_of_pos hq]
  exact_mod_cast Int.zpow_log_le_self (b := 2) one_lt_two hq

theorem abs_lt_ulp (p : Nat) (q : K) : |q| < 2 ^ p * ulp p q := by
  have hlt := Int.lt_zpow_succ_log_self (b := 2) one_lt_two |q|
  rw [← zpow_natCast (2 : K) p, ulp, ← zpow_add₀ two_ne_zero]
  have hexp : (p : Int) + (Int.log 2 |q| - ((p : Int) - 1)) = Int.log 2 |q| + 1 := by omega
  rw [hexp]
  exact_mod_cast hlt

/-- A number of `p` bits is a multiple of the distance about `q`, or it is at most two to the exponent of `q`. -/
theorem OfBits.multiple_or_le (hr : OfBits p r) (q : K) :
    (∃ n : Int, r = n * ulp p q) ∨ |r| ≤ 2 ^ Int.log 2 |q| := by
  obtain ⟨m, e, hm, rfl⟩ := hr
  by_cases he : Int.log 2 |q| - ((p : Int) - 1) ≤ e
  · left
    obtain ⟨d, hd⟩ := Int.le.dest he
    refine ⟨m * 2 ^ d, ?_⟩
    rw [← hd, ulp, zpow_add₀ two_ne_zero]
    push_cast
    rw [zpow_natCast]
    ring
  · right
    have hcast : (|m| : K) ≤ 2 ^ p := by exact_mod_cast (Int.cast_le (R := K)).mpr hm
    have hpos : (0 : K) < 2 ^ e := zpow_pos two_pos e
    rw [abs_mul, abs_of_pos hpos]
    calc |(m : K)| * 2 ^ e ≤ 2 ^ p * 2 ^ e := mul_le_mul_of_nonneg_right hcast (zpow_pos two_pos e).le
      _ = 2 ^ ((p : Int) + e) := by rw [zpow_add₀ two_ne_zero, zpow_natCast]
      _ ≤ 2 ^ Int.log 2 |q| := zpow_le_zpow_right₀ one_le_two (by omega)

/-! ## Rounding -/

omit [IsStrictOrderedRing K] in
theorem roundBits_zero (p : Nat) : roundBits p (0 : K) = 0 := if_pos rfl

omit [IsStrictOrderedRing K] in
theorem roundBits_of_ne (h : q ≠ 0) : roundBits p q = nearestEven (q / ulp p q) * ulp p q := if_neg h

/-- A number between two powers of two is rounded to the multiple that is nearer than half a distance. -/
theorem roundBits_eq_of_near {e n : Int} (hlow : 2 ^ e ≤ q) (hhigh : q < 2 ^ (e + 1))
    (h : |q / 2 ^ (e - ((p : Int) - 1)) - n| < 1 / 2) : roundBits p q = n * 2 ^ (e - ((p : Int) - 1)) := by
  have hpos : 0 < q := lt_of_lt_of_le (zpow_pos two_pos e) hlow
  have hlog : Int.log 2 |q| = e := by
    rw [abs_of_pos hpos]
    apply le_antisymm
    · apply Int.lt_add_one_iff.mp
      apply (Int.lt_zpow_iff_log_lt (b := 2) one_lt_two hpos).mp
      exact_mod_cast hhigh
    · apply (Int.zpow_le_iff_le_log (b := 2) one_lt_two hpos).mp
      exact_mod_cast hlow
  have hulp : ulp p q = 2 ^ (e - ((p : Int) - 1)) := by rw [ulp, hlog]
  rw [roundBits_of_ne hpos.ne', hulp, nearestEven_eq_of_near h]

/-- A multiple of the distance is a bound of what is rounded if it is one of the number. -/
theorem roundBits_le_mul {n : Int} (hq : q ≠ 0) (h : q ≤ n * ulp p q) : roundBits p q ≤ n * ulp p q := by
  rw [roundBits_of_ne hq]
  refine mul_le_mul_of_nonneg_right (Int.cast_le.mpr (nearestEven_le ?_)) (ulp_pos p q).le
  rwa [div_le_iff₀ (ulp_pos p q)]

theorem mul_le_roundBits {n : Int} (hq : q ≠ 0) (h : n * ulp p q ≤ q) : n * ulp p q ≤ roundBits p q := by
  rw [roundBits_of_ne hq]
  refine mul_le_mul_of_nonneg_right (Int.cast_le.mpr (le_nearestEven ?_)) (ulp_pos p q).le
  rwa [le_div_iff₀ (ulp_pos p q)]

/-- **A number of `p` bits** that is at least a number is at least what that is rounded to. -/
theorem roundBits_le (hp : 0 < p) (hr : OfBits p r) (hq : 0 ≤ q) (h : q ≤ r) : roundBits p q ≤ r := by
  obtain rfl | hpos := eq_or_lt_of_le hq
  · rwa [roundBits_zero]
  obtain ⟨n, hn⟩ | hle := hr.multiple_or_le q
  · rw [hn] at h ⊢
    exact roundBits_le_mul hpos.ne' h
  · -- then it is two to the exponent
    have heq : r = ((2 ^ (p - 1) : Int) : K) * ulp p q := by
      rw [← two_pow_log hp]
      exact le_antisymm (le_trans (le_abs_self r) hle) (le_trans (two_pow_log_le hpos) h)
    rw [heq] at h ⊢
    exact roundBits_le_mul hpos.ne' h

/-- And one that is at most a number is at most what that is rounded to. -/
theorem le_roundBits (hp : 0 < p) (hr : OfBits p r) (hq : 0 ≤ q) (h : r ≤ q) : r ≤ roundBits p q := by
  obtain rfl | hpos := eq_or_lt_of_le hq
  · rwa [roundBits_zero]
  obtain ⟨n, hn⟩ | hle := hr.multiple_or_le q
  · rw [hn] at h ⊢
    exact mul_le_roundBits hpos.ne' h
  · apply le_trans (le_trans (le_abs_self r) hle)
    have hlog := two_pow_log_le hpos
    rw [two_pow_log hp] at hlog ⊢
    exact mul_le_roundBits hpos.ne' hlog

theorem roundBits_eq_self (hp : 0 < p) (hq : 0 ≤ q) (h : OfBits p q) : roundBits p q = q :=
  le_antisymm (roundBits_le hp h hq le_rfl) (le_roundBits hp h hq le_rfl)

theorem roundBits_nonneg (hq : 0 ≤ q) : 0 ≤ roundBits p q := by
  obtain rfl | hpos := eq_or_lt_of_le hq
  · rw [roundBits_zero]
  have hle := mul_le_roundBits (p := p) (n := 0) hpos.ne' (by rw [Int.cast_zero, zero_mul]; exact hq)
  rwa [Int.cast_zero, zero_mul] at hle

theorem ofBits_roundBits (hq : 0 ≤ q) : OfBits p (roundBits p q) := by
  obtain rfl | hpos := eq_or_lt_of_le hq
  · exact ⟨0, 0, by rw [abs_zero]; positivity, by rw [roundBits_zero, Int.cast_zero, zero_mul]⟩
  have hquot : 0 ≤ q / ulp p q := div_nonneg hq (ulp_pos p q).le
  have hlow : 0 ≤ nearestEven (q / ulp p q) := le_nearestEven (by rwa [Int.cast_zero])
  have hhigh : nearestEven (q / ulp p q) ≤ 2 ^ p := by
    apply nearestEven_le
    have hlt := abs_lt_ulp p q
    rw [abs_of_pos hpos] at hlt
    rw [div_le_iff₀ (ulp_pos p q)]
    exact_mod_cast hlt.le
  refine ⟨nearestEven (q / ulp p q), Int.log 2 |q| - ((p : Int) - 1), ?_, roundBits_of_ne hpos.ne'⟩
  rwa [abs_of_nonneg hlow]

/-- **Rounding keeps the order.** Where the exponents differ, the power of two of the greater one lies between. -/
theorem roundBits_mono (hp : 0 < p) (hq : 0 ≤ q) (h : q ≤ r) : roundBits p q ≤ roundBits p r := by
  obtain rfl | hpos := eq_or_lt_of_le hq
  · rw [roundBits_zero]
    exact roundBits_nonneg h
  have hr : 0 < r := lt_of_lt_of_le hpos h
  have hlog : Int.log 2 |q| = Int.log 2 |r| ∨ Int.log 2 |q| < Int.log 2 |r| := by
    rw [abs_of_pos hpos, abs_of_pos hr]
    exact (Int.log_mono_right hpos h).eq_or_lt
  obtain heq | hlt := hlog
  · have hulp : ulp p q = ulp p r := by rw [ulp, ulp, heq]
    rw [roundBits_of_ne hpos.ne', roundBits_of_ne hr.ne', hulp]
    refine mul_le_mul_of_nonneg_right (Int.cast_le.mpr (nearestEven_mono ?_)) (ulp_pos p r).le
    exact div_le_div_of_nonneg_right h (ulp_pos p r).le
  · have hbetween : q ≤ 2 ^ Int.log 2 |r| := by
      have hnext := Int.lt_zpow_succ_log_self (b := 2) one_lt_two |q|
      rw [abs_of_pos hpos] at hnext hlt
      refine le_trans (by exact_mod_cast hnext.le) (zpow_le_zpow_right₀ one_le_two (Int.add_one_le_of_lt hlt))
    calc roundBits p q ≤ 2 ^ Int.log 2 |r| := roundBits_le hp (ofBits_two_zpow p _) hq hbetween
      _ ≤ roundBits p r := le_roundBits hp (ofBits_two_zpow p _) hr.le (two_pow_log_le hr)

/-- **The error of rounding** is at most one part in two to the `p`. -/
theorem abs_roundBits_sub_le (p : Nat) (q : K) : |roundBits p q - q| ≤ |q| / 2 ^ p := by
  by_cases hq : q = 0
  · rw [hq, roundBits_zero, sub_zero, abs_zero, zero_div]
  have hu := ulp_pos p q
  have hsplit : roundBits p q - q = (nearestEven (q / ulp p q) - q / ulp p q) * ulp p q := by
    rw [roundBits_of_ne hq, sub_mul, div_mul_cancel₀ q hu.ne']
  have hhalf : 1 / 2 * ulp p q = 2 ^ Int.log 2 |q| / 2 ^ p := by
    rw [← zpow_natCast (2 : K) p, ← zpow_sub₀ two_ne_zero, ulp]
    rw [show Int.log 2 |q| - ((p : Int) - 1) = Int.log 2 |q| - p + 1 by omega, zpow_add_one₀ two_ne_zero]
    ring
  rw [hsplit, abs_mul, abs_of_pos hu]
  calc |(nearestEven (q / ulp p q) : K) - q / ulp p q| * ulp p q ≤ 1 / 2 * ulp p q :=
        mul_le_mul_of_nonneg_right (abs_nearestEven_sub_le _) hu.le
    _ = 2 ^ Int.log 2 |q| / 2 ^ p := hhalf
    _ ≤ |q| / 2 ^ p := by
        refine div_le_div_of_nonneg_right ?_ (by positivity)
        have hlog := two_pow_log_le (abs_pos.mpr hq)
        rwa [abs_abs] at hlog

end

/-! ## Numbers of 64 bits -/

/-- A binary64 number. Its sign is lost where it is zero. -/
inductive Double where
  | nan
  | infinite (negative : Bool)
  | finite (q : ℚ)
deriving DecidableEq

/-- The result of an operation that is exactly `q`. Numbers below the least one of 53 bits do not occur. -/
def Double.ofRat (q : ℚ) : Double :=
  if |roundBits 53 q| < 2 ^ 1024 then .finite (roundBits 53 q) else .infinite (decide (q < 0))

def Double.mul : Double → Double → Double
  | .finite a, .finite b => ofRat (a * b)
  | .finite a, .infinite negative => if a = 0 then .nan else .infinite (negative ^^ decide (a < 0))
  | .infinite negative, .finite b => if b = 0 then .nan else .infinite (negative ^^ decide (b < 0))
  | .infinite negative, .infinite negative' => .infinite (negative ^^ negative')
  | _, _ => .nan

def Double.add : Double → Double → Double
  | .finite a, .finite b => ofRat (a + b)
  | .finite _, .infinite negative => .infinite negative
  | .infinite negative, .finite _ => .infinite negative
  | .infinite negative, .infinite negative' => if negative = negative' then .infinite negative else .nan
  | _, _ => .nan

/-- Division by a number other than zero. -/
def Double.div : Double → ℚ → Double
  | .finite a, b => ofRat (a / b)
  | .infinite negative, b => .infinite (negative ^^ decide (b < 0))
  | .nan, _ => .nan

/-- `x < b`, which is false of what is not a number. -/
def Double.lt : Double → ℚ → Bool
  | .nan, _ => false
  | .infinite negative, _ => negative
  | .finite q, b => decide (q < b)

/-- `x > b`, which is false of what is not a number. -/
def Double.gt : Double → ℚ → Bool
  | .nan, _ => false
  | .infinite negative, _ => !negative
  | .finite q, b => decide (b < q)

theorem Double.ofRat_eq_finite {q r : ℚ} :
    Double.ofRat q = .finite r ↔ |roundBits 53 q| < 2 ^ 1024 ∧ roundBits 53 q = r := by
  unfold Double.ofRat
  split_ifs with h <;> simp [h]

theorem Double.mul_eq_finite {x y : Double} {r : ℚ} (h : x.mul y = .finite r) :
    ∃ a b, x = .finite a ∧ y = .finite b ∧ Double.ofRat (a * b) = .finite r := by
  cases x with
  | nan => exact absurd h (by simp [Double.mul])
  | infinite negative =>
      cases y with
      | nan => exact absurd h (by simp [Double.mul])
      | infinite negative' => exact absurd h (by simp [Double.mul])
      | finite b =>
          rw [Double.mul] at h
          split_ifs at h
  | finite a =>
      cases y with
      | nan => exact absurd h (by simp [Double.mul])
      | infinite negative =>
          rw [Double.mul] at h
          split_ifs at h
      | finite b => exact ⟨a, b, rfl, rfl, h⟩

/-- A number that is not negative and not above a number that can be held can be held. -/
theorem Double.ofRat_of_le {q r s : ℚ} (hq : 0 ≤ q) (h : q ≤ r) (hr : Double.ofRat r = .finite s) :
    Double.ofRat q = .finite (roundBits 53 q) ∧ roundBits 53 q ≤ s := by
  obtain ⟨hlt, rfl⟩ := Double.ofRat_eq_finite.mp hr
  have hmono := roundBits_mono (p := 53) (by omega) hq h
  have hnonneg : 0 ≤ roundBits 53 q := roundBits_nonneg hq
  refine ⟨Double.ofRat_eq_finite.mpr ⟨?_, rfl⟩, hmono⟩
  rw [abs_of_nonneg hnonneg]
  exact lt_of_le_of_lt (le_trans hmono (le_abs_self _)) hlt

end TimeChamp.Lib
