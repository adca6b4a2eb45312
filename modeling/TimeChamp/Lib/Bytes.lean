import Mathlib.Data.List.Induction
import Mathlib.Data.Nat.Bitwise

/-!
# Numbers and bits in byte strings

* `toBE k n` : the low `k` bytes of `n`, the highest first; `ofBE` : the number such bytes stand for (`ofBE_toBE`);
  `toLE`, `ofLE` : the same with the lowest first;
* `utf8 s` : the bytes of a text;
* `getBit`, `setBit` : a string of bytes as a string of bits, bit `i` being bit `i % 8` of byte `i / 8`;
* `bitfield flags` : the shortest string of bytes whose first bits are the flags (`getBit_bitfield`).
-/

namespace TimeChamp.Lib

/-! ## Big-endian numbers -/

/-- The number with these big-endian digits. -/
def ofBE (bs : List UInt8) : Nat := bs.foldl (fun n b => 256 * n + b.toNat) 0

/-- The low `k` bytes of a number, the highest first. -/
def toBE : Nat → Nat → List UInt8
  | 0, _ => []
  | k + 1, n => toBE k (n / 256) ++ [UInt8.ofNat n]

@[simp] theorem length_toBE (k n : Nat) : (toBE k n).length = k := by
  induction k generalizing n with
  | zero => rfl
  | succ k ih => simp only [toBE, List.length_append, ih, List.length_singleton]

theorem ofBE_concat (bs : List UInt8) (b : UInt8) : ofBE (bs ++ [b]) = 256 * ofBE bs + b.toNat := by
  unfold ofBE
  rw [List.foldl_append]
  rfl

theorem ofBE_toBE (k n : Nat) : ofBE (toBE k n) = n % 256 ^ k := by
  induction k generalizing n with
  | zero => simp [toBE, ofBE, Nat.mod_one]
  | succ k ih =>
      rw [toBE, ofBE_concat, ih, UInt8.toNat_ofNat', show 256 ^ (k + 1) = 256 * 256 ^ k from Nat.pow_succ', Nat.mod_mul]
      omega

theorem ofBE_lt (bs : List UInt8) : ofBE bs < 256 ^ bs.length := by
  induction bs using List.reverseRecOn with
  | nil => simp [ofBE]
  | append_singleton bs b ih =>
      have hb := b.toNat_lt
      rw [ofBE_concat, List.length_append, List.length_singleton, Nat.pow_succ']
      omega

/-! ## Little-endian numbers -/

/-- The number with these little-endian digits. -/
def ofLE (bs : List UInt8) : Nat := ofBE bs.reverse

/-- The low `k` bytes of a number, the lowest first. -/
def toLE (k n : Nat) : List UInt8 := (toBE k n).reverse

@[simp] theorem length_toLE (k n : Nat) : (toLE k n).length = k := by
  rw [toLE, List.length_reverse, length_toBE]

theorem ofLE_toLE (k n : Nat) : ofLE (toLE k n) = n % 256 ^ k := by
  rw [ofLE, toLE, List.reverse_reverse, ofBE_toBE]

/-! ## Texts -/

/-- The bytes of a text. -/
def utf8 (s : String) : List UInt8 := s.toUTF8.data.toList

@[simp] theorem length_utf8 (s : String) : (utf8 s).length = s.utf8ByteSize := Array.length_toList

theorem utf8ByteSize_ofList (cs : List Char) : (String.ofList cs).utf8ByteSize = (cs.map Char.utf8Size).sum := by
  induction cs with
  | nil => rfl
  | cons c cs ih =>
      have happ : String.ofList (c :: cs) = String.singleton c ++ String.ofList cs := by
        rw [String.singleton_eq_ofList, ← String.ofList_append]
        rfl
      rw [happ, String.utf8ByteSize_append, String.utf8ByteSize_singleton, ih, List.map_cons, List.sum_cons]

/-! ## Bitfields -/

/-- Bit `i` of a string of bytes. -/
def getBit (bs : List UInt8) (i : Nat) : Bool := (bs.getD (i / 8) 0).toNat.testBit (i % 8)

/-- Set bit `i`. -/
def setBit (bs : List UInt8) (i : Nat) : List UInt8 := bs.modify (i / 8) (· ||| 1 <<< UInt8.ofNat (i % 8))

/-- Set the bits of the flags that are up, the first at `i`. -/
def setBits : List Bool → Nat → List UInt8 → List UInt8
  | [], _, bs => bs
  | b :: flags, i, bs => setBits flags (i + 1) (if b then setBit bs i else bs)

/-- The flags as bits, padded with zeros to whole bytes. -/
def bitfield (flags : List Bool) : List UInt8 := setBits flags 0 (List.replicate ((flags.length + 7) / 8) 0)

@[simp] theorem length_setBit (bs : List UInt8) (i : Nat) : (setBit bs i).length = bs.length := List.length_modify ..

@[simp] theorem length_setBits (flags : List Bool) (i : Nat) (bs : List UInt8) :
    (setBits flags i bs).length = bs.length := by
  induction flags generalizing i bs with
  | nil => rfl
  | cons b flags ih =>
      rw [setBits, ih]
      split_ifs
      · rw [length_setBit]
      · rfl

@[simp] theorem length_bitfield (flags : List Bool) : (bitfield flags).length = (flags.length + 7) / 8 := by
  rw [bitfield, length_setBits, List.length_replicate]

theorem getBit_append {bs : List UInt8} {i : Nat} (h : i / 8 < bs.length) (rest : List UInt8) :
    getBit (bs ++ rest) i = getBit bs i := by
  unfold getBit
  rw [List.getD_append _ _ _ _ h]

theorem testBit_mask {k j : Nat} (hk : k < 8) : ((1 : UInt8) <<< UInt8.ofNat k).toNat.testBit j = decide (k = j) := by
  have hshift : (UInt8.ofNat k).toNat % 8 = k := by
    rw [UInt8.toNat_ofNat']
    omega
  rw [UInt8.toNat_shiftLeft, hshift, show (1 : UInt8).toNat = 1 from rfl, Nat.one_shiftLeft,
    Nat.mod_eq_of_lt (Nat.pow_lt_pow_right (by omega) hk), Nat.testBit_two_pow]

/-- Setting one bit leaves the others. -/
theorem getBit_setBit {bs : List UInt8} {i : Nat} (h : i / 8 < bs.length) (j : Nat) :
    getBit (setBit bs i) j = (getBit bs j || decide (i = j)) := by
  unfold getBit setBit
  simp only [List.getD_eq_getElem?_getD, List.getElem?_modify]
  by_cases hij : i / 8 = j / 8
  · have hin : j / 8 < bs.length := hij ▸ h
    have hsome : bs[j / 8]? = some bs[j / 8] := List.getElem?_eq_getElem hin
    simp only [hsome, hij, if_true, Option.map_eq_map, Option.map_some, Option.getD_some, UInt8.toNat_or,
      Nat.testBit_or, testBit_mask (Nat.mod_lt i (by omega : 0 < 8))]
    congr 1
    exact decide_eq_decide.mpr (by omega)
  · have hne : i ≠ j := fun h => hij (by rw [h])
    simp [hij, hne]

theorem getBit_setBits {flags : List Bool} {i : Nat} {bs : List UInt8} (h : i + flags.length ≤ 8 * bs.length)
    (j : Nat) : getBit (setBits flags i bs) j = (getBit bs j || decide (i ≤ j) && flags.getD (j - i) false) := by
  induction flags generalizing i bs with
  | nil => simp [setBits]
  | cons b flags ih =>
      rw [List.length_cons] at h
      have hlen : (if b then setBit bs i else bs).length = bs.length := by
        split_ifs
        · rw [length_setBit]
        · rfl
      rw [setBits, ih (by rw [hlen]; omega)]
      have hset : getBit (if b then setBit bs i else bs) j = (getBit bs j || b && decide (i = j)) := by
        cases b with
        | false => simp
        | true =>
            rw [if_pos rfl, getBit_setBit (by omega), Bool.true_and]
      rw [hset]
      rcases Nat.lt_trichotomy j i with hlt | rfl | hgt
      · simp [show ¬i + 1 ≤ j by omega, show ¬i ≤ j by omega, show i ≠ j by omega]
      · simp
      · have hsub : j - i = j - (i + 1) + 1 := by omega
        simp [hsub, show i + 1 ≤ j by omega, show i ≤ j by omega, show i ≠ j by omega]

/-- Each flag is read back at its position. -/
theorem getBit_bitfield (flags : List Bool) (i : Nat) : getBit (bitfield flags) i = flags.getD i false := by
  rw [bitfield, getBit_setBits (by rw [List.length_replicate]; omega)]
  have hzero : getBit (List.replicate ((flags.length + 7) / 8) 0) i = false := by
    unfold getBit
    rw [List.getD_eq_getElem?_getD, List.getElem?_replicate]
    split_ifs <;> simp
  simp [hzero]

end TimeChamp.Lib
