import TimeChamp.Lib.Bytes

/-!
# The stream frame format

A frame is an 8-byte header `[version][type][reserved ×2][payload length, big endian ×4]` and the payload. The agent, the
API and the dashboard each parse it on their own.

* `Go.parseFrame` : the agent's parser, in 32-bit arithmetic, with the slice that may panic;
* `Api.parseFrame`, `Web.parseFrame` : the parsers of the API and of the dashboard;
* `parseFrame_cases`, `api_parseFrame`, `web_parseFrame` : what each does with any bytes;
* `Agree` : the three do the same, and the agent's does not panic; `agree_iff` : **exactly when they do**.
-/

namespace TimeChamp.Stream
open Lib

def frameTypeScreenDelta : UInt8 := 0x01
def frameTypeScreenFull : UInt8 := 0x02
def headerSize : Nat := 8

structure Frame where
  type : UInt8
  payload : List UInt8
deriving DecidableEq

/-- How a Go call ends: with a value, an error, or a run-time panic. -/
inductive Outcome (α : Type) where
  | ok (a : α)
  | error (text : String)
  | panic
deriving DecidableEq

/-- `data[lo:hi]` of a Go slice of that length and capacity; `none` is the run-time panic. -/
def goSlice (data : List UInt8) (lo hi : Nat) : Option (List UInt8) :=
  if lo ≤ hi ∧ hi ≤ data.length then some ((data.take hi).drop lo) else none

/-- The bytes 4 to 7 as a big-endian number. -/
def lengthField (data : List UInt8) : Nat := ofBE ((data.drop 4).take 4)

/-- The agent's parser. `len(data)` and the sum are converted to, and taken in, `uint32`. -/
def Go.parseFrame (data : List UInt8) : Outcome Frame :=
  if data.length < headerSize then
    .error ("frame too short: " ++ toString data.length ++ " bytes")
  else
    let payloadLen : UInt32 := UInt32.ofNat (lengthField data)
    let expected : UInt32 := UInt32.ofNat headerSize + payloadLen
    if UInt32.ofNat data.length < expected then
      .error ("incomplete frame: expected " ++ toString expected ++ " bytes, got " ++ toString data.length)
    else
      match goSlice data headerSize expected.toNat with
      | none => .panic
      | some payload => .ok ⟨data.getD 1 0, payload⟩

/-- The API's parser; numbers are exact, and `Buffer.slice` stops at the end of the buffer. -/
def Api.parseFrame (buf : List UInt8) : Except String Frame :=
  if buf.length < headerSize then
    .error ("Frame too short: " ++ toString buf.length ++ " bytes")
  else
    let type := buf.getD 1 0
    let payloadLen := lengthField buf
    if buf.length < headerSize + payloadLen then
      .error ("Incomplete frame: expected " ++ toString (headerSize + payloadLen) ++ ", got " ++ toString buf.length)
    else
      .ok ⟨type, (buf.take (headerSize + payloadLen)).drop headerSize⟩

/-- The dashboard's parser. -/
def Web.parseFrame (buf : List UInt8) : Option Frame :=
  if buf.length < 8 then
    none
  else
    let type := buf.getD 1 0
    let payloadLen := lengthField buf
    if buf.length < 8 + payloadLen then none else some ⟨type, (buf.take (8 + payloadLen)).drop 8⟩

/-! ## What the parsers accept -/

/-- The frame at the start of the bytes. -/
def frameOf (data : List UInt8) : Frame := ⟨data.getD 1 0, (data.take (8 + lengthField data)).drop 8⟩

theorem lengthField_lt (data : List UInt8) : lengthField data < 2 ^ 32 := by
  have hlt := ofBE_lt ((data.drop 4).take 4)
  have hlen : ((data.drop 4).take 4).length ≤ 4 := List.length_take_le ..
  exact lt_of_lt_of_le hlt (Nat.pow_le_pow_right (by omega) hlen)

/-- The dashboard accepts the bytes that hold the whole frame. -/
theorem web_parseFrame (buf : List UInt8) :
    Web.parseFrame buf = if 8 + lengthField buf ≤ buf.length then some (frameOf buf) else none := by
  unfold Web.parseFrame
  dsimp only
  by_cases hle : 8 + lengthField buf ≤ buf.length
  · rw [if_neg (by omega), if_neg (by omega), if_pos hle]
    rfl
  · rw [if_neg hle]
    split_ifs <;> first | rfl | omega

/-- So does the API. -/
theorem api_parseFrame (buf : List UInt8) :
    Api.parseFrame buf = .ok (frameOf buf) ∧ 8 + lengthField buf ≤ buf.length ∨
      (∃ text, Api.parseFrame buf = .error text) ∧ buf.length < 8 + lengthField buf := by
  unfold Api.parseFrame headerSize
  dsimp only
  split_ifs with hshort hinc
  · exact Or.inr ⟨⟨_, rfl⟩, by omega⟩
  · exact Or.inr ⟨⟨_, rfl⟩, hinc⟩
  · exact Or.inl ⟨rfl, by omega⟩

/-- The agent compares and slices at the sum modulo `2 ^ 32`. -/
theorem parseFrame_cases (data : List UInt8) (h : 8 ≤ data.length) :
    Go.parseFrame data = .ok (frameOf data) ∧
        8 + lengthField data < 2 ^ 32 ∧ 8 + lengthField data ≤ data.length % 2 ^ 32 ∨
      Go.parseFrame data = .panic ∧ 2 ^ 32 ≤ 8 + lengthField data ∧
        8 + lengthField data - 2 ^ 32 ≤ data.length % 2 ^ 32 ∨
      (∃ text, Go.parseFrame data = .error text) ∧ data.length % 2 ^ 32 < (8 + lengthField data) % 2 ^ 32 := by
  have hfield := lengthField_lt data
  have hsum : (UInt32.ofNat headerSize + UInt32.ofNat (lengthField data)).toNat = (8 + lengthField data) % 2 ^ 32 := by
    rw [UInt32.toNat_add, UInt32.toNat_ofNat', UInt32.toNat_ofNat']
    unfold headerSize
    omega
  have hcmp : UInt32.ofNat data.length < UInt32.ofNat headerSize + UInt32.ofNat (lengthField data) ↔
      data.length % 2 ^ 32 < (8 + lengthField data) % 2 ^ 32 := by
    rw [UInt32.lt_iff_toNat_lt, hsum, UInt32.toNat_ofNat']
  unfold Go.parseFrame
  rw [if_neg (show ¬data.length < headerSize from Nat.not_lt.mpr h)]
  simp only [hcmp, hsum]
  by_cases hinc : data.length % 2 ^ 32 < (8 + lengthField data) % 2 ^ 32
  · rw [if_pos hinc]
    exact Or.inr (Or.inr ⟨⟨_, rfl⟩, hinc⟩)
  · rw [if_neg hinc]
    by_cases hwrap : 8 + lengthField data < 2 ^ 32
    · rw [Nat.mod_eq_of_lt hwrap] at hinc ⊢
      rw [goSlice, if_pos ⟨by unfold headerSize; omega, by omega⟩]
      exact Or.inl ⟨rfl, hwrap, by omega⟩
    · -- the wrapped sum is below the header size: the slice ends before it begins
      rw [goSlice, if_neg (by unfold headerSize; omega)]
      exact Or.inr (Or.inl ⟨rfl, by omega, by omega⟩)

/-! ## When they agree -/

/-- All three parsers reject the bytes, or all three return the same frame; the agent's does not panic. -/
def SameFrame (data : List UInt8) : Prop :=
  (∃ f, Go.parseFrame data = .ok f ∧ Api.parseFrame data = .ok f ∧ Web.parseFrame data = some f) ∨
    (∃ text, Go.parseFrame data = .error text) ∧ (∃ text, Api.parseFrame data = .error text) ∧
      Web.parseFrame data = none

/-- The parsers agree, the agent's does not panic, and they accept exactly the bytes that hold the whole frame. -/
def Agree (data : List UInt8) : Prop :=
  SameFrame data ∧ Go.parseFrame data ≠ .panic ∧
    ((∃ f, Go.parseFrame data = .ok f) ↔ 8 + lengthField data ≤ data.length)

/-- The bytes on which the agent's 32-bit test comes out as the exact one. -/
def Fits (data : List UInt8) : Prop :=
  data.length < 8 ∨
    (if 8 + lengthField data < 2 ^ 32 then
      data.length < 8 + lengthField data ∨ 8 + lengthField data ≤ data.length % 2 ^ 32
    else data.length < 8 + lengthField data ∧ data.length % 2 ^ 32 < 8 + lengthField data - 2 ^ 32)

instance (data : List UInt8) : Decidable (Fits data) := inferInstanceAs (Decidable (_ ∨ _))

/-- Below 4 GiB that is a length field below `2 ^ 32 - 8`. -/
theorem fits_iff_of_lt {data : List UInt8} (h : data.length < 2 ^ 32) :
    Fits data ↔ data.length < 8 ∨ lengthField data < 2 ^ 32 - 8 := by
  unfold Fits
  rw [Nat.mod_eq_of_lt h]
  have hfield := lengthField_lt data
  split_ifs <;> omega

theorem agree_of_short {data : List UInt8} (h : data.length < 8) : Agree data := by
  have hgo : ∃ text, Go.parseFrame data = .error text := by
    unfold Go.parseFrame
    rw [if_pos (show data.length < headerSize from h)]
    exact ⟨_, rfl⟩
  have hapi : ∃ text, Api.parseFrame data = .error text := by
    rcases api_parseFrame data with ⟨-, hle⟩ | ⟨herr, -⟩
    · omega
    · exact herr
  have hweb : Web.parseFrame data = none := by rw [web_parseFrame, if_neg (by omega)]
  obtain ⟨text, htext⟩ := hgo
  refine ⟨Or.inr ⟨⟨text, htext⟩, hapi, hweb⟩, ?_, ?_⟩
  · rw [htext]
    exact fun h => nomatch h
  · rw [htext]
    exact ⟨fun ⟨_, hf⟩ => (nomatch hf), fun hle => absurd hle (by omega)⟩

/-- Where the agent rejects, they agree if the bytes are too short for the exact test as well. -/
theorem agree_of_error {data : List UInt8} {text : String} (h : Go.parseFrame data = .error text) :
    Agree data ↔ data.length < 8 + lengthField data := by
  constructor
  · rintro ⟨-, -, hacc⟩
    by_contra hle
    obtain ⟨f, hf⟩ := hacc.mpr (Nat.not_lt.mp hle)
    rw [h] at hf
    exact nomatch hf
  · intro hlt
    have hapi : ∃ text, Api.parseFrame data = .error text := by
      rcases api_parseFrame data with ⟨-, hle⟩ | ⟨herr, -⟩
      · omega
      · exact herr
    have hweb : Web.parseFrame data = none := by rw [web_parseFrame, if_neg (by omega)]
    refine ⟨Or.inr ⟨⟨text, h⟩, hapi, hweb⟩, ?_, ?_⟩
    · rw [h]
      exact fun h => nomatch h
    · rw [h]
      exact ⟨fun ⟨_, hf⟩ => (nomatch hf), fun hle => absurd hle (by omega)⟩

/-- Where the agent accepts the whole frame, they agree. -/
theorem agree_of_ok {data : List UInt8} (h : Go.parseFrame data = .ok (frameOf data))
    (hle : 8 + lengthField data ≤ data.length) : Agree data := by
  have hapi : Api.parseFrame data = .ok (frameOf data) := by
    rcases api_parseFrame data with ⟨hok, -⟩ | ⟨-, hlt⟩
    · exact hok
    · omega
  have hweb : Web.parseFrame data = some (frameOf data) := by rw [web_parseFrame, if_pos hle]
  refine ⟨Or.inl ⟨frameOf data, h, hapi, hweb⟩, ?_, iff_of_true ⟨_, h⟩ hle⟩
  rw [h]
  exact fun h => nomatch h

/-- **The parsers agree exactly on the bytes that fit.** -/
theorem agree_iff (data : List UInt8) : Agree data ↔ Fits data := by
  by_cases hshort : data.length < 8
  · exact iff_of_true (agree_of_short hshort) (Or.inl hshort)
  have hfield := lengthField_lt data
  rcases parseFrame_cases data (Nat.not_lt.mp hshort) with ⟨hok, hwrap, hle⟩ | ⟨hpanic, hwrap, hle⟩ | ⟨⟨text, herr⟩, hlt⟩
  · have hwhole : 8 + lengthField data ≤ data.length := hle.trans (Nat.mod_le _ _)
    refine iff_of_true (agree_of_ok hok hwhole) (Or.inr ?_)
    rw [if_pos hwrap]
    exact Or.inr hle
  · refine iff_of_false (fun h => h.2.1 hpanic) ?_
    rintro (h | h)
    · exact hshort h
    · rw [if_neg (Nat.not_lt.mpr hwrap)] at h
      omega
  · rw [agree_of_error herr]
    unfold Fits
    have hmod := Nat.mod_le data.length (2 ^ 32)
    split_ifs with hwrap
    · rw [Nat.mod_eq_of_lt hwrap] at hlt
      omega
    · omega

/-- A frame of eight bytes whose length field is `2 ^ 32 - 1`. -/
theorem not_agree_wrapped : ¬ Agree [0x01, 0x07, 0, 0, 0xFF, 0xFF, 0xFF, 0xFF] := by
  intro h
  exact h.2.1 (by decide)

end TimeChamp.Stream
