import TimeChamp.Stream.Protocol

/-!
# Building frames

`BuildFrame` of the agent (`internal/stream/protocol.go`) and `buildFrame` of the API (`streaming/protocol.ts`), read back by
the three parsers, also with further bytes behind the frame.

* `layout` : the bytes both build;
* `frameOf_layout` : the frame at the start of them, whatever follows;
* `layout_inj` : what was built can be told from the bytes;
* `readBack_iff` : **exactly when every parser returns what was built**.
-/

namespace TimeChamp.Stream
open Lib

def frameVersion : UInt8 := 0x01

/-- `binary.BigEndian.PutUint32(header[off:], v)`, and `header.writeUInt32BE(v, off)` of a number that fits. -/
def putUint32 (header : List UInt8) (off : Nat) (v : UInt32) : List UInt8 :=
  header.take off ++ toBE 4 v.toNat ++ header.drop (off + 4)

/-- The agent's builder. The two copies fill the result. -/
def Go.buildFrame (frameType : UInt8) (payload : List UInt8) : List UInt8 :=
  let header := List.replicate headerSize 0
  let header := header.set 0 frameVersion
  let header := header.set 1 frameType
  let header := putUint32 header 4 (UInt32.ofNat payload.length)
  header ++ payload

/-- The API's builder. `writeUInt32BE` throws for a length of `2 ^ 32` or more. -/
def Api.buildFrame (type : UInt8) (payload : List UInt8) : Except String (List UInt8) :=
  let header := List.replicate headerSize 0
  let header := header.set 0 frameVersion
  let header := header.set 1 type
  if payload.length < 2 ^ 32 then
    .ok (putUint32 header 4 (UInt32.ofNat payload.length) ++ payload)
  else
    .error "ERR_OUT_OF_RANGE"

/-! ## What they build -/

/-- A header for a payload of `n` bytes, and the payload. -/
def layout (type : UInt8) (n : Nat) (payload : List UInt8) : List UInt8 :=
  [frameVersion, type, 0, 0] ++ toBE 4 n ++ payload

theorem go_buildFrame (type : UInt8) (payload : List UInt8) :
    Go.buildFrame type payload = layout type (payload.length % 2 ^ 32) payload := by
  unfold Go.buildFrame putUint32 layout headerSize
  rw [UInt32.toNat_ofNat']
  simp [List.replicate]

theorem api_buildFrame {payload : List UInt8} (h : payload.length < 2 ^ 32) (type : UInt8) :
    Api.buildFrame type payload = .ok (Go.buildFrame type payload) := by
  unfold Api.buildFrame Go.buildFrame
  rw [if_pos h]

section Layout
variable (type : UInt8) (n : Nat) (payload rest : List UInt8)

theorem length_layout : (layout type n payload ++ rest).length = 8 + payload.length + rest.length := by
  unfold layout
  simp only [List.length_append, List.length_cons, List.length_nil, length_toBE]

theorem lengthField_layout : lengthField (layout type n payload ++ rest) = n % 2 ^ 32 := by
  have htake : ((layout type n payload ++ rest).drop 4).take 4 = toBE 4 n := by
    show ((toBE 4 n ++ payload) ++ rest).take 4 = _
    rw [List.append_assoc, List.take_append_of_le_length (length_toBE 4 n).ge, List.take_of_length_le (length_toBE 4 n).le]
  unfold lengthField
  rw [htake, ofBE_toBE, show 256 ^ 4 = 2 ^ 32 by decide]

theorem frameOf_layout (h : payload.length = n % 2 ^ 32) : frameOf (layout type n payload ++ rest) = ⟨type, payload⟩ := by
  have htail : (layout type n payload ++ rest).drop 8 = payload ++ rest := by
    show ((toBE 4 n ++ payload) ++ rest).drop 4 = _
    rw [List.append_assoc, List.drop_append_of_le_length (length_toBE 4 n).ge, List.drop_of_length_le (length_toBE 4 n).le]
    rfl
  unfold frameOf
  rw [lengthField_layout, ← h, List.drop_take, htail, Nat.add_sub_cancel_left, List.take_append_of_le_length le_rfl,
    List.take_length]
  rfl

end Layout

theorem layout_inj {type type' : UInt8} {n n' : Nat} {payload payload' : List UInt8}
    (h : layout type n payload = layout type' n' payload') : type = type' ∧ payload = payload' := by
  unfold layout at h
  simp only [List.cons_append, List.nil_append, List.cons.injEq] at h
  exact ⟨h.2.1, (List.append_inj h.2.2.2.2 (by rw [length_toBE, length_toBE])).2⟩

/-! ## Reading it back -/

/-- **What is said of a frame** and of the bytes that follow it: each parser returns the type and the payload from what the
agent built, and the agent from what the API built; and no other frame is built as these bytes. -/
structure ReadBack (type : UInt8) (payload rest : List UInt8) : Prop where
  go : Go.parseFrame (Go.buildFrame type payload ++ rest) = .ok ⟨type, payload⟩
  api : Api.parseFrame (Go.buildFrame type payload ++ rest) = .ok ⟨type, payload⟩
  web : Web.parseFrame (Go.buildFrame type payload ++ rest) = some ⟨type, payload⟩
  built : ∃ bytes, Api.buildFrame type payload = .ok bytes ∧ Go.parseFrame (bytes ++ rest) = .ok ⟨type, payload⟩
  go_inj : ∀ type' payload', Go.buildFrame type' payload' = Go.buildFrame type payload → type' = type ∧ payload' = payload
  api_inj : ∀ type' payload', Api.buildFrame type' payload' = Api.buildFrame type payload → type' = type ∧ payload' = payload

/-- Whether the length of the bytes, as the agent counts it, still covers the frame. -/
def Counted (payload rest : List UInt8) : Prop := 8 + payload.length ≤ (8 + payload.length + rest.length) % 2 ^ 32

instance (payload rest : List UInt8) : Decidable (Counted payload rest) := inferInstanceAs (Decidable (_ ≤ _))

/-- Below 4 GiB it does. -/
theorem counted_of_lt {payload rest : List UInt8} (h : 8 + payload.length + rest.length < 2 ^ 32) : Counted payload rest := by
  unfold Counted
  rw [Nat.mod_eq_of_lt h]
  omega

section Built
variable {type : UInt8} {payload rest : List UInt8}

theorem go_parse_built (h : payload.length < 2 ^ 32 - 8) :
    Go.parseFrame (Go.buildFrame type payload ++ rest) = .ok ⟨type, payload⟩ ↔ Counted payload rest := by
  have hmod : payload.length % 2 ^ 32 % 2 ^ 32 = payload.length := by omega
  have hlen := length_layout type (payload.length % 2 ^ 32) payload rest
  have hfield := lengthField_layout type (payload.length % 2 ^ 32) payload rest
  have hframe := frameOf_layout type (payload.length % 2 ^ 32) payload rest (by omega)
  have hcases := parseFrame_cases (layout type (payload.length % 2 ^ 32) payload ++ rest) (by rw [hlen]; omega)
  rw [hlen, hfield, hframe, hmod] at hcases
  rw [go_buildFrame]
  unfold Counted
  rcases hcases with ⟨hok, -, hle⟩ | ⟨-, hwrap, -⟩ | ⟨⟨text, herr⟩, hlt⟩
  · exact iff_of_true hok hle
  · omega
  · rw [herr]
    refine iff_of_false (fun h => nomatch h) ?_
    omega

theorem api_parse_built (h : payload.length < 2 ^ 32) :
    Api.parseFrame (Go.buildFrame type payload ++ rest) = .ok ⟨type, payload⟩ := by
  have hmod : payload.length % 2 ^ 32 % 2 ^ 32 = payload.length := by omega
  have hcases := api_parseFrame (layout type (payload.length % 2 ^ 32) payload ++ rest)
  rw [frameOf_layout _ _ _ _ (by omega), length_layout, lengthField_layout, hmod] at hcases
  rw [go_buildFrame]
  rcases hcases with ⟨hok, -⟩ | ⟨-, hlt⟩
  · exact hok
  · omega

theorem web_parse_built (h : payload.length < 2 ^ 32) :
    Web.parseFrame (Go.buildFrame type payload ++ rest) = some ⟨type, payload⟩ := by
  have hmod : payload.length % 2 ^ 32 % 2 ^ 32 = payload.length := by omega
  rw [go_buildFrame, web_parseFrame, lengthField_layout, length_layout, frameOf_layout _ _ _ _ (by omega), hmod,
    if_pos (by omega)]

theorem go_buildFrame_inj {type' : UInt8} {payload' : List UInt8}
    (h : Go.buildFrame type' payload' = Go.buildFrame type payload) : type' = type ∧ payload' = payload := by
  rw [go_buildFrame, go_buildFrame] at h
  exact layout_inj h

theorem api_buildFrame_inj (h : payload.length < 2 ^ 32) {type' : UInt8} {payload' : List UInt8}
    (heq : Api.buildFrame type' payload' = Api.buildFrame type payload) : type' = type ∧ payload' = payload := by
  by_cases h' : payload'.length < 2 ^ 32
  · rw [api_buildFrame h, api_buildFrame h'] at heq
    exact go_buildFrame_inj (Except.ok.inj heq)
  · have herr : Api.buildFrame type' payload' = .error "ERR_OUT_OF_RANGE" := if_neg h'
    rw [api_buildFrame h, herr] at heq
    exact nomatch heq

end Built

/-- **A frame is read back exactly when the agent still counts its bytes.** -/
theorem readBack_iff (type : UInt8) (payload rest : List UInt8) (h : payload.length < 2 ^ 32 - 8) :
    ReadBack type payload rest ↔ Counted payload rest := by
  constructor
  · intro hread
    exact (go_parse_built h).mp hread.go
  · intro hcount
    have hlt : payload.length < 2 ^ 32 := by omega
    have hgo := (@go_parse_built type payload rest h).mpr hcount
    exact {
      go := hgo
      api := api_parse_built hlt
      web := web_parse_built hlt
      built := ⟨_, api_buildFrame hlt type, hgo⟩
      go_inj := fun _ _ => go_buildFrame_inj
      api_inj := fun _ _ => api_buildFrame_inj hlt }

theorem readBack_control : Counted [0x7b, 0x7d] [0x01] ∧ ReadBack 0x07 [0x7b, 0x7d] [0x01] := by
  have hcount : Counted [0x7b, 0x7d] [0x01] := by decide
  exact ⟨hcount, (readBack_iff 0x07 [0x7b, 0x7d] [0x01] (by decide)).mpr hcount⟩

/-- A payload of one byte, and bytes behind the frame up to 4 GiB: the agent counts none. -/
theorem not_readBack_four_gib : ¬ ReadBack 0x07 [0x20] (List.replicate (2 ^ 32 - 9) 0) := by
  intro h
  have hcount := (go_parse_built (by decide)).mp h.go
  unfold Counted at hcount
  rw [List.length_replicate] at hcount
  exact absurd hcount (by decide)

end TimeChamp.Stream
