import TimeChamp.Stream.Delta

/-!
# Changed blocks

`Encode` sees a change of a block by its hash, a weighted sum of the high bytes of its channels modulo `2 ^ 32`.

* `hashBlock_of_perm` : pixels that trade places within a block leave its hash;
* `hashAt_encode` : what the next image of the same dimensions is compared with;
* `transmitted_iff_detected` : one block of one image;
* `all_transmitted_iff` : **exactly when every block in which a pixel differs is transmitted**;
* `not_transmitted_of_hashes` : a screen that only moves pixels within its blocks is sent as an empty delta.
-/

namespace TimeChamp.Stream
open Lib

/-! ## The hash as a sum -/

/-- The pixels of the block at that corner, row by row. -/
def Image.cells (img : Image) (x y : Int) : List Color :=
  (List.range blockSize).flatMap fun (dy : Nat) => (List.range blockSize).map fun (dx : Nat) => img.colorAt (x + dx) (y + dy)

/-- What a pixel adds to the hash. -/
def Color.weight (c : Color) : UInt32 := c.r.shiftRight 8 * 31 + c.g.shiftRight 8 * 37 + c.b.shiftRight 8 * 41

theorem hashBlock_eq (img : Image) (x y : Int) :
    hashBlock img x y = (img.cells x y).foldl (fun sum c => sum + c.weight) 0 := by
  unfold hashBlock Image.cells
  simp only [List.foldl_flatMap, List.foldl_map]
  rfl

theorem hashBlock_of_perm {a b : Image} {x y x' y' : Int} (h : (a.cells x y).Perm (b.cells x' y')) :
    hashBlock a x y = hashBlock b x' y' := by
  rw [hashBlock_eq, hashBlock_eq]
  apply h.foldl_eq'
  intro c _ d _ sum
  rw [UInt32.add_assoc, UInt32.add_assoc, UInt32.add_comm d.weight]

/-! ## What is transmitted -/

/-- Some pixel of the `i`-th block differs. -/
def Differs (a b : Image) (i : Nat) : Prop :=
  ∃ dx dy : Nat, dx < blockSize ∧ dy < blockSize ∧ (b.corner i).1 + dx < b.maxX ∧ (b.corner i).2 + dy < b.maxY ∧
    a.colorAt ((a.corner i).1 + dx) ((a.corner i).2 + dy) ≠ b.colorAt ((b.corner i).1 + dx) ((b.corner i).2 + dy)

/-- The result is a full frame, or a delta with the block's bit set. -/
def Transmitted (result : Outcome (UInt8 × List UInt8)) (i : Nat) : Prop :=
  (∃ data, result = .ok (frameTypeScreenFull, data)) ∨
    ∃ payload, result = .ok (frameTypeScreenDelta, payload) ∧ getBit (payload.drop 4) i = true

section Encoder
variable (jpegEncode : Image → Int → Except String (List UInt8))

/-- The image is to be sent whole, and can be; or it is compared with other hashes, and the block's is another one. -/
def Detected (e : DeltaEncoder) (img : Image) (q : Int) (i : Nat) : Prop :=
  if e.sendsDelta img = true then e.hashAt img i ≠ some (img.blockHash i)
  else ∃ data, encodeFullJPEG jpegEncode img q = .ok data

variable {jpegEncode}

theorem not_transmitted_error (text : String) (i : Nat) : ¬ Transmitted (.error text) i := by
  rintro (⟨_, h⟩ | ⟨_, h, -⟩)
  · exact nomatch h
  · exact nomatch h

/-- **One block of one image.** -/
theorem transmitted_iff_detected (e : DeltaEncoder) (img : Image) (q : Int) {i : Nat} (hi : i < img.totalBlocks) :
    Transmitted (e.encode jpegEncode img q).1 i ↔ Detected jpegEncode e img q i := by
  rcases @DeltaEncoder.encode_cases jpegEncode e img q with ⟨-, hzero⟩ | ⟨hfull, hsends, -⟩ | ⟨old, hold, hsends, hdelta, -⟩
  · omega
  · unfold Detected
    rw [hfull, hsends, if_neg Bool.false_ne_true]
    unfold DeltaEncoder.fullFrame
    cases encodeFullJPEG jpegEncode img q with
    | error text => exact iff_of_false (not_transmitted_error text i) fun ⟨_, h⟩ => nomatch h
    | ok data => exact iff_of_true (Or.inl ⟨data, rfl⟩) ⟨data, rfl⟩
  · unfold Detected
    rw [hdelta, hsends, if_pos rfl]
    have hbit := @DeltaEncoder.getBit_payload e img old (encodeBlocks jpegEncode img q (img.blocks old)).1 hold i hi
    rw [DeltaEncoder.mem_changedBlocks, and_iff_right hi] at hbit
    rw [← hbit]
    constructor
    · rintro (⟨data, h⟩ | ⟨payload, h, hpayload⟩)
      · have htype : frameTypeScreenDelta = frameTypeScreenFull := congrArg Prod.fst (Outcome.ok.inj h)
        exact absurd htype (by decide)
      · obtain rfl : _ = payload := congrArg Prod.snd (Outcome.ok.inj h)
        exact hpayload
    · intro hset
      exact Or.inr ⟨_, rfl, hset⟩

/-! ## What an image is compared with -/

theorem hashAt_encode {e : DeltaEncoder} {a b : Image} {q : Int} (hw : a.width = b.width) (hh : a.height = b.height)
    (hjpeg : e.sendsDelta a = true → ∀ i ∈ e.changedBlocks a,
      ∃ data, encodeBlockJPEG jpegEncode a (a.corner i).1 (a.corner i).2 q = .ok data)
    {i : Nat} (hi : i < a.totalBlocks) : (e.encode jpegEncode a q).2.hashAt b i = some (a.blockHash i) := by
  have hfit : (e.encode jpegEncode a q).2.fit b = (e.encode jpegEncode a q).2 := by
    unfold DeltaEncoder.fit
    rw [if_neg (by rw [DeltaEncoder.encode_imgW, DeltaEncoder.encode_imgH]; omega)]
  unfold DeltaEncoder.hashAt
  rw [hfit]
  rcases @DeltaEncoder.encode_cases jpegEncode e a q with ⟨-, hzero⟩ | ⟨-, -, hrec⟩ | ⟨old, hold, hsends, -, hrec⟩
  · omega
  · have hlt : i < a.hashes.length := by rwa [length_hashes]
    have hsome : (e.encode jpegEncode a q).2.recorded i = some a.hashes[i] := by
      rw [DeltaEncoder.recorded, hrec, Option.bind_some, List.getElem?_eq_getElem hlt]
    rw [hsome, DeltaEncoder.recorded_full hrec hsome]
  · obtain ⟨x, hx⟩ := DeltaEncoder.recorded_delta_some hold hrec hi
    rw [hx]
    rcases DeltaEncoder.recorded_delta hold hrec hx with ⟨hunchanged, hat⟩ | ⟨hchanged, hnew | ⟨text, herr⟩⟩
    · by_contra hne
      exact hunchanged (DeltaEncoder.mem_changedBlocks.mpr ⟨hi, fun h => hne (hat.symm.trans h)⟩)
    · rw [hnew]
    · obtain ⟨data, hok⟩ := hjpeg hsends i hchanged
      rw [hok] at herr
      injection herr

/-- After an image that has a block there are hashes to compare with. -/
theorem blockHashes_encode (e : DeltaEncoder) {img : Image} (q : Int) (h : img.totalBlocks ≠ 0) :
    ∃ old, (e.encode jpegEncode img q).2.blockHashes = some old := by
  rcases @DeltaEncoder.encode_cases jpegEncode e img q with ⟨-, hzero⟩ | ⟨-, -, hrec⟩ | ⟨_, -, -, -, hrec⟩
  · exact absurd hzero h
  · exact ⟨_, hrec⟩
  · exact ⟨_, hrec⟩

/-- An image whose blocks all have the hashes recorded goes out as a delta. -/
theorem sendsDelta_of_hashes {e : DeltaEncoder} {img : Image} {old : List UInt32} (hold : (e.fit img).blockHashes = some old)
    (h0 : img.totalBlocks ≠ 0) (h : ∀ i < img.totalBlocks, e.hashAt img i = some (img.blockHash i)) :
    e.sendsDelta img = true := by
  have hnone : ((img.blocks old).map Block.changed).count true = 0 := by
    rw [List.count_eq_zero]
    intro hmem
    obtain ⟨b, hb, hchanged⟩ := List.mem_map.mp hmem
    obtain ⟨i, hi, rfl⟩ := List.mem_iff_getElem.mp hb
    have hlt : i < img.totalBlocks := by rwa [length_blocks (DeltaEncoder.length_old hold)] at hi
    rw [← DeltaEncoder.changed_iff hold hi, h i hlt, bne_self_eq_false] at hchanged
    exact Bool.false_ne_true hchanged
  rw [DeltaEncoder.sendsDelta_some hold, hnone, bne_iff_ne.mpr h0]
  simp

/-- **What the hash does not see is not sent.** -/
theorem not_transmitted_of_hashes {e : DeltaEncoder} {a b : Image} {q q' : Int} (hw : a.width = b.width)
    (hh : a.height = b.height)
    (hjpeg : e.sendsDelta a = true → ∀ i ∈ e.changedBlocks a,
      ∃ data, encodeBlockJPEG jpegEncode a (a.corner i).1 (a.corner i).2 q = .ok data)
    (h : ∀ i < b.totalBlocks, a.blockHash i = b.blockHash i) {i : Nat} (hi : i < b.totalBlocks) :
    ¬ Transmitted ((e.encode jpegEncode a q).2.encode jpegEncode b q').1 i := by
  have htotal : a.totalBlocks = b.totalBlocks := by
    unfold Image.totalBlocks Image.gridW Image.gridH
    rw [hw, hh]
  have hsame : ∀ j < b.totalBlocks, (e.encode jpegEncode a q).2.hashAt b j = some (b.blockHash j) := by
    intro j hj
    rw [hashAt_encode hw hh hjpeg (htotal ▸ hj), h j hj]
  have hfit : (e.encode jpegEncode a q).2.fit b = (e.encode jpegEncode a q).2 := by
    unfold DeltaEncoder.fit
    rw [if_neg (by rw [DeltaEncoder.encode_imgW, DeltaEncoder.encode_imgH]; omega)]
  obtain ⟨old, hold⟩ := @blockHashes_encode jpegEncode e a q (by omega)
  have hsends := sendsDelta_of_hashes (hfit.symm ▸ hold) (by omega) hsame
  rw [transmitted_iff_detected _ _ _ hi]
  unfold Detected
  rw [if_pos hsends]
  exact not_not_intro (hsame i hi)

/-! ## Two images in a row -/

/-- **Every block in which a pixel differs is transmitted**, exactly if the whole image is to be sent and can be encoded, or
each such block has another hash than the one recorded for it. -/
theorem all_transmitted_iff (jpegEncode : Image → Int → Except String (List UInt8)) (e : DeltaEncoder) (a b : Image)
    (q q' : Int) :
    (∀ i < b.totalBlocks, Differs a b i → Transmitted ((e.encode jpegEncode a q).2.encode jpegEncode b q').1 i) ↔
      ∀ i < b.totalBlocks, Differs a b i → Detected jpegEncode (e.encode jpegEncode a q).2 b q' i := by
  constructor
  · intro h i hi hdiff
    exact (transmitted_iff_detected _ b q' hi).mp (h i hi hdiff)
  · intro h i hi hdiff
    exact (transmitted_iff_detected _ b q' hi).mpr (h i hi hdiff)

end Encoder

theorem oneBlock : (0 : Int) ≤ 16 := by decide

/-- A black screen of one block with a white pixel in its first row. -/
def cursorAt (x : Int) : Image :=
  ⟨0, 0, 16, 16, fun px py => if px = x ∧ py = 0 then ⟨0xFFFF, 0xFFFF, 0xFFFF, 0xFFFF⟩ else ⟨0, 0, 0, 0xFFFF⟩, true,
    oneBlock, oneBlock⟩

/-- A cursor that moves by one pixel after the first frame: nothing is sent, whatever becomes of the encoding. -/
theorem cursor_not_transmitted :
    Differs (cursorAt 3) (cursorAt 4) 0 ∧
      ∀ (jpegEncode : Image → Int → Except String (List UInt8)) (q q' : Int),
        ¬ Transmitted ((newDeltaEncoder.encode jpegEncode (cursorAt 3) q).2.encode jpegEncode (cursorAt 4) q').1 0 := by
  have hone : (cursorAt 4).totalBlocks = 1 := by decide
  have hhash : (cursorAt 3).blockHash 0 = (cursorAt 4).blockHash 0 := by decide +kernel
  have hall : ∀ i < (cursorAt 4).totalBlocks, (cursorAt 3).blockHash i = (cursorAt 4).blockHash i := by
    intro i hi
    rw [hone] at hi
    rw [Nat.lt_one_iff.mp hi]
    exact hhash
  constructor
  · exact ⟨3, 0, by decide, by decide, by decide, by decide, fun heq => absurd (congrArg Color.r heq) (by decide)⟩
  · intro jpegEncode q q'
    have hw : (cursorAt 3).width = (cursorAt 4).width := by decide
    have hh : (cursorAt 3).height = (cursorAt 4).height := by decide
    have hfirst : newDeltaEncoder.sendsDelta (cursorAt 3) = false := by decide
    refine not_transmitted_of_hashes hw hh (fun h => ?_) hall (hone ▸ Nat.one_pos)
    rw [hfirst] at h
    exact absurd h Bool.false_ne_true

end TimeChamp.Stream
