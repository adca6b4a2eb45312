import TimeChamp.Stream.Protocol

/-!
# The delta encoder

The agent cuts each captured screen into blocks of 16×16 pixels and sends the blocks whose hash changed, or the whole
screen when there is nothing to compare with or too much has changed.

* `DeltaEncoder` : the hashes of the previous frame, as many as its grid has blocks;
* `DeltaEncoder.encode` : one frame; `encode_cases` : what it can return and record;
* `parseDelta` : the payload format of a delta, read back as documented;
* `parseDelta_encode` : **a delta is read back whole**, the blocks being the changed ones in raster order.
-/

namespace TimeChamp.Stream
open Lib

/-! ## Images -/

/-- What `color.Color.RGBA` returns. -/
structure Color where
  r : UInt32
  g : UInt32
  b : UInt32
  a : UInt32

/-- An `image.Image` with well-formed bounds; `subImager` says whether its type has a `SubImage` method. -/
structure Image where
  minX : Int
  minY : Int
  maxX : Int
  maxY : Int
  colorAt : Int → Int → Color
  subImager : Bool
  wfX : minX ≤ maxX
  wfY : minY ≤ maxY

def blockSize : Nat := 16

def Image.width (img : Image) : Nat := (img.maxX - img.minX).toNat
def Image.height (img : Image) : Nat := (img.maxY - img.minY).toNat

/-- How many blocks cover that many pixels. -/
def gridSide (n : Nat) : Nat := (n + blockSize - 1) / blockSize

def Image.gridW (img : Image) : Nat := gridSide img.width
def Image.gridH (img : Image) : Nat := gridSide img.height
def Image.totalBlocks (img : Image) : Nat := img.gridW * img.gridH

/-- A simple hash of the block at that corner. -/
def hashBlock (img : Image) (x y : Int) : UInt32 :=
  (List.range blockSize).foldl (fun (sum : UInt32) (dy : Nat) =>
    (List.range blockSize).foldl (fun (sum : UInt32) (dx : Nat) =>
      let c := img.colorAt (x + dx) (y + dy)
      sum + (c.r.shiftRight 8 * 31 + c.g.shiftRight 8 * 37 + c.b.shiftRight 8 * 41)) sum) 0

/-- `SubImage` on the block at that corner: the same pixels, within both rectangles. -/
def Image.subImage (img : Image) (x y : Int) : Image where
  minX := max img.minX x
  minY := max img.minY y
  maxX := max (max img.minX x) (min img.maxX (x + blockSize))
  maxY := max (max img.minY y) (min img.maxY (y + blockSize))
  colorAt := img.colorAt
  subImager := img.subImager
  wfX := Int.le_max_left _ _
  wfY := Int.le_max_left _ _

/-- Colours as an `image.RGBA` keeps them, eight bits a channel. -/
def Color.toRGBA (c : Color) : Color :=
  ⟨(c.r >>> 8) * 0x101, (c.g >>> 8) * 0x101, (c.b >>> 8) * 0x101, (c.a >>> 8) * 0x101⟩

/-- The block at that corner, copied into an image of its own. -/
def Image.copyBlock (img : Image) (x y : Int) : Image where
  minX := 0
  minY := 0
  maxX := blockSize
  maxY := blockSize
  colorAt dx dy := (img.colorAt (x + dx) (y + dy)).toRGBA
  subImager := true
  wfX := by decide
  wfY := by decide

section Encoder
variable (jpegEncode : Image → Int → Except String (List UInt8))

def encodeFullJPEG (img : Image) (quality : Int) : Except String (List UInt8) := jpegEncode img quality

def encodeBlockJPEG (img : Image) (x y quality : Int) : Except String (List UInt8) :=
  if img.subImager then
    encodeFullJPEG jpegEncode (img.subImage x y) quality
  else
    encodeFullJPEG jpegEncode (img.copyBlock x y) quality

/-! ## The encoder -/

/-- The previous frame: nothing, or one hash for each block of its grid. -/
structure DeltaEncoder where
  blockHashes : Option (List UInt32)
  gridW : Nat
  gridH : Nat
  imgW : Nat
  imgH : Nat
  wf : ∀ hs, blockHashes = some hs → hs.length = gridSide imgW * gridSide imgH

def newDeltaEncoder : DeltaEncoder := ⟨none, 0, 0, 0, 0, nofun⟩

namespace DeltaEncoder

def reset (w h : Nat) : DeltaEncoder := ⟨none, 0, 0, w, h, nofun⟩

/-- Forget the previous frame if the dimensions changed. -/
def fit (e : DeltaEncoder) (img : Image) : DeltaEncoder :=
  if img.width ≠ e.imgW ∨ img.height ≠ e.imgH then reset img.width img.height else e

@[simp] theorem fit_imgW (e : DeltaEncoder) (img : Image) : (e.fit img).imgW = img.width := by
  unfold fit
  split_ifs with h
  · rfl
  · omega

@[simp] theorem fit_imgH (e : DeltaEncoder) (img : Image) : (e.fit img).imgH = img.height := by
  unfold fit
  split_ifs with h
  · rfl
  · omega

/-- Record the hashes of a frame of the same dimensions. -/
def record (e : DeltaEncoder) (hs : List UInt32) (h : hs.length = gridSide e.imgW * gridSide e.imgH) : DeltaEncoder :=
  { e with blockHashes := some hs, wf := fun _ heq => Option.some.inj heq ▸ h }

end DeltaEncoder

/-- The corner of each block, in raster order. -/
def Image.corners (img : Image) : List (Int × Int) :=
  (List.range img.gridH).flatMap fun (bY : Nat) => (List.range img.gridW).map fun (bX : Nat) =>
    (img.minX + bX * blockSize, img.minY + bY * blockSize)

def Image.hashes (img : Image) : List UInt32 := img.corners.map fun p => hashBlock img p.1 p.2

/-- One block in the loop of a delta: its corner, the hash recorded and the hash now. -/
structure Block where
  x : Int
  y : Int
  old : UInt32
  new : UInt32

def Block.changed (b : Block) : Bool := b.new != b.old

/-- The blocks of an image, against the hashes recorded. -/
def Image.blocks (img : Image) (old : List UInt32) : List Block :=
  img.corners.zipWith (fun p o => ⟨p.1, p.2, o, hashBlock img p.1 p.2⟩) old

/-- What the loop over the blocks writes, and the hashes it leaves recorded. -/
def encodeBlocks (img : Image) (quality : Int) : List Block → List UInt8 × List UInt32
  | [] => ([], [])
  | b :: bs =>
    let (buf, hashes) := encodeBlocks img quality bs
    if b.changed then
      match encodeBlockJPEG jpegEncode img b.x b.y quality with
      | .error _ => (buf, b.old :: hashes)
      | .ok blockData => (toBE 2 blockData.length ++ blockData ++ buf, b.new :: hashes)
    else
      (buf, b.old :: hashes)

/-! ### The raster -/

/-- Row after row, `w` positions in each: position `i` is in row `i / w` and column `i % w`. -/
theorem raster {α : Type} (f : Nat → Nat → α) (w h : Nat) :
    ((List.range h).flatMap fun r => (List.range w).map (f r)) =
      (List.range (w * h)).map fun i => f (i / w) (i % w) := by
  induction h with
  | zero => simp
  | succ h ih =>
      rw [List.range_succ, List.flatMap_append, ih, Nat.mul_succ, List.range_add, List.map_append]
      congr 1
      simp only [List.flatMap_singleton, List.map_map]
      apply List.map_congr_left
      intro c hc
      have hcw : c < w := List.mem_range.mp hc
      have hdiv : (w * h + c) / w = h := by
        rw [Nat.mul_add_div (by omega), Nat.div_eq_of_lt hcw, Nat.add_zero]
      have hmod : (w * h + c) % w = c := by rw [Nat.mul_add_mod, Nat.mod_eq_of_lt hcw]
      simp only [Function.comp, hdiv, hmod]

/-- The corner of the `i`-th block. -/
def Image.corner (img : Image) (i : Nat) : Int × Int :=
  (img.minX + (i % img.gridW : Nat) * blockSize, img.minY + (i / img.gridW : Nat) * blockSize)

/-- The hash of the `i`-th block. -/
def Image.blockHash (img : Image) (i : Nat) : UInt32 := hashBlock img (img.corner i).1 (img.corner i).2

theorem corners_eq (img : Image) : img.corners = (List.range img.totalBlocks).map img.corner :=
  raster (fun bY bX => (img.minX + (bX : Nat) * blockSize, img.minY + (bY : Nat) * blockSize)) _ _

theorem hashes_eq (img : Image) : img.hashes = (List.range img.totalBlocks).map img.blockHash := by
  rw [Image.hashes, corners_eq, List.map_map]
  apply List.map_congr_left
  intro i _
  rw [Function.comp_apply, Image.blockHash]

theorem length_hashes (img : Image) : img.hashes.length = img.totalBlocks := by
  rw [hashes_eq, List.length_map, List.length_range]

theorem length_blocks {img : Image} {old : List UInt32} (h : old.length = img.totalBlocks) :
    (img.blocks old).length = img.totalBlocks := by
  rw [Image.blocks, List.length_zipWith, corners_eq, List.length_map, List.length_range, h, Nat.min_self]

theorem getElem_blocks {img : Image} {old : List UInt32} {i : Nat} (h : i < (img.blocks old).length) :
    (img.blocks old)[i] = ⟨(img.corner i).1, (img.corner i).2, old.getD i 0, img.blockHash i⟩ := by
  have hold : i < old.length := by
    rw [Image.blocks, List.length_zipWith] at h
    omega
  simp only [Image.blocks, List.getElem_zipWith, corners_eq, List.getElem_map, List.getElem_range,
    List.getD_eq_getElem _ _ hold, Image.blockHash]

theorem length_encodeBlocks (img : Image) (q : Int) (bs : List Block) :
    (encodeBlocks jpegEncode img q bs).2.length = bs.length := by
  induction bs with
  | nil => rfl
  | cons b bs ih =>
      rw [encodeBlocks]
      split_ifs
      · cases encodeBlockJPEG jpegEncode img b.x b.y q <;> simp [ih]
      · simp [ih]

/-! ### One frame -/

namespace DeltaEncoder

theorem length_hashes_fit (e : DeltaEncoder) (img : Image) :
    img.hashes.length = gridSide (e.fit img).imgW * gridSide (e.fit img).imgH := by
  rw [length_hashes, fit_imgW, fit_imgH]
  rfl

theorem length_old {e : DeltaEncoder} {img : Image} {old : List UInt32} (h : (e.fit img).blockHashes = some old) :
    old.length = img.totalBlocks := by
  rw [(e.fit img).wf old h, fit_imgW, fit_imgH]
  rfl

theorem length_written {e : DeltaEncoder} {img : Image} {old : List UInt32} (q : Int)
    (h : (e.fit img).blockHashes = some old) :
    (encodeBlocks jpegEncode img q (img.blocks old)).2.length =
      gridSide (e.fit img).imgW * gridSide (e.fit img).imgH := by
  rw [length_encodeBlocks, length_blocks (length_old h), fit_imgW, fit_imgH]
  rfl

/-- The whole image as a frame. -/
def fullFrame (img : Image) (quality : Int) : Outcome (UInt8 × List UInt8) :=
  match encodeFullJPEG jpegEncode img quality with
  | .ok data => .ok (frameTypeScreenFull, data)
  | .error text => .error text

/-- Compare the image with the previous frame. The outcome is the type and the payload of the frame to send. -/
def encode (e : DeltaEncoder) (img : Image) (jpegQuality : Int) : Outcome (UInt8 × List UInt8) × DeltaEncoder :=
  match hold : (e.fit img).blockHashes with
  | none =>
    -- first frame or after reset
    (fullFrame jpegEncode img jpegQuality,
      { (e.fit img).record img.hashes (length_hashes_fit e img) with gridW := img.gridW, gridH := img.gridH })
  | some old =>
    let blocks := img.blocks old
    let changed := blocks.map Block.changed
    let changedCount := changed.count true
    if img.totalBlocks = 0 then
      (.panic, e.fit img) -- the division by zero
    else if changedCount * 100 / img.totalBlocks > 60 then
      (fullFrame jpegEncode img jpegQuality, (e.fit img).record img.hashes (length_hashes_fit e img))
    else
      let written := encodeBlocks jpegEncode img jpegQuality blocks
      let payload := toBE 2 img.gridW ++ toBE 2 img.gridH ++ bitfield changed ++ written.1
      (.ok (frameTypeScreenDelta, payload), (e.fit img).record written.2 (length_written jpegEncode jpegQuality hold))

/-! ### What a frame can be -/

/-- The hash recorded for the `i`-th block. -/
def recorded (e : DeltaEncoder) (i : Nat) : Option UInt32 := e.blockHashes.bind fun hs => hs[i]?

/-- The hash the image is compared with; none after a change of dimensions. -/
def hashAt (e : DeltaEncoder) (img : Image) (i : Nat) : Option UInt32 := (e.fit img).recorded i

theorem hashAt_eq_some {e : DeltaEncoder} {img : Image} {i : Nat} {x : UInt32} (h : e.hashAt img i = some x) :
    e.recorded i = some x ∧ e.imgW = img.width ∧ e.imgH = img.height := by
  unfold hashAt fit at h
  split_ifs at h with hdim
  · exact nomatch h
  · exact ⟨h, by omega, by omega⟩

/-- The blocks of the image whose hash is not the one recorded. -/
def changedBlocks (e : DeltaEncoder) (img : Image) : List Nat :=
  (List.range img.totalBlocks).filter fun i => e.hashAt img i != some (img.blockHash i)

/-- There is something to compare with, and at most 60% changed. -/
def sendsDelta (e : DeltaEncoder) (img : Image) : Bool :=
  match (e.fit img).blockHashes with
  | none => false
  | some old =>
    img.totalBlocks != 0 &&
      decide (((img.blocks old).map Block.changed).count true * 100 / img.totalBlocks ≤ 60)

theorem sendsDelta_none {e : DeltaEncoder} {img : Image} (h : (e.fit img).blockHashes = none) :
    e.sendsDelta img = false := by
  unfold sendsDelta
  rw [h]

theorem sendsDelta_some {e : DeltaEncoder} {img : Image} {old : List UInt32}
    (h : (e.fit img).blockHashes = some old) :
    e.sendsDelta img = (img.totalBlocks != 0 &&
      decide (((img.blocks old).map Block.changed).count true * 100 / img.totalBlocks ≤ 60)) := by
  unfold sendsDelta
  rw [h]

variable {jpegEncode}

/-- What a frame can be: the division by zero, the whole image, or a delta. -/
theorem encode_cases (e : DeltaEncoder) (img : Image) (q : Int) :
    (e.encode jpegEncode img q).1 = .panic ∧ img.totalBlocks = 0 ∨
      (e.encode jpegEncode img q).1 = fullFrame jpegEncode img q ∧ e.sendsDelta img = false ∧
        (e.encode jpegEncode img q).2.blockHashes = some img.hashes ∨
      ∃ old, (e.fit img).blockHashes = some old ∧ e.sendsDelta img = true ∧
        (e.encode jpegEncode img q).1 = .ok (frameTypeScreenDelta, toBE 2 img.gridW ++ toBE 2 img.gridH ++
          bitfield ((img.blocks old).map Block.changed) ++ (encodeBlocks jpegEncode img q (img.blocks old)).1) ∧
        (e.encode jpegEncode img q).2.blockHashes = some (encodeBlocks jpegEncode img q (img.blocks old)).2 := by
  unfold encode
  split
  next hnone => exact Or.inr (Or.inl ⟨rfl, sendsDelta_none hnone, rfl⟩)
  next old hold =>
    dsimp only
    rw [sendsDelta_some hold]
    split_ifs with hzero hmany
    · exact Or.inl ⟨rfl, hzero⟩
    · refine Or.inr (Or.inl ⟨rfl, ?_, rfl⟩)
      rw [decide_eq_false (Nat.not_le.mpr hmany), Bool.and_false]
    · refine Or.inr (Or.inr ⟨old, hold, ?_, rfl, rfl⟩)
      rw [decide_eq_true (Nat.not_lt.mp hmany), Bool.and_true, bne_iff_ne]
      exact hzero

theorem encode_imgW (e : DeltaEncoder) (img : Image) (q : Int) : (e.encode jpegEncode img q).2.imgW = img.width := by
  unfold encode
  split
  · exact fit_imgW e img
  · dsimp only
    split_ifs <;> exact fit_imgW e img

theorem encode_imgH (e : DeltaEncoder) (img : Image) (q : Int) : (e.encode jpegEncode img q).2.imgH = img.height := by
  unfold encode
  split
  · exact fit_imgH e img
  · dsimp only
    split_ifs <;> exact fit_imgH e img

theorem recorded_full {e : DeltaEncoder} {img : Image} (h : e.blockHashes = some img.hashes) {i : Nat} {x : UInt32}
    (hx : e.recorded i = some x) : x = img.blockHash i := by
  rw [recorded, h, Option.bind_some, hashes_eq, List.getElem?_map, Option.map_eq_some_iff] at hx
  obtain ⟨j, hj, rfl⟩ := hx
  obtain ⟨hlt, hget⟩ := List.getElem?_eq_some_iff.mp hj
  rw [List.getElem_range] at hget
  rw [hget]

end DeltaEncoder

/-! ## Reading a delta back -/

variable {jpegEncode}

/-- A delta as its format describes it: the grid, and the listed blocks with their bytes. -/
structure Delta where
  gridW : Nat
  gridH : Nat
  blocks : List (Nat × List UInt8)
deriving DecidableEq

/-- For each of the listed blocks a two-byte length and that many bytes; and what follows them. -/
def readRecords : List Nat → List UInt8 → Option (List (Nat × List UInt8) × List UInt8)
  | [], bs => some ([], bs)
  | i :: is, bs =>
    let n := ofBE (bs.take 2)
    if bs.length < 2 + n then
      none
    else
      (readRecords is ((bs.drop 2).drop n)).map fun r => ((i, (bs.drop 2).take n) :: r.1, r.2)

/-- `[gridW uint16][gridH uint16][bitfield ceil(totalBlocks/8) bytes][for each changed block: jpeg_len uint16 + jpeg_bytes]`
and what follows it. -/
def parseDelta (payload : List UInt8) : Option (Delta × List UInt8) :=
  let gridW := ofBE (payload.take 2)
  let gridH := ofBE ((payload.drop 2).take 2)
  let size := (gridW * gridH + 7) / 8
  if payload.length < 4 + size then
    none
  else
    let bits := (payload.drop 4).take size
    let listed := (List.range (gridW * gridH)).filter (getBit bits)
    (readRecords listed ((payload.drop 4).drop size)).map fun r => (⟨gridW, gridH, r.1⟩, r.2)

theorem parseDelta_append {gridW gridH : Nat} (hW : gridW < 65536) (hH : gridH < 65536) {bits body : List UInt8}
    (hbits : bits.length = (gridW * gridH + 7) / 8) :
    parseDelta (toBE 2 gridW ++ toBE 2 gridH ++ bits ++ body) =
      (readRecords ((List.range (gridW * gridH)).filter (getBit bits)) body).map
        fun r => (⟨gridW, gridH, r.1⟩, r.2) := by
  have hW' : ofBE (toBE 2 gridW) = gridW := (ofBE_toBE 2 _).trans (Nat.mod_eq_of_lt hW)
  have hH' : ofBE (toBE 2 gridH) = gridH := (ofBE_toBE 2 _).trans (Nat.mod_eq_of_lt hH)
  have hdrop : (toBE 2 gridW ++ (toBE 2 gridH ++ (bits ++ body))).drop 4 = bits ++ body := by
    rw [← List.append_assoc, List.drop_left' (by simp)]
  simp only [parseDelta, List.append_assoc, hdrop, List.take_left' (length_toBE 2 _),
    List.drop_left' (length_toBE 2 _), hW', hH', ← hbits, List.take_left, List.drop_left]
  rw [if_neg (by simp only [List.length_append, length_toBE]; omega)]

/-- The loop writes a record for each changed block that the format lists. -/
theorem readRecords_encodeBlocks (img : Image) (q : Int) (p : Nat → Bool) (enc : Nat → List UInt8) (bs : List Block)
    (k : Nat) (hp : ∀ (j : Nat) (h : j < bs.length), p (k + j) = bs[j].changed)
    (henc : ∀ (j : Nat) (h : j < bs.length), bs[j].changed = true →
      encodeBlockJPEG jpegEncode img bs[j].x bs[j].y q = .ok (enc (k + j)) ∧ (enc (k + j)).length < 65536)
    (rest : List UInt8) :
    readRecords ((List.range' k bs.length).filter p) ((encodeBlocks jpegEncode img q bs).1 ++ rest) =
      some (((List.range' k bs.length).filter p).map fun i => (i, enc i), rest) := by
  induction bs generalizing k with
  | nil => simp [readRecords, encodeBlocks]
  | cons b bs ih =>
      have hp' : ∀ (j : Nat) (h : j < bs.length), p (k + 1 + j) = bs[j].changed := by
        intro j h
        simpa [Nat.add_assoc, Nat.add_comm 1 j] using hp (j + 1) (Nat.succ_lt_succ h)
      have henc' : ∀ (j : Nat) (h : j < bs.length), bs[j].changed = true →
          encodeBlockJPEG jpegEncode img bs[j].x bs[j].y q = .ok (enc (k + 1 + j)) ∧
            (enc (k + 1 + j)).length < 65536 := by
        intro j h hc
        simpa [Nat.add_assoc, Nat.add_comm 1 j] using henc (j + 1) (Nat.succ_lt_succ h) (by simpa using hc)
      have hhead : p k = b.changed := hp 0 (Nat.succ_pos _)
      rw [List.length_cons, List.range'_succ, List.filter_cons, encodeBlocks, hhead]
      by_cases hc : b.changed = true
      · obtain ⟨hok, hlen⟩ := henc 0 (Nat.succ_pos _) hc
        simp only [List.getElem_cons_zero, Nat.add_zero] at hok hlen
        simp only [hc, if_true, hok, List.append_assoc]
        rw [readRecords]
        have hn : ofBE ((toBE 2 (enc k).length ++ (enc k ++ ((encodeBlocks jpegEncode img q bs).1 ++ rest))).take 2) =
            (enc k).length := by
          rw [List.take_left' (length_toBE 2 _), ofBE_toBE]
          exact Nat.mod_eq_of_lt hlen
        simp only [hn, List.drop_left' (length_toBE 2 _), List.drop_left, List.take_left]
        rw [if_neg (by simp only [List.length_append, length_toBE]; omega), ih (k + 1) hp' henc', Option.map_some,
          List.map_cons]
      · simp only [hc, Bool.false_eq_true, if_false]
        exact ih (k + 1) hp' henc'

namespace DeltaEncoder

theorem hashAt_eq {e : DeltaEncoder} {img : Image} {old : List UInt32} (h : (e.fit img).blockHashes = some old) {i : Nat}
    (hi : i < img.totalBlocks) : e.hashAt img i = some (old.getD i 0) := by
  have hlt : i < old.length := by rwa [length_old h]
  rw [hashAt, recorded, h, Option.bind_some, List.getElem?_eq_getElem hlt, List.getD_eq_getElem _ _ hlt]

theorem changed_iff {e : DeltaEncoder} {img : Image} {old : List UInt32} (h : (e.fit img).blockHashes = some old)
    {i : Nat} (hi : i < (img.blocks old).length) :
    (e.hashAt img i != some (img.blockHash i)) = (img.blocks old)[i].changed := by
  have hlt : i < img.totalBlocks := by rwa [length_blocks (length_old h)] at hi
  rw [hashAt_eq h hlt, getElem_blocks hi, Block.changed, Bool.eq_iff_iff, bne_iff_ne, bne_iff_ne, Ne, Ne,
    Option.some.injEq, eq_comm]

/-- What is recorded of an unchanged or unencodable block stays; of a changed block that was encoded, its new hash. -/
theorem getElem_encodeBlocks (img : Image) (q : Int) {bs : List Block} {i : Nat} (h : i < bs.length) :
    (encodeBlocks jpegEncode img q bs).2[i]? = some bs[i].old ∧ bs[i].new = bs[i].old ∨
      bs[i].changed = true ∧ ((encodeBlocks jpegEncode img q bs).2[i]? = some bs[i].new ∨
        (encodeBlocks jpegEncode img q bs).2[i]? = some bs[i].old ∧
          ∃ text, encodeBlockJPEG jpegEncode img bs[i].x bs[i].y q = .error text) := by
  induction bs generalizing i with
  | nil => exact absurd h (Nat.not_lt_zero _)
  | cons b bs ih =>
      cases i with
      | zero =>
          rw [encodeBlocks]
          split_ifs with hc
          · refine Or.inr ⟨hc, ?_⟩
            cases hjpeg : encodeBlockJPEG jpegEncode img b.x b.y q with
            | error text => exact Or.inr ⟨rfl, text, hjpeg⟩
            | ok data => exact Or.inl rfl
          · have hsame : b.new = b.old := by simpa [Block.changed] using hc
            exact Or.inl ⟨rfl, hsame⟩
      | succ i =>
          have htail : (encodeBlocks jpegEncode img q (b :: bs)).2[i + 1]? =
              (encodeBlocks jpegEncode img q bs).2[i]? := by
            rw [encodeBlocks]
            split_ifs
            · cases encodeBlockJPEG jpegEncode img b.x b.y q <;> rfl
            · rfl
          rw [htail]
          exact ih (Nat.lt_of_succ_lt_succ h)

theorem mem_changedBlocks {e : DeltaEncoder} {img : Image} {i : Nat} :
    i ∈ e.changedBlocks img ↔ i < img.totalBlocks ∧ e.hashAt img i ≠ some (img.blockHash i) := by
  rw [changedBlocks, List.mem_filter, List.mem_range, bne_iff_ne]

/-- What is recorded for a block after a delta: of a block not listed, the hash it was compared with, which is its hash
now; of a listed block its hash now, unless it could not be encoded. -/
theorem recorded_delta {e e' : DeltaEncoder} {img : Image} {q : Int} {old : List UInt32}
    (hold : (e.fit img).blockHashes = some old)
    (h : e'.blockHashes = some (encodeBlocks jpegEncode img q (img.blocks old)).2) {i : Nat} {x : UInt32}
    (hx : e'.recorded i = some x) :
    i ∉ e.changedBlocks img ∧ e.hashAt img i = some x ∨
      i ∈ e.changedBlocks img ∧ (x = img.blockHash i ∨
        ∃ text, encodeBlockJPEG jpegEncode img (img.corner i).1 (img.corner i).2 q = .error text) := by
  rw [recorded, h, Option.bind_some] at hx
  obtain ⟨hlt, -⟩ := List.getElem?_eq_some_iff.mp hx
  rw [length_encodeBlocks] at hlt
  have htotal : i < img.totalBlocks := by rwa [length_blocks (length_old hold)] at hlt
  rw [mem_changedBlocks, hashAt_eq hold htotal]
  rcases @getElem_encodeBlocks jpegEncode img q _ _ hlt with ⟨hget, hsame⟩ | ⟨hc, hget⟩
  · rw [getElem_blocks hlt] at hget hsame
    exact Or.inl ⟨fun hmem => hmem.2 (congrArg some hsame.symm), hget ▸ hx⟩
  · rw [getElem_blocks hlt] at hget hc
    have hne : img.blockHash i ≠ old.getD i 0 := by simpa [Block.changed] using hc
    refine Or.inr ⟨⟨htotal, fun heq => hne (Option.some.inj heq).symm⟩, ?_⟩
    rcases hget with hnew | ⟨-, herr⟩
    · exact Or.inl (Option.some.inj (hx.symm.trans hnew))
    · exact Or.inr herr

theorem recorded_delta_some {e e' : DeltaEncoder} {img : Image} {q : Int} {old : List UInt32}
    (hold : (e.fit img).blockHashes = some old)
    (h : e'.blockHashes = some (encodeBlocks jpegEncode img q (img.blocks old)).2) {i : Nat}
    (hi : i < img.totalBlocks) : ∃ x, e'.recorded i = some x := by
  rw [recorded, h, Option.bind_some]
  refine ⟨_, List.getElem?_eq_getElem ?_⟩
  rwa [length_encodeBlocks, length_blocks (length_old hold)]

theorem getBit_payload {e : DeltaEncoder} {img : Image} {old : List UInt32} {body : List UInt8}
    (hold : (e.fit img).blockHashes = some old) {i : Nat} (hi : i < img.totalBlocks) :
    getBit ((toBE 2 img.gridW ++ toBE 2 img.gridH ++ bitfield ((img.blocks old).map Block.changed) ++ body).drop 4) i =
      true ↔ i ∈ e.changedBlocks img := by
  have hlen := length_blocks (length_old hold)
  have hi' : i < (img.blocks old).length := by rwa [hlen]
  rw [List.append_assoc, List.drop_left' (by simp), getBit_append (by rw [length_bitfield, List.length_map]; omega),
    getBit_bitfield, List.getD_eq_getElem _ _ (by rwa [List.length_map]), List.getElem_map, ← changed_iff hold hi',
    bne_iff_ne, mem_changedBlocks, and_iff_right hi]

/-- What a delta holds, given that each block it lists could be encoded and fits its length field. -/
theorem parseDelta_written {e : DeltaEncoder} {img : Image} {q : Int} {old : List UInt32} {enc : Nat → List UInt8}
    (h : (e.fit img).blockHashes = some old) (hW : img.gridW < 65536) (hH : img.gridH < 65536)
    (henc : ∀ i ∈ e.changedBlocks img,
      encodeBlockJPEG jpegEncode img (img.corner i).1 (img.corner i).2 q = .ok (enc i) ∧ (enc i).length < 65536) :
    parseDelta (toBE 2 img.gridW ++ toBE 2 img.gridH ++ bitfield ((img.blocks old).map Block.changed) ++
      (encodeBlocks jpegEncode img q (img.blocks old)).1) =
        some (⟨img.gridW, img.gridH, (e.changedBlocks img).map fun i => (i, enc i)⟩, []) := by
  have hlen := length_blocks (length_old h)
  have hbits : (bitfield ((img.blocks old).map Block.changed)).length = (img.gridW * img.gridH + 7) / 8 := by
    rw [length_bitfield, List.length_map, hlen]
    rfl
  have hlisted : (List.range img.totalBlocks).filter (getBit (bitfield ((img.blocks old).map Block.changed))) =
      e.changedBlocks img := by
    apply List.filter_congr
    intro i hi
    have hi' : i < (img.blocks old).length := by rw [hlen]; exact List.mem_range.mp hi
    rw [getBit_bitfield, List.getD_eq_getElem _ _ (by rwa [List.length_map]), List.getElem_map, changed_iff h hi']
  have hread := readRecords_encodeBlocks img q (fun i => e.hashAt img i != some (img.blockHash i)) enc (img.blocks old) 0
    (fun j hj => by rw [Nat.zero_add, changed_iff h hj])
    (fun j hj hc => by
      have hmem : j ∈ e.changedBlocks img :=
        List.mem_filter.mpr ⟨List.mem_range.mpr (by rwa [hlen] at hj), by rw [changed_iff h hj, hc]⟩
      rw [Nat.zero_add, getElem_blocks hj]
      exact henc j hmem) []
  rw [List.append_nil, ← List.range_eq_range', hlen] at hread
  rw [parseDelta_append hW hH hbits, show img.gridW * img.gridH = img.totalBlocks from rfl, hlisted, changedBlocks, hread,
    Option.map_some]

end DeltaEncoder

/-- What `jpeg.Encode` writes at quality 40 for a black image. -/
def blackJPEG (img : Image) : List UInt8 :=
  -- the quantisation tables
  [255, 216, 255, 219, 0, 132, 0, 20, 14, 15, 18, 15, 13, 20, 18, 16, 18, 23, 21, 20, 24, 30, 50, 33, 30, 28, 28,
   30, 61, 44, 46, 36, 50, 73, 64, 76, 75, 71, 64, 70, 69, 80, 90, 115, 98, 80, 85, 109, 86, 69, 70, 100, 136, 101,
   109, 119, 123, 129, 130, 129, 78, 96, 141, 151, 140, 125, 150, 115, 126, 129, 124, 1, 21, 23, 23, 30, 26, 30, 59,
   33, 33, 59, 124, 83, 70, 83] ++ List.replicate 50 124 ++
  -- the frame header with the dimensions
  [255, 192, 0, 17, 8] ++ toBE 2 img.height ++ toBE 2 img.width ++ [3, 1, 34, 0, 2, 17, 1, 3, 17, 1] ++
  -- the Huffman tables
  [255, 196, 1, 162, 0, 0, 1, 5, 1, 1, 1, 1, 1, 1, 0, 0, 0, 0, 0, 0, 0, 0, 1, 2, 3, 4, 5, 6, 7, 8, 9, 10, 11, 16, 0,
   2, 1, 3, 3, 2, 4, 3, 5, 5, 4, 4, 0, 0, 1, 125, 1, 2, 3, 0, 4, 17, 5, 18, 33, 49, 65, 6, 19, 81, 97, 7, 34, 113,
   20, 50, 129, 145, 161, 8, 35, 66, 177, 193, 21, 82, 209, 240, 36, 51, 98, 114, 130, 9, 10, 22, 23, 24, 25, 26,
   37, 38, 39, 40, 41, 42, 52, 53, 54, 55, 56, 57, 58, 67, 68, 69, 70, 71, 72, 73, 74, 83, 84, 85, 86, 87, 88, 89,
   90, 99, 100, 101, 102, 103, 104, 105, 106, 115, 116, 117, 118, 119, 120, 121, 122, 131, 132, 133, 134, 135, 136,
   137, 138, 146, 147, 148, 149, 150, 151, 152, 153, 154, 162, 163, 164, 165, 166, 167, 168, 169, 170, 178, 179,
   180, 181, 182, 183, 184, 185, 186, 194, 195, 196, 197, 198, 199, 200, 201, 202, 210, 211, 212, 213, 214, 215,
   216, 217, 218, 225, 226, 227, 228, 229, 230, 231, 232, 233, 234, 241, 242, 243, 244, 245, 246, 247, 248, 249,
   250, 1, 0, 3, 1, 1, 1, 1, 1, 1, 1, 1, 1, 0, 0, 0, 0, 0, 0, 1, 2, 3, 4, 5, 6, 7, 8, 9, 10, 11, 17, 0, 2, 1, 2, 4,
   4, 3, 4, 7, 5, 4, 4, 0, 1, 2, 119, 0, 1, 2, 3, 17, 4, 5, 33, 49, 6, 18, 65, 81, 7, 97, 113, 19, 34, 50, 129, 8,
   20, 66, 145, 161, 177, 193, 9, 35, 51, 82, 240, 21, 98, 114, 209, 10, 22, 36, 52, 225, 37, 241, 23, 24, 25, 26,
   38, 39, 40, 41, 42, 53, 54, 55, 56, 57, 58, 67, 68, 69, 70, 71, 72, 73, 74, 83, 84, 85, 86, 87, 88, 89, 90, 99,
   100, 101, 102, 103, 104, 105, 106, 115, 116, 117, 118, 119, 120, 121, 122, 130, 131, 132, 133, 134, 135, 136,
   137, 138, 146, 147, 148, 149, 150, 151, 152, 153, 154, 162, 163, 164, 165, 166, 167, 168, 169, 170, 178, 179,
   180, 181, 182, 183, 184, 185, 186, 194, 195, 196, 197, 198, 199, 200, 201, 202, 210, 211, 212, 213, 214, 215,
   216, 217, 218, 226, 227, 228, 229, 230, 231, 232, 233, 234, 242, 243, 244, 245, 246, 247, 248, 249, 250] ++
  -- the scan: the colour of the first macroblock, and no difference in the others
  [255, 218, 0, 12, 3, 1, 0, 2, 17, 3, 17, 0, 63, 0] ++ [227, 40, 162, 138, 0] ++
    (List.replicate (img.totalBlocks - 1) [40, 162, 138, 0]).flatten ++ [255, 217]

/-- A black image of two blocks. -/
def blackScreen : Image := ⟨0, 0, 32, 16, fun _ _ => ⟨0, 0, 0, 0xFFFF⟩, true, by decide, by decide⟩

/-- **A delta is read back whole.** The payload of every delta frame whose grid and blocks fit their length fields is
consumed exactly, and holds the changed blocks in raster order. -/
theorem parseDelta_encode (jpegEncode : Image → Int → Except String (List UInt8)) (e : DeltaEncoder) (img : Image)
    (q : Int) (payload : List UInt8) (enc : Nat → List UInt8)
    (hr : (e.encode jpegEncode img q).1 = .ok (frameTypeScreenDelta, payload))
    (hW : img.gridW < 65536) (hH : img.gridH < 65536)
    (henc : ∀ i ∈ e.changedBlocks img,
      encodeBlockJPEG jpegEncode img (img.corner i).1 (img.corner i).2 q = .ok (enc i) ∧ (enc i).length < 65536) :
    parseDelta payload = some (⟨img.gridW, img.gridH, (e.changedBlocks img).map fun i => (i, enc i)⟩, []) := by
  rcases e.encode_cases img q with ⟨hpanic, -⟩ | ⟨hfull, -⟩ | ⟨old, hold, -, hdelta, -⟩
  · rw [hpanic] at hr
    exact nomatch hr
  · rw [hfull, DeltaEncoder.fullFrame] at hr
    cases hjpeg : encodeFullJPEG jpegEncode img q with
    | error text => rw [hjpeg] at hr; exact nomatch hr
    | ok data =>
        rw [hjpeg] at hr
        have htype : frameTypeScreenFull = frameTypeScreenDelta := congrArg Prod.fst (Outcome.ok.inj hr)
        exact absurd htype (by decide)
  · rw [hdelta] at hr
    obtain rfl : _ = payload := congrArg Prod.snd (Outcome.ok.inj hr)
    exact DeltaEncoder.parseDelta_written hold hW hH henc

/-- The black screen after one whose first block was white: the first block is listed. -/
theorem parseDelta_encode_black :
    parseDelta ([0, 2, 0, 1, 1, 2, 84] ++ blackJPEG (blackScreen.subImage 0 0)) =
      some (⟨2, 1, [(0, blackJPEG (blackScreen.subImage 0 0))]⟩, []) := by
  let e : DeltaEncoder := ⟨some [7115520, 0], 2, 1, 32, 16, fun _ h => Option.some.inj h ▸ rfl⟩
  have hchanged : e.changedBlocks blackScreen = [0] := by decide +kernel
  have h := parseDelta_encode (fun img _ => .ok (blackJPEG img)) e blackScreen 40
    ([0, 2, 0, 1, 1, 2, 84] ++ blackJPEG (blackScreen.subImage 0 0)) (fun _ => blackJPEG (blackScreen.subImage 0 0))
    (by decide +kernel) (by decide) (by decide) (by decide +kernel)
  rw [hchanged] at h
  exact h

end Encoder
end TimeChamp.Stream
