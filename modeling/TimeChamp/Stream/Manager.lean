import TimeChamp.Lib.Runs
import TimeChamp.Stream.Delta

/-!
# The stream manager and its receiver

The manager captures the screen, encodes it against the previous frame and sends the result over the current connection.
The encoder records what it encoded, whether or not the frame arrives; the receiver starts empty on every connection.

* `Manager`, `Event`, `step` : the manager's loop, with the receiver of the current connection beside it;
* `Picture`, `Shows` : what a receiver has of a block, and that it shows a block with a given hash;
* `stale` : the blocks whose recorded hash may not be the receiver's, a history of what was lost;
* `inv_step` : every other block is held with the hash recorded;
* `baseHeld` : **a delta that lists every stale block is sent against a base the receiver has.**
-/

namespace TimeChamp.Stream
open Lib

inductive StreamMode where
  | idle
  | grid
  | full
  | other (name : String)
deriving DecidableEq

/-- What a receiver has of a block: its part of a whole screen, or an image of its own. -/
inductive Picture where
  | ofScreen (data : List UInt8)
  | ofBlock (data : List UInt8)

/-- The manager: its mode, its encoder, and whether the client has a connection. -/
structure Manager where
  mode : StreamMode
  delta : DeltaEncoder
  connected : Bool

/-- The manager, what the receiver of the current connection shows of each block, and the blocks on which the two may
differ. -/
structure State extends Manager where
  receiver : Nat → Option Picture
  stale : Nat → Bool

/-- Connected, nothing captured yet. -/
def start : State := ⟨⟨.idle, newDeltaEncoder, true⟩, fun _ => none, fun _ => true⟩

/-- What happens next. A screen tick carries the captured image, if any, the encodings that fail, and whether the frame
goes out; a heartbeat tick, whether the acknowledgement is overdue and whether the client can connect again. -/
inductive Event where
  | setMode (mode : StreamMode)
  | heartbeat (overdue reconnects : Bool)
  | screenTick (img : Option Image) (fails : Image → Int → Bool) (sent : Bool)

/-- A receiver with a frame applied: a whole screen replaces everything, a delta the blocks it lists. -/
def applyFrame (receiver : Nat → Option Picture) (frameType : UInt8) (data : List UInt8) : Nat → Option Picture :=
  if frameType = frameTypeScreenFull then
    fun _ => some (.ofScreen data)
  else
    match parseDelta data with
    | none => receiver
    | some (d, _) => fun i => (d.blocks.lookup i).elim (receiver i) fun bytes => some (.ofBlock bytes)

section Step
variable (jpeg : Image → Int → List UInt8)

/-- The encoder of JPEG images, when some of its calls fail. -/
def jpegEncode (fails : Image → Int → Bool) (img : Image) (quality : Int) : Except String (List UInt8) :=
  if fails img quality then .error "jpeg: image is too large to encode" else .ok (jpeg img quality)

def quality (mode : StreamMode) : Int := if mode = .full then 60 else 40

/-- Each block the delta lists was encoded and fits its length field, and so does the grid. -/
def intact (fails : Image → Int → Bool) (e : DeltaEncoder) (img : Image) (q : Int) : Bool :=
  decide (img.gridW < 65536) && decide (img.gridH < 65536) && (e.changedBlocks img).all fun i =>
    match encodeBlockJPEG (jpegEncode jpeg fails) img (img.corner i).1 (img.corner i).2 q with
    | .ok data => decide (data.length < 65536)
    | .error _ => false

/-- The blocks on which encoder and receiver may differ once the image was encoded and the frame did or did not arrive:
a lost frame adds the blocks whose recorded hash it changed, a whole screen leaves none, a delta takes away those it
lists, and one that cannot be read back leaves all. -/
def staleAfter (fails : Image → Int → Bool) (s : State) (img : Image) (q : Int) (e' : DeltaEncoder) (arrived : Bool) :
    Nat → Bool :=
  if !arrived then fun i => s.stale i || e'.recorded i != s.delta.hashAt img i
  else if !s.delta.sendsDelta img then fun _ => false
  else if intact jpeg fails s.delta img q then fun i => s.stale i && !(s.delta.changedBlocks img).contains i
  else fun _ => true

/-- The screen tick with a captured image; `none` when the process dies. -/
def screenTick (fails : Image → Int → Bool) (sent : Bool) (s : State) (img : Image) : Option State :=
  let r := s.delta.encode (jpegEncode jpeg fails) img (quality s.mode)
  let stale := staleAfter jpeg fails s img (quality s.mode) r.2
  match r.1 with
  | .panic => none
  | .error _ => some { s with delta := r.2, stale := stale false }
  | .ok (frameType, data) =>
    -- `SendFrame` fails without a connection
    if s.connected && sent then
      some { s with delta := r.2, stale := stale true, receiver := applyFrame s.receiver frameType data }
    else
      some { s with delta := r.2, stale := stale false }

/-- One turn of the manager's loop. -/
def step : Event → State → Option State
  | .setMode mode, s => some { s with mode }
  | .heartbeat overdue reconnects, s =>
    if overdue then
      if reconnects then
        some { s with connected := true, receiver := fun _ => none, stale := fun _ => true }
      else
        some { s with mode := .idle, connected := false }
    else
      some s
  | .screenTick none _ _, s => some s
  | .screenTick (some img) fails sent, s => if s.mode = .idle then some s else screenTick jpeg fails sent s img

end Step

/-! ## What the receiver has -/

section
variable {jpeg : Image → Int → List UInt8}

/-- The picture shows the `i`-th block, with that hash, of an image of these dimensions. -/
def Shows (jpeg : Image → Int → List UInt8) (w h i : Nat) (hash : UInt32) (pic : Picture) : Prop :=
  ∃ (img : Image) (q : Int), img.width = w ∧ img.height = h ∧ img.blockHash i = hash ∧
    (pic = .ofScreen (jpeg img q) ∨
      ∃ data, pic = .ofBlock data ∧
        encodeBlockJPEG (fun img q => .ok (jpeg img q)) img (img.corner i).1 (img.corner i).2 q = .ok data)

/-- The receiver holds the `i`-th block with the hash recorded. -/
def Holds (jpeg : Image → Int → List UInt8) (s : State) (i : Nat) (hash : UInt32) : Prop :=
  ∃ pic, s.receiver i = some pic ∧ Shows jpeg s.delta.imgW s.delta.imgH i hash pic

/-- Every recorded block that is not stale is held. -/
def Inv (jpeg : Image → Int → List UInt8) (s : State) : Prop :=
  ∀ i hash, s.delta.recorded i = some hash → s.stale i = false → Holds jpeg s i hash

theorem inv_start : Inv jpeg start := fun _ _ h => nomatch h

/-- A block recorded as it was before, of the same dimensions, is held as before. -/
theorem Holds.keep {s s' : State} {img : Image} {i : Nat} {hash : UInt32} (hinv : Inv jpeg s)
    (hW : s'.delta.imgW = img.width) (hH : s'.delta.imgH = img.height) (hat : s.delta.hashAt img i = some hash)
    (hstale : s.stale i = false) (hrec : s'.receiver i = s.receiver i) : Holds jpeg s' i hash := by
  obtain ⟨hold, hw, hh⟩ := DeltaEncoder.hashAt_eq_some hat
  obtain ⟨pic, hpic, hshows⟩ := hinv i hash hold hstale
  rw [hw, hh, ← hW, ← hH] at hshows
  exact ⟨pic, hrec.trans hpic, hshows⟩

theorem inv_lost {fails : Image → Int → Bool} {s : State} {img : Image} {q : Int} {e' : DeltaEncoder}
    (hinv : Inv jpeg s) (hW : e'.imgW = img.width) (hH : e'.imgH = img.height) :
    Inv jpeg { s with delta := e', stale := staleAfter jpeg fails s img q e' false } := by
  intro i hash hrec hstale
  simp only [staleAfter, Bool.not_false, if_true, Bool.or_eq_false_iff, bne_eq_false_iff_eq] at hstale
  exact Holds.keep hinv hW hH (hstale.2.symm.trans hrec) hstale.1 rfl

theorem inv_full {s : State} {img : Image} {q : Int} {e' : DeltaEncoder} {stale : Nat → Bool}
    (hW : e'.imgW = img.width) (hH : e'.imgH = img.height) (hrec : e'.blockHashes = some img.hashes) :
    Inv jpeg { s with delta := e', stale, receiver := applyFrame s.receiver frameTypeScreenFull (jpeg img q) } := by
  intro i hash hi _
  refine ⟨.ofScreen (jpeg img q), ?_, img, q, hW.symm, hH.symm, ?_, Or.inl rfl⟩
  · simp only [applyFrame, if_true]
  · exact (DeltaEncoder.recorded_full hrec hi).symm

theorem lookup_map (enc : Nat → List UInt8) (is : List Nat) (i : Nat) :
    (is.map fun i => (i, enc i)).lookup i = if i ∈ is then some (enc i) else none := by
  induction is with
  | nil => rfl
  | cons j is ih =>
      rw [List.map_cons, List.lookup_cons, ih]
      by_cases hij : i = j
      · subst hij
        simp
      · simp [hij, beq_eq_false_iff_ne.mpr hij]

theorem intact_blocks {fails : Image → Int → Bool} {e : DeltaEncoder} {img : Image} {q : Int}
    (h : intact jpeg fails e img q = true) :
    img.gridW < 65536 ∧ img.gridH < 65536 ∧ ∃ enc : Nat → List UInt8, ∀ i ∈ e.changedBlocks img,
      encodeBlockJPEG (jpegEncode jpeg fails) img (img.corner i).1 (img.corner i).2 q = .ok (enc i) ∧
        (enc i).length < 65536 := by
  simp only [intact, Bool.and_eq_true, decide_eq_true_eq, List.all_eq_true] at h
  obtain ⟨⟨hW, hH⟩, hall⟩ := h
  refine ⟨hW, hH, fun i => match encodeBlockJPEG (jpegEncode jpeg fails) img (img.corner i).1 (img.corner i).2 q with
    | .ok data => data
    | .error _ => [], fun i hi => ?_⟩
  have hi := hall i hi
  split at hi
  next data hdata =>
    simp only [hdata]
    exact ⟨trivial, of_decide_eq_true hi⟩
  next => exact absurd hi Bool.false_ne_true

theorem encodeBlockJPEG_ok {fails : Image → Int → Bool} {img : Image} {x y q : Int} {data : List UInt8}
    (h : encodeBlockJPEG (jpegEncode jpeg fails) img x y q = .ok data) :
    encodeBlockJPEG (fun img q => .ok (jpeg img q)) img x y q = .ok data := by
  unfold encodeBlockJPEG encodeFullJPEG jpegEncode at h
  unfold encodeBlockJPEG encodeFullJPEG
  split_ifs at h ⊢ <;> exact h

/-- A delta that arrives and can be read back. -/
theorem inv_delta {fails : Image → Int → Bool} {s : State} {img : Image} {q : Int} {e' : DeltaEncoder}
    {old : List UInt32} (hinv : Inv jpeg s) (hW : e'.imgW = img.width) (hH : e'.imgH = img.height)
    (hold : (s.delta.fit img).blockHashes = some old) (hsends : s.delta.sendsDelta img = true)
    (hrec : e'.blockHashes = some (encodeBlocks (jpegEncode jpeg fails) img q (img.blocks old)).2) :
    Inv jpeg { s with
      delta := e'
      stale := staleAfter jpeg fails s img q e' true
      receiver := applyFrame s.receiver frameTypeScreenDelta (toBE 2 img.gridW ++ toBE 2 img.gridH ++
        bitfield ((img.blocks old).map Block.changed) ++
          (encodeBlocks (jpegEncode jpeg fails) img q (img.blocks old)).1) } := by
  intro i hash hi hstale
  simp only [staleAfter, hsends, Bool.not_true, Bool.false_eq_true, if_false] at hstale
  split_ifs at hstale with hintact
  obtain ⟨hgW, hgH, enc, henc⟩ := intact_blocks hintact
  have hparse := DeltaEncoder.parseDelta_written hold hgW hgH henc
  have hreceiver : applyFrame s.receiver frameTypeScreenDelta (toBE 2 img.gridW ++ toBE 2 img.gridH ++
      bitfield ((img.blocks old).map Block.changed) ++
        (encodeBlocks (jpegEncode jpeg fails) img q (img.blocks old)).1) i =
      if i ∈ s.delta.changedBlocks img then some (.ofBlock (enc i)) else s.receiver i := by
    rw [applyFrame, if_neg (by decide), hparse]
    simp only [lookup_map]
    split_ifs <;> rfl
  rcases DeltaEncoder.recorded_delta hold hrec hi with ⟨hnot, hat⟩ | ⟨hmem, hnew⟩
  · -- not listed: the picture is the one from before
    have hbefore : s.stale i = false := by simpa [hnot] using hstale
    exact Holds.keep hinv hW hH hat hbefore (hreceiver.trans (if_neg hnot))
  · obtain ⟨hok, -⟩ := henc i hmem
    rcases hnew with rfl | ⟨text, herr⟩
    · exact ⟨.ofBlock (enc i), hreceiver.trans (if_pos hmem), img, q, hW.symm, hH.symm, rfl,
        Or.inr ⟨enc i, rfl, encodeBlockJPEG_ok hok⟩⟩
    · rw [hok] at herr
      exact nomatch herr

theorem fullFrame_ok {fails : Image → Int → Bool} {img : Image} {q : Int} {frameType : UInt8} {data : List UInt8}
    (h : DeltaEncoder.fullFrame (jpegEncode jpeg fails) img q = .ok (frameType, data)) :
    frameTypeScreenFull = frameType ∧ jpeg img q = data := by
  unfold DeltaEncoder.fullFrame encodeFullJPEG jpegEncode at h
  by_cases hf : fails img q = true
  · rw [if_pos hf] at h
    exact nomatch h
  · rw [if_neg hf] at h
    exact Prod.mk.inj (Outcome.ok.inj h)

theorem screenTick_cases {fails : Image → Int → Bool} {sent : Bool} {s s' : State} {img : Image}
    (h : screenTick jpeg fails sent s img = some s') :
    let r := s.delta.encode (jpegEncode jpeg fails) img (quality s.mode)
    s' = { s with delta := r.2, stale := staleAfter jpeg fails s img (quality s.mode) r.2 false } ∨
      ∃ frameType data, r.1 = .ok (frameType, data) ∧ s' = { s with
        delta := r.2
        stale := staleAfter jpeg fails s img (quality s.mode) r.2 true
        receiver := applyFrame s.receiver frameType data } := by
  unfold screenTick at h
  dsimp only at h ⊢
  split at h
  next => exact nomatch h
  next => exact Or.inl (Option.some.inj h).symm
  next frameType data hr =>
    split_ifs at h
    · exact Or.inr ⟨frameType, data, hr, (Option.some.inj h).symm⟩
    · exact Or.inl (Option.some.inj h).symm

theorem inv_screenTick {fails : Image → Int → Bool} {sent : Bool} {s s' : State} {img : Image} (hinv : Inv jpeg s)
    (h : screenTick jpeg fails sent s img = some s') : Inv jpeg s' := by
  have hW := @DeltaEncoder.encode_imgW (jpegEncode jpeg fails) s.delta img (quality s.mode)
  have hH := @DeltaEncoder.encode_imgH (jpegEncode jpeg fails) s.delta img (quality s.mode)
  rcases screenTick_cases h with rfl | ⟨frameType, data, hr, rfl⟩
  · exact inv_lost hinv hW hH
  rcases @DeltaEncoder.encode_cases (jpegEncode jpeg fails) s.delta img (quality s.mode) with
    ⟨hpanic, -⟩ | ⟨hfull, -, hrec⟩ | ⟨old, hold, hsends, hdelta, hrec⟩
  · rw [hpanic] at hr
    exact nomatch hr
  · obtain ⟨rfl, rfl⟩ := fullFrame_ok (hfull.symm.trans hr)
    exact inv_full hW hH hrec
  · rw [hdelta] at hr
    obtain ⟨rfl, rfl⟩ := Prod.mk.inj (Outcome.ok.inj hr)
    exact inv_delta hinv hW hH hold hsends hrec

/-- **Every turn of the loop keeps the blocks that are not stale held.** -/
theorem inv_step {s s' : State} {e : Event} (hinv : Inv jpeg s) (h : step jpeg e s = some s') : Inv jpeg s' := by
  cases e with
  | setMode mode =>
      obtain rfl := Option.some.inj h
      exact hinv
  | heartbeat overdue reconnects =>
      simp only [step] at h
      split_ifs at h <;> obtain rfl := Option.some.inj h
      · exact fun i hash _ hstale => nomatch hstale
      · exact hinv
      · exact hinv
  | screenTick captured fails sent =>
      cases captured with
      | none =>
          obtain rfl := Option.some.inj h
          exact hinv
      | some img =>
          simp only [step] at h
          split_ifs at h
          · obtain rfl := Option.some.inj h
            exact hinv
          · exact inv_screenTick hinv h

/-! ## Deltas that are sent -/

/-- The image whose frame the event sends, if it does, with the frame and the encoder after it. -/
def sentFrame (jpeg : Image → Int → List UInt8) (s : State) : Event → Option (Image × UInt8 × List UInt8 × DeltaEncoder)
  | .screenTick (some img) fails sent =>
    if s.mode ≠ .idle ∧ s.connected = true ∧ sent = true then
      let r := s.delta.encode (jpegEncode jpeg fails) img (quality s.mode)
      match r.1 with
      | .ok (frameType, data) => some (img, frameType, data, r.2)
      | _ => none
    else none
  | _ => none

/-- The delta lists the block: its bit in the bitfield after the two grid sides is set. -/
def Listed (data : List UInt8) (i : Nat) : Prop := getBit (data.drop 4) i = true

/-- If the event sends a delta, the receiver has a picture of every block not listed, with the hash recorded for it. -/
def BaseHeld (jpeg : Image → Int → List UInt8) (s : State) (e : Event) : Prop :=
  ∀ img data e', sentFrame jpeg s e = some (img, frameTypeScreenDelta, data, e') →
    ∀ i < img.totalBlocks, ¬Listed data i → ∃ hash pic, e'.recorded i = some hash ∧ s.receiver i = some pic ∧
      Shows jpeg e'.imgW e'.imgH i hash pic

/-- A delta that goes out has every stale block among the changed ones. -/
def Covers (s : State) : Event → Prop
  | .screenTick (some img) _ sent =>
    s.connected = true → sent = true → s.delta.sendsDelta img = true →
      ∀ i < img.totalBlocks, s.stale i = true → i ∈ s.delta.changedBlocks img
  | _ => True

/-- A block that a delta does not list and that is not stale. -/
theorem held_unlisted {fails : Image → Int → Bool} {s : State} {img : Image} {q : Int} {e' : DeltaEncoder}
    {old : List UInt32} (hinv : Inv jpeg s) (hW : e'.imgW = img.width) (hH : e'.imgH = img.height)
    (hold : (s.delta.fit img).blockHashes = some old)
    (hrec : e'.blockHashes = some (encodeBlocks (jpegEncode jpeg fails) img q (img.blocks old)).2) {i : Nat}
    (hi : i < img.totalBlocks) (hnot : i ∉ s.delta.changedBlocks img) (hstale : s.stale i = false) :
    ∃ hash pic, e'.recorded i = some hash ∧ s.receiver i = some pic ∧ Shows jpeg e'.imgW e'.imgH i hash pic := by
  obtain ⟨hash, hhash⟩ := DeltaEncoder.recorded_delta_some hold hrec hi
  rcases DeltaEncoder.recorded_delta hold hrec hhash with ⟨-, hat⟩ | ⟨hmem, -⟩
  · obtain ⟨hbefore, hw, hh⟩ := DeltaEncoder.hashAt_eq_some hat
    obtain ⟨pic, hpic, hshows⟩ := hinv i hash hbefore hstale
    rw [hw, hh, ← hW, ← hH] at hshows
    exact ⟨hash, pic, hhash, hpic, hshows⟩
  · exact absurd hmem hnot

/-- **A delta is sent against a base the receiver has**, in every state of every run, if it lists the stale blocks. -/
theorem baseHeld {s : State} {e : Event} (h : Reached (step jpeg) (fun _ _ => True) start s) (hc : Covers s e) :
    BaseHeld jpeg s e := by
  have hinv : Inv jpeg s := h.inv inv_start fun _ _ _ hinv _ hn => inv_step hinv hn
  intro img data e' hframe i hi hlisted
  unfold sentFrame at hframe
  split at hframe
  next img' fails sent =>
    split_ifs at hframe with hout
    obtain ⟨-, hconn, hsent⟩ := hout
    dsimp only at hframe
    split at hframe
    next frameType data' hr =>
      obtain ⟨rfl, rfl, rfl, rfl⟩ : img' = img ∧ frameType = frameTypeScreenDelta ∧ data' = data ∧ _ = e' := by
        simpa using hframe
      have hW := @DeltaEncoder.encode_imgW (jpegEncode jpeg fails) s.delta img' (quality s.mode)
      have hH := @DeltaEncoder.encode_imgH (jpegEncode jpeg fails) s.delta img' (quality s.mode)
      rcases @DeltaEncoder.encode_cases (jpegEncode jpeg fails) s.delta img' (quality s.mode) with
        ⟨hpanic, -⟩ | ⟨hfull, -⟩ | ⟨old, hold, hsends, hdelta, hrec⟩
      · exact nomatch hpanic.symm.trans hr
      · exact absurd (fullFrame_ok (hfull.symm.trans hr)).1 (by decide)
      · obtain ⟨-, rfl⟩ := Prod.mk.inj (Outcome.ok.inj (hdelta.symm.trans hr))
        have hnot : i ∉ s.delta.changedBlocks img' := fun hmem =>
          hlisted ((DeltaEncoder.getBit_payload hold hi).mpr hmem)
        have hstale : s.stale i = false := by
          by_contra hne
          exact hnot (hc hconn hsent hsends i hi (Bool.not_eq_false _ ▸ hne))
        exact held_unlisted hinv hW hH hold hrec hi hnot hstale
    next => exact nomatch hframe
  next => exact nomatch hframe

/-! ### A black screen -/

section Black

/-- The black screen is captured and its frame goes out. -/
def blackTick : Event := .screenTick (some blackScreen) (fun _ _ => false) true

/-- The state these events lead to. -/
def blackRun (es : List Event) : State := endOf (step fun img _ => blackJPEG img) start (.setMode .grid :: blackTick :: es)

theorem blackTick_sent {s : State} (hmode : s.mode ≠ .idle) (hconn : s.connected = true)
    (hr : (s.delta.encode (jpegEncode (fun img _ => blackJPEG img) fun _ _ => false) blackScreen (quality s.mode)).1 =
      .ok (frameTypeScreenDelta, [0, 2, 0, 1, 0])) :
    ∃ e', sentFrame (fun img _ => blackJPEG img) s blackTick =
      some (blackScreen, frameTypeScreenDelta, [0, 2, 0, 1, 0], e') := by
  refine ⟨(s.delta.encode (jpegEncode (fun img _ => blackJPEG img) fun _ _ => false) blackScreen (quality s.mode)).2, ?_⟩
  rw [blackTick, sentFrame, if_pos ⟨hmode, hconn, rfl⟩]
  dsimp only
  rw [hr]

/-- The screen stays black: the second frame is a delta that lists nothing, and the receiver has both blocks. -/
theorem baseHeld_black :
    (∃ e', sentFrame (fun img _ => blackJPEG img) (blackRun []) blackTick =
        some (blackScreen, frameTypeScreenDelta, [0, 2, 0, 1, 0], e')) ∧
      BaseHeld (fun img _ => blackJPEG img) (blackRun []) blackTick := by
  refine ⟨blackTick_sent (by decide +kernel) (by decide +kernel) (by decide +kernel), ?_⟩
  refine baseHeld (reached_endOf (allowed_true _ _) (by decide +kernel)) fun _ _ _ => ?_
  decide +kernel

/-- The same screen captured again after a reconnect: the delta reaches a receiver that has nothing. -/
theorem not_baseHeld_reconnect :
    ¬ ∀ (jpeg : Image → Int → List UInt8) (s : State) (e : Event),
      Reached (step jpeg) (fun _ _ => True) start s → BaseHeld jpeg s e := by
  intro h
  have hreach : Reached (step fun img _ => blackJPEG img) (fun _ _ => True) start (blackRun [.heartbeat true true]) :=
    reached_endOf (allowed_true _ _) (by decide +kernel)
  obtain ⟨e', hframe⟩ := @blackTick_sent (blackRun [.heartbeat true true]) (by decide +kernel) (by decide +kernel)
    (by decide +kernel)
  obtain ⟨_, pic, -, hpic, -⟩ := h _ _ _ hreach _ _ _ hframe 0 (by decide) (by unfold Listed; decide)
  have hnone : ((blackRun [.heartbeat true true]).receiver 0).isNone = true := by decide +kernel
  rw [hpic] at hnone
  exact nomatch hnone

end Black

end

end TimeChamp.Stream
