import TimeChamp.Lib.Runs

/-!
# The rotating log

`internal/logging/rotate.go` writes the log to one file and, when that is full, shifts it into three backups: the oldest is
removed and the others renamed, each without regard to whether the one before worked. A file is the list of its bytes, a
byte being known by its place in the stream of bytes written; what was there before may be any list.

* `Files`, `rotateFiles` : the four files and the shift; `Writer`, `write` : the writer;
* `Moves` : a rotation that makes a backup of a full log, with room for it; `Still` : one that touches no file;
* `held_step` : the files a byte can be in after a write;
* `keeps_of_guarded` : **a byte is deleted only once enough full logs have been moved after it**, if every rotation is one of
  the two.
-/

namespace TimeChamp.Logging
open Lib

/-! ## The source -/

/-- The log and its backups `.1`, `.2` and `.3`; `none` is a file that does not exist. -/
structure Files where
  cur : Option (List Nat)
  bak1 : Option (List Nat)
  bak2 : Option (List Nat)
  bak3 : Option (List Nat)
deriving DecidableEq

/-- The file at a level: the log, and then the backups. -/
def Files.at_ (f : Files) : Nat → Option (List Nat)
  | 0 => f.cur
  | 1 => f.bak1
  | 2 => f.bak2
  | 3 => f.bak3
  | _ => none

inductive OpenResult where
  | ok
  | openFailed
  | statFailed
deriving DecidableEq

/-- Which of the calls of a rotation the system lets through. -/
structure Outcome where
  remove3 : Bool
  rename23 : Bool
  rename12 : Bool
  rename01 : Bool
  open_ : OpenResult
deriving DecidableEq

/-- `os.Rename`, which replaces its target and needs its source: the source and the target after it. -/
def rename (ok : Bool) (src dst : Option (List Nat)) : Option (List Nat) × Option (List Nat) :=
  if ok = true ∧ src.isSome = true then (none, src) else (src, dst)

/-- `os.Remove`. -/
def remove (ok : Bool) (file : Option (List Nat)) : Option (List Nat) := if ok then none else file

/-- The shift of `rotate`. -/
def rotateFiles (o : Outcome) (f : Files) : Files :=
  let bak3 := remove o.remove3 f.bak3
  let r23 := rename o.rename23 f.bak2 bak3
  let r12 := rename o.rename12 f.bak1 r23.1
  let r01 := rename o.rename01 f.cur r12.1
  ⟨r01.1, r01.2, r12.2, r23.2⟩

/-- `isOpen` says whether `w.file` can still be written to; `written` counts the bytes written so far. -/
structure Writer where
  maxSize : Int
  files : Files
  isOpen : Bool
  size : Int
  written : Nat
deriving DecidableEq

/-- `open`, after the file was closed. Only a successful one sets the file and the size. -/
def Writer.open_ (w : Writer) (r : OpenResult) : Writer :=
  match r with
  | .openFailed => { w with isOpen := false }
  | .statFailed => { w with files := { w.files with cur := some (w.files.cur.getD []) }, isOpen := false }
  | .ok =>
    let cur := w.files.cur.getD []
    { w with files := { w.files with cur := some cur }, isOpen := true, size := cur.length }

/-- `rotate`. -/
def Writer.rotate (w : Writer) (o : Outcome) : Writer := Writer.open_ { w with files := rotateFiles o w.files } o.open_

/-- `w.file.Write` of a buffer of which the system takes `n` bytes; it takes none of a closed file. -/
def Writer.append (w : Writer) (n : Nat) : Writer :=
  if w.isOpen then
    { w with
      files := { w.files with cur := w.files.cur.map (· ++ List.range' w.written n) }
      size := w.size + n
      written := w.written + n }
  else w

/-- `Write`. -/
def Writer.write (w : Writer) (n : Nat) (o : Outcome) : Writer :=
  let w := w.append n
  if w.size ≥ w.maxSize then w.rotate o else w

/-- `NewRotatingWriter`, on whatever files there are. -/
def newRotatingWriter (maxBytes : Int) (files : Files) : Writer :=
  let cur := files.cur.getD []
  ⟨maxBytes, { files with cur := some cur }, true, cur.length, 0⟩

/-! ## Which bytes are kept -/

/-- A write, with the number of bytes that the system takes and what it makes of a rotation. -/
structure LogEvent where
  n : Nat
  outcome : Outcome
deriving DecidableEq

def logStep (e : LogEvent) (w : Writer) : Option Writer := some (w.write e.n e.outcome)

/-- The write rotates. -/
def Rotates (w : Writer) (e : LogEvent) : Prop := (w.append e.n).size ≥ w.maxSize

/-- The rotation moves a full log to `.1`. -/
def MovesFull (w : Writer) (e : LogEvent) : Prop :=
  Rotates w e ∧ e.outcome.rename01 = true ∧ ∃ cur, (w.append e.n).files.cur = some cur ∧ w.maxSize ≤ cur.length

instance (w : Writer) (e : LogEvent) : Decidable (Rotates w e) := inferInstanceAs (Decidable (_ ≥ _))

instance (w : Writer) (e : LogEvent) : Decidable (MovesFull w e) :=
  decidable_of_iff (Rotates w e ∧ e.outcome.rename01 = true ∧
    ∃ cur ∈ (w.append e.n).files.cur.toList, w.maxSize ≤ cur.length) (by simp [MovesFull])

/-- How many writes move a full log to `.1`. -/
def fullMoves (w : Writer) : List LogEvent → Nat
  | [] => 0
  | e :: es => (if MovesFull w e then 1 else 0) + fullMoves (w.write e.n e.outcome) es

/-- The byte is in the file at that level. -/
def Held (w : Writer) (level b : Nat) : Prop := ∃ bytes, w.files.at_ level = some bytes ∧ b ∈ bytes

def Deleted (w : Writer) (b : Nat) : Prop := ∀ level, ¬ Held w level b

/-- **What is said of a run**: from any point of it on, a byte held at a level is deleted only after as many moves of a full
log as take it from there past `.3`. -/
def Keeps (w : Writer) (es : List LogEvent) : Prop :=
  ∀ pre later, pre ++ later <+: es → ∀ s t, play logStep w pre = some s → play logStep s later = some t →
    ∀ level b, Held s level b → Deleted t b → 4 ≤ level + fullMoves s later

/-! ## Rotations that lose nothing early -/

/-- A full log becomes `.1`, and what it replaces has been moved on before. -/
def Moves (w : Writer) (e : LogEvent) : Prop :=
  MovesFull w e ∧ (w.files.bak1 = none ∨ e.outcome.rename12 = true) ∧
    (w.files.bak2 = none ∨ e.outcome.rename23 = true ∨ w.files.bak1 = none)

/-- No call of the rotation does anything to a file. -/
def Still (w : Writer) (e : LogEvent) : Prop :=
  (e.outcome.remove3 = false ∨ w.files.bak3 = none) ∧ (e.outcome.rename23 = false ∨ w.files.bak2 = none) ∧
    (e.outcome.rename12 = false ∨ w.files.bak1 = none) ∧ (e.outcome.rename01 = false ∨ w.files.cur = none)

def Guarded (w : Writer) (e : LogEvent) : Prop := Rotates w e → Moves w e ∨ Still w e

instance (w : Writer) (e : LogEvent) : Decidable (Guarded w e) :=
  inferInstanceAs (Decidable (_ → _ ∧ _ ∨ _ ∧ _))

section Rename
variable {src dst : Option (List Nat)}

theorem rename_some {ok : Bool} (hok : ok = true) {bytes : List Nat} (h : src = some bytes) :
    rename ok src dst = (none, some bytes) := by
  unfold rename
  rw [h, if_pos ⟨hok, rfl⟩]

theorem rename_idle {ok : Bool} (h : ok = false ∨ src = none) : rename ok src dst = (src, dst) := by
  unfold rename
  rw [if_neg]
  rintro ⟨hok, hsome⟩
  rcases h with h | h
  · exact Bool.noConfusion (h.symm.trans hok)
  · rw [h] at hsome
    exact Bool.noConfusion hsome

end Rename

section Shift
variable {o : Outcome} {f : Files}

/-- A move takes each of the first three files to the next level, or leaves `.2` where it is. -/
theorem at_rotateFiles_moves (h01 : o.rename01 = true) (h12 : f.bak1 = none ∨ o.rename12 = true)
    (h23 : f.bak2 = none ∨ o.rename23 = true ∨ f.bak1 = none) {level : Nat} (hlevel : level < 3) {bytes : List Nat}
    (h : f.at_ level = some bytes) : ∃ level' ≤ level + 1, (rotateFiles o f).at_ level' = some bytes := by
  match level, h with
  | 0, h =>
      have h : f.cur = some bytes := h
      refine ⟨1, le_rfl, ?_⟩
      show (rename o.rename01 f.cur _).2 = some bytes
      rw [rename_some h01 h]
  | 1, h =>
      have h : f.bak1 = some bytes := h
      have hmove : o.rename12 = true := h12.resolve_left fun hnone => Option.some_ne_none _ (h.symm.trans hnone)
      refine ⟨2, le_rfl, ?_⟩
      show (rename o.rename12 f.bak1 _).2 = some bytes
      rw [rename_some hmove h]
  | 2, h =>
      have h : f.bak2 = some bytes := h
      rcases h23 with hnone | hmove | hnone
      · exact absurd (h.symm.trans hnone) (Option.some_ne_none _)
      · refine ⟨3, le_rfl, ?_⟩
        show (rename o.rename23 f.bak2 _).2 = some bytes
        rw [rename_some hmove h]
      · -- there is no `.1` to replace it
        by_cases hmove : o.rename23 = true
        · refine ⟨3, le_rfl, ?_⟩
          show (rename o.rename23 f.bak2 _).2 = some bytes
          rw [rename_some hmove h]
        · refine ⟨2, by omega, ?_⟩
          show (rename o.rename12 f.bak1 (rename o.rename23 f.bak2 _).1).2 = some bytes
          rw [rename_idle (Or.inr hnone), rename_idle (Or.inl (Bool.not_eq_true _ ▸ hmove))]
          exact h

theorem rotateFiles_still (h3 : o.remove3 = false ∨ f.bak3 = none) (h23 : o.rename23 = false ∨ f.bak2 = none)
    (h12 : o.rename12 = false ∨ f.bak1 = none) (h01 : o.rename01 = false ∨ f.cur = none) : rotateFiles o f = f := by
  have hremove : remove o.remove3 f.bak3 = f.bak3 := by
    unfold remove
    split_ifs with hr
    · exact (h3.resolve_left fun h => Bool.noConfusion (h.symm.trans hr)).symm
    · rfl
  unfold rotateFiles
  rw [hremove]
  dsimp only
  rw [rename_idle h23]
  dsimp only
  rw [rename_idle h12]
  dsimp only
  rw [rename_idle h01]

end Shift

/-! ## One write -/

section Write
variable {w : Writer} {level b : Nat}

theorem held_append (h : Held w level b) (n : Nat) : Held (w.append n) level b := by
  obtain ⟨bytes, hat, hb⟩ := h
  unfold Writer.append
  split_ifs
  · match level, hat with
    | 0, hat =>
        refine ⟨bytes ++ List.range' w.written n, ?_, List.mem_append_left _ hb⟩
        show w.files.cur.map _ = _
        rw [show w.files.cur = some bytes from hat]
        rfl
    | 1, hat => exact ⟨bytes, hat, hb⟩
    | 2, hat => exact ⟨bytes, hat, hb⟩
    | 3, hat => exact ⟨bytes, hat, hb⟩
  · exact ⟨bytes, hat, hb⟩

theorem append_backups (w : Writer) (n : Nat) :
    (w.append n).files.bak1 = w.files.bak1 ∧ (w.append n).files.bak2 = w.files.bak2 ∧
      (w.append n).files.bak3 = w.files.bak3 := by
  unfold Writer.append
  split_ifs
  · exact ⟨rfl, rfl, rfl⟩
  · exact ⟨rfl, rfl, rfl⟩

theorem append_cur_none (n : Nat) (h : w.files.cur = none) : (w.append n).files.cur = none := by
  unfold Writer.append
  split_ifs
  · show w.files.cur.map _ = none
    rw [h]
    rfl
  · exact h

theorem append_maxSize (w : Writer) (n : Nat) : (w.append n).maxSize = w.maxSize := by
  unfold Writer.append
  split_ifs <;> rfl

/-- A file once there stays there when the log is opened; at most an empty one is created. -/
theorem held_open (h : Held w level b) (r : OpenResult) : Held (w.open_ r) level b := by
  obtain ⟨bytes, hat, hb⟩ := h
  have hcur : level = 0 → some (w.files.cur.getD []) = some bytes := by
    rintro rfl
    rw [show w.files.cur = some bytes from hat]
    rfl
  unfold Writer.open_
  cases r with
  | openFailed => exact ⟨bytes, hat, hb⟩
  | ok =>
      match level, hat, hcur with
      | 0, _, hcur => exact ⟨bytes, hcur rfl, hb⟩
      | 1, hat, _ => exact ⟨bytes, hat, hb⟩
      | 2, hat, _ => exact ⟨bytes, hat, hb⟩
      | 3, hat, _ => exact ⟨bytes, hat, hb⟩
  | statFailed =>
      match level, hat, hcur with
      | 0, _, hcur => exact ⟨bytes, hcur rfl, hb⟩
      | 1, hat, _ => exact ⟨bytes, hat, hb⟩
      | 2, hat, _ => exact ⟨bytes, hat, hb⟩
      | 3, hat, _ => exact ⟨bytes, hat, hb⟩

theorem level_lt (h : Held w level b) : level < 4 := by
  obtain ⟨bytes, hat, -⟩ := h
  match level, hat with
  | 0, _ => decide
  | 1, _ => decide
  | 2, _ => decide
  | 3, _ => decide

/-- **Where a byte can be after a write**: at most one level on, and that only if a full log was moved. -/
theorem held_step {e : LogEvent} (hG : Guarded w e) (h : Held w level b) :
    4 ≤ level + (if MovesFull w e then 1 else 0) ∨
      ∃ level' ≤ level + (if MovesFull w e then 1 else 0), Held (w.write e.n e.outcome) level' b := by
  have happ := held_append h e.n
  obtain ⟨h1, h2, h3⟩ := append_backups w e.n
  unfold Writer.write
  dsimp only
  by_cases hrot : Rotates w e
  · have hge : (w.append e.n).size ≥ (w.append e.n).maxSize := by
      rw [append_maxSize]
      exact hrot
    rw [if_pos hge]
    unfold Writer.rotate
    obtain ⟨bytes, hat, hb⟩ := happ
    rcases hG hrot with ⟨hfull, h12, h23⟩ | ⟨hr3, hr23, hr12, hr01⟩
    · rw [if_pos hfull]
      obtain ⟨-, h01, -⟩ := hfull
      have hlt := level_lt h
      by_cases hlast : level = 3
      · left
        omega
      · right
        obtain ⟨level', hle, hat'⟩ := at_rotateFiles_moves h01 (f := (w.append e.n).files) (by rw [h1]; exact h12)
          (by rw [h1, h2]; exact h23) (by omega) hat
        exact ⟨level', hle, held_open ⟨bytes, hat', hb⟩ _⟩
    · right
      have hstill := rotateFiles_still (f := (w.append e.n).files) (by rw [h3]; exact hr3) (by rw [h2]; exact hr23)
        (by rw [h1]; exact hr12) (hr01.imp id (append_cur_none e.n))
      refine ⟨level, Nat.le_add_right _ _, held_open ⟨bytes, ?_, hb⟩ _⟩
      show (rotateFiles e.outcome (w.append e.n).files).at_ level = some bytes
      rw [hstill]
      exact hat
  · have hlt : ¬ (w.append e.n).size ≥ (w.append e.n).maxSize := by
      rw [append_maxSize]
      exact hrot
    rw [if_neg hlt]
    exact Or.inr ⟨level, Nat.le_add_right _ _, happ⟩

end Write

/-! ## Every run -/

theorem held_play {w t : Writer} {es : List LogEvent} (hG : Allowed logStep Guarded w es) (h : play logStep w es = some t)
    {level b : Nat} (hheld : Held w level b) :
    4 ≤ level + fullMoves w es ∨ ∃ level' ≤ level + fullMoves w es, Held t level' b := by
  induction es generalizing w level with
  | nil =>
      cases h
      exact Or.inr ⟨level, le_rfl, hheld⟩
  | cons e es ih =>
      unfold fullMoves
      rcases held_step hG.1 hheld with hdone | ⟨level', hle, hheld'⟩
      · left
        omega
      · rcases ih (hG.2 _ rfl) h hheld' with hdone | ⟨level'', hle', hheld''⟩
        · left
          omega
        · exact Or.inr ⟨level'', by omega, hheld''⟩

/-- **The log is kept** in every run whose rotations each move a full log on, with what was before it, or touch no file. -/
theorem keeps_of_guarded (maxBytes : Int) (files : Files) (es : List LogEvent)
    (h : Allowed logStep Guarded (newRotatingWriter maxBytes files) es) : Keeps (newRotatingWriter maxBytes files) es := by
  rintro pre later ⟨rest, rfl⟩ s t hs ht level b hheld hdeleted
  have hlater : Allowed logStep Guarded s later := by
    rw [List.append_assoc] at h
    exact (h.rest hs).of_append
  rcases held_play hlater ht hheld with hdone | ⟨level', -, hheld'⟩
  · exact hdone
  · exact absurd hheld' (hdeleted level')

/-- Every call works. -/
def works : Outcome := ⟨true, true, true, true, .ok⟩

/-- Another process holds the log open: it cannot be renamed, and everything else works. -/
def locked : Outcome := ⟨true, true, true, false, .ok⟩

/-- No call works. -/
def readOnly : Outcome := ⟨false, false, false, false, .openFailed⟩

/-- Five full logs, the third of them after two writes that found the directory read-only. -/
def fiveLogs : List LogEvent :=
  [⟨2, works⟩, ⟨2, works⟩, ⟨2, readOnly⟩, ⟨1, readOnly⟩, ⟨1, works⟩, ⟨2, works⟩, ⟨2, works⟩]

theorem keeps_fiveLogs : Keeps (newRotatingWriter 2 ⟨none, none, none, none⟩) fiveLogs :=
  keeps_of_guarded 2 ⟨none, none, none, none⟩ fiveLogs (by decide)

/-- A full log is moved; then the log is locked, and three more writes each rotate. -/
def lockedLog : List LogEvent := [⟨2, works⟩, ⟨2, locked⟩, ⟨1, locked⟩, ⟨1, locked⟩]

/-- The backup is gone, though no log was moved after it. -/
theorem not_keeps_lockedLog : ¬ Keeps (newRotatingWriter 2 ⟨none, none, none, none⟩) lockedLog := by
  intro h
  have hmoves := h [⟨2, works⟩] [⟨2, locked⟩, ⟨1, locked⟩, ⟨1, locked⟩] (List.prefix_refl _) _ _ rfl rfl 1 0
    ⟨[0, 1], by decide, by decide⟩ ?_
  · exact absurd hmoves (by decide)
  · rintro level ⟨bytes, hat, hb⟩
    match level, hat with
    | 0, hat =>
        have hcur : some [2, 3, 4, 5] = some bytes := hat
        rw [← Option.some.inj hcur] at hb
        exact absurd hb (by decide)
    | 1, hat => exact nomatch hat
    | 2, hat => exact nomatch hat
    | 3, hat => exact nomatch hat

end TimeChamp.Logging
