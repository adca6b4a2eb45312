import TimeChamp.Agent.IdleTick
import Mathlib.Tactic.Linarith

/-!
# The idle time

`idleSeconds` on Windows (`internal/capture/idle_windows.go`) subtracts the tick of the last input, of which the system
reports 32 bits, from the 64-bit uptime, and caps the difference at a day; `IdleSeconds` and `ResetIdleBaseline`
(`internal/capture/idle.go`) take the time asleep off it.

* `diffMs_toNat` : both branches compute the difference modulo `2 ^ 32`;
* `Reported` : the value kept for the next cap is at most a day, and so is what is returned;
* `idleSeconds_exact` : **the idle time is exact up to a day, and never reported above one**;
* `inRange_readings` : the readings the idle tick gets fit 32 bits.
-/

namespace TimeChamp.Capture

/-! ## The source -/

def maxReasonableIdleMs : UInt64 := 24 * 60 * 60 * 1000

/-- `applyIdleCap`, of the last plausible reading; also what is kept as that. -/
def applyIdleCap (diffMs : UInt64) (lastKnownIdleSec : UInt32) : Int × UInt32 :=
  if diffMs > maxReasonableIdleMs then
    (lastKnownIdleSec.toNat, lastKnownIdleSec)
  else
    let secs := (diffMs / 1000).toUInt32
    (secs.toNat, secs)

/-- What the two calls to the system return: the 64-bit uptime, and the tick of the last input or an error. -/
structure Sample where
  tickCount64 : UInt64
  lastInput : Except String UInt32

/-- The milliseconds since the last input. -/
def diffMs (tickCount64 : UInt64) (dwTime : UInt32) : UInt64 :=
  let tickLower32 := (tickCount64 &&& 0xFFFFFFFF).toUInt32
  if tickLower32 ≥ dwTime then
    (tickLower32 - dwTime).toUInt64
  else
    -- the counter rolled over since the last input
    (0x100000000 - dwTime.toUInt64) + tickLower32.toUInt64

/-- `idleSeconds`: the value and the error it returns, and the last plausible reading it leaves. -/
def idleSeconds (s : Sample) (lastKnownIdleSec : UInt32) : (Int × Option String) × UInt32 :=
  match s.lastInput with
  | .error err => ((0, some ("GetLastInputInfo: " ++ err)), lastKnownIdleSec)
  | .ok dwTime =>
    let (secs, kept) := applyIdleCap (diffMs s.tickCount64 dwTime) lastKnownIdleSec
    ((secs, none), kept)

/-- What a sequence of samples returns, from a given last reading. -/
def idleRun (lastKnownIdleSec : UInt32) : List Sample → List (Int × Option String)
  | [] => []
  | s :: ss =>
    let (result, kept) := idleSeconds s lastKnownIdleSec
    result :: idleRun kept ss

/-! ## The difference -/

theorem tickLower32_toNat (t : UInt64) : (t &&& 0xFFFFFFFF).toUInt32.toNat = t.toNat % 2 ^ 32 := by
  rw [UInt64.toNat_toUInt32, UInt64.toNat_and, show (0xFFFFFFFF : UInt64).toNat = 2 ^ 32 - 1 by decide,
    Nat.and_two_pow_sub_one_eq_mod, Nat.mod_mod]

theorem diffMs_toNat (t : UInt64) (d : UInt32) : (diffMs t d).toNat = (t.toNat % 2 ^ 32 + 2 ^ 32 - d.toNat) % 2 ^ 32 := by
  have hd := d.toNat_lt
  have ht := tickLower32_toNat t
  unfold diffMs
  dsimp only
  by_cases h : (t &&& 0xFFFFFFFF).toUInt32 ≥ d
  · rw [if_pos h, UInt32.toNat_toUInt64, UInt32.toNat_sub_of_le _ _ h, ht]
    have hle := UInt32.le_iff_toNat_le.mp h
    rw [ht] at hle
    omega
  · have hlt : t.toNat % 2 ^ 32 < d.toNat := by
      rw [← ht]
      exact UInt32.lt_iff_toNat_lt.mp (UInt32.not_le.mp h)
    have hsub : (0x100000000 - d.toUInt64).toNat = 2 ^ 32 - d.toNat := by
      rw [UInt64.toNat_sub_of_le, UInt32.toNat_toUInt64]
      · rfl
      · rw [UInt64.le_iff_toNat_le, UInt32.toNat_toUInt64]
        exact hd.le
    rw [if_neg h, UInt64.toNat_add, hsub, UInt32.toNat_toUInt64, ht]
    omega

/-- A tick of which the low 32 bits are reported. -/
def lowBits (n : Nat) : UInt32 := UInt32.ofNat n

/-- Across every position of the wrap. -/
theorem diffMs_lowBits {n l : Nat} (hn : n < 2 ^ 64) (hle : l ≤ n) (h : n - l < 2 ^ 32) :
    (diffMs (UInt64.ofNat n) (lowBits l)).toNat = n - l := by
  rw [diffMs_toNat, lowBits, UInt32.toNat_ofNat', UInt64.toNat_ofNat', Nat.mod_eq_of_lt hn]
  omega

/-! ## The cap -/

theorem applyIdleCap_le {d : UInt64} (h : d.toNat ≤ 86400000) (kept : UInt32) :
    applyIdleCap d kept = (((d.toNat / 1000 : Nat) : Int), UInt32.ofNat (d.toNat / 1000)) := by
  have hcap : ¬ d > maxReasonableIdleMs := by
    show ¬ maxReasonableIdleMs < d
    rw [UInt64.lt_iff_toNat_lt, show maxReasonableIdleMs.toNat = 86400000 by decide]
    omega
  have hdiv : (d / 1000).toUInt32 = UInt32.ofNat (d.toNat / 1000) := by
    apply UInt32.toNat_inj.mp
    rw [UInt64.toNat_toUInt32, UInt64.toNat_div, UInt32.toNat_ofNat']
    rfl
  unfold applyIdleCap
  rw [if_neg hcap, hdiv]
  simp only [UInt32.toNat_ofNat', Prod.mk.injEq, and_true]
  rw [Nat.mod_eq_of_lt (by omega)]

theorem applyIdleCap_gt {d : UInt64} (h : 86400000 < d.toNat) (kept : UInt32) : applyIdleCap d kept = ((kept.toNat : Int), kept) := by
  unfold applyIdleCap
  rw [if_pos]
  show maxReasonableIdleMs < d
  rw [UInt64.lt_iff_toNat_lt]
  exact h

/-- At most a day, for a result and for what is kept with it. -/
structure Reported (result : (Int × Option String) × UInt32) : Prop where
  nonneg : 0 ≤ result.1.1
  le : result.1.1 ≤ 86400
  kept : result.2.toNat ≤ 86400

theorem reported_idleSeconds (s : Sample) {kept : UInt32} (h : kept.toNat ≤ 86400) : Reported (idleSeconds s kept) := by
  unfold idleSeconds
  cases s.lastInput with
  | error err =>
      have hday : (0 : Int) ≤ 86400 := by decide
      exact ⟨le_rfl, hday, h⟩
  | ok d =>
      rcases Nat.lt_or_ge 86400000 (diffMs s.tickCount64 d).toNat with hd | hd
      · dsimp only
        rw [applyIdleCap_gt hd]
        exact ⟨Int.natCast_nonneg _, Int.ofNat_le.mpr h, h⟩
      · dsimp only
        rw [applyIdleCap_le hd]
        have hsecs : (diffMs s.tickCount64 d).toNat / 1000 ≤ 86400 := by omega
        refine ⟨Int.natCast_nonneg _, Int.ofNat_le.mpr hsecs, ?_⟩
        rw [UInt32.toNat_ofNat']
        exact (Nat.mod_le _ _).trans hsecs

theorem le_idleRun {kept : UInt32} (h : kept.toNat ≤ 86400) (ss : List Sample) : ∀ r ∈ idleRun kept ss, r.1 ≤ 86400 := by
  induction ss generalizing kept with
  | nil => simp [idleRun]
  | cons s ss ih =>
      have hs := reported_idleSeconds s h
      unfold idleRun
      exact List.forall_mem_cons.mpr ⟨hs.le, ih hs.kept⟩

/-- **The idle time.** While the user has been idle for at most a day, `idleSeconds` returns the whole seconds of it,
wherever the 32-bit tick of the last input stands; and no sequence of samples makes it return more than a day. -/
theorem idleSeconds_exact :
    (∀ (n l : Nat) (kept : UInt32), n < 2 ^ 64 → l ≤ n → n - l ≤ 24 * 60 * 60 * 1000 →
      (idleSeconds ⟨UInt64.ofNat n, .ok (lowBits l)⟩ kept).1 = ((((n - l) / 1000 : Nat) : Int), none)) ∧
    ∀ (ss : List Sample), ∀ r ∈ idleRun 0 ss, r.1 ≤ 86400 := by
  constructor
  · intro n l kept hn hle hday
    have hdiff := diffMs_lowBits hn hle (by omega)
    unfold idleSeconds
    dsimp only
    rw [applyIdleCap_le (by rw [hdiff]; exact hday), hdiff]
  · intro ss
    exact le_idleRun (Nat.zero_le _) ss

/-! ## The time asleep -/

/-- The last plausible reading, and the reading at the last wake; 0 when there is none. -/
structure IdleBase where
  lastKnownIdleSec : UInt32
  idleBaselineOffset : Int

def idleBaseStart : IdleBase := ⟨0, 0⟩

/-- `ResetIdleBaseline`. -/
def resetIdleBaseline (b : IdleBase) (s : Sample) : IdleBase :=
  match idleSeconds s b.lastKnownIdleSec with
  | ((_, some _), kept) => { b with lastKnownIdleSec := kept }
  | ((raw, none), kept) => ⟨kept, raw⟩

/-- `IdleSeconds`: the value and the error it returns. -/
def idleReading (b : IdleBase) (s : Sample) : (Int × Option String) × IdleBase :=
  match idleSeconds s b.lastKnownIdleSec with
  | ((_, some err), kept) => ((0, some err), { b with lastKnownIdleSec := kept })
  | ((raw, none), kept) =>
    if b.idleBaselineOffset = 0 then
      ((raw, none), { b with lastKnownIdleSec := kept })
    else if raw - b.idleBaselineOffset < 0 then
      -- active since the wake
      ((0, none), ⟨kept, 0⟩)
    else
      ((raw - b.idleBaselineOffset, none), { b with lastKnownIdleSec := kept })

/-- Both are readings of at most a day. -/
def IdleBase.Plausible (b : IdleBase) : Prop := b.lastKnownIdleSec.toNat ≤ 86400 ∧ 0 ≤ b.idleBaselineOffset

theorem plausible_start : idleBaseStart.Plausible := ⟨Nat.zero_le _, le_rfl⟩

theorem plausible_reset {b : IdleBase} (h : b.Plausible) (s : Sample) : (resetIdleBaseline b s).Plausible := by
  have hs := reported_idleSeconds s h.1
  unfold resetIdleBaseline
  split
  next heq =>
    rw [heq] at hs
    exact ⟨hs.kept, h.2⟩
  next heq =>
    rw [heq] at hs
    exact ⟨hs.kept, hs.nonneg⟩

theorem plausible_reading {b : IdleBase} (h : b.Plausible) (s : Sample) : (idleReading b s).2.Plausible := by
  have hs := reported_idleSeconds s h.1
  unfold idleReading
  split
  next heq =>
    rw [heq] at hs
    exact ⟨hs.kept, h.2⟩
  next heq =>
    rw [heq] at hs
    split_ifs
    · exact ⟨hs.kept, h.2⟩
    · exact ⟨hs.kept, le_rfl⟩
    · exact ⟨hs.kept, h.2⟩

theorem inRange_idleReading {b : IdleBase} (h : b.Plausible) (s : Sample) : Agent.IdleTick.InRange (idleReading b s).1.1 := by
  have hs := reported_idleSeconds s h.1
  have hpos := h.2
  unfold idleReading Agent.IdleTick.InRange
  split
  next heq => exact ⟨le_rfl, show (0 : Int) < 2 ^ 32 by decide⟩
  next heq =>
    rw [heq] at hs
    have hle := hs.le
    have hnonneg := hs.nonneg
    dsimp only at hle hnonneg
    split_ifs <;> dsimp only <;> omega

/-- A wake of the system, or a tick that reads the idle time. -/
inductive IdleOp where
  | wake (s : Sample)
  | tick (s : Sample)

/-- What the ticks read. -/
def readings (b : IdleBase) : List IdleOp → List Int
  | [] => []
  | .wake s :: ops => readings (resetIdleBaseline b s) ops
  | .tick s :: ops => (idleReading b s).1.1 :: readings (idleReading b s).2 ops

theorem inRange_readings_of_plausible {b : IdleBase} (h : b.Plausible) (ops : List IdleOp) :
    ∀ r ∈ readings b ops, Agent.IdleTick.InRange r := by
  induction ops generalizing b with
  | nil => simp [readings]
  | cons op ops ih =>
      cases op with
      | wake s => exact ih (plausible_reset h s)
      | tick s => exact List.forall_mem_cons.mpr ⟨inRange_idleReading h s, ih (plausible_reading h s)⟩

/-- **The idle tick only gets readings that it can hold**, whatever the system reports and whenever it wakes. -/
theorem inRange_readings (ops : List IdleOp) : ∀ r ∈ readings idleBaseStart ops, Agent.IdleTick.InRange r :=
  inRange_readings_of_plausible plausible_start ops

end TimeChamp.Capture
