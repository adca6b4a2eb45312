import Mathlib.Algebra.Ring.Int.Defs
import TimeChamp.Lib.Floats
import TimeChamp.Lib.Ring
import TimeChamp.Lib.Runs

/-!
# The samples behind the metrics

`internal/capture/metrics_windows.go`: readings of the system, a ring of four samples, and the average that is stored.

* `MetricsCollector` : numbers of 64 bits as in Go; what an operation returns is `none` where it panics;
* `Metered` : a collector and the samples since its last average;
* `Tracks` : the counter is the number of these samples, and the ring holds the last of them;
* `averages_right_iff` : **every average is that of the last samples, with the agent's numbers of the newest one, exactly
  when the sum does not overflow and, beyond four samples, the last slot agrees with the newest sample.**
-/

namespace TimeChamp.Capture
open TimeChamp.Lib

/-- `SystemMetrics`. -/
structure SystemMetrics where
  cpuPercent : Double
  memUsedMB : UInt64
  memTotalMB : UInt64
  agentCPUPercent : Double
  agentMemMB : UInt64
deriving DecidableEq

def SystemMetrics.zero : SystemMetrics := ⟨.finite 0, 0, 0, .finite 0, 0⟩

/-- `MetricsCollector`. -/
structure MetricsCollector where
  lastIdle : Int64
  lastTotal : Int64
  lastValid : SystemMetrics
  samples : Vector SystemMetrics 4
  sampleN : Int64

def MetricsCollector.new : MetricsCollector := ⟨0, 0, .zero, Vector.replicate 4 .zero, 0⟩

/-- `systemProcessorPerfInfo`. -/
structure SystemProcessorPerfInfo where
  idleTime : Int64
  kernelTime : Int64
  userTime : Int64

/-- What the system answers; no `processors` where `NtQuerySystemInformation` fails. -/
structure Readings where
  ullTotalPhys : UInt64
  ullAvailPhys : UInt64
  processors : Option (List SystemProcessorPerfInfo)
  workingSetSize : UInt64

/-- `collect`. -/
def MetricsCollector.collect (c : MetricsCollector) (r : Readings) : SystemMetrics × MetricsCollector :=
  match r.processors with
  | none => (c.lastValid, c)
  | some buf =>
    let totalIdle := buf.foldl (fun sum info => sum + info.idleTime) 0
    let totalKernel := buf.foldl (fun sum info => sum + info.kernelTime) 0
    let totalUser := buf.foldl (fun sum info => sum + info.userTime) 0
    let totalActive := totalKernel + totalUser
    let deltaTotal := totalActive - c.lastTotal
    let deltaIdle := totalIdle - c.lastIdle
    let m : SystemMetrics :=
      { cpuPercent :=
          if 0 < c.lastTotal ∧ 0 < deltaTotal then
            ((Double.ofRat (deltaTotal - deltaIdle).toInt).div (roundBits 53 (deltaTotal.toInt : ℚ))).mul (.finite 100)
          else .finite 0
        memUsedMB := (r.ullTotalPhys - r.ullAvailPhys) / (1024 * 1024)
        memTotalMB := r.ullTotalPhys / (1024 * 1024)
        agentCPUPercent := .finite 0
        agentMemMB := r.workingSetSize / (1024 * 1024) }
    (m, { c with lastIdle := totalIdle, lastTotal := totalActive, lastValid := m })

/-- The slot of an index, if it is in range. -/
def slot (i : Int64) : Option (Fin 4) := if 0 ≤ i ∧ i < 4 then some (Fin.ofNat 4 i.toNatClampNeg) else none

/-- `AddSample`. -/
def MetricsCollector.addSample (c : MetricsCollector) (m : SystemMetrics) : Option MetricsCollector :=
  (slot (c.sampleN % 4)).map fun i => { c with samples := c.samples.set i.val m i.isLt, sampleN := c.sampleN + 1 }

/-- The mean of the first `n` samples, and the agent's numbers of one of them. -/
def MetricsCollector.mean (c : MetricsCollector) (n : Int64) (newest : Fin 4) : SystemMetrics :=
  let buffered := c.samples.toList.take n.toNatClampNeg
  let cpuSum := buffered.foldl (fun sum m => Double.add sum m.cpuPercent) (.finite 0)
  let memSum := buffered.foldl (fun sum m => sum + m.memUsedMB) 0
  { cpuPercent := cpuSum.div n.toInt
    memUsedMB := memSum / n.toUInt64
    memTotalMB := c.samples[0].memTotalMB
    agentCPUPercent := c.samples[newest].agentCPUPercent
    agentMemMB := c.samples[newest].agentMemMB }

/-- `Average`. -/
def MetricsCollector.average (c : MetricsCollector) : Option (SystemMetrics × MetricsCollector) :=
  if c.sampleN = 0 then some (c.lastValid, c)
  else
    let n := if 4 < c.sampleN then 4 else c.sampleN
    (slot (n - 1)).map fun newest =>
      let avg := c.mean n newest
      (avg, { c with sampleN := 0, lastValid := avg })

/-- A collector, and the samples added since its last average, oldest first. -/
structure Metered where
  collector : MetricsCollector
  since : List SystemMetrics

inductive Metered.Event where
  | addSample (m : SystemMetrics)
  | average
  | collect (r : Readings)

def Metered.start : Metered := ⟨.new, []⟩

def Metered.step : Metered.Event → Metered → Option Metered
  | .addSample m, s => (s.collector.addSample m).map fun c => ⟨c, s.since ++ [m]⟩
  | .average, s => s.collector.average.map fun r => ⟨r.2, []⟩
  | .collect r, s => some ⟨(s.collector.collect r).2, s.since⟩

/-- The mean of the memory in use over some samples, in whole MiB. -/
def meanMemUsed (ms : List SystemMetrics) : Nat := (ms.map fun m => m.memUsedMB.toNat).sum / ms.length

/-- The average returns what it should. -/
def Metered.Right (s : Metered) : Metered.Event → Prop
  | .average => s.since ≠ [] → ∃ avg c, s.collector.average = some (avg, c) ∧
      avg.memUsedMB.toNat = meanMemUsed (Ring.recent 4 s.since) ∧
      ∀ newest ∈ s.since.getLast?, avg.agentMemMB = newest.agentMemMB ∧ avg.agentCPUPercent = newest.agentCPUPercent
  | _ => True

/-- The sum does not overflow, and the last slot in use agrees with the newest sample. -/
def Metered.Guarded (s : Metered) : Metered.Event → Prop
  | .average => s.since ≠ [] → s.since.length < 2 ^ 63 ∧
      ((Ring.recent 4 s.since).map fun m => m.memUsedMB.toNat).sum < 2 ^ 64 ∧
      (4 < s.since.length → ∀ m ∈ s.since[4 * (s.since.length / 4) - 1]?, ∀ newest ∈ s.since.getLast?,
        m.agentMemMB = newest.agentMemMB ∧ m.agentCPUPercent = newest.agentCPUPercent)
  | _ => True

/-! ## Indices -/

theorem slot_cond (i : Int64) : (0 ≤ i ∧ i < 4) ↔ 0 ≤ i.toInt ∧ i.toInt < 4 :=
  and_congr Int64.le_iff_toInt_le Int64.lt_iff_toInt_lt

theorem slot_of_lt {i : Int64} {k : Nat} (h : i.toInt = k) (hk : k < 4) : slot i = some (Fin.ofNat 4 k) := by
  unfold slot
  rw [if_pos ((slot_cond i).mpr (by omega)), ← Int64.toNat_toInt, h, Int.toNat_natCast]

theorem slot_of_not {i : Int64} (h : i.toInt < 0 ∨ 4 ≤ i.toInt) : slot i = none := by
  unfold slot
  apply if_neg
  rw [slot_cond]
  omega

theorem bmod_of_lt {k : Nat} (hk : k < 2 ^ 63) : (k : Int).bmod (2 ^ 64) = k := by
  apply Int.bmod_eq_of_le <;> omega

/-! ## The ring and its counter -/

/-- The counter has taken up the samples since the last average, and so has the ring, until the counter is negative. -/
structure Tracks (s : Metered) : Prop where
  count : s.collector.sampleN.toInt = (s.since.length : Int).bmod (2 ^ 64)
  bound : s.since.length ≤ 2 ^ 63 + 1
  ring : s.since.length < 2 ^ 63 → Ring.Holds s.collector.samples.toList s.since

theorem Tracks.count_of_lt {s : Metered} (h : Tracks s) (hlt : s.since.length < 2 ^ 63) :
    s.collector.sampleN.toInt = s.since.length := by
  rw [h.count, bmod_of_lt hlt]

/-- Where an index is negative. -/
theorem Tracks.count_of_le {s : Metered} (h : Tracks s) (hle : 2 ^ 63 ≤ s.since.length) :
    s.collector.sampleN.toInt = s.since.length - 2 ^ 64 := by
  have hbound := h.bound
  rw [h.count, ← Int.sub_bmod_right]
  apply Int.bmod_eq_of_le <;> omega

theorem collect_ring (c : MetricsCollector) (r : Readings) :
    (c.collect r).2.samples = c.samples ∧ (c.collect r).2.sampleN = c.sampleN := by
  unfold MetricsCollector.collect
  cases r.processors with
  | none => exact ⟨rfl, rfl⟩
  | some buf => exact ⟨rfl, rfl⟩

theorem Tracks.zero {c : MetricsCollector} (h : c.sampleN = 0) : Tracks ⟨c, []⟩ where
  count := by
    show c.sampleN.toInt = ((0 : Nat) : Int).bmod (2 ^ 64)
    rw [h, Int64.toInt_zero, bmod_of_lt (Nat.two_pow_pos 63)]
    exact Nat.cast_zero.symm
  bound := Nat.zero_le _
  ring _ := Ring.Holds.nil _

theorem Tracks.of_average {c c' : MetricsCollector} {avg : SystemMetrics} (h : c.average = some (avg, c')) :
    Tracks ⟨c', []⟩ := by
  apply Tracks.zero
  unfold MetricsCollector.average at h
  split at h
  · rename_i hn
    obtain ⟨-, rfl⟩ := Prod.mk.inj (Option.some.inj h)
    exact hn
  · obtain ⟨newest, -, hr⟩ := Option.map_eq_some_iff.mp h
    obtain ⟨-, rfl⟩ := Prod.mk.inj hr
    rfl

theorem Tracks.addSample {s s' : Metered} {m : SystemMetrics} (h : Tracks s)
    (hs : Metered.step (.addSample m) s = some s') : Tracks s' := by
  obtain ⟨c, hc, rfl⟩ := Option.map_eq_some_iff.mp hs
  obtain ⟨i, hi, rfl⟩ := Option.map_eq_some_iff.mp hc
  have hmod : (s.collector.sampleN % 4).toInt = s.collector.sampleN.toInt.tmod 4 := Int64.toInt_mod _ _
  have hlen : (s.since ++ [m]).length = s.since.length + 1 := List.length_append
  have hcount : (s.collector.sampleN + 1).toInt = ((s.since ++ [m]).length : Int).bmod (2 ^ 64) := by
    rw [Int64.toInt_add, h.count, hlen, Nat.cast_add]
    exact Int.bmod_add_bmod ..
  by_cases hlt : s.since.length < 2 ^ 63
  · refine ⟨hcount, by rw [hlen]; omega, fun _ => ?_⟩
    have hin : i.val = s.since.length % 4 := by
      rw [h.count_of_lt hlt, Int.tmod_eq_emod_of_nonneg (Int.natCast_nonneg _)] at hmod
      have hslot := slot_of_lt (k := s.since.length % 4) (by rw [hmod]; omega) (Nat.mod_lt _ (by decide))
      obtain rfl := Option.some.inj (hi.symm.trans hslot)
      simp
    have hput := (h.ring hlt).put (by simp) m
    rw [Vector.length_toList] at hput
    show Ring.Holds (s.collector.samples.set i.val m i.isLt).toList (s.since ++ [m])
    rwa [Vector.toList_set, hin]
  · -- the counter is negative: one more sample goes to the first slot, and the next one panics
    have hneg := h.count_of_le (by omega)
    have hbound := h.bound
    have heq : s.since.length = 2 ^ 63 := by
      by_contra hne
      rw [hneg] at hmod
      have hout : (s.collector.sampleN % 4).toInt < 0 := by
        rw [hmod, show (s.since.length : Int) = 2 ^ 63 + 1 by omega]
        decide
      exact absurd hi (by rw [slot_of_not (Or.inl hout)]; simp)
    refine ⟨hcount, by rw [hlen]; omega, fun hbig => ?_⟩
    rw [hlen] at hbig
    omega

theorem Tracks.step {s s' : Metered} {e : Metered.Event} (h : Tracks s) (hs : Metered.step e s = some s') :
    Tracks s' := by
  cases e with
  | addSample m => exact h.addSample hs
  | average =>
      obtain ⟨r, hr, rfl⟩ := Option.map_eq_some_iff.mp hs
      exact Tracks.of_average hr
  | collect r =>
      obtain rfl := Option.some.inj hs
      obtain ⟨hsamples, hn⟩ := collect_ring s.collector r
      refine ⟨?_, h.bound, ?_⟩
      · show (s.collector.collect r).2.sampleN.toInt = _
        rw [hn]
        exact h.count
      · show _ → Ring.Holds (s.collector.collect r).2.samples.toList s.since
        rw [hsamples]
        exact h.ring

/-! ## The average -/

theorem toNat_foldl_memUsed (ms : List SystemMetrics) (a : UInt64) :
    (ms.foldl (fun sum m => sum + m.memUsedMB) a).toNat =
      (a.toNat + (ms.map fun m => m.memUsedMB.toNat).sum) % 2 ^ 64 := by
  induction ms generalizing a with
  | nil =>
      show a.toNat = (a.toNat + 0) % 2 ^ 64
      rw [Nat.add_zero, Nat.mod_eq_of_lt a.toNat_lt]
  | cons m ms ih =>
      rw [List.foldl_cons, ih, UInt64.toNat_add, List.map_cons, List.sum_cons, Nat.mod_add_mod, Nat.add_assoc]

theorem mod_div_eq_iff {t b n : Nat} (hpos : 0 < n) (hle : n ≤ b) : t % b / n = t / n ↔ t < b := by
  constructor
  · intro heq
    by_contra hge
    have hsplit := Nat.mod_add_div t b
    have hone : b ≤ b * (t / b) := Nat.le_mul_of_pos_right b (Nat.div_pos (by omega) (by omega))
    have hmore : (t % b + n) / n ≤ t / n := Nat.div_le_div_right (by omega)
    rw [Nat.add_div_right _ hpos] at hmore
    omega
  · intro hlt
    rw [Nat.mod_eq_of_lt hlt]

theorem toInt_cut {i : Int64} {k : Nat} (hk : i.toInt = k) : (if 4 < i then 4 else i).toInt = (min k 4 : Nat) := by
  have h4 : (4 : Int64).toInt = 4 := rfl
  split_ifs with hlt
  · rw [Int64.lt_iff_toInt_lt, h4, hk] at hlt
    rw [h4, Nat.min_eq_right (by omega)]
    rfl
  · rw [Int64.lt_iff_toInt_lt, h4, hk] at hlt
    rw [hk, Nat.min_eq_left (by omega)]

/-- The mean of the memory in use over the slots in use, whose sum may overflow. -/
theorem toNat_mean_memUsedMB (c : MetricsCollector) {n : Int64} {k : Nat} (hn : n.toInt = (min k 4 : Nat))
    (newest : Fin 4) : (c.mean n newest).memUsedMB.toNat =
      ((c.samples.toList.take k).map fun m => m.memUsedMB.toNat).sum % 2 ^ 64 / min k 4 := by
  have hclamp : n.toNatClampNeg = min k 4 := by rw [← Int64.toNat_toInt, hn, Int.toNat_natCast]
  have hunsigned : n.toUInt64.toNat = min k 4 := by
    rw [Int64.toNat_toUInt64_of_le, hclamp]
    rw [Int64.le_iff_toInt_le, hn, Int64.toInt_zero]
    omega
  have htake : c.samples.toList.take (min k 4) = c.samples.toList.take k := by
    rw [Nat.min_comm, ← List.take_take, List.take_of_length_le (by simp)]
  show (_ / n.toUInt64).toNat = _
  rw [UInt64.toNat_div, hunsigned, hclamp, htake, toNat_foldl_memUsed, UInt64.toNat_zero, Nat.zero_add]

/-- **What an average returns** after `k` samples, by the slots in use. -/
theorem average_of_pos {c : MetricsCollector} {k : Nat} (hk : c.sampleN.toInt = k) (hpos : 0 < k) :
    ∃ avg c' last, c.average = some (avg, c') ∧
      avg.memUsedMB.toNat =
        ((c.samples.toList.take k).map fun m => m.memUsedMB.toNat).sum % 2 ^ 64 / min k 4 ∧
      c.samples.toList[min k 4 - 1]? = some last ∧
      avg.agentMemMB = last.agentMemMB ∧ avg.agentCPUPercent = last.agentCPUPercent := by
  have hne : c.sampleN ≠ 0 := by
    intro h0
    rw [h0, Int64.toInt_zero] at hk
    omega
  obtain ⟨n, hn⟩ : ∃ n : Int64, (if 4 < c.sampleN then 4 else c.sampleN) = n := ⟨_, rfl⟩
  have hnint := toInt_cut hk
  rw [hn] at hnint
  have hindex : (n - 1).toInt = (min k 4 - 1 : Nat) := by
    have h1 : (1 : Int64).toInt = 1 := rfl
    rw [Int64.toInt_sub, hnint, h1, Int.bmod_eq_of_le] <;> omega
  obtain ⟨newest, hnewest⟩ : ∃ newest : Fin 4, newest = Fin.ofNat 4 (min k 4 - 1) := ⟨_, rfl⟩
  refine ⟨c.mean n newest, { c with sampleN := 0, lastValid := c.mean n newest }, c.samples[newest], ?_,
    toNat_mean_memUsedMB c hnint newest, ?_, rfl, rfl⟩
  · unfold MetricsCollector.average
    rw [if_neg hne]
    dsimp only
    rw [hn, slot_of_lt hindex (by omega), ← hnewest, Option.map_some]
  · have hlt : min k 4 - 1 < 4 := by omega
    rw [Vector.getElem?_toList, Vector.getElem?_eq_getElem hlt]
    have hval : newest.val = min k 4 - 1 := by rw [hnewest, Fin.val_ofNat, Nat.mod_eq_of_lt hlt]
    simp only [Fin.getElem_fin, hval]

/-- With a negative counter the last index is out of range. -/
theorem average_of_neg {c : MetricsCollector} (h : c.sampleN.toInt < 0) : c.average = none := by
  have h4 : (4 : Int64).toInt = 4 := rfl
  have h1 : (1 : Int64).toInt = 1 := rfl
  have hlow := Int64.le_toInt c.sampleN
  unfold MetricsCollector.average
  rw [if_neg (by rintro h0; rw [h0, Int64.toInt_zero] at h; omega),
    if_neg (by rw [Int64.lt_iff_toInt_lt, h4]; omega)]
  dsimp only
  rw [slot_of_not]
  · rfl
  · rw [Int64.toInt_sub, h1]
    by_cases hleast : c.sampleN.toInt = -2 ^ 63
    · rw [hleast]
      exact Or.inr (by decide)
    · rw [Int.bmod_eq_of_le (by omega) (by omega)]
      omega

/-! ## When an average is right -/

theorem length_recent (n : Nat) (ms : List SystemMetrics) : (Ring.recent n ms).length = min ms.length n := by
  unfold Ring.recent
  rw [List.length_drop]
  omega

section Slots
variable {slots ms : List SystemMetrics}

/-- The mean over the slots in use is that of the last samples exactly if the sum does not overflow. -/
theorem mean_right_iff (h : Ring.Holds slots ms) (hlen : slots.length = 4) (hne : ms ≠ []) :
    ((slots.take ms.length).map fun m => m.memUsedMB.toNat).sum % 2 ^ 64 / min ms.length 4 =
        meanMemUsed (Ring.recent 4 ms) ↔
      ((Ring.recent 4 ms).map fun m => m.memUsedMB.toNat).sum < 2 ^ 64 := by
  have hpos := List.length_pos_iff.mpr hne
  have hsum := (h.perm.map fun m => m.memUsedMB.toNat).sum_eq
  rw [hlen] at hsum
  rw [hsum, meanMemUsed, length_recent]
  apply mod_div_eq_iff <;> omega

/-- The last slot in use has the agent's numbers of the newest sample: always, until the ring is full. -/
theorem newest_right_iff (h : Ring.Holds slots ms) (hlen : slots.length = 4) (hne : ms ≠ []) {last : SystemMetrics}
    (hlast : slots[min ms.length 4 - 1]? = some last) :
    (∀ newest ∈ ms.getLast?,
        last.agentMemMB = newest.agentMemMB ∧ last.agentCPUPercent = newest.agentCPUPercent) ↔
      (4 < ms.length → ∀ m ∈ ms[4 * (ms.length / 4) - 1]?, ∀ newest ∈ ms.getLast?,
        m.agentMemMB = newest.agentMemMB ∧ m.agentCPUPercent = newest.agentCPUPercent) := by
  have hslot := h.last (by omega) hne
  rw [hlen, hlast] at hslot
  by_cases hle : ms.length ≤ 4
  · rw [if_pos hle, ← List.getLast?_eq_getElem?] at hslot
    rw [← hslot]
    refine iff_of_true ?_ fun hbig => absurd hbig (by omega)
    intro newest hnewest
    obtain rfl := Option.some.inj hnewest
    exact ⟨rfl, rfl⟩
  · rw [if_neg hle] at hslot
    rw [← hslot]
    constructor
    · rintro hall - m hm
      obtain rfl := Option.some.inj hm
      exact hall
    · intro hall
      exact hall (by omega) last rfl

end Slots

/-- **One average.** -/
theorem right_iff_guarded {s : Metered} (h : Tracks s) (e : Metered.Event) : s.Right e ↔ s.Guarded e := by
  cases e with
  | addSample m => exact Iff.rfl
  | collect r => exact Iff.rfl
  | average =>
      apply imp_congr_right
      intro hne
      have hpos := List.length_pos_iff.mpr hne
      by_cases hlt : s.since.length < 2 ^ 63
      · obtain ⟨avg, c', last, havg, hmem, hlast, hagentMem, hagentCpu⟩ := average_of_pos (h.count_of_lt hlt) hpos
        have hlen : s.collector.samples.toList.length = 4 := Vector.length_toList
        have hmean := mean_right_iff (h.ring hlt) hlen hne
        have hnewest := newest_right_iff (h.ring hlt) hlen hne hlast
        rw [← hmem] at hmean
        rw [← hagentMem, ← hagentCpu] at hnewest
        rw [← hmean, ← hnewest]
        constructor
        · rintro ⟨avg', c'', havg', hright⟩
          obtain ⟨rfl, -⟩ := Prod.mk.inj (Option.some.inj (havg.symm.trans havg'))
          exact ⟨hlt, hright⟩
        · rintro ⟨-, hright⟩
          exact ⟨avg, c', havg, hright⟩
      · have hneg := h.count_of_le (by omega)
        have hbound := h.bound
        have hnone := average_of_neg (c := s.collector) (by omega)
        constructor
        · rintro ⟨avg, c, havg, -⟩
          rw [hnone] at havg
          exact absurd havg (by simp)
        · rintro ⟨hsmall, -⟩
          exact absurd hsmall hlt

/-- **When the averages are right.** For every sequence of samples, averages and readings from a new collector: each
average after at least one sample is the integer mean of the memory in use over the last four of them, with the agent's
numbers of the newest one, exactly when at each average there are fewer than two to the 63 samples, the sum over the last
four stays below two to the 64 and, if there are more than four, the agent's numbers of the last one whose number is a
multiple of four are those of the newest one. -/
theorem averages_right_iff (es : List Metered.Event) :
    Allowed Metered.step Metered.Right Metered.start es ↔ Allowed Metered.step Metered.Guarded Metered.start es :=
  allowed_congr_of_inv (R := Tracks) Tracks.step (fun h => right_iff_guarded h _) (Tracks.zero rfl) es

/-- A reading in which the agent takes up so many MiB. -/
def agentAt (mb : UInt64) : SystemMetrics := { SystemMetrics.zero with agentMemMB := mb }

/-- The agent grows by a MiB from one reading to the next. -/
def fiveReadings : List Metered.Event := [1, 2, 3, 4, 5].map fun mb => .addSample (agentAt mb)

/-- **The average after five samples has the agent's memory of the fourth.** -/
theorem not_right_fiveReadings : ¬ Allowed Metered.step Metered.Right Metered.start (fiveReadings ++ [.average]) := by
  intro h
  have hrun : (play Metered.step Metered.start fiveReadings).isSome = true := by decide +kernel
  obtain ⟨s, hs⟩ := Option.isSome_iff_exists.mp hrun
  have hsince : s.since = [1, 2, 3, 4, 5].map agentAt := by
    have heq : (play Metered.step Metered.start fiveReadings).map Metered.since =
        some ([1, 2, 3, 4, 5].map agentAt) := by
      decide +kernel
    rw [hs] at heq
    exact Option.some.inj heq
  have haverage : s.collector.average.map (fun r => r.1.agentMemMB) = some 4 := by
    have heq : ((play Metered.step Metered.start fiveReadings).bind fun s => s.collector.average).map
        (fun r => r.1.agentMemMB) = some 4 := by
      decide +kernel
    rw [hs] at heq
    exact heq
  obtain ⟨avg, c, havg, -, hnewest⟩ := (h.rest hs).1 (by simp [hsince])
  rw [havg] at haverage
  have hfive := (hnewest (agentAt 5) (by simp [hsince])).1
  have hfour : avg.agentMemMB = 4 := Option.some.inj haverage
  rw [hfour] at hfive
  exact absurd hfive (by decide)

end TimeChamp.Capture
