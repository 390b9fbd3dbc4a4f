import Moor.Directory.FlagOrigin

/-!
# Which relays get the computed flags

An authority computes the Fast, Stable and Guard flags of its relays anew for each consensus, from
thresholds over the active ones. A table without an active relay is left as it is, with the flags of
earlier computations.
-/

namespace Moor

open List Flags

/-- The flags that are computed from measurements. -/
def nodeFlagsComputed : UInt32 := nodeFlagFast ||| nodeFlagStable ||| nodeFlagGuard

theorem has_putFlag_self {w flag : UInt32} (h : flag ≠ 0) (on : Bool) :
    has (putFlag w flag on) flag = on := by
  cases on
  · exact has_clear_eq_false (by simp)
  · simp [putFlag, or_has, has_self h]

/-- Setting the computed flags leaves nothing of what they were. -/
theorem putFlag_computed {w v : UInt32} (h : clear w nodeFlagsComputed = clear v nodeFlagsComputed)
    (fast stable guard : Bool) :
    putFlag (putFlag (putFlag w nodeFlagFast fast) nodeFlagStable stable) nodeFlagGuard guard =
      putFlag (putFlag (putFlag v nodeFlagFast fast) nodeFlagStable stable) nodeFlagGuard
        guard := by
  apply UInt32.toBitVec_inj.mp
  apply BitVec.eq_of_getLsbD_eq
  intro i hi
  have hbit := congrArg (·.toBitVec.getLsbD i) h
  simp only [clear, nodeFlagsComputed, UInt32.toBitVec_and, UInt32.toBitVec_not,
    UInt32.toBitVec_or, BitVec.getLsbD_and, BitVec.getLsbD_not, BitVec.getLsbD_or, hi] at hbit
  cases fast <;> cases stable <;> cases guard <;>
    simp only [putFlag, clear, UInt32.toBitVec_and, UInt32.toBitVec_not, UInt32.toBitVec_or,
      BitVec.getLsbD_and, BitVec.getLsbD_not, BitVec.getLsbD_or, hi, if_true, Bool.false_eq_true,
      if_false] <;>
    grind

variable (cap : UInt64 → UInt64) (now : UInt64)

/-- The flags of a relay after the thresholds are applied to it. -/
theorem has_assignFlags (t : FlagThresholds) (r : DaRelay) :
    let flags := (assignFlags cap now t r).flags
    let fast := r.isActive cap && decide (r.effectiveBw cap ≥ t.fastBw)
    let stable := r.isActive cap && decide (r.uptime now ≥ t.stableUptime)
    has flags nodeFlagFast = fast ∧ has flags nodeFlagStable = stable ∧
      has flags nodeFlagMiddleonly = has r.flags nodeFlagMiddleonly ∧
      has flags nodeFlagGuard = (fast && stable && !Flags.has r.flags nodeFlagMiddleonly &&
        decide (r.effectiveBw cap ≥ t.guardBw) && decide (r.uptime now ≥ t.guardTk)) := by
  intro flags fast stable
  by_cases hmiddle : has r.flags nodeFlagMiddleonly = true
  · simp (disch := decide) [flags, fast, stable, assignFlags, has_putFlag_self,
      has_putFlag_of_disjoint, hmiddle]
  · rw [Bool.not_eq_true] at hmiddle
    simp (disch := decide) [flags, fast, stable, assignFlags, has_putFlag_self,
      has_putFlag_of_disjoint, hmiddle]

/-- A relay without the computed flags. -/
def DaRelay.eraseComputed (r : DaRelay) : DaRelay :=
  { r with flags := clear r.flags nodeFlagsComputed }

theorem assignFlags_eraseComputed (t : FlagThresholds) (r : DaRelay) :
    assignFlags cap now t r.eraseComputed = assignFlags cap now t r := by
  have hclear : clear (clear r.flags nodeFlagsComputed) nodeFlagsComputed =
      clear r.flags nodeFlagsComputed := by
    simp [clear, UInt32.and_assoc]
  simp (disch := decide) only [assignFlags, DaRelay.eraseComputed, has_putFlag_self,
    has_putFlag_of_disjoint, putFlag_computed hclear]
  rfl

def tableThresholds (relays : List DaRelay) : FlagThresholds :=
  flagThresholds cap now (relays.filter (·.isActive cap))

theorem tableThresholds_eraseComputed (relays : List DaRelay) :
    tableThresholds cap now (relays.map DaRelay.eraseComputed) =
      tableThresholds cap now relays := by
  have hexit (r : DaRelay) :
      has r.eraseComputed.flags nodeFlagExit = has r.flags nodeFlagExit :=
    has_clear_of_disjoint (by decide)
  simp only [tableThresholds, flagThresholds, filter_map, map_map, Function.comp_def,
    hexit, length_map]
  rfl

theorem daComputeFlagsStatistical_of_active {relays : List DaRelay}
    (h : ∃ r ∈ relays, r.isActive cap = true) :
    daComputeFlagsStatistical cap now relays =
      relays.map (assignFlags cap now (tableThresholds cap now relays)) := by
  have hact : (relays.filter (·.isActive cap)).isEmpty = false := by
    simpa [isEmpty_eq_false_iff] using h
  simp [daComputeFlagsStatistical, hact, tableThresholds]

theorem daComputeFlagsStatistical_of_inactive {relays : List DaRelay}
    (h : ¬∃ r ∈ relays, r.isActive cap = true) :
    daComputeFlagsStatistical cap now relays = relays := by
  simp only [not_exists, not_and] at h
  simp [daComputeFlagsStatistical, filter_eq_nil_iff.mpr h]

theorem isActive_of_map_eraseComputed {relays relays' : List DaRelay}
    (h : relays'.map DaRelay.eraseComputed = relays.map DaRelay.eraseComputed)
    (hact : ∃ r ∈ relays, r.isActive cap = true) : ∃ r ∈ relays', r.isActive cap = true := by
  obtain ⟨r, hr, hr'⟩ := hact
  obtain ⟨s, hs, heq⟩ := mem_map.mp (h ▸ mem_map_of_mem hr)
  have hsame : s.eraseComputed.isActive cap = r.eraseComputed.isActive cap := by rw [heq]
  exact ⟨s, hs, hsame.trans hr'⟩

/-- The flags of a table are computed from measurements alone. -/
structure HistoryFree (relays : List DaRelay) : Prop where
  guard_iff : ∀ r ∈ daComputeFlagsStatistical cap now relays,
    (has r.flags nodeFlagGuard = true ↔
      let t := tableThresholds cap now relays
      r.isActive cap = true ∧ has r.flags nodeFlagFast = true ∧
        has r.flags nodeFlagStable = true ∧ has r.flags nodeFlagMiddleonly = false ∧
        r.effectiveBw cap ≥ t.guardBw ∧ r.uptime now ≥ t.guardTk)
  inactive : ∀ r ∈ daComputeFlagsStatistical cap now relays, r.isActive cap = false →
    has r.flags nodeFlagsComputed = false
  independent : ∀ relays', relays'.map DaRelay.eraseComputed = relays.map DaRelay.eraseComputed →
    daComputeFlagsStatistical cap now relays' = daComputeFlagsStatistical cap now relays

/-- The flags are computed from measurements alone, at every time and for every tolerance, for
every table except those in which all relays are below the minimum bandwidth. -/
theorem flags_history_free_iff (relays : List DaRelay) :
    HistoryFree cap now relays ↔ relays = [] ∨ ∃ r ∈ relays, r.isActive cap = true := by
  constructor
  · intro h
    by_contra hnone
    obtain ⟨hne, hnone⟩ := not_or.mp hnone
    -- Turning the computed flags of all relays over gives another table that is left as it is.
    let turn (r : DaRelay) : DaRelay := { r with flags := r.flags ^^^ nodeFlagsComputed }
    have herase : (relays.map turn).map DaRelay.eraseComputed =
        relays.map DaRelay.eraseComputed := by
      have hclear (w : UInt32) := clear_xor_and w nodeFlagsComputed nodeFlagsComputed
      simp only [UInt32.and_self] at hclear
      simp [turn, DaRelay.eraseComputed, hclear, Function.comp_def]
    have hsame := h.independent _ herase
    rw [daComputeFlagsStatistical_of_inactive cap now hnone, daComputeFlagsStatistical_of_inactive
      cap now fun hturn => hnone (isActive_of_map_eraseComputed cap herase.symm hturn)] at hsame
    obtain ⟨r, rest, rfl⟩ := exists_cons_of_ne_nil hne
    have hflags : r.flags ^^^ nodeFlagsComputed = r.flags :=
      congrArg (·.flags) (cons.inj hsame).1
    have hzero := congrArg (r.flags ^^^ ·) hflags
    simp only [← UInt32.xor_assoc, UInt32.xor_self, UInt32.zero_xor] at hzero
    exact absurd hzero (by decide)
  · rintro (rfl | hact)
    · exact ⟨by simp [daComputeFlagsStatistical], by simp [daComputeFlagsStatistical], by simp⟩
    have hcompute := daComputeFlagsStatistical_of_active cap now hact
    refine ⟨?_, ?_, ?_⟩
    · intro r hr
      obtain ⟨s, -, rfl⟩ := mem_map.mp (hcompute ▸ hr)
      obtain ⟨hfast, hstable, hmiddle, hguard⟩ :=
        has_assignFlags cap now (tableThresholds cap now relays) s
      rw [hfast, hstable, hmiddle, hguard]
      simp only [Bool.and_eq_true, Bool.not_eq_true', decide_eq_true_eq]
      exact ⟨fun h => ⟨h.1.1.1.1.1, h.1.1.1.1, h.1.1.1.2, h.1.1.2, h.1.2, h.2⟩,
        fun h => ⟨⟨⟨⟨h.2.1, h.2.2.1⟩, h.2.2.2.1⟩, h.2.2.2.2.1⟩, h.2.2.2.2.2⟩⟩
    · intro r hr hinactive
      obtain ⟨s, -, rfl⟩ := mem_map.mp (hcompute ▸ hr)
      have hs : s.isActive cap = false := hinactive
      simp [nodeFlagsComputed, has_or, has_assignFlags, hs]
    · intro relays' h
      have herase (l : List DaRelay) (t : FlagThresholds) :
          l.map (assignFlags cap now t) =
            (l.map DaRelay.eraseComputed).map (assignFlags cap now t) := by
        simp [assignFlags_eraseComputed]
      rw [hcompute, daComputeFlagsStatistical_of_active cap now
        (isActive_of_map_eraseComputed cap h hact),
        herase relays', herase relays, ← tableThresholds_eraseComputed cap now relays', h,
        tableThresholds_eraseComputed]

/-- A relay that reports no bandwidth. -/
def sampleIdleGuard : DaRelay :=
  { sampleDaRelay 1 [] with flags := nodeFlagsComputed }

/-- The only relay of a table keeps its flags when its bandwidth falls below the minimum. -/
theorem flags_kept_without_active :
    sampleIdleGuard.isActive id = false ∧
      daComputeFlagsStatistical id 1000000 [sampleIdleGuard] = [sampleIdleGuard] ∧
      has sampleIdleGuard.flags nodeFlagGuard = true ∧
      ¬HistoryFree id 1000000 [sampleIdleGuard] := by
  have hinactive : sampleIdleGuard.isActive id = false := by decide
  have hkept : daComputeFlagsStatistical id 1000000 [sampleIdleGuard] = [sampleIdleGuard] :=
    daComputeFlagsStatistical_of_inactive _ _ (by simp [hinactive])
  refine ⟨hinactive, hkept, by decide, fun h => ?_⟩
  exact absurd (h.inactive sampleIdleGuard (by simp [hkept]) hinactive) (by decide)

end Moor
