import Moor.Lib.Checked
import Moor.Lib.RingBuffer

/-!
# Congestion control at the client

Each SENDME gives a round-trip time. From it the client estimates how many of its cells wait in
queues, and adjusts the congestion window: first it grows quickly, then it follows the estimate.
Arithmetic is checked: an operation that leaves the type of its variable, or divides by zero, fails.
-/

namespace Moor

open Option Checked

def moorSendmeIncrement : ℤ := 100
def moorCcSendmeTsMax : ℕ := 20
def moorCcCwndInit : ℤ := 124
def moorCcCwndMin : ℤ := moorSendmeIncrement
def moorCcCwndMax : ℤ := 2000
def moorCcSsthreshInit : ℤ := 1000
def moorCcSsRttExitPct : ℕ := 50

/-- The largest time, for a round trip that was not measured yet. -/
def uint64MaxUs : ℕ := 2 ^ 64 - 1

instance : NeZero moorCcSendmeTsMax := ⟨by decide⟩

/-- The phase of congestion control. -/
inductive CcState
  | slowStart
  | congAvoidance
  deriving DecidableEq

/-- The thresholds of congestion control for a kind of path. -/
structure CcParams where
  alpha : ℤ
  beta : ℤ
  gamma : ℤ
  delta : ℤ

/-- The thresholds for circuits to exits, to onion services and for measurements. -/
def gCcParams : List CcParams := [⟨30, 100, 50, 10⟩, ⟨60, 200, 100, 15⟩, ⟨10, 31, 20, 5⟩]

def ccParamsFor (ccPathType : UInt8) : CcParams :=
  gCcParams.getD ccPathType.toNat ⟨30, 100, 50, 10⟩

/-- The fields of a circuit that congestion control uses. -/
structure Congestion where
  ccState : CcState
  ccPathType : UInt8
  cwnd : ℤ
  ssthresh : ℤ
  cwndFull : Bool
  rttInitialized : Bool
  srttUs : ℕ
  rttVarUs : ℕ
  minRttUs : ℕ
  bdp : ℤ
  sendmeAckCount : ℕ
  sendmeTimestamps : RingBuffer ℕ moorCcSendmeTsMax

def Congestion.init (ccPathType : UInt8) : Congestion where
  ccState := .slowStart
  ccPathType := ccPathType
  cwnd := moorCcCwndInit
  ssthresh := moorCcSsthreshInit
  cwndFull := false
  rttInitialized := false
  srttUs := 0
  rttVarUs := 0
  minRttUs := uint64MaxUs
  bdp := 0
  sendmeAckCount := 0
  sendmeTimestamps := RingBuffer.empty 0

/-! ### The update for a SENDME -/

namespace Congestion

variable (cc : Congestion)

/-- Takes a round-trip time into the smoothed time and its variance. -/
def updateRtt (rttUs : ℕ) : Option Congestion := do
  if !cc.rttInitialized then
    return { cc with srttUs := rttUs, rttVarUs := rttUs / 2, rttInitialized := true }
  let diff ← Checked.signed 64 ((rttUs : ℤ) - cc.srttUs)
  let srttUs ← Checked.unsigned 64 (cc.srttUs + diff.tdiv 8)
  let weighted ← Checked.unsigned 64 (3 * cc.rttVarUs + (diff.natAbs : ℤ))
  return { cc with srttUs := srttUs, rttVarUs := weighted / 4 }

/-- Takes the oldest time off, and measures the round trip. A time that does not lie before now, and
a round trip of a minute or more, are passed over; the product counts modulo `2 ^ 64`. -/
def measureRtt (nowMs : ℕ) : Option Congestion :=
  if cc.sendmeTimestamps.count = 0 then some cc
  else
    let sentAt := cc.sendmeTimestamps.oldest
    let cc := { cc with sendmeTimestamps := cc.sendmeTimestamps.pop }
    let rttUs := (nowMs - sentAt) * 1000 % 2 ^ 64
    if sentAt < nowMs ∧ 0 < rttUs ∧ rttUs < 60000000 then cc.updateRtt rttUs else some cc

/-- Tracks the shortest round trip. -/
def trackMinRtt : Congestion :=
  if cc.rttInitialized ∧ cc.srttUs < cc.minRttUs then { cc with minRttUs := cc.srttUs } else cc

/-- Estimates how many cells the path holds, and how many wait in queues. -/
def estimateQueue : Option (Congestion × ℤ) :=
  if cc.rttInitialized ∧ 0 < cc.srttUs ∧ cc.minRttUs ≠ uint64MaxUs then do
    let product ← Checked.signed 64 (cc.cwnd * cc.minRttUs)
    let bdp ← Checked.quotient product cc.srttUs
    let bdp := if bdp < 0 then 0 else bdp
    let queue ← Checked.signed 64 (cc.cwnd - bdp)
    return ({ cc with bdp := bdp }, if queue < 0 then 0 else queue)
  else some (cc, 0)

/-- The round trips have become longer by half. -/
def rttInflated : Option Bool :=
  if cc.rttInitialized ∧ cc.minRttUs ≠ uint64MaxUs then do
    let product ← Checked.unsigned 64 (cc.minRttUs * (100 + moorCcSsRttExitPct : ℕ))
    return decide (product / 100 < cc.srttUs)
  else some false

def exitSlowStart : Congestion :=
  { cc with ccState := .congAvoidance, ssthresh := cc.cwnd }

/-- Slow start: the window grows, until cells wait in queues, the round trips become longer, or the
threshold is reached. -/
def slowStart (queue : ℤ) : Option Congestion := do
  let ccp := ccParamsFor cc.ccPathType
  if cc.rttInitialized ∧ ccp.gamma < queue then
    let cap ← Checked.signed 32 (cc.bdp + ccp.gamma)
    return exitSlowStart { cc with cwnd := if cap < cc.cwnd then cap else cc.cwnd }
  if ← cc.rttInflated then
    return cc.exitSlowStart
  let cwnd ← Checked.signed 32 (cc.cwnd + moorSendmeIncrement)
  let cc := { cc with cwnd := cwnd }
  return if cc.ssthresh ≤ cwnd then cc.exitSlowStart else cc

/-- Congestion avoidance: a window that was used up follows the length of the queues. -/
def congAvoidance (queue : ℤ) : Option Congestion := do
  let ccp := ccParamsFor cc.ccPathType
  if cc.cwndFull then
    if queue < ccp.alpha then
      let cwnd ← Checked.signed 32 (cc.cwnd + ccp.delta)
      return { cc with cwnd := cwnd }
    if ccp.beta < queue then
      let cwnd ← Checked.signed 32 (cc.cwnd - ccp.delta)
      return { cc with cwnd := cwnd }
  return cc

/-- Keeps the window within its limits, and starts a new period. A window at its lower limit makes
the shortest round trip start anew. -/
def clampCwnd : Congestion :=
  let cwnd := if cc.cwnd < moorCcCwndMin then moorCcCwndMin else cc.cwnd
  let cwnd := if moorCcCwndMax < cwnd then moorCcCwndMax else cwnd
  { cc with
    cwnd := cwnd
    cwndFull := false
    minRttUs :=
      if cwnd = moorCcCwndMin ∧ cc.ccState = .congAvoidance ∧ cc.rttInitialized then cc.srttUs
      else cc.minRttUs }

/-- The window is adjusted in the way of the current phase. -/
def adjustCwnd (queue : ℤ) : Option Congestion :=
  match cc.ccState with
  | .slowStart => cc.slowStart queue
  | .congAvoidance => cc.congAvoidance queue

/-- What congestion control does for a SENDME whose digest was right. -/
def onSendme (nowMs : ℕ) : Option Congestion := do
  let cc ← cc.measureRtt nowMs
  let (cc, queue) ← cc.trackMinRtt.estimateQueue
  let cc := { cc with sendmeAckCount := (cc.sendmeAckCount + 1) % 2 ^ 32 }
  let cc ← cc.adjustCwnd queue
  return cc.clampCwnd

/-! ### Congestion control stays within its limits -/

/-- The times that were measured are less than a minute, and not zero. -/
structure RttOk : Prop where
  srtt_pos : cc.rttInitialized = true → 0 < cc.srttUs
  srtt_lt : cc.srttUs < 60000000
  var_le : cc.rttVarUs ≤ 60000000

/-- What holds between SENDMEs. -/
structure Ok : Prop extends RttOk cc where
  cwnd_ge : moorCcCwndMin ≤ cc.cwnd
  cwnd_le : cc.cwnd ≤ moorCcCwndMax
  min_le : cc.rttInitialized = true → cc.minRttUs ≤ cc.srttUs
  bdp_nonneg : 0 ≤ cc.bdp
  bdp_le : cc.bdp ≤ moorCcCwndMax

theorem ok_init (ccPathType : UInt8) : (init ccPathType).Ok := by
  constructor
  · constructor <;> simp [init]
  all_goals simp [init, moorCcCwndMin, moorCcCwndMax, moorCcCwndInit, moorSendmeIncrement]

/-- An eighth of the way from one time to another does not pass either. -/
theorem smoothed_bounds {s r : ℕ} (hs : 0 < s) (hr : 0 < r) (hs' : s < 60000000)
    (hr' : r < 60000000) :
    0 < (s : ℤ) + ((r : ℤ) - s).tdiv 8 ∧ (s : ℤ) + ((r : ℤ) - s).tdiv 8 < 60000000 := by
  by_cases hle : s ≤ r
  · rw [Int.tdiv_eq_ediv_of_nonneg (by omega)]
    omega
  · have hneg : ((r : ℤ) - s).tdiv 8 = -(((s : ℤ) - r) / 8) := by
      rw [← Int.tdiv_eq_ediv_of_nonneg (by omega), ← Int.neg_tdiv, Int.neg_sub]
    omega

variable {cc}

theorem updateRtt_spec (h : cc.RttOk) {rttUs : ℕ} (hpos : 0 < rttUs) (hlt : rttUs < 60000000) :
    ∃ srtt var, cc.updateRtt rttUs =
        some { cc with srttUs := srtt, rttVarUs := var, rttInitialized := true } ∧
      0 < srtt ∧ srtt < 60000000 ∧ var ≤ 60000000 := by
  have hsrtt := h.srtt_lt
  have hvar := h.var_le
  cases hinit : cc.rttInitialized with
  | false =>
    refine ⟨rttUs, rttUs / 2, ?_, hpos, hlt, by omega⟩
    simp [updateRtt, hinit]
  | true =>
    obtain ⟨hlow, hhigh⟩ := smoothed_bounds (h.srtt_pos hinit) hpos hsrtt hlt
    have hdiff : signed 64 ((rttUs : ℤ) - cc.srttUs) = some ((rttUs : ℤ) - cc.srttUs) :=
      signed_eq_some 64 (by omega) (by omega)
    have hsmooth := unsigned_eq_some 64 hlow.le (by omega)
    have hweighted := unsigned_eq_some 64
      (x := 3 * cc.rttVarUs + (((rttUs : ℤ) - cc.srttUs).natAbs : ℤ)) (by omega) (by omega)
    refine ⟨((cc.srttUs : ℤ) + ((rttUs : ℤ) - cc.srttUs).tdiv 8).toNat,
      (3 * (cc.rttVarUs : ℤ) + (((rttUs : ℤ) - cc.srttUs).natAbs : ℤ)).toNat / 4, ?_, ?_, ?_, ?_⟩
    · simp only [updateRtt, hinit, hdiff, hsmooth, hweighted, bind_eq_bind,
        bind_some, Bool.not_true, Bool.false_eq_true, if_false]
      rfl
    · omega
    · omega
    · omega

/-- The measurement takes one time off, and leaves the window alone. -/
theorem measureRtt_spec (h : cc.RttOk) (nowMs : ℕ) :
    ∃ cc', cc.measureRtt nowMs = some cc' ∧ cc'.RttOk ∧ cc'.cwnd = cc.cwnd ∧ cc'.bdp = cc.bdp ∧
      cc'.sendmeTimestamps.count = cc.sendmeTimestamps.count - 1 ∧
      cc'.sendmeAckCount = cc.sendmeAckCount := by
  by_cases hempty : cc.sendmeTimestamps.count = 0
  · rw [measureRtt, if_pos hempty]
    exact ⟨cc, rfl, h, rfl, rfl, by omega, rfl⟩
  rw [measureRtt, if_neg hempty]
  by_cases hrtt : cc.sendmeTimestamps.oldest < nowMs ∧
      0 < (nowMs - cc.sendmeTimestamps.oldest) * 1000 % 2 ^ 64 ∧
      (nowMs - cc.sendmeTimestamps.oldest) * 1000 % 2 ^ 64 < 60000000
  · have hpopped : RttOk { cc with sendmeTimestamps := cc.sendmeTimestamps.pop } :=
      { h with }
    obtain ⟨srtt, var, hupdate, hpos, hlt, hvar⟩ := updateRtt_spec hpopped hrtt.2.1 hrtt.2.2
    simp only [if_pos hrtt, hupdate]
    exact ⟨_, rfl, ⟨fun _ => hpos, hlt, hvar⟩, rfl, rfl, rfl, rfl⟩
  · simp only [if_neg hrtt]
    exact ⟨_, rfl, { h with }, rfl, rfl, rfl, rfl⟩

/-- The shortest round trip is not longer than the smoothed one. -/
theorem trackMinRtt_spec (cc : Congestion) :
    ∃ minRtt, cc.trackMinRtt = { cc with minRttUs := minRtt } ∧
      (cc.rttInitialized = true → minRtt ≤ cc.srttUs) := by
  by_cases hless : cc.rttInitialized ∧ cc.srttUs < cc.minRttUs
  · rw [trackMinRtt, if_pos hless]
    exact ⟨cc.srttUs, rfl, fun _ => le_rfl⟩
  rw [trackMinRtt, if_neg hless]
  refine ⟨cc.minRttUs, rfl, fun hinit => ?_⟩
  by_contra hlt
  exact hless ⟨hinit, not_le.mp hlt⟩

/-- The division is by a time that is not zero, and the path holds no more cells than the window. -/
theorem estimateQueue_spec (h : cc.Ok) :
    ∃ bdp queue, cc.estimateQueue = some ({ cc with bdp := bdp }, queue) ∧
      0 ≤ bdp ∧ bdp ≤ moorCcCwndMax := by
  by_cases hmeasured : cc.rttInitialized ∧ 0 < cc.srttUs ∧ cc.minRttUs ≠ uint64MaxUs
  · have hcwnd : 100 ≤ cc.cwnd := h.cwnd_ge
    have hcwnd' : cc.cwnd ≤ 2000 := h.cwnd_le
    have hsrtt := h.srtt_lt
    have hmin : cc.minRttUs ≤ cc.srttUs := h.min_le hmeasured.1
    have hproduct : cc.cwnd * cc.minRttUs ≤ cc.cwnd * cc.srttUs :=
      mul_le_mul_of_nonneg_left (by omega) (by omega)
    have hproduct' : cc.cwnd * cc.srttUs ≤ 2000 * 60000000 :=
      mul_le_mul hcwnd' (by omega) (by omega) (by omega)
    have hnonneg : 0 ≤ cc.cwnd * (cc.minRttUs : ℤ) := mul_nonneg (by omega) (by omega)
    have hquot : (cc.cwnd * (cc.minRttUs : ℤ)).tdiv cc.srttUs ≤ cc.cwnd := by
      rw [Int.tdiv_eq_ediv_of_nonneg hnonneg]
      exact Int.ediv_le_of_le_mul (by omega) hproduct
    have hquot' : 0 ≤ (cc.cwnd * (cc.minRttUs : ℤ)).tdiv cc.srttUs :=
      Int.tdiv_nonneg hnonneg (by omega)
    refine ⟨(cc.cwnd * (cc.minRttUs : ℤ)).tdiv cc.srttUs,
      cc.cwnd - (cc.cwnd * (cc.minRttUs : ℤ)).tdiv cc.srttUs, ?_, hquot',
      hquot.trans h.cwnd_le⟩
    rw [estimateQueue, if_pos hmeasured]
    simp only [signed_eq_some 64 (x := cc.cwnd * cc.minRttUs) (by omega)
        (by omega),
      quotient_eq_some (show (cc.srttUs : ℤ) ≠ 0 by omega),
      signed_eq_some 64
        (x := cc.cwnd - (cc.cwnd * (cc.minRttUs : ℤ)).tdiv cc.srttUs) (by omega) (by omega),
      bind_eq_bind, bind_some, if_neg (not_lt.mpr hquot'),
      if_neg (show ¬cc.cwnd - (cc.cwnd * (cc.minRttUs : ℤ)).tdiv cc.srttUs < 0 by omega)]
    rfl
  · rw [estimateQueue, if_neg hmeasured]
    exact ⟨cc.bdp, 0, rfl, h.bdp_nonneg, h.bdp_le⟩

/-- The thresholds of every kind of path are small. -/
theorem ccParamsFor_bounds (ccPathType : UInt8) :
    0 ≤ (ccParamsFor ccPathType).gamma ∧ (ccParamsFor ccPathType).gamma ≤ 100 ∧
      0 ≤ (ccParamsFor ccPathType).delta ∧ (ccParamsFor ccPathType).delta ≤ 15 := by
  have hall : ∀ ccp ∈ gCcParams ++ [⟨30, 100, 50, 10⟩],
      0 ≤ ccp.gamma ∧ ccp.gamma ≤ 100 ∧ 0 ≤ ccp.delta ∧ ccp.delta ≤ 15 := by
    simp [gCcParams]
  refine hall _ ?_
  rw [ccParamsFor, List.getD_eq_getElem?_getD]
  cases hget : gCcParams[ccPathType.toNat]? with
  | none => simp
  | some ccp => exact List.mem_append_left _ (List.mem_of_getElem? hget)

theorem rttInflated_spec (h : cc.Ok) : ∃ b, cc.rttInflated = some b := by
  by_cases hmeasured : cc.rttInitialized ∧ cc.minRttUs ≠ uint64MaxUs
  · have hmin : cc.minRttUs ≤ cc.srttUs := h.min_le hmeasured.1
    have hsrtt := h.srtt_lt
    rw [rttInflated, if_pos hmeasured, unsigned_eq_some 64
      (by simp [moorCcSsRttExitPct]) (by simp [moorCcSsRttExitPct]; omega)]
    exact ⟨_, rfl⟩
  · exact ⟨false, by rw [rttInflated, if_neg hmeasured]⟩

/-- Slow start changes the window without leaving its type, and nothing but the window and the
phase. -/
theorem slowStart_spec (h : cc.Ok) (queue : ℤ) :
    ∃ ccState ssthresh cwnd, cc.slowStart queue =
      some { cc with ccState := ccState, ssthresh := ssthresh, cwnd := cwnd } := by
  have hcwnd : 100 ≤ cc.cwnd := h.cwnd_ge
  have hcwnd' : cc.cwnd ≤ 2000 := h.cwnd_le
  by_cases hqueue : cc.rttInitialized ∧ (ccParamsFor cc.ccPathType).gamma < queue
  · have hbdp := h.bdp_nonneg
    have hbdp' : cc.bdp ≤ 2000 := h.bdp_le
    obtain ⟨hgamma, hgamma', -⟩ := ccParamsFor_bounds cc.ccPathType
    have hcap := signed_eq_some 32
      (x := cc.bdp + (ccParamsFor cc.ccPathType).gamma) (by omega) (by omega)
    simp only [slowStart, if_pos hqueue, hcap, bind_eq_bind, bind_some]
    exact ⟨_, _, _, rfl⟩
  obtain ⟨inflated, hinflated⟩ := rttInflated_spec h
  have hgrow := signed_eq_some 32 (x := cc.cwnd + moorSendmeIncrement)
    (by simp [moorSendmeIncrement]; omega) (by simp [moorSendmeIncrement]; omega)
  simp only [slowStart, if_neg hqueue, hinflated, hgrow, bind_eq_bind, bind_some]
  cases inflated with
  | true => exact ⟨_, _, _, rfl⟩
  | false =>
    by_cases hexit : cc.ssthresh ≤ cc.cwnd + moorSendmeIncrement
    · simp only [Bool.false_eq_true, if_false, if_pos hexit]
      exact ⟨_, _, _, rfl⟩
    · simp only [Bool.false_eq_true, if_false, if_neg hexit]
      exact ⟨_, _, _, rfl⟩

/-- Congestion avoidance changes the window without leaving its type, and nothing else. -/
theorem congAvoidance_spec (h : cc.Ok) (queue : ℤ) :
    ∃ cwnd, cc.congAvoidance queue = some { cc with cwnd := cwnd } := by
  have hcwnd : 100 ≤ cc.cwnd := h.cwnd_ge
  have hcwnd' : cc.cwnd ≤ 2000 := h.cwnd_le
  obtain ⟨-, -, hdelta, hdelta'⟩ := ccParamsFor_bounds cc.ccPathType
  have hup := signed_eq_some 32
    (x := cc.cwnd + (ccParamsFor cc.ccPathType).delta) (by omega) (by omega)
  have hdown := signed_eq_some 32
    (x := cc.cwnd - (ccParamsFor cc.ccPathType).delta) (by omega) (by omega)
  simp only [congAvoidance, hup, hdown, bind_eq_bind, bind_some]
  by_cases hfull : cc.cwndFull = true
  · by_cases halpha : queue < (ccParamsFor cc.ccPathType).alpha
    · simp only [if_pos hfull, if_pos halpha]
      exact ⟨_, rfl⟩
    by_cases hbeta : (ccParamsFor cc.ccPathType).beta < queue
    · simp only [if_pos hfull, if_neg halpha, if_pos hbeta]
      exact ⟨_, rfl⟩
    · simp only [if_pos hfull, if_neg halpha, if_neg hbeta]
      exact ⟨cc.cwnd, rfl⟩
  · simp only [if_neg hfull]
    exact ⟨cc.cwnd, rfl⟩

theorem adjustCwnd_spec (h : cc.Ok) (queue : ℤ) :
    ∃ ccState ssthresh cwnd, cc.adjustCwnd queue =
      some { cc with ccState := ccState, ssthresh := ssthresh, cwnd := cwnd } := by
  rw [adjustCwnd.eq_def]
  obtain ⟨cwnd, hcongAvoidance⟩ := congAvoidance_spec h queue
  rcases hstate : cc.ccState with _ | _
  · exact slowStart_spec h queue
  · exact ⟨cc.ccState, cc.ssthresh, cwnd, hcongAvoidance⟩

theorem clampCwnd_ok (hrtt : cc.RttOk) (hmin : cc.rttInitialized = true → cc.minRttUs ≤ cc.srttUs)
    (hbdp : 0 ≤ cc.bdp) (hbdp' : cc.bdp ≤ moorCcCwndMax) : cc.clampCwnd.Ok := by
  constructor
  · exact { hrtt with }
  · simp only [clampCwnd, moorCcCwndMin, moorCcCwndMax, moorSendmeIncrement]
    split_ifs <;> omega
  · simp only [clampCwnd, moorCcCwndMin, moorCcCwndMax, moorSendmeIncrement]
    split_ifs <;> omega
  · intro hinit
    simp only [clampCwnd]
    split_ifs
    all_goals first | exact le_rfl | exact hmin hinit
  · exact hbdp
  · exact hbdp'

/-- Congestion control handles every SENDME without leaving a type or dividing by zero, whenever it
comes, and takes one time off. -/
theorem onSendme_spec (h : cc.Ok) (nowMs : ℕ) :
    ∃ cc', cc.onSendme nowMs = some cc' ∧ cc'.Ok ∧
      cc'.sendmeTimestamps.count = cc.sendmeTimestamps.count - 1 ∧
      cc'.sendmeAckCount = (cc.sendmeAckCount + 1) % 2 ^ 32 := by
  obtain ⟨cc₁, hmeasure, hrtt, hcwnd, hbdp, hcount, hacks⟩ := measureRtt_spec h.toRttOk nowMs
  obtain ⟨minRtt, htrack, hmin⟩ := trackMinRtt_spec cc₁
  have hok : Ok { cc₁ with minRttUs := minRtt } :=
    { hrtt with
      cwnd_ge := hcwnd ▸ h.cwnd_ge
      cwnd_le := hcwnd ▸ h.cwnd_le
      min_le := hmin
      bdp_nonneg := hbdp ▸ h.bdp_nonneg
      bdp_le := hbdp ▸ h.bdp_le }
  obtain ⟨bdp, queue, hqueue, hbdp, hbdp'⟩ := estimateQueue_spec hok
  have hok' : Ok { cc₁ with
      minRttUs := minRtt
      bdp := bdp
      sendmeAckCount := (cc₁.sendmeAckCount + 1) % 2 ^ 32 } :=
    { hok with bdp_nonneg := hbdp, bdp_le := hbdp' }
  obtain ⟨ccState, ssthresh, cwnd, hadjust⟩ := adjustCwnd_spec hok' queue
  have hclamped : Ok (clampCwnd { cc₁ with
      ccState := ccState
      ssthresh := ssthresh
      cwnd := cwnd
      minRttUs := minRtt
      bdp := bdp
      sendmeAckCount := (cc₁.sendmeAckCount + 1) % 2 ^ 32 }) :=
    clampCwnd_ok { hrtt with } hmin hbdp hbdp'
  refine ⟨_, ?_, hclamped, hcount, congrArg (fun acks => (acks + 1) % 2 ^ 32) hacks⟩
  simp only [onSendme, hmeasure, htrack, hqueue, hadjust, bind_eq_bind, bind_some]
  rfl

end Congestion

end Moor
