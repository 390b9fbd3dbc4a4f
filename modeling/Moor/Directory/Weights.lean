import Moor.Directory.Build

/-!
# The bandwidth weights

The weights of the positions are quotients of sums of bandwidth, computed with 64 bits. They are in
range and add up as long as the products fit.
-/

namespace Moor

open List Int64

/-- The bandwidth of the relays that meet the test, as a number. -/
def classSum (cap : UInt64 → UInt64) (test : DaRelay → Bool) (relays : List DaRelay) : ℕ :=
  ((relays.filter test).map fun r => (r.effectiveBw cap).toNat).sum

/-- The bandwidth of the guards, the others, the exits and the relays that are both. -/
structure BwSums where
  G : ℕ
  M : ℕ
  E : ℕ
  D : ℕ
deriving DecidableEq

def bwSums (cap : UInt64 → UInt64) (relays : List DaRelay) : BwSums :=
  let isGuard (r : DaRelay) := Flags.has r.flags nodeFlagGuard
  let isExit (r : DaRelay) := Flags.has r.flags nodeFlagExit
  ⟨classSum cap (fun r => isGuard r && !isExit r) relays,
    classSum cap (fun r => !isGuard r && !isExit r) relays,
    classSum cap (fun r => !isGuard r && isExit r) relays,
    classSum cap (fun r => isGuard r && isExit r) relays⟩

namespace BwSums

variable (s : BwSums)

def total : ℕ := s.G + s.M + s.E + s.D

/-- `T`, which is not zero. -/
def T : ℕ := if s.total = 0 then 1 else s.total

/-- The results of the operations of the computation, as numbers. -/
def intermediates : List ℕ :=
  [s.G + s.M, s.G + s.M + s.E, s.total, 3 * s.E, 3 * s.G] ++
    if s.T ≤ 3 * s.E ∧ s.T ≤ 3 * s.G then
      [s.E + s.M, 10000 * (s.E + s.M), s.E + s.G, s.E + s.G + s.M, 10000 * (s.E + s.G + s.M)]
    else if 3 * s.E < s.T ∧ 3 * s.G < s.T then []
    else if 3 * s.E < s.T then [s.M + s.E, 10000 * (s.M + s.E)]
    else [s.M + s.G, 10000 * (s.M + s.G)]

/-- What is divided by. -/
def divisors : List ℕ :=
  if s.T ≤ 3 * s.E ∧ s.T ≤ 3 * s.G then [3 * s.G, 3 * s.E]
  else if 3 * s.E < s.T ∧ 3 * s.G < s.T then []
  else if 3 * s.E < s.T then [3 * s.G] else [3 * s.E]

/-- The largest sum that is scaled. -/
def scaled : ℕ :=
  if s.T ≤ 3 * s.E ∧ s.T ≤ 3 * s.G then s.E + s.G + s.M
  else if 3 * s.E < s.T ∧ 3 * s.G < s.T then 0
  else if 3 * s.E < s.T then s.M + s.E else s.M + s.G

/-- The products of the computation fit into 64 bits. -/
def Fits : Prop := 3 * s.E < 2 ^ 63 ∧ 3 * s.G < 2 ^ 63 ∧ 10000 * s.scaled < 2 ^ 63
  deriving Decidable

end BwSums

variable {cap : UInt64 → UInt64} {relays : List DaRelay} {s : BwSums}

theorem classBandwidth_eq (test : DaRelay → Bool) :
    classBandwidth cap test relays = Int64.ofNat (classSum cap test relays) := by
  have hfold (l : List DaRelay) (n : ℕ) :
      l.foldl (fun total r => total + (r.effectiveBw cap).toInt64) (ofNat n)
        = ofNat (n + (l.map fun r => (r.effectiveBw cap).toNat).sum) := by
    induction l generalizing n with
    | nil => rfl
    | cons r l ih =>
      have hr : (r.effectiveBw cap).toInt64 = ofNat (r.effectiveBw cap).toNat := by
        rw [← UInt64.toInt64_ofNat', UInt64.ofNat_toNat]
      rw [foldl_cons, hr, ← ofNat_add, ih, map_cons, sum_cons, Nat.add_assoc]
  rw [classBandwidth, classSum]
  exact (hfold _ 0).trans (by rw [Nat.zero_add])

/-- A weight and what is left of the scale. -/
theorem toInt32_quotient {a b : ℕ} (ha : 10000 * a < 2 ^ 63) (hb : b < 2 ^ 63) (hle : a ≤ b) :
    ∃ w ≤ 10000, (10000 * Int64.ofNat a / Int64.ofNat b).toInt32 = Int32.ofNat w ∧
      10000 - Int32.ofNat w = Int32.ofNat (10000 - w) := by
  have hw : 10000 * a / b ≤ 10000 := Nat.div_le_of_le_mul (by omega)
  refine ⟨10000 * a / b, hw, ?_, (Int32.ofNat_sub _ _ hw).symm⟩
  rw [← toInt32_ofNat', ofNat_div ha hb, ofNat_mul]
  rfl

/-- The weights before they are clamped. -/
theorem rawBwWeights_spec (htotal : s.total < 2 ^ 63) (h : s.Fits) :
    ∃ wgg ≤ 10000, ∃ wgd ≤ 10000, ∃ wee ≤ 10000, ∃ wed ≤ 10000, ∃ wmd ≤ 10000,
      rawBwWeights (Int64.ofNat s.G) (Int64.ofNat s.M) (Int64.ofNat s.E) (Int64.ofNat s.T)
        = [wgg, wgd, wee, wed, 10000 - wgg, 10000 - wee, 10000, wmd].map Int32.ofNat := by
  obtain ⟨hE, hG, hscaled⟩ := h
  have hT : s.T < 2 ^ 63 ∧ s.G + s.M + s.E ≤ s.T := by
    unfold BwSums.T BwSums.total at *
    split <;> omega
  have h3 (n : ℕ) : 3 * ofNat n = ofNat (3 * n) := (ofNat_mul 3 n).symm
  simp only [rawBwWeights, ge_iff_le, h3, ← ofNat_add, ofNat_le_iff_le hT.1 hE,
    ofNat_le_iff_le hT.1 hG, ofNat_lt_iff_lt hE hT.1, ofNat_lt_iff_lt hG hT.1]
  unfold BwSums.scaled at hscaled
  -- The two weights of the guards, and those of the exits, are a quotient and its rest or 0 and 1.
  have hwgg (a : ℕ) (ha : 10000 * a < 2 ^ 63) (hle : a ≤ 3 * s.G) := toInt32_quotient ha hG hle
  have hwee (a : ℕ) (ha : 10000 * a < 2 ^ 63) (hle : a ≤ 3 * s.E) := toInt32_quotient ha hE hle
  split_ifs at hscaled ⊢ with hplenty hscarce hless hexits
  · obtain ⟨wgg, hgg, heq, hleft⟩ := hwgg (s.E + s.M) (by omega) (by omega)
    obtain ⟨wee, hee, heq', hleft'⟩ := hwee (s.E + s.G + s.M) hscaled (by omega)
    refine ⟨wgg, hgg, 3333, by omega, wee, hee, 3333, by omega, 3333, by omega, ?_⟩
    rw [heq, heq', hleft, hleft']
    rfl
  · exact ⟨10000, le_rfl, 0, by omega, 10000, le_rfl, 10000, le_rfl, 0, by omega, rfl⟩
  · exact ⟨10000, le_rfl, 10000, le_rfl, 10000, le_rfl, 0, by omega, 0, by omega, rfl⟩
  · obtain ⟨wgg, hgg, heq, hleft⟩ := hwgg (s.M + s.E) hscaled (by omega)
    refine ⟨wgg, hgg, 0, by omega, 10000, le_rfl, 10000, le_rfl, 0, by omega, ?_⟩
    rw [heq, hleft]
    rfl
  · obtain ⟨wee, hee, heq, hleft⟩ := hwee (s.M + s.G) hscaled (by omega)
    refine ⟨10000, le_rfl, 10000, le_rfl, wee, hee, 0, by omega, 0, by omega, ?_⟩
    rw [heq, hleft]
    rfl

/-- What is expected of the weights: no operation leaves 64 bits and none divides by zero, the
weights are in range, and those of the guards and of the exits add up. -/
structure WeightsSound (s : BwSums) (w : Fin 8 → Int32) : Prop where
  exact : ∀ n ∈ s.intermediates, n < 2 ^ 63
  divides : 0 ∉ s.divisors
  range : ∀ i, 0 ≤ (w i).toInt ∧ (w i).toInt ≤ 10000
  guards : (w 0).toInt + (w 4).toInt = 10000
  exits : (w 2).toInt + (w 5).toInt = 10000

/-- The products fit if and only if all results of operations do. -/
theorem fits_iff (htotal : s.total < 2 ^ 63) : (∀ n ∈ s.intermediates, n < 2 ^ 63) ↔ s.Fits := by
  simp only [BwSums.intermediates, BwSums.Fits, BwSums.scaled]
  unfold BwSums.total at *
  split_ifs <;> simp <;> omega

theorem zero_notMem_divisors : 0 ∉ s.divisors := by
  have hT : 0 < s.T := by
    unfold BwSums.T
    split <;> omega
  unfold BwSums.divisors
  split_ifs <;> simp <;> omega

theorem toInt_clamp {n : ℕ} (hn : n ≤ 10000) : (if Int32.ofNat n < 0 then 0
    else if Int32.ofNat n > 10000 then 10000 else Int32.ofNat n : Int32).toInt = n := by
  have hint : (Int32.ofNat n).toInt = n := Int32.toInt_ofNat_of_lt (by omega)
  have hzero : ¬ Int32.ofNat n < 0 := by
    rw [Int32.lt_iff_toInt_lt, hint]
    exact Int.not_lt.mpr (Int.natCast_nonneg n)
  have hscale : ¬ Int32.ofNat n > 10000 := by
    rw [gt_iff_lt, Int32.lt_iff_toInt_lt, hint]
    exact Int.not_lt.mpr (Int.ofNat_le.mpr hn)
  rw [if_neg hzero, if_neg hscale, hint]

theorem daComputeBwWeights_spec (htotal : (bwSums cap relays).total < 2 ^ 63)
    (h : (bwSums cap relays).Fits) :
    ∃ w : Fin 8 → ℕ, (∀ i, w i ≤ 10000) ∧ w 0 + w 4 = 10000 ∧ w 2 + w 5 = 10000 ∧
      ∀ i, (daComputeBwWeights cap relays i).toInt = w i := by
  obtain ⟨wgg, hgg, wgd, hgd, wee, hee, wed, hed, wmd, hmd, hraw⟩ := rawBwWeights_spec htotal h
  have hT : (if ofNat (bwSums cap relays).total = 0 then 1
      else ofNat (bwSums cap relays).total) = ofNat (bwSums cap relays).T := by
    have hzero : ofNat (bwSums cap relays).total = 0 ↔ (bwSums cap relays).total = 0 := by
      rw [← toInt_inj, toInt_ofNat_of_lt htotal]
      exact Int.natCast_eq_zero
    simp only [hzero, BwSums.T, apply_ite ofNat]
    rfl
  set l := [wgg, wgd, wee, wed, 10000 - wgg, 10000 - wee, 10000, wmd] with hl
  have hle : ∀ n ∈ l, n ≤ 10000 := by
    simp [hl, hgg, hgd, hee, hed, hmd]
  refine ⟨l.get, fun i => hle _ (get_mem l i), by simp [hl]; omega, by simp [hl]; omega,
    fun i => ?_⟩
  have hw : daComputeBwWeights cap relays i =
      let w := (l.map Int32.ofNat).getD i 0
      if w < 0 then 0 else if w > 10000 then 10000 else w := by
    rw [← hraw, ← hT]
    simp only [daComputeBwWeights, classBandwidth_eq, ← ofNat_add]
    rfl
  have hi : l[i.val]? = some (l.get i) := getElem?_eq_getElem i.isLt
  rw [hw, ← toInt_clamp (hle _ (get_mem l i))]
  simp [hi]

/-- A guard, an exit and another relay with the same bandwidth. -/
def sampleBwTable (bandwidth : UInt64) : List DaRelay :=
  [nodeFlagGuard, nodeFlagExit, 0].map fun flags => { sampleDaRelay 1 [] with
    bandwidth := bandwidth, verifiedBandwidth := bandwidth, flags := flags }

end Moor
