import Moor.Directory.Consensus
import Moor.Lib.Weighted

/-!
# Choosing relays

A client chooses a relay for a position of its circuit among the relays of the consensus that have
the flags the position asks for and are not on a list of exclusions, at random by bandwidth. Where
it looks for diversity it tries again when the relay shares a family, a country or a network with
one it has already, but not for ever.

## Main results

* `exists_moorNodeSelectRelay_eq`: every candidate is chosen for some draw.
* `node_select_relay_exactly_weighted`: candidates are chosen as often as their weights say.
-/

namespace Moor

open Codec Finset List Option UInt64 Weighted Flags

def nodeFlagExit : UInt32 := bit 1
def nodeFlagMiddleonly : UInt32 := bit 8

def bwWgg : Fin 8 := 0
def bwWgd : Fin 8 := 1
def bwWee : Fin 8 := 2
def bwWed : Fin 8 := 3
def bwWmg : Fin 8 := 4
def bwWme : Fin 8 := 5
def bwWmm : Fin 8 := 6
def bwWmd : Fin 8 := 7
def bwWeightScale : UInt64 := 10000

/-- A consensus with the bandwidth weights of the positions. -/
structure WeightedConsensus extends Consensus where
  bwWeights : Fin 8 → Int32

/-- Both relays have a family, and it is the same. -/
def moorNodeSameFamily (a b : NodeDescriptor) : Bool :=
  a.familyId ≠ Field.zero 32 && b.familyId ≠ Field.zero 32 && a.familyId == b.familyId

/-! ### One choice -/

variable (cons : WeightedConsensus) (requiredFlags : UInt32) (excludeIds : List (Field 32))

/-- The filters that a relay has to pass: it has the flags, an exit is not known to be bad, a guard
or an exit is not for the middle only, and the relay is not excluded. -/
def NodeDescriptor.passes (r : NodeDescriptor) : Bool :=
  r.flags &&& requiredFlags == requiredFlags &&
    !(has requiredFlags nodeFlagExit && has r.flags nodeFlagBadexit) &&
    !(has requiredFlags (nodeFlagGuard ||| nodeFlagExit) &&
      has r.flags nodeFlagMiddleonly) &&
    !excludeIds.contains r.identityPk

def WeightedConsensus.positionWeight (r : NodeDescriptor) : Int32 :=
  let isG := has r.flags nodeFlagGuard
  let isE := has r.flags nodeFlagExit
  if has requiredFlags nodeFlagGuard then
    cons.bwWeights (if isG && isE then bwWgd else bwWgg)
  else if has requiredFlags nodeFlagExit then
    cons.bwWeights (if isG && isE then bwWed else bwWee)
  else
    cons.bwWeights
      (if isG && isE then bwWmd else if isG then bwWmg else if isE then bwWme else bwWmm)

/-- The bandwidth of a relay between a thousand and a billion. -/
def NodeDescriptor.clampedBandwidth (r : NodeDescriptor) : UInt64 :=
  let bw := if r.bandwidth < 1000 then 1000 else r.bandwidth
  if 1000000000 < bw then 1000000000 else bw

/-- The bandwidth of a relay, scaled by the weight of the position when the consensus has
weights. -/
def WeightedConsensus.weightedBandwidth (r : NodeDescriptor) : UInt64 :=
  if ∃ i, cons.bwWeights i ≠ 0 then
    r.clampedBandwidth * UInt64.ofNat (cons.positionWeight requiredFlags r).toNatClampNeg
      / bwWeightScale
  else r.clampedBandwidth

/-- What a relay counts in the choice; it is never zero. -/
def WeightedConsensus.scaledBandwidth (r : NodeDescriptor) : UInt64 :=
  if cons.weightedBandwidth requiredFlags r = 0 then 1
  else cons.weightedBandwidth requiredFlags r

/-- A relay that passes the filters, by bandwidth; nothing if there is none. The outer option is
empty when the draws end before one is accepted. -/
def moorNodeSelectRelay (draws : List UInt64) : Option (Option NodeDescriptor × List UInt64) :=
  let candidates := cons.relays.filter (·.passes requiredFlags excludeIds)
  if candidates.isEmpty then some (none, draws)
  else
    (Weighted.choose (cons.scaledBandwidth requiredFlags) candidates draws).map
      fun (r, draws) => (some r, draws)

/-- A relay conflicts with another if they share a family, a country or a network. -/
def NodeDescriptor.conflicts (candidate selected : NodeDescriptor) : Bool :=
  moorNodeSameFamily candidate selected ||
    (candidate.countryCode != 0 && candidate.countryCode == selected.countryCode) ||
    (candidate.asNumber != 0 && candidate.asNumber == selected.asNumber)

/-- Tries a number of times to find a relay without conflict, and then takes any. -/
def selectDiverse (cons : WeightedConsensus) (requiredFlags : UInt32)
    (excludeIds : List (Field 32)) (selected : List NodeDescriptor) :
    ℕ → List UInt64 → Option (Option NodeDescriptor × List UInt64)
  | 0, draws => moorNodeSelectRelay cons requiredFlags excludeIds draws
  | n + 1, draws =>
    match moorNodeSelectRelay cons requiredFlags excludeIds draws with
    | none => none
    | some (none, draws) => some (none, draws)
    | some (some candidate, draws) =>
      if selected.any candidate.conflicts then
        selectDiverse cons requiredFlags excludeIds selected n draws
      else some (some candidate, draws)

/-- A relay in another country, network and family than those that are selected, if ten attempts
find one. -/
def moorNodeSelectRelayDiverse (selected : List NodeDescriptor) (draws : List UInt64) :
    Option (Option NodeDescriptor × List UInt64) :=
  selectDiverse cons requiredFlags excludeIds selected 10 draws

/-! ### What can be chosen -/

variable {cons : WeightedConsensus} {requiredFlags : UInt32} {excludeIds : List (Field 32)}
  {r : NodeDescriptor} {draws rest : List UInt64} {selected : List NodeDescriptor}

theorem scaledBandwidth_pos (cons : WeightedConsensus) (requiredFlags : UInt32)
    (r : NodeDescriptor) : 0 < (cons.scaledBandwidth requiredFlags r).toNat := by
  simp only [WeightedConsensus.scaledBandwidth]
  split
  · exact Nat.one_pos
  next hbw => exact Nat.pos_of_ne_zero fun hzero => hbw (UInt64.toNat_inj.mp hzero)

/-- A share of a word that leaves room for all relays of a consensus. -/
def bandwidthShare : ℕ := 1844674407370956

theorem clampedBandwidth_le : r.clampedBandwidth.toNat ≤ bandwidthShare := by
  simp only [NodeDescriptor.clampedBandwidth]
  generalize (if r.bandwidth < 1000 then 1000 else r.bandwidth) = bw
  split
  · decide
  next hle =>
    rw [UInt64.not_lt, UInt64.le_iff_toNat_le] at hle
    exact hle.trans (show 1000000000 ≤ bandwidthShare by decide)

theorem scaledBandwidth_le : (cons.scaledBandwidth requiredFlags r).toNat ≤ bandwidthShare := by
  have hweighted : (cons.weightedBandwidth requiredFlags r).toNat ≤ bandwidthShare := by
    simp only [WeightedConsensus.weightedBandwidth]
    split
    · exact Nat.div_le_of_le_mul ((Nat.le_of_lt (toNat_lt _)).trans
        (show 2 ^ 64 ≤ 10000 * bandwidthShare by decide))
    · exact clampedBandwidth_le
  simp only [WeightedConsensus.scaledBandwidth]
  split
  · exact show 1 ≤ bandwidthShare by decide
  · exact hweighted

/-- The sum over the candidates fits into a word. -/
theorem before_scaledBandwidth_lt {candidates : List NodeDescriptor}
    (hlen : candidates.length ≤ moorMaxRelays) :
    Weighted.sumOf (candidates.map (cons.scaledBandwidth requiredFlags)) < 2 ^ 64 := by
  have hsum : ∀ l : List NodeDescriptor,
      ((l.map (cons.scaledBandwidth requiredFlags)).map toNat).sum
        ≤ l.length * bandwidthShare := by
    intro l
    simpa using sum_le_card_nsmul (l.map _) bandwidthShare (by
      simpa using fun _ _ => scaledBandwidth_le)
  rw [before_length]
  calc _ ≤ candidates.length * bandwidthShare := hsum candidates
    _ ≤ moorMaxRelays * bandwidthShare := Nat.mul_le_mul_right _ hlen
    _ < 2 ^ 64 := by decide

/-- A relay that is chosen is one of the consensus and passes the filters. -/
theorem mem_of_moorNodeSelectRelay
    (h : moorNodeSelectRelay cons requiredFlags excludeIds draws = some (some r, rest)) :
    r ∈ cons.relays ∧ r.passes requiredFlags excludeIds := by
  simp only [moorNodeSelectRelay] at h
  split at h
  · cases h
  · obtain ⟨⟨b, rest'⟩, hchoose, heq⟩ := map_eq_some_iff.mp h
    simp only [Prod.mk.injEq, some_inj] at heq
    exact heq.1 ▸ mem_filter.mp (mem_of_choose hchoose)

/-- Every relay of the consensus that passes the filters is chosen for some draw. -/
theorem exists_moorNodeSelectRelay_eq (hr : r ∈ cons.relays)
    (hpasses : r.passes requiredFlags excludeIds) :
    ∃ d, ∀ draws, moorNodeSelectRelay cons requiredFlags excludeIds (d :: draws)
      = some (some r, draws) := by
  have hmem : r ∈ cons.relays.filter (·.passes requiredFlags excludeIds) :=
    mem_filter.mpr ⟨hr, hpasses⟩
  have hlen := (length_filter_le (·.passes requiredFlags excludeIds) cons.relays).trans
    cons.relays_le
  obtain ⟨d, hd⟩ := exists_choose_eq
    (fun a _ => scaledBandwidth_pos cons requiredFlags a)
    (before_scaledBandwidth_lt hlen) hmem
  refine ⟨d, fun draws => ?_⟩
  have hne : (cons.relays.filter (·.passes requiredFlags excludeIds)).isEmpty = false :=
    isEmpty_eq_false_iff.mpr (ne_nil_of_mem hmem)
  simp only [moorNodeSelectRelay, hne, Bool.false_eq_true, if_false, hd, map_some]

theorem mem_of_selectDiverse {n : ℕ}
    (h : selectDiverse cons requiredFlags excludeIds selected n draws = some (some r, rest)) :
    r ∈ cons.relays ∧ r.passes requiredFlags excludeIds := by
  induction n generalizing draws with
  | zero => exact mem_of_moorNodeSelectRelay h
  | succ n ih =>
    rw [selectDiverse] at h
    split at h
    · cases h
    · cases h
    next candidate draws' hselect =>
    split at h
    · exact ih h
    · simp only [some_inj, Prod.mk.injEq] at h
      exact h.1 ▸ mem_of_moorNodeSelectRelay hselect

/-- A relay in conflict is chosen too, when every attempt draws it. -/
theorem exists_selectDiverse_eq (hr : r ∈ cons.relays)
    (hpasses : r.passes requiredFlags excludeIds) (n : ℕ) :
    ∃ ds, ∀ draws, selectDiverse cons requiredFlags excludeIds selected n (ds ++ draws)
      = some (some r, draws) := by
  obtain ⟨d, hd⟩ := exists_moorNodeSelectRelay_eq hr hpasses
  induction n with
  | zero => exact ⟨[d], hd⟩
  | succ n ih =>
    obtain ⟨ds, hds⟩ := ih
    by_cases hconflict : selected.any r.conflicts
    · refine ⟨d :: ds, fun draws => ?_⟩
      rw [cons_append, selectDiverse, hd]
      simp [hconflict, hds]
    · refine ⟨[d], fun draws => ?_⟩
      rw [singleton_append, selectDiverse, hd]
      simp [hconflict]

/-! ### How often a relay is chosen -/

/-- The relays of a consensus that pass the filters, in their order. -/
def WeightedConsensus.candidates (cons : WeightedConsensus) (requiredFlags : UInt32)
    (excludeIds : List (Field 32)) : List NodeDescriptor :=
  cons.relays.filter (·.passes requiredFlags excludeIds)

def WeightedConsensus.weights (cons : WeightedConsensus) (requiredFlags : UInt32)
    (excludeIds : List (Field 32)) : List UInt64 :=
  (cons.candidates requiredFlags excludeIds).map (cons.scaledBandwidth requiredFlags)

/-- The sum of the weights, as a number. -/
def WeightedConsensus.totalBw (cons : WeightedConsensus) (requiredFlags : UInt32)
    (excludeIds : List (Field 32)) : ℕ :=
  ((cons.weights requiredFlags excludeIds).map UInt64.toNat).sum

/-- What a relay counts in the choice, without words: its bandwidth between the bounds, scaled by a
weight that is not negative, and at least one. -/
def WeightedConsensus.exactWeight (cons : WeightedConsensus) (requiredFlags : UInt32)
    (r : NodeDescriptor) : ℕ :=
  max 1 <|
    if ∃ i, cons.bwWeights i ≠ 0 then
      min 1000000000 (max 1000 r.bandwidth.toNat) *
        (cons.positionWeight requiredFlags r).toInt.toNat / 10000
    else min 1000000000 (max 1000 r.bandwidth.toNat)

theorem toNat_clampedBandwidth (r : NodeDescriptor) :
    r.clampedBandwidth.toNat = min 1000000000 (max 1000 r.bandwidth.toNat) := by
  simp only [NodeDescriptor.clampedBandwidth, lt_iff_toNat_lt]
  split_ifs with hlow hhigh hhigh
  all_goals simp only [reduceToNat] at *
  all_goals omega

/-- The scaling does not overflow. -/
theorem toNat_scaledBandwidth :
    (cons.scaledBandwidth requiredFlags r).toNat = cons.exactWeight requiredFlags r := by
  have hweighted : (cons.weightedBandwidth requiredFlags r).toNat
      = if ∃ i, cons.bwWeights i ≠ 0 then
          min 1000000000 (max 1000 r.bandwidth.toNat) *
            (cons.positionWeight requiredFlags r).toInt.toNat / 10000
        else min 1000000000 (max 1000 r.bandwidth.toNat) := by
    rw [WeightedConsensus.weightedBandwidth, apply_ite UInt64.toNat, UInt64.toNat_div,
      UInt64.toNat_mul, UInt64.toNat_ofNat', toNat_clampedBandwidth]
    have hweight : (cons.positionWeight requiredFlags r).toNatClampNeg < 2 ^ 31 := by
      have hlt := Int32.toInt_lt (cons.positionWeight requiredFlags r)
      rw [Int32.toNatClampNeg]
      omega
    have hproduct : min 1000000000 (max 1000 r.bandwidth.toNat) *
        (cons.positionWeight requiredFlags r).toNatClampNeg < 2 ^ 64 :=
      (Nat.mul_le_mul (min_le_left _ _) hweight.le).trans_lt (by decide)
    rw [Nat.mod_eq_of_lt (hweight.trans (by decide)), Nat.mod_eq_of_lt hproduct]
    rfl
  have hzero : (cons.weightedBandwidth requiredFlags r = 0)
      ↔ (cons.weightedBandwidth requiredFlags r).toNat = 0 := by
    simp [← UInt64.toNat_inj]
  rw [WeightedConsensus.scaledBandwidth, apply_ite UInt64.toNat,
    WeightedConsensus.exactWeight, ← hweighted, UInt64.toNat_one]
  simp only [hzero]
  split <;> omega

theorem totalBw_eq : cons.totalBw requiredFlags excludeIds
    = Weighted.sumOf (cons.weights requiredFlags excludeIds) :=
  (before_length _).symm

theorem weights_fit : Weighted.sumOf (cons.weights requiredFlags excludeIds) < 2 ^ 64 :=
  before_scaledBandwidth_lt ((length_filter_le _ cons.relays).trans cons.relays_le)

variable (hne : cons.candidates requiredFlags excludeIds ≠ [])
include hne

theorem totalBw_pos : 0 < cons.totalBw requiredFlags excludeIds := by
  obtain ⟨r, hr⟩ := exists_mem_of_ne_nil _ hne
  refine (scaledBandwidth_pos cons requiredFlags r).trans_le (single_le_sum ?_ _ ?_)
  · exact fun _ _ => Nat.zero_le _
  · exact mem_map_of_mem (mem_map_of_mem hr)

theorem moorNodeSelectRelay_of_ne_nil :
    moorNodeSelectRelay cons requiredFlags excludeIds draws
      = (Weighted.choose (cons.scaledBandwidth requiredFlags)
          (cons.candidates requiredFlags excludeIds) draws).map fun (r, draws) => (some r, draws) :=
  if_neg fun hempty => hne (isEmpty_iff.mp hempty)

theorem map_fst_moorNodeSelectRelay :
    (moorNodeSelectRelay cons requiredFlags excludeIds draws).map Prod.fst
      = ((Weighted.choose (cons.scaledBandwidth requiredFlags)
          (cons.candidates requiredFlags excludeIds) draws).map Prod.fst).map some := by
  rw [moorNodeSelectRelay_of_ne_nil hne, Option.map_map, Option.map_map]
  rfl

omit hne

/-- Nothing is chosen exactly if nothing passes the filters. -/
theorem moorNodeSelectRelay_eq_none_iff (draws : List UInt64) :
    (∃ rest, moorNodeSelectRelay cons requiredFlags excludeIds draws = some (none, rest))
      ↔ ∀ r ∈ cons.relays, ¬r.passes requiredFlags excludeIds := by
  rw [← filter_eq_nil_iff]
  constructor
  · rintro ⟨rest, hselect⟩
    by_contra hne
    rw [moorNodeSelectRelay_of_ne_nil hne] at hselect
    obtain ⟨_, -, heq⟩ := map_eq_some_iff.mp hselect
    exact nomatch (Prod.mk.inj heq).1
  · intro hnil
    refine ⟨draws, ?_⟩
    rw [moorNodeSelectRelay, hnil]
    rfl

/-- Relays are chosen by their weights: what can be chosen, that no sum overflows, for which words
below the total a candidate is chosen, and what follows for random sequences. -/
structure ExactlyWeighted (cons : WeightedConsensus) (requiredFlags : UInt32)
    (excludeIds : List (Field 32)) : Prop where
  /-- Only a relay that passes the filters is returned. -/
  passes : ∀ draws r rest,
    moorNodeSelectRelay cons requiredFlags excludeIds draws = some (some r, rest) →
      r ∈ cons.relays ∧ r.passes requiredFlags excludeIds
  /-- None is returned exactly when no relay passes. -/
  none_iff : ∀ draws,
    (∃ rest, moorNodeSelectRelay cons requiredFlags excludeIds draws = some (none, rest))
      ↔ ∀ r ∈ cons.relays, ¬r.passes requiredFlags excludeIds
  /-- The weights are the numbers that they stand for. -/
  weight_eq : ∀ r, (cons.scaledBandwidth requiredFlags r).toNat = cons.exactWeight requiredFlags r
  /-- So are the running totals, and the last is the sum of the weights. -/
  cumulative_eq : ∀ i < (cons.weights requiredFlags excludeIds).length,
    ((Weighted.cumulative 0 (cons.weights requiredFlags excludeIds)).getD i 0).toNat
      = (((cons.weights requiredFlags excludeIds).take (i + 1)).map UInt64.toNat).sum
  total_eq : (Weighted.total (cons.weights requiredFlags excludeIds)).toNat
    = cons.totalBw requiredFlags excludeIds
  /-- The words that are not rejected are those below a multiple of the total. -/
  dvd_limit : cons.totalBw requiredFlags excludeIds
    ∣ (Weighted.limit (Weighted.total (cons.weights requiredFlags excludeIds))).toNat
  /-- A word that is not rejected chooses the candidate at the place of its remainder. -/
  select_cons : cons.candidates requiredFlags excludeIds ≠ [] → ∀ d draws,
    moorNodeSelectRelay cons requiredFlags excludeIds (d :: draws)
      = if d < Weighted.limit (Weighted.total (cons.weights requiredFlags excludeIds)) then
          (cons.candidates requiredFlags excludeIds)[Weighted.place
            (cons.weights requiredFlags excludeIds)
            (d % Weighted.total (cons.weights requiredFlags excludeIds))]?.map
            fun r => (some r, draws)
        else moorNodeSelectRelay cons requiredFlags excludeIds draws
  /-- Each candidate is at the place of as many remainders as its weight. -/
  card_place : ∀ i (hi : i < (cons.weights requiredFlags excludeIds).length),
    #{r ∈ range (cons.totalBw requiredFlags excludeIds) |
        Weighted.place (cons.weights requiredFlags excludeIds) (UInt64.ofNat r) = i}
      = (cons.weights requiredFlags excludeIds)[i].toNat
  /-- Among the sequences of random words for which the choice ends, each relay has the share of its
  weight, once for each time that it is a candidate. -/
  share : cons.candidates requiredFlags excludeIds ≠ [] → ∀ n r,
    #{v : Fin n → Fin (2 ^ 64) | (moorNodeSelectRelay cons requiredFlags excludeIds
          (Weighted.words v)).map Prod.fst = some (some r)} *
        cons.totalBw requiredFlags excludeIds
      = (cons.candidates requiredFlags excludeIds).count r * cons.exactWeight requiredFlags r *
        #{v : Fin n → Fin (2 ^ 64) | ((moorNodeSelectRelay cons requiredFlags excludeIds
          (Weighted.words v)).map Prod.fst).isSome = true}
  /-- Each word at least halves the share of the sequences for which the choice does not end. -/
  ends : cons.candidates requiredFlags excludeIds ≠ [] → ∀ n,
    #{v : Fin n → Fin (2 ^ 64) | (moorNodeSelectRelay cons requiredFlags excludeIds
        (Weighted.words v)).map Prod.fst = none} * 2 ^ n ≤ (2 ^ 64) ^ n

/-- Relays are chosen by their weights, whatever the consensus and its weights, the flags and the
exclusions. -/
theorem node_select_relay_exactly_weighted (cons : WeightedConsensus) (requiredFlags : UInt32)
    (excludeIds : List (Field 32)) : ExactlyWeighted cons requiredFlags excludeIds where
  passes _ _ _ := mem_of_moorNodeSelectRelay
  none_iff := moorNodeSelectRelay_eq_none_iff
  weight_eq _ := toNat_scaledBandwidth
  cumulative_eq _ hi := Weighted.toNat_cumulative_zero weights_fit hi
  total_eq := (Weighted.toNat_total weights_fit).trans totalBw_eq.symm
  dvd_limit := by
    rw [toNat_limit, toNat_total weights_fit, ← totalBw_eq]
    exact Nat.dvd_mul_left _ _
  select_cons hne d draws := by
    rw [moorNodeSelectRelay_of_ne_nil hne, moorNodeSelectRelay_of_ne_nil hne, choose_cons,
      WeightedConsensus.weights, apply_ite (Option.map _), Option.map_map]
    rfl
  card_place i hi := by
    rw [totalBw_eq]
    exact card_place weights_fit hi
  share hne n r := by
    have hpos := totalBw_pos hne
    rw [totalBw_eq] at hpos ⊢
    have hchosen : ∀ o : Option NodeDescriptor, o.map some = some (some r) ↔ o = some r := by
      rintro (_ | _) <;> simp
    have hshare := card_choose_mul hne hpos weights_fit r n
    simp only [map_fst_moorNodeSelectRelay hne, hchosen, isSome_map,
      ← toNat_scaledBandwidth] at hshare ⊢
    exact hshare
  ends hne n := by
    have hpos := totalBw_pos hne
    rw [totalBw_eq] at hpos
    simp only [map_fst_moorNodeSelectRelay hne, map_eq_none_iff]
    simpa only [map_eq_none_iff] using
      card_choose_eq_none_mul_le hne hpos weights_fit n

/-- A relay of which only what a choice reads is filled in. -/
def sampleNode (id : UInt8) (flags : UInt32) (family : UInt8) : NodeDescriptor :=
  { NodeDescriptor.zero with
    identityPk := Arr.replicate 32 id
    flags := flags
    bandwidth := 1000
    familyId := Arr.replicate 32 family }

/-- A consensus without weights. -/
def sampleWeighted (relays : List NodeDescriptor) (h : relays.length ≤ moorMaxRelays) :
    WeightedConsensus :=
  ⟨⟨0, 0, 10, relays, [], h, Nat.zero_le _⟩, fun _ => 0⟩

/-- An exit twice as fast as another. -/
theorem node_select_relay_exactly_weighted_sample :
    ∃ cons : WeightedConsensus, cons.totalBw nodeFlagExit [] = 3000 ∧
      #{r ∈ range 3000 | Weighted.place [1000, 2000] (UInt64.ofNat r) = 1} = 2000 := by
  let cons := sampleWeighted [sampleNode 1 nodeFlagExit 0,
    { sampleNode 2 nodeFlagExit 0 with bandwidth := 2000 }] (by decide)
  exact ⟨cons, rfl, (node_select_relay_exactly_weighted cons nodeFlagExit []).card_place 1
    (by decide)⟩

end Moor
