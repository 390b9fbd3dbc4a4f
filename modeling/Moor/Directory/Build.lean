import Moor.Directory.Family
import Moor.Lib.SwapRemove

/-!
# Building a consensus

An authority builds a consensus from its relay table: it sets the times of the epoch, evicts relays
that have not registered for long, sorts the others by their keys, assigns flags from what it has
measured, computes the bandwidth weights, resolves families and signs the body.

The body names only the times and, of each relay, the key and the bandwidth that the relay reports,
so that authorities with the same relays can sign the same body.

## Main results

* `bodyEntries_daPrepareConsensus`: which relays a body names, and in which order.
* `da_bodies_agree_iff`: when two authorities with the same relays sign the same body.
-/

namespace Moor

open Codec List

def moorConsensusInterval : UInt64 := 3600

/-- The consensus as an authority keeps it. -/
structure DaConsensus where
  validAfter : UInt64
  freshUntil : UInt64
  validUntil : UInt64
  relays : List DaRelay
  daSigs : List DaSig
  srvCurrent : Field 32
  srvPrevious : Field 32
  bwWeights : Fin 8 → Int32
  relays_le : relays.length ≤ moorMaxRelays
  daSigs_le : daSigs.length ≤ moorMaxDaAuthorities

/-- The consensus that clients see. -/
def DaConsensus.toConsensus (cons : DaConsensus) : Consensus where
  validAfter := cons.validAfter
  freshUntil := cons.freshUntil
  validUntil := cons.validUntil
  relays := cons.relays.map (·.toNodeDescriptor)
  daSigs := cons.daSigs
  relays_le := by simpa using cons.relays_le
  daSigs_le := cons.daSigs_le

/-- What a build reads: the exits that are called bad, the shared random values of the period and
the consensus with its relay table. -/
structure DaConfig where
  badexitIds : List (Field 32)
  srvCurrent : Field 32
  srvPrevious : Field 32
  consensus : DaConsensus

/-- The public keys of an authority, and signing with its secret keys. -/
structure DaSigner where
  identityPk : Field 32
  pqIdentityPk : Field 1952
  sign : Bytes → Field 64
  mldsaSign : Bytes → Option (Field 3309)

/-! ### Times and eviction -/

/-- The epoch of a time. In the last seconds of an epoch it is the next one. -/
def consensusEpoch (now : UInt64) : UInt64 :=
  let epoch := now / moorConsensusInterval * moorConsensusInterval
  let nextEpoch := epoch + moorConsensusInterval
  if nextEpoch - now ≤ 3 then nextEpoch else epoch

/-- The relay has not registered for three intervals. -/
def daIsStale (now : UInt64) (r : DaRelay) : Bool :=
  let lastSeen := if r.lastRegistered = 0 then r.published else r.lastRegistered
  decide (now > lastSeen) && decide (now - lastSeen > moorConsensusInterval * 3)

/-- The order of identity keys, as strings of bytes. -/
def relayLe (a b : DaRelay) : Prop := a.identityPk.val ≤ b.identityPk.val
  deriving Decidable

/-! ### Flags -/

/-- The bandwidth an authority counts. What a relay reports counts up to the cap that follows from
the measurement, a product of floating-point numbers that stays abstract. -/
def moorBwAuthEffective (cap : UInt64 → UInt64) (selfReported measured : UInt64) : UInt64 :=
  if measured = 0 then min selfReported (100 * 1024)
  else if selfReported ≤ cap measured then selfReported else cap measured

def daMinBwKb : UInt64 := 4
def daGuardMinTimeKnown : UInt64 := 8 * 86400
def daGuardBootstrapTimeKnown : UInt64 := 24 * 3600

section Flags

variable (cap : UInt64 → UInt64) (now : UInt64)

def DaRelay.effectiveBw (r : DaRelay) : UInt64 :=
  moorBwAuthEffective cap r.bandwidth r.verifiedBandwidth

def DaRelay.uptime (r : DaRelay) : UInt64 :=
  let base := if r.firstSeen ≠ 0 then r.firstSeen else r.published
  if now > base then now - base else 0

def DaRelay.isActive (r : DaRelay) : Bool := decide (r.effectiveBw cap / 1000 ≥ daMinBwKb)

/-- The entry of a list at a place of its sorted order. -/
def nthSmallest (xs : List UInt64) (n : ℕ) : UInt64 :=
  (xs.insertionSort fun a b => a.toNat ≤ b.toNat).getD n 0

/-- The thresholds for the flags of the relays of a table. -/
structure FlagThresholds where
  fastBw : UInt64
  stableUptime : UInt64
  guardBw : UInt64
  guardTk : UInt64

def flagThresholds (active : List DaRelay) : FlagThresholds :=
  let nActive := active.length
  let bws := active.map (·.effectiveBw cap)
  let uptimes := active.map (·.uptime now)
  let guardBws := (active.filter fun r => !Flags.has r.flags nodeFlagExit).map (·.effectiveBw cap)
  { fastBw := max (nthSmallest bws (nActive / 8)) (daMinBwKb * 1000)
    stableUptime := nthSmallest uptimes (nActive / 2)
    guardBw := if 0 < guardBws.length then nthSmallest guardBws (guardBws.length / 2)
      else nthSmallest bws (nActive / 2)
    guardTk := max (nthSmallest uptimes (nActive / 8))
      (if 100 ≤ nActive then daGuardMinTimeKnown else daGuardBootstrapTimeKnown) }

/-- The word with a flag set or cleared. -/
def putFlag (flags flag : UInt32) (on : Bool) : UInt32 :=
  if on then flags ||| flag else Flags.clear flags flag

def assignFlags (t : FlagThresholds) (r : DaRelay) : DaRelay :=
  let active := r.isActive cap
  let fast := active && decide (r.effectiveBw cap ≥ t.fastBw)
  let stable := active && decide (r.uptime now ≥ t.stableUptime)
  let flags := putFlag (putFlag r.flags nodeFlagFast fast) nodeFlagStable stable
  let guard := active && Flags.has flags nodeFlagFast && Flags.has flags nodeFlagStable &&
    decide (r.effectiveBw cap ≥ t.guardBw) && decide (r.uptime now ≥ t.guardTk)
  let flags := putFlag flags nodeFlagGuard guard
  -- A relay for the middle only is no guard, and is kept from being an exit by calling it bad.
  let flags := if Flags.has flags nodeFlagMiddleonly then
    putFlag (putFlag flags nodeFlagGuard false) nodeFlagBadexit true else flags
  { r with flags }

def daComputeFlagsStatistical (relays : List DaRelay) : List DaRelay :=
  let active := relays.filter (·.isActive cap)
  if active.isEmpty then relays
  else relays.map (assignFlags cap now (flagThresholds cap now active))

end Flags

/-! ### Bandwidth weights -/

def classBandwidth (cap : UInt64 → UInt64) (test : DaRelay → Bool) (relays : List DaRelay) :
    Int64 :=
  (relays.filter test).foldl (fun total r => total + (r.effectiveBw cap).toInt64) 0

/-- The weights of the positions before they are clamped, by index, from the bandwidth of guards,
middles, exits and relays that are both, and the total. -/
def rawBwWeights (G M E T : Int64) : List Int32 :=
  let S : Int32 := 10000
  let S64 : Int64 := 10000
  if 3 * E ≥ T ∧ 3 * G ≥ T then
    let wgg := (S64 * (E + M) / (3 * G)).toInt32
    let wee := (S64 * (E + G + M) / (3 * E)).toInt32
    [wgg, S / 3, wee, S / 3, S - wgg, S - wee, S, S / 3]
  else if 3 * E < T ∧ 3 * G < T then
    if E < G then [S, 0, S, S, 0, 0, S, 0] else [S, S, S, 0, 0, 0, S, 0]
  else if 3 * E < T then
    let wgg := (S64 * (M + E) / (3 * G)).toInt32
    [wgg, 0, S, S, S - wgg, 0, S, 0]
  else
    let wee := (S64 * (M + G) / (3 * E)).toInt32
    [S, S, wee, 0, 0, S - wee, S, 0]

def daComputeBwWeights (cap : UInt64 → UInt64) (relays : List DaRelay) : Fin 8 → Int32 :=
  let isGuard (r : DaRelay) := Flags.has r.flags nodeFlagGuard
  let isExit (r : DaRelay) := Flags.has r.flags nodeFlagExit
  let G := classBandwidth cap (fun r => isGuard r && !isExit r) relays
  let M := classBandwidth cap (fun r => !isGuard r && !isExit r) relays
  let E := classBandwidth cap (fun r => !isGuard r && isExit r) relays
  let D := classBandwidth cap (fun r => isGuard r && isExit r) relays
  let T := G + M + E + D
  let T := if T = 0 then 1 else T
  fun i =>
    let w := (rawBwWeights G M E T).getD i.val 0
    if w < 0 then 0 else if w > 10000 then 10000 else w

/-! ### The build -/

/-- Everything a build does to the relay table, at the times that the clock shows to the build and
to the assignment of flags. -/
def daPrepareRelays (C : Crypto) (cap : UInt64 → UInt64) (now flagsNow : UInt64)
    (badexitIds : List (Field 32)) (relays : List DaRelay) : List DaRelay :=
  let relays := SwapRemove.remove (daIsStale now) relays
  let relays := relays.insertionSort relayLe
  let relays := daComputeFlagsStatistical cap flagsNow relays
  daResolveFamilies C badexitIds relays

variable (cap : UInt64 → UInt64)

theorem length_daComputeFlagsStatistical (now : UInt64) (relays : List DaRelay) :
    (daComputeFlagsStatistical cap now relays).length = relays.length := by
  unfold daComputeFlagsStatistical
  dsimp only
  split <;> simp

variable (C : Crypto)

/-- Relays are evicted, and never added. -/
theorem length_daPrepareRelays_le (cap : UInt64 → UInt64) (now flagsNow : UInt64)
    (badexitIds : List (Field 32)) (relays : List DaRelay) :
    (daPrepareRelays C cap now flagsNow badexitIds relays).length ≤ relays.length := by
  rw [daPrepareRelays, length_daResolveFamilies, length_daComputeFlagsStatistical,
    length_insertionSort, (SwapRemove.perm_filter _ relays).length_eq]
  exact length_filter_le ..

/-- The consensus of the epoch, up to the signature. -/
def daPrepareConsensus (C : Crypto) (cap : UInt64 → UInt64) (now flagsNow : UInt64)
    (config : DaConfig) : DaConsensus :=
  let cons := config.consensus
  let epoch := consensusEpoch now
  -- The weights are computed before families are resolved, from the relays with their new flags.
  let sorted := (SwapRemove.remove (daIsStale now) cons.relays).insertionSort relayLe
  { cons with
    validAfter := epoch
    freshUntil := epoch + moorConsensusInterval
    validUntil := epoch + moorConsensusInterval * 3
    relays := daPrepareRelays C cap now flagsNow config.badexitIds cons.relays
    srvCurrent := config.srvCurrent
    srvPrevious := config.srvPrevious
    bwWeights := daComputeBwWeights cap (daComputeFlagsStatistical cap flagsNow sorted)
    relays_le := (length_daPrepareRelays_le ..).trans cons.relays_le }

/-- The authority's entry over what was in its slot. -/
def daOwnSig (C : Crypto) (signer : DaSigner) (body : Bytes) (slot : DaSig) : DaSig :=
  let sig := { slot with
    identityPk := signer.identityPk, signature := signer.sign (C.hash body).val }
  if signer.pqIdentityPk = Field.zero 1952 then { sig with hasPq := false }
  else match signer.mldsaSign body with
    | some pqSignature => { sig with pqSignature, pqPk := signer.pqIdentityPk, hasPq := true }
    | none => { sig with hasPq := false }

/-- The slot of an authority, if it has one. -/
def daSigSlot (identityPk : Field 32) (daSigs : List DaSig) : Option ℕ :=
  daSigs.findIdx? fun sig => sig.identityPk = identityPk

/-- The slots with one changed, or one added if the authority has none and there is room. -/
def daPutSig (daSigs : List DaSig) (identityPk : Field 32) (put : DaSig → DaSig) :
    Option (List DaSig) :=
  match daSigSlot identityPk daSigs with
  | some i => some (daSigs.modify i put)
  | none =>
    if daSigs.length ≥ moorMaxDaAuthorities then none
    else some (daSigs ++
      [put ⟨Field.zero 64, Field.zero 32, Field.zero 3309, Field.zero 1952, false⟩])

theorem length_daPutSig_le {daSigs daSigs' : List DaSig} {identityPk : Field 32}
    {put : DaSig → DaSig} (h : daPutSig daSigs identityPk put = some daSigs')
    (hle : daSigs.length ≤ moorMaxDaAuthorities) : daSigs'.length ≤ moorMaxDaAuthorities := by
  unfold daPutSig at h
  split at h
  · rw [← Option.some_inj.mp h, length_modify]
    exact hle
  split at h
  · cases h
  · rw [← Option.some_inj.mp h, length_append, length_singleton]
    omega

/-- The consensus with the authority's signature of its body. Without room for one the consensus
stays without it. -/
def daSignConsensus (C : Crypto) (signer : DaSigner) (cons : DaConsensus) : DaConsensus :=
  match consensusBodyBuild cons.toConsensus with
  | none => cons
  | some body =>
    match h : daPutSig cons.daSigs signer.identityPk (daOwnSig C signer body) with
    | none => cons
    | some daSigs => { cons with daSigs, daSigs_le := length_daPutSig_le h cons.daSigs_le }

def daBuildConsensus (C : Crypto) (cap : UInt64 → UInt64) (signer : DaSigner)
    (now flagsNow : UInt64) (config : DaConfig) : DaConfig :=
  { config with
    consensus := daSignConsensus C signer (daPrepareConsensus C cap now flagsNow config) }

/-! ### What the body says -/

def DaRelay.bodyEntry (r : DaRelay) : Field 32 × UInt64 := (r.identityPk, r.bandwidth)

/-- Bodies are equal if and only if times and entries are. -/
theorem DaConsensus.body_eq_iff (c₁ c₂ : DaConsensus) :
    consensusBodyBuild c₁.toConsensus = consensusBodyBuild c₂.toConsensus ↔
      c₁.validAfter = c₂.validAfter ∧ c₁.freshUntil = c₂.freshUntil ∧
      c₁.validUntil = c₂.validUntil ∧
      c₁.relays.map DaRelay.bodyEntry = c₂.relays.map DaRelay.bodyEntry := by
  have hrelays : Forall₂ (fun r s => r.identityPk = s.identityPk ∧ r.bandwidth = s.bandwidth)
      c₁.toConsensus.relays c₂.toConsensus.relays ↔
        c₁.relays.map DaRelay.bodyEntry = c₂.relays.map DaRelay.bodyEntry := by
    rw [← forall₂_eq_eq_eq, forall₂_map_left_iff, forall₂_map_right_iff]
    simp [DaConsensus.toConsensus, DaRelay.bodyEntry]
  rw [consensusBodyBuild_eq_iff, hrelays]
  rfl

/-- Flags are not part of the body. -/
theorem map_bodyEntry_daComputeFlagsStatistical (now : UInt64) (relays : List DaRelay) :
    (daComputeFlagsStatistical cap now relays).map DaRelay.bodyEntry
      = relays.map DaRelay.bodyEntry := by
  unfold daComputeFlagsStatistical
  dsimp only
  split
  · rfl
  · rw [map_map]
    rfl

/-- Families are not part of the body. -/
theorem map_bodyEntry_daResolveFamilies (badexitIds : List (Field 32)) (relays : List DaRelay) :
    (daResolveFamilies C badexitIds relays).map DaRelay.bodyEntry
      = relays.map DaRelay.bodyEntry := by
  have hflag : ∀ r : DaRelay, (flagBadexit badexitIds r).bodyEntry = r.bodyEntry := by
    intro r
    unfold flagBadexit
    split <;> rfl
  refine ext_getElem? ?_
  intro i
  simp only [getElem?_map, getElem?_daResolveFamilies, Option.map_map]
  congr 1
  funext r
  exact hflag _

/-- The body names the relays that are not stale, in the order of their keys. -/
theorem map_bodyEntry_daPrepareRelays (cap : UInt64 → UInt64) (now flagsNow : UInt64)
    (badexitIds : List (Field 32)) (relays : List DaRelay) :
    (daPrepareRelays C cap now flagsNow badexitIds relays).map DaRelay.bodyEntry
      = ((SwapRemove.remove (daIsStale now) relays).insertionSort relayLe).map
          DaRelay.bodyEntry := by
  rw [daPrepareRelays, map_bodyEntry_daResolveFamilies, map_bodyEntry_daComputeFlagsStatistical]

/-- The signature is not part of the body. -/
theorem daSignConsensus_body (signer : DaSigner) (cons : DaConsensus) :
    consensusBodyBuild (daSignConsensus C signer cons).toConsensus
      = consensusBodyBuild cons.toConsensus := by
  refine (DaConsensus.body_eq_iff _ _).mpr ?_
  unfold daSignConsensus
  split
  · exact ⟨rfl, rfl, rfl, rfl⟩
  · split <;> exact ⟨rfl, rfl, rfl, rfl⟩

theorem daSignConsensus_frame (signer : DaSigner) (cons : DaConsensus) :
    (daSignConsensus C signer cons).relays = cons.relays ∧
      (daSignConsensus C signer cons).srvCurrent = cons.srvCurrent := by
  unfold daSignConsensus
  split
  · exact ⟨rfl, rfl⟩
  · split <;> exact ⟨rfl, rfl⟩

/-- A consensus is signed if there is room for the signature. -/
theorem daSignConsensus_cases (signer : DaSigner) (cons : DaConsensus) :
    ∃ body, consensusBodyBuild cons.toConsensus = some body ∧
      ((daPutSig cons.daSigs signer.identityPk (daOwnSig C signer body) = none ∧
          daSignConsensus C signer cons = cons) ∨
        ∃ daSigs, daPutSig cons.daSigs signer.identityPk (daOwnSig C signer body) = some daSigs ∧
          (daSignConsensus C signer cons).daSigs = daSigs) := by
  refine ⟨_, consensusBodyBuild_eq cons.toConsensus, ?_⟩
  unfold daSignConsensus
  split
  · rename_i hbody
    rw [consensusBodyBuild_eq] at hbody
    cases hbody
  rename_i body hbody
  rw [consensusBodyBuild_eq, Option.some_inj] at hbody
  rw [hbody]
  split
  · exact .inl ⟨‹_›, rfl⟩
  · exact .inr ⟨_, ‹_›, rfl⟩

instance : Std.Total relayLe := ⟨fun a b => List.le_total a.identityPk.val b.identityPk.val⟩

instance : IsTrans DaRelay relayLe := ⟨fun _ _ _ hab hbc => List.le_trans hab hbc⟩

/-- Relays with distinct keys have one sorted order. -/
theorem insertionSort_eq_of_perm {rs ss : List DaRelay} (hperm : rs.Perm ss)
    (hnodup : (rs.map (·.identityPk)).Nodup) :
    rs.insertionSort relayLe = ss.insertionSort relayLe := by
  have hrs := List.perm_insertionSort relayLe rs
  have hss := perm_insertionSort relayLe ss
  refine Perm.eq_of_pairwise ?_ (pairwise_insertionSort relayLe rs)
    (pairwise_insertionSort relayLe ss) (hrs.trans (hperm.trans hss.symm))
  intro a b ha hb hab hba
  have hkey : a.identityPk = b.identityPk := Subtype.ext (List.le_antisymm hab hba)
  exact List.inj_on_of_nodup_map hnodup (hrs.mem_iff.mp ha)
    (hperm.mem_iff.mpr (hss.mem_iff.mp hb)) hkey

variable {r : DaRelay}

/-- The keys that are left after the eviction. -/
theorem mem_survivors {now : UInt64} {relays : List DaRelay} :
    r ∈ (SwapRemove.remove (daIsStale now) relays).insertionSort relayLe ↔
      r ∈ relays ∧ daIsStale now r = false := by
  simp [(SwapRemove.perm_filter _ relays).mem_iff]

/-- A relay that the one clock leaves in the table and that is in the other's body is not stale by
the other clock. -/
theorem not_stale_of_map_bodyEntry_eq {now₁ now₂ : UInt64} {rs ss : List DaRelay}
    (hperm : rs.Perm ss) (hnodup : (rs.map (·.identityPk)).Nodup)
    (h : ((SwapRemove.remove (daIsStale now₁) rs).insertionSort relayLe).map DaRelay.bodyEntry
      = ((SwapRemove.remove (daIsStale now₂) ss).insertionSort relayLe).map DaRelay.bodyEntry)
    (hr : r ∈ rs) (hfresh : daIsStale now₁ r = false) : daIsStale now₂ r = false := by
  have hmem := mem_map_of_mem (f := DaRelay.bodyEntry) (mem_survivors.mpr ⟨hr, hfresh⟩)
  rw [h, mem_map] at hmem
  obtain ⟨s, hs, heq⟩ := hmem
  have hs := mem_survivors.mp hs
  have hsr : s = r := inj_on_of_nodup_map hnodup (hperm.mem_iff.mpr hs.1) hr
    (congrArg Prod.fst heq)
  rw [← hsr]
  exact hs.2

/-- Clocks that agree on which relays are stale leave the same relays in the same order. -/
theorem survivors_eq {now₁ now₂ : UInt64} {rs ss : List DaRelay} (hperm : rs.Perm ss)
    (hnodup : (rs.map (·.identityPk)).Nodup) (h : ∀ r ∈ rs, daIsStale now₁ r = daIsStale now₂ r) :
    (SwapRemove.remove (daIsStale now₁) rs).insertionSort relayLe
      = (SwapRemove.remove (daIsStale now₂) ss).insertionSort relayLe := by
  have hrs := SwapRemove.perm_filter (daIsStale now₁) rs
  have hss := SwapRemove.perm_filter (daIsStale now₂) ss
  have hfilter : rs.filter (fun r => !daIsStale now₁ r) = rs.filter fun r => !daIsStale now₂ r := by
    refine filter_congr ?_
    intro r hr
    rw [h r hr]
  refine insertionSort_eq_of_perm ?_ ?_
  · exact hrs.trans (hfilter ▸ (hperm.filter _).trans hss.symm)
  · rw [(hrs.map _).nodup_iff]
    exact hnodup.sublist (filter_sublist.map _)

/-- Two authorities that hold the same relays with distinct keys, in any order, and build at times
of one epoch sign the same body if and only if their clocks agree on which relays are stale. -/
theorem da_bodies_agree_iff (C : Crypto) (cap : UInt64 → UInt64) (signer₁ signer₂ : DaSigner)
    (config₁ config₂ : DaConfig) (now₁ now₂ flagsNow₁ flagsNow₂ : UInt64)
    (hperm : config₁.consensus.relays.Perm config₂.consensus.relays)
    (hnodup : (config₁.consensus.relays.map (·.identityPk)).Nodup)
    (hepoch : consensusEpoch now₁ = consensusEpoch now₂) :
    consensusBodyBuild (daBuildConsensus C cap signer₁ now₁ flagsNow₁ config₁).consensus.toConsensus
      = consensusBodyBuild
          (daBuildConsensus C cap signer₂ now₂ flagsNow₂ config₂).consensus.toConsensus ↔
    ∀ r ∈ config₁.consensus.relays, daIsStale now₁ r = daIsStale now₂ r := by
  simp only [daBuildConsensus, daSignConsensus_body, DaConsensus.body_eq_iff, daPrepareConsensus,
    hepoch, true_and, map_bodyEntry_daPrepareRelays]
  constructor
  · intro h r hr
    have hfwd := not_stale_of_map_bodyEntry_eq hperm hnodup h hr
    have hbwd := not_stale_of_map_bodyEntry_eq hperm.symm
      ((hperm.map _).nodup_iff.mp hnodup) h.symm (hperm.mem_iff.mp hr)
    rw [Bool.eq_iff_iff, ← not_iff_not, Bool.not_eq_true, Bool.not_eq_true]
    exact ⟨hfwd, hbwd⟩
  · intro h
    rw [survivors_eq hperm hnodup h]

/-- An authority with a table of relays and nothing else. -/
def sampleDaConfig (relays : List DaRelay) (h : relays.length ≤ moorMaxRelays) : DaConfig where
  badexitIds := []
  srvCurrent := Field.zero 32
  srvPrevious := Field.zero 32
  consensus := {
    validAfter := 0
    freshUntil := 0
    validUntil := 0
    relays := relays
    daSigs := []
    srvCurrent := Field.zero 32
    srvPrevious := Field.zero 32
    bwWeights := fun _ => 0
    relays_le := h
    daSigs_le := Nat.zero_le _ }

/-- An authority whose keys repeat one byte, with signatures that the stand-ins accept. -/
def sampleDaSigner (b : UInt8) : DaSigner where
  identityPk := Arr.replicate 32 b
  pqIdentityPk := Arr.replicate 1952 b
  sign _ := Arr.replicate 64 b
  mldsaSign _ := some (Arr.replicate 3309 b)

def sampleRegistered (b : UInt8) (time : UInt64) : DaRelay :=
  { sampleDaRelay b [] with lastRegistered := time }

/-- Two authorities that know two relays in different orders and build a second apart. -/
theorem da_bodies_agree_iff_sample :
    consensusBodyBuild (daBuildConsensus Crypto.sample id (sampleDaSigner 1) 10900 10900
      (sampleDaConfig [sampleRegistered 1 9000, sampleRegistered 2 9000]
        (by decide))).consensus.toConsensus
      = consensusBodyBuild (daBuildConsensus Crypto.sample id (sampleDaSigner 2) 10901 10901
      (sampleDaConfig [sampleRegistered 2 9000, sampleRegistered 1 9000]
        (by decide))).consensus.toConsensus :=
  (da_bodies_agree_iff Crypto.sample id (sampleDaSigner 1) (sampleDaSigner 2)
    (sampleDaConfig [sampleRegistered 1 9000, sampleRegistered 2 9000] (by decide))
    (sampleDaConfig [sampleRegistered 2 9000, sampleRegistered 1 9000] (by decide))
    10900 10901 10900 10901 (Perm.swap ..) (by decide) (by decide)).mpr (by decide)

/-- A relay that registered three intervals before the first of two builds of one epoch is in the
first body and not in the second one. -/
theorem da_bodies_differ :
    consensusEpoch 10900 = consensusEpoch 10901 ∧
    consensusBodyBuild (daBuildConsensus Crypto.sample id (sampleDaSigner 1) 10900 10900
      (sampleDaConfig [sampleRegistered 1 100] (by decide))).consensus.toConsensus
      ≠ consensusBodyBuild (daBuildConsensus Crypto.sample id (sampleDaSigner 2) 10901 10901
      (sampleDaConfig [sampleRegistered 1 100] (by decide))).consensus.toConsensus := by
  decide +kernel

end Moor
