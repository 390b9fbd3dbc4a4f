import Moor.Directory.Build
import Moor.Inet
import Moor.Lib.Run
import Moor.Node.Wire

/-!
# A directory authority and the snapshot it serves

Relays publish their descriptors to an authority, and its peers send it descriptors and votes. The
handlers change the relay table, rebuild and sign the consensus, attach the signatures of peers to
it, and take the snapshot that clients are served from. Each handler works under a lock, so that a
run of an authority is a sequence of their critical sections in any order.

A rebuild replaces the authority's own signature and leaves those of its peers in their slots.

## Main results

* `signaturesSound_daSignConsensus`: which signatures a rebuild leaves valid.
* `published_signatures_verify`: the signatures of the snapshot verify over its body.
-/

namespace Moor

open Codec List
open Option (map_eq_some_iff map_some some_inj)

def nodeFeatureCellKem : UInt32 := Flags.bit 4
def nodeFeaturesRequired : UInt32 := nodeFeatureCellKem ||| nodeFeatureBuildId ||| nodeFeatureFalcon
def moorMinProtocolVersion : UInt16 := 4

/-- The countries and networks of addresses. -/
structure GeoipDb where
  lookup : Bytes → Option (UInt16 × UInt32)
  countryForAddr : Bytes → UInt16

/-- A peer that an authority is configured with. -/
structure DaPeer where
  identityPk : Field 32
  pqIdentityPk : Field 1952
  hasPq : Bool

/-- What an authority is configured with. The file of banned relays is given by its lines. -/
structure DaEnv where
  crypto : Crypto
  inet : Inet
  cap : UInt64 → UInt64
  signer : DaSigner
  peers : List DaPeer
  buildId : Field 16
  bannedRelays : List Bytes
  geoip : Option GeoipDb

/-- The state of an authority. The snapshot is the consensus that it was serialised from. -/
structure DaState where
  config : DaConfig
  published : Option Consensus

/-- A new authority. -/
def DaState.init (badexitIds : List (Field 32)) : DaState where
  config := {
    badexitIds := badexitIds
    srvCurrent := Field.zero 32
    srvPrevious := Field.zero 32
    consensus := {
      validAfter := 0
      freshUntil := 0
      validUntil := 0
      relays := []
      daSigs := []
      srvCurrent := Field.zero 32
      srvPrevious := Field.zero 32
      bwWeights := fun _ => 0
      relays_le := Nat.zero_le _
      daSigs_le := Nat.zero_le _ } }
  published := none

/-! ### Admission -/

/-- The private IPv4 ranges of the authority: how far an address is shifted, and what is left. -/
def daPrivateRanges : List (ℕ × Ipv4) :=
  [(24, 127), (24, 10), (20, (172 <<< 4) ||| 1), (16, (192 <<< 8) ||| 168),
   (16, (169 <<< 8) ||| 254), (24, 0)]

def daIsPrivateAddress (I : Inet) (addr : Bytes) : Bool :=
  (I.inetPton4 addr).any fun ip : Ipv4 => daPrivateRanges.any fun r => ip >>> r.1 = r.2

/-- The two hexadecimal digits of a byte. -/
def hexByte (b : UInt8) : Bytes :=
  [b >>> 4, b &&& 15].map fun d => if d < 10 then 48 + d else 87 + d

variable (env : DaEnv) (now : UInt64) (desc : NodeDescriptor)

/-- A line of the file of banned relays names the relay: by nickname, by address or the start of
it, or by at least eight digits of its identity key. -/
def bannedBy (line : Bytes) : Bool :=
  !line.isEmpty && line.head? != some 35 &&
    (line.map Text.tolower == (cString desc.nickname).map Text.tolower ||
      line.isPrefixOf (cString desc.address) ||
      (decide (8 ≤ line.length) &&
        (line.map Text.tolower).isPrefixOf (desc.identityPk.val.flatMap hexByte)))

/-- The checks that a descriptor has to pass. -/
def daAdmits (desc : NodeDescriptor) : Bool :=
  nodeVerifyDescriptor env.crypto desc &&
    desc.features &&& nodeFeaturesRequired == nodeFeaturesRequired &&
    decide (desc.protocolVersion ≥ moorMinProtocolVersion) &&
    desc.buildId == env.buildId &&
    !daIsPrivateAddress env.inet (cString desc.address) &&
    !env.bannedRelays.any (bannedBy desc)

/-! ### The relay table -/

/-- The country and the network of a relay, from its address or else its IPv6 address. -/
def daLocate (r : DaRelay) : DaRelay :=
  match env.geoip with
  | none => r
  | some db =>
    match db.lookup (cString desc.address) with
    | some (countryCode, asNumber) => { r with countryCode, asNumber }
    | none =>
      if nonEmpty desc.address6 then
        let cc6 := db.countryForAddr (cString desc.address6)
        if cc6 ≠ 0 then { r with countryCode := cc6 } else r
      else r

theorem exists_daLocate_eq (r : DaRelay) :
    ∃ countryCode asNumber, daLocate env desc r = { r with countryCode, asNumber } := by
  unfold daLocate
  split
  · exact ⟨_, _, rfl⟩
  split
  · exact ⟨_, _, rfl⟩
  split
  · dsimp only
    split
    · exact ⟨_, _, rfl⟩
    · exact ⟨_, _, rfl⟩
  · exact ⟨_, _, rfl⟩

/-- A known relay publishes again: what the authority has found out is kept. -/
def daRefreshRelay (r : DaRelay) : DaRelay :=
  daLocate env desc {
    toNodeDescriptor := { desc with
      verifiedBandwidth := r.verifiedBandwidth
      flags := desc.flags ||| (r.flags &&& nodeFlagsDaAssigned) }
    firstSeen := r.firstSeen
    lastRegistered := now
    probeFailures := r.probeFailures }

/-- A relay that the authority sees for the first time. -/
def daNewRelay (desc : NodeDescriptor) : DaRelay where
  toNodeDescriptor := desc
  firstSeen := now
  lastRegistered := now
  probeFailures := 0

/-- Takes up a descriptor. The first entry with its key is refreshed, unless an entry with its
address and port comes before, which is replaced. -/
def daAddRelay (relays : List DaRelay) : Option (List DaRelay) :=
  if !daAdmits env desc then none
  else
    let desc := { desc with flags := Flags.clear desc.flags nodeFlagsDaAssigned }
    match relays.findIdx? fun r => r.identityPk = desc.identityPk ∨
      (cString r.address = cString desc.address ∧ r.orPort = desc.orPort) with
    | some i => some (relays.modify i fun r =>
        if r.identityPk = desc.identityPk then daRefreshRelay env now desc r
        else daNewRelay now desc)
    | none =>
      if relays.length ≥ moorMaxRelays then none
      else some (relays ++ [daLocate env desc (daNewRelay now desc)])

/-- Takes up a descriptor from a peer's consensus at the start, without its signature. -/
def daAddRelayTrusted (relays : List DaRelay) : Option (List DaRelay) :=
  if desc.features &&& nodeFeaturesRequired ≠ nodeFeaturesRequired then none
  else
    match relays.findIdx? fun r => r.identityPk = desc.identityPk with
    | some i => some (relays.modify i fun r =>
        if desc.published > r.published then ⟨desc, 0, 0, 0⟩ else r)
    | none => if relays.length < moorMaxRelays then some (relays ++ [⟨desc, 0, 0, 0⟩]) else none

/-- A known relay in the list of a peer: a newer descriptor is taken over, and of two measurements
the smaller one. -/
def daMergeKnown (r : DaRelay) : DaRelay :=
  let merged := if desc.published > r.published then
    ⟨desc, r.firstSeen, 0, r.probeFailures⟩ else r
  if r.verifiedBandwidth > 0 ∧ desc.verifiedBandwidth > 0 then
    { merged with verifiedBandwidth := min r.verifiedBandwidth desc.verifiedBandwidth }
  else if r.verifiedBandwidth > 0 then { merged with verifiedBandwidth := r.verifiedBandwidth }
  else merged

def daSyncRelay (relays : List DaRelay) (desc : NodeDescriptor) : List DaRelay :=
  if !nodeVerifyDescriptor env.crypto desc then relays
  else if desc.buildId ≠ env.buildId then relays
  else
    match relays.findIdx? fun r => r.identityPk = desc.identityPk with
    | some j => relays.modify j (daMergeKnown desc)
    | none => (daAddRelay env now desc relays).getD relays

/-- What a probe of a relay has shown. -/
structure ProbeResult where
  identityPk : Field 32
  alive : Bool
  exitVerified : Bool
  measuredBw : UInt64

/-- The result of a probe for the relay that is now at its index. -/
def daApplyProbe (res : ProbeResult) (r : DaRelay) : DaRelay :=
  if r.identityPk ≠ res.identityPk then r
  else if res.alive then
    let flags := r.flags ||| nodeFlagRunning
    let flags := if Flags.has flags nodeFlagExit then
      putFlag flags nodeFlagBadexit (!res.exitVerified) else flags
    let cap := max (r.bandwidth * 2) 1000000
    { r with
      probeFailures := 0, flags
      verifiedBandwidth := if res.measuredBw > 0 then min res.measuredBw cap
        else r.verifiedBandwidth }
  else
    let probeFailures := r.probeFailures + 1
    { r with
      probeFailures, flags := Flags.clear r.flags nodeFlagRunning
      lastRegistered := if probeFailures ≥ 3 then 0 else r.lastRegistered }

/-- The results of a round of probes, in the order of the table at its start. -/
def daApplyProbes (results : List ProbeResult) (relays : List DaRelay) : List DaRelay :=
  relays.mapIdx fun i r => match results[i]? with
    | some res => daApplyProbe res r
    | none => r

/-! ### The table fits -/

section

variable {relays relays' : List DaRelay} (hle : relays.length ≤ moorMaxRelays)
include hle

variable {desc : NodeDescriptor}

theorem length_daAddRelay_le {env : DaEnv} {now : UInt64}
    (h : daAddRelay env now desc relays = some relays') : relays'.length ≤ moorMaxRelays := by
  unfold daAddRelay at h
  split at h
  · cases h
  dsimp only at h
  split at h
  · rw [← some_inj.mp h, length_modify]
    exact hle
  split at h
  · cases h
  · rw [← some_inj.mp h, length_append, length_singleton]
    omega

theorem length_daAddRelay_getD_le (env : DaEnv) (now : UInt64) (desc : NodeDescriptor) :
    ((daAddRelay env now desc relays).getD relays).length ≤ moorMaxRelays := by
  cases h : daAddRelay env now desc relays with
  | none => exact hle
  | some relays' => exact length_daAddRelay_le hle h

theorem length_daAddRelayTrusted_le (h : daAddRelayTrusted desc relays = some relays') :
    relays'.length ≤ moorMaxRelays := by
  unfold daAddRelayTrusted at h
  split at h
  · cases h
  split at h
  · rw [← some_inj.mp h, length_modify]
    exact hle
  split at h
  · rw [← some_inj.mp h, length_append, length_singleton]
    omega
  · cases h

theorem length_daSyncRelay_le (env : DaEnv) (now : UInt64) (desc : NodeDescriptor) :
    (daSyncRelay env now relays desc).length ≤ moorMaxRelays := by
  unfold daSyncRelay
  split
  · exact hle
  split
  · exact hle
  split
  · rw [length_modify]
    exact hle
  · exact length_daAddRelay_getD_le hle env now desc

theorem length_foldl_daSyncRelay_le (env : DaEnv) (now : UInt64) (descs : List NodeDescriptor) :
    (descs.foldl (daSyncRelay env now) relays).length ≤ moorMaxRelays := by
  induction descs generalizing relays with
  | nil => exact hle
  | cons desc descs ih => exact ih (length_daSyncRelay_le hle env now desc)

theorem length_daApplyProbes_le (results : List ProbeResult) :
    (daApplyProbes results relays).length ≤ moorMaxRelays := by
  rw [daApplyProbes, length_mapIdx]
  exact hle

end

/-! ### The critical sections -/

/-- What a rebuild finds besides the state: the clock, read twice, and the shared random values. -/
structure BuildInput where
  now : UInt64
  flagsNow : UInt64
  srvCurrent : Field 32
  srvPrevious : Field 32

/-- A vote of a peer, with the hash of the body that it is for. -/
structure Vote where
  bodyHash : Field 32
  peerPk : Field 32
  signature : Field 64

/-- A vote with an ML-DSA signature. -/
structure VotePq extends Vote where
  pqPk : Field 1952
  pqSignature : Field 3309

/-- The critical sections of an authority. A descriptor comes with the time at which it is taken up,
a snapshot with whether it could be written. Votes that are not from a peer's address are refused
before. -/
inductive DaEvent
  /-- A relay publishes: the descriptor is taken up if it passes, and in any case the consensus is
  rebuilt and a snapshot is taken. -/
  | publish (desc : NodeDescriptor) (time : UInt64) (input : BuildInput) (written : Bool)
  /-- A peer floods a descriptor: if it is taken up the consensus is rebuilt. -/
  | propagate (desc : NodeDescriptor) (time : UInt64) (input : BuildInput)
  /-- The relay list of a peer is merged. -/
  | sync (descs : List NodeDescriptor) (time : UInt64)
  /-- A descriptor of a peer's consensus is imported at the start. -/
  | importTrusted (desc : NodeDescriptor)
  /-- The results of a round of probes are entered. -/
  | probed (results : List ProbeResult)
  /-- The consensus is rebuilt, by a timer or after a merge or a round of probes. -/
  | build (input : BuildInput)
  /-- A snapshot is taken, after votes were sent. -/
  | snapshot (written : Bool)
  /-- A peer votes. -/
  | vote (vote : Vote) (input : BuildInput) (written : Bool)
  /-- A peer votes with both signatures. -/
  | votePq (vote : VotePq) (input : BuildInput) (written : Bool)

namespace DaState

/-- The table is replaced. -/
def withRelays (s : DaState) (relays : List DaRelay) (h : relays.length ≤ moorMaxRelays) :
    DaState :=
  { s with config := { s.config with
      consensus := { s.config.consensus with relays, relays_le := h } } }

def rebuild (env : DaEnv) (input : BuildInput) (s : DaState) : DaState :=
  let config := { s.config with srvCurrent := input.srvCurrent, srvPrevious := input.srvPrevious }
  { s with
    config := daBuildConsensus env.crypto env.cap env.signer input.now input.flagsNow config }

def takeSnapshot (written : Bool) (s : DaState) : DaState :=
  if written then { s with published := some s.config.consensus.toConsensus } else s

/-- The signature is put into the slot of the peer, if it has one or there is room. -/
def attach (peerPk : Field 32) (put : DaSig → DaSig) (s : DaState) : Option DaState :=
  match h : daPutSig s.config.consensus.daSigs peerPk put with
  | none => none
  | some daSigs => some { s with config := { s.config with
      consensus := { s.config.consensus with
        daSigs, daSigs_le := length_daPutSig_le h s.config.consensus.daSigs_le } } }

end DaState

/-- A vote that is for the authority's own body, or else a rebuild. -/
def daReceiveVote (env : DaEnv) (vote : Vote) (input : BuildInput) (written : Bool)
    (merge : Bytes → DaState → DaState) (s : DaState) : DaState :=
  if !env.crypto.signVerify vote.signature vote.bodyHash.val vote.peerPk then s
  else
    match consensusBodyBuild s.config.consensus.toConsensus with
    | none => (s.rebuild env input).takeSnapshot written
    | some body =>
      if env.crypto.hash body ≠ vote.bodyHash then (s.rebuild env input).takeSnapshot written
      else if vote.peerPk = env.signer.identityPk then s
      else merge body s

/-- The vote is for another body than the authority's, which is then rebuilt. -/
def voteDiverges (env : DaEnv) (vote : Vote) (s : DaState) : Bool :=
  env.crypto.signVerify vote.signature vote.bodyHash.val vote.peerPk &&
    match consensusBodyBuild s.config.consensus.toConsensus with
    | none => true
    | some body => decide (env.crypto.hash body ≠ vote.bodyHash)

def daMergeVote (env : DaEnv) (vote : Vote) (written : Bool) (s : DaState) : DaState :=
  if !env.peers.any (fun p => p.identityPk = vote.peerPk) then s
  else
    match s.attach vote.peerPk fun slot =>
      { slot with
        identityPk := vote.peerPk, signature := vote.signature, hasPq := false
        pqSignature := Field.zero 3309, pqPk := Field.zero 1952 } with
    | some s' => s'.takeSnapshot written
    | none => s

/-- The first peer with the key of the vote has no other PQ key than that of the vote. -/
def pqKeyTrusted (env : DaEnv) (vote : VotePq) : Bool :=
  match env.peers.find? fun p => p.identityPk = vote.peerPk with
  | some p => !(p.hasPq && p.pqIdentityPk ≠ vote.pqPk)
  | none => false

def daMergeVotePq (env : DaEnv) (vote : VotePq) (written : Bool) (body : Bytes) (s : DaState) :
    DaState :=
  if !pqKeyTrusted env vote then s
  else if !env.crypto.mldsaVerify vote.pqSignature body vote.pqPk then s
  else
    match s.attach vote.peerPk fun slot =>
      { slot with
        identityPk := vote.peerPk, signature := vote.signature, hasPq := true
        pqSignature := vote.pqSignature, pqPk := vote.pqPk } with
    | some s' => s'.takeSnapshot written
    | none => s

/-- One critical section. -/
def daStep (env : DaEnv) (s : DaState) : DaEvent → DaState
  | .publish desc time input written =>
    ((s.withRelays _ (length_daAddRelay_getD_le s.config.consensus.relays_le env time desc)).rebuild
      env input).takeSnapshot written
  | .propagate desc time input =>
    match h : daAddRelay env time desc s.config.consensus.relays with
    | some relays =>
      (s.withRelays relays (length_daAddRelay_le s.config.consensus.relays_le h)).rebuild env input
    | none => s
  | .sync descs time =>
    s.withRelays _ (length_foldl_daSyncRelay_le s.config.consensus.relays_le env time descs)
  | .importTrusted desc =>
    match h : daAddRelayTrusted desc s.config.consensus.relays with
    | some relays =>
      s.withRelays relays (length_daAddRelayTrusted_le s.config.consensus.relays_le h)
    | none => s
  | .probed results =>
    s.withRelays _ (length_daApplyProbes_le s.config.consensus.relays_le results)
  | .build input => s.rebuild env input
  | .snapshot written => s.takeSnapshot written
  | .vote vote input written =>
    daReceiveVote env vote input written (fun _ => daMergeVote env vote written) s
  | .votePq vote input written =>
    daReceiveVote env vote.toVote input written (daMergeVotePq env vote written) s

/-! ### Signatures over the body -/

/-- The signature is valid for the body of the consensus, and so is its PQ part if it has one. -/
def SignatureVerifies (C : Crypto) (cons : Consensus) (sig : DaSig) : Prop :=
  ∃ body, consensusBodyBuild cons = some body ∧
    C.signVerify sig.signature (C.hash body).val sig.identityPk = true ∧
    (sig.hasPq = true → C.mldsaVerify sig.pqSignature body sig.pqPk = true)

variable {C : Crypto} {sig : DaSig} {daSigs : List DaSig} {pk : Field 32} {put : DaSig → DaSig}
  {signer : DaSigner} {s : DaState} {relays : List DaRelay} {env : DaEnv} {vote : Vote}
  {body : Bytes}

theorem SignatureVerifies.congr {c₁ c₂ : Consensus} (h : SignatureVerifies C c₁ sig)
    (hbody : consensusBodyBuild c₂ = consensusBodyBuild c₁) : SignatureVerifies C c₂ sig := by
  obtain ⟨body, hc₁, hsig⟩ := h
  exact ⟨body, hbody.trans hc₁, hsig⟩

instance (C : Crypto) (cons : Consensus) (sig : DaSig) : Decidable (SignatureVerifies C cons sig) :=
  match h : consensusBodyBuild cons with
  | none => .isFalse (by simp [SignatureVerifies, h])
  | some body => decidable_of_iff
      (C.signVerify sig.signature (C.hash body).val sig.identityPk = true ∧
        (sig.hasPq = true → C.mldsaVerify sig.pqSignature body sig.pqPk = true)) (by
    simp [SignatureVerifies, h])

/-- The public keys of the authority verify what its secret keys sign. -/
structure SignerSound (C : Crypto) (signer : DaSigner) : Prop where
  sign : ∀ hash : Field 32, C.signVerify (signer.sign hash.val) hash.val signer.identityPk = true
  mldsaSign : ∀ {body pqSignature}, signer.mldsaSign body = some pqSignature →
    C.mldsaVerify pqSignature body signer.pqIdentityPk = true

/-- The signatures of a consensus are of different authorities and verify over its body. -/
structure SignaturesSound (C : Crypto) (cons : DaConsensus) : Prop where
  distinct : (cons.daSigs.map (·.identityPk)).Nodup
  verifies : ∀ sig ∈ cons.daSigs, SignatureVerifies C cons.toConsensus sig

theorem mem_of_mem_modify {α : Type*} {l : List α} {i : ℕ} {f : α → α} {a : α}
    (h : a ∈ l.modify i f) :
    (∃ b, l[i]? = some b ∧ a = f b) ∨ ∃ j, j ≠ i ∧ l[j]? = some a := by
  obtain ⟨j, hj⟩ := getElem?_of_mem h
  rw [getElem?_modify] at hj
  rcases eq_or_ne i j with rfl | hne
  · simp only [if_true] at hj
    obtain ⟨b, hb, hab⟩ := map_eq_some_iff.mp hj
    exact .inl ⟨b, hb, hab.symm⟩
  · simp only [if_neg hne] at hj
    obtain ⟨b, hb, hab⟩ := map_eq_some_iff.mp hj
    exact .inr ⟨j, hne.symm, hab ▸ hb⟩

theorem eq_of_getElem?_of_nodup_map {α β : Type*} {l : List α} {f : α → β} (h : (l.map f).Nodup)
    {i j : ℕ} {a b : α} (ha : l[i]? = some a) (hb : l[j]? = some b) (hab : f a = f b) : i = j := by
  have hi := (List.getElem?_eq_some_iff.mp ha).1
  refine (getElem?_inj (by simpa using hi) h).mp ?_
  rw [getElem?_map, getElem?_map, ha, hb, map_some, map_some, hab]

theorem getElem?_of_daSigSlot {i : ℕ} (h : daSigSlot pk daSigs = some i) :
    ∃ slot, daSigs[i]? = some slot ∧ slot.identityPk = pk := by
  obtain ⟨hi, hslot, -⟩ := findIdx?_eq_some_iff_getElem.mp h
  exact ⟨_, getElem?_eq_getElem hi, of_decide_eq_true hslot⟩

theorem identityPk_ne_of_daPutSig_eq_none (h : daPutSig daSigs pk put = none)
    (hsig : sig ∈ daSigs) : sig.identityPk ≠ pk := by
  unfold daPutSig at h
  cases hslot : daSigSlot pk daSigs with
  | some i =>
    rw [hslot] at h
    cases h
  | none => simpa using findIdx?_eq_none_iff.mp hslot sig hsig

/-- A signature that is put leaves the slots of all other authorities alone. -/
theorem mem_daPutSig {daSigs' : List DaSig} (hdist : (daSigs.map (·.identityPk)).Nodup)
    (h : daPutSig daSigs pk put = some daSigs') (hsig : sig ∈ daSigs') :
    (∃ slot, sig = put slot) ∨ (sig ∈ daSigs ∧ sig.identityPk ≠ pk) := by
  unfold daPutSig at h
  cases hslot : daSigSlot pk daSigs with
  | some i =>
    rw [hslot] at h
    rw [← some_inj.mp h] at hsig
    obtain ⟨own, hown, hpk⟩ := getElem?_of_daSigSlot hslot
    rcases mem_of_mem_modify hsig with ⟨slot, -, heq⟩ | ⟨j, hne, hj⟩
    · exact .inl ⟨slot, heq⟩
    · refine .inr ⟨mem_of_getElem? hj, ?_⟩
      intro hsame
      exact hne (eq_of_getElem?_of_nodup_map hdist hj hown (hsame.trans hpk.symm))
  | none =>
    simp only [hslot] at h
    split at h
    · cases h
    rw [← some_inj.mp h, mem_append, mem_singleton] at hsig
    rcases hsig with hsig | hsig
    · refine .inr ⟨hsig, ?_⟩
      simpa using findIdx?_eq_none_iff.mp hslot sig hsig
    · exact .inl ⟨_, hsig⟩

/-- Authorities stay different when one puts its signature. -/
theorem nodup_daPutSig {daSigs' : List DaSig} (hput : ∀ slot, (put slot).identityPk = pk)
    (hdist : (daSigs.map (·.identityPk)).Nodup) (h : daPutSig daSigs pk put = some daSigs') :
    (daSigs'.map (·.identityPk)).Nodup := by
  unfold daPutSig at h
  cases hslot : daSigSlot pk daSigs with
  | some i =>
    rw [hslot] at h
    obtain ⟨own, hown, hpk⟩ := getElem?_of_daSigSlot hslot
    have hkeys : (daSigs.modify i put).map (·.identityPk) = daSigs.map (·.identityPk) := by
      refine ext_getElem? ?_
      intro j
      rcases eq_or_ne i j with rfl | hne
      · simp [hown, hput, hpk]
      · simp [hne]
    rw [← some_inj.mp h, hkeys]
    exact hdist
  | none =>
    simp only [hslot] at h
    split at h
    · cases h
    have hother := findIdx?_eq_none_iff.mp hslot
    rw [← some_inj.mp h, map_append, map_singleton, hput,
      nodup_append_comm, singleton_append, nodup_cons, mem_map]
    refine ⟨?_, hdist⟩
    rintro ⟨sig, hsig, hpk⟩
    simpa [hpk] using hother sig hsig

theorem identityPk_daOwnSig (C : Crypto) (signer : DaSigner) (body : Bytes) (slot : DaSig) :
    (daOwnSig C signer body slot).identityPk = signer.identityPk := by
  unfold daOwnSig
  split
  · rfl
  · split <;> rfl

/-- The authority's own signature is valid for the body that it signs. -/
theorem daOwnSig_verifies (h : SignerSound C signer) (body : Bytes) (slot : DaSig) :
    C.signVerify (daOwnSig C signer body slot).signature (C.hash body).val
        (daOwnSig C signer body slot).identityPk = true ∧
      ((daOwnSig C signer body slot).hasPq = true →
        C.mldsaVerify (daOwnSig C signer body slot).pqSignature body
          (daOwnSig C signer body slot).pqPk = true) := by
  unfold daOwnSig
  split
  · exact ⟨h.sign _, fun hpq => by cases hpq⟩
  · split
    · exact ⟨h.sign _, fun _ => h.mldsaSign ‹_›⟩
    · exact ⟨h.sign _, fun hpq => by cases hpq⟩

/-- A rebuild leaves the authorities different and their signatures valid, if it keeps the body or
finds no signature but the authority's own. -/
theorem signaturesSound_daSignConsensus {old cons : DaConsensus} (hsigner : SignerSound C signer)
    (hold : SignaturesSound C old) (hsigs : cons.daSigs = old.daSigs)
    (hkeeps : (∀ sig ∈ old.daSigs, sig.identityPk = signer.identityPk) ∨
      consensusBodyBuild cons.toConsensus = consensusBodyBuild old.toConsensus) :
    SignaturesSound C (daSignConsensus C signer cons) := by
  have hsame := daSignConsensus_body C signer cons
  obtain ⟨body, hbody, hcases⟩ := daSignConsensus_cases C signer cons
  -- A signature of another authority is there only if the body is kept.
  have hother : ∀ sig ∈ cons.daSigs, sig.identityPk ≠ signer.identityPk →
      SignatureVerifies C (daSignConsensus C signer cons).toConsensus sig := by
    intro sig hsig hne
    rw [hsigs] at hsig
    rcases hkeeps with hown | hkept
    · exact absurd (hown sig hsig) hne
    · exact (hold.verifies sig hsig).congr (hsame.trans hkept)
  rcases hcases with ⟨hnone, heq⟩ | ⟨daSigs, hput, hdaSigs⟩
  · refine ⟨by rw [heq, hsigs]; exact hold.distinct, ?_⟩
    intro sig hsig
    rw [heq] at hsig
    exact hother sig hsig (identityPk_ne_of_daPutSig_eq_none hnone hsig)
  rw [hsigs] at hput
  refine ⟨?_, ?_⟩
  · rw [hdaSigs]
    exact nodup_daPutSig (identityPk_daOwnSig C signer body) hold.distinct hput
  intro sig hsig
  rw [hdaSigs] at hsig
  rcases mem_daPutSig hold.distinct hput hsig with ⟨slot, rfl⟩ | ⟨hmem, hne⟩
  · exact ⟨body, hsame.trans hbody, daOwnSig_verifies hsigner body slot⟩
  · exact hother sig (hsigs ▸ hmem) hne

/-! ### Runs -/

/-- What the body says of the relays after a rebuild. -/
def rebuiltEntries (now : UInt64) (relays : List DaRelay) : List (Field 32 × UInt64) :=
  ((SwapRemove.remove (daIsStale now) relays).insertionSort relayLe).map DaRelay.bodyEntry

/-- There is no signature but the authority's own, or the body after a rebuild from the table is
the one of the consensus. -/
def RebuildKeeps (env : DaEnv) (cons : DaConsensus) (now : UInt64) (relays : List DaRelay) : Prop :=
  (∀ sig ∈ cons.daSigs, sig.identityPk = env.signer.identityPk) ∨
    (consensusEpoch now = cons.validAfter ∧
      consensusEpoch now + moorConsensusInterval = cons.freshUntil ∧
      consensusEpoch now + moorConsensusInterval * 3 = cons.validUntil ∧
      rebuiltEntries now relays = cons.relays.map DaRelay.bodyEntry)
  deriving Decidable

/-- There is no signature, or the body says the same of the table. -/
def TableKeeps (cons : DaConsensus) (relays : List DaRelay) : Prop :=
  cons.daSigs = [] ∨ relays.map DaRelay.bodyEntry = cons.relays.map DaRelay.bodyEntry

/-- A vote for another body leads to a rebuild. -/
def VoteKeeps (env : DaEnv) (cons : DaConsensus) (vote : Vote) (now : UInt64) : Prop :=
  env.crypto.signVerify vote.signature vote.bodyHash.val vote.peerPk = true →
    (consensusBodyBuild cons.toConsensus).map env.crypto.hash ≠ some vote.bodyHash →
    RebuildKeeps env cons now cons.relays
  deriving Decidable

/-- The critical section does not change the body under a signature that stays. -/
def KeepsSignatures (env : DaEnv) (s : DaState) : DaEvent → Prop
  | .publish desc time input _ =>
    RebuildKeeps env s.config.consensus input.now
      ((daAddRelay env time desc s.config.consensus.relays).getD s.config.consensus.relays)
  | .propagate desc time input =>
    ∀ relays ∈ daAddRelay env time desc s.config.consensus.relays,
      RebuildKeeps env s.config.consensus input.now relays
  | .sync descs time =>
    TableKeeps s.config.consensus (descs.foldl (daSyncRelay env time) s.config.consensus.relays)
  | .importTrusted desc =>
    ∀ relays ∈ daAddRelayTrusted desc s.config.consensus.relays,
      TableKeeps s.config.consensus relays
  | .build input => RebuildKeeps env s.config.consensus input.now s.config.consensus.relays
  | .vote vote input _ => VoteKeeps env s.config.consensus vote input.now
  | .votePq vote input _ => VoteKeeps env s.config.consensus vote.toVote input.now
  | .probed _ | .snapshot _ => True

instance (cons : DaConsensus) (relays : List DaRelay) : Decidable (TableKeeps cons relays) :=
  decidable_of_iff (cons.daSigs.isEmpty = true ∨ _) (or_congr_left List.isEmpty_iff)

instance (env : DaEnv) (s : DaState) (e : DaEvent) : Decidable (KeepsSignatures env s e) := by
  cases e <;> unfold KeepsSignatures <;> infer_instance

/-- The signatures that the authority holds, and those that it serves, are valid. -/
structure DaState.Sound (C : Crypto) (s : DaState) : Prop where
  held : SignaturesSound C s.config.consensus
  served : ∀ cons ∈ s.published, ∀ sig ∈ cons.daSigs, SignatureVerifies C cons sig

theorem DaState.Sound.takeSnapshot (h : s.Sound C) (written : Bool) :
    (s.takeSnapshot written).Sound C := by
  unfold DaState.takeSnapshot
  split
  · refine ⟨h.held, ?_⟩
    intro cons hcons
    rw [← some_inj.mp hcons]
    exact h.held.verifies
  · exact h

theorem DaState.Sound.withRelays (h : s.Sound C) (hle : relays.length ≤ moorMaxRelays)
    (hkeeps : TableKeeps s.config.consensus relays) : (s.withRelays relays hle).Sound C := by
  refine ⟨⟨h.held.distinct, ?_⟩, h.served⟩
  intro sig hsig
  rcases hkeeps with hnone | hsame
  · exact absurd (hnone ▸ hsig : sig ∈ []) not_mem_nil
  · refine (h.held.verifies sig hsig).congr ?_
    exact (DaConsensus.body_eq_iff _ _).mpr ⟨rfl, rfl, rfl, hsame⟩

theorem DaState.Sound.rebuild (h : s.Sound env.crypto) (hsigner : SignerSound env.crypto env.signer)
    (hle : relays.length ≤ moorMaxRelays) (input : BuildInput)
    (hkeeps : RebuildKeeps env s.config.consensus input.now relays) :
    ((s.withRelays relays hle).rebuild env input).Sound env.crypto := by
  refine ⟨signaturesSound_daSignConsensus hsigner h.held
    (by simp only [daPrepareConsensus, DaState.withRelays])
    (hkeeps.imp_right ?_), h.served⟩
  intro hsame
  rw [DaConsensus.body_eq_iff]
  simpa only [daPrepareConsensus, map_bodyEntry_daPrepareRelays, DaState.withRelays,
    rebuiltEntries] using hsame

/-- A valid signature over the body is put into the slot of a peer. -/
theorem DaState.Sound.attach {s' : DaState} (h : s.Sound C) {peerPk : Field 32}
    (hattach : s.attach peerPk put = some s') (hput : ∀ slot, (put slot).identityPk = peerPk ∧
      SignatureVerifies C s.config.consensus.toConsensus (put slot)) :
    s'.Sound C := by
  unfold DaState.attach at hattach
  split at hattach
  · cases hattach
  rename_i daSigs hsigs
  rw [← some_inj.mp hattach]
  refine ⟨⟨nodup_daPutSig (fun slot => (hput slot).1) h.held.distinct hsigs, ?_⟩, h.served⟩
  intro sig hsig
  have hverifies : SignatureVerifies C s.config.consensus.toConsensus sig := by
    rcases mem_daPutSig h.held.distinct hsigs hsig with ⟨slot, rfl⟩ | ⟨hmem, -⟩
    · exact (hput slot).2
    · exact h.held.verifies sig hmem
  exact hverifies.congr ((DaConsensus.body_eq_iff _ _).mpr ⟨rfl, rfl, rfl, rfl⟩)

/-- A vote for the authority's own body is merged and one for another leads to a rebuild. -/
theorem DaState.Sound.receiveVote (h : s.Sound env.crypto)
    (hsigner : SignerSound env.crypto env.signer) {input : BuildInput} (written : Bool)
    {merge : Bytes → DaState → DaState} (hkeeps : VoteKeeps env s.config.consensus vote input.now)
    (hmerge : ∀ body, consensusBodyBuild s.config.consensus.toConsensus = some body →
      env.crypto.signVerify vote.signature (env.crypto.hash body).val vote.peerPk = true →
      (merge body s).Sound env.crypto) :
    (daReceiveVote env vote input written merge s).Sound env.crypto := by
  unfold daReceiveVote
  split
  · exact h
  rename_i hvalid
  rw [Bool.not_eq_true', Bool.not_eq_false] at hvalid
  have hrebuild (hother : (consensusBodyBuild s.config.consensus.toConsensus).map env.crypto.hash
      ≠ some vote.bodyHash) : ((s.rebuild env input).takeSnapshot written).Sound env.crypto :=
    (h.rebuild hsigner s.config.consensus.relays_le input
      (hkeeps hvalid hother)).takeSnapshot written
  split
  · rename_i hbody
    exact hrebuild (by simp [hbody])
  rename_i body hbody
  split
  · rename_i hne
    exact hrebuild (by simpa [hbody] using hne)
  rename_i heq
  split
  · exact h
  · exact hmerge body hbody (by rwa [not_not.mp heq])

theorem DaState.Sound.mergeVote (h : s.Sound env.crypto) (written : Bool)
    (hbody : consensusBodyBuild s.config.consensus.toConsensus = some body)
    (hvalid : env.crypto.signVerify vote.signature (env.crypto.hash body).val vote.peerPk = true) :
    (daMergeVote env vote written s).Sound env.crypto := by
  unfold daMergeVote
  split
  · exact h
  split
  · rename_i hattach
    refine (h.attach hattach ?_).takeSnapshot written
    exact fun _ => ⟨rfl, body, hbody, hvalid, fun hpq => by cases hpq⟩
  · exact h

theorem DaState.Sound.mergeVotePq (h : s.Sound env.crypto) {vote : VotePq} (written : Bool)
    (hbody : consensusBodyBuild s.config.consensus.toConsensus = some body)
    (hvalid : env.crypto.signVerify vote.signature (env.crypto.hash body).val vote.peerPk = true) :
    (daMergeVotePq env vote written body s).Sound env.crypto := by
  unfold daMergeVotePq
  split
  · exact h
  split
  · exact h
  rename_i hpq
  rw [Bool.not_eq_true', Bool.not_eq_false] at hpq
  split
  · rename_i hattach
    refine (h.attach hattach ?_).takeSnapshot written
    exact fun _ => ⟨rfl, body, hbody, hvalid, fun _ => hpq⟩
  · exact h

theorem bodyEntry_daApplyProbe (res : ProbeResult) (r : DaRelay) :
    (daApplyProbe res r).bodyEntry = r.bodyEntry := by
  unfold daApplyProbe
  split
  · rfl
  · split <;> rfl

/-- A round of probes changes nothing that the body says. -/
theorem map_bodyEntry_daApplyProbes (results : List ProbeResult) (relays : List DaRelay) :
    (daApplyProbes results relays).map DaRelay.bodyEntry = relays.map DaRelay.bodyEntry := by
  refine ext_getElem (by simp [daApplyProbes]) ?_
  intro i _ _
  simp only [daApplyProbes, getElem_map, getElem_mapIdx]
  split
  · exact bodyEntry_daApplyProbe _ _
  · rfl

/-- Signatures stay valid in a critical section that does not change the body under them. -/
theorem DaState.Sound.step (h : s.Sound env.crypto) (hsigner : SignerSound env.crypto env.signer)
    {e : DaEvent} (hkeeps : KeepsSignatures env s e) : (daStep env s e).Sound env.crypto := by
  cases e with
  | publish desc time input written =>
    exact (h.rebuild hsigner _ input hkeeps).takeSnapshot written
  | propagate desc time input =>
    simp only [daStep]
    split
    · rename_i relays hadd
      exact h.rebuild hsigner _ input (hkeeps relays hadd)
    · exact h
  | sync descs time => exact h.withRelays _ hkeeps
  | importTrusted desc =>
    simp only [daStep]
    split
    · rename_i relays hadd
      exact h.withRelays _ (hkeeps relays hadd)
    · exact h
  | probed results => exact h.withRelays _ (.inr (map_bodyEntry_daApplyProbes results _))
  | build input => exact h.rebuild hsigner s.config.consensus.relays_le input hkeeps
  | snapshot written => exact h.takeSnapshot written
  | vote vote input written =>
    exact h.receiveVote hsigner written hkeeps fun _ hbody hvalid =>
      h.mergeVote written hbody hvalid
  | votePq vote input written =>
    exact h.receiveVote hsigner written hkeeps fun _ hbody hvalid =>
      h.mergeVotePq written hbody hvalid

/-- Signatures that consist of the key and the start of the message. -/
def sampleSigned : Crypto :=
  { Crypto.sample with signVerify := fun sig msg pk => sig.val == pk.val ++ msg.take 32 }

def sampleSign (b : UInt8) (msg : Bytes) : Field 64 :=
  Arr.ofList 64 0 (List.replicate 32 b ++ msg.take 32)

/-- The authority `1` without an ML-DSA key, and its peer `2`. -/
def sampleDaEnv : DaEnv where
  crypto := sampleSigned
  inet := Inet.sample
  cap := id
  signer := {
    identityPk := Arr.replicate 32 1
    pqIdentityPk := Field.zero 1952
    sign := sampleSign 1
    mldsaSign := fun _ => none }
  peers := [⟨Arr.replicate 32 2, Field.zero 1952, false⟩]
  buildId := Field.zero 16
  bannedRelays := []
  geoip := none

theorem signerSound_sampleDaEnv : SignerSound sampleDaEnv.crypto sampleDaEnv.signer where
  sign hash := by
    have hlen : (replicate 32 (1 : UInt8) ++ hash.val.take 32).length = 64 := by
      simp
    have hval := Arr.val_ofList_of_le (0 : UInt8) hlen.le
    rw [hlen, Nat.sub_self, replicate_zero, append_nil] at hval
    exact beq_iff_eq.mpr hval
  mldsaSign h := nomatch h

/-- The descriptor that a relay publishes. -/
def sampleAdmitted (b : UInt8) : NodeDescriptor :=
  { NodeDescriptor.zero with
    identityPk := Arr.replicate 32 b
    address := Arr.ofList 64 0 (ascii "9.9.9." ++ Text.decimal b.toNat)
    signature := Arr.replicate 64 b
    features := nodeFeaturesRequired
    protocolVersion := 4
    falconSigLen := 32 }

def sampleInput : BuildInput := ⟨10900, 10900, Field.zero 32, Field.zero 32⟩

/-- The vote of the peer for the body with one relay. -/
def samplePeerVote : Vote :=
  let bodyHash := Arr.ofList 32 0 (be32 68 ++ be64 10800 ++ be64 14400 ++ be64 21600 ++ be32 1)
  ⟨bodyHash, Arr.replicate 32 2, sampleSign 2 bodyHash.val⟩

end Moor
