import Moor.Directory.Authority
import Moor.Directory.TextReload

/-!
# How large a consensus may become

An authority serves the text of its consensus and the compact consensus, whatever their size. The
clients have a limit for each of the two, and another one for the file in which they keep what they
have fetched. Only the limit for the text is large enough for a full table.

## Main results

* `capacity_agreement_iff`: which documents are fetched, and which consensuses are loaded back.
-/

namespace Moor

open Codec Text Option TextLib
open List hiding cons

/-! ### Serving and fetching -/

/-- The authority's reply to a request for the consensus. -/
def daServeConsensus (lib : TextLib) (cons : FullConsensus) : Bytes :=
  match moorConsensusSerialize lib (max (moorConsensusWireSize cons.toConsensus) 1024) cons with
  | some text => be32 (UInt32.ofNat text.length) ++ text
  | none => ascii "ERR\n"

def moorCompressMagic : Bytes := [0x4D, 0x5A, 0x4C, 0x42]

def moorConsensusIsCompressed (data : Bytes) : Bool :=
  decide (data.take 4 = moorCompressMagic)

/-- What a mirror has compressed; `uncompress` is that of the zlib with the length of its result. -/
def moorConsensusDecompress (uncompress : ℕ → Bytes → Option Bytes) (data : Bytes) :
    Option Bytes :=
  if data.length < 8 ∨ data.take 4 ≠ moorCompressMagic then none
  else
    let uncompLen := beDecode ((data.drop 4).take 4)
    if uncompLen > 64 * 1024 * 1024 then none else uncompress uncompLen (data.drop 8)

/-- What was received, decompressed if a mirror has compressed it. -/
def plainDocument (uncompress : ℕ → Bytes → Option Bytes) (buf : Bytes) : Option Bytes :=
  if moorConsensusIsCompressed buf then moorConsensusDecompress uncompress buf else some buf

section Fetch

variable (C : Crypto) (lib : TextLib) (stack : Field 32)
  (uncompress : ℕ → Bytes → Option Bytes) (now : UInt64) (trustedKeys : List TrustedDaKey)

/-- What a client makes of the reply, in the place of an old consensus. -/
def clientFetchConsensus (old : FullConsensus) (reply : Bytes) : Option FullConsensus := do
  let buf ← receiveDocument 20971520 reply
  let data ← plainDocument uncompress buf
  let (cons, _) ← moorConsensusDeserialize lib stack old data
  if moorConsensusIsFresh now cons.toConsensus ∧ trustedKeys.isEmpty = false ∧
      consensusVerifyHybrid C cons.toConsensus trustedKeys ∧ cons.relays.isEmpty = false then
    some cons
  else none

def microdescToDescriptor (md : MicrodescEntry) : NodeDescriptor :=
  { NodeDescriptor.zero with
    identityPk := md.identityPk
    onionPk := md.onionPk
    address := md.address.set 63 0
    orPort := md.orPort
    dirPort := md.dirPort
    flags := md.flags
    bandwidth := md.bandwidth
    verifiedBandwidth := md.verifiedBandwidth
    features := md.features
    familyId := md.familyId
    countryCode := md.countryCode
    asNumber := md.asNumber
    nickname := md.nickname
    kemPk := md.kemPk }

/-- A consensus in zeroed memory with what the compact one has. -/
def MicrodescDocument.toConsensus (mc : MicrodescDocument) : FullConsensus :=
  { FullConsensus.init with
    validAfter := mc.validAfter
    freshUntil := mc.freshUntil
    validUntil := mc.validUntil
    relays := mc.relays.map microdescToDescriptor
    daSigs := mc.daSigs.map DaSig.populated
    relays_le := by simpa using mc.relays_le
    daSigs_le := mc.received.daSigs_le }

def clientFetchConsensusViaMicrodesc (reply : Bytes) : Option FullConsensus :=
  (clientFetchMicrodescConsensus C now trustedKeys reply).map MicrodescDocument.toConsensus

end Fetch

/-! ### The file -/

section

variable (lib : TextLib)

/-- What is written to the file. -/
def moorConsensusCacheSave (cons : FullConsensus) : Option Bytes :=
  moorConsensusSerialize lib (max (moorConsensusWireSize cons.toConsensus) 1024) cons

def moorConsensusCacheLoad (stack : Field 32) (old : FullConsensus) (file : Bytes) :
    Option FullConsensus :=
  if file.length = 0 ∨ file.length > 4194304 then none
  else (moorConsensusDeserialize lib stack old file).map Prod.fst

/-- The consensus is saved, and what was saved is loaded back. -/
def Reloads (stack : Field 32) (old cons : FullConsensus) : Prop :=
  ((moorConsensusCacheSave lib cons).bind (moorConsensusCacheLoad lib stack old)).isSome = true

/-! ### The size of the text -/

def relayTextSize (d : NodeDescriptor) : ℕ :=
  52 + (nicknameOrUnnamed d).length + (fmtTime lib d.published).length + (ipStr d).length +
    (decimal d.orPort.toNat).length + (decimal d.dirPort.toNat).length + 47 +
    (if nonEmpty d.address6 then 3 + (cString d.address6).length else 0) +
    (if Flags.has d.features nodeFeaturePq then 1583 else 0) +
    (2 + ((flagRows d).map fun row => row.2.length + 1).sum) +
    (23 + (decimal d.bandwidth.toNat).length + (decimal d.features.toNat).length +
      if d.verifiedBandwidth > 0 then 10 + (decimal d.verifiedBandwidth.toNat).length else 0) +
    (if d.countryCode ≠ 0 then
      4 + (unpackCountry d.countryCode).length + (decimal d.asNumber.toNat).length else 0) +
    (if d.familyId ≠ Field.zero 32 then 47 else 0) + 91 +
    if nonEmpty d.contactInfo then 3 + (cString d.contactInfo).length else 0

def consensusTextSize (cons : FullConsensus) : ℕ :=
  312 + (fmtTime lib cons.validAfter).length + (fmtTime lib cons.freshUntil).length +
    (fmtTime lib cons.validUntil).length + (cons.relays.map (relayTextSize lib)).sum +
    ((finRange 8).map fun i => 5 + (intNumeral 0 (cons.bwWeights i).toInt).length).sum +
    (cons.daSigs.map fun sig => 154 + if sig.hasPq then 7086 else 0).sum

section Sizes

theorem length_optional {p : Prop} [Decidable p] {line : Bytes} {n : ℕ} (h : line.length + 1 = n) :
    (unlines (if p then [line] else [])).length = if p then n else 0 := by
  split
  · rw [unlines_cons, length_append, length_cons, unlines_nil, length_nil]
    omega
  · rfl

variable (d : NodeDescriptor)

theorem length_flagsLine :
    (flagsLine d).length = 1 + ((flagRows d).map fun row => row.2.length + 1).sum := by
  rw [flagsLine, ← flagRows, length_append, length_flatMap]
  rfl

theorem length_bandwidthLine :
    (bandwidthLine d).length = 22 + (decimal d.bandwidth.toNat).length +
      (decimal d.features.toNat).length +
      if d.verifiedBandwidth > 0 then 10 + (decimal d.verifiedBandwidth.toNat).length else 0 := by
  rw [bandwidthLine]
  split <;> simp [length_ascii] <;> omega

theorem length_relayText : (relayText lib d).length = relayTextSize lib d := by
  have hkey : ∀ (key : Bytes) {n : ℕ} (f : Field n), key.length = 2 →
      (key ++ b64enc lib f).length + 1 = 4 * ((n + 2) / 3) + 3 := by
    intro key n f hkey
    rw [length_append, length_b64enc, hkey]
    omega
  have htext : ∀ (key : Bytes) {n : ℕ} (f : Field n), key.length = 2 →
      (key ++ cString f).length + 1 = 3 + (cString f).length := by
    intro key n f hkey
    rw [length_append, hkey]
    omega
  have hgeo : (geoLine d).length + 1 =
      4 + (unpackCountry d.countryCode).length + (decimal d.asNumber.toNat).length := by
    simp [geoLine, length_ascii]
    omega
  have hkem : (ascii "k " ++ b64enc lib d.kemPk).length + 1 = 1583 := hkey _ d.kemPk rfl
  have hfamily : (ascii "f " ++ b64enc lib d.familyId).length + 1 = 47 := hkey _ d.familyId rfl
  rw [relayText_eq, relayTextSize]
  simp only [unlines_cons, relayRestLines, unlines_append, unlines_nil, length_append,
    length_cons, length_nil, relayLine, length_b64enc, length_flagsLine,
    length_bandwidthLine, length_optional hgeo, length_optional (htext (ascii "a ") d.address6 rfl),
    length_optional (htext (ascii "c ") d.contactInfo rfl),
    length_optional hkem, length_optional hfamily, length_ascii, String.reduceToList]
  omega

theorem length_consensusText (cons : FullConsensus) :
    (consensusText lib cons).length = consensusTextSize lib cons := by
  have hheader : (unlines (headerLines lib cons)).length = 277 +
      (fmtTime lib cons.validAfter).length + (fmtTime lib cons.freshUntil).length +
        (fmtTime lib cons.validUntil).length := by
    have hflags : knownFlagsLine.length = 77 := rfl
    simp only [headerLines, unlines_cons, unlines_nil, length_append, length_cons,
      length_nil, length_b64enc, hflags, length_ascii, String.reduceToList]
    omega
  have hweights : (weightsLine cons.bwWeights).length = 17 +
      ((finRange 8).map fun i => 5 + (intNumeral 0 (cons.bwWeights i).toInt).length).sum := by
    have hkey : ∀ i, (weightKey i).length = 4 := by decide
    rw [weightsLine, length_append, length_flatMap, length_ascii]
    congr 2
    refine map_congr_left fun i _ => ?_
    rw [length_cons, length_append, hkey]
    omega
  have hrelays :
      (unlines (cons.relays.flatMap fun d => relayLine lib d :: relayRestLines lib d)).length
        = (cons.relays.map (relayTextSize lib)).sum := by
    rw [unlines_flatMap, length_flatMap]
    simp only [← relayText_eq, length_relayText]
  have hsigs : (unlines (cons.daSigs.flatMap (daSigLines lib))).length =
      (cons.daSigs.map fun sig => 154 + if sig.hasPq then 7086 else 0).sum := by
    rw [unlines_flatMap, length_flatMap]
    simp only [← daSigText_eq, length_daSigText]
  rw [consensusText_eq, consensusTextSize]
  simp only [consensusLines, unlines_append, unlines_cons, unlines_nil, length_append,
    length_cons, length_nil, hheader, hrelays, hweights, hsigs, length_ascii,
    String.reduceToList]
  omega

end Sizes

/-! ### The limits -/

section

variable (cons : FullConsensus)

theorem moorConsensusCacheSave_eq :
    moorConsensusCacheSave lib cons = some (consensusText lib cons) :=
  moorConsensusSerialize_of_le ((length_consensusText_le lib cons).trans (le_max_left _ _))

theorem daServeConsensus_eq :
    daServeConsensus lib cons =
      be32 (UInt32.ofNat (consensusText lib cons).length) ++ consensusText lib cons := by
  have hwrite := moorConsensusCacheSave_eq lib cons
  rw [moorConsensusCacheSave] at hwrite
  rw [daServeConsensus, hwrite]

theorem length_consensusText_le_counts :
    (consensusText lib cons).length ≤
      832 + cons.relays.length * 2400 + cons.daSigs.length * 8448 := by
  have hsize := length_consensusText_le lib cons
  have hsum : (cons.daSigs.map fun sig => 256 + if sig.hasPq then 8192 else 0).sum ≤
      cons.daSigs.length * 8448 := by
    refine (List.sum_le_card_nsmul _ 8448 ?_).trans (by simp)
    simp only [List.forall_mem_map]
    intro sig _
    split <;> omega
  rw [moorConsensusWireSize] at hsize
  omega

theorem receiveDocument_daServeConsensus :
    receiveDocument 20971520 (daServeConsensus lib cons) = some (consensusText lib cons) := by
  have hsize := length_consensusText_le_counts lib cons
  have hrelays : cons.relays.length ≤ 8192 := cons.relays_le
  have hsigs : cons.daSigs.length ≤ 9 := cons.daSigs_le
  have hlimit : (consensusText lib cons).length ≤ 20971520 := by omega
  rw [daServeConsensus_eq, receiveDocument_framed _ (by omega), if_pos hlimit]

/-- The file is not too large, and the beginning of the validity can be read. -/
def FullConsensus.Cacheable (cons : FullConsensus) : Prop :=
  consensusTextSize lib cons ≤ 4194304 ∧ parseTime lib (fmtTime lib cons.validAfter) ≠ 0

theorem reloads_iff {cons : FullConsensus} (h : ∀ d ∈ cons.relays, d.LineSafe) (stack : Field 32)
    (old : FullConsensus) : Reloads lib stack old cons ↔ cons.Cacheable lib := by
  have hpos : ¬ (consensusText lib cons).length = 0 := by
    have hlength := (consensusText_magic lib cons).1
    omega
  have hread := @isSome_deserialize_consensusText lib cons stack h old
  rw [Reloads, moorConsensusCacheSave_eq, bind_some, moorConsensusCacheLoad,
    FullConsensus.Cacheable, ← length_consensusText, ← hread]
  by_cases hover : (consensusText lib cons).length > 4194304
  · rw [if_pos (.inr hover)]
    exact iff_of_false Bool.false_ne_true fun hfits => absurd hfits.1 (Nat.not_le.mpr hover)
  · rw [if_neg (not_or_intro hpos hover), isSome_map]
    exact (and_iff_right (Nat.not_lt.mp hover)).symm

end

end

/-! ### What clients hold -/

section

variable {C : Crypto} {lib : TextLib} {stack : Field 32}
  {uncompress : ℕ → Bytes → Option Bytes} {now : UInt64} {trustedKeys : List TrustedDaKey}

theorem lineSafe_of_clientFetchConsensus {old held : FullConsensus} {reply : Bytes}
    (h : clientFetchConsensus C lib stack uncompress now trustedKeys old reply = some held) :
    ∀ d ∈ held.relays, d.LineSafe := by
  obtain ⟨buf, -, h⟩ := bind_eq_some_iff.mp h
  obtain ⟨data, -, h⟩ := bind_eq_some_iff.mp h
  obtain ⟨⟨cons, len⟩, hread, h⟩ := bind_eq_some_iff.mp h
  rw [← (ite_none_right_eq_some.mp h).2 |> some.inj]
  exact lineSafe_of_deserialize hread

theorem lineSafe_microdesc {d : NodeDescriptor} (h : TextsAccepted d)
    (hcountry : 10 ∉ unpackCountry d.countryCode) :
    (microdescToDescriptor (microdescOfDescriptor d).terminated).LineSafe := by
  have haddress : d.address.set 63 0 = d.address := h.address.1
  have hnickname : d.nickname.set 31 0 = d.nickname := h.nickname.1
  constructor
  · simp only [microdescToDescriptor, MicrodescEntry.terminated, microdescOfDescriptor, hnickname]
    exact notMem_of_printable h.nickname.printable
  · simp only [microdescToDescriptor, MicrodescEntry.terminated, microdescOfDescriptor, haddress]
    exact notMem_of_printable h.address.graphic.printable
  · exact lineSafe_zero.address6
  · exact lineSafe_zero.contactInfo
  · exact hcountry

theorem lineSafe_of_viaMicrodesc {cons : Consensus} {held : FullConsensus}
    (hrelays : ∀ d ∈ cons.relays, TextsAccepted d ∧ 10 ∉ unpackCountry d.countryCode)
    (h : clientFetchConsensusViaMicrodesc C now trustedKeys (daServeMicrodesc cons) = some held) :
    ∀ d ∈ held.relays, d.LineSafe := by
  rw [clientFetchConsensusViaMicrodesc, clientFetchMicrodescConsensus_daServeMicrodesc] at h
  obtain ⟨mc, hmc, rfl⟩ := map_eq_some_iff.mp h
  rw [← (ite_none_right_eq_some.mp hmc).2 |> some.inj]
  intro e he
  simp only [MicrodescDocument.toConsensus, MicrodescDocument.received, daBuildMicrodescConsensus,
    List.mem_map, exists_exists_and_eq_and] at he
  obtain ⟨d, hd, rfl⟩ := he
  exact lineSafe_microdesc (hrelays d hd).1 (hrelays d hd).2

end

/-- The documents of an authority are fetched if and only if the compact one has at most two
megabytes, as the text always fits. A consensus that a client has accepted, in full from anyone or
in compact form from an authority with relays whose texts it has checked and country codes without
a newline, is loaded back from the file if and only if its text has at most four megabytes and a
beginning of the validity that can be read. -/
theorem capacity_agreement_iff (C : Crypto) (lib : TextLib) (stack : Field 32)
    (uncompress : ℕ → Bytes → Option Bytes) (trustedKeys : List TrustedDaKey)
    (cons : FullConsensus) :
    (receiveDocument 20971520 (daServeConsensus lib cons) = some (consensusText lib cons) ∧
      receiveDocument 2097152 (daServeMicrodesc cons.toConsensus) =
        some (microdescConsensusBytes (daBuildMicrodescConsensus cons.toConsensus)) ↔
      microdescConsensusWireSize (daBuildMicrodescConsensus cons.toConsensus) ≤ 2097152) ∧
    (∀ now before reply held,
      clientFetchConsensus C lib stack uncompress now trustedKeys before reply = some held →
      ∀ old, Reloads lib stack old held ↔ held.Cacheable lib) ∧
    ((∀ d ∈ cons.relays, d.Admitted ∧ 10 ∉ unpackCountry d.countryCode) → ∀ now held,
      clientFetchConsensusViaMicrodesc C now trustedKeys (daServeMicrodesc cons.toConsensus) =
        some held →
      ∀ old, Reloads lib stack old held ↔ held.Cacheable lib) := by
  refine ⟨?_, ?_, ?_⟩
  · rw [receiveDocument_daServeMicrodesc]
    simp [receiveDocument_daServeConsensus]
  · intro now before reply held hheld old
    exact reloads_iff lib (lineSafe_of_clientFetchConsensus hheld) stack old
  · intro hrelays now held hheld old
    refine reloads_iff lib (lineSafe_of_viaMicrodesc ?_ hheld) stack old
    exact fun d hd => ⟨(hrelays d hd).1.textsAccepted, (hrelays d hd).2⟩

/-! ### A crowd of relays -/

def crowdFeatures : UInt32 :=
  nodeFeaturesRequired ||| nodeFeaturePq ||| nodeFeatureFamily ||| nodeFeatureNickname

/-- What the relay of a number sends, with all that the authorities ask for and a KEM key. -/
def crowdDescriptor (i : ℕ) : NodeDescriptor :=
  let identityPk : Field 32 := Arr.ofList 32 0 (be32 (UInt32.ofNat i))
  { NodeDescriptor.zero with
    identityPk
    address := Arr.ofList 64 0 (ascii "9.9.9.9")
    orPort := UInt16.ofNat i
    signature := Arr.ofList 64 0 identityPk.val
    features := crowdFeatures
    nickname := Arr.ofList 32 0 (ascii "crowd")
    protocolVersion := 4
    buildId := Arr.ofList 16 0 (ascii "build")
    falconPk := Arr.replicate 897 9
    falconSignature := Arr.replicate 752 9
    falconSigLen := 32 }

/-- The relay as an authority reads it. -/
def crowdRelay (i : ℕ) : NodeDescriptor := wireImage (crowdDescriptor i)

def crowdDaEnv : DaEnv :=
  { sampleDaEnv with crypto := Crypto.sample, buildId := Arr.ofList 16 0 (ascii "build") }

variable (i : ℕ)

theorem wellFormed_crowdDescriptor : WellFormed (crowdDescriptor i) where
  address := (by decide : IsText badAddressChar (Arr.ofList 64 0 (ascii "9.9.9.9")))
  nickname := (by decide : IsText badTextChar (Arr.ofList 32 0 (ascii "crowd")))
  address6 := (by decide : IsText badTextChar (Field.zero 64))
  contactInfo := (by decide : IsText badTextChar (Field.zero 128))
  buildId := (by decide : ∀ ch ∈ cString (Arr.ofList 16 0 (ascii "build")), 0x20 ≤ ch ∧ ch < 0x7F)
  family := (by decide : (0 : UInt8) ≤ 8)
  falconSig _ := (by decide : 0 < (32 : UInt16).toNat ∧ (32 : UInt16).toNat ≤ moorFalconSigMaxLen)
  familyBit _ := rfl
  nicknameBit _ := rfl
  contactBit h := absurd h (by decide : ¬ Flags.has crowdFeatures nodeFeatureContact = true)
  buildIdBit _ := rfl
  falconBit _ := rfl

theorem descWireFeatures_crowdDescriptor :
    descWireFeatures (crowdDescriptor i) = (crowdDescriptor i).features := by
  exact (by decide : crowdFeatures ||| nodeFeatureFamily ||| nodeFeatureNickname |||
    nodeFeatureBuildId ||| nodeFeatureFalcon = crowdFeatures)

theorem admitted_crowdRelay : (crowdRelay i).Admitted := by
  have hwell := wellFormed_crowdDescriptor i
  have hnonzero : crowdFeatures ≠ 0 := by decide
  have hread := nodeDescriptorDeserialize_append hwell
    (hwell.featuresMatch (descWireFeatures_crowdDescriptor i)) [] fun h => absurd h hnonzero
  exact ⟨_, _, _, hread, rfl⟩

theorem sameWireFields_crowdRelay : SameWireFields (crowdDescriptor i) (crowdRelay i) :=
  sameWireFields_wireImage (wellFormed_crowdDescriptor i)
    ((wellFormed_crowdDescriptor i).featuresMatch (descWireFeatures_crowdDescriptor i))

theorem features_crowdRelay : (crowdRelay i).features = crowdFeatures :=
  (sameWireFields_crowdRelay i).features

theorem nodeVerifyDescriptor_crowdRelay :
    nodeVerifyDescriptor Crypto.sample (crowdRelay i) = true := by
  have hpk : (Arr.ofList 64 0 (crowdRelay i).identityPk.val).val.take 32 =
      (crowdRelay i).identityPk.val := by
    rw [Arr.take_val_ofList 0 _ 32 (Arr.length_val _).ge (by decide)]
    exact take_of_length_le (Arr.length_val _).le
  have hsign : ∀ buf, Crypto.sample.signVerify (crowdRelay i).signature buf
      (crowdRelay i).identityPk = true := fun _ => beq_iff_eq.mpr hpk
  have hbit : Flags.has crowdFeatures nodeFeatureFalcon = true := by decide
  obtain ⟨hfalconPk, hlen, hfalconSig⟩ := (sameWireFields_crowdRelay i).v8 hbit
  have hfalcon : ∀ buf, Crypto.sample.falconVerify
      ((crowdDescriptor i).falconSignature.val.take (crowdDescriptor i).falconSigLen.toNat) buf
      (crowdDescriptor i).falconPk = true := fun _ => rfl
  have hbounds : (crowdDescriptor i).falconSigLen = 32 := rfl
  rw [nodeVerifyDescriptor, hsign, hlen, hfalconSig, hfalconPk, hfalcon, hbounds]
  simp

theorem daAdmits_crowdRelay : daAdmits crowdDaEnv (crowdRelay i) = true := by
  have hfeatures : crowdFeatures &&& nodeFeaturesRequired = nodeFeaturesRequired := by decide
  have haddress : daIsPrivateAddress crowdDaEnv.inet (ascii "9.9.9.9") = false := by
    decide +kernel
  have hname : cString (crowdRelay i).address = ascii "9.9.9.9" :=
    (by decide : cString (Arr.ofList 64 0 (ascii "9.9.9.9") : Field 64) = ascii "9.9.9.9")
  have hversion : (crowdRelay i).protocolVersion = 4 := rfl
  have hbuild : (crowdRelay i).buildId = crowdDaEnv.buildId := rfl
  have hbanned : crowdDaEnv.bannedRelays = [] := rfl
  have hverify : nodeVerifyDescriptor crowdDaEnv.crypto (crowdRelay i) = true :=
    nodeVerifyDescriptor_crowdRelay i
  rw [daAdmits, hverify, features_crowdRelay, hfeatures, hname, haddress, hversion, hbuild, hbanned]
  simp [moorMinProtocolVersion]

/-- A fresh consensus of the relays from one to a number, which one authority has signed. -/
def crowdConsensus (n : ℕ) (h : n ≤ moorMaxRelays) : FullConsensus :=
  { FullConsensus.init with
    validAfter := 3600
    freshUntil := 7200
    validUntil := 14400
    relays := (range n).map fun i => crowdRelay (i + 1)
    daSigs := [⟨Arr.replicate 64 1, Arr.replicate 32 1, Field.zero 3309, Field.zero 1952, false⟩]
    relays_le := by simpa using h
    daSigs_le := by decide }

def crowdKey : TrustedDaKey := ⟨Arr.replicate 32 1, Field.zero 1952, false⟩

variable {n : ℕ} {h : n ≤ moorMaxRelays} {d : NodeDescriptor}

theorem mem_crowdConsensus (hd : d ∈ (crowdConsensus n h).relays) :
    ∃ i < n, crowdRelay (i + 1) = d := by
  simpa [crowdConsensus] using hd

theorem textSafe_crowdConsensus (h : n ≤ moorMaxRelays) : (crowdConsensus n h).TextSafe where
  relays d hd := by
    obtain ⟨i, -, rfl⟩ := mem_crowdConsensus hd
    have hname : cString (crowdRelay (i + 1)).nickname = ascii "crowd" :=
      (by decide : cString (Arr.ofList 32 0 (ascii "crowd") : Field 32) = ascii "crowd")
    have haddress : cString (crowdRelay (i + 1)).address = ascii "9.9.9.9" :=
      (by decide : cString (Arr.ofList 64 0 (ascii "9.9.9.9") : Field 64) = ascii "9.9.9.9")
    refine ⟨?_, ?_, ?_, (by decide : (0 : UInt64) < year10000),
      (by decide : (0 : UInt16).toNat >>> 8 ≠ 10)⟩
    · rw [hname]
      decide
    · rw [hname]
      decide
    · rw [haddress]
      decide
  validAfter := (by decide : (3600 : UInt64) < year10000)
  validAfter_ne := (by decide : (3600 : UInt64) ≠ 0)
  freshUntil := (by decide : (7200 : UInt64) < year10000)
  validUntil := (by decide : (14400 : UInt64) < year10000)
  daSigs := nodup_singleton _

theorem consensusVerifyHybrid_crowd {cons : Consensus}
    (hsigs : cons.daSigs = (crowdConsensus n h).daSigs) :
    consensusVerifyHybrid Crypto.sample cons [crowdKey] = true := by
  have hverified : ∀ bodyHash body, (Tally.run daSigNames (daSigCheck Crypto.sample bodyHash body)
      [crowdKey] cons.daSigs).2 = 1 := by
    intro bodyHash body
    rw [hsigs]
    rfl
  rw [consensusVerifyHybrid, consensusBodyHash, consensusBodyBuild_eq]
  simp [hverified]

/-- A client accepts the text that the authority serves. -/
theorem exists_clientFetchConsensus_crowd (hpos : 0 < n) (h : n ≤ moorMaxRelays) :
    ∃ held, clientFetchConsensus Crypto.sample TextLib.sample (Field.zero 32) (fun _ _ => none)
        3600 [crowdKey] .init (daServeConsensus TextLib.sample (crowdConsensus n h)) = some held ∧
      Forall₂ NodeDescriptor.SameInText (crowdConsensus n h).relays held.relays ∧
      held.validAfter = 3600 ∧ held.daSigs.length = 1 := by
  obtain ⟨st, hreads, hsame, hafter, hfresh, huntil, -, -, -, hsigs⟩ :=
    @reads_consensusText sample (Field.zero 32) (crowdConsensus n h) .init
      (fun d hd => by
        obtain ⟨i, -, rfl⟩ := mem_crowdConsensus hd
        exact admitted_crowdRelay _)
      (textSafe_crowdConsensus h)
  have hread := moorConsensusDeserialize_of_reads hreads
    (hafter.trans_ne (textSafe_crowdConsensus h).validAfter_ne)
  have hplain : plainDocument (fun _ _ => none)
      (consensusText sample (crowdConsensus n h)) =
        some (consensusText sample (crowdConsensus n h)) := by
    rfl
  have hrelays : st.relays.isEmpty = false := by
    rw [isEmpty_eq_false_iff, ← length_pos_iff, ← hsame.length_eq]
    simpa [crowdConsensus] using hpos
  have htimes : st.validAfter = 3600 ∧ st.freshUntil = 7200 ∧ st.validUntil = 14400 :=
    ⟨hafter, hfresh, huntil⟩
  have hfresh : moorConsensusIsFresh 3600 st.toConsensus = true := by
    rw [moorConsensusIsFresh, htimes.1, htimes.2.1, htimes.2.2]
    decide
  have hverify := @consensusVerifyHybrid_crowd n h st.toConsensus hsigs
  refine ⟨st.toFullConsensus, ?_, hsame, hafter, ?_⟩
  · rw [clientFetchConsensus, receiveDocument_daServeConsensus]
    dsimp only [bind_eq_bind, bind_some]
    rw [hplain, bind_some, hread, bind_some]
    exact if_pos ⟨hfresh, rfl, hverify, hrelays⟩
  · rw [hsigs]
    rfl

theorem le_consensusTextSize {held : FullConsensus}
    (hsame : Forall₂ NodeDescriptor.SameInText (crowdConsensus n h).relays held.relays)
    (lib : TextLib) : 1583 * n ≤ consensusTextSize lib held := by
  have hpq : Flags.has crowdFeatures nodeFeaturePq = true := by decide
  have hmap : held.relays.map (·.features) = (crowdConsensus n h).relays.map (·.features) := by
    rw [← forall₂_eq_eq_eq, forall₂_map_left_iff, forall₂_map_right_iff]
    exact hsame.flip.imp fun e d hde => hde.features
  have hall : ∀ e ∈ held.relays, 1583 ≤ relayTextSize lib e := by
    intro e he
    have hmem : e.features ∈ (crowdConsensus n h).relays.map (·.features) :=
      hmap ▸ mem_map_of_mem he
    obtain ⟨d, hd, hde⟩ := mem_map.mp hmem
    obtain ⟨i, -, rfl⟩ := mem_crowdConsensus hd
    rw [features_crowdRelay] at hde
    rw [relayTextSize, ← hde, if_pos hpq]
    omega
  have hlen : held.relays.length = n := by
    rw [← hsame.length_eq]
    simp [crowdConsensus]
  have hsum := card_nsmul_le_sum (held.relays.map (relayTextSize lib)) 1583
    (by simpa using hall)
  rw [length_map, hlen, smul_eq_mul] at hsum
  rw [consensusTextSize]
  omega

theorem nodup_crowdConsensus (h : n ≤ moorMaxRelays) :
    ((crowdConsensus n h).relays.map (·.identityPk)).Nodup := by
  have hmax : moorMaxRelays = 8192 := rfl
  have hdecode : ∀ i < 2 ^ 32, beDecode ((crowdRelay i).identityPk.val.take 4) = i := by
    intro i hi
    have hpk : (crowdRelay i).identityPk = Arr.ofList 32 0 (be32 (UInt32.ofNat i)) := rfl
    rw [hpk, Arr.take_val_ofList 0 _ 4 (length_be32 _).ge (by decide),
      take_of_length_le (length_be32 _).le, be32, UInt32.toNat_ofNat', beDecode_beEncode]
    omega
  simp only [crowdConsensus, List.map_map]
  refine List.Nodup.map_on ?_ List.nodup_range
  intro i hi j hj heq
  rw [List.mem_range] at hi hj
  have hnum := congrArg (fun pk : Field 32 => beDecode (pk.val.take 4)) heq
  simp only [Function.comp_apply, hdecode (i + 1) (by omega), hdecode (j + 1) (by omega)] at hnum
  omega

/-- A consensus of one relay is fetched, saved and loaded back. -/
theorem capacity_agreement_iff_sample :
    ∃ held, clientFetchConsensus Crypto.sample TextLib.sample (Field.zero 32) (fun _ _ => none)
        3600 [crowdKey] .init
        (daServeConsensus TextLib.sample (crowdConsensus 1 (by decide))) = some held ∧
      Reloads TextLib.sample (Field.zero 32) .init held := by
  obtain ⟨held, hheld, hsame, hafter, hsigs⟩ :=
    exists_clientFetchConsensus_crowd (n := 1) (by decide) (by decide)
  refine ⟨held, hheld, ?_⟩
  refine (((capacity_agreement_iff Crypto.sample sample (Field.zero 32) (fun _ _ => none)
    [crowdKey] held).2.1 _ _ _ held hheld) .init).mpr ⟨?_, ?_⟩
  · have hsize := length_consensusText_le_counts sample held
    have hrelays : held.relays.length = 1 := hsame.length_eq.symm
    rw [length_consensusText, hrelays, hsigs] at hsize
    omega
  · rw [parseTime_fmtTime sample (by rw [hafter]; decide), hafter]
    decide

/-- Three thousand relays, each of which the authority admits, with different keys: their compact
consensus is not fetched, and a client that accepts their text does not load it back. -/
theorem capacity_exceeded :
    let cons := crowdConsensus 3000 (by decide)
    (∀ d ∈ cons.relays, d.Admitted ∧ daAdmits crowdDaEnv d = true) ∧
    (cons.relays.map (·.identityPk)).Nodup ∧
    receiveDocument 2097152 (daServeMicrodesc cons.toConsensus) = none ∧
    ∃ held, clientFetchConsensus Crypto.sample TextLib.sample (Field.zero 32) (fun _ _ => none)
        3600 [crowdKey] .init (daServeConsensus TextLib.sample cons) = some held ∧
      (moorConsensusCacheSave TextLib.sample held).bind
        (moorConsensusCacheLoad TextLib.sample (Field.zero 32) .init) = none := by
  intro cons
  obtain ⟨held, hheld, hsame, -, -⟩ :=
    exists_clientFetchConsensus_crowd (n := 3000) (by decide) (by decide)
  refine ⟨?_, nodup_crowdConsensus _, ?_, held, hheld, ?_⟩
  · intro d hd
    obtain ⟨i, -, rfl⟩ := mem_crowdConsensus hd
    exact ⟨admitted_crowdRelay _, daAdmits_crowdRelay _⟩
  · have hrelays : (daBuildMicrodescConsensus cons.toConsensus).relays.length = 3000 := by
      simp [cons, daBuildMicrodescConsensus, crowdConsensus]
    rw [receiveDocument_daServeMicrodesc, microdescConsensusWireSize, hrelays, microdescWireSize]
    exact if_neg (by omega)
  · have hsize := le_consensusTextSize hsame sample
    have hreloads := reloads_iff sample (lineSafe_of_clientFetchConsensus hheld)
      (Field.zero 32) .init
    rw [← not_isSome_iff_eq_none, ← Reloads, hreloads]
    exact fun hfits => absurd (hsize.trans hfits.1) (by decide)

end Moor
