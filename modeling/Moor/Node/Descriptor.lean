import Moor.Crypto
import Moor.Lib.Flags

/-!
# Relay descriptors and what their signature covers

A relay declares its keys, addresses and capabilities in a descriptor and signs a serialisation
of it. The directory authorities then set flags of their own on the descriptor, so the signed
body leaves those flags out.
-/

namespace Moor

open Codec List Flags

/-! ### Flag and feature bits -/

def nodeFlagGuard : UInt32 := bit 0
def nodeFlagStable : UInt32 := bit 2
def nodeFlagFast : UInt32 := bit 3
def nodeFlagRunning : UInt32 := bit 4
def nodeFlagAuthority : UInt32 := bit 6
def nodeFlagBadexit : UInt32 := bit 7

/-- The flags a directory authority assigns; a relay never signs them. -/
def nodeFlagsDaAssigned : UInt32 :=
  nodeFlagFast ||| nodeFlagStable ||| nodeFlagBadexit ||| nodeFlagRunning ||| nodeFlagGuard
    ||| nodeFlagAuthority

def nodeFeaturePq : UInt32 := bit 0
def nodeFeatureFamily : UInt32 := bit 1
def nodeFeatureNickname : UInt32 := bit 2
def nodeFeatureContact : UInt32 := bit 3
def nodeFeatureBuildId : UInt32 := bit 5
def nodeFeatureFalcon : UInt32 := bit 6

/-- A relay descriptor. -/
structure NodeDescriptor where
  identityPk : Field 32
  onionPk : Field 32
  address : Field 64
  orPort : UInt16
  dirPort : UInt16
  flags : UInt32
  bandwidth : UInt64
  signature : Field 64
  published : UInt64
  kemPk : Field 1184
  features : UInt32
  verifiedBandwidth : UInt64
  countryCode : UInt16
  asNumber : UInt32
  familyMembers : Arr (Field 32) 8
  numFamilyMembers : UInt8
  familyId : Field 32
  nickname : Field 32
  address6 : Field 64
  prevOnionPk : Field 32
  onionKeyVersion : UInt32
  onionKeyPublished : UInt64
  contactInfo : Field 128
  protocolVersion : UInt16
  buildId : Field 16
  falconPk : Field 897
  falconSignature : Field 752
  falconSigLen : UInt16
  deriving DecidableEq

/-- The descriptor of all zero bytes. -/
def NodeDescriptor.zero : NodeDescriptor where
  identityPk := Field.zero 32
  onionPk := Field.zero 32
  address := Field.zero 64
  orPort := 0
  dirPort := 0
  flags := 0
  bandwidth := 0
  signature := Field.zero 64
  published := 0
  kemPk := Field.zero 1184
  features := 0
  verifiedBandwidth := 0
  countryCode := 0
  asNumber := 0
  familyMembers := Arr.replicate 8 (Field.zero 32)
  numFamilyMembers := 0
  familyId := Field.zero 32
  nickname := Field.zero 32
  address6 := Field.zero 64
  prevOnionPk := Field.zero 32
  onionKeyVersion := 0
  onionKeyPublished := 0
  contactInfo := Field.zero 128
  protocolVersion := 0
  buildId := Field.zero 16
  falconPk := Field.zero 897
  falconSignature := Field.zero 752
  falconSigLen := 0

/-- A C string field is non-empty: its first byte is not NUL. -/
def nonEmpty {n : ℕ} (f : Field n) : Bool := f.val.headD 0 != 0

variable (desc : NodeDescriptor)

/-- The descriptor has a Falcon key: some byte of it is not zero. -/
def descHasFalcon : Bool := desc.falconPk.val.any (· != 0)

/-- The number of family members that are written out, at most eight. -/
def familyCount : UInt8 :=
  if desc.numFamilyMembers > 8 then 8 else desc.numFamilyMembers

/-- The family members that are written out. -/
def familyList : List (Field 32) :=
  desc.familyMembers.val.take (familyCount desc).toNat

/-- The descriptor lists family members. -/
def isV3 : Bool := desc.numFamilyMembers > 0

/-- The descriptor has contact information. -/
def hasV5 : Bool := nonEmpty desc.contactInfo

/-- The descriptor has a build id. -/
def hasV7 : Bool := nonEmpty desc.buildId

/-- The descriptor has the nickname block, which the contact and build id blocks force. -/
def hasV4 : Bool :=
  nonEmpty desc.nickname || decide (desc.onionKeyVersion > 0) || hasV5 desc || hasV7 desc

/-- The feature word with the bits of the optional blocks that the descriptor holds. -/
def descWireFeatures : UInt32 :=
  let f := desc.features
  let f := if isV3 desc || hasV4 desc then f ||| nodeFeatureFamily else f
  let f := if hasV4 desc then f ||| nodeFeatureNickname else f
  let f := if hasV5 desc then f ||| nodeFeatureContact else f
  let f := if hasV7 desc then f ||| nodeFeatureBuildId else f
  if descHasFalcon desc then f ||| nodeFeatureFalcon else f

/-- The V3, V4 and V5 fields of the signed body, each block under its feature bit. -/
def signExtensions : Bytes :=
  if has desc.features (nodeFeatureFamily ||| nodeFeatureNickname) then
    [familyCount desc] ++ joinFields (familyList desc) ++
    (if has desc.features nodeFeatureNickname then
      desc.nickname.val ++ desc.address6.val ++ desc.prevOnionPk.val ++
      be32 desc.onionKeyVersion ++ be64 desc.onionKeyPublished ++
      (if has desc.features nodeFeatureContact then desc.contactInfo.val else [])
    else [])
  else []

def descSignSerialize : Bytes :=
  desc.identityPk.val ++ desc.onionPk.val ++ desc.address.val ++
  be16 desc.orPort ++ be16 desc.dirPort ++
  -- The relay never signed the flags that an authority assigns.
  be32 (clear desc.flags nodeFlagsDaAssigned) ++
  be64 desc.bandwidth ++ be64 desc.published ++ desc.kemPk.val ++ be32 desc.features ++
  signExtensions desc ++
  (if has desc.features nodeFeatureBuildId then desc.buildId.val else []) ++
  -- The Falcon key is gated by its content, not by the feature bit.
  (if descHasFalcon desc then desc.falconPk.val else [])

/-- Both signatures of a descriptor are valid; Falcon only where its feature bit is set. -/
def nodeVerifyDescriptor (C : Crypto) (desc : NodeDescriptor) : Bool :=
  let buf := descSignSerialize desc
  C.signVerify desc.signature buf desc.identityPk &&
    (!Flags.has desc.features nodeFeatureFalcon ||
      (decide (desc.falconSigLen ≠ 0 ∧ desc.falconSigLen ≤ 752) &&
        C.falconVerify (desc.falconSignature.val.take desc.falconSigLen.toNat) buf desc.falconPk))

/-! ### What the signed body covers -/

/-- The two descriptors agree on every field the signed body covers: on the authority-independent
flags, and on the fields of an optional block where the feature word says that it is present. -/
structure SignedFieldsAgree (d e : NodeDescriptor) : Prop where
  identityPk : d.identityPk = e.identityPk
  onionPk : d.onionPk = e.onionPk
  address : d.address = e.address
  orPort : d.orPort = e.orPort
  dirPort : d.dirPort = e.dirPort
  flags : clear d.flags nodeFlagsDaAssigned = clear e.flags nodeFlagsDaAssigned
  bandwidth : d.bandwidth = e.bandwidth
  published : d.published = e.published
  kemPk : d.kemPk = e.kemPk
  features : d.features = e.features
  family : has d.features (nodeFeatureFamily ||| nodeFeatureNickname) = true →
    familyList d = familyList e
  nickname : has d.features nodeFeatureNickname = true → d.nickname = e.nickname
  address6 : has d.features nodeFeatureNickname = true → d.address6 = e.address6
  prevOnionPk : has d.features nodeFeatureNickname = true → d.prevOnionPk = e.prevOnionPk
  onionKeyVersion : has d.features nodeFeatureNickname = true →
    d.onionKeyVersion = e.onionKeyVersion
  onionKeyPublished : has d.features nodeFeatureNickname = true →
    d.onionKeyPublished = e.onionKeyPublished
  contactInfo : has d.features nodeFeatureNickname = true →
    has d.features nodeFeatureContact = true → d.contactInfo = e.contactInfo
  buildId : has d.features nodeFeatureBuildId = true → d.buildId = e.buildId
  falconPk : d.falconPk = e.falconPk

theorem familyCount_le : (familyCount desc).toNat ≤ 8 := by
  rw [familyCount]
  by_cases h : 8 < desc.numFamilyMembers
  · rw [if_pos h]
    decide
  · rw [if_neg h]
    exact UInt8.le_iff_toNat_le.mp (UInt8.not_lt.mp h)

@[simp] theorem length_familyList : (familyList desc).length = (familyCount desc).toNat := by
  simp [familyList, familyCount_le]

variable (d e : NodeDescriptor)

/-- The count byte and the members are a prefix code. -/
theorem family_append_cancel (x y : Bytes) :
    [familyCount d] ++ joinFields (familyList d) ++ x
        = [familyCount e] ++ joinFields (familyList e) ++ y
      ↔ familyList d = familyList e ∧ x = y := by
  constructor
  · intro h
    simp only [cons_append, nil_append, cons.injEq] at h
    obtain ⟨hcount, htail⟩ := h
    refine (joinFields_append_cancel ?_ x y).mp htail
    simp [hcount]
  · rintro ⟨hlist, rfl⟩
    have hcount : familyCount d = familyCount e :=
      UInt8.toNat_inj.mp (by simp [← length_familyList, hlist])
    rw [hcount, hlist]

theorem falconPk_eq_zero {desc : NodeDescriptor} (h : descHasFalcon desc = false) :
    desc.falconPk = Field.zero 897 := by
  apply Subtype.ext
  rw [Field.zero, Arr.replicate, eq_replicate_iff]
  refine ⟨desc.falconPk.2, ?_⟩
  intro b hb
  simpa using any_eq_false.mp h b hb

/-- The Falcon block at the end of the body determines the key, present or not. -/
theorem falconBlock_inj :
    (if descHasFalcon d then d.falconPk.val else [])
        = (if descHasFalcon e then e.falconPk.val else [])
      ↔ d.falconPk = e.falconPk := by
  constructor
  · intro h
    by_cases hd : descHasFalcon d = true <;> by_cases he : descHasFalcon e = true
    · exact Subtype.ext (by simpa [hd, he] using h)
    · have hlen := congrArg length h
      simp [hd, he] at hlen
    · have hlen := congrArg length h
      simp [hd, he] at hlen
    · rw [falconPk_eq_zero (by simpa using hd), falconPk_eq_zero (by simpa using he)]
  · intro h
    simp [descHasFalcon, h]

/-- The V3 to V5 extensions, under one feature word, are a prefix code for the fields they
carry. -/
theorem signExtensions_append_cancel {d e : NodeDescriptor} (hf : d.features = e.features)
    (x y : Bytes) :
    signExtensions d ++ x = signExtensions e ++ y ↔
      ((has d.features (nodeFeatureFamily ||| nodeFeatureNickname) = true →
          familyList d = familyList e ∧
          (has d.features nodeFeatureNickname = true →
            d.nickname = e.nickname ∧ d.address6 = e.address6 ∧ d.prevOnionPk = e.prevOnionPk ∧
            d.onionKeyVersion = e.onionKeyVersion ∧ d.onionKeyPublished = e.onionKeyPublished ∧
            (has d.features nodeFeatureContact = true → d.contactInfo = e.contactInfo))) ∧
        x = y) := by
  unfold signExtensions
  rw [← hf]
  by_cases h3 : has d.features (nodeFeatureFamily ||| nodeFeatureNickname) = true
  · by_cases h4 : has d.features nodeFeatureNickname = true
    · by_cases h5 : has d.features nodeFeatureContact = true
      · simp only [h3, h4, h5, if_true, append_assoc _ _ x, append_assoc _ _ y,
          family_append_cancel]
        simp [and_assoc]
      · simp only [h3, h4, h5, if_true, append_assoc _ _ x, append_assoc _ _ y,
          family_append_cancel]
        simp [and_assoc]
    · simp only [h3, h4, if_true, append_assoc _ _ x, append_assoc _ _ y, family_append_cancel]
      simp
  · simp [h3]

/-- The signed body covers exactly the fields of `SignedFieldsAgree`. -/
theorem descSignSerialize_eq_iff :
    descSignSerialize d = descSignSerialize e ↔ SignedFieldsAgree d e := by
  constructor
  · intro h
    simp only [descSignSerialize, append_assoc, field_append_cancel, be16_append_cancel,
      be32_append_cancel, be64_append_cancel] at h
    obtain ⟨hid, honion, haddr, hor, hdir, hflags, hbw, hpub, hkem, hfeat, htail⟩ := h
    rw [signExtensions_append_cancel hfeat] at htail
    obtain ⟨hext, htail⟩ := htail
    have hlast : (has d.features nodeFeatureBuildId = true → d.buildId = e.buildId) ∧
        d.falconPk = e.falconPk := by
      by_cases h7 : has d.features nodeFeatureBuildId = true
      · simpa [← hfeat, h7, falconBlock_inj] using htail
      · simpa [← hfeat, h7, falconBlock_inj] using htail
    have hv4 : has d.features nodeFeatureNickname = true →
        has d.features (nodeFeatureFamily ||| nodeFeatureNickname) = true := by
      intro h4
      simp [has_or, h4]
    exact ⟨hid, honion, haddr, hor, hdir, hflags, hbw, hpub, hkem, hfeat, fun h3 => (hext h3).1,
      fun h4 => ((hext (hv4 h4)).2 h4).1, fun h4 => ((hext (hv4 h4)).2 h4).2.1,
      fun h4 => ((hext (hv4 h4)).2 h4).2.2.1, fun h4 => ((hext (hv4 h4)).2 h4).2.2.2.1,
      fun h4 => ((hext (hv4 h4)).2 h4).2.2.2.2.1, fun h4 => ((hext (hv4 h4)).2 h4).2.2.2.2.2,
      hlast.1, hlast.2⟩
  · intro h
    simp only [descSignSerialize, append_assoc, field_append_cancel, be16_append_cancel,
      be32_append_cancel, be64_append_cancel]
    refine ⟨h.identityPk, h.onionPk, h.address, h.orPort, h.dirPort, h.flags, h.bandwidth,
      h.published, h.kemPk, h.features, ?_⟩
    rw [signExtensions_append_cancel h.features]
    refine ⟨fun h3 => ⟨h.family h3, fun h4 => ⟨h.nickname h4, h.address6 h4, h.prevOnionPk h4,
      h.onionKeyVersion h4, h.onionKeyPublished h4, h.contactInfo h4⟩⟩, ?_⟩
    rw [(falconBlock_inj d e).mpr h.falconPk, ← h.features]
    by_cases h7 : has d.features nodeFeatureBuildId = true
    · rw [h.buildId h7]
    · simp [h7]

/-- Agreement on all the fields a relay declares: those of the signed body and the protocol
version. -/
def RelayDeclaredFieldsAgree (e : NodeDescriptor) : Prop :=
  SignedFieldsAgree d e ∧ d.protocolVersion = e.protocolVersion

/-- The signed body identifies a relay's declaration exactly when the protocol version, which it
leaves out, is not what tells the two descriptors apart. The flags an authority assigns change
neither the body nor the verdict on the signature. -/
theorem descSignSerialize_scope (d e : NodeDescriptor) :
    ((descSignSerialize d = descSignSerialize e ↔ RelayDeclaredFieldsAgree d e) ↔
      (SignedFieldsAgree d e → d.protocolVersion = e.protocolVersion)) ∧
    (∀ (C : Crypto) (v : UInt32),
      descSignSerialize { d with flags := d.flags ^^^ (v &&& nodeFlagsDaAssigned) }
          = descSignSerialize d ∧
        nodeVerifyDescriptor C { d with flags := d.flags ^^^ (v &&& nodeFlagsDaAssigned) }
          = nodeVerifyDescriptor C d) := by
  constructor
  · rw [descSignSerialize_eq_iff, RelayDeclaredFieldsAgree]
    tauto
  intro C v
  have hbody : descSignSerialize { d with flags := d.flags ^^^ (v &&& nodeFlagsDaAssigned) }
      = descSignSerialize d := by
    unfold descSignSerialize
    rw [clear_xor_and]
    rfl
  refine ⟨hbody, ?_⟩
  unfold nodeVerifyDescriptor
  rw [hbody]

/-- Two PQ relays that declare different protocol versions share one signed body. -/
theorem descSignSerialize_protocolVersion_uncovered :
    ¬ ∀ d e : NodeDescriptor,
      descSignSerialize d = descSignSerialize e ↔ RelayDeclaredFieldsAgree d e := by
  intro h
  let relay := { NodeDescriptor.zero with features := nodeFeaturePq, protocolVersion := 4 }
  have hagree := (h relay { relay with protocolVersion := 3 }).mp rfl
  exact absurd hagree.2 (by decide)

end Moor
