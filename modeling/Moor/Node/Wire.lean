import Moor.Node.Descriptor

/-!
# The wire format of relay descriptors

A descriptor travels as a base block followed by optional blocks. The serialiser writes a block
when the descriptor holds its fields and records that in the feature word; the parser reads a
block when the feature word it has just parsed says so. Bytes may follow the descriptor, such as
the proof of work of a publication.
-/

namespace Moor

open Codec List Option Flags StateT

def descWireSize : ℕ := 216
def descV2WireSize : ℕ := 1418
def descV4Extra : ℕ := 140
def descV5Extra : ℕ := 128
def descV7Extra : ℕ := 16
def moorFalconPkLen : ℕ := 897
def moorFalconSigMaxLen : ℕ := 752

/-! ### Serialisation -/

variable (desc : NodeDescriptor)

/-- The Falcon block is written when both the feature bit and the key say so. -/
def hasV8 : Bool :=
  has desc.features nodeFeatureFalcon && descHasFalcon desc

/-- The descriptor needs more than the base block. -/
def isV2 : Bool := desc.features != 0 || isV3 desc || hasV4 desc

/-- The feature word on the wire. -/
def wireFeatures : UInt32 :=
  let f := desc.features
  let f := if isV3 desc || hasV4 desc then f ||| nodeFeatureFamily else f
  let f := if hasV4 desc then f ||| nodeFeatureNickname else f
  let f := if hasV5 desc then f ||| nodeFeatureContact else f
  let f := if hasV7 desc then f ||| nodeFeatureBuildId else f
  if hasV8 desc then f ||| nodeFeatureFalcon else f

def wireV1 : Bytes :=
  desc.identityPk.val ++ desc.onionPk.val ++ desc.address.val ++ be16 desc.orPort ++
  be16 desc.dirPort ++ be32 desc.flags ++ be64 desc.bandwidth ++ be64 desc.published ++
  desc.signature.val

def wireV2 : Bytes :=
  be32 (wireFeatures desc) ++ desc.kemPk.val ++ be64 desc.verifiedBandwidth ++
  be16 desc.countryCode ++ be32 desc.asNumber

def wireV3 : Bytes :=
  [familyCount desc] ++ joinFields (familyList desc) ++ desc.familyId.val

def wireV4 : Bytes :=
  desc.nickname.val ++ desc.address6.val ++ desc.prevOnionPk.val ++ be32 desc.onionKeyVersion ++
  be64 desc.onionKeyPublished

def wireV8 : Bytes :=
  desc.falconPk.val ++ be16 desc.falconSigLen ++
  desc.falconSignature.val.take desc.falconSigLen.toNat

/-- The space the serialiser asks for. -/
def descWireNeeded : ℕ :=
  (if isV2 desc then descV2WireSize else descWireSize) +
  (if isV3 desc then 1 + desc.numFamilyMembers.toNat * 32 + 32 else 0) +
  (if hasV4 desc then (if isV3 desc then 0 else 1 + 32) + descV4Extra else 0) +
  (if hasV5 desc then descV5Extra else 0) + (if isV2 desc then 2 else 0) +
  (if hasV7 desc then descV7Extra else 0) +
  (if hasV8 desc then moorFalconPkLen + 2 + desc.falconSigLen.toNat else 0)

/-- The bytes the serialiser writes. -/
def descWireBytes : Bytes :=
  wireV1 desc ++ (if isV2 desc then wireV2 desc else []) ++
  (if isV3 desc || hasV4 desc then wireV3 desc else []) ++
  (if hasV4 desc then wireV4 desc else []) ++
  (if hasV5 desc then desc.contactInfo.val else []) ++
  (if isV2 desc then be16 desc.protocolVersion else []) ++
  (if hasV7 desc then desc.buildId.val else []) ++ (if hasV8 desc then wireV8 desc else [])

/-- Serialises a descriptor into a buffer of `outLen` bytes. -/
def nodeDescriptorSerialize (outLen : ℕ) (desc : NodeDescriptor) : Option Bytes :=
  if outLen < descWireNeeded desc then none else some (descWireBytes desc)

/-! ### Parsing -/

/-- The bytes of a C string, up to its NUL. -/
def cString {n : ℕ} (f : Field n) : Bytes := f.val.takeWhile (· != 0)

/-- Control characters, space and DEL are refused in an address. -/
def badAddressChar (ch : UInt8) : Bool := ch < 0x20 || ch == 0x20 || ch == 0x7F

/-- Control characters and DEL are refused in other texts. -/
def badTextChar (ch : UInt8) : Bool := ch < 0x20 || ch == 0x7F

/-- Reads a text field, terminates it and refuses it when it has a bad character. -/
def readText (n : ℕ) (bad : UInt8 → Bool) : Reader (Field n) := do
  let f := (← readField n).set (n - 1) 0
  if (cString f).any bad then failure else return f

/-- Replaces what is not printable, up to the NUL. -/
def sanitizeBuildId : Bytes → Bytes
  | [] => []
  | ch :: rest =>
    if ch = 0 then ch :: rest
    else (if ch < 0x20 || 0x7F ≤ ch then 0x5F else ch) :: sanitizeBuildId rest

@[simp] theorem length_sanitizeBuildId (bs : Bytes) : (sanitizeBuildId bs).length = bs.length := by
  induction bs with
  | nil => rfl
  | cons ch rest ih =>
    unfold sanitizeBuildId
    split <;> simp [ih]

def readV1 : Reader NodeDescriptor := do
  let identityPk ← readField 32
  let onionPk ← readField 32
  let address ← readText 64 badAddressChar
  let orPort ← readU16
  let dirPort ← readU16
  let flags ← readU32
  let bandwidth ← readU64
  let published ← readU64
  let signature ← readField 64
  return { NodeDescriptor.zero with
    identityPk, onionPk, address, orPort, dirPort, flags, bandwidth, published, signature }

def readV2 : Reader NodeDescriptor := do
  let features ← readU32
  let kemPk ← readField 1184
  let verifiedBandwidth ← readU64
  let countryCode ← readU16
  let asNumber ← readU32
  return { desc with features, kemPk, verifiedBandwidth, countryCode, asNumber }

def readV3 : Reader NodeDescriptor := do
  let wireFamilyCount ← readU8
  let actualFamily := if wireFamilyCount > 8 then 8 else wireFamilyCount
  let members ← readMany (readField 32) actualFamily.toNat
  -- Entries beyond the capacity of the array are skipped.
  let _ ← readMany (readField 32) (wireFamilyCount.toNat - actualFamily.toNat)
  let familyId ← readField 32
  return { desc with
    numFamilyMembers := actualFamily
    familyMembers := Arr.ofList 8 (Field.zero 32) members
    familyId }

def readV4 : Reader NodeDescriptor := do
  let nickname ← readText 32 badTextChar
  let address6 ← readText 64 badTextChar
  let prevOnionPk ← readField 32
  let onionKeyVersion ← readU32
  let onionKeyPublished ← readU64
  return { desc with nickname, address6, prevOnionPk, onionKeyVersion, onionKeyPublished }

def readV5 : Reader NodeDescriptor := do
  return { desc with contactInfo := ← readText 128 badTextChar }

def readV6 : Reader NodeDescriptor := do
  return { desc with protocolVersion := ← readU16 }

def readV7 : Reader NodeDescriptor := do
  let f ← readField 16
  return { desc with buildId := ⟨sanitizeBuildId f.val, by simp⟩ }

def readV8 : Reader NodeDescriptor := do
  let falconPk ← readField 897
  let sigLen ← readU16
  if sigLen = 0 ∨ sigLen.toNat > moorFalconSigMaxLen then failure
  let sig ← readField sigLen.toNat
  return { desc with
    falconPk, falconSigLen := sigLen, falconSignature := Arr.ofList 752 0 sig.val }

/-- Reads a block when its feature bits are set and at least `extra` bytes are left. -/
def readIf (mask : UInt32) (extra : ℕ) (block : NodeDescriptor → Reader NodeDescriptor)
    (desc : NodeDescriptor) : Reader NodeDescriptor := do
  if has desc.features mask && extra ≤ (← remaining) then block desc else return desc

/-- The V3 header with the V4 and V5 blocks inside it. -/
def readFamily : Reader NodeDescriptor :=
  if has desc.features (nodeFeatureFamily ||| nodeFeatureNickname) then do
    let desc ← readV3 desc
    readIf nodeFeatureNickname descV4Extra
      (fun desc => do readIf nodeFeatureContact descV5Extra readV5 (← readV4 desc)) desc
  else return desc

/-- Everything after the base block. -/
def readExtensions : Reader NodeDescriptor := do
  let desc ← readV2 desc
  let desc ← readFamily desc
  let desc ← if 2 ≤ (← remaining) then readV6 desc else return desc
  let desc ← readIf nodeFeatureBuildId 16 readV7 desc
  readIf nodeFeatureFalcon (moorFalconPkLen + 2) readV8 desc

/-- Parses a descriptor from the front of `data`; returns it with the number of bytes read. -/
def nodeDescriptorDeserialize (data : Bytes) : Option (NodeDescriptor × ℕ) := do
  if data.length < descWireSize then none
  let parse : Reader NodeDescriptor := do
    let desc ← readV1
    -- The longer formats are told apart by the length of the input.
    if descV2WireSize ≤ data.length then readExtensions desc else return desc
  let (desc, rest) ← parse.run data
  return (desc, data.length - rest.length)

/-! ### Well-formed descriptors -/

/-- A text field: its last byte is NUL and no character before the first NUL is bad. -/
def IsText {n : ℕ} (bad : UInt8 → Bool) (f : Field n) : Prop :=
  f.set (n - 1) 0 = f ∧ (cString f).any bad = false
  deriving Decidable

/-- The descriptors a relay can build. The bit of an optional block is set only when the block has
something in it. -/
structure WellFormed (desc : NodeDescriptor) : Prop where
  address : IsText badAddressChar desc.address
  nickname : IsText badTextChar desc.nickname
  address6 : IsText badTextChar desc.address6
  contactInfo : IsText badTextChar desc.contactInfo
  buildId : ∀ ch ∈ cString desc.buildId, 0x20 ≤ ch ∧ ch < 0x7F
  family : desc.numFamilyMembers ≤ 8
  falconSig : has desc.features nodeFeatureFalcon = true →
    0 < desc.falconSigLen.toNat ∧ desc.falconSigLen.toNat ≤ moorFalconSigMaxLen
  familyBit : has desc.features nodeFeatureFamily = true → (isV3 desc || hasV4 desc) = true
  nicknameBit : has desc.features nodeFeatureNickname = true → hasV4 desc = true
  contactBit : has desc.features nodeFeatureContact = true → hasV5 desc = true
  buildIdBit : has desc.features nodeFeatureBuildId = true → hasV7 desc = true
  falconBit : has desc.features nodeFeatureFalcon = true → descHasFalcon desc = true

/-! ### What is accepted -/

/-- The texts of a descriptor that has been read are terminated and have no bad character. -/
structure TextsAccepted (desc : NodeDescriptor) : Prop where
  address : IsText badAddressChar desc.address
  nickname : IsText badTextChar desc.nickname
  address6 : IsText badTextChar desc.address6
  contactInfo : IsText badTextChar desc.contactInfo

theorem readText_ensures (n : ℕ) (bad : UInt8 → Bool) : Ensures (readText n bad) (IsText bad) := by
  refine .bind_any fun f => .ite (fun _ => .failure) fun hgood => .pure ⟨?_, by simpa using hgood⟩
  exact Subtype.ext (set_set 0)

theorem isText_zero {n : ℕ} (bad : UInt8 → Bool) (hn : 0 < n) : IsText bad (Field.zero n) := by
  refine ⟨Subtype.ext ?_, ?_⟩
  · exact set_replicate_self
  · obtain ⟨m, rfl⟩ := Nat.exists_eq_succ_of_ne_zero hn.ne'
    rfl

variable {desc : NodeDescriptor}

section Accepted

theorem readV1_ensures : Ensures readV1 TextsAccepted := by
  refine .bind_any fun _ => .bind_any fun _ =>
    (readText_ensures 64 _).bind fun address haddress => ?_
  refine .bind_any fun _ => .bind_any fun _ => .bind_any fun _ => .bind_any fun _ =>
    .bind_any fun _ => .bind_any fun _ => .pure ⟨haddress, ?_, ?_, ?_⟩
  all_goals exact isText_zero _ (by decide)

variable (h : TextsAccepted desc)
include h

theorem readV2_ensures : Ensures (readV2 desc) TextsAccepted :=
  .bind_any fun _ => .bind_any fun _ => .bind_any fun _ => .bind_any fun _ => .bind_any fun _ =>
    .pure { h with }

theorem readV3_ensures : Ensures (readV3 desc) TextsAccepted :=
  .bind_any fun _ => .bind_any fun _ => .bind_any fun _ => .bind_any fun _ =>
    .pure { h with }

theorem readV4_ensures : Ensures (readV4 desc) TextsAccepted :=
  (readText_ensures 32 _).bind fun _ hnickname => (readText_ensures 64 _).bind fun _ haddress6 =>
    .bind_any fun _ => .bind_any fun _ => .bind_any fun _ =>
      .pure { h with nickname := hnickname, address6 := haddress6 }

theorem readV5_ensures : Ensures (readV5 desc) TextsAccepted :=
  (readText_ensures 128 _).bind fun _ hcontact => .pure { h with contactInfo := hcontact }

theorem readV6_ensures : Ensures (readV6 desc) TextsAccepted :=
  .bind_any fun _ => .pure { h with }

theorem readV7_ensures : Ensures (readV7 desc) TextsAccepted :=
  .bind_any fun _ => .pure { h with }

theorem readV8_ensures : Ensures (readV8 desc) TextsAccepted := by
  refine .bind_any fun _ => .bind_any fun _ =>
    .ite (fun _ => Ensures.failure.bind fun _ => False.elim) fun _ =>
      .bind_any fun _ => .pure { h with }

omit h

theorem readIf_ensures (mask : UInt32) (extra : ℕ) {block : NodeDescriptor → Reader NodeDescriptor}
    (hblock : ∀ {desc}, TextsAccepted desc → Ensures (block desc) TextsAccepted)
    (h : TextsAccepted desc) : Ensures (readIf mask extra block desc) TextsAccepted :=
  .bind_any fun _ => .ite (fun _ => hblock h) fun _ => .pure h

theorem readFamily_ensures (h : TextsAccepted desc) : Ensures (readFamily desc) TextsAccepted := by
  refine .ite (fun _ => ?_) fun _ => .pure h
  refine (readV3_ensures h).bind fun _ h3 => readIf_ensures _ _ (fun h => ?_) h3
  exact (readV4_ensures h).bind fun _ h4 => readIf_ensures _ _ readV5_ensures h4

theorem readExtensions_ensures (h : TextsAccepted desc) :
    Ensures (readExtensions desc) TextsAccepted := by
  refine (readV2_ensures h).bind fun _ h2 => (readFamily_ensures h2).bind fun _ hfamily => ?_
  refine .bind_any fun _ => .ite (fun _ => ?_) fun _ => .pure hfamily
  exact (readV6_ensures hfamily).bind fun _ h6 => (readIf_ensures _ _ readV7_ensures h6).bind
    fun _ h7 => readIf_ensures _ _ readV8_ensures h7

end Accepted

/-- The texts of a descriptor that the parser accepts are well formed. -/
theorem textsAccepted_of_deserialize {data : Bytes} {n : ℕ}
    (h : nodeDescriptorDeserialize data = some (desc, n)) : TextsAccepted desc := by
  unfold nodeDescriptorDeserialize at h
  by_cases hlen : data.length < descWireSize
  · rw [if_pos hlen] at h
    cases h
  rw [if_neg hlen] at h
  obtain ⟨⟨d, rest⟩, hrun, hresult⟩ := bind_eq_some_iff.mp h
  obtain rfl : d = desc := (Prod.mk.inj (some_inj.mp hresult)).1
  refine Ensures.bind readV1_ensures (fun d hd => ?_) _ _ _ hrun
  exact .ite (fun _ => readExtensions_ensures hd) fun _ => .pure hd

/-- The feature word says exactly which optional blocks the descriptor holds. -/
structure FeaturesMatch (desc : NodeDescriptor) : Prop where
  family : has desc.features nodeFeatureFamily = (isV3 desc || hasV4 desc)
  nickname : has desc.features nodeFeatureNickname = hasV4 desc
  contact : has desc.features nodeFeatureContact = hasV5 desc
  buildId : has desc.features nodeFeatureBuildId = hasV7 desc
  falcon : has desc.features nodeFeatureFalcon = descHasFalcon desc

private theorem has_ite_or (c : Bool) (w v mask : UInt32) :
    has (if c then w ||| v else w) mask = (has w mask || (c && has v mask)) := by
  cases c <;> simp [or_has]

/-- Signing sets the bit of every block that the descriptor holds, so that a well-formed
descriptor leaves it with a matching feature word. -/
theorem WellFormed.featuresMatch (h : WellFormed desc)
    (hsigned : descWireFeatures desc = desc.features) : FeaturesMatch desc := by
  have hset : ∀ mask, has desc.features mask = has (descWireFeatures desc) mask := by
    intro mask
    rw [hsigned]
  refine ⟨Bool.eq_iff_iff.mpr ⟨h.familyBit, ?_⟩, Bool.eq_iff_iff.mpr ⟨h.nicknameBit, ?_⟩,
    Bool.eq_iff_iff.mpr ⟨h.contactBit, ?_⟩, Bool.eq_iff_iff.mpr ⟨h.buildIdBit, ?_⟩,
    Bool.eq_iff_iff.mpr ⟨h.falconBit, ?_⟩⟩
  all_goals
    intro hblock
    rw [hset]
    simp only [descWireFeatures, has_ite_or]
    rw [hblock, has_self (by decide)]
    simp

namespace FeaturesMatch

theorem hasV8_eq (h : FeaturesMatch desc) :
    hasV8 desc = has desc.features nodeFeatureFalcon := by
  simp [hasV8, ← h.falcon]

private theorem ite_or_eq_self {c : Bool} {w : UInt32} {k : ℕ}
    (h : c = true → has w (bit k) = true) :
    (if c then w ||| bit k else w) = w := by
  cases c with
  | false => rfl
  | true => exact or_bit_eq_self (h rfl)

variable (h : FeaturesMatch desc)
include h

/-- The serialiser leaves a matching feature word as it is. -/
theorem wireFeatures_eq : wireFeatures desc = desc.features := by
  dsimp only [wireFeatures]
  rw [nodeFeatureFamily, ite_or_eq_self (h.family.trans),
    nodeFeatureNickname, ite_or_eq_self (h.nickname.trans),
    nodeFeatureContact, ite_or_eq_self (h.contact.trans),
    nodeFeatureBuildId, ite_or_eq_self (h.buildId.trans),
    nodeFeatureFalcon, ite_or_eq_self (h.hasV8_eq.symm.trans)]

theorem familyOrNickname :
    has desc.features (nodeFeatureFamily ||| nodeFeatureNickname)
      = (isV3 desc || hasV4 desc) := by
  simp [has_or, h.family, h.nickname]

/-- The base format is used exactly when the feature word is zero. -/
theorem isV2_eq : isV2 desc = (desc.features != 0) := by
  rw [isV2, Bool.or_assoc, ← h.family]
  by_cases hzero : desc.features = 0
  · rw [hzero]
    decide
  · simp [bne_iff_ne.mpr hzero]

/-- Without a feature bit there is no optional block. -/
theorem blocks_eq_false (hzero : desc.features = 0) :
    isV2 desc = false ∧ (isV3 desc || hasV4 desc) = false ∧ hasV4 desc = false ∧
      hasV5 desc = false ∧ hasV7 desc = false ∧ hasV8 desc = false := by
  have hnone : ∀ mask, has desc.features mask = false := by
    simp [has, hzero]
  refine ⟨?_, h.family.symm.trans (hnone _), h.nickname.symm.trans (hnone _),
    h.contact.symm.trans (hnone _), h.buildId.symm.trans (hnone _), h.hasV8_eq.trans (hnone _)⟩
  rw [h.isV2_eq, hzero]
  rfl

omit h

end FeaturesMatch

/-! ### The parser replays what the serialiser wrote -/

theorem readText_run_append {n : ℕ} {bad : UInt8 → Bool} {f : Field n} (h : IsText bad f)
    (rest : Bytes) : (readText n bad).run (f.val ++ rest) = some (f, rest) := by
  simp only [readText, run_bind, readField_run_append, bind_eq_bind, bind_some, h.1, h.2]
  rfl

theorem sanitizeBuildId_eq_self {bs : Bytes}
    (h : ∀ ch ∈ bs.takeWhile (· != 0), 0x20 ≤ ch ∧ ch < 0x7F) : sanitizeBuildId bs = bs := by
  induction bs with
  | nil => rfl
  | cons ch rest ih =>
    unfold sanitizeBuildId
    by_cases hch : ch = 0
    · rw [if_pos hch]
    have htake : (ch :: rest).takeWhile (· != 0) = ch :: rest.takeWhile (· != 0) := by
      simp [hch]
    rw [htake] at h
    have hch' := h ch mem_cons_self
    have hgood : (decide (ch < 0x20) || decide (0x7F ≤ ch)) = false := by
      simp only [Bool.or_eq_false_iff, decide_eq_false_iff_not, UInt8.not_lt, UInt8.not_le]
      exact hch'
    rw [if_neg hch, hgood, ih fun c hc => h c (mem_cons_of_mem _ hc)]
    rfl

variable (d e : NodeDescriptor)

/-- What the base block of `d` leaves in the parsed descriptor. -/
def setV1 : NodeDescriptor :=
  { NodeDescriptor.zero with
    identityPk := d.identityPk, onionPk := d.onionPk, address := d.address, orPort := d.orPort
    dirPort := d.dirPort, flags := d.flags, bandwidth := d.bandwidth, published := d.published
    signature := d.signature }

/-- What the V2 block of `d` adds to the parsed descriptor `e`. -/
def setV2 : NodeDescriptor :=
  { e with
    features := wireFeatures d, kemPk := d.kemPk, verifiedBandwidth := d.verifiedBandwidth
    countryCode := d.countryCode, asNumber := d.asNumber }

def setV3 : NodeDescriptor :=
  { e with
    numFamilyMembers := familyCount d
    familyMembers := Arr.ofList 8 (Field.zero 32) (familyList d), familyId := d.familyId }

def setV4 : NodeDescriptor :=
  { e with
    nickname := d.nickname, address6 := d.address6, prevOnionPk := d.prevOnionPk
    onionKeyVersion := d.onionKeyVersion, onionKeyPublished := d.onionKeyPublished }

def setV5 : NodeDescriptor := { e with contactInfo := d.contactInfo }

def setV6 : NodeDescriptor := { e with protocolVersion := d.protocolVersion }

def setV7 : NodeDescriptor := { e with buildId := d.buildId }

def setV8 : NodeDescriptor :=
  { e with
    falconPk := d.falconPk, falconSigLen := d.falconSigLen
    falconSignature := Arr.ofList 752 0 (d.falconSignature.val.take d.falconSigLen.toNat) }

section Replay

variable {d : NodeDescriptor} (e : NodeDescriptor) (rest : Bytes)

theorem readV1_run (h : WellFormed d) : readV1.run (wireV1 d ++ rest) = some (setV1 d, rest) := by
  simp [readV1, wireV1, readText_run_append h.address, setV1]

theorem readV2_run : (readV2 e).run (wireV2 d ++ rest) = some (setV2 d e, rest) := by
  simp [readV2, wireV2, setV2]

theorem readV3_run : (readV3 e).run (wireV3 d ++ rest) = some (setV3 d e, rest) := by
  have hcap : ¬ familyCount d > 8 := by
    have hle := familyCount_le d
    exact not_lt.mpr hle
  have hmembers := readMany_run_append (familyList d) (d.familyId.val ++ rest)
  rw [length_familyList] at hmembers
  simp [readV3, wireV3, setV3, hcap, hmembers, readMany]

theorem readV4_run (h : WellFormed d) :
    (readV4 e).run (wireV4 d ++ rest) = some (setV4 d e, rest) := by
  simp [readV4, wireV4, readText_run_append h.nickname, readText_run_append h.address6, setV4]

theorem readV5_run (h : WellFormed d) :
    (readV5 e).run (d.contactInfo.val ++ rest) = some (setV5 d e, rest) := by
  simp [readV5, readText_run_append h.contactInfo, setV5]

theorem readV6_run : (readV6 e).run (be16 d.protocolVersion ++ rest) = some (setV6 d e, rest) := by
  simp [readV6, setV6]

theorem readV7_run (h : WellFormed d) :
    (readV7 e).run (d.buildId.val ++ rest) = some (setV7 d e, rest) := by
  simp [readV7, setV7, sanitizeBuildId_eq_self h.buildId]

theorem readV8_run (h : WellFormed d) (hv8 : has d.features nodeFeatureFalcon = true) :
    (readV8 e).run (wireV8 d ++ rest) = some (setV8 d e, rest) := by
  obtain ⟨hpos, hmax⟩ := h.falconSig hv8
  have hnonzero : d.falconSigLen ≠ 0 := by
    intro hzero
    rw [hzero] at hpos
    exact absurd hpos (by decide)
  have hsig := readField_run_append
    (⟨d.falconSignature.val.take d.falconSigLen.toNat, length_take_of_le (by simpa)⟩ :
      Field d.falconSigLen.toNat) rest
  have hok : ¬ (d.falconSigLen = 0 ∨ d.falconSigLen.toNat > moorFalconSigMaxLen) := by
    simp [hnonzero, hmax]
  simp [readV8, wireV8, setV8, hok, hsig]

/-- A block that was written is read back when its bit and its length check let the parser see
it. -/
theorem readIf_run {mask : UInt32} {extra : ℕ} {block : NodeDescriptor → Reader NodeDescriptor}
    {present : Bool} {bytes : Bytes} {e' : NodeDescriptor} (hbit : has e.features mask = present)
    (hlen : present = true → extra ≤ bytes.length)
    (hblock : present = true → (block e).run (bytes ++ rest) = some (e', rest)) :
    (readIf mask extra block e).run ((if present then bytes else []) ++ rest)
      = some ((if present then e' else e), rest) := by
  cases present with
  | false => simp [readIf, hbit]
  | true =>
    have hle : extra ≤ (bytes ++ rest).length := by
      rw [length_append]
      exact (hlen rfl).trans (Nat.le_add_right _ _)
    simp only [readIf, run_bind, remaining_run, bind_eq_bind, bind_some,
      if_true, hbit, hle, decide_true, Bool.and_self, hblock rfl]

/-- What the V3 header of `d` and the blocks inside it add to the parsed descriptor. -/
def setFamily (d e : NodeDescriptor) : NodeDescriptor :=
  if isV3 d || hasV4 d then
    if hasV4 d then
      if hasV5 d then setV5 d (setV4 d (setV3 d e)) else setV4 d (setV3 d e)
    else setV3 d e
  else e

theorem hasV4_of_hasV5 (h : hasV5 d = true) : hasV4 d = true := by
  simp [hasV4, h]

theorem readFamily_run (h : WellFormed d) (hm : FeaturesMatch d) (hf : e.features = d.features) :
    (readFamily e).run ((if isV3 d || hasV4 d then wireV3 d else []) ++
        ((if hasV4 d then wireV4 d else []) ++
          ((if hasV5 d then d.contactInfo.val else []) ++ rest)))
      = some (setFamily d e, rest) := by
  unfold readFamily setFamily
  rw [hf, hm.familyOrNickname]
  by_cases h3 : (isV3 d || hasV4 d) = true
  · simp only [h3, if_true, run_bind, readV3_run, bind_eq_bind, bind_some]
    -- The contact block is nested in the nickname block on both sides.
    have hnest : (if hasV4 d then wireV4 d else []) ++
        ((if hasV5 d then d.contactInfo.val else []) ++ rest)
          = (if hasV4 d then wireV4 d ++ (if hasV5 d then d.contactInfo.val else []) else [])
            ++ rest := by
      by_cases h4 : hasV4 d = true
      · simp [h4]
      · have h5 : ¬ hasV5 d = true := fun h5 => h4 (hasV4_of_hasV5 h5)
        simp [h4, h5]
    rw [hnest]
    refine readIf_run (setV3 d e) rest (hf ▸ hm.nickname) ?_ ?_
    · simp [wireV4, descV4Extra]
      omega
    intro _
    simp only [run_bind, append_assoc, readV4_run _ _ h, bind_eq_bind, bind_some]
    refine readIf_run (setV4 d (setV3 d e)) rest (hf ▸ hm.contact) ?_ ?_
    · simp [descV5Extra]
    · intro _
      exact readV5_run _ rest h
  · have h4 : ¬ hasV4 d = true := fun h4 => h3 (by rw [h4, Bool.or_true])
    have h5 : ¬ hasV5 d = true := fun h5 => h4 (hasV4_of_hasV5 h5)
    rw [if_neg h3, if_neg h3, if_neg h3, if_neg h4, if_neg h5]
    rfl

/-- The descriptor a parser obtains from the bytes of `d`: a field is zero unless its block was
written. -/
def wireImage (d : NodeDescriptor) : NodeDescriptor where
  identityPk := d.identityPk
  onionPk := d.onionPk
  address := d.address
  orPort := d.orPort
  dirPort := d.dirPort
  flags := d.flags
  bandwidth := d.bandwidth
  signature := d.signature
  published := d.published
  kemPk := if isV2 d then d.kemPk else Field.zero 1184
  features := if isV2 d then wireFeatures d else 0
  verifiedBandwidth := if isV2 d then d.verifiedBandwidth else 0
  countryCode := if isV2 d then d.countryCode else 0
  asNumber := if isV2 d then d.asNumber else 0
  familyMembers :=
    if isV3 d || hasV4 d then Arr.ofList 8 (Field.zero 32) (familyList d)
    else Arr.replicate 8 (Field.zero 32)
  numFamilyMembers := if isV3 d || hasV4 d then familyCount d else 0
  familyId := if isV3 d || hasV4 d then d.familyId else Field.zero 32
  nickname := if hasV4 d then d.nickname else Field.zero 32
  address6 := if hasV4 d then d.address6 else Field.zero 64
  prevOnionPk := if hasV4 d then d.prevOnionPk else Field.zero 32
  onionKeyVersion := if hasV4 d then d.onionKeyVersion else 0
  onionKeyPublished := if hasV4 d then d.onionKeyPublished else 0
  contactInfo := if hasV5 d then d.contactInfo else Field.zero 128
  protocolVersion := if isV2 d then d.protocolVersion else 0
  buildId := if hasV7 d then d.buildId else Field.zero 16
  falconPk := if hasV8 d then d.falconPk else Field.zero 897
  falconSignature :=
    if hasV8 d then Arr.ofList 752 0 (d.falconSignature.val.take d.falconSigLen.toNat)
    else Field.zero 752
  falconSigLen := if hasV8 d then d.falconSigLen else 0

theorem setFamily_eq (d e : NodeDescriptor) : setFamily d e =
    { e with
      familyMembers :=
        if isV3 d || hasV4 d then Arr.ofList 8 (Field.zero 32) (familyList d) else e.familyMembers
      numFamilyMembers := if isV3 d || hasV4 d then familyCount d else e.numFamilyMembers
      familyId := if isV3 d || hasV4 d then d.familyId else e.familyId
      nickname := if hasV4 d then d.nickname else e.nickname
      address6 := if hasV4 d then d.address6 else e.address6
      prevOnionPk := if hasV4 d then d.prevOnionPk else e.prevOnionPk
      onionKeyVersion := if hasV4 d then d.onionKeyVersion else e.onionKeyVersion
      onionKeyPublished := if hasV4 d then d.onionKeyPublished else e.onionKeyPublished
      contactInfo := if hasV5 d then d.contactInfo else e.contactInfo } := by
  unfold setFamily
  by_cases h4 : hasV4 d = true
  · by_cases h5 : hasV5 d = true
    · simp only [h4, h5, Bool.or_true, if_true, setV3, setV4, setV5]
    · simp only [h4, h5, Bool.or_true, if_true, if_false, setV3, setV4, Bool.false_eq_true]
  have h5 : ¬ hasV5 d = true := fun h5 => h4 (hasV4_of_hasV5 h5)
  by_cases h3 : isV3 d = true
  · simp only [h3, h4, h5, Bool.true_or, if_true, if_false, setV3, Bool.false_eq_true]
  · simp only [h3, h4, h5, Bool.or_self, if_false, Bool.false_eq_true]

/-- The blocks, put together one after another, give the image. -/
theorem setExtensions_eq_wireImage (hv2 : isV2 d = true) :
    (if hasV8 d then
        setV8 d (if hasV7 d then setV7 d (setV6 d (setFamily d (setV2 d (setV1 d))))
          else setV6 d (setFamily d (setV2 d (setV1 d))))
      else (if hasV7 d then setV7 d (setV6 d (setFamily d (setV2 d (setV1 d))))
        else setV6 d (setFamily d (setV2 d (setV1 d))))) = wireImage d := by
  rw [setFamily_eq]
  by_cases h7 : hasV7 d = true <;> by_cases h8 : hasV8 d = true
  all_goals
    simp only [h7, h8, hv2, if_true, if_false, Bool.false_eq_true, wireImage, setV1, setV2, setV6,
      setV7, setV8, NodeDescriptor.zero]

/-- A descriptor in the base format has no further block. -/
theorem setV1_eq_wireImage (hm : FeaturesMatch d) (hzero : d.features = 0) :
    setV1 d = wireImage d := by
  obtain ⟨h2, h34, h4, h5, h7, h8⟩ := hm.blocks_eq_false hzero
  rw [wireImage, h2, h34, h4, h5, h7, h8]
  rfl

@[simp] theorem setFamily_features : (setFamily d e).features = e.features := by
  unfold setFamily
  split_ifs <;> rfl

theorem readExtensions_run (h : WellFormed d) (hm : FeaturesMatch d) (hv2 : isV2 d = true) :
    (readExtensions (setV1 d)).run (wireV2 d ++
        ((if isV3 d || hasV4 d then wireV3 d else []) ++
          ((if hasV4 d then wireV4 d else []) ++
            ((if hasV5 d then d.contactInfo.val else []) ++
              (be16 d.protocolVersion ++
                ((if hasV7 d then d.buildId.val else []) ++
                  ((if hasV8 d then wireV8 d else []) ++ rest)))))))
      = some (wireImage d, rest) := by
  have hfeat : (setV2 d (setV1 d)).features = d.features := hm.wireFeatures_eq
  have hfeat6 : (setV6 d (setFamily d (setV2 d (setV1 d)))).features = d.features := by
    rw [← hfeat]
    exact setFamily_features _
  simp only [readExtensions, run_bind, readV2_run, bind_eq_bind, bind_some,
    readFamily_run _ _ h hm hfeat, remaining_run]
  rw [if_pos (by simp)]
  simp only [run_bind, readV6_run, bind_eq_bind, bind_some]
  have h7 := readIf_run (setV6 d (setFamily d (setV2 d (setV1 d))))
    ((if hasV8 d then wireV8 d else []) ++ rest) (hfeat6 ▸ hm.buildId)
    (fun _ => (Arr.length_val d.buildId).ge) (fun _ => readV7_run _ _ h)
  have hfeat7 : (if hasV7 d then setV7 d (setV6 d (setFamily d (setV2 d (setV1 d))))
      else setV6 d (setFamily d (setV2 d (setV1 d)))).features = d.features := by
    split
    · exact hfeat6
    · exact hfeat6
  rw [h7, bind_some, ← setExtensions_eq_wireImage hv2]
  refine readIf_run _ rest (hfeat7 ▸ hm.hasV8_eq.symm) ?_ ?_
  · simp only [wireV8, length_append, Arr.length_val, length_be16, moorFalconPkLen]
    omega
  · intro hv8
    exact readV8_run _ rest h (hm.hasV8_eq ▸ hv8)

end Replay

/-- The base block has a fixed length. -/
@[simp] theorem length_wireV1 (d : NodeDescriptor) : (wireV1 d).length = descWireSize := by
  simp [wireV1, descWireSize]

@[simp] theorem length_wireV2 (d : NodeDescriptor) :
    (wireV2 d).length = descV2WireSize - descWireSize := by
  simp [wireV2, descWireSize, descV2WireSize]

variable {d : NodeDescriptor}

/-- A descriptor in the base format is written as its base block alone. -/
theorem descWireBytes_of_base (hm : FeaturesMatch d) (hzero : d.features = 0) :
    descWireBytes d = wireV1 d := by
  obtain ⟨h2, h34, h4, h5, h7, h8⟩ := hm.blocks_eq_false hzero
  rw [descWireBytes, h2, h34, h4, h5, h7, h8]
  simp

/-- Parsing the bytes of a well-formed descriptor stops where they end. A descriptor in the base
format must not be followed by so many bytes that the whole reads as a longer format. -/
theorem nodeDescriptorDeserialize_append (h : WellFormed d) (hm : FeaturesMatch d) (t : Bytes)
    (hbase : d.features = 0 → t.length < descV2WireSize - descWireSize) :
    nodeDescriptorDeserialize (descWireBytes d ++ t)
      = some (wireImage d, (descWireBytes d).length) := by
  have hbody : ∃ body, descWireBytes d = wireV1 d ++ body := by
    simp [descWireBytes]
  have hlong : ¬ (descWireBytes d ++ t).length < descWireSize := by
    obtain ⟨body, hbody⟩ := hbody
    simp [hbody]
  unfold nodeDescriptorDeserialize
  by_cases hv2 : isV2 d = true
  · have hlen : descV2WireSize ≤ (descWireBytes d ++ t).length := by
      simp [descWireBytes, hv2, descWireSize, descV2WireSize]
      omega
    have hrun : (do readExtensions (← readV1) : Reader NodeDescriptor).run (descWireBytes d ++ t)
        = some (wireImage d, t) := by
      have hext := readExtensions_run t h hm hv2
      simp only [descWireBytes, hv2, if_true, append_assoc, run_bind,
        readV1_run _ h, bind_eq_bind, bind_some]
      exact hext
    simp only [hlong, hlen, if_true, if_false, hrun]
    simp
  · have hzero : d.features = 0 := by
      rw [hm.isV2_eq] at hv2
      simpa using hv2
    have hshort : ¬ descV2WireSize ≤ (descWireBytes d ++ t).length := by
      have ht := hbase hzero
      rw [descWireBytes_of_base hm hzero, length_append, length_wireV1]
      omega
    have hrun : readV1.run (descWireBytes d ++ t) = some (wireImage d, t) := by
      rw [descWireBytes_of_base hm hzero, readV1_run t h, setV1_eq_wireImage hm hzero]
    simp only [hlong, hshort, if_false, bind_pure, hrun]
    simp

/-! ### The round trip -/

/-- The two descriptors agree on every field the wire format carries for `d`: the base block, and
the fields of each further block under the bit that announces it. -/
structure SameWireFields (d e : NodeDescriptor) : Prop where
  identityPk : e.identityPk = d.identityPk
  onionPk : e.onionPk = d.onionPk
  address : e.address = d.address
  orPort : e.orPort = d.orPort
  dirPort : e.dirPort = d.dirPort
  flags : e.flags = d.flags
  bandwidth : e.bandwidth = d.bandwidth
  published : e.published = d.published
  signature : e.signature = d.signature
  features : e.features = d.features
  v2 : d.features ≠ 0 → e.kemPk = d.kemPk ∧ e.verifiedBandwidth = d.verifiedBandwidth ∧
    e.countryCode = d.countryCode ∧ e.asNumber = d.asNumber
  v3 : has d.features nodeFeatureFamily = true → e.numFamilyMembers = d.numFamilyMembers ∧
    familyList e = familyList d ∧ e.familyId = d.familyId
  v4 : has d.features nodeFeatureNickname = true → e.nickname = d.nickname ∧
    e.address6 = d.address6 ∧ e.prevOnionPk = d.prevOnionPk ∧
    e.onionKeyVersion = d.onionKeyVersion ∧ e.onionKeyPublished = d.onionKeyPublished
  v5 : has d.features nodeFeatureContact = true → e.contactInfo = d.contactInfo
  v6 : d.features ≠ 0 → e.protocolVersion = d.protocolVersion
  v7 : has d.features nodeFeatureBuildId = true → e.buildId = d.buildId
  v8 : has d.features nodeFeatureFalcon = true → e.falconPk = d.falconPk ∧
    e.falconSigLen = d.falconSigLen ∧
    e.falconSignature.val.take d.falconSigLen.toNat
      = d.falconSignature.val.take d.falconSigLen.toNat

theorem familyCount_eq (h : d.numFamilyMembers ≤ 8) : familyCount d = d.numFamilyMembers := by
  rw [familyCount, if_neg (UInt8.not_lt.mpr h)]

/-- The family of the parsed descriptor, where its header was written. -/
theorem familyList_of_setV3 {e : NodeDescriptor} (hnum : e.numFamilyMembers = familyCount d)
    (hmem : e.familyMembers = Arr.ofList 8 (Field.zero 32) (familyList d)) :
    familyList e = familyList d := by
  have hle := familyCount_le d
  have hcount : familyCount e = familyCount d := by
    rw [← hnum]
    apply familyCount_eq
    rw [hnum, UInt8.le_iff_toNat_le]
    exact hle
  have hlen := length_familyList d
  rw [familyList, hcount, hmem, Arr.take_val_ofList _ _ _ hlen.ge hle, take_of_length_le hlen.le]

/-- The parser restores every field the wire format carries. -/
theorem sameWireFields_wireImage (h : WellFormed d) (hm : FeaturesMatch d) :
    SameWireFields d (wireImage d) := by
  have hv2 : d.features ≠ 0 → isV2 d = true := by
    intro hne
    rw [hm.isV2_eq]
    exact bne_iff_ne.mpr hne
  refine ⟨rfl, rfl, rfl, rfl, rfl, rfl, rfl, rfl, rfl, ?_, ?_, ?_, ?_, ?_, ?_, ?_, ?_⟩
  · by_cases hzero : d.features = 0
    · simp [wireImage, hm.blocks_eq_false hzero, hzero]
    · simp [wireImage, hv2 hzero, hm.wireFeatures_eq]
  · intro hne
    simp [wireImage, hv2 hne]
  · intro hbit
    have h3 := hm.family.symm.trans hbit
    have hnum : (wireImage d).numFamilyMembers = familyCount d := by
      simp [wireImage, h3]
    refine ⟨hnum.trans (familyCount_eq h.family), familyList_of_setV3 hnum ?_, ?_⟩
    · simp [wireImage, h3]
    · simp [wireImage, h3]
  · intro hbit
    simp [wireImage, hm.nickname.symm.trans hbit]
  · intro hbit
    simp [wireImage, hm.contact.symm.trans hbit]
  · intro hne
    simp [wireImage, hv2 hne]
  · intro hbit
    simp [wireImage, hm.buildId.symm.trans hbit]
  · intro hbit
    have hsig : d.falconSigLen.toNat ≤ 752 := (h.falconSig hbit).2
    have hlen : d.falconSigLen.toNat ≤ (d.falconSignature.val.take d.falconSigLen.toNat).length :=
      (length_take_of_le (by simpa)).ge
    simp only [wireImage, hm.hasV8_eq.trans hbit, if_true, true_and]
    simp [Arr.take_val_ofList _ _ _ hlen hsig]

/-- Agreement on the wire fields gives agreement on the signed ones, if the base format is only used
without a KEM key and the Falcon key is there exactly when announced. -/
theorem SameWireFields.signedFieldsAgree {e : NodeDescriptor} (h : SameWireFields d e)
    (hm : FeaturesMatch d) (hkem : d.features = 0 → e.kemPk = d.kemPk)
    (hfalcon : has d.features nodeFeatureFalcon = false → e.falconPk = Field.zero 897) :
    SignedFieldsAgree e d where
  identityPk := h.identityPk
  onionPk := h.onionPk
  address := h.address
  orPort := h.orPort
  dirPort := h.dirPort
  flags := by rw [h.flags]
  bandwidth := h.bandwidth
  published := h.published
  kemPk := by
    by_cases hzero : d.features = 0
    · exact hkem hzero
    · exact (h.v2 hzero).1
  features := h.features
  family := by
    intro hbit
    rw [h.features, hm.familyOrNickname, ← hm.family] at hbit
    exact (h.v3 hbit).2.1
  nickname := fun hbit => (h.v4 (h.features ▸ hbit)).1
  address6 := fun hbit => (h.v4 (h.features ▸ hbit)).2.1
  prevOnionPk := fun hbit => (h.v4 (h.features ▸ hbit)).2.2.1
  onionKeyVersion := fun hbit => (h.v4 (h.features ▸ hbit)).2.2.2.1
  onionKeyPublished := fun hbit => (h.v4 (h.features ▸ hbit)).2.2.2.2
  contactInfo := fun _ hbit => h.v5 (h.features ▸ hbit)
  buildId := fun hbit => h.v7 (h.features ▸ hbit)
  falconPk := by
    cases hbit : has d.features nodeFeatureFalcon with
    | true => exact (h.v8 hbit).1
    | false => rw [hfalcon hbit, falconPk_eq_zero (hm.falcon.symm.trans hbit)]

/-- Descriptors that agree on the wire fields and the signed body get one verdict. -/
theorem SameWireFields.nodeVerifyDescriptor_eq {e : NodeDescriptor} (h : SameWireFields d e)
    (hbody : descSignSerialize e = descSignSerialize d) (C : Crypto) :
    nodeVerifyDescriptor C e = nodeVerifyDescriptor C d := by
  unfold nodeVerifyDescriptor
  rw [hbody, h.signature, h.identityPk, h.features]
  cases hbit : has d.features nodeFeatureFalcon with
  | false => rfl
  | true =>
    obtain ⟨hpk, hlen, hsig⟩ := h.v8 hbit
    rw [hpk, hlen, hsig]

/-- The descriptor survives transport before the bytes `t`: the serialiser writes it, the parser
stops where it ends and restores every wire field, and the signed body and the verdict are the
sender's. -/
def RoundTrips (d : NodeDescriptor) (t : Bytes) : Prop :=
  ∃ wire, (∀ outLen, descWireNeeded d ≤ outLen → nodeDescriptorSerialize outLen d = some wire) ∧
    ∃ e, nodeDescriptorDeserialize (wire ++ t) = some (e, wire.length) ∧ SameWireFields d e ∧
      descSignSerialize e = descSignSerialize d ∧
      ∀ C : Crypto, nodeVerifyDescriptor C e = nodeVerifyDescriptor C d

/-- A well-formed descriptor whose feature word is the one that signing stores survives transport.
The base format has no KEM key and no mark of its own: what follows it must be too short to be
taken for a longer format. -/
theorem nodeDescriptor_roundTrips (d : NodeDescriptor) (h : WellFormed d)
    (hsigned : descWireFeatures d = d.features) (t : Bytes)
    (hbase : d.features = 0 →
      d.kemPk = Field.zero 1184 ∧ t.length < descV2WireSize - descWireSize) :
    RoundTrips d t := by
  have hm := h.featuresMatch hsigned
  have hsame := sameWireFields_wireImage h hm
  have hbody : descSignSerialize (wireImage d) = descSignSerialize d := by
    rw [descSignSerialize_eq_iff]
    refine hsame.signedFieldsAgree hm ?_ ?_
    · intro hzero
      rw [(hbase hzero).1, ← setV1_eq_wireImage hm hzero]
      rfl
    · intro hbit
      simp [wireImage, hm.hasV8_eq.trans hbit]
  refine ⟨descWireBytes d, fun outLen hlen => ?_, wireImage d, ?_, hsame, hbody,
    hsame.nodeVerifyDescriptor_eq hbody⟩
  · rw [nodeDescriptorSerialize, if_neg (not_lt.mpr hlen)]
  · exact nodeDescriptorDeserialize_append h hm t fun hzero => (hbase hzero).2

/-- What a round trip says about the bytes the serialiser writes. -/
theorem RoundTrips.deserialize {t : Bytes} (h : RoundTrips d t) :
    ∃ e, nodeDescriptorDeserialize (descWireBytes d ++ t) = some (e, (descWireBytes d).length) ∧
      e.features = d.features ∧ descSignSerialize e = descSignSerialize d := by
  obtain ⟨wire, hser, e, hde, hsame, hbody, -⟩ := h
  have hwire := hser _ le_rfl
  rw [nodeDescriptorSerialize, if_neg (lt_irrefl _), some_inj] at hwire
  rw [← hwire] at hde
  exact ⟨e, hde, hsame.features, hbody⟩

/-- A relay that declares a nickname and a KEM key, both possibly empty. -/
def sampleRelay (features : UInt32) (nickname : Field 32) (kemPk : Field 1184) :
    NodeDescriptor :=
  { NodeDescriptor.zero with features, nickname, kemPk, protocolVersion := 4 }

private theorem wellFormed_sampleRelay {features : UInt32} {nickname : Field 32}
    (kemPk : Field 1184) (hname : IsText badTextChar nickname)
    (h3 : has features nodeFeatureFamily = true → nonEmpty nickname = true)
    (h4 : has features nodeFeatureNickname = true → nonEmpty nickname = true)
    (h5 : has features nodeFeatureContact = false)
    (h7 : has features nodeFeatureBuildId = false)
    (h8 : has features nodeFeatureFalcon = false) :
    WellFormed (sampleRelay features nickname kemPk) := by
  have haddr : IsText badAddressChar (Field.zero 64) := by decide
  have haddr6 : IsText badTextChar (Field.zero 64) := by decide
  have hcontact : IsText badTextChar (Field.zero 128) := by decide
  have hbuild : ∀ ch ∈ cString (Field.zero 16), 0x20 ≤ ch ∧ ch < 0x7F := by
    rw [show cString (Field.zero 16) = [] from rfl]
    simp
  have hfamily : (0 : UInt8) ≤ 8 := by decide
  have hv4 : nonEmpty nickname = true → hasV4 (sampleRelay features nickname kemPk) = true := by
    intro hne
    simp [hasV4, sampleRelay, hne]
  exact ⟨haddr, hname, haddr6, hcontact, hbuild, hfamily,
    fun hbit => absurd (h8.symm.trans hbit) Bool.false_ne_true,
    fun hbit => by simp [hv4 (h3 hbit)], fun hbit => hv4 (h4 hbit),
    fun hbit => absurd (h5.symm.trans hbit) Bool.false_ne_true,
    fun hbit => absurd (h7.symm.trans hbit) Bool.false_ne_true,
    fun hbit => absurd (h8.symm.trans hbit) Bool.false_ne_true⟩

/-- A signed relay with a nickname, followed by a proof of work. -/
theorem sampleRelay_roundTrips :
    RoundTrips (sampleRelay (nodeFeaturePq ||| nodeFeatureFamily ||| nodeFeatureNickname)
      ((Field.zero 32).set 0 0x6D) (Arr.replicate 1184 1)) (List.replicate 16 0xFF) :=
  nodeDescriptor_roundTrips _
    (wellFormed_sampleRelay _ (by decide) (by decide) (by decide) (by decide) (by decide)
      (by decide))
    (by decide +kernel) _ (by decide)

/-- Three well-formed descriptors that do not survive: a relay that sets a nickname and not its
feature bit, the base format followed by 1202 bytes, and the base format with a KEM key. -/
theorem roundTrips_counterexamples :
    (WellFormed (sampleRelay nodeFeaturePq ((Field.zero 32).set 0 0x6D) (Field.zero 1184)) ∧
      ¬ RoundTrips (sampleRelay nodeFeaturePq ((Field.zero 32).set 0 0x6D) (Field.zero 1184)) []) ∧
    (WellFormed (sampleRelay 0 (Field.zero 32) (Field.zero 1184)) ∧
      ¬ RoundTrips (sampleRelay 0 (Field.zero 32) (Field.zero 1184)) (List.replicate 1202 0)) ∧
    (WellFormed (sampleRelay 0 (Field.zero 32) (Arr.replicate 1184 1)) ∧
      ¬ RoundTrips (sampleRelay 0 (Field.zero 32) (Arr.replicate 1184 1)) []) := by
  refine ⟨⟨wellFormed_sampleRelay _ ?_ ?_ ?_ ?_ ?_ ?_, fun h => ?_⟩,
    ⟨wellFormed_sampleRelay _ ?_ ?_ ?_ ?_ ?_ ?_, fun h => ?_⟩,
    ⟨wellFormed_sampleRelay _ ?_ ?_ ?_ ?_ ?_ ?_, fun h => ?_⟩⟩
  case refine_7 =>
    obtain ⟨e, hde, hfeat, -⟩ := h.deserialize
    have heval : (nodeDescriptorDeserialize (descWireBytes (sampleRelay nodeFeaturePq
        ((Field.zero 32).set 0 0x6D) (Field.zero 1184)) ++ [])).map (fun p => p.1.features)
          = some 7 := by decide +kernel
    rw [hde, map_some, hfeat] at heval
    exact absurd heval (by decide)
  case refine_14 =>
    obtain ⟨e, hde, -⟩ := h.deserialize
    have heval : (nodeDescriptorDeserialize (descWireBytes (sampleRelay 0 (Field.zero 32)
        (Field.zero 1184)) ++ replicate 1202 0)).map Prod.snd = some 1418 := by
      decide +kernel
    rw [hde, map_some, some_inj] at heval
    have hlen : (descWireBytes (sampleRelay 0 (Field.zero 32) (Field.zero 1184))).length = 216 := by
      decide +kernel
    omega
  case refine_21 =>
    obtain ⟨e, hde, -, hbody⟩ := h.deserialize
    have heval : (nodeDescriptorDeserialize (descWireBytes (sampleRelay 0 (Field.zero 32)
        (Arr.replicate 1184 1)) ++ [])).map (fun p => p.1.kemPk.val.headD 1) = some 0 := by
      decide +kernel
    rw [hde, map_some, ((descSignSerialize_eq_iff _ _).mp hbody).kemPk] at heval
    exact absurd heval (by decide +kernel)
  all_goals decide

end Moor
