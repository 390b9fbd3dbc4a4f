import Mathlib.Algebra.Order.BigOperators.Group.List
import Moor.Directory.Consensus

/-!
# The compact consensus on the wire

An authority derives the compact consensus from the full one and serves it in a binary format. A
client reads it back, makes up a shadow of the full consensus from it, and checks the shadow's
freshness and signatures as it would those of the full document.

The signatures come last, in one of two layouts. If some authority signed with ML-DSA, a magic
number stands before their count and each signature says whether a PQ part follows.
-/

namespace Moor

open Codec List UInt32

/-- A relay entry of the compact consensus with every field of it that travels. -/
structure MicrodescEntry extends Microdesc where
  dirPort : UInt16
  flags : UInt32
  verifiedBandwidth : UInt64
  features : UInt32
  familyId : Field 32
  countryCode : UInt16
  asNumber : UInt32
  nickname : Field 32

/-- The compact consensus as it travels. -/
structure MicrodescDocument where
  validAfter : UInt64
  freshUntil : UInt64
  validUntil : UInt64
  relays : List MicrodescEntry
  daSigs : List DaSig
  relays_le : relays.length ≤ moorMaxRelays
  daSigs_le : daSigs.length ≤ moorMaxDaAuthorities

/-- The document with the relay fields that a client builds circuits from. -/
def MicrodescDocument.toMicrodescConsensus (mc : MicrodescDocument) : MicrodescConsensus where
  validAfter := mc.validAfter
  freshUntil := mc.freshUntil
  validUntil := mc.validUntil
  relays := mc.relays.map (·.toMicrodesc)
  daSigs := mc.daSigs
  relays_le := by simpa using mc.relays_le
  daSigs_le := mc.daSigs_le

/-- The signature without what a cleared PQ flag leaves undefined. -/
def DaSig.populated (sig : DaSig) : DaSig :=
  if sig.hasPq then sig else { sig with pqSignature := Field.zero 3309, pqPk := Field.zero 1952 }

@[simp] theorem DaSig.populated_populated (sig : DaSig) :
    sig.populated.populated = sig.populated := by
  cases h : sig.hasPq <;> simp [DaSig.populated, h]

/-! ### The authority -/

def microdescOfDescriptor (d : NodeDescriptor) : MicrodescEntry where
  identityPk := d.identityPk
  onionPk := d.onionPk
  address := d.address.set 63 0
  orPort := d.orPort
  dirPort := d.dirPort
  flags := d.flags
  bandwidth := d.bandwidth
  verifiedBandwidth := d.verifiedBandwidth
  features := d.features
  familyId := d.familyId
  countryCode := d.countryCode
  asNumber := d.asNumber
  nickname := d.nickname
  kemPk := d.kemPk

/-- The compact consensus of a full one, built in zeroed memory. -/
def daBuildMicrodescConsensus (cons : Consensus) : MicrodescDocument where
  validAfter := cons.validAfter
  freshUntil := cons.freshUntil
  validUntil := cons.validUntil
  relays := cons.relays.map microdescOfDescriptor
  daSigs := cons.daSigs.map DaSig.populated
  relays_le := by simpa using cons.relays_le
  daSigs_le := by simpa using cons.daSigs_le

/-! ### Serialisation -/

def microdescWireSize : ℕ := 1410

def microdescWireBytes (md : MicrodescEntry) : Bytes :=
  md.identityPk.val ++ md.onionPk.val ++ md.address.val ++ be16 md.orPort ++ be16 md.dirPort ++
  be32 md.flags ++ be64 md.bandwidth ++ be64 md.verifiedBandwidth ++ be32 md.features ++
  md.familyId.val ++ be16 md.countryCode ++ be32 md.asNumber ++ md.nickname.val ++ md.kemPk.val

variable (pq : Bool) (outLen : ℕ)

def microdescSerialize (md : MicrodescEntry) : Option Bytes :=
  if outLen < microdescWireSize then none else some (microdescWireBytes md)

/-- Some signature has a PQ part. -/
def anyPq (daSigs : List DaSig) : Bool := daSigs.any DaSig.hasPq

/-- The space a signature takes, in the layout with or without PQ parts. -/
def daSigWireSize (sig : DaSig) : ℕ :=
  96 + if pq then 1 + if sig.hasPq then 3309 + 1952 else 0 else 0

def microdescConsensusWireSize (mc : MicrodescDocument) : ℕ :=
  28 + mc.relays.length * microdescWireSize + 4 +
    (mc.daSigs.map (daSigWireSize (anyPq mc.daSigs))).sum

/-- Writes the entries after what is in the buffer, as long as each finds room. -/
def microdescAppendRelays (outLen : ℕ) : List MicrodescEntry → Bytes → Option Bytes
  | [], out => some out
  | md :: rest, out => do
    let bytes ← microdescSerialize (outLen - out.length) md
    microdescAppendRelays outLen rest (out ++ bytes)

/-- The four bytes before the signatures: their count, or the magic number and the low byte of
their count. -/
def daSigHeader (numDaSigs : ℕ) : Bytes :=
  if pq then [0x50, 0x51, 0x00, UInt8.ofNat numDaSigs] else be32 (UInt32.ofNat numDaSigs)

def daSigWireBytes (sig : DaSig) : Bytes :=
  sig.signature.val ++ sig.identityPk.val ++
    if pq then
      (if sig.hasPq then 1 else 0) ::
        if sig.hasPq then sig.pqSignature.val ++ sig.pqPk.val else []
    else []

def microdescConsensusSerialize (mc : MicrodescDocument) : Option Bytes := do
  if outLen < microdescConsensusWireSize mc then none
  let out ← microdescAppendRelays outLen mc.relays (be64 mc.validAfter ++ be64 mc.freshUntil ++
    be64 mc.validUntil ++ be32 (UInt32.ofNat mc.relays.length))
  let pq := anyPq mc.daSigs
  return out ++ daSigHeader pq mc.daSigs.length ++ mc.daSigs.flatMap (daSigWireBytes pq)

/-! ### Parsing -/

def microdescDeserialize : Reader MicrodescEntry := do
  let identityPk ← readField 32
  let onionPk ← readField 32
  let address ← readField 64
  let orPort ← readU16
  let dirPort ← readU16
  let flags ← readU32
  let bandwidth ← readU64
  let verifiedBandwidth ← readU64
  let features ← readU32
  let familyId ← readField 32
  let countryCode ← readU16
  let asNumber ← readU32
  let nickname ← readField 32
  let kemPk ← readField 1184
  return {
    identityPk, onionPk, address := address.set 63 0, orPort, dirPort, flags, bandwidth
    verifiedBandwidth, features, familyId, countryCode, asNumber
    nickname := nickname.set 31 0, kemPk }

/-- Reads a table whose announced length must not exceed its capacity. -/
def readTable {α : Type} (item : Reader α) (capacity n : ℕ) :
    Reader { xs : List α // xs.length ≤ capacity } := do
  if n > capacity then failure
  let xs ← readMany item n
  if h : xs.length ≤ capacity then return ⟨xs, h⟩ else failure

/-- The header of the signatures: whether PQ parts follow, and the number of signatures. -/
def readDaSigHeader : Reader (Bool × ℕ) := do
  let header ← readField 4
  match header.val with
  | [0x50, 0x51, 0x00, n] => return (true, n.toNat)
  | bytes => return (false, beDecode bytes)

def readDaSig (pq : Bool) : Reader DaSig := do
  let signature ← readField 64
  let identityPk ← readField 32
  let zero := ⟨signature, identityPk, Field.zero 3309, Field.zero 1952, false⟩
  if pq then
    let hasPq ← readU8
    if hasPq ≠ 0 then
      let pqSignature ← readField 3309
      let pqPk ← readField 1952
      return { zero with pqSignature, pqPk, hasPq := true }
    else return zero
  else return zero

def readMicrodescConsensus : Reader MicrodescDocument := do
  let validAfter ← readU64
  let freshUntil ← readU64
  let validUntil ← readU64
  let numRelays ← readU32
  let relays ← readTable microdescDeserialize moorMaxRelays numRelays.toNat
  let (pq, numDaSigs) ← readDaSigHeader
  let daSigs ← readTable (readDaSig pq) moorMaxDaAuthorities numDaSigs
  return {
    validAfter, freshUntil, validUntil, relays := relays.val, daSigs := daSigs.val
    relays_le := relays.property, daSigs_le := daSigs.property }

/-- Parses a compact consensus; returns it with the number of bytes read. -/
def microdescConsensusDeserialize (data : Bytes) : Option (MicrodescDocument × ℕ) := do
  let (mc, rest) ← readMicrodescConsensus.run data
  return (mc, data.length - rest.length)

/-! ### The parser replays what the serialiser wrote -/

theorem length_microdescWireBytes (md : MicrodescEntry) :
    (microdescWireBytes md).length = microdescWireSize := by
  simp only [microdescWireBytes, length_append, Arr.length_val, length_be16, length_be32,
    length_be64, microdescWireSize]

theorem microdescAppendRelays_eq (relays : List MicrodescEntry) (out : Bytes)
    (h : out.length + relays.length * microdescWireSize ≤ outLen) :
    microdescAppendRelays outLen relays out = some (out ++ relays.flatMap microdescWireBytes) := by
  induction relays generalizing out with
  | nil => simp [microdescAppendRelays]
  | cons md rest ih =>
    rw [length_cons, Nat.add_mul, Nat.one_mul] at h
    have hroom : ¬ outLen - out.length < microdescWireSize := by omega
    have hrest := ih (out ++ microdescWireBytes md) (by
      rw [length_append, length_microdescWireBytes]
      omega)
    simp [microdescAppendRelays, microdescSerialize, hroom, hrest]

variable (pq : Bool)

theorem length_daSigWireBytes (sig : DaSig) :
    (daSigWireBytes pq sig).length = daSigWireSize pq sig := by
  cases pq <;> cases h : sig.hasPq <;> simp [daSigWireBytes, daSigWireSize, h]

theorem length_daSigHeader (n : ℕ) : (daSigHeader pq n).length = 4 := by
  cases pq <;> simp [daSigHeader]

def microdescConsensusBytes (mc : MicrodescDocument) : Bytes :=
  be64 mc.validAfter ++ be64 mc.freshUntil ++ be64 mc.validUntil ++
  be32 (UInt32.ofNat mc.relays.length) ++ mc.relays.flatMap microdescWireBytes ++
  daSigHeader (anyPq mc.daSigs) mc.daSigs.length ++
  mc.daSigs.flatMap (daSigWireBytes (anyPq mc.daSigs))

variable (mc : MicrodescDocument)

/-- The computed size is the number of bytes. -/
theorem length_microdescConsensusBytes :
    (microdescConsensusBytes mc).length = microdescConsensusWireSize mc := by
  simp only [microdescConsensusBytes, microdescConsensusWireSize, length_append, length_be64,
    length_be32, length_daSigHeader, length_flatMap, length_microdescWireBytes,
    length_daSigWireBytes, map_const', sum_replicate_nat]

/-- The serialiser writes all bytes exactly when the buffer has the computed size. -/
theorem microdescConsensusSerialize_eq (outLen : ℕ) (mc : MicrodescDocument) :
    microdescConsensusSerialize outLen mc =
      if outLen < microdescConsensusWireSize mc then none
      else some (microdescConsensusBytes mc) := by
  unfold microdescConsensusSerialize
  split
  · rfl
  rename_i hroom
  have hrelays := microdescAppendRelays_eq outLen mc.relays
    (be64 mc.validAfter ++ be64 mc.freshUntil ++ be64 mc.validUntil ++
      be32 (ofNat mc.relays.length)) (by
    simp only [microdescConsensusWireSize] at hroom
    simp only [length_append, length_be64, length_be32]
    omega)
  simp only [hrelays, Option.bind_eq_bind, Option.bind_some, pure]
  rfl

/-- An entry as a client reads it: its texts end with a NUL. -/
def MicrodescEntry.terminated (md : MicrodescEntry) : MicrodescEntry :=
  { md with address := md.address.set 63 0, nickname := md.nickname.set 31 0 }

theorem run_bind_of {α β : Type} {x : Reader α} {s rest : Bytes} {a : α}
    (h : x.run s = some (a, rest)) (k : α → Reader β) : (x >>= k).run s = (k a).run rest := by
  simp [h]

theorem microdescDeserialize_run_append (md : MicrodescEntry) (rest : Bytes) :
    microdescDeserialize.run (microdescWireBytes md ++ rest) = some (md.terminated, rest) := by
  simp only [microdescDeserialize, microdescWireBytes, append_assoc,
    run_bind_of (readField_run_append _ _), run_bind_of (readU16_run_append _ _),
    run_bind_of (readU32_run_append _ _), run_bind_of (readU64_run_append _ _)]
  rfl

/-- A table within its capacity is read back entry by entry. -/
theorem readTable_run_flatMap {α β : Type} {emit : α → Bytes} {item : Reader β} (view : α → β)
    (as : List α) (h : ∀ a ∈ as, ∀ rest, item.run (emit a ++ rest) = some (view a, rest))
    {capacity : ℕ} (hle : as.length ≤ capacity) (rest : Bytes) :
    (readTable item capacity as.length).run (as.flatMap emit ++ rest)
      = some (⟨as.map view, by simpa using hle⟩, rest) := by
  have hlen : (as.map view).length ≤ capacity := by simpa using hle
  unfold readTable
  rw [if_neg (by omega)]
  simp only [StateT.run_bind, readMany_run_flatMap view as h, Option.bind_eq_bind,
    Option.bind_some, dif_pos hlen]
  rfl

/-- At most nine signatures are announced, so that no count looks like the magic number. -/
theorem readDaSigHeader_run_append {n : ℕ} (hn : n ≤ moorMaxDaAuthorities) (rest : Bytes) :
    readDaSigHeader.run (daSigHeader pq n ++ rest) = some ((pq, n), rest) := by
  have hread := readField_run_append ⟨daSigHeader pq n, length_daSigHeader pq n⟩ rest
  simp only [readDaSigHeader, StateT.run_bind, hread, Option.bind_eq_bind, Option.bind_some]
  cases pq with
  | true =>
    have hn : n < 256 := by
      simp only [moorMaxDaAuthorities] at hn
      omega
    simp [daSigHeader, Nat.mod_eq_of_lt hn]
  | false =>
    have hlt : n ≤ 9 := hn
    have hcount : (ofNat n).toNat = n := by
      rw [toNat_ofNat']
      omega
    have hcode : beDecode (beEncode 4 n) = n := by
      rw [beDecode_beEncode]
      omega
    have hhead : beEncode 4 n = 0 :: 0 :: beEncode 2 n := by
      have h₁ : n >>> 24 = 0 := by
        omega
      have h₂ : n >>> 16 = 0 := by
        omega
      simp [beEncode, h₁, h₂]
    rw [hhead] at hcode
    simp [daSigHeader, be32, hcount, hhead, hcode]

theorem readDaSig_run_append {sig : DaSig} (hpq : sig.hasPq = true → pq = true) (rest : Bytes) :
    (readDaSig pq).run (daSigWireBytes pq sig ++ rest) = some (sig.populated, rest) := by
  obtain ⟨signature, identityPk, pqSignature, pqPk, hasPq⟩ := sig
  cases pq <;> cases hasPq <;>
    simp_all [readDaSig, daSigWireBytes, DaSig.populated]

/-- The document that a client reads. -/
def MicrodescDocument.received (mc : MicrodescDocument) : MicrodescDocument where
  validAfter := mc.validAfter
  freshUntil := mc.freshUntil
  validUntil := mc.validUntil
  relays := mc.relays.map MicrodescEntry.terminated
  daSigs := mc.daSigs.map DaSig.populated
  relays_le := by simpa using mc.relays_le
  daSigs_le := by simpa using mc.daSigs_le

/-- The client reads the document that the authority wrote, and every byte of it. -/
theorem microdescConsensus_roundTrip :
    microdescConsensusDeserialize (microdescConsensusBytes mc)
      = some (mc.received, (microdescConsensusBytes mc).length) := by
  have hcount : (ofNat mc.relays.length).toNat = mc.relays.length := by
    have hle : mc.relays.length ≤ 8192 := mc.relays_le
    rw [toNat_ofNat']
    omega
  have hrelays := readTable_run_flatMap MicrodescEntry.terminated mc.relays
    (fun md _ rest => microdescDeserialize_run_append md rest) mc.relays_le
  have hsigs := readTable_run_flatMap DaSig.populated mc.daSigs
    (fun sig hsig rest => readDaSig_run_append (anyPq mc.daSigs)
      (fun hpq => any_eq_true.mpr ⟨sig, hsig, hpq⟩) rest) mc.daSigs_le []
  have hheader := readDaSigHeader_run_append (anyPq mc.daSigs) mc.daSigs_le
  rw [append_nil] at hsigs
  simp [microdescConsensusDeserialize, readMicrodescConsensus, microdescConsensusBytes, hcount,
    hrelays, hheader, hsigs, MicrodescDocument.received]

/-! ### Verification through the shadow -/

/-- Two entries of one authority that agree on everything a verifier looks at: the PQ part is
undefined when its flag is cleared. -/
def DaSig.Same (s t : DaSig) : Prop := s.populated = t.populated

/-- The body, the signatures and the times of the shadow are those of the full consensus. -/
theorem microdescShadow_received (cons : Consensus) :
    let shadow := microdescShadow (daBuildMicrodescConsensus cons).received.toMicrodescConsensus
    shadow.daSigs = cons.daSigs.map DaSig.populated ∧
    consensusBodyBuild shadow = consensusBodyBuild cons := by
  refine ⟨?_, ?_⟩
  · have hshadow : ∀ sig : DaSig, (if sig.hasPq then sig else
        { sig with pqSignature := Field.zero 3309, pqPk := Field.zero 1952 }) = sig.populated :=
      fun _ => rfl
    simp [microdescShadow, MicrodescDocument.toMicrodescConsensus, MicrodescDocument.received,
      daBuildMicrodescConsensus, hshadow]
  · rw [consensusBodyBuild_eq_iff]
    refine ⟨rfl, rfl, rfl, ?_⟩
    simp only [microdescShadow, MicrodescDocument.toMicrodescConsensus,
      MicrodescDocument.received, daBuildMicrodescConsensus, map_map,
      forall₂_map_left_iff]
    exact forall₂_same.mpr fun d _ => ⟨rfl, rfl⟩

variable (C : Crypto)

/-- What a cleared flag leaves undefined is not looked at. -/
theorem daSigCheck_populated (bodyHash : Field 32) (body : Bytes) (sig : DaSig)
    (key : TrustedDaKey) :
    daSigNames sig.populated key = daSigNames sig key ∧
      daSigCheck C bodyHash body sig.populated key = daSigCheck C bodyHash body sig key := by
  obtain ⟨signature, identityPk, pqSignature, pqPk, hasPq⟩ := sig
  cases hasPq <;> simp [DaSig.populated, daSigNames, daSigCheck]

/-- The verdict depends on the body and on the defined parts of the signatures. -/
theorem consensusVerifyHybrid_of_populated {c₁ c₂ : Consensus}
    (hbody : consensusBodyBuild c₁ = consensusBodyBuild c₂)
    (hsigs : c₁.daSigs = c₂.daSigs.map DaSig.populated) (trustedKeys : List TrustedDaKey) :
    consensusVerifyHybrid C c₁ trustedKeys = consensusVerifyHybrid C c₂ trustedKeys := by
  unfold consensusVerifyHybrid
  rw [consensusBodyHash, consensusBodyHash, hbody, hsigs]
  cases consensusBodyBuild c₂ with
  | none => rfl
  | some body =>
    simp [Tally.run_map (daSigCheck_populated C (C.hash body) body)]

/-- The compact consensus is verified as the full one. For every consensus and every buffer of the
computed size, the document is written with that many bytes and read back; its shadow has the body
of the full consensus, byte for byte, and the same signatures, so that it is accepted under any
trusted keys exactly when the full consensus is. -/
theorem microdesc_verification_agrees (C : Crypto) (cons : Consensus) (outLen : ℕ)
    (hroom : microdescConsensusWireSize (daBuildMicrodescConsensus cons) ≤ outLen) :
    ∃ bytes mc,
      microdescConsensusSerialize outLen (daBuildMicrodescConsensus cons) = some bytes ∧
      bytes.length = microdescConsensusWireSize (daBuildMicrodescConsensus cons) ∧
      microdescConsensusDeserialize bytes = some (mc, bytes.length) ∧
      consensusBodyBuild (microdescShadow mc.toMicrodescConsensus) = consensusBodyBuild cons ∧
      List.Forall₂ DaSig.Same (microdescShadow mc.toMicrodescConsensus).daSigs cons.daSigs ∧
      ∀ trustedKeys, consensusVerifyHybrid C (microdescShadow mc.toMicrodescConsensus) trustedKeys
        = consensusVerifyHybrid C cons trustedKeys := by
  obtain ⟨hsigs, hbody⟩ := microdescShadow_received cons
  refine ⟨_, _, ?_, length_microdescConsensusBytes _, microdescConsensus_roundTrip _, hbody, ?_,
    consensusVerifyHybrid_of_populated C hbody hsigs⟩
  · rw [microdescConsensusSerialize_eq, if_neg (by omega)]
  · rw [hsigs, forall₂_map_left_iff]
    exact forall₂_same.mpr fun sig _ => DaSig.populated_populated sig

/-- A consensus with one relay and the signatures of two authorities, one of them with ML-DSA. -/
theorem microdesc_verification_agrees_sample :
    let cons := sampleConsensus [NodeDescriptor.zero] [sampleEntry 1 false, sampleEntry 2 true]
      (by decide) (by decide)
    ∃ bytes mc, microdescConsensusSerialize 6897 (daBuildMicrodescConsensus cons) = some bytes ∧
      bytes.length = 6897 ∧
      microdescConsensusDeserialize bytes = some (mc, bytes.length) ∧
      consensusVerifyHybrid Crypto.sample (microdescShadow mc.toMicrodescConsensus)
        [sampleAuthority 1 false, sampleAuthority 2 true] = true := by
  intro cons
  have hsize : microdescConsensusWireSize (daBuildMicrodescConsensus cons) = 6897 := by
    decide +kernel
  obtain ⟨bytes, mc, hwrite, hlen, hread, -, -, hverdict⟩ :=
    microdesc_verification_agrees Crypto.sample cons 6897 (by rw [hsize])
  refine ⟨bytes, mc, hwrite, hlen.trans hsize, hread, ?_⟩
  rw [hverdict]
  decide +kernel

/-! ### Serving and fetching -/

variable (limit : ℕ) (now : UInt64) (trustedKeys : List TrustedDaKey) (cons : Consensus)

/-- A consensus is fresh from shortly before its start to the end of its first interval; a
document without that time is fresh as long as it is valid. -/
def moorConsensusIsFresh (cons : Consensus) : Bool :=
  let skew : UInt64 := 5
  let lower := if cons.validAfter > skew then cons.validAfter - skew else 0
  let upper := if cons.freshUntil > 0 then cons.freshUntil else cons.validUntil
  decide (now ≥ lower) && decide (now < upper)

/-- The authority's reply to a request for the compact consensus. -/
def daServeMicrodesc (cons : Consensus) : Bytes :=
  let mc := daBuildMicrodescConsensus cons
  match microdescConsensusSerialize (max (microdescConsensusWireSize mc) 1024) mc with
  | some bytes => be32 (UInt32.ofNat bytes.length) ++ bytes
  | none => ascii "ERR\n"

/-- Reads a document with its length before it from a reply that is no error text. -/
def receiveDocument (reply : Bytes) : Option Bytes := do
  let (lenBuf, data) ← (readField 4).run reply
  if lenBuf.val = ascii "ERR\n" ∨ lenBuf.val = ascii "NONE" then none
  let len := beDecode lenBuf.val
  if len > limit then none
  if data.length < len then none
  return data.take len

def clientFetchMicrodescConsensus (C : Crypto) (now : UInt64) (trustedKeys : List TrustedDaKey)
    (reply : Bytes) : Option MicrodescDocument := do
  let data ← receiveDocument 2097152 reply
  let (mc, _) ← microdescConsensusDeserialize data
  if trustedKeys.isEmpty then none
  let shadow := microdescShadow mc.toMicrodescConsensus
  if !moorConsensusIsFresh now shadow then none
  if !consensusVerifyHybrid C shadow trustedKeys then none
  return mc

theorem microdescConsensusWireSize_lt : microdescConsensusWireSize mc < 2 ^ 24 := by
  have hrelays : mc.relays.length ≤ 8192 := mc.relays_le
  have hsigs : mc.daSigs.length ≤ 9 := mc.daSigs_le
  have hsum : (mc.daSigs.map (daSigWireSize (anyPq mc.daSigs))).sum
      ≤ (mc.daSigs.map fun _ => 5358).sum := by
    refine sum_le_sum ?_
    intro sig _
    unfold daSigWireSize
    split_ifs <;> simp
  rw [map_const', sum_replicate_nat] at hsum
  simp only [microdescConsensusWireSize, microdescWireSize]
  omega

/-- A document whose length does not look like an error text is received unless it is over the
limit. -/
theorem receiveDocument_framed {doc : Bytes} (h : doc.length < 2 ^ 30) :
    receiveDocument limit (be32 (UInt32.ofNat doc.length) ++ doc) =
      if doc.length ≤ limit then some doc else none := by
  have hread := readField_run_append ⟨be32 (ofNat doc.length), length_be32 _⟩ doc
  have hlen : beDecode (be32 (ofNat doc.length)) = doc.length := by
    rw [be32, toNat_ofNat', beDecode_beEncode]
    omega
  have herr : ¬ (be32 (ofNat doc.length) = ascii "ERR\n" ∨
      be32 (ofNat doc.length) = ascii "NONE") := by
    have hlarge : 2 ^ 30 ≤ beDecode (ascii "ERR\n") ∧ 2 ^ 30 ≤ beDecode (ascii "NONE") := by decide
    rintro (heq | heq)
    · exact absurd (hlarge.1.trans_eq (heq ▸ hlen)) (Nat.not_le.mpr h)
    · exact absurd (hlarge.2.trans_eq (heq ▸ hlen)) (Nat.not_le.mpr h)
  rw [receiveDocument, hread]
  simp only [Option.bind_eq_bind, Option.bind_some, if_neg herr, hlen, lt_irrefl, if_false,
    take_length]
  split
  · rename_i hover
    exact (if_neg (Nat.not_le.mpr hover)).symm
  · rename_i hover
    exact (if_pos (Nat.not_lt.mp hover)).symm

theorem receiveDocument_daServeMicrodesc :
    receiveDocument limit (daServeMicrodesc cons) =
      if microdescConsensusWireSize (daBuildMicrodescConsensus cons) ≤ limit then
        some (microdescConsensusBytes (daBuildMicrodescConsensus cons)) else none := by
  have hsize := length_microdescConsensusBytes (daBuildMicrodescConsensus cons)
  have hlt := microdescConsensusWireSize_lt (daBuildMicrodescConsensus cons)
  simp only [daServeMicrodesc, microdescConsensusSerialize_eq, if_neg (le_max_left _ 1024).not_gt]
  rw [receiveDocument_framed limit (by omega), hsize]

/-- A client that asks an authority gets its document exactly when the full consensus is fresh and
verifies, and the document is no larger than what it reads. -/
theorem clientFetchMicrodescConsensus_daServeMicrodesc :
    clientFetchMicrodescConsensus C now trustedKeys (daServeMicrodesc cons) =
      if microdescConsensusWireSize (daBuildMicrodescConsensus cons) ≤ 2097152 ∧
        moorConsensusIsFresh now cons = true ∧ consensusVerifyHybrid C cons trustedKeys = true
      then some (daBuildMicrodescConsensus cons).received else none := by
  obtain ⟨hsigs, hbody⟩ := microdescShadow_received cons
  have hfresh : moorConsensusIsFresh now (microdescShadow
      (daBuildMicrodescConsensus cons).received.toMicrodescConsensus)
        = moorConsensusIsFresh now cons := rfl
  have hverdict := consensusVerifyHybrid_of_populated C hbody hsigs trustedKeys
  have hkeys : consensusVerifyHybrid C cons trustedKeys = true → trustedKeys.isEmpty = false := by
    intro h
    cases trustedKeys with
    | nil => simp [consensusVerifyHybrid, consensusBodyHash, consensusBodyBuild_eq] at h
    | cons key keys => rfl
  rw [clientFetchMicrodescConsensus, receiveDocument_daServeMicrodesc]
  split
  · rename_i hsize
    simp only [Option.bind_eq_bind, Option.bind_some, microdescConsensus_roundTrip, hfresh,
      hverdict, hsize, true_and]
    grind
  · rename_i hsize
    rw [if_neg fun h => hsize h.1]
    rfl

end Moor
