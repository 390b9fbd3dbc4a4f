import Moor.Base32
import Moor.Crypto

/-!
# Hidden-service addresses

A `.moor` address is the base32 of the service's identity key, followed in the PQ formats by the
first 16 bytes of a hash of its PQ keys: of the KEM key alone, or of the KEM key and the Falcon
key. Another kind has a checksum in its place.

## Main results

* `address_round_trip_iff`: which spellings of an address are read back.
-/

namespace Moor

open Codec Option List

/-- The suffix `.moor`. -/
def moorSuffix : Bytes := [46, 109, 111, 111, 114]

/-- The keys a PQ address commits to, back to back. -/
def commitInput (kemPk : Field 1184) (falconPk : Option (Field 897)) : Bytes :=
  kemPk.val ++ (falconPk.map Subtype.val).getD []

variable (C : Crypto) (outLen : ℕ)

/-- The commitment to a byte string: the first half of its hash. -/
def commit16 (bs : Bytes) : Bytes := (C.hash bs).val.take 16

/-- The address of a service, for an output buffer of `outLen` bytes. Without a KEM key the address
carries no commitment. -/
def hsComputeAddress (identityPk : Field 32) (kemPk : Option (Field 1184))
    (falconPk : Option (Field 897)) : Option Bytes := do
  let addrData := match kemPk with
    | some kem => identityPk.val ++ commit16 C (commitInput kem falconPk)
    | none => identityPk.val
  let b32 ← base32Encode 128 addrData
  if b32.length + 6 > outLen then none else return b32 ++ moorSuffix

/-- What a client reads from an address: the service's identity key and the commitment, if there is
one. -/
structure MoorAddress where
  servicePk : Field 32
  pqCommitment : Option Bytes
  deriving DecidableEq

def decodeMoorAddress (moorAddress : Bytes) : Option MoorAddress :=
  let b32Len := moorAddress.length - 5
  if moorAddress.length ≤ 5 then none
  else if b32Len ≥ 128 then none
  else match base32Decode 48 (moorAddress.take b32Len) with
    | none => none
    | some addrData =>
      if addrData.length < 32 then none
      else some {
        servicePk := Arr.ofList 32 0 addrData
        pqCommitment :=
          if addrData.length ≥ 48 then some ((addrData.drop 32).take 16) else none }

@[simp] theorem length_commit16 (bs : Bytes) : (commit16 C bs).length = 16 := by
  simp [commit16]

/-- KEM and Falcon keys have fixed lengths, so that what is hashed determines them. -/
theorem commitInput_inj {k₁ k₂ : Field 1184} {f₁ f₂ : Option (Field 897)} :
    commitInput k₁ f₁ = commitInput k₂ f₂ ↔ k₁ = k₂ ∧ f₁ = f₂ := by
  rw [commitInput, commitInput, field_append_cancel]
  cases f₁ with
  | none =>
    cases f₂ with
    | none => simp
    | some f =>
      have hne : f.val ≠ [] := ne_nil_of_length_pos (by simp)
      simp [hne.symm]
  | some f =>
    cases f₂ with
    | none =>
      have hne : f.val ≠ [] := ne_nil_of_length_pos (by simp)
      simp [hne]
    | some f' => simp [Subtype.ext_iff]

/-- A client reads back from an address what the address was computed from. -/
theorem decodeMoorAddress_computeAddress {C : Crypto} {outLen : ℕ} {identityPk : Field 32}
    {kemPk : Field 1184} {falconPk : Option (Field 897)} {address : Bytes}
    (h : hsComputeAddress C outLen identityPk (some kemPk) falconPk = some address) :
    decodeMoorAddress address
      = some ⟨identityPk, some (commit16 C (commitInput kemPk falconPk))⟩ := by
  have hlen : (identityPk.val ++ commit16 C (commitInput kemPk falconPk)).length = 48 := by simp
  obtain ⟨b32, henc, h⟩ := bind_eq_some_iff.mp h
  obtain rfl : b32 ++ moorSuffix = address := some.inj (ite_none_left_eq_some.mp h).2
  have hb32 : b32.length = 77 := by
    rw [length_of_base32Encode henc, hlen]
  have htotal : (b32 ++ moorSuffix).length = 82 := by simp [hb32, moorSuffix]
  have htake : (b32 ++ moorSuffix).take 77 = b32 := take_left' hb32
  have hdec := base32Decode_base32Encode (hlen.le) henc
  simp only [decodeMoorAddress, htotal, htake, hdec, hlen, Nat.reduceLeDiff, Nat.reduceSub,
    Nat.reduceLT, if_false, if_true, ge_iff_le, le_refl]
  rw [Arr.ofList_append, drop_left' (by simp), take_of_length_le (by simp)]

/-! ### Reading any version of an address -/

/-- What the checksum of an address is over. -/
def cksumInput (identityPk : Field 32) (version : UInt8) : Bytes :=
  ascii ".moor checksum" ++ identityPk.val ++ [version]

/-- The address with a checksum. -/
def hsComputeAddressV2 (identityPk : Field 32) : Option Bytes := do
  let version := 3
  let checksum := (C.hash (cksumInput identityPk version)).val.take 2
  let b32 ← base32Encode 64 (identityPk.val ++ checksum ++ [version])
  if b32.length + 6 > outLen then none else return b32 ++ moorSuffix

/-- The identity key in what an address was decoded to, by its length. -/
def decodedIdentity (decoded : Bytes) : Option (Field 32) :=
  let identityPk := Arr.ofList 32 0 decoded
  if decoded.length = 48 ∨ decoded.length = 32 then some identityPk
  else if decoded.length = 35 then
    if (C.hash (cksumInput identityPk (decoded.getD 34 0))).val.take 2 =
        (decoded.drop 32).take 2 then
      some identityPk
    else none
  else none

def hsDecodeAddress (address : Bytes) : Option (Field 32) :=
  let b32Len := address.length - 5
  if address.length < 6 then none
  else if address.drop b32Len ≠ moorSuffix then none
  else if b32Len ≥ 128 then none
  else (base32Decode 64 (address.take b32Len)).bind (decodedIdentity C)

/-- A letter in upper case. -/
def upperCase (c : UInt8) : UInt8 := if 97 ≤ c ∧ c ≤ 122 then c - 32 else c

theorem b32Symbol_upperCase (c : UInt8) : b32Symbol (upperCase c) = b32Symbol c := by
  have hall : ∀ n : Fin 256, b32Symbol (upperCase (UInt8.ofNat n)) = b32Symbol (UInt8.ofNat n) := by
    decide +kernel
  simpa using hall ⟨c.toNat, c.toNat_lt⟩

/-- The decoder takes letters of either case. -/
theorem base32Decode_map_upperCase (str : Bytes) :
    base32Decode outLen (str.map upperCase) = base32Decode outLen str := by
  have hloop : ∀ buffer bits o, base32DecodeLoop outLen (str.map upperCase) buffer bits o =
      base32DecodeLoop outLen str buffer bits o := by
    induction str with
    | nil => simp
    | cons c str ih => simp [base32DecodeLoop, b32Symbol_upperCase, ih]
  simp [base32Decode, hloop]

theorem hsDecodeAddress_written {C : Crypto} {outLen : ℕ} {payload b32 written : Bytes}
    (hlen : 32 ≤ payload.length ∧ payload.length ≤ 64)
    (henc : base32Encode outLen payload = some b32)
    (hwritten : written.map upperCase = (b32 ++ moorSuffix).map upperCase)
    (hsuffix : written.drop (written.length - 5) = moorSuffix) :
    hsDecodeAddress C written = decodedIdentity C payload := by
  have hb32 := length_of_base32Encode henc
  have htotal : written.length = b32.length + 5 := by
    simpa [moorSuffix] using congrArg length hwritten
  have htake : (written.take b32.length).map upperCase = b32.map upperCase := by
    rw [map_take, hwritten, map_append, take_left' (length_map _)]
  have hdecode : base32Decode 64 (written.take b32.length) = some payload := by
    rw [← base32Decode_map_upperCase, htake, base32Decode_map_upperCase]
    exact base32Decode_base32Encode hlen.2 henc
  have hb32Len : written.length - 5 = b32.length := by omega
  rw [hb32Len] at hsuffix
  rw [hsDecodeAddress, hb32Len, if_neg (by omega), if_neg (not_not.mpr hsuffix), if_neg (by omega),
    hdecode, bind_some]

/-- The two kinds of addresses are the base32 of bytes that the identity key is read from. -/
theorem exists_payload {C : Crypto} {outLen : ℕ} {identityPk : Field 32}
    {kemPk : Option (Field 1184)} {falconPk : Option (Field 897)} {address : Bytes}
    (h : hsComputeAddress C outLen identityPk kemPk falconPk = some address ∨
      hsComputeAddressV2 C outLen identityPk = some address) :
    ∃ payload n b32, (32 ≤ payload.length ∧ payload.length ≤ 64) ∧
      base32Encode n payload = some b32 ∧ address = b32 ++ moorSuffix ∧
      decodedIdentity C payload = some identityPk := by
  rcases h with h | h
  · obtain ⟨b32, henc, h⟩ := bind_eq_some_iff.mp h
    refine ⟨_, 128, b32, ?_, henc, (some.inj (ite_none_left_eq_some.mp h).2).symm, ?_⟩
    · cases kemPk <;> simp
    · cases kemPk <;> simp [decodedIdentity, Arr.ofList_append, Arr.ofList_val]
  · obtain ⟨b32, henc, h⟩ := bind_eq_some_iff.mp h
    refine ⟨_, 64, b32, by simp, henc, (some.inj (ite_none_left_eq_some.mp h).2).symm, ?_⟩
    simp [decodedIdentity, Arr.ofList_append]

/-- Base32 gives back every string in buffers of just the lengths it needs. An address of either
kind, with its letters in upper or lower case, gives back the identity key if and only if its suffix
is in lower case. -/
theorem address_round_trip_iff (C : Crypto) :
    (∀ data : Bytes, ∃ str, base32Encode ((data.length * 8 + 4) / 5 + 1) data = some str ∧
      str.length = (data.length * 8 + 4) / 5 ∧ base32Decode data.length str = some data) ∧
    ∀ outLen identityPk kemPk falconPk address,
      (hsComputeAddress C outLen identityPk kemPk falconPk = some address ∨
        hsComputeAddressV2 C outLen identityPk = some address) →
      ∀ written, written.map upperCase = address.map upperCase →
        (hsDecodeAddress C written = some identityPk ↔
          written.drop (written.length - 5) = moorSuffix) := by
  refine ⟨?_, ?_⟩
  · intro data
    have henc : base32Encode ((data.length * 8 + 4) / 5 + 1) data =
        some (base32EncodeLoop data 0 0) := if_neg (lt_irrefl _)
    exact ⟨_, henc, length_of_base32Encode henc, base32Decode_base32Encode le_rfl henc⟩
  · intro outLen identityPk kemPk falconPk address h written hwritten
    obtain ⟨payload, n, b32, hlen, henc, rfl, hpk⟩ := exists_payload h
    refine ⟨?_, fun hsuffix => (hsDecodeAddress_written hlen henc hwritten hsuffix).trans hpk⟩
    intro hdecode
    by_contra hsuffix
    simp [hsDecodeAddress, hsuffix] at hdecode

/-- The address of a key, its letters before the suffix in upper case. -/
theorem address_round_trip_iff_sample :
    hsDecodeAddress Crypto.sample (List.replicate 52 65 ++ moorSuffix) = some (Field.zero 32) := by
  refine ((address_round_trip_iff Crypto.sample).2 64 (Field.zero 32) none none
    (replicate 52 97 ++ moorSuffix) (.inl ?_) _ ?_).mpr ?_
  · decide +kernel
  · decide +kernel
  · decide +kernel

/-- In upper case as a whole, the address is refused. -/
theorem upper_case_address_refused :
    ∃ address, hsComputeAddress Crypto.sample 64 (Field.zero 32) none none = some address ∧
      hsDecodeAddress Crypto.sample (address.map upperCase) = none :=
  ⟨replicate 52 97 ++ moorSuffix, by decide +kernel, by decide +kernel⟩

end Moor
