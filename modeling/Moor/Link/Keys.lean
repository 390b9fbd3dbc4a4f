import Moor.Crypto

/-!
# Link keys

A link between two parties starts with a Noise handshake, whose chaining key gives a key for each
direction. A KEM exchange over the encrypted link then replaces both keys.
-/

namespace Moor

open Codec

/-- The keys of one end of a link. -/
structure LinkKeys where
  sendKey : Field 32
  recvKey : Field 32
  deriving DecidableEq

section

variable (C : Crypto)

variable (isInitiator : Bool) (ck : Field 32)

/-- The keys at the end of the Noise handshake. The two ends have them the other way round. -/
def noiseSplit (ck : Field 32) : LinkKeys :=
  let (k1, k2) := cryptoHkdf C ck []
  if isInitiator then ⟨k1, k2⟩ else ⟨k2, k1⟩

def mixKemShared (keys : LinkKeys) (kemShared : Field 32) : LinkKeys :=
  let (newSend, _) := cryptoHkdf C keys.sendKey kemShared.val
  let (newRecv, _) := cryptoHkdf C keys.recvKey kemShared.val
  ⟨newSend, newRecv⟩

/-- The keys of a link when both handshakes are done. -/
def linkHandshakePq (kemShared : Field 32) : LinkKeys :=
  mixKemShared C (noiseSplit C isInitiator ck) kemShared

/-- The byte strings that are hashed for the keys of a link. -/
def linkInputs (kemShared : Field 32) : List Bytes :=
  let keys := noiseSplit C isInitiator ck
  hkdfInputs C ck [] ++ hkdfInputs C keys.sendKey kemShared.val ++
    hkdfInputs C keys.recvKey kemShared.val

end

/-- The byte strings that are hashed for the Noise keys and for either new key. -/
theorem hkdfInputs_subset_linkInputs (C : Crypto) (isInitiator : Bool) (ck kemShared : Field 32) :
    let keys := noiseSplit C isInitiator ck
    hkdfInputs C ck [] ⊆ linkInputs C isInitiator ck kemShared ∧
      hkdfInputs C keys.sendKey kemShared.val ⊆ linkInputs C isInitiator ck kemShared ∧
      hkdfInputs C keys.recvKey kemShared.val ⊆ linkInputs C isInitiator ck kemShared := by
  refine ⟨fun x hx => ?_, fun x hx => ?_, fun x hx => ?_⟩ <;>
    simp [linkInputs, hx]

/-- The keys of a link determine the role, the Noise chaining key and the KEM secret. -/
theorem linkHandshakePq_inj {C : Crypto} {i₁ i₂ : Bool} {ck₁ ck₂ kem₁ kem₂ : Field 32}
    (hinj : HashInjOn C (linkInputs C i₁ ck₁ kem₁ ++ linkInputs C i₂ ck₂ kem₂))
    (h : linkHandshakePq C i₁ ck₁ kem₁ = linkHandshakePq C i₂ ck₂ kem₂) :
    i₁ = i₂ ∧ ck₁ = ck₂ ∧ kem₁ = kem₂ := by
  obtain ⟨hsend, hrecv⟩ := LinkKeys.mk.inj h
  obtain ⟨hnoise₁, hsend₁, hrecv₁⟩ := hkdfInputs_subset_linkInputs C i₁ ck₁ kem₁
  obtain ⟨hnoise₂, hsend₂, hrecv₂⟩ := hkdfInputs_subset_linkInputs C i₂ ck₂ kem₂
  obtain ⟨hsend, hkem⟩ := cryptoHkdf_fst_inj (hinj.append_mono hsend₁ hsend₂) hsend
  obtain ⟨hrecv, -⟩ := cryptoHkdf_fst_inj (hinj.append_mono hrecv₁ hrecv₂) hrecv
  have hsplit := hinj.append_mono hnoise₁ hnoise₂
  refine (and_assoc.mp ⟨?_, Subtype.ext hkem⟩)
  cases i₁ <;> cases i₂
  · exact ⟨rfl, (cryptoHkdf_fst_inj hsplit hrecv).1⟩
  · exact absurd hrecv (cryptoHkdf_fst_ne_snd hsplit)
  · exact absurd hsend (cryptoHkdf_fst_ne_snd hsplit)
  · exact ⟨rfl, (cryptoHkdf_fst_inj hsplit hsend).1⟩

end Moor
