import Moor.Circuit.Onion

/-!
# Key exchange with a hop

A hop's keys come from a Diffie-Hellman exchange, in which the relay also proves that it knows its
onion key, or from a KEM secret. In a PQ handshake both take place: the exchange authenticates the
relay, and the keys come from the KEM secret.
-/

namespace Moor

open Codec

/-- The keys and the first digests of a hop. -/
structure HopKeys where
  forwardKey : Field 32
  backwardKey : Field 32
  forwardDigest : Field 32
  backwardDigest : Field 32
  deriving DecidableEq

/-- A hop that has just been established. -/
def HopKeys.hop (keys : HopKeys) (nodeId : Field 32) : Hop where
  nodeId := nodeId
  forward := ⟨keys.forwardKey, 0, keys.forwardDigest⟩
  backward := ⟨keys.backwardKey, 0, keys.backwardDigest⟩

section

variable (C : Crypto)

/-- The key seed and the authentication tag of an exchange. -/
def ckeDerive (dh1 dh2 relayIdPk clientEphPk relayEphPk : Field 32) : Field 32 × Field 32 :=
  let salt := C.hash (ascii "moor-cke-v1" ++ relayIdPk.val)
  let (ck, keySeed) := cryptoHkdf C salt (dh1.val ++ dh2.val)
  let authInput := ascii "moor-cke-verify" ++ relayIdPk.val ++ clientEphPk.val ++ relayEphPk.val
  (keySeed, C.hashKeyed authInput ck)

/-- The client's end of an exchange: the key seed, once the relay's tag is verified. -/
def ckeClient (eph : KeyPair) (relayCurvePk relayIdPk relayEphPk recvAuthTag : Field 32) :
    Option (Field 32) :=
  match cryptoDh C eph.sk relayEphPk, cryptoDh C eph.sk relayCurvePk with
  | some dh1, some dh2 =>
    let (keySeed, expectedAuth) := ckeDerive C dh1 dh2 relayIdPk eph.pk relayEphPk
    if recvAuthTag = expectedAuth then some keySeed else none
  | _, _ => none

/-- The relay's end of an exchange: the key seed and the tag. -/
def ckeRelay (eph : KeyPair) (onionSk identityPk clientEphPk : Field 32) :
    Option (Field 32 × Field 32) :=
  match cryptoDh C eph.sk clientEphPk, cryptoDh C onionSk clientEphPk with
  | some dh1, some dh2 => some (ckeDerive C dh1 dh2 identityPk clientEphPk eph.pk)
  | _, _ => none

def circuitKx (keySeed : Field 32) : HopKeys :=
  let backwardKey := C.kdf keySeed 2 (ascii "moorBWD!")
  { forwardKey := C.kdf keySeed 1 (ascii "moorFWD!")
    backwardKey := backwardKey
    forwardDigest := C.hash keySeed.val
    backwardDigest := C.hashKeyed keySeed.val backwardKey }

def circuitKxPq (kemShared : Field 32) : HopKeys :=
  let hybrid := C.hash kemShared.val
  { forwardKey := C.kdf hybrid 1 (ascii "moorFWD!")
    backwardKey := C.kdf hybrid 2 (ascii "moorBWD!")
    forwardDigest := C.kdf hybrid 3 (ascii "moorFDG!")
    backwardDigest := C.kdf hybrid 4 (ascii "moorBDG!") }

end

/-! ### What the keys depend on -/

section

variable {C : Crypto}

end

end Moor
