import Moor.Lib.Codec

/-!
# Cryptographic primitives

The library primitives the code calls are the fields of `Crypto` and stay abstract: nothing is
assumed of them here but what a comparison returns. What `crypto.c` computes on top of them is
defined as the code computes it.
-/

namespace Moor

open Codec List

/-- The primitives of libsodium, ML-KEM-768, ML-DSA-65 and Falcon-512 that the code calls. A
primitive that can fail returns an `Option`; one that draws randomness takes it as an argument. -/
structure Crypto where
  /-- BLAKE2b-256 of a byte string. -/
  hash : Bytes → Field 32
  /-- Keyed BLAKE2b-256 of a byte string. -/
  hashKeyed : Bytes → Field 32 → Field 32
  /-- The subkey of a master key for a subkey id and an eight-byte context. -/
  kdf : Field 32 → UInt64 → Bytes → Field 32
  /-- X25519 of a secret key and a public key. -/
  scalarmult : Field 32 → Field 32 → Option (Field 32)
  /-- ML-KEM-768 encapsulation to a public key with given coins: ciphertext and secret. -/
  kemEncapsulate : Field 1184 → Field 32 → Option (Field 1088 × Field 32)
  /-- ML-KEM-768 decapsulation of a ciphertext with a secret key. -/
  kemDecapsulate : Field 1088 → Field 2400 → Option (Field 32)
  /-- The start of the ChaCha20 keystream of a key and a nonce, as long as a cell payload. -/
  keystream : Field 32 → Field 12 → Field 509
  /-- ChaCha20-Poly1305 decryption of a record, without associated data. -/
  aeadDecrypt : Field 32 → Field 12 → Bytes → Option Bytes
  /-- Ed25519 verification of a signature over a message under a public key. -/
  signVerify : Field 64 → Bytes → Field 32 → Bool
  /-- ML-DSA-65 verification of a signature over a message under a public key. -/
  mldsaVerify : Field 3309 → Bytes → Field 1952 → Bool
  /-- Falcon-512 verification of a signature over a message under a public key. -/
  falconVerify : Bytes → Bytes → Field 897 → Bool
  /-- `sodium_memcmp` of two keys, which tells equal ones from others without an order. -/
  sodiumMemcmp : Field 32 → Field 32 → ℤ
  sodiumMemcmp_eq : ∀ a b, sodiumMemcmp a b = if a = b then 0 else -1

/-- Stand-ins for evaluation: the hash keeps the length and the first 28 bytes, keys are agreed on
by adding bytes, a KEM ciphertext starts with its secret, a record ends with the start of the nonce
and of the key, and a valid signature starts with the public key. -/
def Crypto.sample : Crypto where
  hash bs := Arr.ofList 32 0 (be32 (UInt32.ofNat bs.length) ++ bs)
  hashKeyed bs key := Arr.ofList 32 0 (key.val.take 16 ++ bs)
  kdf key _ _ := key
  scalarmult sk pk := some (Arr.ofList 32 0 (List.zipWith (· + ·) sk.val pk.val))
  kemEncapsulate pk coins := some (Arr.ofList 1088 0 (coins.val ++ pk.val), coins)
  kemDecapsulate ct _ := some (Arr.ofList 32 0 ct.val)
  keystream key nonce := Arr.replicate 509 (key.val.getD 0 0 + nonce.val.getD 0 0)
  aeadDecrypt key nonce record :=
    if 16 ≤ record.length ∧
        record.drop (record.length - 16) = nonce.val.take 8 ++ key.val.take 8 then
      some (record.take (record.length - 16))
    else none
  signVerify sig _ pk := sig.val.take 32 == pk.val
  mldsaVerify sig _ pk := sig.val.take 32 == pk.val.take 32
  falconVerify sig _ pk := sig.take 32 == pk.val.take 32
  sodiumMemcmp a b := if a = b then 0 else -1
  sodiumMemcmp_eq _ _ := rfl

/-- The stand-ins agree on keys. -/
theorem scalarmult_comm_sample (a b : Field 32) :
    Crypto.sample.scalarmult a b = Crypto.sample.scalarmult b a := by
  simp only [Crypto.sample, zipWith_comm_of_comm UInt8.add_comm]

/-- The stand-in for the KEM is correct. -/
theorem kem_correct_sample (pk : Field 1184) (sk : Field 2400) (coins : Field 32)
    (kemCt : Field 1088) (kemSs : Field 32)
    (h : Crypto.sample.kemEncapsulate pk coins = some (kemCt, kemSs)) :
    Crypto.sample.kemDecapsulate kemCt sk = some kemSs := by
  simp only [Crypto.sample, Option.some.injEq, Prod.mk.injEq] at h ⊢
  obtain ⟨rfl, rfl⟩ := h
  simp [Arr.ofList, take_take]

/-- The bytes of a text. -/
def ascii (text : String) : Bytes := text.toList.map fun c => UInt8.ofNat c.toNat

/-- Copies bytes into a buffer. -/
def memcpyAt (off : ℕ) (bytes buf : Bytes) : Bytes :=
  buf.take off ++ bytes ++ buf.drop (off + bytes.length)

/-- A key pair for X25519. -/
structure KeyPair where
  pk : Field 32
  sk : Field 32
  deriving DecidableEq

section

variable (C : Crypto)

/-- The nonce of a counter: its bytes, the lowest first. -/
def nonceBuf (nonce : UInt64) : Field 12 := Arr.ofList 12 0 (be64 nonce).reverse

def cryptoAeadDecrypt (record : Bytes) (key : Field 32) (nonce : UInt64) : Option Bytes :=
  C.aeadDecrypt key (nonceBuf nonce) record

/-- X25519, refusing a secret of all zero bytes. -/
def cryptoDh (ourSk theirPk : Field 32) : Option (Field 32) :=
  match C.scalarmult ourSk theirPk with
  | none => none
  | some shared => if shared = Field.zero 32 then none else some shared

/-- A block of one repeated byte, with the key added at its start. -/
def hmacPad (b : UInt8) (key : Field 32) : Bytes :=
  key.val.map (b ^^^ ·) ++ List.replicate 96 b

def hmacBlake2b (key : Field 32) (data : Bytes) : Field 32 :=
  let inner := C.hash (hmacPad 0x36 key ++ data)
  C.hash (hmacPad 0x5c key ++ inner.val)

/-- Extracts from the input under the chaining key, and expands to two keys. -/
def cryptoHkdf (chainingKey : Field 32) (ikm : Bytes) : Field 32 × Field 32 :=
  let tempKey := hmacBlake2b C chainingKey ikm
  let out1 := hmacBlake2b C tempKey [1]
  let out2 := hmacBlake2b C tempKey (out1.val ++ [2])
  (out1, out2)

end

/-! ### Authenticated encryption -/

/-- The primitives with ChaCha20-Poly1305 both ways, with associated data. A record is longer by the
tag, and opens to the plaintext under the same key, nonce and data. -/
structure AeadCrypto extends Crypto where
  /-- Encrypts under a key and a nonce, with associated data, to a record. -/
  aeadEncrypt : Field 32 → Field 12 → Bytes → Bytes → Option Bytes
  /-- Opens a record under a key and a nonce, with associated data. -/
  aeadOpen : Field 32 → Field 12 → Bytes → Bytes → Option Bytes
  aeadOpen_nil : ∀ key nonce record, aeadOpen key nonce [] record = aeadDecrypt key nonce record
  length_aeadEncrypt : ∀ {key nonce ad plain record},
    aeadEncrypt key nonce ad plain = some record → record.length = plain.length + 16
  aeadOpen_aeadEncrypt : ∀ {key nonce ad plain record},
    aeadEncrypt key nonce ad plain = some record → aeadOpen key nonce ad record = some plain

/-- The stand-ins with an encryption that ends a record as their decryption expects it. -/
def AeadCrypto.sample : AeadCrypto where
  toCrypto := Crypto.sample
  aeadEncrypt key nonce _ plain := some (plain ++ (nonce.val.take 8 ++ key.val.take 8))
  aeadOpen key nonce _ record := Crypto.sample.aeadDecrypt key nonce record
  aeadOpen_nil _ _ _ := rfl
  length_aeadEncrypt := by
    intro key nonce ad plain record h
    simp [← Option.some_inj.mp h]
  aeadOpen_aeadEncrypt := by
    intro key nonce ad plain record h
    simp [← Option.some_inj.mp h, Crypto.sample]

section

variable (C : AeadCrypto)

def cryptoAeadEncrypt (plain ad : Bytes) (key : Field 32) (nonce : UInt64) : Option Bytes :=
  C.aeadEncrypt key (nonceBuf nonce) ad plain

/-- Decryption with associated data. -/
def cryptoAeadOpen (record ad : Bytes) (key : Field 32) (nonce : UInt64) : Option Bytes :=
  C.aeadOpen key (nonceBuf nonce) ad record

/-- A record is decrypted with the key and the nonce it was encrypted with. -/
theorem cryptoAeadDecrypt_of_encrypt {C : AeadCrypto} {plain record : Bytes} {key : Field 32}
    {nonce : UInt64} (h : cryptoAeadEncrypt C plain [] key nonce = some record) :
    cryptoAeadDecrypt C.toCrypto record key nonce = some plain :=
  (C.aeadOpen_nil ..).symm.trans (C.aeadOpen_aeadEncrypt h)

end

/-! ### Without collisions -/

/-- The hash does not collide on these inputs. -/
def HashInjOn (C : Crypto) (inputs : List Bytes) : Prop :=
  ∀ x ∈ inputs, ∀ y ∈ inputs, C.hash x = C.hash y → x = y
  deriving Decidable

section Injective

variable {C : Crypto}

theorem HashInjOn.mono {inputs inputs' : List Bytes} (h : HashInjOn C inputs)
    (hsub : inputs' ⊆ inputs) : HashInjOn C inputs' :=
  fun x hx y hy => h x (hsub hx) y (hsub hy)

theorem HashInjOn.append_mono {x x' y y' : List Bytes} (h : HashInjOn C (x ++ y)) (hx : x' ⊆ x)
    (hy : y' ⊆ y) : HashInjOn C (x' ++ y') :=
  h.mono (append_subset.mpr ⟨subset_append_of_subset_left _ hx, subset_append_of_subset_right _ hy⟩)

/-- The byte strings that are hashed for a tag. -/
def hmacInputs (C : Crypto) (key : Field 32) (data : Bytes) : List Bytes :=
  [hmacPad 0x36 key ++ data, hmacPad 0x5c key ++ (C.hash (hmacPad 0x36 key ++ data)).val]

@[simp] theorem length_hmacPad (b : UInt8) (key : Field 32) : (hmacPad b key).length = 128 := by
  simp [hmacPad]

theorem hmacPad_inj {b : UInt8} {k₁ k₂ : Field 32} (h : hmacPad b k₁ = hmacPad b k₂) : k₁ = k₂ := by
  have hinj : Function.Injective (b ^^^ · : UInt8 → UInt8) := fun x y hxy => by
    simpa [← UInt8.xor_assoc] using congrArg (b ^^^ ·) hxy
  rw [hmacPad, hmacPad, append_cancel_right_eq] at h
  exact Subtype.ext (map_injective_iff.mpr hinj h)

/-- A tag determines the key and the message. -/
theorem hmacBlake2b_inj {k₁ k₂ : Field 32} {d₁ d₂ : Bytes}
    (hinj : HashInjOn C (hmacInputs C k₁ d₁ ++ hmacInputs C k₂ d₂))
    (h : hmacBlake2b C k₁ d₁ = hmacBlake2b C k₂ d₂) : k₁ = k₂ ∧ d₁ = d₂ := by
  have houter := hinj _ (by simp [hmacInputs]) _ (by simp [hmacInputs]) h
  obtain ⟨hpad, hinner⟩ := append_inj houter (by simp)
  have hdata := hinj _ (by simp [hmacInputs]) _ (by simp [hmacInputs]) (Subtype.ext hinner)
  exact ⟨hmacPad_inj hpad, (append_inj hdata (by simp)).2⟩

/-- The byte strings that are hashed for two keys. -/
def hkdfInputs (C : Crypto) (chainingKey : Field 32) (ikm : Bytes) : List Bytes :=
  let tempKey := hmacBlake2b C chainingKey ikm
  hmacInputs C chainingKey ikm ++ hmacInputs C tempKey [1] ++
    hmacInputs C tempKey ((hmacBlake2b C tempKey [1]).val ++ [2])

section Hkdf

/-- The byte strings that are hashed for each of the three tags. -/
theorem hmacInputs_subset_hkdfInputs (C : Crypto) (key : Field 32) (ikm : Bytes) :
    let tempKey := hmacBlake2b C key ikm
    hmacInputs C key ikm ⊆ hkdfInputs C key ikm ∧
      hmacInputs C tempKey [1] ⊆ hkdfInputs C key ikm ∧
      hmacInputs C tempKey ((hmacBlake2b C tempKey [1]).val ++ [2]) ⊆ hkdfInputs C key ikm := by
  refine ⟨fun x hx => ?_, fun x hx => ?_, fun x hx => ?_⟩ <;>
    simp [hkdfInputs, hx]

variable {k₁ k₂ : Field 32} {d₁ d₂ : Bytes}

variable (hinj : HashInjOn C (hkdfInputs C k₁ d₁ ++ hkdfInputs C k₂ d₂))
include hinj

/-- The first key of an expansion determines the chaining key and the input. -/
theorem cryptoHkdf_fst_inj (h : (cryptoHkdf C k₁ d₁).1 = (cryptoHkdf C k₂ d₂).1) :
    k₁ = k₂ ∧ d₁ = d₂ := by
  obtain ⟨hextract₁, hexpand₁, -⟩ := hmacInputs_subset_hkdfInputs C k₁ d₁
  obtain ⟨hextract₂, hexpand₂, -⟩ := hmacInputs_subset_hkdfInputs C k₂ d₂
  obtain ⟨htemp, -⟩ := hmacBlake2b_inj (hinj.append_mono hexpand₁ hexpand₂) h
  exact hmacBlake2b_inj (hinj.append_mono hextract₁ hextract₂) htemp

/-- The two keys of expansions are different. -/
theorem cryptoHkdf_fst_ne_snd : (cryptoHkdf C k₁ d₁).1 ≠ (cryptoHkdf C k₂ d₂).2 := by
  intro h
  obtain ⟨-, hfirst, -⟩ := hmacInputs_subset_hkdfInputs C k₁ d₁
  obtain ⟨-, -, hsecond⟩ := hmacInputs_subset_hkdfInputs C k₂ d₂
  obtain ⟨-, hdata⟩ := hmacBlake2b_inj (hinj.append_mono hfirst hsecond) h
  simpa using congrArg length hdata

omit hinj

end Hkdf

end Injective

end Moor
