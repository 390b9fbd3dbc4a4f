import Moor.Cell

/-!
# Onion layers

The client shares a layer with every hop of a circuit in each direction: a stream cipher key with a
nonce that counts cells, and a running digest. It wraps a cell in the layers of all hops, of which
every hop peels one; backwards every hop adds its layer and the client peels them all. Digests are
set and checked for the last hop only.
-/

namespace Moor

open Codec List

/-- What two ends of a circuit share in one direction. -/
structure Layer where
  key : Field 32
  nonce : UInt64
  digest : Field 32
  deriving DecidableEq

/-- A hop of a circuit, as the client knows it. -/
structure Hop where
  nodeId : Field 32
  forward : Layer
  backward : Layer
  deriving DecidableEq

/-- Adds or removes the keystream of a key and a nonce. -/
def cryptoStreamXor (C : Crypto) (key : Field 32) (nonce : UInt64) (buf : Payload) : Payload :=
  ⟨List.zipWith (· ^^^ ·) buf.val (C.keystream key (nonceBuf nonce)).val, by simp⟩

namespace Layer

def uint64Max : UInt64 := UInt64.ofNat (2 ^ 64 - 1)

/-- The layer after one more cell. -/
def bump (l : Layer) : Layer := { l with nonce := l.nonce + 1 }

/-- The layer after one more cell that was stamped with its digest. -/
def next (l : Layer) (digest : Field 32) : Layer :=
  { l with nonce := l.nonce + 1, digest := digest }

/-- A payload with this layer added, or removed. -/
def apply (C : Crypto) (l : Layer) (payload : Payload) : Payload :=
  cryptoStreamXor C l.key l.nonce payload

/-- Encrypts or decrypts one cell, unless the nonces are used up. -/
def crypt (C : Crypto) (l : Layer) (payload : Payload) : Option (Layer × Payload) :=
  if l.nonce = uint64Max then none else some (l.bump, l.apply C payload)

end Layer

open Layer

/-! ### The client -/

def setLastDigest (C : Crypto) : List Layer → Payload → List Layer × Payload
  | [], payload => ([], payload)
  | [l], payload =>
    let (payload, digest) := relaySetDigest C payload l.digest
    ([{ l with digest := digest }], payload)
  | l :: l' :: layers, payload =>
    let (layers, payload) := setLastDigest C (l' :: layers) payload
    (l :: layers, payload)

/-- Adds all layers, the last one first. A layer without nonces stops it. -/
def encryptLayers (C : Crypto) : List Layer → Payload → List Layer × Option Payload
  | [], payload => ([], some payload)
  | l :: layers, payload =>
    match encryptLayers C layers payload with
    | (layers, none) => (l :: layers, none)
    | (layers, some payload) =>
      match l.crypt C payload with
      | none => (l :: layers, none)
      | some (l, payload) => (l :: layers, some payload)

/-- Removes all layers, the first one first. -/
def decryptLayers (C : Crypto) : List Layer → Payload → List Layer × Option Payload
  | [], payload => ([], some payload)
  | l :: layers, payload =>
    match l.crypt C payload with
    | none => (l :: layers, none)
    | some (l, payload) =>
      let (layers, out) := decryptLayers C layers payload
      (l :: layers, out)

def checkLastDigest (C : Crypto) : List Layer → Payload → List Layer × Option Payload
  | [], payload => ([], some payload)
  | [l], payload =>
    match relayCheckDigest C payload l.digest with
    | none => ([l], none)
    | some digest => ([{ l with digest := digest }], some payload)
  | l :: l' :: layers, payload =>
    let (layers, out) := checkLastDigest C (l' :: layers) payload
    (l :: layers, out)

variable (C : Crypto) (l : Layer) (payload : Payload)

/-- The client's forward layers send a payload. -/
def sendLayers (layers : List Layer) (payload : Payload) : List Layer × Option Payload :=
  let (layers, payload) := setLastDigest C layers payload
  encryptLayers C layers payload

/-- The client's backward layers receive a payload. A digest that does not match drops it; the
nonces have advanced by then. -/
def receiveLayers (layers : List Layer) (payload : Payload) : List Layer × Option Payload :=
  match decryptLayers C layers payload with
  | (layers, none) => (layers, none)
  | (layers, some payload) => checkLastDigest C layers payload

/-- Encrypts a cell that the client sends. -/
def circuitEncryptForward (hops : List Hop) (payload : Payload) : List Hop × Option Payload :=
  let (layers, out) := sendLayers C (hops.map Hop.forward) payload
  (List.zipWith (fun hop l => { hop with forward := l }) hops layers, out)

/-- Decrypts a cell that the client receives. -/
def circuitDecryptBackward (hops : List Hop) (payload : Payload) : List Hop × Option Payload :=
  let (layers, out) := receiveLayers C (hops.map Hop.backward) payload
  (List.zipWith (fun hop l => { hop with backward := l }) hops layers, out)

/-! ### The relays -/

/-- A relay removes its layer of a cell from the client. The caller goes on with the cell as it is
when the nonces are used up. -/
def circuitRelayDecrypt : Layer × Payload :=
  (l.crypt C payload).getD (l, payload)

/-- A relay adds its layer to a cell towards the client. When the nonces are used up the cell is
wiped. -/
def circuitRelayEncrypt : Layer × Payload :=
  (l.crypt C payload).getD (l, Field.zero 509)

/-- A relay takes a cell from the client: it handles the cells that it recognises and forwards the
others. -/
def relayHandleForward : Layer × (Payload ⊕ Payload) :=
  let (l, payload) := circuitRelayDecrypt C l payload
  if (relayUnpack payload).recognized = 0 then
    match relayCheckDigest C payload l.digest with
    | some digest => ({ l with digest := digest }, .inr payload)
    | none => (l, .inl payload)
  else (l, .inl payload)

/-- A relay takes a cell from the hop behind it, and forwards it. -/
def relayHandleBackward : Layer × (Payload ⊕ Payload) :=
  let (l, payload) := circuitRelayEncrypt C l payload
  (l, .inl payload)

/-- A relay sends a cell of its own to the client. -/
def relayOriginate (payload : Payload) (l : Layer) : Option (Layer × Payload) :=
  let (payload, digest) := relaySetDigest C payload l.digest
  crypt C { l with digest := digest } payload

/-! ### Layers and digests -/

section

variable (C : Crypto)

def wrapLayers (layers : List Layer) (payload : Payload) : Payload :=
  layers.foldr (apply C) payload

/-- A payload from the last hop, as it arrives at the client. -/
def lastHopSends (hops : List Hop) (payload : Payload) : Payload :=
  wrapLayers C (hops.map Hop.backward) <|
    match hops.getLast? with
    | some hop => (relaySetDigest C payload hop.backward.digest).1
    | none => payload

variable {C} {l : Layer} {payload : Payload} {layers : List Layer} {digest : Field 32}

@[simp] theorem wrapLayers_nil : wrapLayers C [] payload = payload := rfl

@[simp] theorem wrapLayers_cons :
    wrapLayers C (l :: layers) payload = l.apply C (wrapLayers C layers payload) := rfl

/-- A keystream that is added twice is gone. -/
@[simp] theorem Layer.apply_apply : l.apply C (l.apply C payload) = payload := by
  have hxor : ∀ (xs ks : Bytes), xs.length = ks.length →
      zipWith (· ^^^ ·) (zipWith (· ^^^ ·) xs ks) ks = xs := by
    intro xs
    induction xs with
    | nil => intro ks _; simp
    | cons x xs ih =>
      intro ks h
      cases ks with
      | nil => simp at h
      | cons k ks =>
        rw [zipWith_cons_cons, zipWith_cons_cons, ih ks (by simpa using h), UInt8.xor_assoc,
          UInt8.xor_self, UInt8.xor_zero]
  apply Subtype.ext
  exact hxor _ _ (by simp)

@[simp] theorem Layer.bump_digest : l.bump.digest = l.digest := rfl

theorem Layer.crypt_of_ne (h : l.nonce ≠ uint64Max) :
    l.crypt C payload = some (l.bump, l.apply C payload) := if_neg h

theorem Layer.crypt_eq_some {l' : Layer} {out : Payload} (h : l.crypt C payload = some (l', out)) :
    l.nonce ≠ uint64Max ∧ l' = l.bump ∧ out = l.apply C payload := by
  rw [crypt, Option.ite_none_left_eq_some] at h
  obtain ⟨hne, heq⟩ := h
  cases heq
  exact ⟨hne, rfl, rfl⟩

/-- What the client sends is the payload in all layers. -/
theorem encryptLayers_eq_some {layers' : List Layer} {out : Payload}
    (h : encryptLayers C layers payload = (layers', some out)) :
    layers' = layers.map bump ∧ out = wrapLayers C layers payload ∧
      ∀ l ∈ layers, l.nonce ≠ uint64Max := by
  induction layers generalizing layers' out with
  | nil =>
    cases h
    simp
  | cons l layers ih =>
    rw [encryptLayers] at h
    rcases hrest : encryptLayers C layers payload with ⟨rest, _ | inner⟩
    · simp [hrest] at h
    rcases hl : l.crypt C inner with _ | ⟨l₁, out₁⟩
    · simp [hrest, hl] at h
    simp only [hrest, hl, Prod.mk.injEq, Option.some_inj] at h
    obtain ⟨rfl, rfl⟩ := h
    obtain ⟨rfl, rfl, hne⟩ := ih hrest
    obtain ⟨hnonce, rfl, rfl⟩ := crypt_eq_some hl
    simpa using ⟨hnonce, hne⟩

/-- The client removes the layers that were added. -/
theorem decryptLayers_wrapLayers (h : ∀ l ∈ layers, l.nonce ≠ uint64Max) :
    decryptLayers C layers (wrapLayers C layers payload) = (layers.map bump, some payload) := by
  induction layers with
  | nil => rfl
  | cons l layers ih =>
    have hl : l.nonce ≠ uint64Max := h l mem_cons_self
    have hlayers := ih fun l' hl' => h l' (mem_cons_of_mem l hl')
    simp only [decryptLayers, wrapLayers_cons, crypt_of_ne hl, apply_apply, hlayers, map_cons]

theorem setLastDigest_concat :
    setLastDigest C (layers ++ [l]) payload =
      (layers ++ [{ l with digest := (relaySetDigest C payload l.digest).2 }],
        (relaySetDigest C payload l.digest).1) := by
  induction layers with
  | nil => rfl
  | cons l' layers ih =>
    cases layers with
    | nil => rfl
    | cons l'' layers =>
      simp only [cons_append] at ih ⊢
      rw [setLastDigest, ih]

/-- The last hop reads what the client packed, apart from the digest. -/
theorem relayUnpack_setLastDigest (C : Crypto) (layers : List Layer) (payload : Payload) :
    ∃ digest, relayUnpack (setLastDigest C layers payload).2
      = { relayUnpack payload with digest := digest } := by
  rcases eq_nil_or_concat layers with rfl | ⟨layers, l, rfl⟩
  · exact ⟨_, rfl⟩
  · rw [concat_eq_append, setLastDigest_concat]
    exact ⟨_, relayUnpack_putDigest ..⟩

theorem checkLastDigest_concat (h : relayCheckDigest C payload l.digest = some digest)
    (layers : List Layer) :
    checkLastDigest C (layers ++ [l]) payload =
      (layers ++ [{ l with digest := digest }], some payload) := by
  induction layers with
  | nil => simp [checkLastDigest, h]
  | cons l' layers ih =>
    cases layers with
    | nil => simp [checkLastDigest, h]
    | cons l'' layers =>
      simp only [cons_append] at ih ⊢
      rw [checkLastDigest, ih]

/-- What a payload is stamped with and wrapped in when the client can send it. -/
theorem sendLayers_concat {layers' : List Layer} {out : Payload}
    (h : sendLayers C (layers ++ [l]) payload = (layers', some out)) :
    layers' = layers.map bump ++
        [l.next (relaySetDigest C payload l.digest).2] ∧
      out = wrapLayers C (layers ++ [l]) (relaySetDigest C payload l.digest).1 ∧
      (∀ l' ∈ layers, l'.nonce ≠ uint64Max) ∧ l.nonce ≠ uint64Max := by
  rw [sendLayers, setLastDigest_concat] at h
  obtain ⟨rfl, rfl, hne⟩ := encryptLayers_eq_some h
  refine ⟨by simp [bump, Layer.next], ?_, fun l' hl' => hne l' (by simp [hl']), ?_⟩
  · simp [wrapLayers, apply]
  · exact hne { l with digest := (relaySetDigest C payload l.digest).2 } (by simp)

/-- The client recovers a payload that carries the last hop's digest. -/
theorem receiveLayers_concat (hlayers : ∀ l' ∈ layers, l'.nonce ≠ uint64Max)
    (hl : l.nonce ≠ uint64Max) (h : relayCheckDigest C payload l.digest = some digest) :
    receiveLayers C (layers ++ [l]) (wrapLayers C (layers ++ [l]) payload) =
      (layers.map bump ++ [l.next digest], some payload) := by
  have hall : ∀ l' ∈ layers ++ [l], l'.nonce ≠ uint64Max :=
    forall_mem_append.mpr ⟨hlayers, forall_mem_singleton.mpr hl⟩
  rw [receiveLayers, decryptLayers_wrapLayers hall, map_append]
  exact checkLastDigest_concat (l := l.bump) h (layers.map bump)

theorem map_key_receiveLayers (layers : List Layer) (payload : Payload) :
    (receiveLayers C layers payload).1.map key = layers.map key := by
  have hdec : ∀ (layers : List Layer) (payload : Payload),
      (decryptLayers C layers payload).1.map key = layers.map key := by
    intro layers
    induction layers with
    | nil => intro payload; rfl
    | cons l layers ih =>
      intro payload
      rw [decryptLayers]
      cases hl : l.crypt C payload with
      | none => rfl
      | some out => simp [ih, (crypt_eq_some hl).2.1, bump]
  have hcheck : ∀ (layers : List Layer) (payload : Payload),
      (checkLastDigest C layers payload).1.map key = layers.map key := by
    intro layers payload
    induction layers with
    | nil => rfl
    | cons l layers ih =>
      cases layers with
      | nil => rw [checkLastDigest]; split <;> rfl
      | cons l' layers => simp [checkLastDigest, ih]
  rw [receiveLayers]
  have hkeys := hdec layers payload
  rcases hd : decryptLayers C layers payload with ⟨layers', _ | out⟩
  · rw [hd] at hkeys
    exact hkeys
  · rw [hd] at hkeys
    exact (hcheck layers' out).trans hkeys

theorem map_key_sendLayers (layers : List Layer) (payload : Payload) :
    (sendLayers C layers payload).1.map key = layers.map key := by
  have hset : ∀ (layers : List Layer) (payload : Payload),
      (setLastDigest C layers payload).1.map key = layers.map key := by
    intro layers payload
    induction layers with
    | nil => rfl
    | cons l layers ih =>
      cases layers with
      | nil => rfl
      | cons l' layers => simp [setLastDigest, ih]
  have henc : ∀ (layers : List Layer) (payload : Payload),
      (encryptLayers C layers payload).1.map key = layers.map key := by
    intro layers payload
    induction layers with
    | nil => rfl
    | cons l layers ih =>
      rw [encryptLayers]
      rcases hrest : encryptLayers C layers payload with ⟨rest, _ | inner⟩
      · simpa [hrest] using ih
      rw [hrest] at ih
      dsimp only
      cases hl : l.crypt C inner with
      | none => simpa using ih
      | some out => simpa [(crypt_eq_some hl).2.1, bump] using ih
  exact (henc _ _).trans (hset _ _)

end

/-! ### The client's hops -/

section

variable {layers : List Layer} (C : Crypto) (hops : List Hop) (payload : Payload)

/-- Hops whose layers on one side are replaced. -/
theorem map_zipWith_side {f : Hop → Layer → Hop} {side other : Hop → Layer}
    (hside : ∀ hop l, side (f hop l) = l) (hother : ∀ hop l, other (f hop l) = other hop)
    (h : layers.length = hops.length) :
    (zipWith f hops layers).map side = layers ∧
      (zipWith f hops layers).map other = hops.map other := by
  induction hops generalizing layers with
  | nil => simp [eq_nil_of_length_eq_zero h]
  | cons hop hops ih =>
    cases layers with
    | nil => simp at h
    | cons l layers =>
      simp [hside, hother, ih (show layers.length = hops.length by simpa using h)]

/-- Sending a cell changes the forward layers only. -/
theorem circuitEncryptForward_layers :
    (circuitEncryptForward C hops payload).1.map Hop.forward
        = (sendLayers C (hops.map Hop.forward) payload).1 ∧
      (circuitEncryptForward C hops payload).1.map Hop.backward = hops.map Hop.backward := by
  have hlen := congrArg length (map_key_sendLayers (C := C) (hops.map Hop.forward) payload)
  simp only [length_map] at hlen
  exact map_zipWith_side _ (fun _ _ => rfl) (fun _ _ => rfl) hlen

/-- Receiving a cell changes the backward layers only. -/
theorem circuitDecryptBackward_layers :
    (circuitDecryptBackward C hops payload).1.map Hop.backward
        = (receiveLayers C (hops.map Hop.backward) payload).1 ∧
      (circuitDecryptBackward C hops payload).1.map Hop.forward = hops.map Hop.forward := by
  have hlen := congrArg length (map_key_receiveLayers (C := C) (hops.map Hop.backward) payload)
  simp only [length_map] at hlen
  exact map_zipWith_side _ (fun _ _ => rfl) (fun _ _ => rfl) hlen

/-- The keys of a hop, and the relay they are shared with. -/
def Hop.keys (hop : Hop) : Field 32 × Field 32 × Field 32 :=
  (hop.nodeId, hop.forward.key, hop.backward.key)

/-- Layers with the same keys on one side leave the keys of the hops. -/
theorem map_keys_zipWith {f : Hop → Layer → Hop} {side : Hop → Layer}
    (hf : ∀ hop l, l.key = (side hop).key → (f hop l).keys = hop.keys)
    (h : layers.map key = (hops.map side).map key) :
    (zipWith f hops layers).map Hop.keys = hops.map Hop.keys := by
  induction hops generalizing layers with
  | nil => rfl
  | cons hop hops ih =>
    cases layers with
    | nil => simp at h
    | cons l layers =>
      have hcons := cons.inj h
      simp [hf hop l hcons.1, ih hcons.2]

theorem map_keys_circuitEncryptForward :
    (circuitEncryptForward C hops payload).1.map Hop.keys = hops.map Hop.keys :=
  map_keys_zipWith _ (fun _ _ h => by simp [Hop.keys, h]) (map_key_sendLayers _ payload)

theorem map_keys_circuitDecryptBackward :
    (circuitDecryptBackward C hops payload).1.map Hop.keys = hops.map Hop.keys :=
  map_keys_zipWith _ (fun _ _ h => by simp [Hop.keys, h]) (map_key_receiveLayers _ payload)

end

/-! ### What a relay does with a cell -/

section

variable {C : Crypto} {l l' : Layer} {payload out : Payload}

theorem relayHandleForward_of_not_recognises (hl : l.nonce ≠ uint64Max)
    (h : recognises C l.digest payload = false) :
    relayHandleForward C l (l.apply C payload) = (l.bump, .inl payload) := by
  simp only [relayHandleForward, circuitRelayDecrypt, crypt_of_ne hl, apply_apply,
    Option.getD_some, bump_digest]
  by_cases hzero : (relayUnpack payload).recognized = 0
  · have hnone : relayCheckDigest C payload l.digest = none := by
      simpa [recognises, hzero] using h
    rw [if_pos hzero, hnone]
  · rw [if_neg hzero]

/-- A relay handles a cell that carries its digest. -/
theorem relayHandleForward_of_recognises {digest : Field 32} (hl : l.nonce ≠ uint64Max)
    (hzero : (relayUnpack payload).recognized = 0)
    (h : relayCheckDigest C payload l.digest = some digest) :
    relayHandleForward C l (l.apply C payload) = (l.next digest, .inr payload) := by
  simp only [relayHandleForward, circuitRelayDecrypt, crypt_of_ne hl, apply_apply,
    Option.getD_some, bump_digest, hzero, h, if_true]
  rfl

/-- A cell of a relay's own carries its digest, in its layer. -/
theorem relayOriginate_eq_some (h : relayOriginate C payload l = some (l', out)) :
    l.nonce ≠ uint64Max ∧ l' = l.next (relaySetDigest C payload l.digest).2 ∧
      out = l.apply C (relaySetDigest C payload l.digest).1 := by
  obtain ⟨hne, rfl, rfl⟩ := crypt_eq_some h
  exact ⟨hne, rfl, rfl⟩

/-- A relay that forwards a cell keeps its running digest. -/
theorem relayHandleForward_digest (h : relayHandleForward C l payload = (l', .inl out)) :
    l'.digest = l.digest := by
  have hdec : (circuitRelayDecrypt C l payload).1.digest = l.digest := by
    rw [circuitRelayDecrypt, crypt]
    split <;> rfl
  rw [relayHandleForward] at h
  simp only at h
  split at h
  · split at h
    · cases h
    · cases h
      exact hdec
  · cases h
    exact hdec

end

end Moor
