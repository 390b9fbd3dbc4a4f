import Moor.Lib.Dialogue
import Moor.Link.Connection

/-!
# The link handshake

Two parties that know their identities by long-term keys agree on the keys of a link: first in the
Noise pattern IK, two messages whose transcript is hashed into every step, then by a KEM whose
public key and ciphertext go through the link in cells. This module has the initiator and the
responder that wait for the socket; both are dialogues on the byte stream. When they meet, each end
has the keys and the counters of the other.
-/

namespace Moor

open Codec Dialogue List

/-- The primitives of the link handshake: X25519 public keys of secret keys, and the X25519 keys of
an Ed25519 identity. -/
structure LinkCrypto extends AeadCrypto where
  /-- The X25519 public key of a secret key. -/
  base : Field 32 → Field 32
  ed25519ToCurve25519Pk : Field 32 → Option (Field 32)
  ed25519ToCurve25519Sk : Field 64 → Option (Field 32)

/-- An Ed25519 identity. -/
structure Identity where
  pk : Field 32
  sk : Field 64

/-- An ML-KEM-768 key pair. -/
structure KemKeyPair where
  pk : Field 1184
  sk : Field 2400

/-! ### Noise -/

/-- The state of the Noise handshake: the hash of the transcript, the chaining key and the current
key. -/
structure NoiseState where
  h : Field 32
  ck : Field 32
  k : Field 32
  deriving DecidableEq

/-- The name of the protocol. Its length counts the byte that ends the text. -/
def noiseProtocolName : Bytes := ascii "Noise_IK_25519_ChaChaPoly_BLAKE2b" ++ [0]

section Noise

variable (C : LinkCrypto)

def noiseInit : NoiseState :=
  let h := C.hash noiseProtocolName
  ⟨h, h, Field.zero 32⟩

def noiseMixHash (data : Bytes) (s : NoiseState) : NoiseState :=
  { s with h := C.hash (s.h.val ++ data.take 1200) }

def noiseMixKey (ikm : Field 32) (s : NoiseState) : NoiseState :=
  let (ck, k) := cryptoHkdf C.toCrypto s.ck ikm.val
  { s with ck := ck, k := k }

/-- Encrypts with the hash of the transcript as associated data, and adds the result to it. -/
def noiseEncryptAndHash (plain : Bytes) (s : NoiseState) : Option (Bytes × NoiseState) :=
  match cryptoAeadEncrypt C.toAeadCrypto plain s.h.val s.k 0 with
  | none => none
  | some ct => some (ct, noiseMixHash C ct s)

def noiseDecryptAndHash (ct : Bytes) (s : NoiseState) : Option (Bytes × NoiseState) :=
  match cryptoAeadOpen C.toAeadCrypto ct s.h.val s.k 0 with
  | none => none
  | some plain => some (plain, noiseMixHash C ct s)

/-- Adds a shared secret to the chaining key. -/
def noiseDh (ourSk theirPk : Field 32) (s : NoiseState) : Option NoiseState :=
  match cryptoDh C.toCrypto ourSk theirPk with
  | none => none
  | some dh => some (noiseMixKey C dh s)

/-- The first message of the initiator, e, es, s, ss. The result also has the X25519 secret key of
the initiator and the state after the message. -/
def noiseMsg1 (ours : Identity) (peerIdentity eSk : Field 32) :
    Option (Bytes × Field 32 × NoiseState) := do
  let ourCurvePk ← C.ed25519ToCurve25519Pk ours.pk
  let ourCurveSk ← C.ed25519ToCurve25519Sk ours.sk
  if peerIdentity = Field.zero 32 then none
  else
    let peerCurvePk ← C.ed25519ToCurve25519Pk peerIdentity
    let s := noiseMixHash C peerCurvePk.val (noiseInit C)
    let ePk := C.base eSk
    let s := noiseMixHash C ePk.val s
    let s ← noiseDh C eSk peerCurvePk s
    let (encryptedS, s) ← noiseEncryptAndHash C ourCurvePk.val s
    let s ← noiseDh C ourCurveSk peerCurvePk s
    some (ePk.val ++ encryptedS, ourCurveSk, s)

/-- The initiator reads the second message, e, ee, se. The result is the chaining key. -/
def noiseReadMsg2 (eSk ourCurveSk : Field 32) (msg2 : Bytes) (s : NoiseState) :
    Option (Field 32) := do
  let rePk : Field 32 := Arr.ofList 32 0 msg2
  let s := noiseMixHash C rePk.val s
  let s ← noiseDh C eSk rePk s
  let s ← noiseDh C ourCurveSk rePk s
  let (_, s) ← noiseDecryptAndHash C ((msg2.drop 32).take 16) s
  some s.ck

/-- The responder reads the first message and makes the second. The result also has the X25519 key
of the initiator and the chaining key. -/
def noiseMsg2 (ours : Identity) (eSk : Field 32) (msg1 : Bytes) :
    Option (Bytes × Field 32 × Field 32) := do
  let ourCurvePk ← C.ed25519ToCurve25519Pk ours.pk
  let ourCurveSk ← C.ed25519ToCurve25519Sk ours.sk
  let s := noiseMixHash C ourCurvePk.val (noiseInit C)
  let iePk : Field 32 := Arr.ofList 32 0 msg1
  let s := noiseMixHash C iePk.val s
  let s ← noiseDh C ourCurveSk iePk s
  let (plain, s) ← noiseDecryptAndHash C ((msg1.drop 32).take 48) s
  let initiatorCurvePk : Field 32 := Arr.ofList 32 0 plain
  let s ← noiseDh C ourCurveSk initiatorCurvePk s
  let ePk := C.base eSk
  let s := noiseMixHash C ePk.val s
  let s ← noiseDh C eSk iePk s
  let s ← noiseDh C eSk initiatorCurvePk s
  let (encryptedEmpty, s) ← noiseEncryptAndHash C [] s
  some (ePk.val ++ encryptedEmpty, initiatorCurvePk, s.ck)

end Noise

/-! ### Cells of the handshake -/

section

variable (C : AeadCrypto) (nowMs : ℕ)

/-- A cell with a part of a KEM public key or ciphertext. -/
def kemCell (chunk : Bytes) : Cell := ⟨0, cellKemCtCmd, Arr.ofList 509 0 chunk⟩

/-- Sends a cell on a socket that waits until it has taken the whole frame. -/
def hsSendCell (cell : Cell) (conn : Conn) : Dialogue UInt8 Conn :=
  let effect := conn.sendCell C nowMs [.took moorCellWireSize] true cell
  if effect.ok then do
    put effect.written
    return effect.conn
  else fail

def hsReadFrame (frame : Bytes) (conn : Conn) : Option (Conn × Cell) :=
  match { conn with recvBuf := frame }.recvCell C.toCrypto nowMs none with
  | (conn, .cell cell) => some (conn, cell)
  | _ => none

def hsRecvCell (conn : Conn) : Dialogue UInt8 (Conn × Cell) := do
  let header ← get 2
  guard (16 ≤ frameLength header ∧ frameLength header ≤ 514 + 16)
  let record ← get (frameLength header)
  lift (hsReadFrame C nowMs (header ++ record) conn)

/-- Sends the parts of a KEM public key or ciphertext. -/
def hsSendKem : List Bytes → Conn → Dialogue UInt8 Conn
  | [], conn => return conn
  | chunk :: chunks, conn => do
    let conn ← hsSendCell C nowMs (kemCell chunk) conn
    hsSendKem chunks conn

/-- Receives the parts of a KEM public key or ciphertext of the given length, while there are not
enough. Every part has at least one byte, so the length is enough rounds. -/
def hsRecvKem (len : ℕ) : ℕ → Bytes → Conn → Dialogue UInt8 (Conn × Bytes)
  | 0, received, conn => return (conn, received)
  | rounds + 1, received, conn =>
    if received.length < len then do
      let (conn, cell) ← hsRecvCell C nowMs conn
      guard (cell.command = cellKemCtCmd)
      let chunk := cell.payload.val.take (len - received.length)
      hsRecvKem len rounds (received ++ chunk) conn
    else return (conn, received)

end

/-! ### The parties that wait for the socket -/

/-- A new connection. -/
def Conn.fresh (state : ConnState) (transport : Bool) (peerIdentity : Field 32) : Conn :=
  let direction : LinkDirection :=
    ⟨Field.zero 32, 0, 0, 0, 0, Field.zero 32, Field.zero 32, false⟩
  ⟨state, peerIdentity, transport, false, direction, direction, [], [], 0⟩

/-- The keys of the Noise handshake are set, and the counters start. -/
def Conn.setNoiseKeys (keys : LinkKeys) (conn : Conn) : Conn :=
  { conn with
    send := { conn.send with key := keys.sendKey, nonce := 0 }
    recv := { conn.recv with key := keys.recvKey, nonce := 0 } }

section Parties

variable (C : LinkCrypto) (nowMs : ℕ) (ours : Identity) (eSk : Field 32)

def linkHandshakeClient (conn : Conn) : Dialogue UInt8 Conn := do
  let (msg1, ourCurveSk, s) ← lift (noiseMsg1 C ours conn.peerIdentity eSk)
  put msg1
  let msg2 ← get 48
  let ck ← lift (noiseReadMsg2 C eSk ourCurveSk msg2 s)
  return conn.setNoiseKeys (noiseSplit C.toCrypto true ck)

/-- The responder records the X25519 key of the initiator. -/
def linkHandshakeServer (conn : Conn) : Dialogue UInt8 Conn := do
  let msg1 ← get 80
  let (msg2, initiatorCurvePk, ck) ← lift (noiseMsg2 C ours eSk msg1)
  put msg2
  let conn := { conn with peerIdentity := initiatorCurvePk }
  return conn.setNoiseKeys (noiseSplit C.toCrypto false ck)

def linkHandshakeClientPq (kem : KemKeyPair) (conn : Conn) : Dialogue UInt8 Conn := do
  let conn ← linkHandshakeClient C ours eSk conn
  let conn := { conn with state := .opened, pqHandshakeDone := false }
  let conn ← hsSendKem C.toAeadCrypto nowMs (chunks 509 kem.pk.val) conn
  let (conn, kemCt) ← hsRecvKem C.toAeadCrypto nowMs 1088 1088 [] conn
  let kemShared ← lift (C.kemDecapsulate (Arr.ofList 1088 0 kemCt) kem.sk)
  return pqHandshakeFinish C.toCrypto nowMs kemShared conn

def linkHandshakeServerPq (coins : Field 32) (conn : Conn) : Dialogue UInt8 Conn := do
  let conn ← linkHandshakeServer C ours eSk conn
  let conn := { conn with state := .opened, pqHandshakeDone := false }
  let (conn, kemPk) ← hsRecvKem C.toAeadCrypto nowMs 1184 1184 [] conn
  let (kemCt, kemShared) ← lift (C.kemEncapsulate (Arr.ofList 1184 0 kemPk) coins)
  let conn ← hsSendKem C.toAeadCrypto nowMs (chunks 509 kemCt.val) conn
  return pqHandshakeFinish C.toCrypto nowMs kemShared conn

end Parties

/-! ### The Noise handshake agrees -/

section

variable {C : LinkCrypto}

/-- The two X25519 keys of an identity belong together. -/
def LinkCrypto.IsIdentity (C : LinkCrypto) (ours : Identity) : Prop :=
  ∀ sk, C.ed25519ToCurve25519Sk ours.sk = some sk →
    C.ed25519ToCurve25519Pk ours.pk = some (C.base sk)

theorem noiseDh_comm (hdh : ∀ a b, C.scalarmult a (C.base b) = C.scalarmult b (C.base a))
    (a b : Field 32) (s : NoiseState) :
    noiseDh C a (C.base b) s = noiseDh C b (C.base a) s := by
  simp [noiseDh, cryptoDh, hdh]

variable {s : NoiseState} {ours : Identity} {ourCurveSk : Field 32} {msg1 : Bytes}

theorem noiseEncryptAndHash_spec {plain ct : Bytes} {s' : NoiseState}
    (h : noiseEncryptAndHash C plain s = some (ct, s')) :
    ct.length = plain.length + 16 ∧ noiseDecryptAndHash C ct s = some (plain, s') := by
  rw [noiseEncryptAndHash] at h
  split at h
  · exact absurd h (by simp)
  rename_i record hrec
  cases h
  refine ⟨C.length_aeadEncrypt hrec, ?_⟩
  rw [noiseDecryptAndHash, cryptoAeadOpen, C.aeadOpen_aeadEncrypt hrec]

/-- What the initiator has done when its first message is made. -/
theorem noiseMsg1_spec {peerIdentity eSk : Field 32}
    (h : noiseMsg1 C ours peerIdentity eSk = some (msg1, ourCurveSk, s)) :
    ∃ ourCurvePk peerCurvePk s₁ s₂ encryptedS,
      C.ed25519ToCurve25519Pk ours.pk = some ourCurvePk ∧
      C.ed25519ToCurve25519Sk ours.sk = some ourCurveSk ∧
      C.ed25519ToCurve25519Pk peerIdentity = some peerCurvePk ∧
      noiseDh C eSk peerCurvePk (noiseMixHash C (C.base eSk).val
        (noiseMixHash C peerCurvePk.val (noiseInit C))) = some s₁ ∧
      noiseEncryptAndHash C ourCurvePk.val s₁ = some (encryptedS, s₂) ∧
      noiseDh C ourCurveSk peerCurvePk s₂ = some s ∧
      msg1 = (C.base eSk).val ++ encryptedS := by
  simp only [noiseMsg1, Option.bind_eq_bind, Option.bind_eq_some_iff] at h
  obtain ⟨ourCurvePk, hpk, curveSk, hsk, h⟩ := h
  split at h
  · exact absurd h (by simp)
  simp only [Option.bind_eq_some_iff] at h
  obtain ⟨peerCurvePk, hpeer, s₁, hes, ⟨encryptedS, s₂⟩, hs, s₃, hss, h⟩ := h
  cases h
  exact ⟨ourCurvePk, peerCurvePk, s₁, s₂, encryptedS, hpk, hsk, hpeer, hes, hs, hss, rfl⟩

theorem length_noiseMsg1 {peerIdentity eSk : Field 32}
    (h : noiseMsg1 C ours peerIdentity eSk = some (msg1, ourCurveSk, s)) : msg1.length = 80 := by
  obtain ⟨ourPk, -, s₁, s₂, encryptedS, -, -, -, -, hs, -, rfl⟩ := noiseMsg1_spec h
  simp [(noiseEncryptAndHash_spec hs).1]

/-- What the responder does with a first message in its parts. -/
theorem noiseMsg2_spec {theirs : Identity} {eSk iePk initiatorCurvePk ck : Field 32}
    {encryptedS msg2 : Bytes} (hlength : encryptedS.length = 48)
    (h : noiseMsg2 C theirs eSk (iePk.val ++ encryptedS) = some (msg2, initiatorCurvePk, ck)) :
    ∃ curvePk curveSk s₁ plain s₂ s₃ s₄ s₅ encryptedEmpty s₆,
      C.ed25519ToCurve25519Pk theirs.pk = some curvePk ∧
      C.ed25519ToCurve25519Sk theirs.sk = some curveSk ∧
      noiseDh C curveSk iePk (noiseMixHash C iePk.val
        (noiseMixHash C curvePk.val (noiseInit C))) = some s₁ ∧
      noiseDecryptAndHash C encryptedS s₁ = some (plain, s₂) ∧
      initiatorCurvePk = Arr.ofList 32 0 plain ∧
      noiseDh C curveSk initiatorCurvePk s₂ = some s₃ ∧
      noiseDh C eSk iePk (noiseMixHash C (C.base eSk).val s₃) = some s₄ ∧
      noiseDh C eSk initiatorCurvePk s₄ = some s₅ ∧
      noiseEncryptAndHash C [] s₅ = some (encryptedEmpty, s₆) ∧
      msg2 = (C.base eSk).val ++ encryptedEmpty ∧ ck = s₆.ck := by
  simp only [noiseMsg2, Option.bind_eq_bind, Option.bind_eq_some_iff, Arr.ofList_append,
    drop_left' iePk.length_val, take_of_length_le hlength.le] at h
  obtain ⟨curvePk, hpk, curveSk, hsk, s₁, hes, ⟨plain, s₂⟩, hs, s₃, hss, s₄, hee, s₅, hse,
    ⟨encryptedEmpty, s₆⟩, hempty, h⟩ := h
  cases h
  exact ⟨curvePk, curveSk, s₁, plain, s₂, s₃, s₄, s₅, encryptedEmpty, s₆, hpk, hsk, hes, hs, rfl,
    hss, hee, hse, hempty, rfl, rfl⟩

/-- A responder that answers the first message has the key of the initiator, and the initiator
reads its answer to the same chaining key. -/
theorem noise_agreement (hdh : ∀ a b, C.scalarmult a (C.base b) = C.scalarmult b (C.base a))
    {theirs : Identity} (hours : C.IsIdentity ours) (htheirs : C.IsIdentity theirs)
    {eI eR initiatorCurvePk ck : Field 32} {msg2 : Bytes}
    (hmsg1 : noiseMsg1 C ours theirs.pk eI = some (msg1, ourCurveSk, s))
    (hmsg2 : noiseMsg2 C theirs eR msg1 = some (msg2, initiatorCurvePk, ck)) :
    msg2.length = 48 ∧ noiseReadMsg2 C eI ourCurveSk msg2 s = some ck ∧
      C.ed25519ToCurve25519Pk ours.pk = some initiatorCurvePk := by
  obtain ⟨ourPk, peerPk, s₁, s₂, encryptedS, hpk, hsk, hpeer, hes, hs, hss, rfl⟩ :=
    noiseMsg1_spec hmsg1
  obtain ⟨hlengthS, hopenS⟩ := noiseEncryptAndHash_spec hs
  obtain ⟨curvePk, curveSk, t₁, plain, t₂, t₃, t₄, t₅, encryptedEmpty, t₆, hpk', hsk', hes', hs',
    rfl, hss', hee', hse', hempty, rfl, rfl⟩ :=
    noiseMsg2_spec (by simp [hlengthS]) hmsg2
  -- the static keys are those the identities stand for
  obtain rfl : C.base ourCurveSk = ourPk := Option.some_inj.mp ((hours _ hsk).symm.trans hpk)
  obtain rfl : C.base curveSk = curvePk := Option.some_inj.mp ((htheirs _ hsk').symm.trans hpk')
  obtain rfl : C.base curveSk = peerPk := Option.some_inj.mp (hpk'.symm.trans hpeer)
  -- every step of the responder is the step of the initiator with the keys exchanged
  rw [noiseDh_comm hdh, hes] at hes'
  cases hes'
  rw [hopenS] at hs'
  cases hs'
  rw [Arr.ofList_val] at hss' hse' ⊢
  rw [noiseDh_comm hdh, hss] at hss'
  cases hss'
  rw [noiseDh_comm hdh] at hee' hse'
  obtain ⟨hlengthE, hopenE⟩ := noiseEncryptAndHash_spec hempty
  refine ⟨?_, ?_, hpk⟩
  · simp [hlengthE]
  · rw [length_nil] at hlengthE
    simp only [noiseReadMsg2, Arr.ofList_append, hee', hse', Option.bind_eq_bind, Option.bind_some,
      drop_left' (Arr.length_val _), take_of_length_le hlengthE.le, hopenE]

end

/-! ### Cells arrive in step -/

/-- The sending direction after one more record. -/
def Conn.countSent (conn : Conn) : Conn :=
  { conn with
    send := { conn.send with
      nonce := conn.send.nonce + 1
      epochRecords := conn.send.epochRecords + 1 } }

/-- The receiving direction after one more record. -/
def Conn.countReceived (conn : Conn) : Conn :=
  { conn with
    recv := { conn.recv with
      nonce := conn.recv.nonce + 1
      epochRecords := conn.recv.epochRecords + 1 }
    recvBuf := [] }

/-- The connection is open for the cells of the handshake, and keeps its keys. -/
structure Conn.Exchanges (conn : Conn) : Prop where
  state : conn.state = .opened
  pqHandshakeDone : conn.pqHandshakeDone = false

/-- There is no schedule of keys during the handshake. -/
theorem LinkDirection.maybeRotate_false (C : Crypto) (nowMs : ℕ) (d : LinkDirection) :
    d.maybeRotate C false nowMs = d :=
  if_neg fun h => absurd h.1 (by decide)

section InStep

variable {C : AeadCrypto} {nowMs : ℕ} {conn : Conn}

variable {cell : Cell} {record : Bytes}

theorem length_of_encrypt_cell {key : Field 32} {nonce : UInt64}
    (h : cryptoAeadEncrypt C (cellPack cell).val [] key nonce = some record) :
    record.length = cellRecordSize := by
  rw [C.length_aeadEncrypt h, Arr.length_val]
  rfl

/-- A record that can be made is sent as a frame. -/
theorem hsSendCell_of_encrypt (hconn : conn.Exchanges) (hnonce : conn.send.nonce ≠ Layer.uint64Max)
    (h : cryptoAeadEncrypt C (cellPack cell).val [] conn.send.key conn.send.nonce = some record) :
    hsSendCell C nowMs cell conn = send (wireFrame record) (done conn.countSent) := by
  have hrotate : linkRekeySendMaybeRotate C.toCrypto nowMs conn = conn := by
    rw [linkRekeySendMaybeRotate, hconn.pqHandshakeDone, LinkDirection.maybeRotate_false,
      ← hconn.pqHandshakeDone]
  have hlength : (wireFrame record).length ≤ moorCellWireSize := by
    rw [length_wireFrame, length_of_encrypt_cell h]
    decide
  have hframe (conn : Conn) :
      sendFrame [.took moorCellWireSize] true (wireFrame record) conn =
        (conn, wireFrame record, true) := by
    rw [sendFrame, Socket.sendAll_took_of_length_le hlength]
    split <;> rfl
  rw [hsSendCell, Conn.sendCell, if_neg (not_not.mpr hconn.state), if_neg hnonce]
  simp only [hrotate, encryptRecord, h, hframe, SendEffect.ofFrame, if_true]
  rfl

theorem hsReadFrame_of_decrypt {header plain : Bytes} (hconn : conn.Exchanges)
    (hheader : header.length = 2) (hframe : frameLength header = cellRecordSize)
    (hlength : record.length = cellRecordSize) (hnonce : conn.recv.nonce ≠ Layer.uint64Max)
    (h : cryptoAeadDecrypt C.toCrypto record conn.recv.key conn.recv.nonce = some plain) :
    hsReadFrame C nowMs (header ++ record) conn =
      some (conn.countReceived, cellUnpack plain) := by
  have hframe' : frameLength (header ++ record) = cellRecordSize := by
    rw [← hframe, frameLength, frameLength, take_append_of_le_length hheader.ge]
  have htotal : (header ++ record).length = 2 + cellRecordSize := by
    simp [hheader, hlength]
  have hspace : recvSpace (header ++ record) = 0 := by
    refine if_pos ⟨?_, ?_⟩
    · exact htotal ▸ Nat.le_add_right 2 _
    · rw [hframe', htotal]
  have hrec : ((header ++ record).drop 2).take cellRecordSize = record := by
    rw [drop_left' hheader, take_of_length_le hlength.le]
  rw [hsReadFrame, Conn.recvCell, if_neg (not_not.mpr hconn.state), if_pos hspace, recvFrame,
    hframe', htotal, if_neg (by decide), if_neg (by decide), if_neg (lt_irrefl _), if_neg hnonce]
  simp only [linkRekeyRecvMaybeRotate, hconn.pqHandshakeDone, LinkDirection.maybeRotate_false,
    hrec, decryptRecord, h, drop_of_length_le htotal.le]
  rw [Conn.countReceived, hconn.pqHandshakeDone]

end InStep

/-- The two ends of a link: what one sends with, the other receives with. -/
structure Mirrors (conn₁ conn₂ : Conn) : Prop where
  exchanges₁ : conn₁.Exchanges
  exchanges₂ : conn₂.Exchanges
  sendKey : conn₁.send.key = conn₂.recv.key
  sendNonce : conn₁.send.nonce = conn₂.recv.nonce
  recvKey : conn₁.recv.key = conn₂.send.key
  recvNonce : conn₁.recv.nonce = conn₂.send.nonce

theorem Mirrors.symm {conn₁ conn₂ : Conn} (h : Mirrors conn₁ conn₂) : Mirrors conn₂ conn₁ :=
  ⟨h.exchanges₂, h.exchanges₁, h.recvKey.symm, h.recvNonce.symm, h.sendKey.symm, h.sendNonce.symm⟩

theorem Mirrors.count {conn₁ conn₂ : Conn} (h : Mirrors conn₁ conn₂) :
    Mirrors conn₁.countSent conn₂.countReceived :=
  ⟨⟨h.exchanges₁.state, h.exchanges₁.pqHandshakeDone⟩,
    ⟨h.exchanges₂.state, h.exchanges₂.pqHandshakeDone⟩, h.sendKey, congrArg (· + 1) h.sendNonce,
    h.recvKey, h.recvNonce⟩

section Meeting

variable {C : AeadCrypto} {now₁ now₂ : ℕ} {conn₁ conn₂ : Conn} {α γ : Type} {a : α} {c : γ}

theorem hsRecvCell_bind (C : AeadCrypto) (nowMs : ℕ) (conn : Conn)
    (k : Conn × Cell → Dialogue UInt8 γ) :
    hsRecvCell C nowMs conn >>= k = recv 2 fun header =>
      guard (16 ≤ frameLength header ∧ frameLength header ≤ 514 + 16) >>= fun _ =>
        recv (frameLength header) fun record =>
          lift (hsReadFrame C nowMs (header ++ record) conn) >>= k := by
  simp [hsRecvCell, bind_assoc]

variable {cell : Cell} {k₁ : Conn → Dialogue UInt8 α}

/-- A party that has sent a cell has made its record. -/
theorem meets_of_hsSendCell {d₂ : Dialogue UInt8 γ} (hconn : conn₁.Exchanges)
    (h : Meets (hsSendCell C now₁ cell conn₁ >>= k₁) d₂ a c) :
    ∃ record, conn₁.send.nonce ≠ Layer.uint64Max ∧
      cryptoAeadEncrypt C (cellPack cell).val [] conn₁.send.key conn₁.send.nonce = some record ∧
      Meets (send (wireFrame record) (k₁ conn₁.countSent)) d₂ a c := by
  by_cases hnonce : conn₁.send.nonce = Layer.uint64Max
  · rw [hsSendCell, Conn.sendCell, if_neg (not_not.mpr hconn.state), if_pos hnonce] at h
    exact h.not_fail.elim
  cases hrec : cryptoAeadEncrypt C (cellPack cell).val [] conn₁.send.key conn₁.send.nonce with
  | none =>
    have hkey : (linkRekeySendMaybeRotate C.toCrypto now₁ conn₁).send = conn₁.send := by
      rw [linkRekeySendMaybeRotate, hconn.pqHandshakeDone, LinkDirection.maybeRotate_false]
    rw [hsSendCell, Conn.sendCell, if_neg (not_not.mpr hconn.state), if_neg hnonce] at h
    simp only [hkey, encryptRecord, hrec] at h
    exact h.not_fail.elim
  | some record =>
    rw [hsSendCell_of_encrypt hconn hnonce hrec] at h
    exact ⟨record, hnonce, rfl, h⟩

theorem meets_cell {k₂ : Conn × Cell → Dialogue UInt8 γ} (hmirror : Mirrors conn₁ conn₂)
    (h : Meets (hsSendCell C now₁ cell conn₁ >>= k₁) (hsRecvCell C now₂ conn₂ >>= k₂) a c) :
    Meets (k₁ conn₁.countSent) (k₂ (conn₂.countReceived, cell)) a c := by
  obtain ⟨record, hnonce, hrec, h⟩ := meets_of_hsSendCell hmirror.exchanges₁ h
  have hlength := length_of_encrypt_cell hrec
  have hheader : frameLength (be16 (UInt16.ofNat record.length)) = record.length := by
    rw [frameLength, take_of_length_le (length_be16 _).le, be16, beDecode_beEncode, hlength]
    rfl
  have hread : hsReadFrame C now₂ (wireFrame record) conn₂ = _ :=
    hsReadFrame_of_decrypt hmirror.exchanges₂ (length_be16 _) (hheader.trans hlength) hlength
      (hmirror.sendNonce ▸ hnonce)
      (hmirror.sendKey ▸ hmirror.sendNonce ▸ cryptoAeadDecrypt_of_encrypt hrec)
  rw [hsRecvCell_bind] at h
  obtain ⟨-, h⟩ := (h.send_append.send_recv (length_be16 _)).symm.of_guard
  obtain ⟨⟨conn, received⟩, hread', h⟩ := (h.symm.send_recv hheader.symm).symm.of_lift
  obtain ⟨rfl, rfl⟩ := Prod.mk.inj (Option.some_inj.mp (hread.symm.trans hread'))
  rw [cellUnpack_cellPack] at h
  exact h.symm

/-- The part of a cell that is kept is the part of the bytes it was made from. -/
theorem take_payload_kemCell (bytes : Bytes) :
    (kemCell (bytes.take 509)).payload.val.take bytes.length = bytes.take 509 := by
  have hle : (bytes.take 509).length ≤ 509 := length_take_le 509 bytes
  rw [kemCell, Arr.val_ofList_of_le 0 hle]
  rcases Nat.lt_or_ge bytes.length 509 with hlt | hge
  · simp [take_of_length_le hlt.le]
  · rw [length_take_of_le hge, Nat.sub_self, replicate_zero, append_nil,
      take_take, Nat.min_eq_right hge]

/-- A key or a ciphertext that is sent in cells is received as it was sent. -/
theorem meets_kem {len : ℕ} {k₂ : Conn × Bytes → Dialogue UInt8 γ} :
    ∀ {rounds : ℕ} {bytes received : Bytes} {conn₁ conn₂ : Conn}, Mirrors conn₁ conn₂ →
      received.length + bytes.length = len → bytes.length ≤ rounds →
      Meets (hsSendKem C now₁ (chunks 509 bytes) conn₁ >>= k₁)
        (hsRecvKem C now₂ len rounds received conn₂ >>= k₂) a c →
      ∃ conn₁' conn₂', Mirrors conn₁' conn₂' ∧ conn₁'.peerIdentity = conn₁.peerIdentity ∧
        conn₂'.peerIdentity = conn₂.peerIdentity ∧
        Meets (k₁ conn₁') (k₂ (conn₂', received ++ bytes)) a c := by
  intro rounds
  -- a round takes at least one byte off what is to come
  induction rounds with
  | zero =>
    intro bytes received conn₁ conn₂ hmirror hlen hrounds h
    obtain rfl := eq_nil_of_length_eq_zero (Nat.le_zero.mp hrounds)
    exact ⟨conn₁, conn₂, hmirror, rfl, rfl, (append_nil received).symm ▸ h⟩
  | succ rounds ih =>
    intro bytes received conn₁ conn₂ hmirror hlen hrounds h
    by_cases hnil : bytes = []
    · subst hnil
      rw [chunks_nil (by decide), hsRecvKem, if_neg (by simp at hlen; omega)] at h
      exact ⟨conn₁, conn₂, hmirror, rfl, rfl, (append_nil received).symm ▸ h⟩
    have hpos := length_pos_of_ne_nil hnil
    rw [chunks_of_ne_nil (by decide) hnil, hsSendKem, hsRecvKem, if_pos (by omega),
      bind_assoc, bind_assoc] at h
    have h := meets_cell hmirror h
    rw [bind_assoc] at h
    obtain ⟨-, h⟩ := h.symm.of_guard
    have hspace : len - received.length = bytes.length := by omega
    rw [hspace, take_payload_kemCell] at h
    obtain ⟨conn₁', conn₂', hmirror', hpeer₁, hpeer₂, h⟩ := ih hmirror.count
      (by rw [length_append, length_take, length_drop]; omega)
      (by rw [length_drop]; omega) h.symm
    rw [append_assoc, take_append_drop] at h
    exact ⟨conn₁', conn₂', hmirror', hpeer₁, hpeer₂, h⟩

end Meeting

/-! ### The handshake agrees -/

/-- What the two ends of a link have in common when the handshake is over. -/
structure LinkAgreement (conn₁ conn₂ : Conn) : Prop where
  sendKey : conn₁.send.key = conn₂.recv.key
  sendNonce : conn₁.send.nonce = conn₂.recv.nonce
  recvKey : conn₁.recv.key = conn₂.send.key
  recvNonce : conn₁.recv.nonce = conn₂.send.nonce

theorem Mirrors.pqHandshakeFinish {C : Crypto} {conn₁ conn₂ : Conn} (h : Mirrors conn₁ conn₂)
    (now₁ now₂ : ℕ) (kemShared : Field 32) :
    LinkAgreement (pqHandshakeFinish C now₁ kemShared conn₁)
      (pqHandshakeFinish C now₂ kemShared conn₂) where
  sendKey := congrArg (fun key => (cryptoHkdf C key kemShared.val).1) h.sendKey
  sendNonce := h.sendNonce
  recvKey := congrArg (fun key => (cryptoHkdf C key kemShared.val).1) h.recvKey
  recvNonce := h.recvNonce

/-- The initiator and the responder that wait for the socket agree. The initiator has the identity
it started with, and the responder has the X25519 key of the initiator. -/
theorem linkHandshake_agreement {C : LinkCrypto}
    (hdh : ∀ a b, C.scalarmult a (C.base b) = C.scalarmult b (C.base a))
    {ours theirs : Identity} (hours : C.IsIdentity ours) (htheirs : C.IsIdentity theirs)
    {kem : KemKeyPair} (hkem : ∀ coins ct ss, C.kemEncapsulate kem.pk coins = some (ct, ss) →
      C.kemDecapsulate ct kem.sk = some ss)
    {now₁ now₂ : ℕ} {eI eR coins : Field 32} {start₁ start₂ conn₁ conn₂ : Conn}
    (hpeer : start₁.peerIdentity = theirs.pk)
    (h : Meets (linkHandshakeClientPq C now₁ ours eI kem start₁)
      (linkHandshakeServerPq C now₂ theirs eR coins start₂) conn₁ conn₂) :
    LinkAgreement conn₁ conn₂ ∧ conn₁.peerIdentity = theirs.pk ∧
      C.ed25519ToCurve25519Pk ours.pk = some conn₂.peerIdentity := by
  simp only [linkHandshakeClientPq, linkHandshakeServerPq, linkHandshakeClient,
    linkHandshakeServer, bind_assoc, get_bind, put_bind, pure_eq, done_bind, hpeer,
    send_bind, recv_bind] at h
  -- the Noise messages
  obtain ⟨⟨msg1, ourCurveSk, s⟩, hmsg1, h⟩ := h.of_lift
  obtain ⟨⟨msg2, initiatorCurvePk, ck⟩, hmsg2, h⟩ :=
    (h.send_recv (length_noiseMsg1 hmsg1)).symm.of_lift
  obtain ⟨hlength, hread, hinitiator⟩ := noise_agreement hdh hours htheirs hmsg1 hmsg2
  obtain ⟨ck', hck', h⟩ := (h.send_recv hlength).symm.of_lift
  obtain rfl := Option.some_inj.mp (hread.symm.trans hck')
  -- the public key in one direction, the ciphertext in the other
  have hmirror : Mirrors
      { start₁.setNoiseKeys (noiseSplit C.toCrypto true ck) with
        state := .opened, pqHandshakeDone := false }
      { { start₂ with peerIdentity := initiatorCurvePk }.setNoiseKeys
          (noiseSplit C.toCrypto false ck) with state := .opened, pqHandshakeDone := false } :=
    ⟨⟨rfl, rfl⟩, ⟨rfl, rfl⟩, rfl, rfl, rfl, rfl⟩
  obtain ⟨conn₁', conn₂', hmirror', hpeer₁, hpeer₂, h⟩ :=
    meets_kem hmirror (by rw [Arr.length_val]; rfl) (by rw [Arr.length_val]) h
  rw [nil_append, Arr.ofList_val] at h
  obtain ⟨⟨kemCt, kemShared⟩, hencaps, h⟩ := h.symm.of_lift
  obtain ⟨conn₂'', conn₁'', hmirror'', hpeer₂', hpeer₁', h⟩ :=
    meets_kem hmirror'.symm (by rw [Arr.length_val]; rfl) (by rw [Arr.length_val]) h
  rw [nil_append, Arr.ofList_val] at h
  obtain ⟨kemShared', hdecaps, h⟩ := h.symm.of_lift
  obtain rfl := Option.some_inj.mp ((hkem _ _ _ hencaps).symm.trans hdecaps)
  obtain rfl := h.eq_of_done
  obtain rfl := h.symm.eq_of_done
  refine ⟨hmirror''.symm.pqHandshakeFinish now₁ now₂ kemShared, ?_, ?_⟩
  · exact hpeer₁'.trans (hpeer₁.trans hpeer)
  · exact hinitiator.trans (congrArg some (hpeer₂'.trans hpeer₂).symm)

end Moor
