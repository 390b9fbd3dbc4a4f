import Moor.Circuit.Onion
import Moor.Lib.Run
import Moor.Lib.Socket
import Moor.Link.Keys

/-!
# Cells on a link

A connection encrypts each cell under the key and the counter of its direction and writes it to the
socket as one frame; what the socket does not take waits in the output queue. Either end moves to a
new key after a number of records or after some time, without telling the other end.
-/

namespace Moor

open Codec

/-- The state of a connection. -/
inductive ConnState
  | none
  | tcpConnecting
  | hsSending
  | hsReceiving
  | pqSending
  | pqReceiving
  | handshaking
  | opened
  | closing
  deriving DecidableEq

/-- One direction of a link: its key and counter, and the schedule of its keys. Counters that only
have to be compared are natural numbers. -/
structure LinkDirection where
  key : Field 32
  nonce : UInt64
  epoch : ℕ
  epochRecords : ℕ
  epochStartMs : ℕ
  chain : Field 32
  prevKey : Field 32
  prevValid : Bool
  deriving DecidableEq

/-- A connection. The output queue holds the rest of the frames the socket did not take, and
`writeOff` counts what is written of the first. -/
structure Conn where
  state : ConnState
  peerIdentity : Field 32
  transport : Bool
  pqHandshakeDone : Bool
  send : LinkDirection
  recv : LinkDirection
  recvBuf : Bytes
  outq : List Bytes
  writeOff : ℕ
  deriving DecidableEq

/-! ### The schedule of the keys -/

def moorLinkRekeyRecords : ℕ := 2 ^ 31
def moorLinkRekeyIntervalMs : ℕ := 30 * 60 * 1000

def cryptoLinkRekey (C : Crypto) (chainingKey : Field 32) (epoch : ℕ) : Field 32 :=
  hmacBlake2b C chainingKey
    (ascii "moor link rekey" ++ be64 (UInt64.ofNat epoch) ++ [1])

namespace LinkDirection

/-- The schedule starts with the current key. -/
def rekeyInit (nowMs : ℕ) (d : LinkDirection) : LinkDirection :=
  { d with
    epoch := 0
    epochRecords := 0
    epochStartMs := nowMs
    chain := d.key
    prevKey := Field.zero 32
    prevValid := false }

/-- The current epoch has lasted long enough. A clock that went back counts as no time. -/
def RotationDue (d : LinkDirection) (nowMs : ℕ) : Prop :=
  ¬(d.epochRecords < moorLinkRekeyRecords ∧ nowMs - d.epochStartMs < moorLinkRekeyIntervalMs)
  deriving Decidable

/-- Moves on to the next epoch, and keeps the key of the one before. -/
def rotate (C : Crypto) (nowMs : ℕ) (d : LinkDirection) : LinkDirection :=
  let nextEpoch := d.epoch + 1
  let nextKey := cryptoLinkRekey C d.chain nextEpoch
  { d with
    prevKey := d.key
    prevValid := true
    key := nextKey
    chain := nextKey
    epoch := nextEpoch
    epochRecords := 0
    epochStartMs := nowMs }

/-- Before a record is encrypted or decrypted: the next epoch, if it is due. There is no schedule
before the post-quantum handshake is done. -/
def maybeRotate (C : Crypto) (pqHandshakeDone : Bool) (nowMs : ℕ) (d : LinkDirection) :
    LinkDirection :=
  if pqHandshakeDone ∧ d.RotationDue nowMs then d.rotate C nowMs else d

end LinkDirection

variable (C : Crypto) (nowMs : ℕ)

def linkRekeyInit (conn : Conn) : Conn :=
  { conn with send := conn.send.rekeyInit nowMs, recv := conn.recv.rekeyInit nowMs }

def linkRekeySendMaybeRotate (conn : Conn) : Conn :=
  { conn with send := conn.send.maybeRotate C conn.pqHandshakeDone nowMs }

def linkRekeyRecvMaybeRotate (conn : Conn) : Conn :=
  { conn with recv := conn.recv.maybeRotate C conn.pqHandshakeDone nowMs }

/-- The end of the post-quantum handshake: both keys are replaced, the counters go on. -/
def pqHandshakeFinish (kemShared : Field 32) (conn : Conn) : Conn :=
  let keys := mixKemShared C ⟨conn.send.key, conn.recv.key⟩ kemShared
  let conn := { conn with
    send := { conn.send with key := keys.sendKey }
    recv := { conn.recv with key := keys.recvKey } }
  { linkRekeyInit nowMs conn with pqHandshakeDone := true, state := .opened }

/-! ### Sending -/

/-- A record on the wire, after its length. -/
def wireFrame (record : Bytes) : Bytes := be16 (UInt16.ofNat record.length) ++ record

/-- One use of a key: the epoch it was made in, and what was encrypted to what. -/
structure Sealed where
  key : Field 32
  nonce : UInt64
  epoch : ℕ
  plain : Bytes
  record : Bytes
  deriving DecidableEq

/-- What a call that encrypts does: the new state of the connection, the bytes the socket took, the
uses of the key, and whether the call succeeds. -/
structure SendEffect where
  conn : Conn
  written : Bytes
  sealed : List Sealed
  ok : Bool

/-- The key was used once, and the frame was offered to the socket. -/
def SendEffect.ofFrame (made : Sealed) (result : Conn × Bytes × Bool) : SendEffect :=
  ⟨result.1, result.2.1, [made], result.2.2⟩

/-- Encrypts a cell under the key of the sending direction, and counts the nonce as used. -/
def encryptRecord (C : AeadCrypto) (d : LinkDirection) (cell : Cell) :
    Option (LinkDirection × Sealed) :=
  let plain := (cellPack cell).val
  match cryptoAeadEncrypt C plain [] d.key d.nonce with
  | none => none
  | some record => some ({ d with nonce := d.nonce + 1 }, ⟨d.key, d.nonce, d.epoch, plain, record⟩)

def moorCellWireSize : ℕ := 532

variable (answers : List Socket.Answer) (room : Bool)

/-- Puts bytes into the output queue, unless there is no room for any more cells. -/
def queuePush (wireData : Bytes) (conn : Conn) : Option Conn :=
  if room then some { conn with outq := conn.outq ++ [wireData.take moorCellWireSize] } else none

/-- A transport takes a frame, or fails. -/
def transportSend : List Socket.Answer → Bool
  | .took _ :: _ => true
  | _ => false

/-- Offers a frame to the socket. A transport takes all of it or fails; on a raw connection the rest
is queued. -/
def sendFrame (wire : Bytes) (conn : Conn) : Conn × Bytes × Bool :=
  if conn.transport then
    if transportSend answers then (conn, wire, true) else ({ conn with state := .none }, [], false)
  else
    let offer := Socket.sendAll answers wire
    if offer.broken then ({ conn with state := .none }, offer.taken, false)
    else if offer.rest = [] then (conn, offer.taken, true)
    else
      match queuePush room offer.rest conn with
      | none => ({ conn with state := .none }, offer.taken, false)
      | some conn => (conn, offer.taken, true)

/-- Encrypts a cell and sends it. The nonce is used up whatever becomes of the frame. -/
def Conn.sendCell (C : AeadCrypto) (nowMs : ℕ) (answers : List Socket.Answer) (room : Bool)
    (cell : Cell) (conn : Conn) : SendEffect :=
  if conn.state ≠ .opened then ⟨conn, [], [], false⟩
  else if conn.send.nonce = Layer.uint64Max then ⟨{ conn with state := .none }, [], [], false⟩
  else
    let conn := linkRekeySendMaybeRotate C.toCrypto nowMs conn
    match encryptRecord C conn.send cell with
    | none => ⟨conn, [], [], false⟩
    | some (send, made) =>
      let conn := { conn with send := { send with epochRecords := send.epochRecords + 1 } }
      .ofFrame made (sendFrame answers room (wireFrame made.record) conn)

/-- Encrypts a cell to a frame that the caller sends. -/
def Conn.encryptCell (C : AeadCrypto) (nowMs : ℕ) (cell : Cell) (conn : Conn) : SendEffect :=
  if conn.state ≠ .opened then ⟨conn, [], [], false⟩
  else if conn.send.nonce = Layer.uint64Max then ⟨{ conn with state := .none }, [], [], false⟩
  else
    let conn := linkRekeySendMaybeRotate C.toCrypto nowMs conn
    match encryptRecord C conn.send cell with
    | none => ⟨conn, [], [], false⟩
    | some (send, made) =>
      ⟨{ conn with send := { send with epochRecords := send.epochRecords + 1 } }, [], [made], true⟩

/-- Encrypts a cell of the post-quantum handshake, before the connection is open. -/
def hsEncryptCellRaw (C : AeadCrypto) (cell : Cell) (conn : Conn) : SendEffect :=
  if conn.send.nonce = Layer.uint64Max then ⟨conn, [], [], false⟩
  else
    match encryptRecord C conn.send cell with
    | none => ⟨conn, [], [], false⟩
    | some (send, made) => ⟨{ conn with send := send }, [], [made], true⟩

/-- Writes from the output queue when the socket can be written to. -/
def queueFlush (conn : Conn) : Bytes × Conn :=
  let (written, queue) := Socket.Queue.flush answers ⟨conn.outq, conn.writeOff⟩
  (written, { conn with outq := queue.items, writeOff := queue.off })

/-! ### Receiving -/

/-- What a call that reads a cell returns. -/
inductive RecvResult
  | nothing
  | cell (cell : Cell)
  | error
  deriving DecidableEq

/-- The size of the receive buffer. -/
def recvBufSize : ℕ := 4096

/-- The length that stands before a record. -/
def frameLength (buf : Bytes) : ℕ := beDecode (buf.take 2)

/-- The buffer starts with a complete frame. -/
def HaveComplete (buf : Bytes) : Prop := 2 ≤ buf.length ∧ 2 + frameLength buf ≤ buf.length
  deriving Decidable

/-- How many bytes a call asks the socket for. -/
def recvSpace (buf : Bytes) : ℕ := if HaveComplete buf then 0 else recvBufSize - buf.length

/-- Decrypts the record at the front of the buffer with the current key, or the one before. -/
def decryptRecord (d : LinkDirection) (record : Bytes) : Option Bytes :=
  match cryptoAeadDecrypt C record d.key d.nonce with
  | some plain => some plain
  | none => if d.prevValid then cryptoAeadDecrypt C record d.prevKey d.nonce else none

/-- Takes a cell off the front of the receive buffer. -/
def recvFrame (conn : Conn) : Conn × RecvResult :=
  if conn.recvBuf.length < 2 then (conn, .nothing)
  else if frameLength conn.recvBuf < 16 ∨ 514 + 16 < frameLength conn.recvBuf then (conn, .error)
  else if conn.recvBuf.length < 2 + frameLength conn.recvBuf then (conn, .nothing)
  else if conn.recv.nonce = Layer.uint64Max then ({ conn with state := .none }, .error)
  else
    let ctLen := frameLength conn.recvBuf
    let conn := linkRekeyRecvMaybeRotate C nowMs conn
    match decryptRecord C conn.recv ((conn.recvBuf.drop 2).take ctLen) with
    | none => ({ conn with recvBuf := [] }, .error)
    | some plain =>
      ({ conn with
          recv := { conn.recv with
            nonce := conn.recv.nonce + 1
            epochRecords := conn.recv.epochRecords + 1 }
          recvBuf := conn.recvBuf.drop (2 + ctLen) },
        .cell (cellUnpack plain))

/-- Reads a cell. The socket is asked only when no frame is complete, and gives some bytes, or
nothing, or is at its end. -/
def Conn.recvCell (incoming : Option Bytes) (conn : Conn) : Conn × RecvResult :=
  if conn.state ≠ .opened then (conn, .error)
  else if recvSpace conn.recvBuf = 0 then recvFrame C nowMs conn
  else
    match incoming with
    | none => (conn, .error)
    | some [] => (conn, .nothing)
    | some bytes =>
      recvFrame C nowMs { conn with
        recvBuf := conn.recvBuf ++ bytes.take (recvSpace conn.recvBuf) }

/-- A call that is given no more bytes than it asks for, on an open connection. -/
theorem Conn.recvCell_of_length_le {C : Crypto} {nowMs : ℕ} {conn : Conn} {chunk : Bytes}
    (hopen : conn.state = .opened) (hlen : chunk.length ≤ recvSpace conn.recvBuf) :
    conn.recvCell C nowMs (some chunk) =
      if chunk = [] ∧ recvSpace conn.recvBuf ≠ 0 then (conn, .nothing)
      else recvFrame C nowMs { conn with recvBuf := conn.recvBuf ++ chunk } := by
  rw [Conn.recvCell.eq_def, if_neg (not_not.mpr hopen)]
  by_cases hspace : recvSpace conn.recvBuf = 0
  · rw [hspace] at hlen
    obtain rfl := List.eq_nil_of_length_eq_zero (Nat.le_zero.mp hlen)
    simp
  rw [if_neg hspace]
  cases chunk with
  | nil => rw [if_pos ⟨rfl, hspace⟩]
  | cons b bs =>
    rw [if_neg (fun h => absurd h.1 (by simp))]
    simp only [List.take_of_length_le hlen]

/-! ### Frames in the receive buffer -/

/-- The length of the record of a cell. -/
def cellRecordSize : ℕ := 514 + 16

theorem length_wireFrame (record : Bytes) : (wireFrame record).length = 2 + record.length := by
  simp [wireFrame]

section Frames

variable {buf rest record more : Bytes}

variable (hlen : record.length = cellRecordSize)
include hlen

theorem frameLength_wireFrame_append :
    frameLength (wireFrame record ++ more) = cellRecordSize := by
  rw [frameLength, wireFrame, List.append_assoc, List.take_left' (length_be16 _), hlen, be16,
    beDecode_beEncode]
  rfl

/-- What is read of a frame starts with its length. -/
theorem frameLength_of_append (h : buf ++ rest = wireFrame record ++ more) (htwo : 2 ≤ buf.length) :
    frameLength buf = cellRecordSize := by
  rw [← frameLength_wireFrame_append hlen, ← h, frameLength, frameLength,
    List.take_append_of_le_length htwo]

variable {C : Crypto} {nowMs : ℕ}

/-- A part of a frame is left in the buffer. -/
theorem recvFrame_of_lt (conn : Conn) (h : conn.recvBuf ++ rest = wireFrame record ++ more)
    (hlt : conn.recvBuf.length < 2 + cellRecordSize) :
    recvFrame C nowMs conn = (conn, .nothing) := by
  by_cases htwo : conn.recvBuf.length < 2
  · rw [recvFrame, if_pos htwo]
  · have hframe := frameLength_of_append hlen h (not_lt.mp htwo)
    rw [recvFrame, if_neg htwo, hframe, if_neg (by decide), if_pos hlt]

/-- A frame at the front of the buffer is decrypted and taken off. -/
theorem recvFrame_of_frame (conn : Conn) {plain : Bytes}
    (h : conn.recvBuf = wireFrame record ++ more) (hnonce : conn.recv.nonce ≠ Layer.uint64Max)
    (hplain : decryptRecord C (conn.recv.maybeRotate C conn.pqHandshakeDone nowMs) record
      = some plain) :
    let recv := conn.recv.maybeRotate C conn.pqHandshakeDone nowMs
    recvFrame C nowMs conn =
      ({ conn with
          recv := { recv with nonce := recv.nonce + 1, epochRecords := recv.epochRecords + 1 }
          recvBuf := more },
        .cell (cellUnpack plain)) := by
  have hframe : frameLength conn.recvBuf = cellRecordSize := by
    rw [h, frameLength_wireFrame_append hlen]
  have hlengthFrame : (wireFrame record).length = 2 + cellRecordSize := by
    rw [length_wireFrame, hlen]
  have hbuf : conn.recvBuf.length = 2 + cellRecordSize + more.length := by
    simp [h, hlengthFrame]
  have hrec : (conn.recvBuf.drop 2).take cellRecordSize = record := by
    simp [h, wireFrame, List.take_left' hlen]
  have hmore : conn.recvBuf.drop (2 + cellRecordSize) = more := by
    rw [h, List.drop_left' hlengthFrame]
  rw [recvFrame, if_neg (by omega), hframe, if_neg (by decide), if_neg (by omega), if_neg hnonce]
  simp only [linkRekeyRecvMaybeRotate, hrec, hplain, hmore]

end Frames

end Moor
