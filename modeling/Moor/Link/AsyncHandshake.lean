import Moor.Link.Handshake

/-!
# The initiator as a state machine

On a socket that does not wait, the initiator of the link handshake is a state machine: a callback
runs when the socket can be written to or read from, and takes up the message where it was left. It
has its own copy of the loops that send and receive cells. It implements the dialogue of the
initiator that waits, so under any cutting of the streams into writes and reads it agrees with a
responder in the same way.
-/

namespace Moor

open Codec Dialogue List Nat

/-- The state of a handshake that is under way. -/
structure HsState where
  noise : NoiseState
  eSk : Field 32
  ourCurveSk : Field 32
  msgBuf : Bytes
  msgExpected : ℕ
  msgOffset : ℕ
  phase : ℕ
  kemSk : Field 2400
  wireFrame : Bytes
  deriving DecidableEq

/-- A connection, with its handshake while there is one. -/
structure AsyncConn where
  conn : Conn
  hs : Option HsState

def noiseWiped : NoiseState := ⟨Field.zero 32, Field.zero 32, Field.zero 32⟩

/-- A handshake state with every byte zero. -/
def HsState.calloc : HsState :=
  ⟨noiseWiped, Field.zero 32, Field.zero 32, List.replicate 1184 0, 0, 0, 0, Field.zero 2400, []⟩

def hsAsyncFail (conn : Conn) : AsyncConn := ⟨{ conn with state := .none }, none⟩

section Handlers

variable (C : LinkCrypto)

variable (room : ℕ) (hs : HsState)

/-- Writes more of the first message; then the second is read. -/
def handleHsSending (conn : Conn) : Bytes × AsyncConn :=
  let n := min room (hs.msgExpected - hs.msgOffset)
  let written := (hs.msgBuf.drop hs.msgOffset).take n
  let hs := { hs with msgOffset := hs.msgOffset + n }
  if hs.msgOffset = hs.msgExpected then
    (written, ⟨{ conn with state := .hsReceiving },
      some { hs with msgOffset := 0, msgExpected := 48 }⟩)
  else (written, ⟨conn, some hs⟩)

/-- When the connection is there: makes the first message and starts to write it. -/
def handleTcpConnect (ours : Identity) (eSk : Field 32) (room : ℕ) (hs : HsState) (conn : Conn) :
    Bytes × AsyncConn :=
  match noiseMsg1 C ours conn.peerIdentity eSk with
  | none => ([], hsAsyncFail conn)
  | some (msg1, ourCurveSk, s) =>
    handleHsSending room
      { hs with
        noise := s
        eSk := eSk
        ourCurveSk := ourCurveSk
        msgBuf := memcpyAt 0 msg1 hs.msgBuf
        msgExpected := 80
        msgOffset := 0 }
      { conn with state := .hsSending }

/-- Makes the frame of the next part of the KEM public key. -/
def hsBuildKemCell (conn : Conn) : AsyncConn :=
  let off := hs.phase * 509
  let chunk := (hs.msgBuf.drop off).take (min (1184 - off) 509)
  let effect := hsEncryptCellRaw C.toAeadCrypto (kemCell chunk) conn
  match effect.sealed with
  | [made] =>
    let frame := wireFrame made.record
    ⟨{ effect.conn with state := .pqSending },
      some { hs with wireFrame := frame, msgOffset := 0, msgExpected := frame.length }⟩
  | _ => hsAsyncFail conn

/-- Reads more of the second message; when it is complete, makes the KEM key pair and starts to send
the public key. -/
def handleHsReceiving (kem : KemKeyPair) (available : Bytes) (hs : HsState) (conn : Conn) :
    ℕ × AsyncConn :=
  let n := min available.length (hs.msgExpected - hs.msgOffset)
  let hs := { hs with
    msgBuf := memcpyAt hs.msgOffset (available.take n) hs.msgBuf
    msgOffset := hs.msgOffset + n }
  if hs.msgOffset < hs.msgExpected then (n, ⟨conn, some hs⟩)
  else
    match noiseReadMsg2 C hs.eSk hs.ourCurveSk (hs.msgBuf.take 48) hs.noise with
    | none => (n, hsAsyncFail conn)
    | some ck =>
      (n, hsBuildKemCell C
        { hs with
          noise := noiseWiped
          eSk := Field.zero 32
          ourCurveSk := Field.zero 32
          msgBuf := memcpyAt 0 kem.pk.val hs.msgBuf
          kemSk := kem.sk
          phase := 0 }
        { conn.setNoiseKeys (noiseSplit C.toCrypto true ck) with pqHandshakeDone := false })

/-- Writes more of the current frame; then the next one is made, or the ciphertext is read. -/
def handlePqSending (conn : Conn) : Bytes × AsyncConn :=
  let n := min room (hs.msgExpected - hs.msgOffset)
  let written := (hs.wireFrame.drop hs.msgOffset).take n
  let hs := { hs with msgOffset := hs.msgOffset + n }
  if hs.msgOffset < hs.msgExpected then (written, ⟨conn, some hs⟩)
  else
    let hs := { hs with phase := hs.phase + 1 }
    let totalCells := (1184 + 509 - 1) / 509
    if hs.phase < totalCells then (written, hsBuildKemCell C hs conn)
    else
      (written, ⟨{ conn with state := .pqReceiving }, some { hs with phase := 0, msgOffset := 0 }⟩)

/-- Takes a cell off the front of the receive buffer, before the connection is open. -/
def hsDecryptCellRaw (conn : Conn) : Conn × RecvResult :=
  if conn.recvBuf.length < 2 then (conn, .nothing)
  else if frameLength conn.recvBuf ≠ 514 + 16 then (conn, .error)
  else if conn.recvBuf.length < 2 + frameLength conn.recvBuf then (conn, .nothing)
  else
    let ctLen := frameLength conn.recvBuf
    match cryptoAeadDecrypt C.toCrypto ((conn.recvBuf.drop 2).take ctLen) conn.recv.key
      conn.recv.nonce with
    | none => (conn, .error)
    | some plain =>
      ({ conn with
          recv := { conn.recv with nonce := conn.recv.nonce + 1 }
          recvBuf := conn.recvBuf.drop (2 + ctLen) },
        .cell (cellUnpack plain))

/-- Takes cells off the receive buffer while the ciphertext is not complete, and then ends the
handshake. Every cell has at least one byte of it, so its length is enough rounds. -/
def hsExtractCells (nowMs : ℕ) : ℕ → HsState → Conn → AsyncConn
  | 0, _, conn => hsAsyncFail conn
  | rounds + 1, hs, conn =>
    if hs.msgOffset < 1088 then
      match hsDecryptCellRaw C conn with
      | (conn, .error) => hsAsyncFail conn
      | (conn, .nothing) => ⟨conn, some hs⟩
      | (conn, .cell cell) =>
        if cell.command ≠ cellKemCtCmd then hsAsyncFail conn
        else
          let chunk := cell.payload.val.take (1088 - hs.msgOffset)
          hsExtractCells nowMs rounds
            { hs with
              msgBuf := memcpyAt hs.msgOffset chunk hs.msgBuf
              msgOffset := hs.msgOffset + chunk.length }
            conn
    else
      match C.kemDecapsulate (Arr.ofList 1088 0 hs.msgBuf) hs.kemSk with
      | none => hsAsyncFail conn
      | some kemShared => ⟨pqHandshakeFinish C.toCrypto nowMs kemShared conn, none⟩

/-- Reads what the receive buffer has room for, and takes up the cells. -/
def handlePqReceiving (nowMs : ℕ) (available : Bytes) (hs : HsState) (conn : Conn) :
    ℕ × AsyncConn :=
  let n := min available.length (recvBufSize - conn.recvBuf.length)
  (n, hsExtractCells C nowMs (1088 + 1) hs
    { conn with recvBuf := conn.recvBuf ++ available.take n })

end Handlers

variable (C : LinkCrypto) (nowMs : ℕ) (ours : Identity) (eSk : Field 32) (kem : KemKeyPair)

/-- The callback of the handshake when the socket can be written to. -/
def hsAsyncWritable (room : ℕ) (s : AsyncConn) : Bytes × AsyncConn :=
  match s.hs with
  | none => ([], s)
  | some hs =>
    match s.conn.state with
    | .tcpConnecting => handleTcpConnect C ours eSk room hs s.conn
    | .hsSending => handleHsSending room hs s.conn
    | .pqSending => handlePqSending C room hs s.conn
    | _ => ([], s)

/-- The callback of the handshake when the socket can be read from. -/
def hsAsyncReadable (available : Bytes) (s : AsyncConn) : ℕ × AsyncConn :=
  match s.hs with
  | none => (0, s)
  | some hs =>
    match s.conn.state with
    | .hsReceiving => handleHsReceiving C kem available hs s.conn
    | .pqReceiving => handlePqReceiving C nowMs available hs s.conn
    | _ => (0, s)

/-- The initiator that does not wait. What was read beyond the handshake stays in the receive buffer
for what follows. -/
def asyncInitiator (start : Conn) : Endpoint UInt8 Conn where
  State := AsyncConn
  init := ⟨start, some .calloc⟩
  write := hsAsyncWritable C ours eSk
  read := hsAsyncReadable C nowMs kem
  broken s := hsAsyncFail s.conn
  result s := if s.conn.state = .opened then some { s.conn with recvBuf := [] } else none

/-! ### It implements the dialogue -/

section

variable {off : ℕ} {buf : Bytes}

/-- The buffer up to the end of what was copied. -/
theorem take_memcpyAt (bytes : Bytes) (h : off ≤ buf.length) :
    (memcpyAt off bytes buf).take (off + bytes.length) = buf.take off ++ bytes := by
  rw [memcpyAt, take_left' (by rw [length_append, length_take_of_le h])]

theorem length_le_memcpyAt (bytes : Bytes) (h : off ≤ buf.length) :
    off + bytes.length ≤ (memcpyAt off bytes buf).length := by
  rw [memcpyAt, length_append, length_append, length_take_of_le h]
  exact le_add_right _ _

end

/-- What the initiator is given. -/
structure LinkClient where
  C : LinkCrypto
  nowMs : ℕ
  ours : Identity
  eSk : Field 32
  kem : KemKeyPair
  start : Conn

namespace LinkClient

variable (p : LinkClient)

/-- The handshake of the initiator that waits. -/
def dialogue : Dialogue UInt8 Conn :=
  linkHandshakeClientPq p.C p.nowMs p.ours p.eSk p.kem p.start

/-- Its end. -/
def finish (received : Conn × Bytes) : Dialogue UInt8 Conn := do
  let kemShared ← lift (p.C.kemDecapsulate (Arr.ofList 1088 0 received.2) p.kem.sk)
  return pqHandshakeFinish p.C.toCrypto p.nowMs kemShared received.1

/-- The handshake from the ciphertext on. -/
def recvKem (conn : Conn) : Dialogue UInt8 Conn :=
  hsRecvKem p.C.toAeadCrypto p.nowMs 1088 1088 [] conn >>= p.finish

/-- The handshake from the second message on. -/
def msg2 (ourCurveSk : Field 32) (s : NoiseState) : Dialogue UInt8 Conn :=
  recv 48 fun msg2 => lift (noiseReadMsg2 p.C p.eSk ourCurveSk msg2 s) >>= fun ck =>
    hsSendKem p.C.toAeadCrypto p.nowMs (chunks 509 p.kem.pk.val)
        { p.start.setNoiseKeys (noiseSplit p.C.toCrypto true ck) with
          state := .opened, pqHandshakeDone := false } >>= p.recvKem

theorem dialogue_eq :
    p.dialogue = lift (noiseMsg1 p.C p.ours p.start.peerIdentity p.eSk) >>= fun made =>
      send made.1 (p.msg2 made.2.1 made.2.2) := by
  simp only [dialogue, linkHandshakeClientPq, linkHandshakeClient, bind_assoc, put_bind, get_bind,
    recv_bind, pure_eq, done_bind, send_bind]
  rfl

end LinkClient

section Simulation

/-- A connection of the initiator that waits, and one of the state machine at the same point: they
differ in the state, in the counts of records, which start anew at the end, and in what is read
ahead. -/
def Alike (waiting conn : Conn) : Prop :=
  waiting = { conn with
    state := .opened
    pqHandshakeDone := false
    send := { conn.send with epochRecords := waiting.send.epochRecords }
    recv := { conn.recv with epochRecords := waiting.recv.epochRecords }
    recvBuf := [] }

variable {p : LinkClient} {waiting conn : Conn} {todo : Dialogue UInt8 Conn}
  {buf available received written : Bytes} {room rounds : ℕ} {hs : HsState} {s : AsyncConn}

section Alike

variable (h : Alike waiting conn)
include h

theorem Alike.exchanges : waiting.Exchanges := by
  rw [h]
  exact ⟨rfl, rfl⟩

theorem Alike.send : waiting.send.key = conn.send.key ∧ waiting.send.nonce = conn.send.nonce := by
  rw [h]
  exact ⟨rfl, rfl⟩

theorem Alike.recv : waiting.recv.key = conn.recv.key ∧ waiting.recv.nonce = conn.recv.nonce := by
  rw [h]
  exact ⟨rfl, rfl⟩

theorem Alike.pqHandshakeFinish (C : Crypto) (nowMs : ℕ) (kemShared : Field 32) :
    pqHandshakeFinish C nowMs kemShared waiting =
      { pqHandshakeFinish C nowMs kemShared conn with recvBuf := [] } := by
  rw [h]
  rfl

end Alike

/-- The machine sends the public key: the party that waits is at the same point. -/
structure LinkClient.SendsKem (p : LinkClient) (hs : HsState) (conn waiting : Conn) : Prop where
  alike : Alike waiting conn
  recv : conn.recv.nonce = 0 ∧ conn.recvBuf = []
  pk : hs.msgBuf.take 1184 = p.kem.pk.val
  sk : hs.kemSk = p.kem.sk
  phase : hs.phase < 3

/-- The machine receives the ciphertext, and the party that waits has so many rounds left. -/
structure LinkClient.RecvsKem (p : LinkClient) (hs : HsState) (conn waiting : Conn) (rounds : ℕ) :
    Prop where
  state : conn.state = .pqReceiving
  alike : Alike waiting conn
  nonce : conn.recv.nonce.toNat ≤ hs.msgOffset
  sk : hs.kemSk = p.kem.sk
  offset : hs.msgOffset ≤ 1088
  buf : hs.msgOffset ≤ hs.msgBuf.length
  rounds : 1088 ≤ hs.msgOffset + rounds

/-- The states of the machine stand for what is left of the dialogue of the initiator that waits. -/
inductive LinkClient.Stands (p : LinkClient) : AsyncConn → Dialogue UInt8 Conn → Bytes → Prop
  | failed {conn : Conn} {buf : Bytes} : p.Stands (hsAsyncFail conn) fail buf
  | connecting (hstate : p.start.state = .tcpConnecting) :
    p.Stands ⟨p.start, some .calloc⟩ p.dialogue []
  | hsSending {hs : HsState} (heSk : hs.eSk = p.eSk) (hexp : hs.msgExpected = 80)
      (hoffset : hs.msgOffset < 80) :
    p.Stands ⟨{ p.start with state := .hsSending }, some hs⟩
      (send ((hs.msgBuf.take 80).drop hs.msgOffset) (p.msg2 hs.ourCurveSk hs.noise)) []
  | hsReceiving {hs : HsState} (heSk : hs.eSk = p.eSk) (hexp : hs.msgExpected = 48)
      (hoffset : hs.msgOffset < 48) (hbuf : hs.msgOffset ≤ hs.msgBuf.length) :
    p.Stands ⟨{ p.start with state := .hsReceiving }, some hs⟩
      (p.msg2 hs.ourCurveSk hs.noise) (hs.msgBuf.take hs.msgOffset)
  | pqSending {hs : HsState} {conn waiting : Conn} (hstate : conn.state = .pqSending)
      (hkem : p.SendsKem hs conn waiting) (hexp : hs.msgExpected = hs.wireFrame.length)
      (hoffset : hs.msgOffset < hs.wireFrame.length) :
    p.Stands ⟨conn, some hs⟩
      (send (hs.wireFrame.drop hs.msgOffset)
        (hsSendKem p.C.toAeadCrypto p.nowMs (chunks 509 (p.kem.pk.val.drop ((hs.phase + 1) * 509)))
          waiting >>= p.recvKem)) []
  | pqReceiving {hs : HsState} {conn waiting : Conn} {rounds : ℕ}
      (hkem : p.RecvsKem hs conn waiting rounds) :
    p.Stands ⟨conn, some hs⟩
      (hsRecvKem p.C.toAeadCrypto p.nowMs 1088 rounds (hs.msgBuf.take hs.msgOffset) waiting >>=
        p.finish) conn.recvBuf
  | opened {conn : Conn} (hstate : conn.state = .opened) :
    p.Stands ⟨conn, none⟩ (done { conn with recvBuf := [] }) conn.recvBuf

/-- There is something left of the dialogue that the state of the machine stands for. -/
def LinkClient.Follows (p : LinkClient) (received written : Bytes) (s : AsyncConn) : Prop :=
  ∃ todo buf, Rest p.dialogue received written todo buf ∧ p.Stands s todo buf

theorem LinkClient.Follows.fail (h : Rest p.dialogue received written todo buf) (conn : Conn) :
    p.Follows received written (hsAsyncFail conn) :=
  ⟨Dialogue.fail, [], h.giveUp [], .failed⟩

theorem rest_write_take {d next : Dialogue UInt8 Conn} {message : Bytes} {off : ℕ}
    (h : Rest d received written (send (message.drop off) next) buf) (n : ℕ) :
    Rest d received (written ++ (message.drop off).take n) (send (message.drop (off + n)) next)
      buf := by
  rw [← take_append_drop n (message.drop off), drop_drop] at h
  exact h.write

theorem handleHsSending_follows (heSk : hs.eSk = p.eSk) (hexp : hs.msgExpected = 80)
    (hoffset : hs.msgOffset < 80)
    (h : Rest p.dialogue received written
      (send ((hs.msgBuf.take 80).drop hs.msgOffset) (p.msg2 hs.ourCurveSk hs.noise)) []) :
    p.Follows received
      (written ++ (handleHsSending room hs { p.start with state := .hsSending }).1)
      (handleHsSending room hs { p.start with state := .hsSending }).2 := by
  have hwritten : ((hs.msgBuf.take 80).drop hs.msgOffset).take
      (min room (hs.msgExpected - hs.msgOffset)) =
      (hs.msgBuf.drop hs.msgOffset).take (min room (hs.msgExpected - hs.msgOffset)) := by
    rw [drop_take, take_take, hexp]
    congr 1
    omega
  have h := rest_write_take h (min room (hs.msgExpected - hs.msgOffset))
  rw [hwritten] at h
  unfold handleHsSending
  dsimp only
  split
  · rename_i hdone
    have hempty : (hs.msgBuf.take 80).drop
        (hs.msgOffset + min room (hs.msgExpected - hs.msgOffset)) = [] := by
      rw [hdone, hexp, drop_of_length_le (length_take_le 80 _)]
    rw [hempty] at h
    exact ⟨_, _, h.sent, .hsReceiving heSk rfl (zero_lt_succ 47) (zero_le _)⟩
  · rename_i hmore
    refine ⟨_, _, h, .hsSending heSk hexp ?_⟩
    simp only [hexp] at hmore ⊢
    omega

/-- The next part of the public key. -/
theorem take_min_drop_eq {pk : Bytes} (h : buf.take 1184 = pk) (off : ℕ) :
    (buf.drop off).take (min (1184 - off) 509) = (pk.drop off).take 509 := by
  rw [← h, drop_take, take_take, min_comm]

theorem hsBuildKemCell_follows {rest : Bytes} (hkem : p.SendsKem hs conn waiting)
    (hrest : rest = p.kem.pk.val.drop (hs.phase * 509))
    (h : Rest p.dialogue received written
      (hsSendKem p.C.toAeadCrypto p.nowMs (chunks 509 rest) waiting >>= p.recvKem) []) :
    p.Follows received written (hsBuildKemCell p.C hs conn) := by
  subst hrest
  have hne : p.kem.pk.val.drop (hs.phase * 509) ≠ [] := by
    have hphase := hkem.phase
    rw [Ne, drop_eq_nil_iff, Arr.length_val]
    omega
  have hsend := hkem.alike.send
  rw [chunks_of_ne_nil (by decide) hne, hsSendKem, bind_assoc, drop_drop, ← succ_mul] at h
  unfold hsBuildKemCell hsEncryptCellRaw
  dsimp only
  rw [take_min_drop_eq hkem.pk]
  by_cases hnonce : conn.send.nonce = Layer.uint64Max
  · rw [if_pos hnonce]
    exact .fail h conn
  rw [if_neg hnonce, encryptRecord]
  cases hrec : cryptoAeadEncrypt p.C.toAeadCrypto (cellPack (kemCell
      ((p.kem.pk.val.drop (hs.phase * 509)).take 509))).val [] conn.send.key conn.send.nonce with
  | none => exact .fail h conn
  | some record =>
    rw [hsSendCell_of_encrypt hkem.alike.exchanges (hsend.2 ▸ hnonce)
      (hsend.1 ▸ hsend.2 ▸ hrec)] at h
    refine ⟨_, _, h, .pqSending rfl { hkem with alike := ?_ } rfl ?_⟩
    · rw [hkem.alike]
      rfl
    · change 0 < (wireFrame record).length
      rw [length_wireFrame]
      omega

theorem handleTcpConnect_follows (h : Rest p.dialogue received written p.dialogue []) :
    p.Follows received
      (written ++ (handleTcpConnect p.C p.ours p.eSk room .calloc p.start).1)
      (handleTcpConnect p.C p.ours p.eSk room .calloc p.start).2 := by
  unfold handleTcpConnect
  cases hmsg1 : noiseMsg1 p.C p.ours p.start.peerIdentity p.eSk with
  | none =>
    rw [show written ++ ([] : Bytes) = written from append_nil written]
    exact .fail h p.start
  | some made =>
    obtain ⟨msg1, ourCurveSk, s⟩ := made
    refine handleHsSending_follows rfl rfl (zero_lt_succ 79) ?_
    have hbuf : (memcpyAt 0 msg1 HsState.calloc.msgBuf).take 80 = msg1 := by
      rw [← length_noiseMsg1 hmsg1, ← zero_add msg1.length, take_memcpyAt _ (zero_le _)]
      rfl
    rw [p.dialogue_eq, hmsg1] at h ⊢
    rw [hbuf]
    exact h

theorem handleHsReceiving_follows (heSk : hs.eSk = p.eSk) (hexp : hs.msgExpected = 48)
    (hoffset : hs.msgOffset < 48) (hbuf : hs.msgOffset ≤ hs.msgBuf.length)
    (hstart : p.start.recvBuf = [])
    (h : Rest p.dialogue received written (p.msg2 hs.ourCurveSk hs.noise)
      (hs.msgBuf.take hs.msgOffset)) :
    let s := handleHsReceiving p.C p.kem available hs { p.start with state := .hsReceiving }
    p.Follows (received ++ available.take s.1) written s.2 := by
  unfold handleHsReceiving
  dsimp only
  generalize hn : min available.length (hs.msgExpected - hs.msgOffset) = n
  have hlen : (available.take n).length = n := length_take_of_le (by omega)
  have hcopied := take_memcpyAt (available.take n) hbuf
  have htotal := length_le_memcpyAt (available.take n) hbuf
  have h := h.read (available.take n)
  rw [← hcopied, hlen] at h
  rw [hlen] at htotal
  split
  · rename_i hmore
    exact ⟨_, _, h, .hsReceiving heSk hexp (hexp ▸ hmore) htotal⟩
  have hend : hs.msgOffset + n = 48 := by omega
  rw [hend] at h htotal
  rw [← append_nil (take 48 _), LinkClient.msg2] at h
  have h := h.use (length_take_of_le htotal)
  cases hread : noiseReadMsg2 p.C hs.eSk hs.ourCurveSk
      ((memcpyAt hs.msgOffset (available.take n) hs.msgBuf).take 48) hs.noise with
  | none => exact .fail h _
  | some ck =>
    rw [heSk] at hread
    rw [hread] at h
    have halike : Alike
        { p.start.setNoiseKeys (noiseSplit p.C.toCrypto true ck) with
          state := .opened, pqHandshakeDone := false }
        { Conn.setNoiseKeys (noiseSplit p.C.toCrypto true ck)
            { p.start with state := .hsReceiving } with pqHandshakeDone := false } := by
      simp [Alike, Conn.setNoiseKeys, hstart]
    refine hsBuildKemCell_follows ⟨halike, ⟨rfl, hstart⟩, ?_, rfl, zero_lt_succ 2⟩ (by simp) h
    have hpk := take_memcpyAt p.kem.pk.val
      (zero_le (memcpyAt hs.msgOffset (available.take n) hs.msgBuf).length)
    rw [Arr.length_val, zero_add] at hpk
    exact hpk

theorem handlePqSending_follows (hstate : conn.state = .pqSending)
    (hkem : p.SendsKem hs conn waiting) (hexp : hs.msgExpected = hs.wireFrame.length)
    (h : Rest p.dialogue received written
      (send (hs.wireFrame.drop hs.msgOffset)
        (hsSendKem p.C.toAeadCrypto p.nowMs (chunks 509 (p.kem.pk.val.drop ((hs.phase + 1) * 509)))
          waiting >>= p.recvKem)) []) :
    p.Follows received
      (written ++ (handlePqSending p.C room hs conn).1) (handlePqSending p.C room hs conn).2 := by
  unfold handlePqSending
  dsimp only
  generalize hn : min room (hs.msgExpected - hs.msgOffset) = n
  have h := rest_write_take h n
  split
  · rename_i hmore
    exact ⟨_, _, h, .pqSending hstate { hkem with } hexp (hexp ▸ hmore)⟩
  have hempty : hs.wireFrame.drop (hs.msgOffset + n) = [] := by
    rw [drop_of_length_le (by omega)]
  rw [hempty] at h
  split
  · rename_i hnext
    exact hsBuildKemCell_follows { hkem with phase := hnext } rfl h.sent
  have hnil : p.kem.pk.val.drop ((hs.phase + 1) * 509) = [] := by
    rw [drop_eq_nil_iff, Arr.length_val]
    omega
  have h := h.sent
  rw [hnil, chunks_nil (by decide)] at h
  refine ⟨_, conn.recvBuf, hkem.recv.2.symm ▸ h, .pqReceiving
    ⟨rfl, ?_, hkem.recv.1 ▸ zero_le _, hkem.sk, zero_le _, zero_le _, le_rfl⟩⟩
  rw [hkem.alike]
  rfl

/-- A frame that is complete in the buffer is read as the party that waits reads it. -/
theorem rest_hsRecvCell {d : Dialogue UInt8 Conn} {plain : Bytes}
    {k : Conn × Cell → Dialogue UInt8 Conn} (hconn : waiting.Exchanges)
    (hnonce : waiting.recv.nonce ≠ Layer.uint64Max) (hframe : frameLength buf = cellRecordSize)
    (hbuf : 2 + cellRecordSize ≤ buf.length)
    (hplain : cryptoAeadDecrypt p.C.toCrypto ((buf.drop 2).take cellRecordSize) waiting.recv.key
      waiting.recv.nonce = some plain)
    (h : Rest d received written (hsRecvCell p.C.toAeadCrypto p.nowMs waiting >>= k) buf) :
    Rest d received written (k (waiting.countReceived, cellUnpack plain))
      (buf.drop (2 + cellRecordSize)) := by
  have hheader : (buf.take 2).length = 2 := length_take_of_le (by omega)
  have hheader' : frameLength (buf.take 2) = cellRecordSize := by
    simp [← hframe, frameLength, take_take]
  have hlen : ((buf.drop 2).take cellRecordSize).length = cellRecordSize :=
    length_take_of_le (by rw [length_drop]; omega)
  rw [hsRecvCell_bind, ← take_append_drop 2 buf] at h
  have h := h.use hheader
  rw [hheader', Dialogue.guard, if_pos (by decide), done_bind,
    ← take_append_drop cellRecordSize (buf.drop 2), drop_drop] at h
  have h := h.use hlen
  rw [hsReadFrame_of_decrypt hconn hheader hheader' hlen hnonce hplain] at h
  exact h

/-- The party that waits has received enough. -/
theorem hsRecvKem_of_le (C : AeadCrypto) (nowMs : ℕ) {len : ℕ} {bytes : Bytes}
    (h : len ≤ bytes.length) (rounds : ℕ) (conn : Conn) :
    hsRecvKem C nowMs len rounds bytes conn = done (conn, bytes) := by
  cases rounds with
  | zero => rfl
  | succ rounds => rw [hsRecvKem, if_neg (not_lt.mpr h)]; rfl

/-- A call leaves the connection as it is, or takes a complete frame off the buffer. -/
theorem hsDecryptCellRaw_cases (C : LinkCrypto) (conn : Conn) :
    hsDecryptCellRaw C conn = (conn, .nothing) ∨ hsDecryptCellRaw C conn = (conn, .error) ∨
      ∃ plain, frameLength conn.recvBuf = cellRecordSize ∧
        2 + cellRecordSize ≤ conn.recvBuf.length ∧
        cryptoAeadDecrypt C.toCrypto ((conn.recvBuf.drop 2).take cellRecordSize) conn.recv.key
          conn.recv.nonce = some plain ∧
        hsDecryptCellRaw C conn =
          ({ conn with
              recv := { conn.recv with nonce := conn.recv.nonce + 1 }
              recvBuf := conn.recvBuf.drop (2 + cellRecordSize) },
            .cell (cellUnpack plain)) := by
  rw [hsDecryptCellRaw]
  split
  · exact .inl rfl
  split
  · exact .inr (.inl rfl)
  split
  · exact .inl rfl
  rename_i hframe hpart
  have hframe := not_not.mp hframe
  rw [hframe] at hpart ⊢
  cases hplain : cryptoAeadDecrypt C.toCrypto ((conn.recvBuf.drop 2).take (514 + 16))
      conn.recv.key conn.recv.nonce with
  | none =>
    right
    left
    simp only [hplain]
  | some plain =>
    refine .inr (.inr ⟨plain, rfl, not_lt.mp hpart, hplain, ?_⟩)
    simp only [hplain]
    rfl

theorem hsExtractCells_follows :
    ∀ {rounds' : ℕ} {hs : HsState} {conn waiting : Conn}, p.RecvsKem hs conn waiting rounds' →
      1088 < hs.msgOffset + rounds →
      Rest p.dialogue received written
        (hsRecvKem p.C.toAeadCrypto p.nowMs 1088 rounds' (hs.msgBuf.take hs.msgOffset) waiting >>=
          p.finish) conn.recvBuf →
      p.Follows received written (hsExtractCells p.C p.nowMs rounds hs conn) := by
  induction rounds with
  | zero => exact fun hkem hrounds => absurd hkem.offset (not_le.mpr hrounds)
  | succ rounds ih =>
    intro rounds' hs conn waiting hkem hrounds h
    have ⟨hstate, halike, hnonce, hsk, hoffset, hbuf, hrounds'⟩ := hkem
    have htaken : (hs.msgBuf.take hs.msgOffset).length = hs.msgOffset :=
      length_take_of_le hbuf
    rw [hsExtractCells]
    by_cases hmore : hs.msgOffset < 1088
    · rw [if_pos hmore]
      rcases hsDecryptCellRaw_cases p.C conn with heq | heq | ⟨plain, hframe, hpart, hplain, heq⟩
      · rw [heq]
        exact ⟨_, _, h, .pqReceiving hkem⟩
      · rw [heq]
        exact .fail h conn
      -- both parties have the whole frame, and read the same cell
      obtain ⟨rounds', rfl⟩ : ∃ k, rounds' = k + 1 := ⟨rounds' - 1, by omega⟩
      rw [hsRecvKem, htaken, if_pos hmore, Dialogue.bind_assoc] at h
      have hsmall : waiting.recv.nonce ≠ Layer.uint64Max := by
        intro hmax
        rw [halike.recv.2] at hmax
        rw [hmax] at hnonce
        exact absurd (hnonce.trans hoffset) (by decide)
      have h := rest_hsRecvCell halike.exchanges hsmall hframe hpart
        (halike.recv.1 ▸ halike.recv.2 ▸ hplain) h
      rw [Dialogue.bind_assoc] at h
      rw [heq]
      dsimp only
      split
      · exact .fail h _
      rename_i hcommand
      rw [Dialogue.guard, if_pos (not_not.mp hcommand), done_bind] at h
      dsimp only at h
      generalize hchunk : (cellUnpack plain).payload.val.take (1088 - hs.msgOffset) = chunk
        at h ⊢
      have hlen : chunk.length = min (1088 - hs.msgOffset) 509 := by
        simp [← hchunk]
      rw [← take_memcpyAt chunk hbuf] at h
      refine ih ⟨hstate, ?_, ?_, hsk, ?_, length_le_memcpyAt chunk hbuf, ?_⟩ ?_ h
      · rw [halike]
        rfl
      · calc (conn.recv.nonce + 1).toNat ≤ conn.recv.nonce.toNat + 1 := by
              exact mod_le _ _
          _ ≤ hs.msgOffset + chunk.length := by omega
      all_goals dsimp only
      all_goals omega
    · -- the ciphertext is complete
      have hend : hs.msgOffset = 1088 := by omega
      rw [if_neg hmore]
      rw [hsRecvKem_of_le _ _ (by rw [htaken, hend]), done_bind, LinkClient.finish, hend] at h
      have hct : (Arr.ofList 1088 0 (hs.msgBuf.take 1088) : Field 1088) =
          Arr.ofList 1088 0 hs.msgBuf :=
        Arr.ofList_eq_of_take_eq 0 (by rw [← hend, htaken]) (hend ▸ hbuf)
          (by simp)
      rw [hct] at h
      rw [hsk]
      cases hdecaps : p.C.kemDecapsulate (Arr.ofList 1088 0 hs.msgBuf) p.kem.sk with
      | none => exact .fail h conn
      | some kemShared =>
        rw [hdecaps] at h
        have h : Rest _ received written
          (done (pqHandshakeFinish p.C.toCrypto p.nowMs kemShared waiting)) conn.recvBuf := h
        rw [halike.pqHandshakeFinish] at h
        exact ⟨_, _, h, .opened rfl⟩

theorem hsAsyncWritable_follows (room : ℕ) (h : Rest p.dialogue received written todo buf)
    (hstands : p.Stands s todo buf) :
    p.Follows received (written ++ (hsAsyncWritable p.C p.ours p.eSk room s).1)
      (hsAsyncWritable p.C p.ours p.eSk room s).2 := by
  have hidle {w : Bytes × AsyncConn} (hw : w = ([], s)) :
      p.Follows received (written ++ w.1) w.2 := by
    rw [hw]
    exact ⟨todo, buf, (append_nil written).symm ▸ h, hstands⟩
  cases hstands with
  | failed | hsReceiving | opened => exact hidle rfl
  | connecting hstate =>
    simp only [hsAsyncWritable, hstate]
    exact handleTcpConnect_follows h
  | hsSending heSk hexp hoffset => exact handleHsSending_follows heSk hexp hoffset h
  | pqSending hstate hkem hexp =>
    simp only [hsAsyncWritable, hstate]
    exact handlePqSending_follows hstate hkem hexp h
  | pqReceiving hkem => exact hidle (by simp only [hsAsyncWritable, hkem.state])

theorem hsAsyncReadable_follows (hstart : p.start.recvBuf = []) (available : Bytes)
    (h : Rest p.dialogue received written todo buf) (hstands : p.Stands s todo buf) :
    p.Follows (received ++ available.take (hsAsyncReadable p.C p.nowMs p.kem available s).1) written
      (hsAsyncReadable p.C p.nowMs p.kem available s).2 := by
  have hidle {r : ℕ × AsyncConn} (hr : r = (0, s)) :
      p.Follows (received ++ available.take r.1) written r.2 := by
    rw [hr]
    exact ⟨todo, buf, (append_nil received).symm ▸ h, hstands⟩
  cases hstands with
  | failed | hsSending | opened => exact hidle rfl
  | connecting hstate | pqSending hstate => exact hidle (by simp only [hsAsyncReadable, hstate])
  | hsReceiving heSk hexp hoffset hbuf =>
    exact handleHsReceiving_follows heSk hexp hoffset hbuf hstart h
  | pqReceiving hkem =>
    simp only [hsAsyncReadable, hkem.state]
    exact hsExtractCells_follows { hkem with } (by omega) (h.read _)

/-- The state machine implements the dialogue of the initiator that waits. -/
theorem asyncInitiator_implements (hstate : p.start.state = .tcpConnecting)
    (hstart : p.start.recvBuf = []) :
    (asyncInitiator p.C p.nowMs p.ours p.eSk p.kem p.start).Implements p.dialogue p.Stands where
  init := ⟨_, _, .refl _, .connecting hstate⟩
  write room h hstands := hsAsyncWritable_follows room h hstands
  read available h hstands := hsAsyncReadable_follows hstart available h hstands
  broken _ := ⟨[], .failed⟩
  result := by
    intro s todo buf conn hstands h
    obtain ⟨hopen, h⟩ := Option.ite_none_right_eq_some.mp h
    cases h
    cases hstands with
    | failed | hsSending | hsReceiving => exact absurd hopen (by simp [hsAsyncFail])
    | connecting hstate | pqSending hstate =>
      exact absurd (hstate.symm.trans hopen) (by decide)
    | pqReceiving hkem => exact absurd (hkem.state.symm.trans hopen) (by decide)
    | opened hstate => rfl

end Simulation

/-! ### Any initiator and a responder -/

/-- The two initiators of the link handshake. -/
inductive LinkInitiator
  | blocking
  | async

/-- An initiator with a new connection to a party whose identity it knows. -/
def LinkInitiator.endpoint (C : LinkCrypto) (nowMs : ℕ) (ours : Identity) (eSk : Field 32)
    (kem : KemKeyPair) (transport : Bool) (peerIdentity : Field 32) :
    LinkInitiator → Endpoint UInt8 Conn
  | .blocking =>
    (linkHandshakeClientPq C nowMs ours eSk kem
      (.fresh .handshaking transport peerIdentity)).endpoint
  | .async =>
    asyncInitiator C nowMs ours eSk kem (.fresh .tcpConnecting transport peerIdentity)

/-- A responder with a new connection. -/
def linkResponder (C : LinkCrypto) (nowMs : ℕ) (theirs : Identity) (eSk coins : Field 32)
    (transport : Bool) : Endpoint UInt8 Conn :=
  (linkHandshakeServerPq C nowMs theirs eSk coins
    (.fresh .handshaking transport (Field.zero 32))).endpoint

/-- An initiator of either kind and a responder that both finish, however the streams between them
are cut into writes and reads, have each other's keys and counters. The initiator has recorded the
identity of the responder, and the responder the X25519 key of the identity of the initiator. -/
theorem link_handshake_agreement {C : LinkCrypto}
    (hdh : ∀ a b, C.scalarmult a (C.base b) = C.scalarmult b (C.base a))
    {ours theirs : Identity} (hours : C.IsIdentity ours) (htheirs : C.IsIdentity theirs)
    {kem : KemKeyPair} (hkem : ∀ coins ct ss, C.kemEncapsulate kem.pk coins = some (ct, ss) →
      C.kemDecapsulate ct kem.sk = some ss)
    (initiator : LinkInitiator) {now₁ now₂ : ℕ} {transport : Bool} {eI eR coins : Field 32}
    {actions : List (Joint.Action UInt8 ⊕ Joint.Action UInt8)}
    {s : Joint (initiator.endpoint C now₁ ours eI kem transport theirs.pk)
      (linkResponder C now₂ theirs eR coins transport)}
    (hrun : Run.run Joint.step (Joint.start _ _) actions = some s) {conn₁ conn₂ : Conn}
    (h₁ : (initiator.endpoint C now₁ ours eI kem transport theirs.pk).result s.left = some conn₁)
    (h₂ : (linkResponder C now₂ theirs eR coins transport).result s.right = some conn₂) :
    LinkAgreement conn₁ conn₂ ∧ conn₁.peerIdentity = theirs.pk ∧
      C.ed25519ToCurve25519Pk ours.pk = some conn₂.peerIdentity := by
  cases initiator with
  | blocking =>
    exact linkHandshake_agreement hdh hours htheirs hkem rfl
      (Joint.meets_of_run (endpoint_implements _) (endpoint_implements _) hrun h₁ h₂)
  | async =>
    exact linkHandshake_agreement hdh hours htheirs hkem rfl
      (Joint.meets_of_run (asyncInitiator_implements (p := ⟨C, now₁, ours, eI, kem, _⟩) rfl rfl)
        (endpoint_implements _) hrun h₁ h₂)

/-- The stand-ins for the primitives, with X25519 keys that differ from the Ed25519 keys. -/
def LinkCrypto.sample : LinkCrypto where
  toAeadCrypto := AeadCrypto.sample
  base sk := sk
  ed25519ToCurve25519Pk pk := some (Arr.ofList 32 0 (pk.val.map (· + 1)))
  ed25519ToCurve25519Sk sk := some (Arr.ofList 32 0 (sk.val.map (· + 1)))

/-- An identity of one repeated byte. -/
def sampleIdentity (b : UInt8) : Identity := ⟨Arr.replicate 32 b, Arr.replicate 64 b⟩

/-- The state machine is given the streams in pieces. -/
def sampleSchedule : List (Joint.Action UInt8 ⊕ Joint.Action UInt8) :=
  [.inl (.write 50), .inr (.read 20), .inl (.write 0), .inl (.write 100), .inr (.read 100),
    .inr (.write 30), .inl (.read 30), .inr (.write 30), .inl (.read 7), .inl (.read 11)] ++
  (List.replicate 6 (.inl (.write 300)) ++ List.replicate 8 (.inr (.read 200))) ++
  (List.replicate 3 (.inr (.write 532)) ++ [.inr (.later [1, 2, 3])] ++
    List.replicate 5 (.inl (.read 400)))

/-- The initiator and the responder with the stand-ins. -/
def sampleInitiator (initiator : LinkInitiator) : Endpoint UInt8 Conn :=
  initiator.endpoint .sample 0 (sampleIdentity 3) (Arr.replicate 32 5)
    ⟨Arr.replicate 1184 6, Arr.replicate 2400 7⟩ false (sampleIdentity 20).pk

def sampleResponder : Endpoint UInt8 Conn :=
  linkResponder .sample 0 (sampleIdentity 20) (Arr.replicate 32 8) (Arr.replicate 32 9) false

/-- The connections of the two ends after a run with the stand-ins, if both have finished. -/
def sampleConns {initiator : LinkInitiator}
    (s : Joint (sampleInitiator initiator) sampleResponder) : Option (Conn × Conn) := do
  let conn₁ ← (sampleInitiator initiator).result s.left
  let conn₂ ← sampleResponder.result s.right
  some (conn₁, conn₂)

theorem isIdentity_sample (b : UInt8) : LinkCrypto.sample.IsIdentity (sampleIdentity b) := by
  intro sk hsk
  cases hsk
  apply congrArg some
  simp [Arr.ofList, sampleIdentity, Arr.replicate, LinkCrypto.sample]

set_option maxRecDepth 8000 in
theorem link_handshake_agreement_sample :
    ∃ s conn₁ conn₂,
      Run.run Joint.step (Joint.start (sampleInitiator .async) sampleResponder) sampleSchedule =
        some s ∧
      sampleConns s = some (conn₁, conn₂) ∧ conn₁.send.nonce = 3 ∧
      LinkAgreement conn₁ conn₂ ∧ conn₁.peerIdentity = (sampleIdentity 20).pk ∧
      LinkCrypto.sample.ed25519ToCurve25519Pk (sampleIdentity 3).pk = some conn₂.peerIdentity := by
  obtain ⟨s, hrun, ⟨conn₁, conn₂⟩, hconns, hnonce⟩ : ∃ s, Run.run Joint.step
      (Joint.start (sampleInitiator .async) sampleResponder) sampleSchedule = some s ∧
      ∃ conns, sampleConns s = some conns ∧ conns.1.send.nonce = 3 := by
    decide +kernel
  obtain ⟨c₁, h₁, h⟩ := Option.bind_eq_some_iff.mp hconns
  obtain ⟨c₂, h₂, h⟩ := Option.bind_eq_some_iff.mp h
  obtain ⟨rfl, rfl⟩ := Prod.mk.inj (Option.some_inj.mp h)
  have hagreement := link_handshake_agreement scalarmult_comm_sample (isIdentity_sample 3)
    (isIdentity_sample 20) (kem_correct_sample _ _) .async hrun h₁ h₂
  exact ⟨s, c₁, c₂, hrun, hconns, hnonce, hagreement⟩

/-- The initiator that waits, on streams that are not cut. -/
def sampleBlockingSchedule : List (Joint.Action UInt8 ⊕ Joint.Action UInt8) :=
  [.inl (.write 80), .inr (.read 80), .inr (.write 48), .inl (.read 48)] ++
    List.replicate 3 (.inl (.write 532)) ++ [.inr (.read 1596)] ++
    List.replicate 3 (.inr (.write 532)) ++ [.inl (.read 1596)]

set_option maxRecDepth 8000 in
/-- Both parties are honest and finish, and the responder has not recorded the identity of the
initiator. -/
theorem responder_records_other_identity :
    (∀ a b, LinkCrypto.sample.scalarmult a (LinkCrypto.sample.base b) =
      LinkCrypto.sample.scalarmult b (LinkCrypto.sample.base a)) ∧
    LinkCrypto.sample.IsIdentity (sampleIdentity 3) ∧
    LinkCrypto.sample.IsIdentity (sampleIdentity 20) ∧
    ∃ s conn₁ conn₂,
      Run.run Joint.step (Joint.start (sampleInitiator .blocking) sampleResponder)
        sampleBlockingSchedule = some s ∧
      sampleConns s = some (conn₁, conn₂) ∧ conn₂.peerIdentity ≠ (sampleIdentity 3).pk := by
  refine ⟨scalarmult_comm_sample, isIdentity_sample 3, isIdentity_sample 20, ?_⟩
  obtain ⟨s, hrun, ⟨conn₁, conn₂⟩, hconns, hpeer⟩ : ∃ s, Run.run Joint.step
      (Joint.start (sampleInitiator .blocking) sampleResponder) sampleBlockingSchedule = some s ∧
      ∃ conns, sampleConns s = some conns ∧ conns.2.peerIdentity ≠ (sampleIdentity 3).pk := by
    decide +kernel
  exact ⟨s, conn₁, conn₂, hrun, hconns, hpeer⟩

end Moor
