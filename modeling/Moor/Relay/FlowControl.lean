import Moor.Circuit.FlowControl
import Moor.Link.Connection

/-!
# Flow control at the end of a circuit

The relay at the end of a circuit counts the cells of data from the client, and sends a SENDME for
every hundred. An exit writes the data to its targets, and sends what it reads from them to the
client as long as its own window lasts; it expects SENDMEs in turn. A rendezvous point sends the
cells on to the circuit that this one was joined to. The payloads here are those that the two ends
of the circuit see, stamped with their digests; the layers around them are left out.
-/

namespace Moor

open Codec

/-- A stream of the exit to a target. -/
structure ExitStream where
  streamId : UInt16
  /-- The socket of the target is open. -/
  targetOpen : Bool
  connected : Bool
  packageWindow : ℤ
  deliverWindow : ℤ
  xoffSent : Bool

/-- The fields of a relay's circuit that flow control uses. -/
structure EndCircuit where
  relayForwardDigest : Field 32
  relayBackwardDigest : Field 32
  streams : List ExitStream
  circPackageWindow : ℤ
  circDeliverWindow : ℤ
  sendmeAuthExpected : RingBuffer AuthDigest moorSendmeAuthMax
  sendmeAuthCellsSent : ℤ
  /-- The state of the connection towards the client, if there is one. -/
  prevConn : Option ConnState

/-- What the handling of a cell meets: whether the queue towards the client takes a cell for a
stream, what the target's socket answers, and what the buffer of a relay cell holds beyond the data.
-/
structure EndEnv where
  queue : UInt8 → UInt16 → Bool
  answers : List Socket.Answer
  stale : Bytes

namespace EndCircuit

/-- A circuit before the first cell of data. -/
def init (relayForwardDigest relayBackwardDigest : Field 32) : EndCircuit where
  relayForwardDigest := relayForwardDigest
  relayBackwardDigest := relayBackwardDigest
  streams := []
  circPackageWindow := moorCircuitWindow
  circDeliverWindow := moorCircuitWindow
  sendmeAuthExpected := RingBuffer.empty (Field.zero 20)
  sendmeAuthCellsSent := 0
  prevConn := some .opened

variable (C : Crypto) (env : EndEnv) (streamId : UInt16) (circ : EndCircuit)

def findStream : Option ExitStream :=
  if streamId = 0 then none else circ.streams.find? fun stream => stream.streamId == streamId

def modifyStream (change : ExitStream → ExitStream) (circ : EndCircuit) : EndCircuit :=
  { circ with
    streams := circ.streams.replaceF fun stream =>
      if stream.streamId = streamId ∧ streamId ≠ 0 then some (change stream) else none }

/-- Stamps a cell for the client and queues it. The digest advances whether the queue takes it or
not. -/
def queueRelay (relayCmd : UInt8) (streamId : UInt16) (data : Bytes) (circ : EndCircuit) :
    EndCircuit × List Payload :=
  let (payload, digest) :=
    relaySetDigest C (cellRelay relayCmd streamId data) circ.relayBackwardDigest
  ({ circ with relayBackwardDigest := digest },
    if env.queue relayCmd streamId then [payload] else [])

/-! ### Data from the client -/

/-- The SENDME for the circuit, with the digest of the last cell from the client. -/
def circuitSendme : EndCircuit × List Payload :=
  if circ.circDeliverWindow ≤ moorCircuitWindow - moorSendmeIncrement then
    let (circ, out) :=
      circ.queueRelay C env relaySendme 0 (authDigest circ.relayForwardDigest).val
    (if env.queue relaySendme 0 then
      { circ with circDeliverWindow := circ.circDeliverWindow + moorSendmeIncrement }
      else circ, out)
  else (circ, [])

def streamSendme : EndCircuit × List Payload :=
  match circ.findStream streamId with
  | none => (circ, [])
  | some stream =>
    if stream.deliverWindow ≤ moorStreamWindow - moorSendmeIncrement then
      let (circ, out) := circ.queueRelay C env relaySendme streamId []
      (if env.queue relaySendme streamId then
        circ.modifyStream streamId fun stream =>
          { stream with deliverWindow := stream.deliverWindow + moorSendmeIncrement }
        else circ, out)
    else (circ, [])

/-- What every cell of data that was counted ends with. -/
def sendmeCheck : EndCircuit × List Payload :=
  if circ.prevConn ≠ some .opened then (circ, [])
  else if circ.circDeliverWindow ≤ moorCircuitWindow - moorSendmeIncrement ∧
      moorCircuitWindow < circ.circDeliverWindow + moorSendmeIncrement then (circ, [])
  else
    let (circ, out) := circ.circuitSendme C env
    let (circ, out') := circ.streamSendme C env streamId
    (circ, out ++ out')

/-- Counts a cell for the circuit and for its stream. -/
def countData : EndCircuit :=
  { circ with circDeliverWindow := circ.circDeliverWindow - 1 }.modifyStream streamId fun stream =>
    { stream with deliverWindow := stream.deliverWindow - 1 }

/-- The same for a cell that comes when a window is used up: the windows have a floor. -/
def countExcess : EndCircuit :=
  modifyStream streamId
    (fun stream => { stream with
      deliverWindow :=
        if -moorStreamWindow < stream.deliverWindow then stream.deliverWindow - 1
        else stream.deliverWindow })
    { circ with
      circDeliverWindow :=
        if -moorCircuitWindow < circ.circDeliverWindow then circ.circDeliverWindow - 1
        else circ.circDeliverWindow }

end EndCircuit

/-- What became of the data for a target. -/
inductive StreamFwd
  | ok
  | eagain
  | error
  deriving DecidableEq

/-- Writes to a target until all is written or the socket refuses; returns how much was written.
A socket that takes nothing without an error ends it as well. -/
def streamForwardToTarget : List Socket.Answer → ℕ → StreamFwd × ℕ
  | _, 0 => (.ok, 0)
  | [], _ + 1 => (.eagain, 0)
  | .again :: _, _ + 1 => (.eagain, 0)
  | .failed :: _, _ + 1 => (.error, 0)
  | .took k :: answers, n + 1 =>
    if k = 0 then (.ok, 0)
    else
      let (fwd, total) := streamForwardToTarget answers (n + 1 - k)
      (fwd, min k (n + 1) + total)

namespace EndCircuit

variable (C : Crypto) (env : EndEnv) (streamId : UInt16) (data : Bytes) (circ : EndCircuit)

/-- The socket of a target broke: the stream is closed, and the client is told. The cell is not
counted. -/
def closeTarget : EndCircuit × List Payload :=
  let (circ, out) :=
    if circ.prevConn.isSome then circ.queueRelay C env relayEnd streamId [] else (circ, [])
  (circ.modifyStream streamId fun stream => { stream with targetOpen := false, streamId := 0 }, out)

/-- The buffers of a target are full: the client is told to pause. -/
def sendXoff : EndCircuit × List Payload :=
  let (circ, out) := circ.queueRelay C env relayXoff streamId []
  (if env.queue relayXoff streamId then
    circ.modifyStream streamId fun stream => { stream with xoffSent := true } else circ, out)

/-- The buffers of a target have drained. -/
def sendXon : EndCircuit × List Payload :=
  let (circ, out) := circ.queueRelay C env relayXon streamId []
  (if env.queue relayXon streamId then
    circ.modifyStream streamId fun stream => { stream with xoffSent := false } else circ, out)

/-- A pause was asked for on a stream. -/
def xoffSent : Bool :=
  (circ.findStream streamId).any ExitStream.xoffSent

/-- Asks for a pause when the target did not take all. -/
def pauseStream (fwd : StreamFwd) (circ : EndCircuit) : EndCircuit × List Payload :=
  if fwd = .eagain ∧ !circ.xoffSent streamId ∧ circ.prevConn.isSome then
    circ.sendXoff C env streamId
  else (circ, [])

/-- Ends the pause when the target has taken all of the data. -/
def resumeStream (totalSent dataLength : ℕ) (circ : EndCircuit) : EndCircuit × List Payload :=
  if totalSent ≠ 0 ∧ circ.xoffSent streamId ∧ dataLength ≤ totalSent ∧ circ.prevConn.isSome then
    circ.sendXon C env streamId
  else (circ, [])

/-- Data for an open target, while both windows last. -/
def writeData : EndCircuit × List Payload :=
  let (fwd, totalSent) := streamForwardToTarget env.answers data.length
  if fwd = .error then circ.closeTarget C env streamId
  else
    let (circ, out) := circ.pauseStream C env streamId fwd
    let (circ, out') := circ.resumeStream C env streamId totalSent data.length
    let (circ, out'') := (circ.countData streamId).sendmeCheck C env streamId
    (circ, out ++ out' ++ out'')

/-- A cell of data from the client. -/
def handleData : EndCircuit × List Payload :=
  match circ.findStream streamId with
  | none =>
    sendmeCheck C env streamId { circ with circDeliverWindow := circ.circDeliverWindow - 1 }
  | some stream =>
    if !stream.targetOpen then
      sendmeCheck C env streamId { circ with circDeliverWindow := circ.circDeliverWindow - 1 }
    else if !stream.connected then (circ.countData streamId).sendmeCheck C env streamId
    else if circ.circDeliverWindow ≤ 0 ∨ stream.deliverWindow ≤ 0 then
      (circ.countExcess streamId).sendmeCheck C env streamId
    else circ.writeData C env streamId data

/-! ### SENDMEs from the client -/

/-- The window of the circuit grows, unless it is too large already. -/
def refill : EndCircuit :=
  if moorCircuitWindow < circ.circPackageWindow then circ
  else { circ with circPackageWindow := circ.circPackageWindow + moorSendmeIncrement }

/-- Handles a SENDME. One for the circuit has to carry the oldest digest that was recorded, if there
is one; the comparison reads twenty bytes of the buffer, also when there is less data. -/
def handleSendme : EndCircuit :=
  if streamId = 0 then
    if 0 < circ.sendmeAuthExpected.count then
      if data.length < 8 then circ
      else if Arr.ofList 20 0 (data ++ env.stale) ≠ circ.sendmeAuthExpected.oldest then circ
      else refill { circ with sendmeAuthExpected := circ.sendmeAuthExpected.pop }
    else circ.refill
  else
    match circ.findStream streamId with
    | none => circ
    | some stream =>
      if moorStreamWindow < stream.packageWindow then circ
      else circ.modifyStream streamId fun stream =>
        { stream with packageWindow := stream.packageWindow + moorSendmeIncrement }

/-- What an exit does with a cell from the client. Cells of other kinds leave the windows alone;
what they do to the streams is a step of its own. -/
def dispatch (relay : RelayPayload) (circ : EndCircuit) : EndCircuit × List Payload :=
  if relay.relayCommand = relayData then circ.handleData C env relay.streamId relay.data
  else if relay.relayCommand = relaySendme then
    (circ.handleSendme env relay.streamId relay.data, [])
  else (circ, [])

/-- Checks whether a cell from the client, of which the relay has removed its layer, is for this
relay; if so, the digest advances. -/
def recognise (payload : Payload) (circ : EndCircuit) : Option EndCircuit :=
  if (relayUnpack payload).recognized = 0 then
    (relayCheckDigest C payload circ.relayForwardDigest).map fun digest =>
      { circ with relayForwardDigest := digest }
  else none

/-- A cell from the client. -/
def handleRelay (payload : Payload) (circ : EndCircuit) : EndCircuit × List Payload :=
  match circ.recognise C payload with
  | none => (circ, [])
  | some circ => circ.dispatch C env (relayUnpack payload)

/-! ### Data from the targets -/

/-- What the exit reads from a target. -/
inductive TargetRead
  | again
  | closed
  | data (bytes : Bytes)

/-- Counts a cell that was sent. Every hundred cells the digest is recorded, if there is room. -/
def recordCell : EndCircuit :=
  if moorSendmeIncrement ≤ circ.sendmeAuthCellsSent + 1 then
    { circ with
      sendmeAuthCellsSent := 0
      sendmeAuthExpected := circ.sendmeAuthExpected.push (authDigest circ.relayBackwardDigest) }
  else { circ with sendmeAuthCellsSent := circ.sendmeAuthCellsSent + 1 }

/-- Sends what was read as a cell of data. The windows are less even if the connection is gone. -/
def packageData (bytes : Bytes) (circ : EndCircuit) : EndCircuit × List Payload :=
  let circ := { circ with circPackageWindow := circ.circPackageWindow - 1 }.modifyStream streamId
    fun stream => { stream with packageWindow := stream.packageWindow - 1 }
  if circ.prevConn ≠ some .opened then (circ, [])
  else
    let (circ, out) := circ.queueRelay C env relayData streamId bytes
    (circ.recordCell, out)

/-- A target can be read from. Without a window it is not read. -/
def exitTargetRead (target : TargetRead) (circ : EndCircuit) : EndCircuit × List Payload :=
  match circ.findStream streamId with
  | none => (circ, [])
  | some stream =>
    if stream.packageWindow ≤ 0 ∨ circ.circPackageWindow ≤ 0 then (circ, [])
    else
      match target with
      | .again => (circ, [])
      | .closed =>
        if circ.prevConn = some .opened then
          let (circ, out) := circ.queueRelay C env relayEnd streamId []
          (circ.modifyStream streamId fun stream =>
            { stream with targetOpen := false, streamId := 0 }, out)
        else (circ, [])
      | .data bytes => circ.packageData C env streamId bytes

/-- What can happen to the end of a circuit. The streams change when they are opened, connected or
closed. -/
inductive Event
  | cell (env : EndEnv) (payload : Payload)
  | read (env : EndEnv) (streamId : UInt16) (target : TargetRead)
  | queue (env : EndEnv) (relayCmd : UInt8) (streamId : UInt16) (data : Bytes)
  | streams (streams : List ExitStream)

/-- One event, with the cells that are queued towards the client. -/
def step : Event → EndCircuit × List Payload
  | .cell env payload => circ.handleRelay C env payload
  | .read env streamId target => circ.exitTargetRead C env streamId target
  | .queue env relayCmd streamId data => circ.queueRelay C env relayCmd streamId data
  | .streams streams => ({ circ with streams := streams }, [])

/-! ### Rules for data from the client -/

section

variable {R : EndCircuit → EndCircuit × List Payload → Prop} {C : Crypto} {env : EndEnv}
  {circ : EndCircuit}

/-- A stream that is changed stays what it is or is freed. -/
def KeepsOrFrees (change : ExitStream → ExitStream) : Prop :=
  ∀ stream, ((change stream).streamId, (change stream).targetOpen, (change stream).connected)
    = (stream.streamId, stream.targetOpen, stream.connected) ∨ (change stream).streamId = 0

/-- What holds of the calls for a stream, since it holds of the cells that they queue and of the
changes of a stream that they make. -/
structure StreamRule (R : EndCircuit → EndCircuit × List Payload → Prop) : Prop where
  refl : ∀ circ, R circ (circ, [])
  trans : ∀ {circ r r'}, R circ r → R r.1 r' → R circ (r'.1, r.2 ++ r'.2)
  modify : ∀ {circ : EndCircuit} (streamId : UInt16) {change : ExitStream → ExitStream},
    KeepsOrFrees change → R circ (circ.modifyStream streamId change, [])
  queue : ∀ {C env} {circ : EndCircuit} {relayCmd : UInt8} {streamId : UInt16} {data : Bytes},
    relayCmd ≠ relayData → relayCmd ≠ relaySendme ∨ streamId ≠ 0 →
    R circ (circ.queueRelay C env relayCmd streamId data)

namespace StreamRule

variable (h : StreamRule R)
include h

/-- A call and then a change without cells. -/
theorem andThen {r : EndCircuit × List Payload} {circ' : EndCircuit} (h₁ : R circ r)
    (h₂ : R r.1 (circ', [])) : R circ (circ', r.2) := by
  have := h.trans h₁ h₂
  rwa [List.append_nil] at this

/-- A cell, and a change of the stream if the queue takes it. -/
theorem queueModify {relayCmd : UInt8} {streamId : UInt16} (data : Bytes)
    {change : ExitStream → ExitStream} (hdata : relayCmd ≠ relayData)
    (hother : relayCmd ≠ relaySendme ∨ streamId ≠ 0) (hchange : KeepsOrFrees change) :
    R circ (if env.queue relayCmd streamId then
        (circ.queueRelay C env relayCmd streamId data).1.modifyStream streamId change
      else (circ.queueRelay C env relayCmd streamId data).1,
      (circ.queueRelay C env relayCmd streamId data).2) := by
  split
  · exact h.andThen (h.queue hdata hother) (h.modify streamId hchange)
  · exact h.queue hdata hother

/-- No stream has the id zero, so that a SENDME for a stream is none for the circuit. -/
theorem streamSendme (streamId : UInt16) : R circ (circ.streamSendme C env streamId) := by
  rw [EndCircuit.streamSendme]
  cases hfind : circ.findStream streamId with
  | none => exact h.refl circ
  | some stream =>
    have hstream : streamId ≠ 0 := by
      rintro rfl
      simp [findStream] at hfind
    dsimp only
    split
    · exact h.queueModify [] (by decide) (.inr hstream) fun _ => .inl rfl
    · exact h.refl circ

theorem pauseStream (C : Crypto) (env : EndEnv) (circ : EndCircuit) (streamId : UInt16)
    (fwd : StreamFwd) : R circ (circ.pauseStream C env streamId fwd) := by
  rw [EndCircuit.pauseStream]
  split
  · exact h.queueModify [] (by decide) (.inl (by decide)) fun _ => .inl rfl
  · exact h.refl circ

theorem resumeStream (streamId : UInt16) (totalSent dataLength : ℕ) :
    R circ (circ.resumeStream C env streamId totalSent dataLength) := by
  rw [EndCircuit.resumeStream]
  split
  · exact h.queueModify [] (by decide) (.inl (by decide)) fun _ => .inl rfl
  · exact h.refl circ

theorem closeTarget (streamId : UInt16) : R circ (circ.closeTarget C env streamId) := by
  have hend : R circ (if circ.prevConn.isSome then circ.queueRelay C env relayEnd streamId []
      else (circ, [])) := by
    split
    · exact h.queue (by decide) (.inl (by decide))
    · exact h.refl circ
  exact h.andThen hend (h.modify streamId fun _ => .inr rfl)

end StreamRule

/-- What also holds of the count of the cells and of the SENDMEs for the circuit. -/
structure DataRule (R : EndCircuit → EndCircuit × List Payload → Prop) : Prop
    extends StreamRule R where
  window : ∀ {circ : EndCircuit} (window : ℤ),
    R circ ({ circ with circDeliverWindow := window }, [])
  sendme : ∀ {C env} {circ : EndCircuit} (data : Bytes),
    R circ (circ.queueRelay C env relaySendme 0 data)

namespace DataRule

variable (h : DataRule R)
include h

theorem circuitSendme : R circ (circ.circuitSendme C env) := by
  rw [EndCircuit.circuitSendme]
  split
  · dsimp only
    split
    · exact h.andThen (h.sendme _) (h.window _)
    · exact h.sendme _
  · exact h.refl circ

theorem sendmeCheck (streamId : UInt16) : R circ (circ.sendmeCheck C env streamId) := by
  rw [EndCircuit.sendmeCheck]
  split
  · exact h.refl circ
  split
  · exact h.refl circ
  · exact h.trans h.circuitSendme (h.streamSendme streamId)

/-- What holds of every call for data from the client. -/
theorem handleData (streamId : UInt16) (data : Bytes) :
    R circ (circ.handleData C env streamId data) := by
  have hcount (circ : EndCircuit) : R circ (circ.countData streamId, []) :=
    h.andThen (h.window _) (h.modify streamId fun _ => .inl rfl)
  have hexcess : R circ (circ.countExcess streamId, []) :=
    h.andThen (h.window _) (h.modify streamId fun _ => .inl rfl)
  rw [EndCircuit.handleData]
  split
  · exact h.trans (h.window _) (h.sendmeCheck streamId)
  split
  · exact h.trans (h.window _) (h.sendmeCheck streamId)
  split
  · exact h.trans (hcount circ) (h.sendmeCheck streamId)
  split
  · exact h.trans hexcess (h.sendmeCheck streamId)
  rw [writeData]
  dsimp only
  split
  · exact h.closeTarget streamId
  · exact h.trans (h.andThen (h.trans (h.pauseStream C env circ streamId _)
      (h.resumeStream streamId _ _)) (hcount _)) (h.sendmeCheck streamId)

end DataRule

end

end EndCircuit

end Moor
