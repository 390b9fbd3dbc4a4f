import Moor.Relay.FlowControl

/-!
# The streams of an exit

An exit connects a stream to its target when the client asks for it, writes the data of the client
to the target and reads from the target when the event loop says that it can be read from. The event
loop watches a socket only while it is registered. The client may ask for a pause (XOFF) and end it
(XON); the registration is removed for the pause, and also while a window is used up.

A pause holds as long as no SENDME comes, and the target gets the data in order as long as its
socket takes every cell whole.
-/

namespace Moor

open Codec List Option EndCircuit Function

def relayConnected : UInt8 := 4
def moorMaxStreams : ℕ := 64

/-- What the event loop waits for on the socket of a target. -/
inductive Watch
  | connect
  | read
  deriving DecidableEq

/-- The streams of an exit: its circuit, the pauses the client asked for, and the registered
sockets. The last three fields are a record: the cells queued towards the client and, since a stream
was connected, the data that came for it and what its target took. -/
structure Exit where
  circ : EndCircuit
  xoffRecv : UInt16 → Bool
  watch : UInt16 → Option Watch
  sent : List Payload
  received : UInt16 → Bytes
  accepted : UInt16 → Bytes

namespace EndCircuit

/-- A SENDME passes its checks. -/
def sendmeTaken (env : EndEnv) (streamId : UInt16) (data : Bytes) (circ : EndCircuit) : Bool :=
  if streamId = 0 then
    (circ.sendmeAuthExpected.count = 0 ∨
      8 ≤ data.length ∧ Arr.ofList 20 0 (data ++ env.stale) = circ.sendmeAuthExpected.oldest) ∧
      circ.circPackageWindow ≤ moorCircuitWindow
  else (circ.findStream streamId).any fun stream => stream.packageWindow ≤ moorStreamWindow

variable (streamId : UInt16) (circ : EndCircuit)

/-- The target of a stream can be read from, as far as the stream is concerned. -/
def readyStream : Bool :=
  (circ.findStream streamId).any fun stream => stream.targetOpen && stream.connected

/-- Data for a stream is written to its target. -/
def writesData : Bool :=
  (circ.findStream streamId).any fun stream =>
    stream.targetOpen && stream.connected &&
      (0 < circ.circDeliverWindow ∧ 0 < stream.deliverWindow)

/-- Closes the socket of a stream and frees the slot. -/
def closeStream : EndCircuit :=
  circ.modifyStream streamId fun stream => { stream with targetOpen := false, streamId := 0 }

/-- A stream takes the first free slot, which keeps the flag of the stream before it. -/
def openStream (connected : Bool) (circ : EndCircuit) : Option EndCircuit :=
  let fill (slot : ExitStream) : ExitStream :=
    { slot with
      streamId := streamId
      targetOpen := true
      connected := connected
      packageWindow := moorStreamWindow
      deliverWindow := moorStreamWindow }
  if circ.streams.any fun stream => stream.streamId == 0 then
    some { circ with streams := circ.streams.replaceF fun stream =>
      if stream.streamId = 0 then some (fill stream) else none }
  else if circ.streams.length < moorMaxStreams then
    some { circ with streams := circ.streams ++ [fill ⟨0, false, false, 0, 0, false⟩] }
  else none

end EndCircuit

namespace Exit

variable (C : Crypto)

/-- A circuit without streams. -/
def init (circ : EndCircuit) : Exit :=
  ⟨circ, fun _ => false, fun _ => none, [], fun _ => [], fun _ => []⟩

variable (env : EndEnv) (streamId : UInt16) (s : Exit)

def setWatch (watch : Option Watch) (s : Exit) : Exit :=
  { s with watch := update s.watch streamId watch }

/-- The circuit after a call, and the cells it queued. -/
def put (result : EndCircuit × List Payload) (s : Exit) : Exit :=
  { s with circ := result.1, sent := s.sent ++ result.2 }

/-! ### Cells from the client -/

/-- The client asks for a pause. The socket is no longer watched, whatever it was watched for. -/
def handleXoff : Exit :=
  match s.circ.findStream streamId with
  | none => s
  | some stream =>
    if stream.targetOpen then
      { s.setWatch streamId none with xoffRecv := update s.xoffRecv streamId true }
    else s

/-- The client ends a pause. -/
def handleXon : Exit :=
  if s.circ.readyStream streamId then
    { s.setWatch streamId (some .read) with xoffRecv := update s.xoffRecv streamId false }
  else s

/-- A SENDME: the window grows, and the targets that waited for it are watched again: for the
circuit all of them, for a stream its own. -/
def handleSendme (data : Bytes) (s : Exit) : Exit :=
  let resumed : Exit := { s with circ := s.circ.handleSendme env streamId data }
  if !s.circ.sendmeTaken env streamId data then resumed
  else if streamId = 0 then
    { resumed with watch := fun id => if s.circ.readyStream id then some .read else s.watch id }
  else if s.circ.readyStream streamId then resumed.setWatch streamId (some .read)
  else resumed

def taken (data : Bytes) : Bytes :=
  data.take (streamForwardToTarget env.answers data.length).2

/-- Data for a stream. A target that breaks is no longer watched. -/
def handleData (data : Bytes) (s : Exit) : Exit :=
  let s' := s.put (s.circ.handleData C env streamId data)
  let s' := if s.circ.readyStream streamId then
      { s' with received := update s.received streamId (s.received streamId ++ data) }
    else s'
  if s.circ.writesData streamId then
    let s' := { s' with
      accepted := update s.accepted streamId (s.accepted streamId ++ taken env data) }
    if (streamForwardToTarget env.answers data.length).1 = .error then s'.setWatch streamId none
    else s'
  else s'

def handleEnd : Exit :=
  if (s.circ.findStream streamId).any ExitStream.targetOpen then
    { s.setWatch streamId none with circ := s.circ.closeStream streamId }
  else s

/-- What the exit does with a cell for it, as far as its streams go. -/
def dispatch (relay : RelayPayload) (s : Exit) : Exit :=
  if relay.relayCommand = relayData then s.handleData C env relay.streamId relay.data
  else if relay.relayCommand = relaySendme then s.handleSendme env relay.streamId relay.data
  else if relay.relayCommand = relayXoff then s.handleXoff relay.streamId
  else if relay.relayCommand = relayXon then s.handleXon relay.streamId
  else if relay.relayCommand = relayEnd then s.handleEnd relay.streamId
  else s

/-- A cell from the client. -/
def handleRelay (payload : Payload) (s : Exit) : Exit :=
  match s.circ.recognise C payload with
  | none => s
  | some circ => { s with circ := circ }.dispatch C env (relayUnpack payload)

/-! ### Events of the targets -/

/-- Neither window is used up. -/
def hasWindow (circ : EndCircuit) : Bool :=
  0 < circ.circPackageWindow ∧
    (circ.findStream streamId).any fun stream => 0 < stream.packageWindow

/-- The callback for a target that can be read from. Without a window the target is no longer
watched. The callback does not look at the pause. -/
def exitTargetReadCb (target : EndCircuit.TargetRead) (s : Exit) : Exit :=
  if !hasWindow streamId s.circ then s.setWatch streamId none
  else
    let s := s.put (s.circ.exitTargetRead C env streamId target)
    match target with
    | .again => s
    | .closed => s.setWatch streamId none
    | .data _ =>
      if s.circ.prevConn = some .opened ∧ hasWindow streamId s.circ then s
      else s.setWatch streamId none

/-- A stream is connected: its target is watched, and the client is told. -/
def connectStream : Exit :=
  let s := { s.setWatch streamId (some .read) with
    received := update s.received streamId []
    accepted := update s.accepted streamId [] }
  if s.circ.prevConn = some .opened then s.put (s.circ.queueRelay C env relayConnected streamId [])
  else s

/-- A connection to a target is opened. It is there at once or is waited for. -/
def exitConnect (immediate : Bool) (s : Exit) : Option Exit :=
  if streamId = 0 ∨ (s.circ.findStream streamId).isSome then none
  else
    match s.circ.openStream streamId immediate with
    | none => none
    | some circ =>
      let s := { s with circ := circ }
      some (if immediate then s.connectStream C env streamId
        else s.setWatch streamId (some .connect))

/-- The callback for a connection that was waited for. -/
def exitConnectCompleteCb (ok : Bool) (s : Exit) : Exit :=
  if ok then
    connectStream C env streamId
      { s with
        circ := s.circ.modifyStream streamId fun stream => { stream with connected := true } }
  else
    let s := { s.setWatch streamId none with circ := s.circ.closeStream streamId }
    if s.circ.prevConn = some .opened then s.put (s.circ.queueRelay C env relayEnd streamId [])
    else s

/-- What happens to an exit: a cell from the client; the start of a connection, for a BEGIN; an
event of a socket that is watched; a cell of another kind towards the client; and a change of the
connection towards it. -/
inductive Event
  | cell (env : EndEnv) (payload : Payload)
  | connect (env : EndEnv) (streamId : UInt16) (immediate : Bool)
  | connectDone (env : EndEnv) (streamId : UInt16) (ok : Bool)
  | readable (env : EndEnv) (streamId : UInt16) (target : EndCircuit.TargetRead)
  | queue (env : EndEnv) (relayCmd : UInt8) (streamId : UInt16) (data : Bytes)
  | prevConn (state : Option ConnState)

/-- One event, if it can happen. -/
def step : Event → Option Exit
  | .cell env payload => some (s.handleRelay C env payload)
  | .connect env streamId immediate => s.exitConnect C env streamId immediate
  | .connectDone env streamId ok =>
    if s.watch streamId = some .connect then some (s.exitConnectCompleteCb C env streamId ok)
    else none
  | .readable env streamId target =>
    if s.watch streamId = some .read then some (s.exitTargetReadCb C env streamId target) else none
  | .queue env relayCmd streamId data =>
    if relayCmd = relayData then none
    else some (s.put (s.circ.queueRelay C env relayCmd streamId data))
  | .prevConn state => some { s with circ := { s.circ with prevConn := state } }

end Exit

/-! ### Calls that send no data -/

namespace EndCircuit

/-- The number of streams that match a test of their id, their socket and their connection. -/
def countCore (p : UInt16 × Bool × Bool → Bool) (circ : EndCircuit) : ℕ :=
  circ.streams.countP fun stream => p (stream.streamId, stream.targetOpen, stream.connected)

/-- No stream is opened. A slot without a stream has the id zero. -/
def NoneOpened (circ circ' : EndCircuit) : Prop :=
  ∀ p, (∀ isOpen connected, p (0, isOpen, connected) = false) →
    circ'.countCore p ≤ circ.countCore p

/-- A call queues no cell of data and opens no stream. -/
structure Quiet (circ : EndCircuit) (result : EndCircuit × List Payload) : Prop where
  noData : ∀ payload ∈ result.2, (relayUnpack payload).relayCommand ≠ relayData
  noneOpened : NoneOpened circ result.1

variable {C : Crypto} {env : EndEnv} {circ : EndCircuit}

variable {circ' : EndCircuit} {relayCmd : UInt8} {streamId : UInt16}
  {change : ExitStream → ExitStream}

theorem Quiet.of_noneOpened (h : NoneOpened circ circ') : Quiet circ (circ', []) where
  noData _ hmem := nomatch hmem
  noneOpened := h

theorem NoneOpened.of_streams (h : circ'.streams = circ.streams) : NoneOpened circ circ' := by
  intro p _
  rw [countCore, countCore, h]

theorem mem_queueRelay {data : Bytes} {payload : Payload}
    (h : payload ∈ (circ.queueRelay C env relayCmd streamId data).2) :
    (relayUnpack payload).relayCommand = relayCmd ∧ (relayUnpack payload).streamId = streamId := by
  have hpayload : payload = (relaySetDigest C (cellRelay relayCmd streamId data)
      circ.relayBackwardDigest).1 := by
    simp only [queueRelay] at h
    split at h
    · exact mem_singleton.mp h
    · cases h
  rw [hpayload, relaySetDigest, relayUnpack_putDigest]
  simp

theorem quiet_queueRelay (hcmd : relayCmd ≠ relayData) (streamId : UInt16) (data : Bytes) :
    Quiet circ (circ.queueRelay C env relayCmd streamId data) where
  noData _ hmem := (mem_queueRelay hmem).1 ▸ hcmd
  noneOpened _ _ := le_rfl

/-- The stream that is changed passes the test only if it did. -/
theorem countCore_modifyStream {p : UInt16 × Bool × Bool → Bool}
    (h : ∀ stream, stream.streamId = streamId →
      p ((change stream).streamId, (change stream).targetOpen, (change stream).connected) →
      p (stream.streamId, stream.targetOpen, stream.connected)) :
    (circ.modifyStream streamId change).countCore p ≤ circ.countCore p := by
  change countP _ (replaceF _ circ.streams) ≤ countP _ circ.streams
  induction circ.streams with
  | nil => exact le_rfl
  | cons stream streams ih =>
    by_cases hthis : stream.streamId = streamId ∧ streamId ≠ 0
    · rw [replaceF_cons, if_pos hthis, countP_cons, countP_cons]
      apply Nat.add_le_add_left
      split_ifs with hafter hbefore
      · exact le_rfl
      · exact absurd (h stream hthis.1 hafter) hbefore
      all_goals exact Nat.zero_le _
    · rw [replaceF_cons, if_neg hthis, countP_cons, countP_cons]
      exact Nat.add_le_add_right ih _

theorem noneOpened_modifyStream (streamId : UInt16) (h : KeepsOrFrees change) :
    NoneOpened circ (circ.modifyStream streamId change) := by
  intro p hp
  refine countCore_modifyStream fun stream _ hafter => ?_
  rcases h stream with hsame | hzero
  · rwa [hsame] at hafter
  · rw [hzero, hp] at hafter
    exact absurd hafter Bool.false_ne_true

/-- Data from the client is answered by cells of other kinds, and opens no stream. -/
theorem dataRule_quiet : DataRule Quiet where
  refl _ := .of_noneOpened (.of_streams rfl)
  trans h h' := {
    noData payload hmem := (mem_append.mp hmem).elim (h.noData payload) (h'.noData payload)
    noneOpened p hp := (h'.noneOpened p hp).trans (h.noneOpened p hp) }
  modify streamId _ h := .of_noneOpened (noneOpened_modifyStream streamId h)
  queue hcmd _ := quiet_queueRelay hcmd ..
  window _ := .of_noneOpened (.of_streams rfl)
  sendme data := quiet_queueRelay (by decide) 0 data

theorem noneOpened_closeStream (streamId : UInt16) :
    NoneOpened circ (circ.closeStream streamId) :=
  noneOpened_modifyStream streamId fun _ => .inr rfl

theorem noneOpened_handleSendme (streamId : UInt16) (data : Bytes) :
    NoneOpened circ (circ.handleSendme env streamId data) := by
  have hrefill (circ : EndCircuit) : circ.refill.streams = circ.streams := by
    rw [refill]
    split_ifs <;> rfl
  rw [handleSendme]
  split_ifs
  · exact .of_streams rfl
  · exact .of_streams rfl
  · exact .of_streams (hrefill _)
  · exact .of_streams (hrefill circ)
  · split
    · exact .of_streams rfl
    · split_ifs
      · exact .of_streams rfl
      · exact noneOpened_modifyStream streamId fun _ => .inl rfl

end EndCircuit

/-! ### Events that are about another stream -/

namespace Exit

variable {C : Crypto} {env : EndEnv} {s s' : Exit} {id : UInt16}

/-- The cells of data for a stream that were queued towards the client. -/
def dataFor (streamId : UInt16) (s : Exit) : List Payload :=
  s.sent.filter fun payload =>
    (relayUnpack payload).relayCommand = relayData ∧ (relayUnpack payload).streamId = streamId

/-- Nothing changes for a stream. -/
structure Unchanged (id : UInt16) (s s' : Exit) : Prop where
  watch : s'.watch id = s.watch id
  data : s'.dataFor id = s.dataFor id
  received : s'.received id = s.received id
  accepted : s'.accepted id = s.accepted id

theorem Unchanged.trans {s'' : Exit} (h : Unchanged id s s') (h' : Unchanged id s' s'') :
    Unchanged id s s'' where
  watch := h'.watch.trans h.watch
  data := h'.data.trans h.data
  received := h'.received.trans h.received
  accepted := h'.accepted.trans h.accepted

/-- What is not about the streams. -/
theorem Unchanged.of_circ (circ : EndCircuit) : Unchanged id s { s with circ := circ } :=
  ⟨rfl, rfl, rfl, rfl⟩

variable {streamId : UInt16} {result : EndCircuit × List Payload} {circ : EndCircuit}
  {target : EndCircuit.TargetRead}

theorem unchanged_setWatch (hid : id ≠ streamId) (watch : Option Watch) :
    Unchanged id s (s.setWatch streamId watch) :=
  ⟨update_of_ne hid _ _, rfl, rfl, rfl⟩

/-- Cells of other kinds, or for other streams. -/
theorem unchanged_put (h : ∀ payload ∈ result.2, ¬((relayUnpack payload).relayCommand = relayData ∧
      (relayUnpack payload).streamId = id)) : Unchanged id s (s.put result) := by
  refine ⟨rfl, ?_, rfl, rfl⟩
  rw [dataFor, put, filter_append, dataFor, append_right_eq_self, filter_eq_nil_iff]
  simpa using h

theorem unchanged_put_quiet (h : EndCircuit.Quiet circ result) : Unchanged id s (s.put result) :=
  unchanged_put fun payload hmem hdata => h.noData payload hmem hdata.1

theorem unchanged_connectStream (hid : id ≠ streamId) :
    Unchanged id s (s.connectStream C env streamId) := by
  have hreset : Unchanged id s { s.setWatch streamId (some .read) with
      received := update s.received streamId []
      accepted := update s.accepted streamId [] } :=
    ⟨update_of_ne hid _ _, rfl, update_of_ne hid _ _, update_of_ne hid _ _⟩
  rw [connectStream]
  split_ifs
  · exact hreset.trans (unchanged_put_quiet (quiet_queueRelay (by decide) streamId []))
  · exact hreset

theorem unchanged_exitConnect {immediate : Bool} (hid : id ≠ streamId)
    (h : s.exitConnect C env streamId immediate = some s') : Unchanged id s s' := by
  replace h := (ite_none_left_eq_some.mp h).2
  split at h
  · exact absurd h.symm (some_ne_none s')
  rename_i circ _
  cases h
  split_ifs
  · exact (Unchanged.of_circ circ).trans (unchanged_connectStream hid)
  · exact (Unchanged.of_circ circ).trans (unchanged_setWatch hid _)

theorem unchanged_exitConnectCompleteCb {ok : Bool} (hid : id ≠ streamId) :
    Unchanged id s (s.exitConnectCompleteCb C env streamId ok) := by
  rw [exitConnectCompleteCb]
  split_ifs
  · exact (Unchanged.of_circ _).trans (unchanged_connectStream hid)
  have hclose : Unchanged id s
      { s.setWatch streamId none with circ := s.circ.closeStream streamId } :=
    (unchanged_setWatch hid none).trans (.of_circ _)
  dsimp only
  split_ifs
  · exact hclose.trans (unchanged_put_quiet (quiet_queueRelay (by decide) streamId []))
  · exact hclose

/-- What is read from a target is sent for its own stream. -/
theorem mem_exitTargetRead {payload : Payload}
    (h : payload ∈ (circ.exitTargetRead C env streamId target).2) :
    (relayUnpack payload).streamId = streamId := by
  unfold exitTargetRead at h
  split at h
  · cases h
  split at h
  · cases h
  cases target with
  | again => cases h
  | closed =>
    dsimp only at h
    split at h
    · exact (mem_queueRelay h).2
    · cases h
  | data bytes =>
    dsimp only [packageData] at h
    split at h
    · cases h
    · exact (mem_queueRelay h).2

theorem unchanged_exitTargetReadCb (hid : id ≠ streamId) :
    Unchanged id s (s.exitTargetReadCb C env streamId target) := by
  rw [exitTargetReadCb]
  split
  · exact unchanged_setWatch hid none
  have hput : Unchanged id s (s.put (s.circ.exitTargetRead C env streamId target)) :=
    unchanged_put fun payload hmem hdata => hid (hdata.2.symm.trans (mem_exitTargetRead hmem))
  cases target with
  | again => exact hput
  | closed => exact hput.trans (unchanged_setWatch hid none)
  | data bytes =>
    dsimp only
    split_ifs
    · exact hput
    · exact hput.trans (unchanged_setWatch hid none)

/-- The event is no cell from the client, and it is not about the stream. -/
def Elsewhere (id : UInt16) : Event → Prop
  | .cell _ _ => False
  | .connect _ streamId _ | .connectDone _ streamId _ | .readable _ streamId _ => id ≠ streamId
  | .queue _ _ _ _ | .prevConn _ => True

theorem unchanged_step {event : Event} (h : Elsewhere id event)
    (hstep : s.step C event = some s') : Unchanged id s s' := by
  cases event with
  | cell env payload => exact h.elim
  | connect env streamId immediate => exact unchanged_exitConnect h hstep
  | connectDone env streamId ok =>
    obtain ⟨-, hstep⟩ := ite_none_right_eq_some.mp hstep
    cases hstep
    exact unchanged_exitConnectCompleteCb h
  | readable env streamId target =>
    obtain ⟨-, hstep⟩ := ite_none_right_eq_some.mp hstep
    cases hstep
    exact unchanged_exitTargetReadCb h
  | queue env relayCmd streamId data =>
    obtain ⟨hcmd, hstep⟩ := ite_none_left_eq_some.mp hstep
    cases hstep
    exact unchanged_put_quiet (quiet_queueRelay hcmd streamId data)
  | prevConn state =>
    cases hstep
    exact .of_circ _

/-! ### Pauses -/

theorem setWatch_watch (streamId : UInt16) (watch : Option Watch) :
    (s.setWatch streamId watch).watch id = if id = streamId then watch else s.watch id := by
  exact update_apply s.watch streamId watch id

variable {payload : Payload} {data : Bytes} {event : Event}

/-- A socket that is not watched is not watched when another one is no longer watched. -/
theorem setWatch_none (hwatch : s.watch id = none) :
    (s.setWatch streamId none).watch id = none := by
  rw [setWatch_watch, hwatch, ite_self]

/-- An XON for the stream, or another stream with its id. -/
def Ends (C : Crypto) (id : UInt16) (s : Exit) : Event → Prop
  | .cell _ payload => (s.circ.recognise C payload).isSome ∧
      (relayUnpack payload).relayCommand = relayXon ∧ (relayUnpack payload).streamId = id
  | .connect _ streamId _ => streamId = id
  | _ => False

/-- A SENDME for the circuit or for the stream passes its checks while the target is connected. -/
def Rearms (C : Crypto) (id : UInt16) (s : Exit) : Event → Prop
  | .cell env payload =>
    let relay := relayUnpack payload
    (s.circ.recognise C payload).isSome ∧ relay.relayCommand = relaySendme ∧
      (relay.streamId = 0 ∨ relay.streamId = id) ∧
      s.circ.sendmeTaken env relay.streamId relay.data ∧ s.circ.readyStream id
  | _ => False

instance (C : Crypto) (id : UInt16) (s : Exit) (event : Event) : Decidable (s.Ends C id event) := by
  cases event <;> unfold Ends <;> infer_instance

instance (C : Crypto) (id : UInt16) (s : Exit) (event : Event) :
    Decidable (s.Rearms C id event) := by
  cases event <;> unfold Rearms <;> infer_instance

/-- Recognising a cell changes nothing but the digest. -/
theorem recognise_eq_some {circ circ' : EndCircuit} (h : circ.recognise C payload = some circ') :
    ∃ digest, circ' = { circ with relayForwardDigest := digest } := by
  obtain ⟨-, h⟩ := ite_none_right_eq_some.mp h
  obtain ⟨digest, -, rfl⟩ := map_eq_some_iff.mp h
  exact ⟨digest, rfl⟩

variable (hwatch : s.watch id = none)
include hwatch

theorem handleSendme_watch :
    (s.handleSendme env streamId data).watch id =
      if (streamId = 0 ∨ streamId = id) ∧ s.circ.sendmeTaken env streamId data ∧
        s.circ.readyStream id then some .read else none := by
  rw [handleSendme]
  by_cases htaken : s.circ.sendmeTaken env streamId data = true
  · rw [htaken, if_neg (by decide)]
    by_cases hzero : streamId = 0
    · simp [hzero, hwatch]
    rw [if_neg hzero]
    by_cases hready : s.circ.readyStream streamId = true
    · rw [if_pos hready, setWatch_watch]
      by_cases hid : id = streamId
      · simp [hid, hready]
      · simp [hid, Ne.symm hid, hzero, hwatch]
    · rw [if_neg hready, if_neg]
      · exact hwatch
      · intro h
        exact hready ((h.1.resolve_left hzero) ▸ h.2.2)
  · simp [htaken, hwatch]

theorem handleData_watch : (s.handleData C env streamId data).watch id = none := by
  rw [handleData]
  split_ifs
  all_goals first | exact hwatch | exact setWatch_none hwatch

theorem handleXoff_watch : (s.handleXoff streamId).watch id = none := by
  rw [handleXoff]
  split
  · exact hwatch
  split_ifs
  · exact setWatch_none hwatch
  · exact hwatch

omit hwatch

theorem handleXon_watch (hid : id ≠ streamId) : (s.handleXon streamId).watch id = s.watch id := by
  rw [handleXon]
  split_ifs
  · exact update_of_ne hid _ _
  · rfl

include hwatch

theorem handleEnd_watch : (s.handleEnd streamId).watch id = none := by
  rw [handleEnd]
  split_ifs
  · exact setWatch_none hwatch
  · exact hwatch

/-- A socket that is not watched is watched after a SENDME, and only then. -/
theorem dispatch_watch {relay : RelayPayload}
    (hxon : ¬(relay.relayCommand = relayXon ∧ relay.streamId = id)) :
    (s.dispatch C env relay).watch id =
      if relay.relayCommand = relaySendme ∧ (relay.streamId = 0 ∨ relay.streamId = id) ∧
        s.circ.sendmeTaken env relay.streamId relay.data ∧ s.circ.readyStream id
      then some .read else none := by
  rw [dispatch]
  by_cases hsendme : relay.relayCommand = relaySendme
  · rw [if_neg (by rw [hsendme]; decide), if_pos hsendme, handleSendme_watch hwatch]
    simp only [hsendme, true_and]
  rw [if_neg (fun h : relay.relayCommand = relaySendme ∧ _ => hsendme h.1), if_neg hsendme]
  split_ifs with _ _ hcmd
  · exact handleData_watch hwatch
  · exact handleXoff_watch hwatch
  · rw [handleXon_watch fun h => hxon ⟨hcmd, h.symm⟩]
    exact hwatch
  · exact handleEnd_watch hwatch
  · exact hwatch

theorem handleRelay_watch (hends : ¬s.Ends C id (.cell env payload)) :
    (s.handleRelay C env payload).watch id = some .read ∧ s.Rearms C id (.cell env payload) ∨
      (s.handleRelay C env payload).watch id = none ∧ ¬s.Rearms C id (.cell env payload) := by
  rw [handleRelay]
  cases hrec : s.circ.recognise C payload with
  | none =>
    refine .inr ⟨hwatch, fun h => ?_⟩
    simp [Rearms, hrec] at h
  | some circ =>
    obtain ⟨digest, rfl⟩ := recognise_eq_some hrec
    have hxon : ¬((relayUnpack payload).relayCommand = relayXon ∧
        (relayUnpack payload).streamId = id) := by
      intro h
      exact hends ⟨by rw [hrec]; rfl, h⟩
    rw [dispatch_watch (s := { s with circ := { s.circ with relayForwardDigest := digest } })
      hwatch hxon, Rearms, hrec]
    split_ifs with hrearms
    · exact .inl ⟨rfl, rfl, hrearms⟩
    · exact .inr ⟨rfl, fun h => hrearms h.2⟩

omit hwatch

theorem handleData_dataFor (streamId : UInt16) (data : Bytes) :
    (s.handleData C env streamId data).dataFor id = s.dataFor id := by
  have hput : Unchanged id s (s.put (s.circ.handleData C env streamId data)) :=
    unchanged_put_quiet (dataRule_quiet.handleData streamId data)
  rw [handleData]
  split_ifs
  all_goals exact hput.data

/-- A cell other than data changes the windows, the pauses and what is watched, and may close a
stream. -/
theorem dispatch_control {relay : RelayPayload} (hcmd : relay.relayCommand ≠ relayData) :
    ∃ circ xoffRecv watch, EndCircuit.NoneOpened s.circ circ ∧ s.dispatch C env relay =
      { s with circ := circ, xoffRecv := xoffRecv, watch := watch } := by
  rw [dispatch, if_neg hcmd]
  split_ifs
  · rw [handleSendme]
    split_ifs
    all_goals exact ⟨_, _, _, noneOpened_handleSendme _ _, rfl⟩
  · rw [handleXoff]
    split
    · exact ⟨_, _, _, .of_streams rfl, rfl⟩
    · split_ifs
      all_goals exact ⟨_, _, _, .of_streams rfl, rfl⟩
  · rw [handleXon]
    split_ifs
    all_goals exact ⟨_, _, _, .of_streams rfl, rfl⟩
  · rw [handleEnd]
    split_ifs
    · exact ⟨_, _, _, noneOpened_closeStream _, rfl⟩
    · exact ⟨_, _, _, .of_streams rfl, rfl⟩
  · exact ⟨_, _, _, .of_streams rfl, rfl⟩

/-- No cell from the client makes the exit send data. -/
theorem handleRelay_dataFor (payload : Payload) :
    (s.handleRelay C env payload).dataFor id = s.dataFor id := by
  rw [handleRelay]
  split
  · rfl
  by_cases hcmd : (relayUnpack payload).relayCommand = relayData
  · rw [dispatch, if_pos hcmd]
    exact handleData_dataFor _ _
  · obtain ⟨circ, xoffRecv, watch, -, heq⟩ := dispatch_control hcmd
    rw [heq]
    rfl

/-- A stream that is not watched: a cell comes, or the event is not about the stream. -/
theorem elsewhere_of_unwatched (hwatch : s.watch id = none) (hends : ¬s.Ends C id event)
    (hstep : s.step C event = some s') (hcell : ∀ env payload, event ≠ .cell env payload) :
    Elsewhere id event := by
  cases event with
  | cell env payload => exact hcell env payload rfl
  | connect env streamId immediate => exact fun h => hends h.symm
  | connectDone env streamId ok | readable env streamId target =>
    rintro rfl
    have := (ite_none_right_eq_some.mp hstep).1
    simp [hwatch] at this
  | queue env relayCmd streamId data => trivial
  | prevConn state => trivial

/-- The watch on a socket returns with a SENDME, and only then; no data is sent before. -/
theorem step_unwatched (hwatch : s.watch id = none) (hends : ¬s.Ends C id event)
    (hstep : s.step C event = some s') :
    (s'.watch id = some .read ∧ s.Rearms C id event ∨
      s'.watch id = none ∧ ¬s.Rearms C id event) ∧ s'.dataFor id = s.dataFor id := by
  by_cases hcell : ∃ env payload, event = .cell env payload
  · obtain ⟨env, payload, rfl⟩ := hcell
    cases hstep
    exact ⟨handleRelay_watch hwatch hends, handleRelay_dataFor payload⟩
  have hother : ∀ env payload, event ≠ .cell env payload :=
    fun env payload h => hcell ⟨env, payload, h⟩
  have hsame := unchanged_step (elsewhere_of_unwatched hwatch hends hstep hother) hstep
  refine ⟨.inr ⟨hsame.watch.trans hwatch, fun hrearms => ?_⟩, hsame.data⟩
  cases event with
  | cell env payload => exact hother env payload rfl
  | _ => exact hrearms

/-- The XOFF for a stream with a target. -/
def Pauses (C : Crypto) (id : UInt16) (s : Exit) (payload : Payload) : Prop :=
  (s.circ.recognise C payload).isSome ∧ (relayUnpack payload).relayCommand = relayXoff ∧
    (relayUnpack payload).streamId = id ∧ (s.circ.findStream id).any ExitStream.targetOpen

theorem watch_of_pauses (h : s.Pauses C id payload)
    (hstep : s.step C (.cell env payload) = some s') : s'.watch id = none := by
  cases hstep
  obtain ⟨hrec, hcmd, hid, hopen⟩ := h
  obtain ⟨circ, hrec⟩ := isSome_iff_exists.mp hrec
  obtain ⟨digest, rfl⟩ := recognise_eq_some hrec
  obtain ⟨stream, hfind, hopen⟩ := (any_eq_true _ _).mp hopen
  rw [handleRelay, hrec]
  dsimp only
  rw [dispatch, if_neg (by rw [hcmd]; decide), if_neg (by rw [hcmd]; decide), if_pos hcmd, hid,
    handleXoff]
  have hfind' : findStream id { s.circ with relayForwardDigest := digest } =
      some stream := hfind
  simp only [hfind', hopen, if_true]
  exact update_self id _ _

/-- A run that stays in the pause sends no data. -/
theorem run_paused {events : List Event} (hwatch : s.watch id = none)
    (halong : Run.Along (step C) (fun s event => ¬s.Ends C id event ∧ ¬s.Rearms C id event)
      s events)
    (hrun : Run.run (step C) s events = some s') :
    s'.watch id = none ∧ s'.dataFor id = s.dataFor id := by
  refine Run.run_invariant (I := fun t => t.watch id = none ∧ t.dataFor id = s.dataFor id)
    ?_ ⟨hwatch, rfl⟩ halong hrun
  intro t event t' ht hevent hstep
  obtain ⟨hnext, hdata⟩ := step_unwatched ht.1 hevent.1 hstep
  exact ⟨(hnext.resolve_left fun h => hevent.2 h.2).1, hdata.trans ht.2⟩

end Exit

/-- After the XOFF for a stream the exit sends no data for it, in every run without an XON for it,
a new stream with its id and a SENDME that passes its checks. Such a SENDME, for the circuit or for
the stream, is exactly what makes the exit read from the target of a stream that it does not watch:
the callback does not look at the pause. -/
theorem xoff_pauses_until_sendme (C : Crypto) (id : UInt16) :
    (∀ (s : Exit) (env : EndEnv) (payload : Payload) (paused : Exit) (events : List Exit.Event)
      (s' : Exit), s.Pauses C id payload → s.step C (.cell env payload) = some paused →
      Run.Along (Exit.step C) (fun s event => ¬s.Ends C id event ∧ ¬s.Rearms C id event)
        paused events →
      Run.run (Exit.step C) paused events = some s' → s'.dataFor id = paused.dataFor id) ∧
    ∀ (s : Exit) (event : Exit.Event) (s' : Exit), s.watch id = none → ¬s.Ends C id event →
      s.step C event = some s' → (s'.watch id = some .read ↔ s.Rearms C id event) := by
  constructor
  · intro s env payload paused events s' hpauses hstep halong hrun
    exact (Exit.run_paused (Exit.watch_of_pauses hpauses hstep) halong hrun).2
  intro s event s' hwatch hends hstep
  rcases (Exit.step_unwatched hwatch hends hstep).1 with h | h
  · simp [h]
  · simp [h]

/-- The cells of a client, stamped one after the other. -/
def clientCells (C : Crypto) : Field 32 → List (UInt8 × UInt16 × Bytes) → List Payload
  | _, [] => []
  | digest, (relayCmd, streamId, data) :: cells =>
    let (payload, digest) := relaySetDigest C (cellRelay relayCmd streamId data) digest
    payload :: clientCells C digest cells

/-- An environment in which the target takes everything. -/
def sampleExitEnv : EndEnv := ⟨fun _ _ => true, [.took 498], []⟩

def sampleExit : Exit :=
  let s := Exit.init (.init (Arr.replicate 32 7) (Arr.replicate 32 7))
  (s.exitConnect Crypto.sample sampleExitEnv 1 true).getD s

def sampleCells (cells : List (UInt8 × UInt16 × Bytes)) : List Payload :=
  clientCells Crypto.sample (Arr.replicate 32 7) cells

/-- The client asks for a pause of the stream. -/
def sampleXoff : Payload := (sampleCells [(relayXoff, 1, [])])[0]

def samplePaused : Exit := sampleExit.handleRelay Crypto.sample sampleExitEnv sampleXoff

/-- The client goes on sending, and another stream is opened and read from. -/
def samplePause : List Exit.Event :=
  (sampleCells [(relayXoff, 1, []), (relayData, 1, [4])]).tail.map (.cell sampleExitEnv) ++
    [.connect sampleExitEnv 2 true, .readable sampleExitEnv 2 (.data [5])]

theorem xoff_pauses_until_sendme_sample :
    sampleExit.Pauses Crypto.sample 1 sampleXoff ∧
      ∃ s', Run.run (Exit.step Crypto.sample) samplePaused samplePause = some s' ∧
        (s'.dataFor 2).length = 1 ∧ s'.dataFor 1 = samplePaused.dataFor 1 := by
  have hpauses : sampleExit.Pauses Crypto.sample 1 sampleXoff := by
    unfold Exit.Pauses
    decide +kernel
  exact ⟨hpauses, Run.exists_some_and (by decide +kernel) fun s' hs' =>
    (xoff_pauses_until_sendme Crypto.sample 1).1 sampleExit sampleExitEnv sampleXoff samplePaused
      samplePause s' hpauses rfl (by decide +kernel) hs'⟩

/-- The client asks for a pause and returns a SENDME for the stream: the exit sends the next data
that its target has. -/
theorem xoff_lifted_by_sendme :
    ∃ events s', sampleExit.Pauses Crypto.sample 1 sampleXoff ∧
      sampleExit.step Crypto.sample (.cell sampleExitEnv sampleXoff) = some samplePaused ∧
      Run.Along (Exit.step Crypto.sample) (fun s event => ¬s.Ends Crypto.sample 1 event)
        samplePaused events ∧
      Run.run (Exit.step Crypto.sample) samplePaused events = some s' ∧
      samplePaused.dataFor 1 = [] ∧ (s'.dataFor 1).length = 1 := by
  have hpauses : sampleExit.Pauses Crypto.sample 1 sampleXoff := by
    unfold Exit.Pauses
    decide +kernel
  let events := (sampleCells [(relayXoff, 1, []), (relaySendme, 1, [])]).tail.map
      (Exit.Event.cell sampleExitEnv) ++ [.readable sampleExitEnv 1 (.data [5])]
  obtain ⟨s', hs', hlen⟩ : ∃ s',
      Run.run (Exit.step Crypto.sample) samplePaused events = some s' ∧
      (s'.dataFor 1).length = 1 := by decide +kernel
  exact ⟨events, s', hpauses, rfl, by decide +kernel, hs', by decide +kernel, hlen⟩

end Moor
