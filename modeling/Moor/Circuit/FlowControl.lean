import Moor.Circuit.Congestion
import Moor.Circuit.Onion
import Moor.Lib.Run

/-!
# Flow control at the client

The client may have a thousand cells of data under way. For every hundred cells it records the
digest of the last hop and the time; the exit acknowledges them by a SENDME with that digest, which
also gives a round-trip time for the congestion window. Arithmetic is checked: an operation that
leaves the type of its variable, or divides by zero, fails.
-/

namespace Moor

open Codec List Option RingBuffer

def moorCircuitWindow : ℤ := 1000
def moorStreamWindow : ℤ := 100
def moorSendmeAuthMax : ℕ := 10

instance : NeZero moorSendmeAuthMax := ⟨by decide⟩

/-- A stream of the client, with the number of cells it may still send. -/
structure ClientStream where
  streamId : UInt16
  packageWindow : ℤ

/-- The digest by which a SENDME is authenticated: the start of the running digest. -/
abbrev AuthDigest := Field 20

def authDigest (digest : Field 32) : AuthDigest := Arr.ofList 20 0 digest.val

/-- The fields of a client's circuit that flow control uses. -/
structure FlowCircuit where
  hops : List Hop
  streams : List ClientStream
  circPackageWindow : ℤ
  inflight : ℤ
  sendmeAuthExpected : RingBuffer AuthDigest moorSendmeAuthMax
  congestion : Congestion

/-- A circuit before the first cell of data. -/
def FlowCircuit.init (hops : List Hop) (ccPathType : UInt8) : FlowCircuit where
  hops := hops
  streams := []
  circPackageWindow := moorCircuitWindow
  inflight := 0
  sendmeAuthExpected := RingBuffer.empty (Field.zero 20)
  congestion := Congestion.init ccPathType

/-- The first stream with an id. No stream has the id zero. -/
def circuitFindStream (streamId : UInt16) (streams : List ClientStream) : Option ClientStream :=
  if streamId = 0 then none else streams.find? fun stream => stream.streamId == streamId

def modifyStream (streamId : UInt16) (change : ClientStream → ClientStream)
    (streams : List ClientStream) : List ClientStream :=
  streams.replaceF fun stream =>
    if stream.streamId = streamId ∧ streamId ≠ 0 then some (change stream) else none

/-! ### Sending data -/

/-- A cell of data: as it is queued in all its layers, and as the last hop reads it. -/
structure DataCell where
  wrapped : Payload
  stamped : Payload

namespace FlowCircuit

/-- Either window is used up. -/
def Blocked (circ : FlowCircuit) (streamId : UInt16) : Prop :=
  circ.circPackageWindow ≤ 0 ∨
    ∃ stream ∈ circuitFindStream streamId circ.streams, stream.packageWindow ≤ 0
  deriving Decidable

variable (nowMs : ℕ) (streamId : UInt16) (circ : FlowCircuit)

/-- Records the time and the digest of the last hop. -/
def recordSendme : FlowCircuit :=
  { circ with
    congestion := { circ.congestion with
      sendmeTimestamps := circ.congestion.sendmeTimestamps.push nowMs }
    sendmeAuthExpected :=
      match circ.hops.getLast? with
      | none => circ.sendmeAuthExpected
      | some hop => circ.sendmeAuthExpected.push (authDigest hop.forward.digest) }

def countCell : Option FlowCircuit :=
  match Checked.signed 32 (circ.inflight + 1) with
  | none => none
  | some inflight =>
    let circ := { circ with
      inflight := inflight
      congestion := { circ.congestion with
        cwndFull := circ.congestion.cwndFull || decide (circ.congestion.cwnd ≤ inflight) }
      circPackageWindow :=
        if 0 < circ.circPackageWindow then circ.circPackageWindow - 1 else circ.circPackageWindow
      streams := modifyStream streamId (fun stream => { stream with
        packageWindow :=
          if 0 < stream.packageWindow then stream.packageWindow - 1 else stream.packageWindow })
        circ.streams }
    some (if 0 < inflight ∧ inflight % moorSendmeIncrement = 0 then circ.recordSendme nowMs
      else circ)

/-- Sends the pieces of some data; for each the queue takes the cell at a time, or refuses. Returns
zero when all is sent, what was sent before a window was used up, or minus one. -/
def sendPieces (C : Crypto) (streamId : UInt16) (totalLen : ℕ) :
    List Bytes → List (Option ℕ) → FlowCircuit → Option (FlowCircuit × List DataCell × ℤ)
  | [], _, circ => some (circ, [], 0)
  | chunk :: rest, queue, circ =>
    let len := (chunk :: rest).flatten.length
    if circ.Blocked streamId then
      some (circ, [], if len < totalLen then (totalLen : ℤ) - len else -1)
    else
      let payload := cellRelay relayData streamId chunk
      let (hops, wrapped) := circuitEncryptForward C circ.hops payload
      match wrapped, queue.headD none with
      | some wrapped, some nowMs => do
        let circ' ← countCell nowMs streamId { circ with hops := hops }
        let (circ', cells, ret) ← sendPieces C streamId totalLen rest queue.tail circ'
        let stamped := (setLastDigest C (circ.hops.map Hop.forward) payload).2
        return (circ', ⟨wrapped, stamped⟩ :: cells, ret)
      | _, _ => some ({ circ with hops := hops }, [], -1)

def sendData (C : Crypto) (streamId : UInt16) (data : Bytes) (queue : List (Option ℕ))
    (circ : FlowCircuit) : Option (FlowCircuit × List DataCell × ℤ) :=
  sendPieces C streamId data.length (chunks moorRelayData data) queue circ

/-! ### SENDMEs -/

/-- A SENDME whose digest was right acknowledges a hundred cells. -/
def sendmeAccepted : Option FlowCircuit := do
  let window := if moorCircuitWindow < circ.circPackageWindow then moorCircuitWindow
    else circ.circPackageWindow
  let window ← Checked.signed 32 (window + moorSendmeIncrement)
  let congestion ← circ.congestion.onSendme nowMs
  return { circ with
    inflight :=
      if moorSendmeIncrement ≤ circ.inflight then circ.inflight - moorSendmeIncrement else 0
    circPackageWindow := window
    congestion := congestion }

def streamSendme : FlowCircuit :=
  { circ with
    streams := modifyStream streamId (fun stream => { stream with
      packageWindow :=
        (if moorStreamWindow < stream.packageWindow then moorStreamWindow
          else stream.packageWindow) + moorSendmeIncrement }) circ.streams }

/-- Handles a SENDME. One for the circuit is refused unless it carries the oldest digest that was
recorded. -/
def handleSendme (sendmeData : Bytes) (circ : FlowCircuit) : Option (FlowCircuit × Bool) :=
  if streamId = 0 then
    if circ.sendmeAuthExpected.count = 0 then some (circ, false)
    else if sendmeData.length < 20 then some (circ, false)
    else if sendmeData.take 20 ≠ circ.sendmeAuthExpected.oldest.val then some (circ, false)
    else
      (sendmeAccepted nowMs { circ with sendmeAuthExpected := circ.sendmeAuthExpected.pop }).map
        fun circ => (circ, true)
  else some (circ.streamSendme streamId, true)

/-! ### Flow control over whole runs -/

/-- What can happen to the flow control of a circuit. -/
inductive Event
  | sendData (streamId : UInt16) (data : Bytes) (queue : List (Option ℕ))
  | handleSendme (nowMs : ℕ) (streamId : UInt16) (sendmeData : Bytes)
  | openStream (streamId : UInt16)
  | closeStream (streamId : UInt16)

/-- One event. The step is not taken if an operation leaves its type or divides by zero. -/
def step (C : Crypto) (circ : FlowCircuit) : Event → Option FlowCircuit
  | .sendData streamId data queue => (circ.sendData C streamId data queue).map Prod.fst
  | .handleSendme nowMs streamId sendmeData =>
    (circ.handleSendme nowMs streamId sendmeData).map Prod.fst
  | .openStream streamId =>
    some { circ with streams := ⟨streamId, moorStreamWindow⟩ :: circ.streams }
  | .closeStream streamId =>
    some { circ with streams := circ.streams.filter fun stream => stream.streamId != streamId }

/-- What holds between the calls. -/
structure Ok : Prop where
  hops : circ.hops ≠ []
  inflight_nonneg : 0 ≤ circ.inflight
  inflight_le : circ.inflight ≤ moorCircuitWindow
  window : circ.circPackageWindow = moorCircuitWindow - circ.inflight
  digests : (circ.sendmeAuthExpected.count : ℤ) = circ.inflight / moorSendmeIncrement
  times : circ.congestion.sendmeTimestamps.count = circ.sendmeAuthExpected.count
  streams : ∀ stream ∈ circ.streams, 0 ≤ stream.packageWindow ∧ stream.packageWindow ≤ 200
  congestion : circ.congestion.Ok

variable {hops : List Hop} {circ : FlowCircuit}

theorem ok_init (h : hops ≠ []) (ccPathType : UInt8) : (init hops ccPathType).Ok := by
  constructor
  case hops => exact h
  case congestion => exact Congestion.ok_init ccPathType
  all_goals simp [init, Congestion.init, moorCircuitWindow]

/-- What holds of the windows of all streams holds after one of them is changed. -/
theorem forall_mem_modifyStream {P : ClientStream → Prop} {streamId : UInt16}
    {change : ClientStream → ClientStream} {streams : List ClientStream}
    (hchange : ∀ stream, P stream → P (change stream)) (h : ∀ stream ∈ streams, P stream) :
    ∀ stream ∈ modifyStream streamId change streams, P stream := by
  induction streams with
  | nil => exact h
  | cons first rest ih =>
    rw [forall_mem_cons] at h
    by_cases hid : first.streamId = streamId ∧ streamId ≠ 0
    · rw [modifyStream, replaceF_cons, if_pos hid]
      exact forall_mem_cons.mpr ⟨hchange first h.1, h.2⟩
    · rw [modifyStream, replaceF_cons, if_neg hid]
      exact forall_mem_cons.mpr ⟨h.1, ih h.2⟩

/-- A cell that is counted: the window is one less, and at every hundredth cell the digest of the
last hop is recorded. -/
theorem countCell_spec (h : circ.Ok) (hwin : 0 < circ.circPackageWindow) {last : Hop}
    (hlast : circ.hops.getLast? = some last) (nowMs : ℕ) (streamId : UInt16) :
    ∃ circ', circ.countCell nowMs streamId = some circ' ∧ circ'.Ok ∧ circ'.hops = circ.hops ∧
      circ'.inflight = circ.inflight + 1 ∧
      circ'.sendmeAuthExpected.toList = circ.sendmeAuthExpected.toList ++
        (if (circ.inflight + 1) % moorSendmeIncrement = 0 then [authDigest last.forward.digest]
          else []) ∧
      (circ.streams = [] → circ'.streams = []) ∧
      circ'.congestion.sendmeAckCount = circ.congestion.sendmeAckCount := by
  have hle := h.inflight_le
  have hpackage := h.window
  have hdigests := h.digests
  have htimes := h.times
  have hstreams : ∀ stream ∈ modifyStream streamId (fun stream => { stream with
      packageWindow :=
        if 0 < stream.packageWindow then stream.packageWindow - 1 else stream.packageWindow })
      circ.streams, 0 ≤ stream.packageWindow ∧ stream.packageWindow ≤ 200 := by
    refine forall_mem_modifyStream (fun stream hstream => ?_) h.streams
    dsimp only
    split_ifs <;> omega
  rw [moorCircuitWindow] at hle hpackage
  rw [moorSendmeIncrement] at hdigests
  have hcc := h.congestion
  simp only [countCell, Checked.signed_eq_some 32 (x := circ.inflight + 1) (by omega)
    (by omega)]
  by_cases hrec : (circ.inflight + 1) % moorSendmeIncrement = 0
  · have hmod : (circ.inflight + 1) % 100 = 0 := hrec
    have hroom : circ.sendmeAuthExpected.count < moorSendmeAuthMax :=
      show _ < 10 by omega
    have hroom' : circ.congestion.sendmeTimestamps.count < moorCcSendmeTsMax :=
      show _ < 20 by omega
    have hboth : 0 < circ.inflight + 1 ∧ (circ.inflight + 1) % moorSendmeIncrement = 0 :=
      ⟨by omega, hrec⟩
    rw [if_pos hboth, if_pos hrec]
    refine ⟨_, rfl, ?_, rfl, rfl, ?_, fun hnil => congrArg (modifyStream _ _) hnil, rfl⟩
    · constructor
      case hops => exact h.hops
      case streams => exact hstreams
      case congestion => exact { hcc with }
      case times =>
        simp [recordSendme, hlast, count_push hroom, count_push hroom', htimes]
      case digests =>
        simp only [recordSendme, hlast, count_push hroom, moorSendmeIncrement]
        omega
      all_goals simp only [recordSendme, moorCircuitWindow, if_pos hwin]; omega
    · simp only [recordSendme, hlast]
      exact toList_push hroom _
  · have hmod : ¬(circ.inflight + 1) % 100 = 0 := hrec
    rw [if_neg fun hboth => hrec hboth.2, if_neg hrec, append_nil]
    refine ⟨_, rfl, ?_, rfl, rfl, rfl, fun hnil => congrArg (modifyStream _ _) hnil, rfl⟩
    constructor
    case hops => exact h.hops
    case streams => exact hstreams
    case congestion => exact { hcc with }
    case times => exact htimes
    case digests => simp only [moorSendmeIncrement]; omega
    all_goals simp only [moorCircuitWindow, if_pos hwin]; omega

theorem hops_ne_nil_circuitEncryptForward {C : Crypto} {hops' : List Hop} {payload : Payload}
    {wrapped : Option Payload} (h : hops ≠ [])
    (henc : circuitEncryptForward C hops payload = (hops', wrapped)) : hops' ≠ [] := by
  have hkeys := congrArg length (map_keys_circuitEncryptForward C hops payload)
  rw [length_map, length_map, henc] at hkeys
  exact ne_nil_of_length_pos (hkeys ▸ length_pos_iff.mpr h)

theorem Ok.setHops (h : circ.Ok) (hhops : hops ≠ []) : Ok { circ with hops := hops } :=
  { h with hops := hhops }

/-- Sending data never leaves a type, whatever the queue answers. -/
theorem sendPieces_spec (C : Crypto) (streamId : UInt16) (totalLen : ℕ) {pieces : List Bytes}
    {queue : List (Option ℕ)} {circ : FlowCircuit} (h : circ.Ok) :
    ∃ circ' cells ret, sendPieces C streamId totalLen pieces queue circ = some (circ', cells, ret) ∧
      circ'.Ok := by
  induction pieces generalizing queue circ with
  | nil => exact ⟨circ, [], 0, rfl, h⟩
  | cons chunk rest ih =>
    rw [sendPieces]
    by_cases hblocked : circ.Blocked streamId
    · rw [if_pos hblocked]
      exact ⟨circ, [], _, rfl, h⟩
    rw [if_neg hblocked]
    cases henc : circuitEncryptForward C circ.hops (cellRelay relayData streamId chunk) with
    | mk hops wrapped =>
    have hhops := hops_ne_nil_circuitEncryptForward h.hops henc
    have hset := h.setHops hhops
    simp only [henc]
    cases wrapped with
    | none => exact ⟨_, [], -1, rfl, hset⟩
    | some wrapped =>
    cases queue.headD none with
    | none => exact ⟨_, [], -1, rfl, hset⟩
    | some nowMs =>
    have hwin : 0 < circ.circPackageWindow := lt_of_not_ge fun hle => hblocked (.inl hle)
    have hlast := getLast?_eq_some_getLast hhops
    obtain ⟨circ₁, hcount, hok, -⟩ := countCell_spec hset hwin hlast nowMs streamId
    obtain ⟨circ', cells, ret, hrest, hok'⟩ := @ih queue.tail _ hok
    simp only [hcount, hrest, bind_eq_bind, bind_some]
    exact ⟨circ', _, ret, rfl, hok'⟩

/-- A SENDME with the oldest digest is accepted. It acknowledges a hundred cells, and nothing leaves
its type. -/
theorem handleSendme_accepts (h : circ.Ok) {digest : AuthDigest} {rest : List AuthDigest}
    (hexp : circ.sendmeAuthExpected.toList = digest :: rest) {sendmeData : Bytes}
    (hdata : sendmeData.take 20 = digest.val) (nowMs : ℕ) :
    ∃ circ', circ.handleSendme nowMs 0 sendmeData = some (circ', true) ∧ circ'.Ok ∧
      circ'.hops = circ.hops ∧ circ'.inflight = circ.inflight - moorSendmeIncrement ∧
      circ'.sendmeAuthExpected.toList = rest ∧ circ'.streams = circ.streams ∧
      circ'.congestion.sendmeAckCount = (circ.congestion.sendmeAckCount + 1) % 2 ^ 32 := by
  have hcount : circ.sendmeAuthExpected.count = rest.length + 1 := by
    simp [← RingBuffer.length_toList, hexp]
  rw [RingBuffer.toList_eq_cons (by omega), cons_eq_cons] at hexp
  have hlen : ¬sendmeData.length < 20 := by
    have htake := congrArg length hdata
    rw [length_take, digest.property] at htake
    omega
  have hle := h.inflight_le
  have hwin := h.window
  have hdigests := h.digests
  rw [moorCircuitWindow] at hle hwin
  rw [moorSendmeIncrement] at hdigests
  have hinflight : moorSendmeIncrement ≤ circ.inflight := show 100 ≤ _ by omega
  have hcap : ¬moorCircuitWindow < circ.circPackageWindow := show ¬1000 < _ by omega
  have hchecked := Checked.signed_eq_some 32 (x := circ.circPackageWindow + moorSendmeIncrement)
    (by rw [moorSendmeIncrement]; omega) (by omega)
  obtain ⟨cc', hsendme, hcc', htimes, hacks⟩ := Congestion.onSendme_spec h.congestion nowMs
  have hdig : ¬sendmeData.take 20 ≠ circ.sendmeAuthExpected.oldest.val := by
    rw [hexp.1, not_not, hdata]
  rw [handleSendme, if_pos rfl, if_neg (by omega), if_neg hlen, if_neg hdig]
  simp only [sendmeAccepted, if_neg hcap, hchecked, hsendme, if_pos hinflight,
    bind_eq_bind, bind_some, Option.pure_def, map_some]
  refine ⟨_, rfl, ?_, rfl, rfl, hexp.2, rfl, hacks⟩
  constructor
  case hops => exact h.hops
  case streams => exact h.streams
  case congestion => exact hcc'
  case times => simp [htimes, h.times]
  case digests => simp only [RingBuffer.count_pop, moorSendmeIncrement]; omega
  all_goals simp only [moorCircuitWindow, moorSendmeIncrement]; omega

/-- A SENDME for a stream leaves its window within bounds. -/
theorem streamSendme_ok (h : circ.Ok) (streamId : UInt16) : (circ.streamSendme streamId).Ok := by
  have hstreams : ∀ stream ∈ (circ.streamSendme streamId).streams,
      0 ≤ stream.packageWindow ∧ stream.packageWindow ≤ 200 := by
    refine forall_mem_modifyStream (fun stream hstream => ?_) h.streams
    simp only [moorStreamWindow, moorSendmeIncrement]
    split_ifs <;> omega
  exact { h with streams := hstreams }

/-- No SENDME, whatever it contains, makes anything leave its type. -/
theorem handleSendme_spec (h : circ.Ok) (nowMs : ℕ) (streamId : UInt16) (sendmeData : Bytes) :
    ∃ circ' accepted, circ.handleSendme nowMs streamId sendmeData = some (circ', accepted) ∧
      circ'.Ok := by
  by_cases hcircuit : streamId = 0
  · by_cases hcount : circ.sendmeAuthExpected.count = 0
    · exact ⟨circ, false, by rw [handleSendme, if_pos hcircuit, if_pos hcount], h⟩
    by_cases hdig : sendmeData.take 20 = circ.sendmeAuthExpected.oldest.val
    · obtain ⟨circ', haccepts, hok, -⟩ := handleSendme_accepts h
        (toList_eq_cons (by omega)) hdig nowMs
      exact ⟨circ', true, hcircuit ▸ haccepts, hok⟩
    · refine ⟨circ, false, ?_, h⟩
      rw [handleSendme, if_pos hcircuit, if_neg hcount, if_pos hdig, ite_self]
  · exact ⟨_, true, if_neg hcircuit, streamSendme_ok h streamId⟩

/-- Every event can be taken, and keeps the invariant. -/
theorem step_spec (C : Crypto) (circ : FlowCircuit) (event : Event) (h : circ.Ok) :
    ∃ circ', circ.step C event = some circ' ∧ circ'.Ok := by
  cases event with
  | sendData streamId data queue =>
    obtain ⟨circ', cells, ret, hsend, hok⟩ := sendPieces_spec C streamId data.length h
    exact ⟨circ', by rw [step, sendData, hsend]; rfl, hok⟩
  | handleSendme nowMs streamId sendmeData =>
    obtain ⟨circ', accepted, hsendme, hok⟩ := handleSendme_spec h nowMs streamId sendmeData
    exact ⟨circ', by rw [step, hsendme]; rfl, hok⟩
  | openStream streamId =>
    refine ⟨_, rfl, { h with streams := forall_mem_cons.mpr ⟨?_, h.streams⟩ }⟩
    simp [moorStreamWindow]
  | closeStream streamId =>
    refine ⟨_, rfl, { h with streams := ?_ }⟩
    exact fun stream hmem => h.streams stream (mem_filter.mp hmem).1

end FlowCircuit

/-- **Flow control at the client.** Whatever is sent and whatever SENDMEs come, no operation leaves
its type or divides by zero; the window is what is not in flight, one digest is kept for every
hundred cells in flight, and the congestion window stays within its limits. The number of SENDMEs
that came, which nothing reads, counts modulo `2 ^ 32`. -/
theorem flow_control_invariant (C : Crypto) {hops : List Hop} (hhops : hops ≠ [])
    (ccPathType : UInt8) (events : List FlowCircuit.Event) :
    ∃ circ, Run.run (FlowCircuit.step C) (FlowCircuit.init hops ccPathType) events = some circ ∧
      circ.circPackageWindow = 1000 - circ.inflight ∧ 0 ≤ circ.inflight ∧ circ.inflight ≤ 1000 ∧
      (circ.sendmeAuthExpected.count : ℤ) = circ.inflight / 100 ∧
      circ.sendmeAuthExpected.count ≤ 10 ∧
      100 ≤ circ.congestion.cwnd ∧ circ.congestion.cwnd ≤ 2000 ∧
      ∀ stream ∈ circ.streams, 0 ≤ stream.packageWindow ∧ stream.packageWindow ≤ 200 := by
  obtain ⟨circ, hrun, h⟩ := Run.exists_run_of_step (FlowCircuit.step_spec C) events
    (FlowCircuit.ok_init hhops ccPathType)
  exact ⟨circ, hrun, h.window, h.inflight_nonneg, h.inflight_le, h.digests,
    circ.sendmeAuthExpected.count_le, h.congestion.cwnd_ge, h.congestion.cwnd_le, h.streams⟩

namespace FlowCircuit

/-- A circuit of one hop, which has no streams, has sent a number of cells and got a number of
SENDMEs. -/
structure OneHop (circ : FlowCircuit) (inflight : ℤ) (sent acks : ℕ) : Prop where
  ok : circ.Ok
  inflight_eq : circ.inflight = inflight
  streams_nil : circ.streams = []
  acks_eq : circ.congestion.sendmeAckCount = acks
  hop : ∃ hop, circ.hops = [hop] ∧ hop.forward.nonce.toNat = sent

theorem circuitEncryptForward_singleton (C : Crypto) (hop : Hop)
    (h : hop.forward.nonce.toNat < 2 ^ 64 - 1) (payload : Payload) :
    ∃ hop' wrapped, circuitEncryptForward C [hop] payload = ([hop'], some wrapped) ∧
      hop'.forward.nonce.toNat = hop.forward.nonce.toNat + 1 := by
  have hne : hop.forward.nonce ≠ Layer.uint64Max := by
    intro heq
    rw [heq] at h
    exact absurd h (by decide)
  simp only [circuitEncryptForward, sendLayers, map_cons, map_nil, setLastDigest,
    encryptLayers, Layer.crypt, if_neg hne, zipWith_cons_cons, zipWith_nil_left]
  refine ⟨_, _, rfl, ?_⟩
  simp only [Layer.bump, UInt64.toNat_add, UInt64.toNat_one]
  omega

variable {C : Crypto} {circ : FlowCircuit}

/-- All pieces are sent while the window lasts. -/
theorem OneHop.sendPieces {inflight : ℤ} {sent acks : ℕ} (h : circ.OneHop inflight sent acks)
    (streamId : UInt16) (totalLen : ℕ) (pieces : List Bytes)
    (hinflight : inflight + pieces.length ≤ 1000) (hsent : sent + pieces.length < 2 ^ 64) :
    ∃ circ' cells, FlowCircuit.sendPieces C streamId totalLen pieces
        (List.replicate pieces.length (some 0)) circ = some (circ', cells, 0) ∧
      circ'.OneHop (inflight + pieces.length) (sent + pieces.length) acks := by
  induction pieces generalizing circ inflight sent with
  | nil => exact ⟨circ, [], rfl, by simpa using h⟩
  | cons chunk rest ih =>
    rw [length_cons] at hinflight hsent
    obtain ⟨hop, hhops, hnonce⟩ := h.hop
    obtain ⟨hop', wrapped, henc, hnonce'⟩ := circuitEncryptForward_singleton C hop
      (by omega) (cellRelay relayData streamId chunk)
    have hpackage := h.ok.window
    rw [h.inflight_eq, moorCircuitWindow] at hpackage
    have hblocked : ¬circ.Blocked streamId := by
      rintro (hle | ⟨stream, hstream, -⟩)
      · omega
      · simp [circuitFindStream, h.streams_nil] at hstream
    obtain ⟨circ₁, hcount, hok, hhops₁, hinflight₁, -, hstreams₁, hacks₁⟩ :=
      countCell_spec (h.ok.setHops (cons_ne_nil hop' [])) (by simp only; omega) rfl 0 streamId
    have hone : circ₁.OneHop (inflight + 1) (sent + 1) acks :=
      ⟨hok, hinflight₁.trans (congrArg (· + 1) h.inflight_eq), hstreams₁ h.streams_nil,
        hacks₁.trans h.acks_eq, hop', hhops₁, hnonce'.trans (congrArg (· + 1) hnonce)⟩
    obtain ⟨circ', cells, hrest, hone'⟩ := ih hone (by push_cast at hinflight; omega) (by omega)
    rw [FlowCircuit.sendPieces, if_neg hblocked, hhops]
    simp only [length_cons, replicate_succ, headD_cons, tail_cons, henc,
      hcount, hrest, bind_eq_bind, bind_some]
    refine ⟨circ', _, rfl, ?_⟩
    convert hone' using 1
    · omega
    · omega

/-- Data for a hundred cells, and the SENDME for them. -/
theorem OneHop.round {sent acks : ℕ} (h : circ.OneHop 0 sent acks) (hsent : sent + 100 < 2 ^ 64)
    {data : Bytes} (hdata : (chunks moorRelayData data).length = 100) :
    ∃ digest circ', Run.run (step C) circ [.sendData 7 data (List.replicate 100 (some 0)),
        .handleSendme 0 0 digest] = some circ' ∧
      circ'.OneHop 0 (sent + 100) ((acks + 1) % 2 ^ 32) := by
  obtain ⟨circ₁, cells, hsend, hone⟩ := h.sendPieces (C := C) 7 data.length
    (chunks moorRelayData data) (by rw [hdata]; decide) (by omega)
  rw [hdata] at hsend hone
  have hcount : circ₁.sendmeAuthExpected.count = 1 := by
    have hdigests := hone.ok.digests
    rw [hone.inflight_eq, moorSendmeIncrement] at hdigests
    exact_mod_cast hdigests
  have hexp := toList_eq_cons (hcount ▸ Nat.one_pos)
  obtain ⟨circ', haccepts, hok, hhops, hinflight, -, hstreams, hacks⟩ :=
    handleSendme_accepts hone.ok hexp
      (take_of_length_le circ₁.sendmeAuthExpected.oldest.property.le) 0
  refine ⟨circ₁.sendmeAuthExpected.oldest.val, circ', ?_, hok, ?_,
    hstreams.trans hone.streams_nil, hacks.trans ?_, ?_⟩
  · simp only [Run.run, step, sendData, hsend, haccepts, map_some]
  · rw [hinflight, hone.inflight_eq]
    rfl
  · rw [hone.acks_eq]
  · rw [hhops]
    exact hone.hop

/-- A hop that has sent nothing. -/
def sampleHop : Hop where
  nodeId := Arr.replicate 32 1
  forward := ⟨Arr.replicate 32 2, 0, Arr.replicate 32 3⟩
  backward := ⟨Arr.replicate 32 4, 0, Arr.replicate 32 5⟩

theorem oneHop_init : (init [sampleHop] 0).OneHop 0 0 0 :=
  ⟨ok_init (by simp) 0, rfl, rfl, rfl, sampleHop, rfl, rfl⟩

theorem exists_hundred_chunks : ∃ data : Bytes, (chunks moorRelayData data).length = 100 := by
  refine ⟨replicate (100 * moorRelayData) 0, ?_⟩
  rw [chunks, length_map, length_range, length_replicate]
  rfl

/-- One round after the other. -/
theorem exists_rounds (C : Crypto) {n : ℕ} (h : n < 2 ^ 32) :
    ∃ events circ, Run.run (step C) (init [sampleHop] 0) events = some circ ∧
      circ.OneHop 0 (100 * n) n := by
  induction n with
  | zero => exact ⟨[], _, rfl, oneHop_init⟩
  | succ n ih =>
    obtain ⟨events, circ, hrun, hone⟩ := ih (by omega)
    obtain ⟨data, hdata⟩ := exists_hundred_chunks
    obtain ⟨digest, circ', hround, hone'⟩ := hone.round (C := C) (by omega) hdata
    refine ⟨events ++ _, circ', (Run.run_append hrun _).trans hround, ?_⟩
    rwa [Nat.mod_eq_of_lt h] at hone'

end FlowCircuit

theorem flow_control_invariant_sampleHop :
    ∃ circ, Run.run (FlowCircuit.step Crypto.sample) (FlowCircuit.init [FlowCircuit.sampleHop] 0)
        [.openStream 1, .sendData 1 [1, 2, 3] [some 5], .handleSendme 6 0 [],
          .handleSendme 7 1 []] = some circ ∧
      circ.circPackageWindow = 1000 - circ.inflight ∧ 0 ≤ circ.inflight ∧ circ.inflight ≤ 1000 ∧
      (circ.sendmeAuthExpected.count : ℤ) = circ.inflight / 100 ∧
      circ.sendmeAuthExpected.count ≤ 10 ∧
      100 ≤ circ.congestion.cwnd ∧ circ.congestion.cwnd ≤ 2000 ∧
      ∀ stream ∈ circ.streams, 0 ≤ stream.packageWindow ∧ stream.packageWindow ≤ 200 :=
  flow_control_invariant Crypto.sample (by simp) 0 _

/-- After `2 ^ 32` SENDMEs the number of them is zero again. -/
theorem sendme_ack_count_wraps :
    ∃ hops events circ, hops ≠ [] ∧
      Run.run (FlowCircuit.step Crypto.sample) (FlowCircuit.init hops 0) events = some circ ∧
      circ.congestion.sendmeAckCount = 2 ^ 32 - 1 ∧
      ∃ events' circ', Run.run (FlowCircuit.step Crypto.sample) circ events' = some circ' ∧
        circ'.congestion.sendmeAckCount = 0 := by
  obtain ⟨events, circ, hrun, hone⟩ :=
    FlowCircuit.exists_rounds Crypto.sample (n := 2 ^ 32 - 1) (by decide)
  obtain ⟨data, hdata⟩ := FlowCircuit.exists_hundred_chunks
  obtain ⟨digest, circ', hround, hone'⟩ := hone.round (C := Crypto.sample) (by decide) hdata
  exact ⟨_, events, circ, cons_ne_nil _ _, hrun, hone.acks_eq, _, circ', hround, hone'.acks_eq⟩

end Moor
