import Moor.Circuit.FlowControl
import Moor.HiddenService.EndToEnd

/-!
# The rendezvous of a client and a hidden service

The service answers an introduction with a key of its own, which the rendezvous point passes on to
the client. The client sends a KEM ciphertext back in pieces, and from then on both ends encrypt the
data of their streams, one record to a cell, with counters as nonces. A record that the circuit of
the client does not take waits in the buffer of its SOCKS client. The two ends move in any order,
and the cells of each direction arrive in the order in which they were sent.
-/

namespace Moor

open Codec

/-! ### The handshake -/

/-- A circuit on which nothing was sent to the other end yet. -/
def RpCircuit.new (circuitId : UInt32) (hops : List Hop) : RpCircuit where
  circuitId := circuitId
  hops := hops
  e2eActive := false
  e2eKemPending := false
  e2eDhShared := Field.zero 32
  e2eKemCt := []
  e2eSendKey := Field.zero 32
  e2eRecvKey := Field.zero 32
  e2eSendNonce := 0
  e2eRecvNonce := 0
  markedForClose := false
  closed := false
  streams := []
  log := []

/-- Derives the keys of both directions from a secret, and activates them. -/
def RpCircuit.activateE2e (C : Crypto) (secret : Field 32) (sendId recvId : UInt64)
    (circ : RpCircuit) : RpCircuit :=
  { circ with
    e2eSendKey := C.kdf secret sendId (ascii "moore2e!")
    e2eRecvKey := C.kdf secret recvId (ascii "moore2e!")
    e2eSendNonce := 0
    e2eRecvNonce := 0
    e2eActive := true }

/-- The service answers the key of a client. It waits for the KEM ciphertext if it has a KEM key.
Returns its circuit and the cell for the rendezvous point. -/
def hsRendezvous (C : Crypto) (kemGenerated : Bool) (eph : KeyPair) (rendezvousCookie : Field 20)
    (clientEphemeralPk : Field 32) (circ : RpCircuit) : Option (RpCircuit × Payload) :=
  match cryptoDh C eph.sk clientEphemeralPk with
  | none => none
  | some shared =>
    let rv1Data := rendezvousCookie.val ++ eph.pk.val ++ (C.hash shared.val).val
    let circ :=
      if kemGenerated then
        { circ with
          e2eDhShared := shared
          e2eKemPending := true
          e2eKemCt := []
          e2eActive := false }
      else circ.activateE2e C shared 1 0
    some (circ, cellRelay relayRendezvous1 0 rv1Data)

/-- The rendezvous point passes on to the client what follows the cookie. -/
def rpRendezvous1 (relay : RelayPayload) : Option Payload :=
  if relay.dataLength < 20 + 64 then none
  else some (cellRelay relayRendezvous2 0 ((relay.data.drop 20).take 64))

/-- A SOCKS client. `sendbuf` has what the circuit did not take. -/
structure SocksClient where
  streamId : UInt16
  paused : Bool
  sendbuf : Bytes

/-- The client's end: its circuit, the part of it that sends, and the SOCKS clients that use it.
While it is pending it waits for the service's answer. -/
structure RpClient where
  circ : RpCircuit
  flow : FlowCircuit
  clients : List SocksClient
  e2eEphSk : Field 32
  pending : Bool

/-- Sends a cell without data. Returns the cell as the last hop reads it. -/
def FlowCircuit.sendRelay (C : Crypto) (payload : Payload) (circ : FlowCircuit) :
    FlowCircuit × Option Payload :=
  let (hops, wrapped) := circuitEncryptForward C circ.hops payload
  ({ circ with hops := hops },
    wrapped.map fun _ => (setLastDigest C (circ.hops.map Hop.forward) payload).2)

/-- Sends cells one after the other, of which the connection takes a number. Returns whether all
were sent. -/
def FlowCircuit.sendRelays (C : Crypto) :
    List Payload → ℕ → FlowCircuit → FlowCircuit × List Payload × Bool
  | [], _, circ => (circ, [], true)
  | _ :: _, 0, circ => (circ, [], false)
  | payload :: payloads, taken + 1, circ =>
    match circ.sendRelay C payload with
    | (circ, none) => (circ, [], false)
    | (circ, some cell) =>
      let (circ, cells, ok) := sendRelays C payloads taken circ
      (circ, cell :: cells, ok)

namespace RpClient

/-- The rendezvous failed, and the circuit is destroyed. -/
def pendingFail (client : RpClient) : RpClient :=
  { client with
    circ := { client.circ with closed := true }
    pending := false }

variable (C : Crypto) (resumes : SocksClient → Bool) (forced : Bool)

def pendingComplete (secret : Field 32) (client : RpClient) : RpClient :=
  { client with
    circ := client.circ.activateE2e C secret 0 1
    pending := false }

/-- The client has the service's answer. If the service has a KEM key, the ciphertext is sent before
the keys are active. -/
def handleRendezvous2 (hsKemPk : Option (Field 1184)) (coins : Field 32) (taken : ℕ) (data : Bytes)
    (client : RpClient) : RpClient × List Payload :=
  if data.length < 64 then (client.pendingFail, [])
  else
    match cryptoDh C client.e2eEphSk (Arr.ofList 32 0 data) with
    | none => (client.pendingFail, [])
    | some shared =>
      if C.hash shared.val ≠ Arr.ofList 32 0 (data.drop 32) then (client.pendingFail, [])
      else
        match hsKemPk with
        | none => (client.pendingComplete C shared, [])
        | some kemPk =>
          match C.kemEncapsulate kemPk coins with
          | none => (client.pendingFail, [])
          | some (kemCt, kemSs) =>
            let cells := (chunks moorRelayData kemCt.val).map (cellRelay relayE2eKemCt 0)
            let (flow, sent, ok) := client.flow.sendRelays C cells taken
            let client := { client with flow := flow }
            if ok then (client.pendingComplete C (C.hash (shared.val ++ kemSs.val)), sent)
            else (client.pendingFail, sent)

/-! ### The client sends and receives -/

def modifyClient (streamId : UInt16) (change : SocksClient → SocksClient) (client : RpClient) :
    RpClient :=
  { client with
    clients := client.clients.replaceF fun c =>
      if c.streamId = streamId then some (change c) else none }

/-- Sends the data of a SOCKS client, one record to a cell, which the queue takes at a time or
refuses. What the circuit does not take is kept encrypted, and the rest of the data is not sent.
Returns the cells, and the plaintexts that were encrypted. -/
def forwardRecords (C : AeadCrypto) (streamId : UInt16) :
    List Bytes → List (Option ℕ) → RpClient → Option (RpClient × List Payload × List Bytes)
  | [], _, client => some (client, [], [])
  | chunk :: rest, queue, client =>
    match cryptoAeadEncrypt C chunk [] client.circ.e2eSendKey client.circ.e2eSendNonce with
    | none => some (client.modifyClient streamId fun c => { c with paused := true }, [], [])
    | some record => do
      let (flow, cells, ret) ← client.flow.sendData C.toCrypto streamId record (queue.take 1)
      let client := { client with
        flow := flow
        circ := { client.circ with e2eSendNonce := client.circ.e2eSendNonce + 1 } }
      let sent := cells.map DataCell.stamped
      if ret < 0 then
        return (client.modifyClient streamId fun c =>
          { c with paused := true, sendbuf := record }, sent, [chunk])
      else if 0 < ret ∧ ret < record.length then
        return (client.modifyClient streamId fun c =>
          { c with paused := true, sendbuf := record.drop ret.toNat }, sent, [chunk])
      else
        let (client, more, plains) ← forwardRecords C streamId rest queue.tail client
        return (client, sent ++ more, chunk :: plains)

/-- Resumes a SOCKS client that is to be resumed, and sends what waits in its buffer. If it is still
blocked it stays paused, unless it is forced. -/
def resumeClient (queue : List (Option ℕ)) (c : SocksClient) (flow : FlowCircuit) :
    Option (SocksClient × FlowCircuit × List Payload) :=
  if !resumes c then some (c, flow, [])
  else if c.sendbuf = [] then some ({ c with paused := false }, flow, [])
  else do
    let (flow, cells, ret) ← flow.sendData C c.streamId c.sendbuf queue
    let sent := cells.map DataCell.stamped
    if ret < 0 then return ({ c with paused := !forced }, flow, sent)
    else return ({ c with paused := false, sendbuf := [] }, flow, sent)

def resumeClients (C : Crypto) (resumes : SocksClient → Bool) (forced : Bool)
    (queue : UInt16 → List (Option ℕ)) :
    List SocksClient → FlowCircuit → Option (List SocksClient × FlowCircuit × List Payload)
  | [], flow => some ([], flow, [])
  | c :: clients, flow => do
    let (c, flow, sent) ← resumeClient C resumes forced (queue c.streamId) c flow
    let (clients, flow, more) ← resumeClients C resumes forced queue clients flow
    return (c :: clients, flow, sent ++ more)

def resume (queue : UInt16 → List (Option ℕ)) (client : RpClient) :
    Option (RpClient × List Payload) := do
  let (clients, flow, sent) ← resumeClients C resumes forced queue client.clients client.flow
  return ({ client with clients := clients, flow := flow }, sent)

def resumeReads (C : Crypto) : (UInt16 → List (Option ℕ)) → RpClient →
    Option (RpClient × List Payload) :=
  resume C (fun c => c.paused) false

/-- Resumes the SOCKS client of a stream, also if its buffer is still blocked. -/
def handleXon (streamId : UInt16) : (UInt16 → List (Option ℕ)) → RpClient →
    Option (RpClient × List Payload) :=
  resume C (fun c => c.paused && c.streamId == streamId) true

/-- Forgets the SOCKS clients, and the streams, that have been closed. -/
def prune (client : RpClient) : RpClient :=
  { client with
    clients := client.clients.filter fun c => client.circ.streams.contains c.streamId
    flow := { client.flow with
      streams := client.flow.streams.filter fun stream =>
        client.circ.streams.contains stream.streamId } }

end RpClient

/-- What the surroundings decide: the time, which cells are queued, how much a SOCKS client takes,
the coins for the KEM and how many cells of the ciphertext the connection takes. -/
structure ClientEnv where
  nowMs : ℕ
  queue : UInt16 → List (Option ℕ)
  taken : ℕ
  coins : Field 32
  ctTaken : ℕ

/-- The client takes a cell once the rendezvous is complete. -/
def RpClient.processCircuitCell (C : Crypto) (env : ClientEnv) (relay : RelayPayload)
    (client : RpClient) : Option (RpClient × List Payload) :=
  if relay.relayCommand = relaySendme then do
    let (flow, accepted) ← client.flow.handleSendme env.nowMs relay.streamId relay.data
    let client := { client with flow := flow }
    if accepted = true ∧
        (relay.streamId = 0 ∨ (circuitFindStream relay.streamId flow.streams).isSome) then
      client.resumeReads C env.queue
    else some (client, [])
  else if relay.relayCommand = relayXoff then
    some (client.modifyClient relay.streamId fun c => { c with paused := true }, [])
  else if relay.relayCommand = relayXon then client.handleXon C relay.streamId env.queue
  else
    let circ := client.circ.processRelay C .client (Field.zero 2400) relay env.taken false
    some ({ client with circ := circ }.prune, [])

/-- The service sends the data of a local socket in one cell. A cell that is not sent is lost.
Returns the cell, and the plaintext if a record was encrypted. -/
def RpCircuit.targetRead (C : AeadCrypto) (streamId : UInt16) (data : Bytes) (sent : Bool)
    (circ : RpCircuit) : RpCircuit × List Payload × List Bytes :=
  if circ.e2eActive then
    match cryptoAeadEncrypt C data [] circ.e2eSendKey circ.e2eSendNonce with
    | none => ({ circ with markedForClose := true }, [], [])
    | some record =>
      ({ circ with e2eSendNonce := circ.e2eSendNonce + 1 },
        if sent then [cellRelay relayData streamId record] else [], [data])
  else (circ, if sent then [cellRelay relayData streamId data] else [], [])

/-! ### The joint run -/

/-- What the client and the service bring to the rendezvous. -/
structure Introduction where
  rendezvousCookie : Field 20
  clientEphSk : Field 32
  serviceEphSk : Field 32
  kemPk : Field 1184
  kemSk : Field 2400
  clientId : UInt32
  serviceId : UInt32
  clientHops : List Hop
  serviceHops : List Hop
  ccPathType : UInt8

def records (cells : List Payload) : List Bytes :=
  cells.filterMap fun cell =>
    if (relayUnpack cell).relayCommand = relayData then some (relayUnpack cell).data else none

/-- One direction between the ends: the cells under way, the plaintexts encrypted, the number of
cells of data sent, and what each that arrived was decrypted to. -/
structure Direction where
  cells : List Payload
  plains : List Bytes
  sent : ℕ
  received : List (Option Bytes)

namespace Direction

def send (cells : List Payload) (plains : List Bytes) (d : Direction) : Direction :=
  { d with
    cells := d.cells ++ cells
    plains := d.plains ++ plains
    sent := d.sent + (records cells).length }

/-- The first cell arrives, and the others are left. -/
def arrive (relay : RelayPayload) (plain : Option Bytes) (cells : List Payload) (d : Direction) :
    Direction :=
  { d with
    cells := cells
    received := if relay.relayCommand = relayData then d.received ++ [plain] else d.received }

end Direction

/-- A client and a service that meet at a rendezvous point. -/
structure Meeting where
  client : RpClient
  service : RpCircuit
  up : Direction
  down : Direction

namespace Meeting

/-- What can happen next. The client reads from a SOCKS client, opens or closes a stream, pauses one
or resumes all; either end sends a cell of its own accord; the service reads from a local socket or
closes one; a cell arrives at either end. -/
inductive Event
  | read (streamId : UInt16) (data : Bytes) (queue : List (Option ℕ))
  | openStream (streamId : UInt16) (target : Bytes)
  | closeStream (streamId : UInt16)
  | pause (streamId : UInt16)
  | unpause
  | control (side : RpSide) (relayCmd : UInt8) (streamId : UInt16) (data : Bytes)
  | targetRead (streamId : UInt16) (data : Bytes) (sent : Bool)
  | targetClose (streamId : UInt16)
  | toService (taken : ℕ) (connects : Bool)
  | toClient (env : ClientEnv)

variable (C : Crypto) (streamId : UInt16)

/-- The service has answered, and its answer is on the way to the client. The public key of a secret
key is given by `base`. -/
def start (base : Field 32 → Field 32) (p : Introduction) : Option Meeting := do
  let (service, rv1) ← hsRendezvous C true ⟨base p.serviceEphSk, p.serviceEphSk⟩
    p.rendezvousCookie (base p.clientEphSk) (.new p.serviceId p.serviceHops)
  let rv2 ← rpRendezvous1 (relayUnpack rv1)
  return {
    client := ⟨.new p.clientId p.clientHops, .init p.clientHops p.ccPathType, [], p.clientEphSk,
      true⟩
    service := service
    up := ⟨[], [], 0, []⟩
    down := ⟨[rv2], [], 0, []⟩ }

/-- The client sends cells, and may have changed. -/
def clientSends (s : Meeting) (client : RpClient) (cells : List Payload) (plains : List Bytes) :
    Meeting :=
  { s with client := client, up := s.up.send cells plains }

/-- A SOCKS client has sent data, of which its process reads some. -/
def read (C : AeadCrypto) (streamId : UInt16) (data : Bytes) (queue : List (Option ℕ))
    (s : Meeting) : Option Meeting :=
  match s.client.clients.find? fun c => c.streamId == streamId with
  | none => none
  | some c =>
    if c.paused ∨ data = [] ∨ 4096 < data.length then none
    else do
      let (client, cells, plains) ←
        s.client.forwardRecords C streamId (chunks (moorRelayData - 16) data) queue
      return s.clientSends client cells plains

/-- The client opens a stream that a SOCKS client asks for. -/
def openStream (target : Bytes) (s : Meeting) : Option Meeting :=
  if s.client.pending ∨ streamId = 0 ∨ streamId ∈ s.client.circ.streams then none
  else
    let flow := { s.client.flow with
      streams := ⟨streamId, moorStreamWindow⟩ :: s.client.flow.streams }
    match flow.sendRelay C (cellRelay relayBegin streamId target) with
    | (flow, none) => some { s with client := { s.client with flow := flow } }
    | (flow, some cell) =>
      some (s.clientSends { s.client with
        flow := flow
        circ := { s.client.circ with streams := s.client.circ.streams ++ [streamId] }
        clients := s.client.clients ++ [⟨streamId, false, []⟩] } [cell] [])

/-- A SOCKS client that is read from has closed its connection. -/
def closeStream (s : Meeting) : Option Meeting :=
  match s.client.clients.find? fun c => c.streamId == streamId with
  | none => none
  | some c =>
    if c.paused then none
    else
      let (flow, cell) := s.client.flow.sendRelay C (cellRelay relayEnd streamId [])
      let client := { s.client with
        flow := flow
        circ := { s.client.circ with streams := s.client.circ.streams.erase streamId } }
      some (s.clientSends client.prune cell.toList [])

/-- An end sends a cell of its own accord. Those that the handshake and the data consist of are sent
by the other events. -/
def control (side : RpSide) (relayCmd : UInt8) (streamId : UInt16) (data : Bytes) (s : Meeting) :
    Option Meeting :=
  match side with
  | .client =>
    if s.client.pending ∨ relayCmd = relayData ∨ relayCmd = relayE2eKemCt then none
    else
      let (flow, cell) := s.client.flow.sendRelay C (cellRelay relayCmd streamId data)
      some (s.clientSends { s.client with flow := flow } cell.toList [])
  | .service =>
    if relayCmd = relayData ∨ relayCmd = relayRendezvous2 then none
    else some { s with down := s.down.send [cellRelay relayCmd streamId data] [] }

/-- The service reads from a local socket, no more than fits into a cell. -/
def targetRead (C : AeadCrypto) (streamId : UInt16) (data : Bytes) (sent : Bool) (s : Meeting) :
    Option Meeting :=
  let recvMax := if s.service.e2eActive then moorRelayData - 16 else moorRelayData
  if streamId ∉ s.service.streams ∨ data = [] ∨ recvMax < data.length then none
  else
    let (service, cells, plains) := s.service.targetRead C streamId data sent
    some { s with service := service, down := s.down.send cells plains }

/-- A local socket of the service has closed. -/
def targetClose (s : Meeting) : Option Meeting :=
  if streamId ∉ s.service.streams then none
  else some { s with
    service := { s.service with streams := s.service.streams.erase streamId }
    down := s.down.send [cellRelay relayEnd streamId []] [] }

def toService (kemSk : Field 2400) (taken : ℕ) (connects : Bool) (s : Meeting) : Option Meeting :=
  match s.up.cells with
  | [] => none
  | cell :: cells =>
    let relay := relayUnpack cell
    some { s with
      service := s.service.processRelay C .service kemSk relay taken connects
      up := s.up.arrive relay (s.service.e2eDecrypt C .service relay).2 cells }

/-- A cell arrives at the client. The meeting is over if the rendezvous fails. -/
def toClient (kemPk : Field 1184) (env : ClientEnv) (s : Meeting) : Option Meeting :=
  match s.down.cells with
  | [] => none
  | cell :: cells =>
    let relay := relayUnpack cell
    let s' := { s with
      down := s.down.arrive relay (s.client.circ.e2eDecrypt C .client relay).2 cells }
    if s.client.pending then
      if relay.relayCommand = relayRendezvous2 then
        let (client, sent) :=
          s.client.handleRendezvous2 C (some kemPk) env.coins env.ctTaken relay.data
        if client.circ.closed then none else some (s'.clientSends client sent [])
      else some s'
    else do
      let (client, sent) ← s.client.processCircuitCell C env relay
      return s'.clientSends client sent []

def step (C : AeadCrypto) (p : Introduction) (s : Meeting) : Event → Option Meeting
  | .read streamId data queue => s.read C streamId data queue
  | .openStream streamId target => s.openStream C.toCrypto streamId target
  | .closeStream streamId => s.closeStream C.toCrypto streamId
  | .pause streamId =>
    some { s with client := s.client.modifyClient streamId fun c => { c with paused := true } }
  | .unpause =>
    some { s with client := { s.client with
      clients := s.client.clients.map fun c => { c with paused := false } } }
  | .control side relayCmd streamId data => s.control C.toCrypto side relayCmd streamId data
  | .targetRead streamId data sent => s.targetRead C streamId data sent
  | .targetClose streamId => s.targetClose streamId
  | .toService taken connects => s.toService C.toCrypto p.kemSk taken connects
  | .toClient env => s.toClient C.toCrypto p.kemPk env

end Meeting

end Moor
