import Mathlib.Data.List.Nodup
import Moor.HiddenService.Records

/-!
# What a SOCKS client uploads

What is read from a SOCKS client is sent on its stream, as it is or in records that are encrypted
for the other end. What the circuit does not take waits in a buffer, and the client is paused; a
SENDME or an XON resumes it and sends the buffer. A client can also be resumed because the
connection can be written to again.

The bytes that are sent are the beginning of the bytes that were read as long as a client is read
only while its buffer is empty, a read is refused at its end at most, and a buffer is taken whole or
not at all.
-/

namespace Moor

open Codec List RpClient Function
open Option (bind_eq_bind bind_eq_some_iff ite_none_left_eq_some)

namespace RpClient

/-- Sends what was read from a SOCKS client. Returns the cells, each with the bytes of the
application that it carries, and the bytes that were put into the buffer. -/
def forwardToCircuit (C : AeadCrypto) (streamId : UInt16) (data : Bytes) (queue : List (Option ℕ))
    (client : RpClient) : Option (RpClient × List (Payload × Bytes) × Option Bytes) :=
  if client.circ.e2eActive then do
    let (client, cells, plains) ←
      client.forwardRecords C streamId (chunks (moorRelayData - 16) data) queue
    return (client, cells.zip plains, plains[cells.length]?)
  else do
    let (flow, cells, ret) ← client.flow.sendData C.toCrypto streamId data queue
    let client := { client with flow := flow }
    let sent := cells.map fun cell => (cell.stamped, (relayUnpack cell.stamped).data)
    if ret = 0 then return (client, sent, none)
    else
      let unsent := if ret < 0 then data else data.drop ret.toNat
      return (client.modifyClient streamId fun c => { c with paused := true, sendbuf := unsent },
        sent, some unsent)

end RpClient

/-- The uploads of a circuit: the client and, for each stream since it was opened, the bytes read
from the SOCKS client, the cells of data sent with the bytes that each carries, and the bytes for
which the buffer stands. -/
structure SocksUpload where
  client : RpClient
  read : UInt16 → Bytes
  sent : UInt16 → List (Payload × Bytes)
  parked : UInt16 → Bytes

namespace SocksUpload

variable (C : Crypto) (streamId : UInt16)

/-- The bytes of the application in the cells of a stream. -/
def carried (s : SocksUpload) : Bytes := ((s.sent streamId).map Prod.snd).flatten

/-- Reads from the SOCKS client of a stream, unless it is paused. -/
def readClient (C : AeadCrypto) (streamId : UInt16) (data : Bytes) (queue : List (Option ℕ))
    (s : SocksUpload) : Option SocksUpload :=
  match s.client.clients.find? fun c => c.streamId == streamId with
  | none => none
  | some c =>
    if c.paused ∨ data = [] ∨ 4096 < data.length then none
    else do
      let (client, cells, parked) ← s.client.forwardToCircuit C streamId data queue
      return {
        client := client
        read := update s.read streamId (s.read streamId ++ data)
        sent := update s.sent streamId (s.sent streamId ++ cells)
        parked := update s.parked streamId (parked.getD (s.parked streamId)) }

/-- The cells of a stream among those that a buffer was sent in. -/
def retried (cells : List Payload) (s : SocksUpload) (streamId : UInt16) : List (Payload × Bytes) :=
  (cells.filter fun cell => (relayUnpack cell).streamId == streamId).map fun cell =>
    (cell, if s.client.circ.e2eActive then s.parked streamId else (relayUnpack cell).data)

/-- A cell comes from the other end. Buffers may be sent, and streams may be closed. -/
def processCell (env : ClientEnv) (relay : RelayPayload) (s : SocksUpload) :
    Option SocksUpload := do
  let (client, cells) ← s.client.processCircuitCell C env relay
  let waits (streamId : UInt16) : Bool :=
    client.clients.any fun c => c.streamId == streamId && c.sendbuf ≠ []
  return {
    client := client
    read := s.read
    sent := fun streamId => s.sent streamId ++ s.retried cells streamId
    parked := fun streamId => if waits streamId then s.parked streamId else [] }

def openStream (target : Bytes) (s : SocksUpload) : Option SocksUpload :=
  if streamId = 0 ∨ streamId ∈ s.client.circ.streams then none
  else
    let flow := { s.client.flow with
      streams := ⟨streamId, moorStreamWindow⟩ :: s.client.flow.streams }
    match flow.sendRelay C (cellRelay relayBegin streamId target) with
    | (flow, none) => some { s with client := { s.client with flow := flow } }
    | (flow, some _) =>
      some {
        client := { s.client with
          flow := flow
          circ := { s.client.circ with streams := s.client.circ.streams ++ [streamId] }
          clients := s.client.clients ++ [⟨streamId, false, []⟩] }
        read := update s.read streamId []
        sent := update s.sent streamId []
        parked := update s.parked streamId [] }

def closeStream (s : SocksUpload) : Option SocksUpload :=
  match s.client.clients.find? fun c => c.streamId == streamId with
  | none => none
  | some c =>
    if c.paused then none
    else
      let (flow, _) := s.client.flow.sendRelay C (cellRelay relayEnd streamId [])
      some { s with client := { s.client with
        flow := flow
        circ := { s.client.circ with streams := s.client.circ.streams.erase streamId } }.prune }

/-- What can happen to the uploads. A SOCKS client is paused, and all are resumed, as the queue of
the connection fills and drains. -/
inductive Event
  | openStream (streamId : UInt16) (target : Bytes)
  | closeStream (streamId : UInt16)
  | read (streamId : UInt16) (data : Bytes) (queue : List (Option ℕ))
  | cell (env : ClientEnv) (relay : RelayPayload)
  | pause (streamId : UInt16)
  | unpause
  | control (relayCmd : UInt8) (streamId : UInt16) (data : Bytes)

def step (C : AeadCrypto) (s : SocksUpload) : Event → Option SocksUpload
  | .openStream streamId target => s.openStream C.toCrypto streamId target
  | .closeStream streamId => s.closeStream C.toCrypto streamId
  | .read streamId data queue => s.readClient C streamId data queue
  | .cell env relay => s.processCell C.toCrypto env relay
  | .pause streamId =>
    some { s with client := s.client.modifyClient streamId fun c => { c with paused := true } }
  | .unpause =>
    some { s with client := { s.client with
      clients := s.client.clients.map fun c => { c with paused := false } } }
  | .control relayCmd streamId data =>
    if relayCmd = relayData then none
    else
      let flow := (s.client.flow.sendRelay C.toCrypto (cellRelay relayCmd streamId data)).1
      some { s with client := { s.client with flow := flow } }

/-- Before the first stream. -/
def start (client : RpClient) : SocksUpload :=
  ⟨{ client with
    clients := []
    circ := { client.circ with streams := [] } }, fun _ => [], fun _ => [], fun _ => []⟩

/-! ### The condition -/

/-- The circuit takes every record but the last, which is encrypted at least. -/
def takesRecords (C : AeadCrypto) (streamId : UInt16) :
    List Bytes → List (Option ℕ) → RpClient → Bool
  | [], _, _ => true
  | chunk :: rest, queue, client =>
    match cryptoAeadEncrypt C chunk [] client.circ.e2eSendKey client.circ.e2eSendNonce with
    | none => false
    | some record =>
      rest.isEmpty ||
        match client.flow.sendData C.toCrypto streamId record (queue.take 1) with
        | none => true
        | some (flow, _, ret) => ret = 0 && takesRecords C streamId rest queue.tail { client with
            flow := flow
            circ := { client.circ with e2eSendNonce := client.circ.e2eSendNonce + 1 } }

/-- The circuit does not fail after it has taken some of the data. -/
def noLateRefusal (data : Bytes) (queue : List (Option ℕ)) (flow : FlowCircuit) : Bool :=
  (flow.sendData C streamId data queue).all fun (_, cells, ret) => 0 ≤ ret || cells.isEmpty

/-- The circuit takes each buffer that is sent whole, or nothing of it. -/
def drainsWhole (C : Crypto) (resumes : SocksClient → Bool) (queue : UInt16 → List (Option ℕ)) :
    List SocksClient → FlowCircuit → Bool
  | [], _ => true
  | c :: clients, flow =>
    if !resumes c || c.sendbuf.isEmpty then drainsWhole C resumes queue clients flow
    else
      match flow.sendData C c.streamId c.sendbuf (queue c.streamId) with
      | none => true
      | some (flow, cells, ret) =>
        (ret = 0 || ret < 0 && cells.isEmpty) && drainsWhole C resumes queue clients flow

/-- The SOCKS clients that a cell resumes, and the state of the circuit at that time. -/
def retries (env : ClientEnv) (relay : RelayPayload) (client : RpClient) :
    Option ((SocksClient → Bool) × FlowCircuit) :=
  if relay.relayCommand = relaySendme then
    match client.flow.handleSendme env.nowMs relay.streamId relay.data with
    | none => none
    | some (flow, accepted) =>
      if accepted = true ∧
          (relay.streamId = 0 ∨ (circuitFindStream relay.streamId flow.streams).isSome) then
        some (fun c => c.paused, flow)
      else none
  else if relay.relayCommand = relayXon then
    some (fun c => c.paused && c.streamId == relay.streamId, client.flow)
  else none

/-- A SOCKS client is read while its buffer is empty; a read is refused at its end at most; a buffer
is taken whole or not at all. -/
def keeps (C : AeadCrypto) (s : SocksUpload) : Event → Bool
  | .read streamId data queue =>
    (s.client.clients.find? fun c => c.streamId == streamId).all (fun c => c.sendbuf.isEmpty) &&
      if s.client.circ.e2eActive then
        takesRecords C streamId (chunks (moorRelayData - 16) data) queue s.client
      else noLateRefusal C.toCrypto streamId data queue s.client.flow
  | .cell env relay =>
    (retries env relay s.client).all fun (resumes, flow) =>
      drainsWhole C.toCrypto resumes env.queue s.client.clients flow
  | _ => true

end SocksUpload

variable {C : Crypto} {streamId : UInt16} {cells sent : List Payload} {pieces : List Bytes}
  {queue : List (Option ℕ)} {data : Bytes} {resumes : SocksClient → Bool} {forced : Bool}
  {flow : FlowCircuit} {clients : List SocksClient}

theorem sendData_cells {circ circ' : FlowCircuit} {cells : List DataCell} {ret : ℤ}
    (h : circ.sendData C streamId data queue = some (circ', cells, ret)) :
    ∃ datas, CellsOf streamId (cells.map DataCell.stamped) datas ∧
      (ret = 0 → datas.flatten = data) ∧ (0 < ret → datas.flatten = data.take ret.toNat) := by
  have hsize : 0 < moorRelayData := by decide
  obtain ⟨datas, rest, hpieces, hcells, hall, hpart, -⟩ := sendPieces_cells
    (fun chunk hmem => (ne_nil_and_length_le_of_mem_chunks hsize hmem).2) h
  have hdata : data = datas.flatten ++ rest.flatten := by
    rw [← flatten_chunks hsize data, hpieces, flatten_append]
  refine ⟨datas, hcells, ?_, ?_⟩
  · intro hret
    simp [hdata, hall.mp hret]
  intro hret
  have hlen : ret.toNat = datas.flatten.length := by
    have := hpart hret
    rw [hdata, length_append] at this
    omega
  conv_rhs => rw [hdata]
  rw [hlen, take_left]

/-! ### Buffers that are sent -/

def cellsFor (streamId : UInt16) (cells : List Payload) : List Payload :=
  cells.filter fun cell => (relayUnpack cell).streamId == streamId

theorem cellsFor_append (streamId : UInt16) (cells cells' : List Payload) :
    cellsFor streamId (cells ++ cells') = cellsFor streamId cells ++ cellsFor streamId cells' :=
  filter_append ..

theorem cellsFor_self (h : ∀ cell ∈ cells, (relayUnpack cell).streamId = streamId) :
    cellsFor streamId cells = cells := by
  refine filter_eq_self.mpr fun cell hmem => ?_
  exact beq_iff_eq.mpr (h cell hmem)

theorem cellsFor_other (h : ∀ cell ∈ cells, (relayUnpack cell).streamId ≠ streamId) :
    cellsFor streamId cells = [] := by
  refine filter_eq_nil_iff.mpr fun cell hmem => ?_
  exact fun hid => h cell hmem (beq_iff_eq.mp hid)

/-- What became of the buffer of a SOCKS client: it is as before, and no cell was sent for it; or it
is empty, and the cells have what was in it. -/
def Drained (c c' : SocksClient) (cells : List Payload) : Prop :=
  c'.streamId = c.streamId ∧
    (c'.sendbuf = c.sendbuf ∧ cells = [] ∨
      c.sendbuf ≠ [] ∧ c'.sendbuf = [] ∧ ∃ datas, CellsOf c.streamId cells datas ∧
        datas.flatten = c.sendbuf ∧ (c.sendbuf.length ≤ moorRelayData → datas = [c.sendbuf]))

/-- What becomes of the first SOCKS client, and the condition for the others after it. -/
theorem resumeClient_drained {queue : UInt16 → List (Option ℕ)} {c c' : SocksClient}
    {flow' : FlowCircuit} (hwhole : SocksUpload.drainsWhole C resumes queue (c :: clients) flow)
    (h : RpClient.resumeClient C resumes forced (queue c.streamId) c flow
      = some (c', flow', sent)) :
    Drained c c' sent ∧ SocksUpload.drainsWhole C resumes queue clients flow' := by
  rw [SocksUpload.drainsWhole] at hwhole
  rw [resumeClient] at h
  split at h
  · rename_i hskip
    cases h
    rw [if_pos (by rw [hskip, Bool.true_or])] at hwhole
    exact ⟨⟨rfl, .inl ⟨rfl, rfl⟩⟩, hwhole⟩
  rename_i hresumes
  split at h
  · rename_i hbuf
    cases h
    rw [if_pos (by rw [hbuf, isEmpty_nil, Bool.or_true])] at hwhole
    exact ⟨⟨rfl, .inl ⟨rfl, rfl⟩⟩, hwhole⟩
  rename_i hbuf
  simp only [bind_eq_bind, bind_eq_some_iff] at h
  obtain ⟨⟨flow₁, cells, ret⟩, hsend, h⟩ := h
  rw [if_neg (by simpa [hbuf] using hresumes), hsend] at hwhole
  obtain ⟨hret, hothers⟩ : (ret = 0 ∨ ret < 0 ∧ cells = []) ∧
      SocksUpload.drainsWhole C resumes queue clients flow₁ := by
    simpa using hwhole
  split at h
  · rename_i hneg
    dsimp only at hneg
    cases h
    have hnone := (hret.resolve_left (by omega)).2
    exact ⟨⟨rfl, .inl ⟨rfl, by rw [hnone]; rfl⟩⟩, hothers⟩
  rename_i hnonneg
  cases h
  replace hret : ret = 0 := hret.resolve_right fun hneg => hnonneg hneg.1
  obtain ⟨datas, hcells, hall, -⟩ := sendData_cells hsend
  refine ⟨⟨rfl, .inr ⟨hbuf, rfl, datas, hcells, hall hret, fun hle => ?_⟩⟩, hothers⟩
  rcases sendData_record hbuf hle hsend with ⟨-, hrefused⟩ | ⟨-, cell, hcell, hbody⟩
  · omega
  · rw [← hcells.datas, hcell, map_singleton]
    exact congrArg (fun data => [data]) (congrArg Prod.snd hbody)

/-- A buffer is resumed on its own: its cells among those of all are the ones it was sent in. -/
theorem resumeClients_drained {queue : UInt16 → List (Option ℕ)} {clients' : List SocksClient}
    {flow' : FlowCircuit} (hwhole : SocksUpload.drainsWhole C resumes queue clients flow)
    (hids : (clients.map (·.streamId)).Nodup)
    (h : resumeClients C resumes forced queue clients flow = some (clients', flow', sent)) :
    clients'.map (·.streamId) = clients.map (·.streamId) ∧
      (∀ c' ∈ clients', ∃ c ∈ clients, Drained c c' (cellsFor c.streamId sent)) ∧
      ∀ cell ∈ sent, (relayUnpack cell).streamId ∈ clients.map (·.streamId) := by
  induction clients generalizing flow flow' clients' sent with
  | nil =>
    obtain ⟨rfl, -, rfl⟩ := h
    simp
  | cons c clients ih =>
    simp only [resumeClients, bind_eq_bind, bind_eq_some_iff, Option.pure_def,
      Option.some.injEq, Prod.mk.injEq] at h
    obtain ⟨⟨c', flow₁, sent₁⟩, hfirst, ⟨rest', flow₂, sent₂⟩, hrest, rfl, -, rfl⟩ := h
    rw [map_cons, nodup_cons] at hids
    obtain ⟨hdrained, hothers⟩ := resumeClient_drained hwhole hfirst
    obtain ⟨hsame, hall, hsent⟩ := ih hothers hids.2 hrest
    -- the cells of the first client are for its stream
    have hsent₁ : ∀ cell ∈ sent₁, (relayUnpack cell).streamId = c.streamId := by
      rcases hdrained.2 with ⟨-, hnil⟩ | ⟨-, -, datas, hcells, -⟩
      · rw [hnil]
        exact forall_mem_nil _
      · exact hcells.ids
    refine ⟨by simp [hdrained.1, hsame], ?_, ?_⟩
    · intro d' hd'
      rcases mem_cons.mp hd' with rfl | hd'
      · refine ⟨c, mem_cons_self, ?_⟩
        rw [cellsFor_append, cellsFor_self hsent₁, cellsFor_other, append_nil]
        · exact hdrained
        · exact fun cell hmem hid => hids.1 (hid ▸ hsent cell hmem)
      obtain ⟨d, hd, hdrained'⟩ := hall d' hd'
      refine ⟨d, mem_cons_of_mem c hd, ?_⟩
      rw [cellsFor_append, cellsFor_other, nil_append]
      · exact hdrained'
      · intro cell hmem hid
        exact hids.1 (hsent₁ cell hmem ▸ hid ▸ mem_map_of_mem hd)
    · intro cell hmem
      rcases mem_append.mp hmem with hmem | hmem
      · rw [hsent₁ cell hmem]
        exact mem_cons_self
      · exact mem_cons_of_mem _ (hsent cell hmem)

/-! ### Reads -/

/-- Data stands for bytes of the application: it is a record of them, or these bytes. -/
def Carries (C : AeadCrypto) (active : Bool) (key : Field 32) (bytes data : Bytes) : Prop :=
  if active then ∃ nonce, cryptoAeadEncrypt C bytes [] key nonce = some data else data = bytes

/-- What became of the pieces of a read: all were sent, or all but the last, whose record is in the
buffer. -/
structure Forwarded (C : AeadCrypto) (streamId : UInt16) (pieces : List Bytes)
    (client client' : RpClient) (cells : List Payload) : Prop where
  active : client'.circ.e2eActive = client.circ.e2eActive
  key : client'.circ.e2eSendKey = client.circ.e2eSendKey
  streams : client'.circ.streams = client.circ.streams
  pairs : ∀ pair ∈ cells.zip pieces, (relayUnpack pair.1).streamId = streamId ∧
    (relayUnpack pair.1).relayCommand = relayData ∧
    ∃ nonce, cryptoAeadEncrypt C pair.2 [] client.circ.e2eSendKey nonce =
      some (relayUnpack pair.1).data
  rest : cells.length = pieces.length ∧ client'.clients = client.clients ∨
    ∃ first last record nonce, pieces = first ++ [last] ∧ cells.length = first.length ∧
      cryptoAeadEncrypt C last [] client.circ.e2eSendKey nonce = some record ∧
      client'.clients = (client.modifyClient streamId fun c =>
        { c with paused := true, sendbuf := record }).clients

theorem forwardRecords_forwarded {C : AeadCrypto} {client client' : RpClient} {plains : List Bytes}
    (hle : ∀ chunk ∈ pieces, chunk ≠ [] ∧ chunk.length ≤ moorRelayData - 16)
    (htakes : SocksUpload.takesRecords C streamId pieces queue client)
    (h : client.forwardRecords C streamId pieces queue = some (client', cells, plains)) :
    plains = pieces ∧ Forwarded C streamId pieces client client' cells := by
  induction pieces generalizing queue client client' cells plains with
  | nil =>
    obtain ⟨rfl, rfl, rfl⟩ := h
    exact ⟨rfl, rfl, rfl, rfl, by simp, .inl ⟨rfl, rfl⟩⟩
  | cons chunk rest ih =>
    rw [forall_mem_cons] at hle
    rw [forwardRecords] at h
    rw [SocksUpload.takesRecords] at htakes
    cases henc : cryptoAeadEncrypt C chunk [] client.circ.e2eSendKey
        client.circ.e2eSendNonce with
    | none => simp [henc] at htakes
    | some record =>
    obtain ⟨hlong, hfits⟩ := length_record henc hle.1.1 hle.1.2
    have hne : record ≠ [] := ne_nil_of_length_pos (by omega)
    simp only [henc, bind_eq_bind, bind_eq_some_iff] at h htakes
    obtain ⟨⟨flow, dataCells, ret⟩, hsend, h⟩ := h
    rw [hsend] at htakes
    rcases sendData_record hne hfits hsend with ⟨rfl, rfl⟩ | ⟨rfl, cell, hcell, hbody⟩
    · -- the record waits, so it is the last one
      have hlast : rest = [] := by simpa using htakes
      obtain ⟨rfl, rfl, rfl⟩ := h
      refine ⟨by rw [hlast], rfl, rfl, rfl, by simp,
        .inr ⟨[], chunk, record, _, ?_, rfl, henc, rfl⟩⟩
      rw [hlast, nil_append]
    simp only [lt_self_iff_false, if_false, false_and, bind_eq_some_iff, Option.pure_def,
      Option.some.injEq, Prod.mk.injEq] at h
    obtain ⟨⟨client₁, more, plains₁⟩, hrest, rfl, rfl, rfl⟩ := h
    have htakes : rest = [] ∨ SocksUpload.takesRecords C streamId rest queue.tail { client with
        flow := flow
        circ := { client.circ with e2eSendNonce := client.circ.e2eSendNonce + 1 } } := by
      simpa using htakes
    obtain ⟨rfl, hmore⟩ := ih hle.2 (htakes.elim (fun hnil => by rw [hnil]; rfl) id) hrest
    obtain ⟨datas, hcells, -⟩ := sendData_cells hsend
    rw [hcell] at hcells ⊢
    have hthis := forall_mem_singleton.mp hcells.ids
    have hcommand := forall_mem_singleton.mp hcells.commands
    refine ⟨rfl, hmore.active, hmore.key, hmore.streams, ?_, ?_⟩
    · rw [singleton_append, zip_cons_cons, forall_mem_cons]
      refine ⟨⟨hthis, hcommand, client.circ.e2eSendNonce, ?_⟩, hmore.pairs⟩
      rw [henc]
      exact congrArg some (congrArg Prod.snd hbody).symm
    rcases hmore.rest with ⟨hlen, hclients⟩ | ⟨first, last, record', nonce, hpieces, hlen,
      hencrypt', hclients⟩
    · exact .inl ⟨by simpa using hlen, hclients⟩
    · refine .inr ⟨chunk :: first, last, record', nonce, ?_, ?_, hencrypt', hclients⟩
      · simp [hpieces]
      · simpa using hlen

/-- A buffer stands for bytes of the application. A record fits into a cell. -/
def Stands (C : AeadCrypto) (active : Bool) (key : Field 32) (bytes sendbuf : Bytes) : Prop :=
  sendbuf = [] ∧ bytes = [] ∨
    sendbuf ≠ [] ∧ Carries C active key bytes sendbuf ∧
      (active = true → sendbuf.length ≤ moorRelayData)

/-- A cell of data of a stream carries the bytes that go with it. -/
def RpClient.CarriesCell (C : AeadCrypto) (client : RpClient) (streamId : UInt16)
    (pair : Payload × Bytes) : Prop :=
  (relayUnpack pair.1).streamId = streamId ∧ (relayUnpack pair.1).relayCommand = relayData ∧
    Carries C client.circ.e2eActive client.circ.e2eSendKey pair.2 (relayUnpack pair.1).data

/-- What became of a read: the cells have its beginning, and the rest is in the buffer. -/
structure ReadSent (C : AeadCrypto) (streamId : UInt16) (data unsent : Bytes)
    (client client' : RpClient) (cells : List (Payload × Bytes)) (parked : Option Bytes) :
    Prop where
  active : client'.circ.e2eActive = client.circ.e2eActive
  key : client'.circ.e2eSendKey = client.circ.e2eSendKey
  streams : client'.circ.streams = client.circ.streams
  pairs : ∀ pair ∈ cells, client.CarriesCell C streamId pair
  begun : data = (cells.map Prod.snd).flatten ++ unsent
  rest : parked = none ∧ unsent = [] ∧ client'.clients = client.clients ∨
    ∃ sendbuf, parked = some unsent ∧
      Stands C client.circ.e2eActive client.circ.e2eSendKey unsent sendbuf ∧
      client'.clients = (client.modifyClient streamId fun c =>
        { c with paused := true, sendbuf := sendbuf }).clients

section Read

variable {C : AeadCrypto} {client client' : RpClient} {cells : List (Payload × Bytes)}
  {parked : Option Bytes}

/-- With keys for the other end, the pieces of the read are encrypted. -/
theorem forwardToCircuit_active (hact : client.circ.e2eActive = true)
    (htakes : SocksUpload.takesRecords C streamId (chunks (moorRelayData - 16) data) queue client)
    (h : client.forwardToCircuit C streamId data queue = some (client', cells, parked)) :
    ∃ unsent, ReadSent C streamId data unsent client client' cells parked := by
  have hsize : 0 < moorRelayData - 16 := by decide
  rw [forwardToCircuit, if_pos hact] at h
  simp only [bind_eq_bind, bind_eq_some_iff, Option.pure_def, Option.some.injEq, Prod.mk.injEq] at h
  obtain ⟨⟨client₁, sent, plains⟩, hfwd, rfl, rfl, rfl⟩ := h
  obtain ⟨rfl, hspec⟩ := forwardRecords_forwarded
    (fun chunk hmem => ne_nil_and_length_le_of_mem_chunks hsize hmem) htakes hfwd
  have hcarries {bytes record : Bytes} {nonce : UInt64}
      (henc : cryptoAeadEncrypt C bytes [] client.circ.e2eSendKey nonce = some record) :
      Carries C client.circ.e2eActive client.circ.e2eSendKey bytes record := by
    rw [Carries, if_pos hact]
    exact ⟨nonce, henc⟩
  have hpairs : ∀ pair ∈ sent.zip (chunks (moorRelayData - 16) data),
      client.CarriesCell C streamId pair := by
    intro pair hmem
    obtain ⟨hid, hcommand, _, hrec⟩ := hspec.pairs pair hmem
    exact ⟨hid, hcommand, hcarries hrec⟩
  rcases hspec.rest with ⟨hlen, hclients⟩ | ⟨first, last, record, nonce, hpieces, hlen,
    henc, hclients⟩
  · refine ⟨[], hspec.active, hspec.key, hspec.streams, hpairs, ?_, .inl ⟨?_, rfl, hclients⟩⟩
    · simp [map_snd_zip hlen.ge, flatten_chunks hsize]
    · rw [getElem?_eq_none hlen.ge]
  have hlast : last ∈ chunks (moorRelayData - 16) data := by
    rw [hpieces]
    exact mem_append_right _ mem_cons_self
  obtain ⟨hne, hle⟩ := ne_nil_and_length_le_of_mem_chunks hsize hlast
  obtain ⟨hlong, hfits⟩ := length_record henc hne hle
  have hrec : record ≠ [] := ne_nil_of_length_pos (by omega)
  refine ⟨last, hspec.active, hspec.key, hspec.streams, hpairs, ?_,
    .inr ⟨record, ?_, .inr ⟨hrec, hcarries henc, fun _ => hfits⟩, hclients⟩⟩
  · conv_lhs => rw [← flatten_chunks hsize data]
    rw [hpieces, flatten_append, flatten_singleton]
    have hzip : sent.zip (first ++ [last]) = sent.zip first := by
      rw [← append_nil sent, zip_append hlen, append_nil, zip_nil_left, append_nil]
    rw [hzip, map_snd_zip hlen.ge]
  · rw [hpieces, hlen, getElem?_concat_length]

/-- Without keys, the read is sent as it is. -/
theorem forwardToCircuit_plain (hact : ¬client.circ.e2eActive = true)
    (hlate : SocksUpload.noLateRefusal C.toCrypto streamId data queue client.flow)
    (h : client.forwardToCircuit C streamId data queue = some (client', cells, parked)) :
    ∃ unsent, ReadSent C streamId data unsent client client' cells parked := by
  rw [forwardToCircuit, if_neg hact] at h
  simp only [bind_eq_bind, bind_eq_some_iff] at h
  obtain ⟨⟨flow, sent, ret⟩, hsend, h⟩ := h
  dsimp only at h
  rw [SocksUpload.noLateRefusal, hsend] at hlate
  obtain ⟨datas, hcells, hall, hpart⟩ := sendData_cells hsend
  have hcarries (bytes : Bytes) :
      Carries C client.circ.e2eActive client.circ.e2eSendKey bytes bytes := by
    rw [Carries, if_neg hact]
  have hpairs : ∀ pair ∈ sent.map fun cell => (cell.stamped, (relayUnpack cell.stamped).data),
      client.CarriesCell C streamId pair := by
    intro pair hmem
    obtain ⟨cell, hcell, rfl⟩ := mem_map.mp hmem
    have hstamped := mem_map_of_mem (f := DataCell.stamped) hcell
    exact ⟨hcells.ids _ hstamped, hcells.commands _ hstamped, hcarries _⟩
  have hbytes : (sent.map fun cell => (cell.stamped, (relayUnpack cell.stamped).data)).map
      Prod.snd = datas := by
    rw [map_map, ← hcells.datas, map_map]
    rfl
  split at h
  · rename_i hret
    cases h
    refine ⟨[], rfl, rfl, rfl, hpairs, ?_, .inl ⟨rfl, rfl, rfl⟩⟩
    rw [hbytes, hall hret, append_nil]
  rename_i hret
  cases h
  refine ⟨_, rfl, rfl, rfl, hpairs, ?_, .inr ⟨_, rfl, ?_, rfl⟩⟩
  · rw [hbytes]
    by_cases hneg : ret < 0
    · have hnone : 0 ≤ ret ∨ sent = [] := by simpa using hlate
      have hnil : datas = [] := by
        rw [← hcells.datas, hnone.resolve_left (by omega)]
        rfl
      rw [if_pos hneg, hnil, flatten_nil, nil_append]
    · rw [if_neg hneg, hpart (by omega), take_append_drop]
  · by_cases hnil : (if ret < 0 then data else data.drop ret.toNat) = []
    · exact .inl ⟨hnil, hnil⟩
    · exact .inr ⟨hnil, hcarries _, fun h => absurd h hact⟩

end Read

/-! ### The invariant -/

namespace SocksUpload

variable {C : AeadCrypto} {s s' : SocksUpload}

/-- Every byte that was read from a SOCKS client is in a cell or in the buffer. -/
def Buffered (C : AeadCrypto) (s : SocksUpload) (c : SocksClient) : Prop :=
  s.read c.streamId = s.carried c.streamId ++ s.parked c.streamId ∧
    Stands C s.client.circ.e2eActive s.client.circ.e2eSendKey (s.parked c.streamId) c.sendbuf

structure InOrder (C : AeadCrypto) (s : SocksUpload) : Prop where
  ids : (s.client.clients.map (·.streamId)).Nodup
  streams : ∀ c ∈ s.client.clients, c.streamId ∈ s.client.circ.streams
  buffers : ∀ c ∈ s.client.clients, s.Buffered C c
  begun : ∀ streamId, s.carried streamId <+: s.read streamId
  cells : ∀ streamId, ∀ pair ∈ s.sent streamId, s.client.CarriesCell C streamId pair

theorem inOrder_start (client : RpClient) : (start client).InOrder C where
  ids := nodup_nil
  streams _ hmem := nomatch hmem
  buffers _ hmem := nomatch hmem
  begun _ := prefix_rfl
  cells _ _ hmem := nomatch hmem

variable {client : RpClient} {streamId : UInt16} {change : SocksClient → SocksClient}
  {cells : List Payload} {env : ClientEnv} {relay : RelayPayload} {C' : Crypto}

/-- The SOCKS client of a stream is changed, and the others stay. -/
theorem mem_modifyClient {c : SocksClient} (hids : (client.clients.map (·.streamId)).Nodup)
    (hc : c ∈ (client.modifyClient streamId change).clients) :
    c ∈ client.clients ∧ c.streamId ≠ streamId ∨
      ∃ c' ∈ client.clients, c'.streamId = streamId ∧ c = change c' := by
  change c ∈ replaceF _ client.clients at hc
  revert hids hc
  induction client.clients with
  | nil => exact fun _ hc => nomatch hc
  | cons first rest ih =>
    intro hids hc
    rw [map_cons, nodup_cons] at hids
    by_cases hfirst : first.streamId = streamId
    · rw [replaceF_cons, if_pos hfirst] at hc
      rcases mem_cons.mp hc with rfl | hc
      · exact .inr ⟨first, mem_cons_self, hfirst, rfl⟩
      · refine .inl ⟨mem_cons_of_mem first hc, fun hid => hids.1 ?_⟩
        rw [hfirst, ← hid]
        exact mem_map_of_mem hc
    · rw [replaceF_cons, if_neg hfirst] at hc
      rcases mem_cons.mp hc with rfl | hc
      · exact .inl ⟨mem_cons_self, hfirst⟩
      · rcases ih hids.2 hc with ⟨hmem, hid⟩ | ⟨c', hc', hid, hchange⟩
        · exact .inl ⟨mem_cons_of_mem first hmem, hid⟩
        · exact .inr ⟨c', mem_cons_of_mem first hc', hid, hchange⟩

/-- What is carried after some cells more. -/
theorem carried_append {cells : List (Payload × Bytes)}
    (h : s'.sent streamId = s.sent streamId ++ cells) :
    s'.carried streamId = s.carried streamId ++ (cells.map Prod.snd).flatten := by
  simp [carried, h]

/-- A change to one stream keeps the order if it does so there. -/
theorem InOrder.of_stream (h : s.InOrder C) (streamId : UInt16)
    (hact : s'.client.circ.e2eActive = s.client.circ.e2eActive)
    (hkey : s'.client.circ.e2eSendKey = s.client.circ.e2eSendKey)
    (hother : ∀ id ≠ streamId, s'.read id = s.read id ∧ s'.sent id = s.sent id ∧
      s'.parked id = s.parked id)
    (hids : (s'.client.clients.map (·.streamId)).Nodup)
    (hclients : ∀ c ∈ s'.client.clients, c.streamId ∈ s'.client.circ.streams ∧
      if c.streamId = streamId then s'.Buffered C c else c ∈ s.client.clients)
    (hbegun : s'.carried streamId <+: s'.read streamId)
    (hcells : ∀ pair ∈ s'.sent streamId, s.client.CarriesCell C streamId pair) : s'.InOrder C := by
  refine ⟨hids, fun c hc => (hclients c hc).1, ?_, ?_, ?_⟩
  · intro c hc
    have hbuffered := (hclients c hc).2
    split at hbuffered
    · exact hbuffered
    · rename_i hne
      obtain ⟨hread, hsent, hparked⟩ := hother _ hne
      rw [Buffered, carried, hread, hsent, hparked, hact, hkey]
      exact h.buffers c hbuffered
  · intro id
    by_cases hid : id = streamId
    · rwa [hid]
    · rw [carried, (hother id hid).1, (hother id hid).2.1]
      exact h.begun id
  · intro id pair hmem
    rw [CarriesCell, hact, hkey]
    by_cases hid : id = streamId
    · rw [hid] at hmem ⊢
      exact hcells pair hmem
    · rw [(hother id hid).2.1] at hmem
      exact h.cells id pair hmem

section Read

variable {data unsent : Bytes} {client' : RpClient} {cells : List (Payload × Bytes)}
  {parked : Option Bytes}

theorem map_streamId_of_readSent
    (hsent : ReadSent C streamId data unsent client client' cells parked) :
    client'.clients.map (·.streamId) = client.clients.map (·.streamId) := by
  rcases hsent.rest with ⟨-, -, hclients⟩ | ⟨_, -, -, hclients⟩
  · rw [hclients]
  · rw [hclients, map_modifyClient]
    exact fun _ => rfl

/-- The SOCKS client that was read has in its buffer what was not sent, and the others stay. -/
theorem stands_of_readSent (hsent : ReadSent C streamId data unsent client client' cells parked)
    (hids : (client.clients.map (·.streamId)).Nodup) {c c' : SocksClient} (hc : c ∈ client.clients)
    (hid : c.streamId = streamId) (hempty : c.sendbuf = []) (hc' : c' ∈ client'.clients) :
    if c'.streamId = streamId then
      Stands C client.circ.e2eActive client.circ.e2eSendKey unsent c'.sendbuf
    else c' ∈ client.clients := by
  rcases hsent.rest with ⟨-, hunsent, hclients⟩ | ⟨sendbuf, -, hstands, hclients⟩
  · rw [hclients] at hc'
    split
    · rename_i hid'
      obtain rfl : c' = c := inj_on_of_nodup_map hids hc' hc (hid'.trans hid.symm)
      exact .inl ⟨hempty, hunsent⟩
    · exact hc'
  · rw [hclients] at hc'
    rcases mem_modifyClient hids hc' with ⟨hmem, hne⟩ | ⟨c'', -, hid', rfl⟩
    · rwa [if_neg hne]
    · rwa [if_pos hid']

/-- A SOCKS client with an empty buffer is read, and nothing else changes. -/
theorem InOrder.of_readSent (h : s.InOrder C) {c : SocksClient} (hc : c ∈ s.client.clients)
    (hid : c.streamId = streamId) (hempty : c.sendbuf = [])
    (hsent : ReadSent C streamId data unsent s.client s'.client cells parked)
    (hread : s'.read = update s.read streamId (s.read streamId ++ data))
    (hcells : s'.sent = update s.sent streamId (s.sent streamId ++ cells))
    (hparked : s'.parked =
      update s.parked streamId (parked.getD (s.parked streamId))) : s'.InOrder C := by
  -- nothing has waited
  have hnone : s.parked streamId = [] ∧ s.read streamId = s.carried streamId := by
    obtain ⟨hread, hstands⟩ := h.buffers c hc
    rw [hid] at hread hstands
    have hparked : s.parked streamId = [] := hstands.elim And.right fun hne => absurd hempty hne.1
    exact ⟨hparked, by simp [hread, hparked]⟩
  have hadded : s'.sent streamId = s.sent streamId ++ cells := by
    rw [hcells, update_self]
  have hwaits : s'.parked streamId = unsent := by
    rw [hparked, update_self]
    rcases hsent.rest with ⟨rfl, rfl, -⟩ | ⟨_, rfl, -⟩
    · exact hnone.1
    · rfl
  have hall : s'.read streamId = s'.carried streamId ++ unsent := by
    rw [carried_append hadded, append_assoc, ← hsent.begun, ← hnone.2, hread, update_self]
  have hids := map_streamId_of_readSent hsent
  refine h.of_stream streamId hsent.active hsent.key ?_ (hids ▸ h.ids) ?_
    (hall ▸ prefix_append _ _) ?_
  · intro id hne
    simp [hread, hcells, hparked, hne]
  · intro c' hc'
    refine ⟨s.client.forall_streams s'.client hids hsent.streams h.streams c' hc', ?_⟩
    have hstands := stands_of_readSent hsent h.ids hc hid hempty hc'
    split at hstands
    · rename_i hid'
      rw [if_pos hid', Buffered, hid', hwaits, hsent.active, hsent.key]
      exact ⟨hall, hstands⟩
    · rename_i hne
      rwa [if_neg hne]
  · intro pair hmem
    rw [hadded] at hmem
    exact (mem_append.mp hmem).elim (h.cells streamId pair) (hsent.pairs pair)

theorem InOrder.readClient (h : s.InOrder C) (hkeeps : s.keeps C (.read streamId data queue))
    (hstep : s.readClient C streamId data queue = some s') : s'.InOrder C := by
  rw [SocksUpload.readClient] at hstep
  cases hfind : s.client.clients.find? fun c => c.streamId == streamId with
  | none => simp [hfind] at hstep
  | some c =>
  rw [keeps, hfind, Bool.and_eq_true] at hkeeps
  rw [hfind] at hstep
  obtain ⟨-, hstep⟩ := ite_none_left_eq_some.mp hstep
  simp only [bind_eq_bind, bind_eq_some_iff, Option.pure_def, Option.some.injEq] at hstep
  obtain ⟨⟨client, cells, parked⟩, hfwd, rfl⟩ := hstep
  obtain ⟨unsent, hsent⟩ :
      ∃ unsent, ReadSent C streamId data unsent s.client client cells parked := by
    have htakes := hkeeps.2
    split at htakes
    · rename_i hact
      exact forwardToCircuit_active hact htakes hfwd
    · rename_i hact
      exact forwardToCircuit_plain hact htakes hfwd
  exact h.of_readSent (mem_of_find?_eq_some hfind) (by simpa using find?_some hfind)
    (isEmpty_iff.mp hkeeps.1) hsent rfl rfl rfl

end Read

/-- What a cell from the other end does to the buffers. -/
structure Processed (client client' : RpClient) (cells : List Payload) : Prop where
  active : client'.circ.e2eActive = client.circ.e2eActive
  key : client'.circ.e2eSendKey = client.circ.e2eSendKey
  ids : (client'.clients.map (·.streamId)).Nodup
  streams : ∀ c ∈ client'.clients, c.streamId ∈ client'.circ.streams
  drained : ∀ c' ∈ client'.clients,
    ∃ c ∈ client.clients, Drained c c' (cellsFor c.streamId cells)
  sent : ∀ cell ∈ cells, (relayUnpack cell).streamId ∈ client'.clients.map (·.streamId)

section Drained

variable {c c' : SocksClient} (h : s.InOrder C) (hc : c ∈ s.client.clients)
  (hdrained : Drained c c' (cellsFor c.streamId cells))
include h hc hdrained

/-- What was in a buffer is in its cells, or is still in the buffer. -/
theorem InOrder.buffered_of_drained (parked : Bytes)
    (hparked : parked = if c'.sendbuf = [] then [] else s.parked c.streamId) :
    s.read c.streamId =
        s.carried c.streamId ++ ((s.retried cells c.streamId).map Prod.snd).flatten ++ parked ∧
      Stands C s.client.circ.e2eActive s.client.circ.e2eSendKey parked c'.sendbuf := by
  obtain ⟨hread, hstands⟩ := h.buffers c hc
  obtain ⟨-, ⟨hbuf, hnil⟩ | ⟨hne, hbuf, datas, hcells, hall, hone⟩⟩ := hdrained
  · have hretried : s.retried cells c.streamId = [] := map_eq_nil_iff.mpr hnil
    rw [hparked, hbuf, hretried, hread]
    rcases hstands with ⟨hempty, hnone⟩ | hwaits
    · simp [Stands, hempty, hnone]
    · rw [if_neg hwaits.1]
      exact ⟨by simp, .inr hwaits⟩
  obtain ⟨-, hcarries, hfits⟩ := hstands.resolve_left fun hempty => hne hempty.1
  rw [hparked, if_pos hbuf, append_nil, hbuf, hread]
  refine ⟨congrArg (s.carried c.streamId ++ ·) ?_, .inl ⟨rfl, rfl⟩⟩
  rw [retried, map_map]
  by_cases hact : s.client.circ.e2eActive = true
  · -- a record is in one cell
    have hlen := congrArg length (hcells.datas.trans (hone (hfits hact)))
    rw [length_map, length_singleton] at hlen
    obtain ⟨cell, hcell⟩ := length_eq_one_iff.mp hlen
    rw [cellsFor] at hcell
    simp [hcell, hact]
  · rw [Carries, if_neg hact] at hcarries
    rw [← hcarries, ← hall, ← hcells.datas]
    exact congrArg flatten (map_congr_left fun cell _ => (if_neg hact).symm)

theorem InOrder.carriesCell_of_drained :
    ∀ pair ∈ s.retried cells c.streamId, s.client.CarriesCell C c.streamId pair := by
  intro pair hmem
  obtain ⟨cell, hcell, rfl⟩ := mem_map.mp hmem
  change cell ∈ cellsFor c.streamId cells at hcell
  obtain ⟨-, hstands⟩ := h.buffers c hc
  obtain ⟨-, ⟨-, hnil⟩ | ⟨hne, -, datas, hcells, -, hone⟩⟩ := hdrained
  · exact absurd (hnil ▸ hcell) not_mem_nil
  obtain ⟨-, hcarries, hfits⟩ := hstands.resolve_left fun hempty => hne hempty.1
  refine ⟨hcells.ids cell hcell, hcells.commands cell hcell, ?_⟩
  by_cases hact : s.client.circ.e2eActive = true
  · have hdata := mem_map_of_mem (f := fun cell => (relayUnpack cell).data) hcell
    rw [hcells.datas, hone (hfits hact)] at hdata
    rw [if_pos hact, mem_singleton.mp hdata]
    exact hcarries
  · simp [if_neg hact, Carries]

end Drained

theorem InOrder.processed (h : s.InOrder C) (hclient : Processed s.client s'.client cells)
    (hread : s'.read = s.read)
    (hsent : ∀ streamId, s'.sent streamId = s.sent streamId ++ s.retried cells streamId)
    (hparked : ∀ c ∈ s'.client.clients,
      s'.parked c.streamId = if c.sendbuf = [] then [] else s.parked c.streamId) :
    s'.InOrder C := by
  have hbuffered : ∀ c' ∈ s'.client.clients, s'.Buffered C c' := by
    intro c' hc'
    obtain ⟨c, hc, hdrained⟩ := hclient.drained c' hc'
    rw [Buffered, hread, carried_append (hsent _), hclient.active, hclient.key, hdrained.1]
    exact h.buffered_of_drained hc hdrained _ (hdrained.1 ▸ hparked c' hc')
  have hretried {streamId : UInt16} (hid : streamId ∈ s'.client.clients.map (·.streamId)) :
      ∀ pair ∈ s.retried cells streamId, s.client.CarriesCell C streamId pair := by
    obtain ⟨c', hc', rfl⟩ := mem_map.mp hid
    obtain ⟨c, hc, hdrained⟩ := hclient.drained c' hc'
    rw [hdrained.1]
    exact h.carriesCell_of_drained hc hdrained
  -- a stream without a SOCKS client sends nothing
  have hnone {streamId : UInt16} (hid : streamId ∉ s'.client.clients.map (·.streamId)) :
      s'.sent streamId = s.sent streamId := by
    have hother : cellsFor streamId cells = [] :=
      cellsFor_other fun cell hmem hcell => hid (hcell ▸ hclient.sent cell hmem)
    rw [hsent, retried, ← cellsFor, hother, map_nil, append_nil]
  refine ⟨hclient.ids, hclient.streams, hbuffered, ?_, ?_⟩
  · intro streamId
    by_cases hid : streamId ∈ s'.client.clients.map (·.streamId)
    · obtain ⟨c', hc', rfl⟩ := mem_map.mp hid
      rw [(hbuffered c' hc').1]
      exact prefix_append _ _
    · rw [carried, hnone hid, hread]
      exact h.begun streamId
  · intro streamId pair hmem
    rw [CarriesCell, hclient.active, hclient.key]
    by_cases hid : streamId ∈ s'.client.clients.map (·.streamId)
    · rw [hsent] at hmem
      exact (mem_append.mp hmem).elim (h.cells _ pair) (hretried hid pair)
    · rw [hnone hid] at hmem
      exact h.cells streamId pair hmem

/-- No cell is sent, and no buffer is changed. -/
theorem Processed.of_sublist {client' : RpClient}
    (hids : (client.clients.map (·.streamId)).Nodup)
    (hact : client'.circ.e2eActive = client.circ.e2eActive)
    (hkey : client'.circ.e2eSendKey = client.circ.e2eSendKey)
    (hclients : List.Sublist (client'.clients.map fun c => (c.streamId, c.sendbuf))
      (client.clients.map fun c => (c.streamId, c.sendbuf)))
    (hstreams : ∀ c ∈ client'.clients, c.streamId ∈ client'.circ.streams) :
    Processed client client' [] where
  active := hact
  key := hkey
  ids := by
    have hsub := hclients.map Prod.fst
    rw [map_map, map_map] at hsub
    exact List.Nodup.sublist hsub hids
  streams := hstreams
  drained c' hc' := by
    obtain ⟨c, hc, hsame⟩ := mem_map.mp
      (hclients.subset (mem_map_of_mem (f := fun c => (c.streamId, c.sendbuf)) hc'))
    obtain ⟨hid, hbuf⟩ := Prod.ext_iff.mp hsame
    exact ⟨c, hc, hid.symm, .inl ⟨hbuf.symm, rfl⟩⟩
  sent _ hmem := nomatch hmem

/-- SOCKS clients go, and those that stay have their buffers. -/
theorem InOrder.of_sublist (h : s.InOrder C)
    (hact : client.circ.e2eActive = s.client.circ.e2eActive)
    (hkey : client.circ.e2eSendKey = s.client.circ.e2eSendKey)
    (hclients : List.Sublist (client.clients.map fun c => (c.streamId, c.sendbuf))
      (s.client.clients.map fun c => (c.streamId, c.sendbuf)))
    (hstreams : ∀ c ∈ client.clients, c.streamId ∈ client.circ.streams) :
    InOrder C { s with client := client } := by
  have hsame : Processed s.client client [] := .of_sublist h.ids hact hkey hclients hstreams
  refine h.processed hsame rfl (fun _ => (append_nil _).symm) ?_
  intro c hc
  by_cases hbuf : c.sendbuf = []
  · rw [if_pos hbuf]
    obtain ⟨c', hc', hid, hdrained⟩ := hsame.drained c hc
    rw [hid]
    refine (h.buffers c' hc').2.elim And.right fun hwaits => absurd ?_ hwaits.1
    rcases hdrained with ⟨hkept, -⟩ | ⟨-, -, datas, hcells, hall, -⟩
    · rw [← hkept, hbuf]
    · rw [← hall, ← hcells.datas]
      rfl
  · rw [if_neg hbuf]

theorem Processed.resume {C : Crypto} {queue : UInt16 → List (Option ℕ)} {client' : RpClient}
    (hids : (client.clients.map (·.streamId)).Nodup)
    (hstreams : ∀ c ∈ client.clients, c.streamId ∈ client.circ.streams)
    (hwhole : drainsWhole C resumes queue client.clients client.flow)
    (h : client.resume C resumes forced queue = some (client', cells)) :
    Processed client client' cells := by
  simp only [RpClient.resume, bind_eq_bind, bind_eq_some_iff, Option.pure_def,
    Option.some.injEq, Prod.mk.injEq] at h
  obtain ⟨⟨clients, flow, sent⟩, hresume, rfl, rfl⟩ := h
  obtain ⟨hsame, hdrained, hsent⟩ := resumeClients_drained hwhole hids hresume
  refine ⟨rfl, rfl, ?_, ?_, hdrained, ?_⟩
  · rw [hsame]
    exact hids
  · exact client.forall_streams _ hsame rfl hstreams
  · rw [hsame]
    exact hsent

/-- The client's side of a cell leaves the keys for sending. -/
theorem processRelay_sending (C : Crypto) (kemSk : Field 2400) (circ : RpCircuit)
    (relay : RelayPayload) (taken : ℕ) (connects : Bool) :
    (circ.processRelay C .client kemSk relay taken connects).e2eActive = circ.e2eActive ∧
      (circ.processRelay C .client kemSk relay taken connects).e2eSendKey = circ.e2eSendKey := by
  rw [RpCircuit.processRelay]
  split
  · have hdec : (circ.e2eDecrypt C .client relay).1.e2eActive = circ.e2eActive ∧
        (circ.e2eDecrypt C .client relay).1.e2eSendKey = circ.e2eSendKey := by
      rw [RpCircuit.e2eDecrypt]
      split
      · split
        · exact ⟨rfl, rfl⟩
        · split_ifs
          · exact ⟨rfl, rfl⟩
          · exact ⟨rfl, rfl⟩
      · exact ⟨rfl, rfl⟩
    rw [RpCircuit.handleData]
    split
    · rename_i circ' hcirc
      rw [hcirc] at hdec
      exact hdec
    rename_i circ' data hcirc
    rw [hcirc] at hdec
    obtain ⟨log, streams, hfwd, -⟩ :=
      RpCircuit.forwardToTarget_eq .client circ' relay data taken
    rw [hfwd]
    exact hdec
  · split
    · exact ⟨rfl, rfl⟩
    · simp

theorem Processed.circuitCell {client' : RpClient}
    (hids : (client.clients.map (·.streamId)).Nodup)
    (hstreams : ∀ c ∈ client.clients, c.streamId ∈ client.circ.streams)
    (hkeeps : (retries env relay client).all fun (resumes, flow) =>
      drainsWhole C.toCrypto resumes env.queue client.clients flow)
    (h : client.processCircuitCell C.toCrypto env relay = some (client', cells)) :
    Processed client client' cells := by
  rw [processCircuitCell] at h
  rw [retries] at hkeeps
  by_cases hsendme : relay.relayCommand = relaySendme
  · rw [if_pos hsendme] at h hkeeps
    simp only [bind_eq_bind, bind_eq_some_iff] at h
    obtain ⟨⟨flow, accepted⟩, hflow, h⟩ := h
    rw [hflow] at hkeeps
    dsimp only at h hkeeps
    split at h
    · rename_i haccepted
      rw [if_pos haccepted] at hkeeps
      have hresumed : Processed { client with flow := flow } client' cells :=
        .resume hids hstreams hkeeps h
      exact { hresumed with }
    · cases h
      exact .of_sublist hids rfl rfl (List.Sublist.refl _) hstreams
  rw [if_neg hsendme] at h hkeeps
  by_cases hxoff : relay.relayCommand = relayXoff
  · rw [if_pos hxoff] at h
    cases h
    refine .of_sublist hids rfl rfl ?_ (client.forall_streams _ ?_ rfl hstreams)
    · rw [map_modifyClient]
      exact fun _ => rfl
    · exact map_modifyClient fun _ => rfl
  rw [if_neg hxoff] at h
  by_cases hxon : relay.relayCommand = relayXon
  · rw [if_pos hxon] at h hkeeps
    exact .resume hids hstreams hkeeps h
  rw [if_neg hxon] at h
  cases h
  obtain ⟨hact, hkey⟩ := processRelay_sending C.toCrypto (Field.zero 2400) client.circ relay
    env.taken false
  refine .of_sublist hids hact hkey (filter_sublist.map _) ?_
  intro c hc
  exact contains_iff_mem.mp (mem_filter.mp hc).2

theorem InOrder.processCell (h : s.InOrder C) (hkeeps : s.keeps C (.cell env relay))
    (hstep : s.processCell C.toCrypto env relay = some s') : s'.InOrder C := by
  simp only [SocksUpload.processCell, bind_eq_bind, bind_eq_some_iff, Option.pure_def,
    Option.some.injEq] at hstep
  obtain ⟨⟨client, cells⟩, hcell, rfl⟩ := hstep
  have hclient : Processed s.client client cells :=
    .circuitCell h.ids h.streams hkeeps hcell
  refine h.processed hclient rfl (fun _ => rfl) ?_
  intro c hc
  dsimp only
  by_cases hbuf : c.sendbuf = []
  · rw [if_pos hbuf, if_neg]
    rw [any_eq_true]
    rintro ⟨c', hc', hwaits⟩
    simp only [Bool.and_eq_true, beq_iff_eq, decide_eq_true_iff] at hwaits
    obtain rfl := inj_on_of_nodup_map hclient.ids hc' hc hwaits.1
    exact hwaits.2 hbuf
  · rw [if_neg hbuf, if_pos]
    exact any_eq_true.mpr ⟨c, hc, by simp [hbuf]⟩

theorem InOrder.openStream {target : Bytes} (h : s.InOrder C)
    (hstep : s.openStream C' streamId target = some s') : s'.InOrder C := by
  obtain ⟨hnew, hstep⟩ := ite_none_left_eq_some.mp hstep
  have hfresh : ∀ c ∈ s.client.clients, c.streamId ≠ streamId := by
    rintro c hc rfl
    exact hnew (.inr (h.streams c hc))
  dsimp only at hstep
  split at hstep
  · cases hstep
    exact h.of_sublist rfl rfl (List.Sublist.refl _) h.streams
  cases hstep
  refine h.of_stream streamId rfl rfl (fun id hid => by simp [hid]) ?_ ?_ ?_ ?_
  · rw [map_append, map_singleton, nodup_append]
    refine ⟨h.ids, nodup_singleton _, ?_⟩
    intro id hid id' hid'
    obtain ⟨c, hc, rfl⟩ := mem_map.mp hid
    rw [mem_singleton.mp hid']
    exact hfresh c hc
  · intro c hc
    rcases mem_append.mp hc with hc | hc
    · rw [if_neg (hfresh c hc)]
      exact ⟨mem_append_left _ (h.streams c hc), hc⟩
    · obtain rfl := mem_singleton.mp hc
      rw [if_pos rfl, Buffered, carried]
      simp [Stands]
  · simp [carried]
  · simp

theorem InOrder.closeStream (h : s.InOrder C) (hstep : s.closeStream C' streamId = some s') :
    s'.InOrder C := by
  rw [SocksUpload.closeStream] at hstep
  split at hstep
  · exact absurd hstep.symm (Option.some_ne_none s')
  obtain ⟨-, hstep⟩ := ite_none_left_eq_some.mp hstep
  cases hstep
  refine h.of_sublist rfl rfl (filter_sublist.map _) ?_
  intro c hc
  exact contains_iff_mem.mp (mem_filter.mp hc).2

theorem InOrder.step {event : Event} (h : s.InOrder C) (hkeeps : s.keeps C event)
    (hstep : s.step C event = some s') : s'.InOrder C := by
  cases event with
  | openStream streamId target => exact h.openStream hstep
  | closeStream streamId => exact h.closeStream hstep
  | read streamId data queue => exact h.readClient hkeeps hstep
  | cell env relay => exact h.processCell hkeeps hstep
  | pause streamId =>
    cases hstep
    refine h.of_sublist rfl rfl ?_ (s.client.forall_streams _ ?_ rfl h.streams)
    · rw [map_modifyClient]
      exact fun _ => rfl
    · exact map_modifyClient fun _ => rfl
  | unpause =>
    cases hstep
    refine h.of_sublist rfl rfl ?_ (s.client.forall_streams _ ?_ rfl h.streams)
    · rw [map_map]
      exact List.Sublist.refl _
    · exact map_map
  | control relayCmd streamId data =>
    obtain ⟨-, hstep⟩ := ite_none_left_eq_some.mp hstep
    cases hstep
    exact h.of_sublist rfl rfl (List.Sublist.refl _) h.streams

end SocksUpload

/-- The bytes of the application in the cells of a stream are the beginning of what was read from
its SOCKS client, and while the stream is open the rest waits in the buffer, in every run in which a
SOCKS client is read only while its buffer is empty, a read is refused at its end at most, and a
buffer is taken whole or not at all. Each cell is a cell of data of the stream that has its bytes as
they are, or a record of them. -/
theorem socks_upload_in_order (C : AeadCrypto) (client : RpClient) (events : List SocksUpload.Event)
    (s : SocksUpload)
    (halong : Run.Along (SocksUpload.step C) (fun s event => s.keeps C event) (.start client)
      events)
    (hrun : Run.run (SocksUpload.step C) (.start client) events = some s) (streamId : UInt16) :
    s.carried streamId <+: s.read streamId ∧
      (∀ c ∈ s.client.clients, c.streamId = streamId →
        s.read streamId = s.carried streamId ++ s.parked streamId) ∧
      ∀ pair ∈ s.sent streamId, s.client.CarriesCell C streamId pair := by
  have h : s.InOrder C := Run.run_invariant (I := fun s => s.InOrder C)
    (fun s event s' hs hkeeps hstep => hs.step hkeeps hstep) (SocksUpload.inOrder_start client)
    halong hrun
  refine ⟨h.begun streamId, ?_, h.cells streamId⟩
  rintro c hc rfl
  exact (h.buffers c hc).1

/-- A circuit without streams, with or without keys for the other end. -/
def sampleUploader (active : Bool) : RpClient :=
  ⟨sampleRp active, .init (sampleRp active).hops 0, [], Field.zero 32, false⟩

/-- A cell without data comes for a stream, and the queue takes what is sent, or nothing. -/
def sampleControl (relayCmd : UInt8) (taken : Option ℕ) : SocksUpload.Event :=
  .cell ⟨0, fun _ => [taken], 0, Field.zero 32, 0⟩ ⟨relayCmd, 0, 1, Field.zero 4, 0, []⟩

def sampleReads : List SocksUpload.Event :=
  [.openStream 1 [], .read 1 [97, 98] [none], sampleControl relaySendme (some 0),
    .read 1 [99] [some 0]]

theorem socks_upload_in_order_sample :
    ∃ s, Run.run (SocksUpload.step AeadCrypto.sample) (.start (sampleUploader true)) sampleReads
        = some s ∧
      s.carried 1 = [97, 98, 99] ∧ s.carried 1 <+: s.read 1 :=
  Run.exists_some_and (by decide +kernel) fun s hs => (socks_upload_in_order AeadCrypto.sample
    (sampleUploader true) sampleReads s (by decide +kernel) hs 1).1

/-- A byte is refused and waits. An XON resumes the SOCKS client although the byte is refused again,
and the next byte overtakes it. -/
theorem socks_upload_overtakes :
    ∃ s, Run.run (SocksUpload.step AeadCrypto.sample) (.start (sampleUploader false))
        [.openStream 1 [], .read 1 [97] [none], sampleControl relayXon none,
          .read 1 [98] [some 0]] = some s ∧
      s.read 1 = [97, 98] ∧ s.carried 1 = [98] ∧ ¬s.carried 1 <+: s.read 1 := by decide +kernel

end Moor
