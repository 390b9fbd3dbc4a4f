import Mathlib.Data.List.Induction
import Moor.Circuit.KeyExchange
import Moor.Lib.Run

/-!
# End-to-end encryption over the rendezvous point

A client and a hidden service are joined at a rendezvous point, which sees what they send. Over it
they encrypt the data of their streams with keys of their own, which the service has only when it
has the client's KEM ciphertext. What either end hands to its local application should be authentic.
-/

namespace Moor

open Codec List

inductive RpSide
  | client
  | service
  deriving DecidableEq

/-- One end of a circuit through a rendezvous point. `streams` has the streams that have a local
socket, and `log` has for every data cell its data and what was written to the socket. -/
structure RpCircuit where
  circuitId : UInt32
  hops : List Hop
  e2eActive : Bool
  e2eKemPending : Bool
  e2eDhShared : Field 32
  e2eKemCt : Bytes
  e2eSendKey : Field 32
  e2eRecvKey : Field 32
  e2eSendNonce : UInt64
  e2eRecvNonce : UInt64
  markedForClose : Bool
  closed : Bool
  streams : List UInt16
  log : List (Bytes × Bytes)
  deriving DecidableEq

/-- What happens at one end: a cell comes in, with how many bytes the local socket takes and whether
the local service can be connected; a local socket opens or closes; marked circuits are closed. -/
inductive RpEvent
  | cell (cell : Cell) (taken : ℕ) (connects : Bool)
  | openStream (streamId : UInt16)
  | closeStream (streamId : UInt16)
  | closeAllMarked

section

variable (C : Crypto) (side : RpSide) (kemSk : Field 2400)

namespace RpCircuit

variable (circ : RpCircuit) (relay : RelayPayload)

/-- Decrypts the data of a cell. A record that does not verify closes the circuit. Data that is too
short to be a record is passed on, and so is all data before the keys are active. -/
def e2eDecrypt (relay : RelayPayload) : RpCircuit × Option Bytes :=
  if circ.e2eActive && 16 < relay.dataLength then
    match cryptoAeadDecrypt C relay.data circ.e2eRecvKey circ.e2eRecvNonce with
    | none => ({ circ with markedForClose := true }, none)
    | some dec =>
      if side = .client ∧ moorRelayData < dec.length then (circ, none)
      else ({ circ with e2eRecvNonce := circ.e2eRecvNonce + 1 }, some dec)
  else (circ, some relay.data)

/-- The stream has a local socket. -/
def hasStream (streamId : UInt16) : Bool :=
  circ.streams.contains streamId && (side == .service || streamId != 0)

/-- Writes to the local socket, which may take only a part. The client then closes the socket. -/
def forwardToTarget (data : Bytes) (taken : ℕ) : RpCircuit :=
  if circ.hasStream side relay.streamId then
    { circ with
      log := circ.log ++ [(relay.data, data.take taken)]
      streams :=
        if side = .client ∧ taken < data.length then circ.streams.erase relay.streamId
        else circ.streams }
  else { circ with log := circ.log ++ [(relay.data, [])] }

def handleData (taken : ℕ) : RpCircuit :=
  match circ.e2eDecrypt C side relay with
  | (circ, none) => { circ with log := circ.log ++ [(relay.data, [])] }
  | (circ, some data) => circ.forwardToTarget side relay data taken

/-- Handles a piece of the KEM ciphertext at the service. With the last one the keys are active. -/
def handleE2eKemCt (data : Bytes) : RpCircuit :=
  if !circ.e2eKemPending then circ
  else
    let kemCt := circ.e2eKemCt ++ data.take (1088 - circ.e2eKemCt.length)
    if kemCt.length < 1088 then { circ with e2eKemCt := kemCt }
    else match C.kemDecapsulate (Arr.ofList 1088 0 kemCt) kemSk with
      | none => { circ with e2eKemCt := kemCt, e2eKemPending := false }
      | some kemSs =>
        let hybrid := C.hash (circ.e2eDhShared.val ++ kemSs.val)
        { circ with
          e2eKemCt := kemCt
          e2eSendKey := C.kdf hybrid 1 (ascii "moore2e!")
          e2eRecvKey := C.kdf hybrid 0 (ascii "moore2e!")
          e2eSendNonce := 0
          e2eRecvNonce := 0
          e2eActive := true
          e2eKemPending := false
          e2eDhShared := Field.zero 32 }

/-- Handles a relay cell that is recognized. -/
def processRelay (taken : ℕ) (connects : Bool) : RpCircuit :=
  if relay.relayCommand = relayData then circ.handleData C side relay taken
  else if relay.relayCommand = relayEnd then
    { circ with streams := circ.streams.erase relay.streamId }
  else if side = .service ∧ relay.relayCommand = relayBegin then
    if connects then { circ with streams := circ.streams ++ [relay.streamId] } else circ
  else if side = .service ∧ relay.relayCommand = relayE2eKemCt then
    circ.handleE2eKemCt C kemSk relay.data
  else circ

/-- Removes the layers of a cell: the relay cell, if there is one for this end. -/
def receive (cell : Cell) : RpCircuit × Option RelayPayload :=
  if cell.command ≠ cellRelayCmd ∨ (side = .client ∧ cell.circuitId ≠ circ.circuitId) then
    (circ, none)
  else
    match circuitDecryptBackward C circ.hops cell.payload with
    | (hops, none) =>
      ({ circ with hops := hops, markedForClose := circ.markedForClose || side == .client }, none)
    | (hops, some payload) =>
      ({ circ with hops := hops },
        if (relayUnpack payload).recognized = 0 then some (relayUnpack payload) else none)

def step (event : RpEvent) : RpCircuit :=
  if circ.closed then circ
  else match event with
    | .cell cell taken connects =>
      if cell.command = cellDestroyCmd ∧ (side = .service ∨ cell.circuitId = circ.circuitId) then
        { circ with closed := true }
      else
        match circ.receive C side cell with
        | (circ, none) => circ
        | (circ, some relay) => circ.processRelay C side kemSk relay taken connects
    | .openStream streamId =>
      if side = .client then { circ with streams := circ.streams ++ [streamId] } else circ
    | .closeStream streamId => { circ with streams := circ.streams.erase streamId }
    | .closeAllMarked => if circ.markedForClose then { circ with closed := true } else circ

end RpCircuit

end

/-! ### Authenticity -/

/-- A log in which all that was written is the plaintext of records that verified one after the
other, each with the next nonce. -/
inductive RecordLog (C : Crypto) (key : Field 32) (first : UInt64) :
    UInt64 → List (Bytes × Bytes) → Prop
  | nil : RecordLog C key first first []
  | nothing {nonce log} (data : Bytes) :
    RecordLog C key first nonce log → RecordLog C key first nonce (log ++ [(data, [])])
  | record {nonce log data dec} (taken : ℕ) :
    RecordLog C key first nonce log → cryptoAeadDecrypt C data key nonce = some dec →
    RecordLog C key first (nonce + 1) (log ++ [(data, dec.take taken)])

/-- What was written is authentic under the receive key, and nothing was written without it. -/
structure RpCircuit.Authentic (C : Crypto) (first : UInt64) (circ : RpCircuit) : Prop where
  active : circ.e2eActive = true → RecordLog C circ.e2eRecvKey first circ.e2eRecvNonce circ.log
  inactive : circ.e2eActive = false → ∀ entry ∈ circ.log, entry.2 = []

/-- The keys are active, or the service waits for the KEM ciphertext. Nothing was written yet. -/
structure RpCircuit.Starts (side : RpSide) (first : UInt64) (circ : RpCircuit) : Prop where
  log : circ.log = []
  keys : (circ.e2eActive = true ∧ circ.e2eKemPending = false ∧ circ.e2eRecvNonce = first) ∨
    (side = .service ∧ circ.e2eActive = false ∧ circ.e2eKemPending = true ∧ first = 0)

/-- A data cell for a local socket that takes some of it is empty, or the keys are active and it is
long enough for a record. -/
def RpCircuit.DataIsRecord (C : Crypto) (side : RpSide) (circ : RpCircuit) : RpEvent → Prop
  | .cell cell taken _ => circ.closed = false → ∀ relay ∈ (circ.receive C side cell).2,
    relay.relayCommand = relayData → circ.hasStream side relay.streamId = true → 0 < taken →
    relay.dataLength = 0 ∨ (circ.e2eActive = true ∧ 16 < relay.dataLength)
  | _ => True

instance (C : Crypto) (side : RpSide) (circ : RpCircuit) :
    ∀ event, Decidable (circ.DataIsRecord C side event)
  | .cell .. => instDecidableForall
  | .openStream _ | .closeStream _ | .closeAllMarked => .isTrue trivial

section Authentic

variable {C : Crypto} {side : RpSide} {kemSk : Field 2400} {first : UInt64} {circ circ' : RpCircuit}

variable {key : Field 32}

/-- Whatever was written is part of the plaintext of the record that came in. -/
theorem RecordLog.written {nonce : UInt64} {log : List (Bytes × Bytes)}
    (h : RecordLog C key first nonce log) :
    ∀ data written, (data, written) ∈ log →
      written = [] ∨ ∃ n dec, cryptoAeadDecrypt C data key n = some dec ∧ written <+: dec := by
  induction h with
  | nil => simp
  | nothing data _ ih =>
    intro data' written hmem
    rcases mem_append.mp hmem with hmem | hmem
    · exact ih data' written hmem
    · cases mem_singleton.mp hmem
      exact .inl rfl
  | record taken _ hdec ih =>
    intro data' written hmem
    rcases mem_append.mp hmem with hmem | hmem
    · exact ih data' written hmem
    · cases mem_singleton.mp hmem
      exact .inr ⟨_, _, hdec, take_prefix ..⟩

/-- A log in which nothing was written. -/
theorem recordLog_of_nothing (nonce : UInt64) (log : List (Bytes × Bytes))
    (h : ∀ entry ∈ log, entry.2 = []) : RecordLog C key nonce nonce log := by
  induction log using reverseRecOn with
  | nil => exact .nil
  | append_singleton log entry ih =>
    obtain ⟨data, written⟩ := entry
    obtain rfl : written = [] := h (data, written) (by simp)
    exact .nothing data (ih fun entry hentry => h entry (by simp [hentry]))

namespace RpCircuit

/-- The invariant: the service has no keys while it waits for the ciphertext. -/
structure Inv (C : Crypto) (first : UInt64) (circ : RpCircuit) : Prop extends
    circ.Authentic C first where
  pending : circ.e2eKemPending = true → circ.e2eActive = false ∧ first = 0

theorem Starts.inv (h : circ.Starts side first) : circ.Inv C first := by
  obtain ⟨hlog, ⟨hact, hpend, rfl⟩ | ⟨-, hact, hpend, rfl⟩⟩ := h
  · refine ⟨⟨?_, ?_⟩, ?_⟩
    · intro _
      rw [hlog]
      exact .nil
    · intro h
      simp [hact] at h
    · intro h
      simp [hpend] at h
  · refine ⟨⟨?_, ?_⟩, fun _ => ⟨hact, rfl⟩⟩
    · intro h
      simp [hact] at h
    · simp [hlog]

/-- The invariant sees only the keys and the log. -/
theorem Inv.congr (h : circ.Inv C first) (hact : circ'.e2eActive = circ.e2eActive)
    (hpend : circ'.e2eKemPending = circ.e2eKemPending)
    (hkey : circ'.e2eRecvKey = circ.e2eRecvKey) (hnonce : circ'.e2eRecvNonce = circ.e2eRecvNonce)
    (hlog : circ'.log = circ.log) : circ'.Inv C first := by
  refine ⟨⟨?_, ?_⟩, ?_⟩
  · rw [hact, hkey, hnonce, hlog]
    exact h.active
  · rw [hact, hlog]
    exact h.inactive
  · rw [hact, hpend]
    exact h.pending

/-- A data cell of which nothing is written. -/
theorem Inv.logNothing (h : circ.Inv C first) (data : Bytes) :
    { circ with log := circ.log ++ [(data, [])] }.Inv C first := by
  refine ⟨⟨fun hact => .nothing data (h.active hact), ?_⟩, h.pending⟩
  intro hact entry hentry
  rcases mem_append.mp hentry with hentry | hentry
  · exact h.inactive hact entry hentry
  · rw [mem_singleton.mp hentry]

/-- A record that verified, of which some is written. -/
theorem Inv.logRecord (h : circ.Inv C first) (hact : circ.e2eActive = true) {data dec : Bytes}
    (hdec : cryptoAeadDecrypt C data circ.e2eRecvKey circ.e2eRecvNonce = some dec) (taken : ℕ) :
    { circ with e2eRecvNonce := circ.e2eRecvNonce + 1,
                log := circ.log ++ [(data, dec.take taken)] }.Inv C first := by
  refine ⟨⟨fun _ => .record taken (h.active hact) hdec, ?_⟩, h.pending⟩
  intro h
  have : circ.e2eActive = false := h
  simp [hact] at this

/-- Writing to the local socket logs the cell, and leaves the keys. -/
theorem forwardToTarget_fields (side : RpSide) (circ : RpCircuit) (relay : RelayPayload)
    (data : Bytes) (taken : ℕ) :
    (circ.forwardToTarget side relay data taken).log = circ.log ++ [(relay.data,
        data.take (if circ.hasStream side relay.streamId then taken else 0))] ∧
      (circ.forwardToTarget side relay data taken).e2eActive = circ.e2eActive ∧
      (circ.forwardToTarget side relay data taken).e2eKemPending = circ.e2eKemPending ∧
      (circ.forwardToTarget side relay data taken).e2eRecvKey = circ.e2eRecvKey ∧
      (circ.forwardToTarget side relay data taken).e2eRecvNonce = circ.e2eRecvNonce := by
  by_cases hstream : circ.hasStream side relay.streamId = true
  · rw [forwardToTarget, if_pos hstream, if_pos hstream]
    exact ⟨rfl, rfl, rfl, rfl, rfl⟩
  · rw [forwardToTarget, if_neg hstream, if_neg hstream]
    exact ⟨rfl, rfl, rfl, rfl, rfl⟩

variable {relay : RelayPayload} {taken : ℕ}

theorem handleData_of_not_record (h : ¬(circ.e2eActive = true ∧ 16 < relay.dataLength)) :
    circ.handleData C side relay taken = circ.forwardToTarget side relay relay.data taken := by
  rw [handleData, e2eDecrypt, if_neg (by simpa using h)]

theorem Inv.handleData (h : circ.Inv C first) (hempty : relay.dataLength = 0 → relay.data = [])
    (hgood : circ.hasStream side relay.streamId = true → 0 < taken →
      relay.dataLength = 0 ∨ (circ.e2eActive = true ∧ 16 < relay.dataLength)) :
    (circ.handleData C side relay taken).Inv C first := by
  by_cases hrec : circ.e2eActive = true ∧ 16 < relay.dataLength
  · obtain ⟨hact, hlong⟩ := hrec
    rw [RpCircuit.handleData, e2eDecrypt, if_pos (by simp [hact, hlong])]
    cases hdec : cryptoAeadDecrypt C relay.data circ.e2eRecvKey circ.e2eRecvNonce with
    | none => exact (h.logNothing relay.data).congr rfl rfl rfl rfl rfl
    | some dec =>
      dsimp only
      by_cases hlarge : side = .client ∧ moorRelayData < dec.length
      · rw [if_pos hlarge]
        exact h.logNothing relay.data
      rw [if_neg hlarge]
      obtain ⟨hlog, hactive', hpend, hkey, hnonce⟩ := forwardToTarget_fields side
        { circ with e2eRecvNonce := circ.e2eRecvNonce + 1 } relay dec taken
      exact (h.logRecord hact hdec _).congr hactive' hpend hkey hnonce hlog
  · have hnothing :
        relay.data.take (if circ.hasStream side relay.streamId then taken else 0) = [] := by
      by_cases hstream : circ.hasStream side relay.streamId = true
      · rw [if_pos hstream]
        rcases Nat.eq_zero_or_pos taken with rfl | hpos
        · exact take_zero
        · simp [hempty ((hgood hstream hpos).resolve_right hrec)]
      · rw [if_neg hstream]
        exact take_zero
    obtain ⟨hlog, hact, hpend, hkey, hnonce⟩ :=
      forwardToTarget_fields side circ relay relay.data taken
    rw [hnothing] at hlog
    rw [handleData_of_not_record hrec]
    exact (h.logNothing relay.data).congr hact hpend hkey hnonce hlog

/-- With the ciphertext complete the keys become active, and nothing was written before. -/
theorem Inv.handleE2eKemCt (h : circ.Inv C first) (data : Bytes) :
    (circ.handleE2eKemCt C kemSk data).Inv C first := by
  by_cases hpend : circ.e2eKemPending = true
  · obtain ⟨hact, rfl⟩ := h.pending hpend
    rw [RpCircuit.handleE2eKemCt, if_neg (by simp [hpend])]
    generalize circ.e2eKemCt ++ data.take (1088 - circ.e2eKemCt.length) = kemCt
    by_cases hshort : kemCt.length < 1088
    · rw [if_pos hshort]
      exact h.congr rfl rfl rfl rfl rfl
    rw [if_neg hshort]
    cases C.kemDecapsulate (Arr.ofList 1088 0 kemCt) kemSk with
    | none =>
      refine ⟨{ h with }, ?_⟩
      intro hpending'
      cases hpending'
    | some kemSs =>
      refine ⟨⟨fun _ => recordLog_of_nothing 0 circ.log (h.inactive hact), ?_⟩, ?_⟩
      · intro hactive'
        cases hactive'
      · intro hpending'
        cases hpending'
  · rw [RpCircuit.handleE2eKemCt, if_pos (by simpa using hpend)]
    exact h

theorem Inv.processRelay (h : circ.Inv C first) (hempty : relay.dataLength = 0 → relay.data = [])
    (hgood : relay.relayCommand = relayData →
      circ.hasStream side relay.streamId = true → 0 < taken →
      relay.dataLength = 0 ∨ (circ.e2eActive = true ∧ 16 < relay.dataLength)) (connects : Bool) :
    (circ.processRelay C side kemSk relay taken connects).Inv C first := by
  rw [RpCircuit.processRelay]
  by_cases hdata : relay.relayCommand = relayData
  · rw [if_pos hdata]
    exact h.handleData hempty (hgood hdata)
  rw [if_neg hdata]
  -- the other commands write nothing
  split
  · exact h.congr rfl rfl rfl rfl rfl
  split
  · split
    · exact h.congr rfl rfl rfl rfl rfl
    · exact h
  · split
    · exact h.handleE2eKemCt relay.data
    · exact h

/-- Removing the layers of a cell leaves all but the layers and the mark as it is. -/
theorem receive_fields (C : Crypto) (side : RpSide) (circ : RpCircuit) (cell : Cell) :
    (circ.receive C side cell).1 = { circ with
      hops := (circ.receive C side cell).1.hops
      markedForClose := (circ.receive C side cell).1.markedForClose } := by
  rw [receive]
  split
  · rfl
  · rcases circuitDecryptBackward C circ.hops cell.payload with ⟨hops, _ | payload⟩
    · rfl
    · rfl

/-- A relay cell comes out of a cell of that command only. -/
theorem receive_relay {cell : Cell} (h : (circ.receive C side cell).2 = some relay) :
    cell.command = cellRelayCmd ∧ ∃ payload, relay = relayUnpack payload := by
  rw [receive] at h
  by_cases hcell : cell.command ≠ cellRelayCmd ∨ (side = .client ∧ cell.circuitId ≠ circ.circuitId)
  · rw [if_pos hcell] at h
    cases h
  rw [if_neg hcell] at h
  rcases hpayload : circuitDecryptBackward C circ.hops cell.payload with ⟨hops, _ | payload⟩
  · simp [hpayload] at h
  simp only [hpayload] at h
  split at h
  · cases h
    exact ⟨not_not.mp fun hcmd => hcell (.inl hcmd), payload, rfl⟩
  · cases h

/-- Every event keeps the invariant, as long as data cells are records. -/
theorem Inv.step (h : circ.Inv C first) {event : RpEvent}
    (hgood : circ.DataIsRecord C side event) : (circ.step C side kemSk event).Inv C first := by
  rw [RpCircuit.step.eq_def]
  by_cases hclosed : circ.closed = true
  · rw [if_pos hclosed]
    exact h
  rw [if_neg hclosed]
  cases event with
  | cell cell taken connects =>
    dsimp only
    split
    · exact h.congr rfl rfl rfl rfl rfl
    have hfields := receive_fields C side circ cell
    rcases hrecv : circ.receive C side cell with ⟨circ', _ | relay⟩
    · rw [hrecv] at hfields
      dsimp only at hfields ⊢
      rw [hfields]
      exact h.congr rfl rfl rfl rfl rfl
    rw [hrecv] at hfields
    obtain ⟨-, payload, hpayload⟩ := receive_relay (congrArg Prod.snd hrecv)
    have hinv : { circ with
        hops := circ'.hops, markedForClose := circ'.markedForClose }.Inv C first :=
      h.congr rfl rfl rfl rfl rfl
    dsimp only at hfields ⊢
    rw [hfields]
    refine hinv.processRelay ?_ ?_ connects
    · intro hzero
      rw [hpayload] at hzero ⊢
      exact length_eq_zero_iff.mp (by rw [length_relayUnpack_data, hzero]; rfl)
    · exact hgood (by simpa using hclosed) relay (congrArg Prod.snd hrecv)
  | closeStream streamId => exact h.congr rfl rfl rfl rfl rfl
  | openStream streamId | closeAllMarked =>
    dsimp only
    split
    · exact h.congr rfl rfl rfl rfl rfl
    · exact h

section Tag

/-! A record is longer than its plaintext by the tag. -/

variable (htag : ∀ key nonce record dec, C.aeadDecrypt key nonce record = some dec →
  record.length = dec.length + 16)

include htag

/-- What is written without keys, or of data that has no room for more than a tag. -/
theorem not_authentic_of_mem {data written : Bytes} (hmem : (data, written) ∈ circ.log)
    (hwritten : written ≠ []) (hshort : circ.e2eActive = true → data.length ≤ 16) :
    ¬circ.Authentic C first := by
  intro h
  cases hact : circ.e2eActive with
  | false => exact hwritten (h.inactive hact _ hmem)
  | true =>
    rcases (h.active hact).written data written hmem with hnil | ⟨n, dec, hdec, hpart⟩
    · exact hwritten hnil
    have hlen := htag _ _ _ _ hdec
    have hdata := hshort hact
    obtain rfl : dec = [] := length_eq_zero_iff.mp (by omega)
    exact hwritten (prefix_nil.mp hpart)

/-- The condition on data cells is exact: an event that does not meet it writes what is not
authentic. -/
theorem not_authentic_step {event : RpEvent} (h : ¬circ.DataIsRecord C side event) :
    ¬(circ.step C side kemSk event).Authentic C first := by
  cases event with
  | cell cell taken connects =>
    simp only [DataIsRecord, not_forall, not_or] at h
    obtain ⟨hopen, relay, hrelay, hcmd, hstream, htaken, hnonempty, hrec⟩ := h
    obtain ⟨hcell, payload, rfl⟩ := receive_relay hrelay
    have hdata := length_relayUnpack_data payload
    have hfields := receive_fields C side circ cell
    rcases hrecv : circ.receive C side cell with ⟨circ', relay⟩
    rw [hrecv] at hfields hrelay
    obtain rfl : relay = some (relayUnpack payload) := hrelay
    have hact : circ'.e2eActive = circ.e2eActive := by
      simpa using congrArg RpCircuit.e2eActive hfields
    have hstreams : circ'.streams = circ.streams := by
      simpa using congrArg RpCircuit.streams hfields
    have hrelayCmd : cellRelayCmd ≠ cellDestroyCmd := by decide
    have hstep : circ.step C side kemSk (.cell cell taken connects) =
        circ'.forwardToTarget side (relayUnpack payload) (relayUnpack payload).data taken := by
      rw [← hact] at hrec
      rw [step, if_neg (by simp [hopen])]
      simp only [hcell, hrecv]
      rw [if_neg fun h => hrelayCmd h.1, processRelay, if_pos hcmd, handleData_of_not_record hrec]
    obtain ⟨hlog, hactive', -⟩ := forwardToTarget_fields side circ' (relayUnpack payload)
      (relayUnpack payload).data taken
    rw [if_pos (by rw [hasStream, hstreams]; exact hstream)] at hlog
    rw [hstep]
    have hlen := mt UInt16.toNat_inj.mp hnonempty
    refine not_authentic_of_mem htag (hlog ▸ mem_concat_self) ?_ ?_
    · rw [← length_pos_iff, length_take, hdata]
      exact lt_min htaken (Nat.pos_of_ne_zero hlen)
    intro h
    rw [hactive', hact] at h
    rw [hdata]
    exact Nat.le_of_not_lt fun hlong => hrec ⟨h, hlong⟩
  | openStream _ | closeStream _ | closeAllMarked => exact absurd trivial h

end Tag

end RpCircuit

end Authentic

/-- One step of an end, as an action of a run. -/
def rpStep (C : Crypto) (side : RpSide) (kemSk : Field 2400) (circ : RpCircuit) (event : RpEvent) :
    Option RpCircuit :=
  some (circ.step C side kemSk event)

/-- Whatever comes in at either end once its keys are active, and at the service also while it waits
for the KEM ciphertext: all that is written to a local socket is the plaintext of records that
verified, each with the next nonce, in every run in which the data cells are records. -/
theorem e2e_authenticity {C : Crypto} {side : RpSide} {kemSk : Field 2400} {first : UInt64}
    {circ circ' : RpCircuit} {events : List RpEvent} (hstart : circ.Starts side first)
    (hrecords : Run.Along (rpStep C side kemSk) (RpCircuit.DataIsRecord C side) circ events)
    (hrun : Run.run (rpStep C side kemSk) circ events = some circ') : circ'.Authentic C first := by
  have hstep : ∀ circ event circ', RpCircuit.Inv C first circ →
      RpCircuit.DataIsRecord C side circ event → rpStep C side kemSk circ event = some circ' →
      RpCircuit.Inv C first circ' := by
    intro circ event circ' hinv hgood heq
    cases heq
    exact hinv.step hgood
  exact (Run.run_invariant hstep hstart.inv hrecords hrun).toAuthentic

/-- The condition is exact: a run from such a start is authentic throughout if and only if the data
cells are records. -/
theorem e2e_authentic_iff {C : Crypto} {side : RpSide} {kemSk : Field 2400} {first : UInt64}
    {circ : RpCircuit} (htag : ∀ key nonce record dec,
      C.aeadDecrypt key nonce record = some dec → record.length = dec.length + 16)
    (hstart : circ.Starts side first) (events : List RpEvent) :
    (∀ n circ', Run.run (rpStep C side kemSk) circ (events.take n) = some circ' →
      circ'.Authentic C first) ↔
      Run.Along (rpStep C side kemSk) (RpCircuit.DataIsRecord C side) circ events := by
  have hinv := hstart.inv (C := C)
  clear hstart
  induction events generalizing circ with
  | nil =>
    refine ⟨fun _ => trivial, fun _ n circ' hrun => ?_⟩
    rw [take_nil] at hrun
    cases hrun
    exact hinv.toAuthentic
  | cons event events ih =>
    constructor
    · intro h
      have hgood : circ.DataIsRecord C side event := by
        by_contra hbad
        exact RpCircuit.not_authentic_step htag hbad (h 1 _ rfl)
      refine ⟨hgood, ?_⟩
      rintro _ ⟨⟩
      exact (ih (hinv.step hgood)).mp fun n circ' hrun => h (n + 1) circ' hrun
    · rintro ⟨hgood, hrest⟩ n circ' hrun
      cases n with
      | zero =>
        cases hrun
        exact hinv.toAuthentic
      | succ n => exact (ih (hinv.step hgood)).mpr (hrest _ rfl) n circ' hrun

/-- An end whose stream 5 is open, with active keys or waiting for the ciphertext. -/
def sampleRp (active : Bool) : RpCircuit where
  circuitId := 7
  hops := [⟨Field.zero 32, ⟨Arr.replicate 32 1, 0, Field.zero 32⟩,
    ⟨Arr.replicate 32 2, 0, Field.zero 32⟩⟩]
  e2eActive := active
  e2eKemPending := !active
  e2eDhShared := Arr.replicate 32 3
  e2eKemCt := []
  e2eSendKey := Arr.replicate 32 4
  e2eRecvKey := Arr.replicate 32 5
  e2eSendNonce := 0
  e2eRecvNonce := 0
  markedForClose := false
  closed := false
  streams := [5]
  log := []

/-- The rendezvous point sends relay cells on stream 5, one after the other. -/
def rpSends (side : RpSide) : RpCircuit → List (UInt8 × Bytes) → List RpEvent
  | _, [] => []
  | circ, (relayCmd, data) :: cells =>
    let event := .cell ⟨7, cellRelayCmd,
      lastHopSends Crypto.sample circ.hops (cellRelay relayCmd 5 data)⟩ 100 true
    event :: rpSends side (circ.step Crypto.sample side (Field.zero 2400) event) cells

def sampleRun (side : RpSide) (active : Bool) (cells : List (UInt8 × Bytes)) : Option RpCircuit :=
  Run.run (rpStep Crypto.sample side (Field.zero 2400)) (sampleRp active)
    (rpSends side (sampleRp active) cells)

/-- The record of a text for the service, once it has the ciphertext below. -/
def sampleRecord : Bytes :=
  ascii "hello" ++ List.replicate 8 0 ++ be32 64 ++ List.replicate 4 3

def serviceCells : List (UInt8 × Bytes) :=
  [(relayE2eKemCt, List.replicate 498 9), (relayE2eKemCt, List.replicate 498 9),
    (relayE2eKemCt, List.replicate 92 9), (relayData, sampleRecord)]

set_option maxRecDepth 100000 in
theorem e2e_authenticity_sample :
    ∃ circ, sampleRun .service false serviceCells = some circ ∧
      circ.log = [(sampleRecord, ascii "hello")] ∧ circ.Authentic Crypto.sample 0 := by
  have hstart : (sampleRp false).Starts .service 0 := ⟨rfl, .inr ⟨rfl, rfl, rfl, rfl⟩⟩
  exact Run.exists_some_and (by decide +kernel) fun _ hrun =>
    e2e_authenticity hstart (by decide +kernel) hrun

theorem length_record_sample (key : Field 32) (nonce : Field 12) (record dec : Bytes)
    (h : Crypto.sample.aeadDecrypt key nonce record = some dec) :
    record.length = dec.length + 16 := by
  simp only [Crypto.sample, Option.ite_none_right_eq_some] at h
  obtain ⟨⟨htag, -⟩, hdec⟩ := h
  rw [← Option.some_inj.mp hdec, length_take]
  omega

set_option maxRecDepth 100000 in
theorem e2e_authentic_iff_sample : (sampleRp false).Starts .service 0 ∧
    ∀ n circ', Run.run (rpStep Crypto.sample .service (Field.zero 2400)) (sampleRp false)
      ((rpSends .service (sampleRp false) serviceCells).take n) = some circ' →
      circ'.Authentic Crypto.sample 0 := by
  have hstart : (sampleRp false).Starts .service 0 := ⟨rfl, .inr ⟨rfl, rfl, rfl, rfl⟩⟩
  exact ⟨hstart, (e2e_authentic_iff length_record_sample hstart _).mpr (by decide +kernel)⟩

set_option maxRecDepth 100000 in
/-- Data that is too short for a record is written as it comes in although the keys are active, and
the service writes any data while it waits for the ciphertext. -/
theorem e2e_data_without_record :
    (∀ side, (sampleRp true).Starts side 0 ∧
      ∃ circ, sampleRun side true [(relayData, ascii "hello")] = some circ ∧
        circ.log = [(ascii "hello", ascii "hello")] ∧ ¬circ.Authentic Crypto.sample 0) ∧
    (sampleRp false).Starts .service 0 ∧
      ∃ circ, sampleRun .service false [(relayData, sampleRecord)] = some circ ∧
        circ.log = [(sampleRecord, sampleRecord)] ∧ ¬circ.Authentic Crypto.sample 0 := by
  refine ⟨fun side => ⟨⟨rfl, .inl ⟨rfl, rfl, rfl⟩⟩, ?_⟩, ⟨rfl, .inr ⟨rfl, rfl, rfl, rfl⟩⟩, ?_⟩
  · obtain ⟨circ, hrun, hlog⟩ : ∃ circ,
        sampleRun side true [(relayData, ascii "hello")] = some circ ∧
        circ.log = [(ascii "hello", ascii "hello")] := by
      cases side <;> decide +kernel
    refine ⟨circ, hrun, hlog, RpCircuit.not_authentic_of_mem length_record_sample
      (by rw [hlog]; exact mem_cons_self) (by decide) fun _ => by decide⟩
  · obtain ⟨circ, hrun, hact, hlog⟩ : ∃ circ,
        sampleRun .service false [(relayData, sampleRecord)] = some circ ∧
        circ.e2eActive = false ∧ circ.log = [(sampleRecord, sampleRecord)] := by
      decide +kernel
    refine ⟨circ, hrun, hlog, RpCircuit.not_authentic_of_mem length_record_sample
      (by rw [hlog]; exact mem_cons_self) (by decide) fun h => ?_⟩
    rw [hact] at h
    cases h

end Moor
