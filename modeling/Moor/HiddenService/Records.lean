import Moor.HiddenService.Rendezvous

/-!
# Records between a client and a hidden service

The nonces of records are not sent: the n-th record that is encrypted has to be the n-th that
arrives. What either end does with a cell keeps the records of a direction in the order of their
nonces, as long as no more than one waits at the client and none is sent before it.
-/

namespace Moor

open Codec List Option Direction
open Option (bind_eq_bind bind_eq_some_iff)

/-! ### Records under their nonces -/

/-- Plaintexts and their records, one by one under the nonces that follow a number. -/
inductive Numbered (C : AeadCrypto) (key : Field 32) : ℕ → List Bytes → List Bytes → Prop
  | nil {n : ℕ} : Numbered C key n [] []
  | cons {n : ℕ} {plain record : Bytes} {plains recs : List Bytes} :
    cryptoAeadEncrypt C plain [] key (UInt64.ofNat n) = some record → plain ≠ [] →
    plain.length ≤ moorRelayData - 16 → Numbered C key (n + 1) plains recs →
    Numbered C key n (plain :: plains) (record :: recs)

variable {C : AeadCrypto} {key : Field 32}

theorem Numbered.append {n : ℕ} {plains recs plains' recs' : List Bytes}
    (h : Numbered C key n plains recs) (h' : Numbered C key (n + plains.length) plains' recs') :
    Numbered C key n (plains ++ plains') (recs ++ recs') := by
  induction h with
  | nil => exact h'
  | cons hseal hne hle _ ih =>
    refine .cons hseal hne hle (ih ?_)
    rwa [Nat.add_right_comm]

/-- A record fits into a cell, and is too long to be passed on as it is. -/
theorem length_record {plain record : Bytes} {nonce : UInt64}
    (hseal : cryptoAeadEncrypt C plain [] key nonce = some record) (hne : plain ≠ [])
    (hle : plain.length ≤ moorRelayData - 16) :
    16 < record.length ∧ record.length ≤ moorRelayData := by
  have hlen := C.length_aeadEncrypt hseal
  have hpos := length_pos_iff.mpr hne
  omega

theorem Numbered.length_le {n : ℕ} {plains recs : List Bytes} (h : Numbered C key n plains recs) :
    ∀ record ∈ recs, record.length ≤ moorRelayData := by
  induction h with
  | nil => simp
  | cons hseal hne hle _ ih =>
    intro record hmem
    rcases mem_cons.mp hmem with rfl | hmem
    · exact (length_record hseal hne hle).2
    · exact ih record hmem

section Records

@[simp] theorem records_nil : records [] = [] := rfl

@[simp] theorem records_append (cells cells' : List Payload) :
    records (cells ++ cells') = records cells ++ records cells' :=
  filterMap_append

variable {cell : Payload}

theorem records_cons_data (h : (relayUnpack cell).relayCommand = relayData) (cells : List Payload) :
    records (cell :: cells) = (relayUnpack cell).data :: records cells := by
  rw [records, filterMap_cons, if_pos h]
  rfl

theorem records_cons_other (h : (relayUnpack cell).relayCommand ≠ relayData)
    (cells : List Payload) : records (cell :: cells) = records cells := by
  rw [records, filterMap_cons, if_neg h]
  rfl

end Records

def waiting (clients : List SocksClient) : List Bytes :=
  (clients.map SocksClient.sendbuf).filter fun sendbuf => sendbuf ≠ []

/-- The records that are under way or wait at the sender are those of the next plaintexts that the
receiver has not got, and all that has arrived was decrypted to what was encrypted. -/
structure Direction.InStep (C : AeadCrypto) (key : Field 32) (sendNonce recvNonce : UInt64)
    (wait : List Bytes) (d : Direction) : Prop where
  sealed : ∃ got rest, d.plains = got ++ rest ∧ d.received = got.map some ∧
    Numbered C key got.length rest (records d.cells ++ wait)
  sendNonce : sendNonce = UInt64.ofNat d.plains.length
  recvNonce : recvNonce = UInt64.ofNat d.received.length
  sent : d.sent = d.received.length + (records d.cells).length

namespace Direction.InStep

variable {sendNonce recvNonce : UInt64} {wait wait' : List Bytes} {d : Direction}
  {cells : List Payload} {cell : Payload} (h : d.InStep C key sendNonce recvNonce wait)
include h

/-- The sender encrypts some plaintexts. What it sends and what waits then follows what waited. -/
theorem send {plains recs : List Bytes} (hsealed : Numbered C key d.plains.length plains recs)
    (hrecs : records cells ++ wait' = wait ++ recs) :
    (d.send cells plains).InStep C key (sendNonce + UInt64.ofNat plains.length) recvNonce
      wait' := by
  obtain ⟨got, rest, hplains, hreceived, hrest⟩ := h.sealed
  refine ⟨⟨got, rest ++ plains, ?_, hreceived, ?_⟩, ?_, h.recvNonce, ?_⟩
  · simp [Direction.send, hplains]
  · rw [hplains, length_append] at hsealed
    have hall := hrest.append hsealed
    rwa [append_assoc, ← hrecs, ← append_assoc, ← records_append] at hall
  · simp [h.sendNonce, Direction.send]
  · simp [Direction.send, h.sent, Nat.add_assoc]

/-- A cell of data arrives: it decrypts to the next plaintext. -/
theorem arrive_data (hcells : d.cells = cell :: cells)
    (hdata : (relayUnpack cell).relayCommand = relayData) :
    ∃ plain, cryptoAeadDecrypt C.toCrypto (relayUnpack cell).data key recvNonce = some plain ∧
      16 < (relayUnpack cell).data.length ∧ plain.length ≤ moorRelayData - 16 ∧
      (d.arrive (relayUnpack cell) (some plain) cells).InStep C key sendNonce (recvNonce + 1)
        wait := by
  obtain ⟨got, rest, hplains, hreceived, hrest⟩ := h.sealed
  rw [hcells, records_cons_data hdata, cons_append] at hrest
  cases hrest with
  | @cons _ plain _ plains _ hseal hne hle hrest =>
    have hnonce : recvNonce = UInt64.ofNat got.length := by
      simp [h.recvNonce, hreceived]
    refine ⟨plain, ?_, (length_record hseal hne hle).1, hle, ⟨got ++ [plain], plains, ?_, ?_, ?_⟩,
      h.sendNonce, ?_, ?_⟩
    · rw [hnonce]
      exact cryptoAeadDecrypt_of_encrypt hseal
    · rw [arrive, hplains, append_assoc]
      rfl
    · rw [arrive, if_pos hdata, hreceived, map_append]
      rfl
    · rw [length_append]
      exact hrest
    · rw [arrive, if_pos hdata, length_append, UInt64.ofNat_add, h.recvNonce]
      rfl
    · have hsent := h.sent
      rw [hcells, records_cons_data hdata, length_cons] at hsent
      rw [arrive, if_pos hdata, length_append, length_singleton]
      simp only
      omega

theorem arrive_other (hcells : d.cells = cell :: cells)
    (hdata : (relayUnpack cell).relayCommand ≠ relayData) (plain : Option Bytes) :
    (d.arrive (relayUnpack cell) plain cells).InStep C key sendNonce recvNonce wait := by
  have hrecords : records d.cells = records cells := by rw [hcells, records_cons_other hdata]
  rw [arrive, if_neg hdata]
  exact ⟨hrecords ▸ h.sealed, h.sendNonce, h.recvNonce, hrecords ▸ h.sent⟩

omit h

end Direction.InStep

/-! ### What the client sends -/

def body (cell : Payload) : UInt8 × Bytes :=
  ((relayUnpack cell).relayCommand, (relayUnpack cell).data)

variable {C : Crypto}

theorem body_sendRelay {payload cell : Payload} {circ circ' : FlowCircuit}
    (h : circ.sendRelay C payload = (circ', some cell)) : body cell = body payload := by
  obtain ⟨wrapped, -, rfl⟩ := map_eq_some_iff.mp (congrArg Prod.snd h)
  obtain ⟨digest, hunpack⟩ := relayUnpack_setLastDigest C (circ.hops.map Hop.forward) payload
  simp only [body, hunpack]

theorem map_body_sendRelays {payloads cells : List Payload} {taken : ℕ} {circ circ' : FlowCircuit}
    (h : circ.sendRelays C payloads taken = (circ', cells, true)) :
    cells.map body = payloads.map body := by
  induction payloads generalizing taken circ circ' cells with
  | nil =>
    cases h
    rfl
  | cons payload payloads ih =>
    cases taken with
    | zero => cases h
    | succ taken =>
      rw [FlowCircuit.sendRelays] at h
      rcases hcell : circ.sendRelay C payload with ⟨circ₁, _ | cell⟩
      · simp [hcell] at h
      rcases hmore : circ₁.sendRelays C payloads taken with ⟨circ₂, more, ok⟩
      simp only [hcell, hmore, Prod.mk.injEq] at h
      obtain ⟨-, rfl, rfl⟩ := h
      simp [body_sendRelay hcell, ih hmore]

/-! ### The cells of some data -/

/-- The data of cells of data for a stream. -/
structure CellsOf (streamId : UInt16) (cells : List Payload) (datas : List Bytes) : Prop where
  ids : ∀ cell ∈ cells, (relayUnpack cell).streamId = streamId
  commands : ∀ cell ∈ cells, (relayUnpack cell).relayCommand = relayData
  datas : cells.map (fun cell => (relayUnpack cell).data) = datas

theorem CellsOf.nil (streamId : UInt16) : CellsOf streamId [] [] where
  ids _ hmem := nomatch hmem
  commands _ hmem := nomatch hmem
  datas := rfl

section Cells

variable {streamId : UInt16} {pieces : List Bytes} {queue : List (Option ℕ)}

theorem CellsOf.cons {cells : List Payload} {chunk : Bytes} {datas : List Bytes}
    (hle : chunk.length ≤ moorRelayData) (layers : List Layer) (h : CellsOf streamId cells datas) :
    CellsOf streamId ((setLastDigest C layers (cellRelay relayData streamId chunk)).2 :: cells)
      (chunk :: datas) := by
  obtain ⟨digest, hunpack⟩ :=
    relayUnpack_setLastDigest C layers (cellRelay relayData streamId chunk)
  rw [relayUnpack_cellRelay relayData streamId hle] at hunpack
  refine ⟨?_, ?_, ?_⟩
  · rw [forall_mem_cons, hunpack]
    exact ⟨rfl, h.ids⟩
  · rw [forall_mem_cons, hunpack]
    exact ⟨rfl, h.commands⟩
  · simp [hunpack, h.datas]

/-- The cells have the first pieces. All were sent if zero is returned, and a positive number is
what was sent. -/
theorem sendPieces_cells {totalLen : ℕ} {circ circ' : FlowCircuit} {cells : List DataCell} {ret : ℤ}
    (hle : ∀ chunk ∈ pieces, chunk.length ≤ moorRelayData)
    (h : FlowCircuit.sendPieces C streamId totalLen pieces queue circ = some (circ', cells, ret)) :
    ∃ datas rest, pieces = datas ++ rest ∧ CellsOf streamId (cells.map DataCell.stamped) datas ∧
      (ret = 0 ↔ rest = []) ∧ (0 < ret → ret = (totalLen : ℤ) - rest.flatten.length) ∧
      -1 ≤ ret := by
  induction pieces generalizing queue circ circ' cells ret with
  | nil =>
    obtain ⟨-, rfl, rfl⟩ := by simpa [FlowCircuit.sendPieces] using h
    exact ⟨[], [], rfl, .nil streamId, by simp, by simp, by simp⟩
  | cons chunk rest ih =>
    -- nothing of what is left is sent
    have hnone {ret : ℤ} (hret : ret ≠ 0)
        (hpos : 0 < ret → ret = (totalLen : ℤ) - (chunk :: rest).flatten.length) (hmin : -1 ≤ ret) :
        ∃ datas rest', chunk :: rest = datas ++ rest' ∧
          CellsOf streamId ([].map DataCell.stamped) datas ∧ (ret = 0 ↔ rest' = []) ∧
          (0 < ret → ret = (totalLen : ℤ) - rest'.flatten.length) ∧ -1 ≤ ret :=
      ⟨[], chunk :: rest, rfl, .nil streamId, by simp [hret], hpos, hmin⟩
    rw [FlowCircuit.sendPieces] at h
    by_cases hblocked : circ.Blocked streamId
    · rw [if_pos hblocked] at h
      cases h
      refine hnone ?_ ?_ ?_
      all_goals split_ifs <;> omega
    rw [if_neg hblocked] at h
    rcases henc : circuitEncryptForward C circ.hops (cellRelay relayData streamId chunk) with
      ⟨hops, _ | wrapped⟩
    · simp only [henc, some.injEq, Prod.mk.injEq] at h
      obtain ⟨-, rfl, rfl⟩ := h
      exact hnone (by decide) (by simp) le_rfl
    rcases hqueue : queue.headD none with _ | nowMs
    · simp only [henc, hqueue, some.injEq, Prod.mk.injEq] at h
      obtain ⟨-, rfl, rfl⟩ := h
      exact hnone (by decide) (by simp) le_rfl
    simp only [henc, hqueue, bind_eq_bind, bind_eq_some_iff, Option.pure_def,
      some.injEq, Prod.mk.injEq] at h
    obtain ⟨circ₁, -, ⟨circ₂, more, ret'⟩, hmore, -, rfl, rfl⟩ := h
    rw [forall_mem_cons] at hle
    obtain ⟨datas, rest', hpieces, hcells, hall, hpart⟩ := ih hle.2 hmore
    exact ⟨chunk :: datas, rest', by simp [hpieces], hcells.cons hle.1 _, hall, hpart⟩

theorem sendData_record {record : Bytes} {flow flow' : FlowCircuit} {cells : List DataCell}
    {ret : ℤ} (hne : record ≠ []) (hle : record.length ≤ moorRelayData)
    (h : flow.sendData C streamId record queue = some (flow', cells, ret)) :
    (cells = [] ∧ ret = -1) ∨
      (ret = 0 ∧ ∃ cell, cells.map DataCell.stamped = [cell] ∧
        body cell = (relayData, record)) := by
  rw [FlowCircuit.sendData, chunks_of_length_le hne hle] at h
  obtain ⟨datas, rest, hpieces, hcells, hall, hpart, hmin⟩ :=
    sendPieces_cells (by simpa using hle) h
  cases datas with
  | nil =>
    obtain rfl : [record] = rest := hpieces
    have hret : ret ≠ 0 := mt hall.mp (cons_ne_nil _ _)
    rw [flatten_singleton] at hpart
    exact .inl ⟨by simpa using hcells.datas, by omega⟩
  | cons data datas =>
    obtain ⟨rfl, hnil⟩ := cons_eq_cons.mp hpieces
    obtain ⟨rfl, rfl⟩ := append_eq_nil_iff.mp hnil.symm
    obtain ⟨cell, hcell, hdata⟩ := map_eq_singleton_iff.mp hcells.datas
    refine .inr ⟨hall.mpr rfl, cell, hcell, ?_⟩
    rw [body, hcells.commands cell (by simp [hcell]), hdata]

end Cells

section Waiting

theorem waiting_cons (c : SocksClient) (clients : List SocksClient) :
    waiting (c :: clients) = (if c.sendbuf = [] then [] else [c.sendbuf]) ++ waiting clients := by
  by_cases h : c.sendbuf = []
  · simp [waiting, h]
  · simp [waiting, h]

@[simp] theorem waiting_append (clients clients' : List SocksClient) :
    waiting (clients ++ clients') = waiting clients ++ waiting clients' := by
  simp [waiting]

variable {clients : List SocksClient}

/-- Only clients with an empty buffer are dropped. -/
theorem waiting_filter {keep : SocksClient → Bool}
    (h : ∀ c ∈ clients, keep c = false → c.sendbuf = []) :
    waiting (clients.filter keep) = waiting clients := by
  induction clients with
  | nil => rfl
  | cons c clients ih =>
    have hrest := ih fun c' hc' => h c' (mem_cons_of_mem c hc')
    cases hkeep : keep c with
    | true => simp [filter_cons_of_pos hkeep, waiting_cons, hrest]
    | false =>
      rw [filter_cons_of_neg (by simp [hkeep]), hrest, waiting_cons,
        if_pos (h c mem_cons_self hkeep), nil_append]

theorem map_replaceF {α β : Type*} (f : α → Option α) (g : α → β)
    (h : ∀ a a', f a = some a' → g a' = g a) (as : List α) : (as.replaceF f).map g = as.map g := by
  induction as with
  | nil => rfl
  | cons a as ih =>
    rw [replaceF]
    cases ha : f a with
    | none => simp [ih]
    | some a' => simp [h a a' ha]

end Waiting

namespace RpClient

/-- Every SOCKS client has a stream, and no more than one record waits. -/
structure Sound (client : RpClient) : Prop where
  streams : ∀ c ∈ client.clients, c.streamId ∈ client.circ.streams
  one : (waiting client.clients).length ≤ 1

/-- What sending does not change. -/
def fixed (client : RpClient) : Bool × Bool × Bool × Field 32 × Field 32 × UInt64 :=
  (client.pending, client.circ.e2eKemPending, client.circ.e2eActive, client.circ.e2eSendKey,
    client.circ.e2eRecvKey, client.circ.e2eRecvNonce)

theorem fixed_eq_iff {client : RpClient} {pending kemPending active : Bool}
    {sendKey recvKey : Field 32} {recvNonce : UInt64} :
    client.fixed = (pending, kemPending, active, sendKey, recvKey, recvNonce) ↔
      client.pending = pending ∧ client.circ.e2eKemPending = kemPending ∧
      client.circ.e2eActive = active ∧ client.circ.e2eSendKey = sendKey ∧
      client.circ.e2eRecvKey = recvKey ∧ client.circ.e2eRecvNonce = recvNonce := by
  simp [fixed]

/-- The client has encrypted some plaintexts and sent some cells: the records in these cells, and
what waits now, are what has waited before, and then the records of the plaintexts. -/
structure Sends (C : AeadCrypto) (client client' : RpClient) (cells : List Payload)
    (plains : List Bytes) : Prop where
  fixed : client'.fixed = client.fixed
  sound : client'.Sound
  nonce : client'.circ.e2eSendNonce = client.circ.e2eSendNonce + UInt64.ofNat plains.length
  noCiphertext : ∀ cell ∈ cells, (relayUnpack cell).relayCommand ≠ relayE2eKemCt
  sealed : ∀ n, client.circ.e2eSendNonce = UInt64.ofNat n →
    ∃ recs, Numbered C client.circ.e2eSendKey n plains recs ∧
      records cells ++ waiting client'.clients = waiting client.clients ++ recs

variable {C : AeadCrypto} {client client' client'' : RpClient} {cells cells' : List Payload}
  {plains plains' : List Bytes}

theorem Sends.sendKey (h : client.Sends C client' cells plains) :
    client'.circ.e2eSendKey = client.circ.e2eSendKey :=
  congrArg (fun fixed => fixed.2.2.2.1) h.fixed

theorem Sends.trans (h : client.Sends C client' cells plains)
    (h' : client'.Sends C client'' cells' plains') :
    client.Sends C client'' (cells ++ cells') (plains ++ plains') := by
  refine ⟨h'.fixed.trans h.fixed, h'.sound, ?_, ?_, ?_⟩
  · simp [h'.nonce, h.nonce, UInt64.add_assoc]
  · exact forall_mem_append.mpr ⟨h.noCiphertext, h'.noCiphertext⟩
  intro n hn
  obtain ⟨recs, hsealed, hrecs⟩ := h.sealed n hn
  have hn' : client'.circ.e2eSendNonce = UInt64.ofNat (n + plains.length) := by
    simp [h.nonce, hn]
  obtain ⟨recs', hsealed', hrecs'⟩ := h'.sealed _ hn'
  rw [h.sendKey] at hsealed'
  refine ⟨recs ++ recs', hsealed.append hsealed', ?_⟩
  rw [records_append, append_assoc, hrecs', ← append_assoc, hrecs, append_assoc]

/-- Nothing is encrypted, and no record is sent. -/
theorem Sends.of_waiting (hfixed : client'.fixed = client.fixed) (hsound : client'.Sound)
    (hnonce : client'.circ.e2eSendNonce = client.circ.e2eSendNonce)
    (hcells : ∀ cell ∈ cells, (relayUnpack cell).relayCommand ≠ relayE2eKemCt)
    (hwaiting : records cells ++ waiting client'.clients = waiting client.clients) :
    client.Sends C client' cells [] := by
  refine ⟨hfixed, hsound, ?_, hcells, ?_⟩
  · rw [hnonce, length_nil]
    exact (UInt64.add_zero _).symm
  · intro n _
    exact ⟨[], .nil, by simp [hwaiting]⟩

variable {streamId : UInt16} {change : SocksClient → SocksClient}

theorem map_modifyClient {β : Type*} {f : SocksClient → β} (h : ∀ c, f (change c) = f c) :
    (client.modifyClient streamId change).clients.map f = client.clients.map f := by
  refine map_replaceF _ _ (fun a a' ha => ?_) _
  rw [← some_inj.mp (ite_none_right_eq_some.mp ha).2]
  exact h a

/-- A client whose ids are those of another has its streams. -/
theorem forall_streams (client client' : RpClient)
    (hids : client'.clients.map (·.streamId) = client.clients.map (·.streamId))
    (hstreams : client'.circ.streams = client.circ.streams)
    (h : ∀ c ∈ client.clients, c.streamId ∈ client.circ.streams) :
    ∀ c ∈ client'.clients, c.streamId ∈ client'.circ.streams := by
  intro c hc
  have hmem := mem_map_of_mem (f := SocksClient.streamId) hc
  rw [hids] at hmem
  obtain ⟨c', hc', hid⟩ := mem_map.mp hmem
  rw [hstreams, ← hid]
  exact h c' hc'

theorem Sound.modifyClient (h : client.Sound) (hstream : ∀ c, (change c).streamId = c.streamId)
    (hone : (waiting (client.modifyClient streamId change).clients).length ≤ 1) :
    (client.modifyClient streamId change).Sound :=
  ⟨forall_streams client _ (map_modifyClient hstream) rfl h.streams, hone⟩

theorem sends_pause (hsound : client.Sound) (streamId : UInt16) :
    client.Sends C (client.modifyClient streamId fun c => { c with paused := true }) [] [] := by
  have hwaiting : waiting (client.modifyClient streamId fun c => { c with paused := true }).clients
      = waiting client.clients := by
    rw [waiting, waiting, map_modifyClient (by exact fun _ => rfl)]
  exact .of_waiting rfl (hsound.modifyClient (fun _ => rfl) (hwaiting ▸ hsound.one)) rfl (by simp)
    hwaiting

/-- The record of a SOCKS client is put into its buffer, which was empty as all others. -/
theorem waiting_stash {clients : List SocksClient} {record : Bytes}
    (hwaiting : waiting clients = []) (hclient : ∃ c ∈ clients, c.streamId = streamId)
    (hne : record ≠ []) :
    waiting (clients.replaceF fun c => if c.streamId = streamId then
      some { c with paused := true, sendbuf := record } else none) = [record] := by
  induction clients with
  | nil => simp at hclient
  | cons c clients ih =>
    rw [waiting_cons, append_eq_nil_iff] at hwaiting
    rw [replaceF]
    by_cases hc : c.streamId = streamId
    · rw [if_pos hc]
      rw [waiting_cons, if_neg hne, hwaiting.2]
      rfl
    rw [if_neg hc]
    rw [waiting_cons, hwaiting.1, nil_append]
    refine ih hwaiting.2 ?_
    obtain ⟨c', hc', hid⟩ := hclient
    rcases mem_cons.mp hc' with rfl | hc'
    · exact absurd hid hc
    · exact ⟨c', hc', hid⟩

theorem noCiphertext_singleton {cell : Payload} (h : (relayUnpack cell).relayCommand = relayData) :
    ∀ cell' ∈ [cell], (relayUnpack cell').relayCommand ≠ relayE2eKemCt := by
  intro cell' hcell'
  rw [mem_singleton.mp hcell', h]
  decide

section Record

variable {chunk record : Bytes} (hsound : client.Sound) (hwaiting : waiting client.clients = [])
  (hseal : cryptoAeadEncrypt C chunk [] client.circ.e2eSendKey client.circ.e2eSendNonce
    = some record) (hchunk : chunk ≠ [] ∧ chunk.length ≤ moorRelayData - 16)
include hsound hwaiting hseal hchunk

/-- A record is encrypted and sent, while none waits. -/
theorem sends_record (flow : FlowCircuit) {cell : Payload}
    (hcell : body cell = (relayData, record)) :
    client.Sends C { client with
      flow := flow
      circ := { client.circ with e2eSendNonce := client.circ.e2eSendNonce + 1 } } [cell]
      [chunk] := by
  obtain ⟨hcmd, hdata⟩ := Prod.mk.inj hcell
  refine ⟨rfl, { hsound with }, rfl, noCiphertext_singleton hcmd, ?_⟩
  intro n hn
  rw [hn] at hseal
  refine ⟨[record], .cons hseal hchunk.1 hchunk.2 .nil, ?_⟩
  rw [records_cons_data hcmd, records_nil, hdata, hwaiting]
  rfl

/-- A record is encrypted and put into the buffer, while none waits. -/
theorem sends_stash (hclient : ∃ c ∈ client.clients, c.streamId = streamId) (flow : FlowCircuit) :
    client.Sends C ({ client with
      flow := flow
      circ := { client.circ with e2eSendNonce := client.circ.e2eSendNonce + 1 } }.modifyClient
        streamId fun c => { c with paused := true, sendbuf := record }) [] [chunk] := by
  have hlong := (length_record hseal hchunk.1 hchunk.2).1
  have hne : record ≠ [] := length_pos_iff.mp (by omega)
  have hstash := waiting_stash hwaiting hclient hne
  refine ⟨rfl, ?_, rfl, by simp, ?_⟩
  · exact Sound.modifyClient { hsound with } (fun _ => rfl)
      (congrArg length hstash).le
  · intro n hn
    rw [hn] at hseal
    refine ⟨[record], .cons hseal hchunk.1 hchunk.2 .nil, ?_⟩
    rw [hwaiting]
    exact hstash

end Record

variable {flow flow' : FlowCircuit} {queue : List (Option ℕ)} {resumes : SocksClient → Bool}
  {forced : Bool}

/-- The data of a SOCKS client is sent while no record waits: what is not sent waits. -/
theorem forwardRecords_sends {pieces : List Bytes}
    (hpieces : ∀ chunk ∈ pieces, chunk ≠ [] ∧ chunk.length ≤ moorRelayData - 16)
    (hsound : client.Sound) (hwaiting : waiting client.clients = [])
    (hclient : ∃ c ∈ client.clients, c.streamId = streamId)
    (h : client.forwardRecords C streamId pieces queue = some (client', cells, plains)) :
    client.Sends C client' cells plains := by
  induction pieces generalizing client client' cells plains queue with
  | nil =>
    cases h
    exact .of_waiting rfl hsound rfl (by simp) rfl
  | cons chunk rest ih =>
    have hchunk := hpieces chunk mem_cons_self
    rw [forwardRecords] at h
    cases hseal : cryptoAeadEncrypt C chunk [] client.circ.e2eSendKey client.circ.e2eSendNonce with
    | none =>
      simp only [hseal, some.injEq, Prod.mk.injEq] at h
      obtain ⟨rfl, rfl, rfl⟩ := h
      exact sends_pause hsound streamId
    | some record =>
      have hlen := length_record hseal hchunk.1 hchunk.2
      have hne : record ≠ [] := length_pos_iff.mp (by omega)
      simp only [hseal, bind_eq_bind, bind_eq_some_iff] at h
      obtain ⟨⟨flow, sent, ret⟩, hsend, h⟩ := h
      rcases sendData_record hne hlen.2 hsend with ⟨rfl, rfl⟩ | ⟨rfl, cell, hsent, hcell⟩
      · obtain ⟨rfl, rfl, rfl⟩ := h
        exact sends_stash hsound hwaiting hseal hchunk hclient flow
      simp only [lt_self_iff_false, if_false, false_and, hsent, Option.pure_def,
        bind_eq_some_iff, some.injEq, Prod.mk.injEq] at h
      obtain ⟨⟨client₂, more, plains₂⟩, hmore, rfl, rfl, rfl⟩ := h
      have hrec := sends_record hsound hwaiting hseal hchunk flow hcell
      refine hrec.trans (ih ?_ hrec.sound hwaiting hclient hmore)
      exact fun chunk' hchunk' => hpieces chunk' (mem_cons_of_mem chunk hchunk')

/-- A SOCKS client is resumed: what was in its buffer is sent, or stays. -/
theorem resumeClient_sends {C : Crypto} {c c' : SocksClient}
    (hle : c.sendbuf.length ≤ moorRelayData)
    (h : resumeClient C resumes forced queue c flow = some (c', flow', cells)) :
    c'.streamId = c.streamId ∧ records cells ++ waiting [c'] = waiting [c] ∧
      ∀ cell ∈ cells, (relayUnpack cell).relayCommand ≠ relayE2eKemCt := by
  rw [resumeClient] at h
  split at h
  · cases h
    exact ⟨rfl, rfl, by simp⟩
  by_cases hempty : c.sendbuf = []
  · rw [if_pos hempty] at h
    cases h
    exact ⟨rfl, rfl, by simp⟩
  simp only [if_neg hempty, bind_eq_bind, bind_eq_some_iff] at h
  obtain ⟨⟨flow₁, sent, ret⟩, hsend, h⟩ := h
  rcases sendData_record hempty hle hsend with ⟨rfl, rfl⟩ | ⟨rfl, cell, hsent, hcell⟩
  · obtain ⟨rfl, -, rfl⟩ := h
    exact ⟨rfl, rfl, by simp⟩
  obtain ⟨hcmd, hdata⟩ := Prod.mk.inj hcell
  simp only [lt_self_iff_false, if_false, hsent, Option.pure_def, some.injEq, Prod.mk.injEq] at h
  obtain ⟨rfl, -, rfl⟩ := h
  refine ⟨rfl, ?_, noCiphertext_singleton hcmd⟩
  rw [records_cons_data hcmd, hdata, waiting_cons, waiting_cons, if_pos rfl, if_neg hempty]
  rfl

/-- Resuming keeps the order, since no more than one record waits. -/
theorem resumeClients_sends {C : Crypto} {queue : UInt16 → List (Option ℕ)}
    {clients clients' : List SocksClient} (hone : (waiting clients).length ≤ 1)
    (hle : ∀ record ∈ waiting clients, record.length ≤ moorRelayData)
    (h : resumeClients C resumes forced queue clients flow = some (clients', flow', cells)) :
    clients'.map (·.streamId) = clients.map (·.streamId) ∧
      records cells ++ waiting clients' = waiting clients ∧
      ∀ cell ∈ cells, (relayUnpack cell).relayCommand ≠ relayE2eKemCt := by
  induction clients generalizing clients' flow flow' cells with
  | nil =>
    cases h
    exact ⟨rfl, rfl, by simp⟩
  | cons c clients ih =>
    simp only [resumeClients, bind_eq_bind, bind_eq_some_iff, Option.pure_def,
      some.injEq, Prod.mk.injEq] at h
    obtain ⟨⟨c', flow₁, sent⟩, hc, ⟨clients₂, flow₂, more⟩, hclients, rfl, -, rfl⟩ := h
    have hsplit : waiting (c :: clients) = waiting [c] ++ waiting clients :=
      waiting_append [c] clients
    have hsplit' : waiting (c' :: clients₂) = waiting [c'] ++ waiting clients₂ :=
      waiting_append [c'] clients₂
    rw [hsplit] at hone hle
    rw [length_append] at hone
    obtain ⟨hids, hrecords, hkem⟩ := ih (by omega)
      (fun record hrec => hle record (mem_append_right _ hrec)) hclients
    have hfits : c.sendbuf.length ≤ moorRelayData := by
      by_cases hempty : c.sendbuf = []
      · simp [hempty]
      · exact hle _ (mem_append_left _ (by simp [waiting, hempty]))
    obtain ⟨hid, hrec, hkem'⟩ := resumeClient_sends hfits hc
    refine ⟨by simp [hid, hids], ?_, ?_⟩
    · rw [hsplit, hsplit', records_append, ← hrec, ← hrecords]
      rw [← hrec, ← hrecords, length_append, length_append] at hone
      -- one of the two sides is empty, so that it does not matter which goes first
      rcases Nat.eq_zero_or_pos (records more).length with hmore | hmore
      · rw [eq_nil_of_length_eq_zero hmore]
        simp
      · rw [eq_nil_of_length_eq_zero (show (waiting [c']).length = 0 by omega)]
        simp
    · exact forall_mem_append.mpr ⟨hkem', hkem⟩

theorem resume_sends {queue : UInt16 → List (Option ℕ)} (hsound : client.Sound)
    (hle : ∀ record ∈ waiting client.clients, record.length ≤ moorRelayData)
    (h : client.resume C.toCrypto resumes forced queue = some (client', cells)) :
    client.Sends C client' cells [] := by
  simp only [resume, bind_eq_bind, bind_eq_some_iff, Option.pure_def,
    some.injEq, Prod.mk.injEq] at h
  obtain ⟨⟨clients, flow, sent⟩, hclients, rfl, rfl⟩ := h
  obtain ⟨hids, hrecords, hkem⟩ := resumeClients_sends hsound.one hle hclients
  refine .of_waiting rfl ⟨forall_streams client _ hids rfl hsound.streams, ?_⟩ rfl hkem hrecords
  have hone := hsound.one
  rw [← hrecords, length_append] at hone
  exact (Nat.le_add_left ..).trans hone

end RpClient

/-! ### Cells at either end -/

namespace RpCircuit

/-- Writing to a local socket changes the log, and closes the stream of a client that does not take
all. -/
theorem forwardToTarget_eq (side : RpSide) (circ : RpCircuit) (relay : RelayPayload) (data : Bytes)
    (taken : ℕ) : ∃ log streams,
      circ.forwardToTarget side relay data taken = { circ with log := log, streams := streams } ∧
      (streams = circ.streams ∨
        taken < data.length ∧ streams = circ.streams.erase relay.streamId) := by
  rw [forwardToTarget]
  split
  · by_cases hshort : side = .client ∧ taken < data.length
    · rw [if_pos hshort]
      exact ⟨_, _, rfl, .inr ⟨hshort.2, rfl⟩⟩
    · rw [if_neg hshort]
      exact ⟨_, _, rfl, .inl rfl⟩
  · exact ⟨_, circ.streams, rfl, .inl rfl⟩

variable {circ : RpCircuit} {relay : RelayPayload}

/-- A record that decrypts to what fits into a cell advances the nonce. -/
theorem handleData_record (side : RpSide) {plain : Bytes}
    (hact : circ.e2eActive = true) (hlong : 16 < relay.dataLength)
    (hplain : cryptoAeadDecrypt C relay.data circ.e2eRecvKey circ.e2eRecvNonce = some plain)
    (hle : plain.length ≤ moorRelayData) (taken : ℕ) :
    (circ.e2eDecrypt C side relay).2 = some plain ∧
      ∃ log streams, circ.handleData C side relay taken = { circ with
          e2eRecvNonce := circ.e2eRecvNonce + 1
          log := log
          streams := streams } ∧
        (streams = circ.streams ∨
          taken < plain.length ∧ streams = circ.streams.erase relay.streamId) := by
  have hdec : circ.e2eDecrypt C side relay =
      ({ circ with e2eRecvNonce := circ.e2eRecvNonce + 1 }, some plain) := by
    have hfits : ¬(side = .client ∧ moorRelayData < plain.length) := fun h => by omega
    rw [e2eDecrypt, if_pos (by simp [hact, hlong])]
    simp only [hplain, if_neg hfits]
  obtain ⟨log, streams, hfwd, hstreams⟩ := forwardToTarget_eq side
    { circ with e2eRecvNonce := circ.e2eRecvNonce + 1 } relay plain taken
  refine ⟨by rw [hdec], log, streams, ?_, hstreams⟩
  rw [handleData, hdec]
  exact hfwd

/-- Without data, and without a ciphertext to wait for, only the streams change. -/
theorem processRelay_other (C : Crypto) (side : RpSide) (kemSk : Field 2400)
    (hdata : relay.relayCommand ≠ relayData) (hpend : circ.e2eKemPending = false) (taken : ℕ)
    (connects : Bool) :
    ∃ streams,
      circ.processRelay C side kemSk relay taken connects = { circ with streams := streams } ∧
      (side = .client → streams = circ.streams ∨
        relay.relayCommand = relayEnd ∧ streams = circ.streams.erase relay.streamId) := by
  rw [processRelay, if_neg hdata]
  by_cases hend : relay.relayCommand = relayEnd
  · rw [if_pos hend]
    exact ⟨_, rfl, fun _ => .inr ⟨hend, rfl⟩⟩
  rw [if_neg hend]
  by_cases hbegin : side = .service ∧ relay.relayCommand = relayBegin
  · rw [if_pos hbegin]
    refine ⟨if connects then circ.streams ++ [relay.streamId] else circ.streams, ?_, ?_⟩
    · cases connects with
      | true => rfl
      | false => rfl
    · intro hside
      rw [hbegin.1] at hside
      cases hside
  · rw [if_neg hbegin]
    refine ⟨circ.streams, ?_, fun _ => .inl rfl⟩
    by_cases hkem : side = .service ∧ relay.relayCommand = relayE2eKemCt
    · rw [if_pos hkem, handleE2eKemCt, if_pos (by simp [hpend])]
    · rw [if_neg hkem]

end RpCircuit

namespace RpClient

variable {C : AeadCrypto} {client client' : RpClient} {cells : List Payload}

/-- Streams are closed that have no record waiting. -/
theorem sends_prune (hsound : client.Sound) {circ : RpCircuit} (flow : FlowCircuit)
    (hfixed : { client with circ := circ }.fixed = client.fixed)
    (hnonce : circ.e2eSendNonce = client.circ.e2eSendNonce)
    (hkem : ∀ cell ∈ cells, (relayUnpack cell).relayCommand ≠ relayE2eKemCt)
    (hrecords : records cells = [])
    (hclosed : ∀ c ∈ client.clients, c.streamId ∉ circ.streams → c.sendbuf = []) :
    client.Sends C { client with circ := circ, flow := flow }.prune cells [] := by
  have hwaiting : waiting { client with circ := circ, flow := flow }.prune.clients
      = waiting client.clients := by
    refine waiting_filter ?_
    intro c hc hdropped
    exact hclosed c hc (by simpa using hdropped)
  refine .of_waiting hfixed ⟨?_, hwaiting ▸ hsound.one⟩ hnonce hkem ?_
  · intro c hc
    have hkept : circ.streams.contains c.streamId = true := (mem_filter.mp hc).2
    exact contains_iff_mem.mp hkept
  · rw [hrecords, hwaiting]
    rfl

/-- A cell other than data arrives at the client. -/
theorem processCircuitCell_sends {env : ClientEnv} {relay : RelayPayload} (hsound : client.Sound)
    (hle : ∀ record ∈ waiting client.clients, record.length ≤ moorRelayData)
    (hpend : client.circ.e2eKemPending = false) (hdata : relay.relayCommand ≠ relayData)
    (hend : relay.relayCommand = relayEnd →
      ∀ c ∈ client.clients, c.streamId = relay.streamId → c.sendbuf = [])
    (h : client.processCircuitCell C.toCrypto env relay = some (client', cells)) :
    client.Sends C client' cells [] := by
  rw [processCircuitCell] at h
  by_cases hsendme : relay.relayCommand = relaySendme
  · simp only [if_pos hsendme, bind_eq_bind, bind_eq_some_iff] at h
    obtain ⟨⟨flow, accepted⟩, -, h⟩ := h
    split at h
    · have hsends : Sends C { client with flow := flow } client' cells [] :=
        resume_sends { hsound with } hle h
      exact { hsends with }
    · cases h
      exact .of_waiting rfl { hsound with } rfl (by simp) rfl
  rw [if_neg hsendme] at h
  by_cases hxoff : relay.relayCommand = relayXoff
  · rw [if_pos hxoff] at h
    cases h
    exact sends_pause hsound relay.streamId
  rw [if_neg hxoff] at h
  by_cases hxon : relay.relayCommand = relayXon
  · rw [if_pos hxon] at h
    exact resume_sends hsound hle h
  rw [if_neg hxon] at h
  obtain ⟨streams, hrelay, hstreams⟩ := RpCircuit.processRelay_other C.toCrypto
    .client (Field.zero 2400) hdata hpend env.taken false
  simp only [hrelay, some.injEq, Prod.mk.injEq] at h
  obtain ⟨rfl, rfl⟩ := h
  refine sends_prune hsound client.flow rfl rfl (by simp) rfl ?_
  intro c hc hclosed
  rcases hstreams rfl with rfl | ⟨hcmd, rfl⟩
  · exact absurd (hsound.streams c hc) hclosed
  · refine hend hcmd c hc ?_
    by_contra hne
    exact hclosed ((mem_erase_of_ne hne).mpr (hsound.streams c hc))

end RpClient

end Moor
