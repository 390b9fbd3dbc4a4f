import Moor.HiddenService.Records

/-!
# Agreement of a client and a hidden service

A meeting begins when the answer of the service is on the way. The client then sends the ciphertext,
and the service has its keys when all of it has arrived. In every phase the records of each
direction are in step with the nonces of its ends. That fails when the client sends a record while
an earlier one waits in a buffer.
-/

namespace Moor

open Codec List RpClient Meeting RpCircuit Direction

/-! ### The phases of a meeting -/

/-- No data has been exchanged in this direction. -/
structure Direction.Idle (d : Direction) : Prop where
  plains : d.plains = []
  sent : d.sent = 0
  received : d.received = []
  records : records d.cells = []

variable {C : AeadCrypto} {shared secret : Field 32} {kemCt : Bytes} {s s' : Meeting}
  {d : Direction} {cells : List Payload} {streamId : UInt16} {data : Bytes}

theorem Direction.Idle.inStep (h : d.Idle) (C : AeadCrypto) (key : Field 32) :
    d.InStep C key 0 0 [] := by
  refine ⟨⟨[], [], h.plains, h.received, ?_⟩, ?_, ?_, ?_⟩
  · rw [h.records]
    exact .nil
  · rw [h.plains]
    rfl
  · rw [h.received]
    rfl
  · rw [h.sent, h.received, h.records]
    rfl

theorem Direction.Idle.send (h : d.Idle) (hcells : Moor.records cells = []) :
    (d.send cells []).Idle := by
  refine ⟨?_, ?_, h.received, ?_⟩
  · rw [Direction.send, h.plains]
    rfl
  · rw [Direction.send, h.sent, hcells]
    rfl
  · rw [Direction.send, records_append, h.records, hcells]
    rfl

theorem Direction.Idle.arrive (h : d.Idle) {cell : Payload} (hcells : d.cells = cell :: cells)
    (plain : Option Bytes) :
    (relayUnpack cell).relayCommand ≠ relayData ∧
      (d.arrive (relayUnpack cell) plain cells).Idle := by
  have hrecords := h.records
  have hdata : (relayUnpack cell).relayCommand ≠ relayData := by
    intro hdata
    rw [hcells, records_cons_data hdata] at hrecords
    cases hrecords
  rw [hcells, records_cons_other hdata] at hrecords
  refine ⟨hdata, ?_⟩
  rw [Direction.arrive, if_neg hdata]
  exact { h with records := hrecords }

theorem Direction.InStep.send_other {key : Field 32} {sendNonce recvNonce : UInt64}
    {wait : List Bytes} (h : d.InStep C key sendNonce recvNonce wait)
    (hcells : records cells = []) : (d.send cells []).InStep C key sendNonce recvNonce wait := by
  have hsend : (d.send cells []).InStep C key (sendNonce + UInt64.ofNat ([] : List Bytes).length)
      recvNonce wait := h.send .nil (by rw [hcells]; simp)
  rwa [length_nil, show UInt64.ofNat 0 = 0 from rfl, UInt64.add_zero] at hsend

/-- The service waits for the ciphertext, and has exchanged no data. -/
structure RpCircuit.AwaitsCt (shared : Field 32) (circ : RpCircuit) : Prop where
  pending : circ.e2eKemPending = true
  active : circ.e2eActive = false
  dhShared : circ.e2eDhShared = shared
  streams : circ.streams = []
  sendNonce : circ.e2eSendNonce = 0
  recvNonce : circ.e2eRecvNonce = 0
  short : circ.e2eKemCt.length < 1088

namespace Meeting

/-- The secret that both ends derive their keys from. -/
def hybrid (C : Crypto) (shared kemSs : Field 32) : Field 32 := C.hash (shared.val ++ kemSs.val)

/-- The key for what the client sends, or for what the service sends. -/
def e2eKey (C : Crypto) (secret : Field 32) (subkeyId : UInt64) : Field 32 :=
  C.kdf secret subkeyId (ascii "moore2e!")

/-- The client waits for the service's answer, which carries the public key of the service. -/
structure Waits (C : Crypto) (servicePk shared clientSk : Field 32) (s : Meeting) : Prop where
  pending : s.client.pending = true
  circ : ∃ circuitId hops, s.client.circ = .new circuitId hops
  clients : s.client.clients = []
  ephSk : s.client.e2eEphSk = clientSk
  service : s.service.AwaitsCt shared
  kemCt : s.service.e2eKemCt = []
  up : s.up = ⟨[], [], 0, []⟩
  down : s.down.Idle
  answer : ∀ cell ∈ s.down.cells, (relayUnpack cell).relayCommand = relayRendezvous2 →
    (relayUnpack cell).data = servicePk.val ++ (C.hash shared.val).val

theorem Waits.idle {C : Crypto} {servicePk shared clientSk : Field 32}
    (h : s.Waits C servicePk shared clientSk) : s.up.Idle := by
  rw [h.up]
  exact ⟨rfl, rfl, rfl, rfl⟩

/-- The client has its keys. The rest of the ciphertext is on the way, before all else. -/
structure Exchanges (C : AeadCrypto) (shared secret : Field 32) (kemCt : Bytes) (s : Meeting) :
    Prop where
  client : s.client.fixed =
    (false, false, true, e2eKey C.toCrypto secret 0, e2eKey C.toCrypto secret 1, 0)
  sound : s.client.Sound
  service : s.service.AwaitsCt shared
  ciphertext : ∃ pieces others, s.up.cells = pieces ++ others ∧
    (∀ cell ∈ pieces, (relayUnpack cell).relayCommand = relayE2eKemCt) ∧
    (∀ cell ∈ others, (relayUnpack cell).relayCommand ≠ relayE2eKemCt) ∧
    s.service.e2eKemCt ++ (pieces.map fun cell => (relayUnpack cell).data).flatten = kemCt
  up : s.up.InStep C (e2eKey C.toCrypto secret 0) s.client.circ.e2eSendNonce 0
    (waiting s.client.clients)
  received : s.up.received = []
  down : s.down.Idle

/-- Both ends have their keys. -/
structure Runs (C : AeadCrypto) (secret : Field 32) (s : Meeting) : Prop where
  client : s.client.fixed = (false, false, true, e2eKey C.toCrypto secret 0,
    e2eKey C.toCrypto secret 1, s.client.circ.e2eRecvNonce)
  sound : s.client.Sound
  pending : s.service.e2eKemPending = false
  active : s.service.e2eActive = true
  recvKey : s.service.e2eRecvKey = e2eKey C.toCrypto secret 0
  sendKey : s.service.e2eSendKey = e2eKey C.toCrypto secret 1
  up : s.up.InStep C (e2eKey C.toCrypto secret 0) s.client.circ.e2eSendNonce s.service.e2eRecvNonce
    (waiting s.client.clients)
  down : s.down.InStep C (e2eKey C.toCrypto secret 1) s.service.e2eSendNonce
    s.client.circ.e2eRecvNonce []

variable {client : RpClient} {plains : List Bytes}

/-- What the client sends keeps its direction in step. -/
theorem inStep_clientSends {recvNonce : UInt64} (hkey : s.client.circ.e2eSendKey = secret)
    (hup : s.up.InStep C secret s.client.circ.e2eSendNonce recvNonce (waiting s.client.clients))
    (hsends : s.client.Sends C client cells plains) :
    (s.clientSends client cells plains).up.InStep C secret client.circ.e2eSendNonce recvNonce
      (waiting client.clients) := by
  obtain ⟨recs, hsealed, hrecs⟩ := hsends.sealed _ hup.sendNonce
  rw [hkey] at hsealed
  rw [hsends.nonce]
  exact hup.send hsealed hrecs

theorem Exchanges.clientSends (h : s.Exchanges C shared secret kemCt)
    (hsends : s.client.Sends C client cells plains) :
    (s.clientSends client cells plains).Exchanges C shared secret kemCt := by
  obtain ⟨pieces, others, hcells, hpieces, hothers, hct⟩ := h.ciphertext
  obtain ⟨-, -, -, hkey, -, -⟩ := fixed_eq_iff.mp h.client
  refine ⟨hsends.fixed.trans h.client, hsends.sound, h.service, ?_,
    inStep_clientSends hkey h.up hsends, h.received, h.down⟩
  refine ⟨pieces, others ++ cells, ?_, hpieces, ?_, hct⟩
  · simp [Meeting.clientSends, send, hcells]
  exact forall_mem_append.mpr ⟨hothers, hsends.noCiphertext⟩

theorem Runs.clientSends (h : s.Runs C secret) (hsends : s.client.Sends C client cells plains) :
    (s.clientSends client cells plains).Runs C secret := by
  obtain ⟨-, -, -, hkey, -, -⟩ := fixed_eq_iff.mp h.client
  have hfixed := hsends.fixed.trans h.client
  obtain ⟨-, -, -, -, -, hrecv⟩ := fixed_eq_iff.mp hfixed
  refine { h with
    client := ?_, sound := hsends.sound, up := inStep_clientSends hkey h.up hsends, down := ?_ }
  · rw [Meeting.clientSends, hrecv]
    exact hfixed
  · rw [Meeting.clientSends, hrecv]
    exact h.down

end Meeting

/-! ### The steps -/

/-- No record of the client waits when it reads from a SOCKS client, and none of a stream that it
closes; and the cells of data that the service makes are sent. -/
def Meeting.Clear (s : Meeting) : Meeting.Event → Prop
  | .read .. => waiting s.client.clients = []
  | .closeStream streamId => ∀ c ∈ s.client.clients, c.streamId = streamId → c.sendbuf = []
  | .targetRead _ _ sent => sent = true
  | .toClient env => ∀ cell ∈ s.down.cells.head?,
    ((relayUnpack cell).relayCommand = relayEnd ∨
      (relayUnpack cell).relayCommand = relayData ∧ env.taken < moorRelayData) →
    ∀ c ∈ s.client.clients, c.streamId = (relayUnpack cell).streamId → c.sendbuf = []
  | _ => True

instance (s : Meeting) : DecidablePred s.Clear := fun event => by
  cases event <;> unfold Meeting.Clear <;> infer_instance

namespace Meeting

variable {relayCmd : UInt8}

/-- The step is one of the client alone. -/
def ClientStep (C : AeadCrypto) (s s' : Meeting) : Prop :=
  ∃ client cells plains, s' = s.clientSends client cells plains ∧
    s.client.Sends C client cells plains

theorem clientStep_of_silent {client : RpClient} (h : s.client.Sends C client [] []) :
    s.ClientStep C { s with client := client } := by
  refine ⟨client, [], [], ?_, h⟩
  simp [clientSends, send]

theorem read_clientStep {queue : List (Option ℕ)} (hsound : s.client.Sound)
    (hwaiting : waiting s.client.clients = []) (h : s.read C streamId data queue = some s') :
    s.ClientStep C s' := by
  rw [read] at h
  cases hfind : s.client.clients.find? fun c => c.streamId == streamId with
  | none => simp [hfind] at h
  | some c =>
    simp only [hfind] at h
    split at h
    · cases h
    simp only [Option.bind_eq_bind, Option.bind_eq_some_iff, Option.pure_def,
      Option.some.injEq] at h
    obtain ⟨⟨client, cells, plains⟩, hfwd, rfl⟩ := h
    have hclient : c.streamId = streamId := by simpa using find?_some hfind
    refine ⟨client, cells, plains, rfl, forwardRecords_sends ?_ hsound hwaiting
      ⟨c, mem_of_find?_eq_some hfind, hclient⟩ hfwd⟩
    intro chunk hchunk
    exact ne_nil_and_length_le_of_mem_chunks (by decide) hchunk

/-- A cell without data that the client makes. -/
theorem sendRelay_cells {flow flow' : FlowCircuit} {cell : Option Payload}
    (hdata : relayCmd ≠ relayData) (hkem : relayCmd ≠ relayE2eKemCt)
    (h : flow.sendRelay C.toCrypto (cellRelay relayCmd streamId data) = (flow', cell)) :
    records cell.toList = [] ∧
      ∀ cell' ∈ cell.toList, (relayUnpack cell').relayCommand ≠ relayE2eKemCt := by
  cases cell with
  | none => simp
  | some cell =>
    have hcmd : (relayUnpack cell).relayCommand = relayCmd := by
      exact congrArg Prod.fst (body_sendRelay h)
    refine ⟨?_, ?_⟩
    · simp [records_cons_other (hcmd ▸ hdata)]
    · intro cell' hcell'
      rw [mem_singleton.mp hcell', hcmd]
      exact hkem

variable (hsound : s.client.Sound)
include hsound

theorem openStream_clientStep {target : Bytes}
    (h : s.openStream C.toCrypto streamId target = some s') : s.ClientStep C s' := by
  rw [openStream] at h
  split at h
  · cases h
  rcases hsend : FlowCircuit.sendRelay C.toCrypto (cellRelay relayBegin streamId target)
    { s.client.flow with streams := ⟨streamId, moorStreamWindow⟩ :: s.client.flow.streams }
    with ⟨flow, cell⟩
  obtain ⟨hrecords, hkem⟩ := sendRelay_cells (by decide) (by decide) hsend
  cases cell with
  | none =>
    simp only [hsend, Option.some.injEq] at h
    subst h
    exact clientStep_of_silent
      (.of_waiting rfl { hsound with } rfl (by simp) rfl)
  | some cell =>
    simp only [hsend, Option.some.injEq] at h
    subst h
    have hwaiting : waiting (s.client.clients ++ [⟨streamId, false, []⟩])
        = waiting s.client.clients := by
      rw [waiting_append]
      exact append_nil _
    refine ⟨_, [cell], [], rfl, .of_waiting rfl ⟨?_, hwaiting ▸ hsound.one⟩ rfl hkem ?_⟩
    · intro c hc
      rcases mem_append.mp hc with hc | hc
      · exact mem_append_left _ (hsound.streams c hc)
      · rw [mem_singleton.mp hc]
        exact mem_append_right _ mem_cons_self
    · rw [Option.toList_some] at hrecords
      rw [hrecords, hwaiting]
      rfl

theorem closeStream_clientStep
    (hclosed : ∀ c ∈ s.client.clients, c.streamId = streamId → c.sendbuf = [])
    (h : s.closeStream C.toCrypto streamId = some s') : s.ClientStep C s' := by
  rw [closeStream] at h
  cases hfind : s.client.clients.find? fun c => c.streamId == streamId with
  | none => simp [hfind] at h
  | some c =>
    simp only [hfind] at h
    split at h
    · cases h
    rcases hsend : s.client.flow.sendRelay C.toCrypto (cellRelay relayEnd streamId [])
      with ⟨flow, cell⟩
    obtain ⟨hrecords, hkem⟩ := sendRelay_cells (by decide) (by decide) hsend
    simp only [hsend, Option.some.injEq] at h
    subst h
    refine ⟨_, cell.toList, [], rfl, sends_prune hsound flow rfl rfl hkem hrecords ?_⟩
    intro c' hc' hdropped
    refine hclosed c' hc' ?_
    by_contra hne
    exact hdropped ((mem_erase_of_ne hne).mpr (hsound.streams c' hc'))

theorem control_clientStep (h : s.control C.toCrypto .client relayCmd streamId data = some s') :
    s.ClientStep C s' := by
  rw [control] at h
  by_cases hrefused : s.client.pending = true ∨ relayCmd = relayData ∨ relayCmd = relayE2eKemCt
  · rw [if_pos hrefused] at h
    cases h
  rw [if_neg hrefused] at h
  rcases hsend : s.client.flow.sendRelay C.toCrypto (cellRelay relayCmd streamId data)
    with ⟨flow, cell⟩
  obtain ⟨hrecords, hkem⟩ := sendRelay_cells (fun hdata => hrefused (.inr (.inl hdata)))
    (fun hkem => hrefused (.inr (.inr hkem))) hsend
  simp only [hsend, Option.some.injEq] at h
  subst h
  refine ⟨_, cell.toList, [], rfl, .of_waiting rfl { hsound with } rfl hkem ?_⟩
  rw [hrecords]
  rfl

theorem unpause_clientStep : s.ClientStep C { s with client := { s.client with
      clients := s.client.clients.map fun c => { c with paused := false } } } := by
  have hwaiting : waiting (s.client.clients.map fun c => { c with paused := false })
      = waiting s.client.clients := by
    simp [waiting, Function.comp_def]
  refine clientStep_of_silent (.of_waiting rfl ⟨?_, hwaiting ▸ hsound.one⟩ rfl (by simp) hwaiting)
  intro c hc
  obtain ⟨c', hc', rfl⟩ := mem_map.mp hc
  exact hsound.streams c' hc'

omit hsound

end Meeting

/-- A piece of the ciphertext arrives at the service, which has room for it. -/
theorem RpCircuit.AwaitsCt.handleE2eKemCt {circ : RpCircuit} (h : circ.AwaitsCt shared) (C : Crypto)
    (kemSk : Field 2400) (hroom : circ.e2eKemCt.length + data.length ≤ 1088) :
    circ.handleE2eKemCt C kemSk data =
      if (circ.e2eKemCt ++ data).length < 1088 then { circ with e2eKemCt := circ.e2eKemCt ++ data }
      else
        match C.kemDecapsulate (Arr.ofList 1088 0 (circ.e2eKemCt ++ data)) kemSk with
        | none => { circ with e2eKemCt := circ.e2eKemCt ++ data, e2eKemPending := false }
        | some kemSs =>
          { circ.activateE2e C (Meeting.hybrid C shared kemSs) 1 0 with
            e2eKemCt := circ.e2eKemCt ++ data
            e2eKemPending := false
            e2eDhShared := Field.zero 32 } := by
  have htake : data.take (1088 - circ.e2eKemCt.length) = data :=
    take_of_length_le (by omega)
  rw [RpCircuit.handleE2eKemCt, h.pending, if_neg (by simp), htake, h.dhShared]
  rfl

namespace Meeting

variable {p : Introduction} {kemSs : Field 32} {kemSk : Field 2400} {taken : ℕ} {connects : Bool}
  {env : ClientEnv} {kemPk : Field 1184}

/-- The client's keys are complete with the last piece of the ciphertext. -/
theorem Exchanges.toService (hlen : kemCt.length = 1088)
    (hkem : C.kemDecapsulate (Arr.ofList 1088 0 kemCt) kemSk = some kemSs)
    (h : s.Exchanges C shared (hybrid C.toCrypto shared kemSs) kemCt)
    (hstep : s.toService C.toCrypto kemSk taken connects = some s') :
    s'.Exchanges C shared (hybrid C.toCrypto shared kemSs) kemCt ∨
      s'.Runs C (hybrid C.toCrypto shared kemSs) := by
  obtain ⟨pieces, others, hcells, hpieces, hothers, hct⟩ := h.ciphertext
  have hshort := h.service.short
  cases pieces with
  | nil =>
    simp only [map_nil, flatten_nil, append_nil] at hct
    rw [hct] at hshort
    omega
  | cons cell pieces =>
    have hcmd := hpieces cell mem_cons_self
    have hdata : (relayUnpack cell).relayCommand ≠ relayData := by
      rw [hcmd]
      decide
    rw [cons_append] at hcells
    rw [map_cons, flatten_cons, ← append_assoc] at hct
    have hlengths := congrArg length hct
    rw [length_append, hlen, length_append] at hlengths
    have hservice :
        s.service.processRelay C.toCrypto .service kemSk (relayUnpack cell) taken connects
          = s.service.handleE2eKemCt C.toCrypto kemSk (relayUnpack cell).data := by
      rw [processRelay, if_neg hdata, hcmd, if_neg (by decide), if_neg (by decide),
        if_pos ⟨rfl, rfl⟩]
    rw [Meeting.toService, hcells] at hstep
    have hroom : s.service.e2eKemCt.length + (relayUnpack cell).data.length ≤ 1088 := by omega
    simp only [hservice, h.service.handleE2eKemCt C.toCrypto kemSk hroom,
      Option.some.injEq] at hstep
    have hup := h.up.arrive_other hcells hdata (s.service.e2eDecrypt C.toCrypto .service
      (relayUnpack cell)).2
    have hreceived : (s.up.arrive (relayUnpack cell) (s.service.e2eDecrypt C.toCrypto .service
        (relayUnpack cell)).2 (pieces ++ others)).received = [] := by
      rw [arrive, if_neg hdata]
      exact h.received
    by_cases hmore : (s.service.e2eKemCt ++ (relayUnpack cell).data).length < 1088
    · rw [if_pos hmore] at hstep
      subst hstep
      refine .inl ⟨h.client, h.sound, { h.service with short := hmore },
        ⟨pieces, others, rfl, ?_, hothers, hct⟩, hup, hreceived, h.down⟩
      exact fun cell' hcell' => hpieces cell' (mem_cons_of_mem cell hcell')
    rw [if_neg hmore] at hstep
    have hwhole : s.service.e2eKemCt ++ (relayUnpack cell).data = kemCt := by
      rw [length_append] at hmore
      have hrest : (pieces.map fun cell => (relayUnpack cell).data).flatten = [] :=
        eq_nil_of_length_eq_zero (by omega)
      simp [← hct, hrest]
    simp only [hwhole, hkem] at hstep
    subst hstep
    obtain ⟨-, -, -, -, -, hrecv⟩ := fixed_eq_iff.mp h.client
    refine .inr ⟨?_, h.sound, rfl, rfl, rfl, rfl, hup, ?_⟩
    · rw [hrecv]
      exact h.client
    · rw [hrecv]
      exact h.down.inStep C _

theorem lt_dataLength {cell : Payload} (h : 16 < (relayUnpack cell).data.length) :
    16 < (relayUnpack cell).dataLength := by
  rw [length_relayUnpack_data] at h
  exact UInt16.lt_iff_toNat_lt.mpr h

theorem Runs.toService (h : s.Runs C secret)
    (hstep : s.toService C.toCrypto kemSk taken connects = some s') : s'.Runs C secret := by
  rw [Meeting.toService] at hstep
  cases hcells : s.up.cells with
  | nil => simp [hcells] at hstep
  | cons cell cells =>
    simp only [hcells, Option.some.injEq] at hstep
    subst hstep
    by_cases hdata : (relayUnpack cell).relayCommand = relayData
    · obtain ⟨plain, hplain, hlong, hle, hup⟩ := h.up.arrive_data hcells hdata
      rw [← h.recvKey] at hplain
      obtain ⟨hdec, log, streams, hservice, -⟩ := handleData_record
        .service h.active (lt_dataLength hlong) hplain
        (hle.trans (Nat.sub_le ..)) taken
      rw [hdec, processRelay, if_pos hdata, hservice]
      exact { h with up := hup }
    · obtain ⟨streams, hservice, -⟩ := processRelay_other C.toCrypto .service kemSk hdata
        h.pending taken connects
      rw [hservice]
      exact { h with up := h.up.arrive_other hcells hdata _ }

/-- What waits fits into a cell. -/
theorem length_waiting_le {key : Field 32} {sendNonce recvNonce : UInt64} {wait : List Bytes}
    (h : d.InStep C key sendNonce recvNonce wait) :
    ∀ record ∈ wait, record.length ≤ moorRelayData := by
  intro record hrec
  obtain ⟨got, rest, -, -, hsealed⟩ := h.sealed
  exact hsealed.length_le record (mem_append_right _ hrec)

/-- A cell that arrives at a client that has its keys. -/
theorem toClient_cases (hpend : s.client.pending = false)
    (hstep : s.toClient C.toCrypto kemPk env = some s') :
    ∃ cell cells client sent, s.down.cells = cell :: cells ∧
      s.client.processCircuitCell C.toCrypto env (relayUnpack cell) = some (client, sent) ∧
      s' = { s with
        down := s.down.arrive (relayUnpack cell)
          (s.client.circ.e2eDecrypt C.toCrypto .client (relayUnpack cell)).2 cells }.clientSends
            client sent [] := by
  rw [toClient] at hstep
  cases hcells : s.down.cells with
  | nil => simp [hcells] at hstep
  | cons cell cells =>
    simp only [hcells, hpend, Bool.false_eq_true, if_false, Option.bind_eq_bind,
      Option.bind_eq_some_iff, Option.pure_def, Option.some.injEq] at hstep
    obtain ⟨⟨client, sent⟩, hclient, rfl⟩ := hstep
    exact ⟨cell, cells, client, sent, rfl, hclient, rfl⟩

theorem Exchanges.toClient (h : s.Exchanges C shared secret kemCt)
    (hclear : s.Clear (.toClient env)) (hstep : s.toClient C.toCrypto kemPk env = some s') :
    s'.Exchanges C shared secret kemCt := by
  obtain ⟨hpend, hkemPending, -⟩ := fixed_eq_iff.mp h.client
  obtain ⟨cell, cells, client, sent, hcells, hclient, rfl⟩ := toClient_cases hpend hstep
  obtain ⟨hdata, hdown⟩ := h.down.arrive hcells
    (s.client.circ.e2eDecrypt C.toCrypto .client (relayUnpack cell)).2
  have hend := hclear cell (by simp [hcells])
  have hsends := processCircuitCell_sends h.sound (length_waiting_le h.up) hkemPending
    hdata (fun hcmd => hend (.inl hcmd)) hclient
  refine Exchanges.clientSends ?_ hsends
  exact { h with down := hdown }

theorem Runs.toClient (h : s.Runs C secret) (hclear : s.Clear (.toClient env))
    (hstep : s.toClient C.toCrypto kemPk env = some s') : s'.Runs C secret := by
  obtain ⟨hpend, hkemPending, hact, hsendKey, hrecvKey, -⟩ :=
    fixed_eq_iff.mp h.client
  obtain ⟨cell, cells, client, sent, hcells, hclient, rfl⟩ := toClient_cases hpend hstep
  have hend := hclear cell (by simp [hcells])
  by_cases hdata : (relayUnpack cell).relayCommand = relayData
  · obtain ⟨plain, hplain, hlong, hle, hdown⟩ := h.down.arrive_data hcells hdata
    rw [← hrecvKey] at hplain
    obtain ⟨hdec, log, streams, hcirc, hstreams⟩ := handleData_record
      .client hact (lt_dataLength hlong) hplain (hle.trans (Nat.sub_le ..)) env.taken
    have hnot {cmd : UInt8} (hne : relayData ≠ cmd) : ¬(relayUnpack cell).relayCommand = cmd :=
      hdata ▸ hne
    rw [processCircuitCell, if_neg (hnot (by decide)), if_neg (hnot (by decide)),
      if_neg (hnot (by decide)), processRelay, if_pos hdata, hcirc] at hclient
    cases hclient
    have hnext : Runs C secret { s with
        client := { s.client with circ := { s.client.circ with
          e2eRecvNonce := s.client.circ.e2eRecvNonce + 1 } }
        down := s.down.arrive (relayUnpack cell) (some plain) cells } := by
      refine { h with client := ?_, sound := ⟨h.sound.streams, h.sound.one⟩, down := hdown }
      exact fixed_eq_iff.mpr ⟨hpend, hkemPending, hact, hsendKey, hrecvKey, rfl⟩
    rw [hdec]
    have hnone : ∀ cell ∈ ([] : List Payload), (relayUnpack cell).relayCommand ≠ relayE2eKemCt := by
      simp
    refine hnext.clientSends (sends_prune hnext.sound s.client.flow rfl rfl hnone rfl ?_)
    intro c hc hclosed
    rcases hstreams with rfl | ⟨hshort, rfl⟩
    · exact absurd (h.sound.streams c hc) hclosed
    have htaken : env.taken < moorRelayData := by omega
    refine hend (.inr ⟨hdata, htaken⟩) c hc ?_
    by_contra hne
    exact hclosed ((mem_erase_of_ne hne).mpr (h.sound.streams c hc))
  · have hsends := processCircuitCell_sends h.sound (length_waiting_le h.up) hkemPending
      hdata (fun hcmd => hend (.inl hcmd)) hclient
    refine Runs.clientSends ?_ hsends
    exact { h with down := h.down.arrive_other hcells hdata _ }

end Meeting

/-! ### Whole runs -/

/-- The nonces of both ends count the records encrypted and arrived; every record sent has arrived
or is on the way, and those that arrived were decrypted to what was encrypted. -/
structure Direction.Counted (sendNonce recvNonce : UInt64) (d : Direction) : Prop where
  sendNonce : sendNonce = UInt64.ofNat d.plains.length
  recvNonce : recvNonce = UInt64.ofNat d.received.length
  sent : d.sent = d.received.length + (records d.cells).length
  decrypts : d.received = (d.plains.take d.received.length).map some

theorem Direction.InStep.counted {key : Field 32} {sendNonce recvNonce : UInt64}
    {wait : List Bytes} (h : d.InStep C key sendNonce recvNonce wait) :
    d.Counted sendNonce recvNonce := by
  obtain ⟨got, rest, hplains, hreceived, -⟩ := h.sealed
  exact { h with decrypts := by simp [hreceived, hplains] }

namespace Meeting

/-- Once both ends have their keys, each has the send key of the other for receiving, from the hash
of the Diffie-Hellman secret and the KEM secret. In both directions the nonces are in step. -/
structure Agreed (C : Crypto) (p : Introduction) (shared : Field 32) (s : Meeting) : Prop where
  keys : s.client.circ.e2eActive = true → s.service.e2eActive = true →
    ∃ coins kemCt kemSs, C.kemEncapsulate p.kemPk coins = some (kemCt, kemSs) ∧
      s.client.circ.e2eSendKey = e2eKey C (hybrid C shared kemSs) 0 ∧
      s.service.e2eRecvKey = s.client.circ.e2eSendKey ∧
      s.client.circ.e2eRecvKey = e2eKey C (hybrid C shared kemSs) 1 ∧
      s.service.e2eSendKey = s.client.circ.e2eRecvKey
  up : s.up.Counted s.client.circ.e2eSendNonce s.service.e2eRecvNonce
  down : s.down.Counted s.service.e2eSendNonce s.client.circ.e2eRecvNonce

/-- The phase in which a meeting is. -/
inductive Phase (C : AeadCrypto) (base : Field 32 → Field 32) (p : Introduction)
    (shared : Field 32) (s : Meeting) : Prop
  | waits : s.Waits C.toCrypto (base p.serviceEphSk) shared p.clientEphSk → Phase C base p shared s
  | exchanges {coins : Field 32} {kemCt : Field 1088} {kemSs : Field 32} :
    C.kemEncapsulate p.kemPk coins = some (kemCt, kemSs) →
    s.Exchanges C shared (hybrid C.toCrypto shared kemSs) kemCt.val → Phase C base p shared s
  | runs {coins : Field 32} {kemCt : Field 1088} {kemSs : Field 32} :
    C.kemEncapsulate p.kemPk coins = some (kemCt, kemSs) →
    s.Runs C (hybrid C.toCrypto shared kemSs) → Phase C base p shared s

variable {base : Field 32 → Field 32} {p : Introduction} {taken : ℕ} {event : Event}

theorem Phase.agreed (h : Phase C base p shared s) : s.Agreed C.toCrypto p shared := by
  cases h with
  | waits h =>
    obtain ⟨circuitId, hops, hcirc⟩ := h.circ
    refine ⟨?_, ?_, ?_⟩
    · intro hact
      rw [hcirc] at hact
      cases hact
    · rw [hcirc, h.service.recvNonce]
      exact (h.idle.inStep C shared).counted
    · rw [hcirc, h.service.sendNonce]
      exact (h.down.inStep C shared).counted
  | exchanges hkem h =>
    obtain ⟨-, -, -, -, -, hrecv⟩ := fixed_eq_iff.mp h.client
    refine ⟨?_, ?_, ?_⟩
    · intro _ hact
      rw [h.service.active] at hact
      cases hact
    · rw [h.service.recvNonce]
      exact h.up.counted
    · rw [h.service.sendNonce, hrecv]
      exact (h.down.inStep C shared).counted
  | @runs coins kemCt kemSs hkem h =>
    refine ⟨?_, h.up.counted, h.down.counted⟩
    intro _ _
    obtain ⟨-, -, -, hsendKey, hrecvKey, -⟩ := fixed_eq_iff.mp h.client
    exact ⟨coins, kemCt, kemSs, hkem, hsendKey, by rw [h.recvKey, hsendKey], hrecvKey,
      by rw [h.sendKey, hrecvKey]⟩

/-- What the service makes of a secret, the client makes of the other secret. -/
theorem cryptoDh_comm {C : Crypto} (hdh : ∀ a b, C.scalarmult a (base b) = C.scalarmult b (base a))
    (a b : Field 32) : cryptoDh C a (base b) = cryptoDh C b (base a) := by
  rw [cryptoDh, cryptoDh, hdh]

/-- The pieces of the ciphertext, if all are sent. -/
theorem sendRelays_ciphertext {C : Crypto} {flow flow' : FlowCircuit} {sent : List Payload}
    (h : flow.sendRelays C
      ((chunks moorRelayData kemCt).map (cellRelay relayE2eKemCt 0)) taken = (flow', sent, true)) :
    (∀ cell ∈ sent, (relayUnpack cell).relayCommand = relayE2eKemCt) ∧
      (sent.map fun cell => (relayUnpack cell).data).flatten = kemCt ∧ records sent = [] := by
  have hbody : sent.map body = (chunks moorRelayData kemCt).map (relayE2eKemCt, ·) := by
    rw [map_body_sendRelays h, map_map]
    refine map_congr_left ?_
    intro chunk hchunk
    have hlen := (ne_nil_and_length_le_of_mem_chunks (by decide) hchunk).2
    rw [Function.comp_apply, body, relayUnpack_cellRelay _ _ hlen]
  have hcmd : ∀ cell ∈ sent, (relayUnpack cell).relayCommand = relayE2eKemCt := by
    intro cell hcell
    have hmem : body cell ∈ sent.map body := mem_map_of_mem hcell
    rw [hbody] at hmem
    obtain ⟨chunk, -, hchunk⟩ := mem_map.mp hmem
    exact (congrArg Prod.fst hchunk).symm
  refine ⟨hcmd, ?_, ?_⟩
  · have hdata := congrArg (map Prod.snd) hbody
    rw [map_map, map_map, Function.comp_def, Function.comp_def, map_id'] at hdata
    exact (congrArg flatten hdata).trans (flatten_chunks (by decide) kemCt)
  refine filterMap_eq_nil_iff.mpr ?_
  intro cell hcell
  rw [hcmd cell hcell]
  rfl

/-- The client has the answer of the service, and sends the ciphertext. -/
theorem Waits.handleRendezvous2 {servicePk clientSk : Field 32} {kemPk : Field 1184}
    {coins : Field 32} {client : RpClient}
    (h : s.Waits C.toCrypto servicePk shared clientSk)
    (hdh : cryptoDh C.toCrypto clientSk servicePk = some shared)
    (hclient : s.client.handleRendezvous2 C.toCrypto (some kemPk) coins taken
      (servicePk.val ++ (C.hash shared.val).val) = (client, cells))
    (hopen : client.circ.closed = false) :
    ∃ kemCt kemSs, C.kemEncapsulate kemPk coins = some (kemCt, kemSs) ∧
      (s.clientSends client cells []).Exchanges C shared (hybrid C.toCrypto shared kemSs)
        kemCt.val := by
  obtain ⟨circuitId, hops, hcirc⟩ := h.circ
  have hlen : ¬(servicePk.val ++ (C.hash shared.val).val).length < 64 := by simp
  have hdrop : (servicePk.val ++ (C.hash shared.val).val).drop 32 = (C.hash shared.val).val :=
    drop_left' servicePk.property
  rw [RpClient.handleRendezvous2, if_neg hlen, Arr.ofList_append, h.ephSk, hdh] at hclient
  simp only [hdrop, Arr.ofList_val, ne_eq, not_true_eq_false, if_false] at hclient
  cases hkem : C.kemEncapsulate kemPk coins with
  | none =>
    simp only [hkem, Prod.mk.injEq] at hclient
    rw [← hclient.1] at hopen
    cases hopen
  | some encapsulated =>
    obtain ⟨kemCt, kemSs⟩ := encapsulated
    rcases hsend : s.client.flow.sendRelays C.toCrypto
      ((chunks moorRelayData kemCt.val).map (cellRelay relayE2eKemCt 0)) taken with ⟨flow, sent, ok⟩
    simp only [hkem, hsend] at hclient
    cases ok with
    | false =>
      simp only [Bool.false_eq_true, if_false, Prod.mk.injEq] at hclient
      rw [← hclient.1] at hopen
      cases hopen
    | true =>
      simp only [if_true, Prod.mk.injEq] at hclient
      obtain ⟨rfl, rfl⟩ := hclient
      obtain ⟨hcmd, hdata, hrecords⟩ := sendRelays_ciphertext hsend
      refine ⟨kemCt, kemSs, rfl, ?_, ⟨?_, ?_⟩, h.service, ⟨sent, [], ?_, hcmd, by simp, ?_⟩, ?_, ?_,
        h.down⟩
      · simp only [clientSends, RpClient.fixed, RpClient.pendingComplete, activateE2e,
          hcirc, new, hybrid, e2eKey]
      · simp [clientSends, RpClient.pendingComplete, h.clients]
      · simp [clientSends, RpClient.pendingComplete, h.clients, waiting]
      · simp [clientSends, send, h.up]
      · rw [clientSends, h.kemCt, hdata]
        rfl
      · have hwaiting : waiting s.client.clients = [] := by
          rw [h.clients]
          rfl
        simp only [clientSends, RpClient.pendingComplete, hwaiting]
        exact (h.idle.send hrecords).inStep C _
      · rw [clientSends, h.up]
        rfl

/-- A cell that the service, or the rendezvous point, sends of its own accord. -/
theorem control_service (C : Crypto) {relayCmd : UInt8}
    (h : s.control C .service relayCmd streamId data = some s') :
    relayCmd ≠ relayRendezvous2 ∧ records [cellRelay relayCmd streamId data] = [] ∧
      s' = { s with down := s.down.send [cellRelay relayCmd streamId data] [] } := by
  rw [control] at h
  by_cases hrefused : relayCmd = relayData ∨ relayCmd = relayRendezvous2
  · rw [if_pos hrefused] at h
    cases h
  rw [if_neg hrefused] at h
  rw [not_or] at hrefused
  refine ⟨hrefused.2, ?_, (Option.some_inj.mp h).symm⟩
  rw [records_cons_other (by simpa using hrefused.1), records_nil]

theorem Waits.toClient {servicePk clientSk : Field 32} {env : ClientEnv} {kemPk : Field 1184}
    (h : s.Waits C.toCrypto servicePk shared clientSk)
    (hdh : cryptoDh C.toCrypto clientSk servicePk = some shared)
    (hstep : s.toClient C.toCrypto kemPk env = some s') :
    s'.Waits C.toCrypto servicePk shared clientSk ∨
      ∃ coins kemCt kemSs, C.kemEncapsulate kemPk coins = some (kemCt, kemSs) ∧
        s'.Exchanges C shared (hybrid C.toCrypto shared kemSs) kemCt.val := by
  rw [Meeting.toClient] at hstep
  cases hcells : s.down.cells with
  | nil => simp [hcells] at hstep
  | cons cell cells =>
    simp only [hcells, h.pending, if_true] at hstep
    obtain ⟨-, hdown⟩ := h.down.arrive hcells
      (s.client.circ.e2eDecrypt C.toCrypto .client (relayUnpack cell)).2
    have hnext : Waits C.toCrypto servicePk shared clientSk { s with
        down := s.down.arrive (relayUnpack cell)
          (s.client.circ.e2eDecrypt C.toCrypto .client (relayUnpack cell)).2 cells } := by
      refine { h with down := hdown, answer := ?_ }
      intro cell' hcell'
      exact h.answer cell' (by rw [hcells]; exact mem_cons_of_mem cell hcell')
    by_cases hcmd : (relayUnpack cell).relayCommand = relayRendezvous2
    · rw [if_pos hcmd, h.answer cell (by rw [hcells]; exact mem_cons_self) hcmd] at hstep
      rcases hclient : s.client.handleRendezvous2 C.toCrypto (some kemPk) env.coins env.ctTaken
        (servicePk.val ++ (C.hash shared.val).val) with ⟨client, sent⟩
      simp only [hclient] at hstep
      cases hopen : client.circ.closed with
      | true => simp [hopen] at hstep
      | false =>
        simp only [hopen, Bool.false_eq_true, if_false, Option.some.injEq] at hstep
        obtain ⟨kemCt, kemSs, hkem, hexchanges⟩ := hnext.handleRendezvous2 hdh hclient hopen
        exact .inr ⟨env.coins, kemCt, kemSs, hkem, hstep ▸ hexchanges⟩
    · rw [if_neg hcmd] at hstep
      exact .inl (Option.some_inj.mp hstep ▸ hnext)

theorem Waits.step (hdh : ∀ a b, C.scalarmult a (base b) = C.scalarmult b (base a))
    (hshared : cryptoDh C.toCrypto p.serviceEphSk (base p.clientEphSk) = some shared)
    (h : s.Waits C.toCrypto (base p.serviceEphSk) shared p.clientEphSk)
    (hstep : s.step C p event = some s') : Phase C base p shared s' := by
  cases event with
  | read streamId data queue => simp [step, read, h.clients] at hstep
  | openStream streamId target => simp [step, openStream, h.pending] at hstep
  | closeStream streamId => simp [step, closeStream, h.clients] at hstep
  | pause streamId =>
    cases hstep
    refine .waits { h with clients := ?_ }
    rw [modifyClient, h.clients]
    rfl
  | unpause =>
    cases hstep
    refine .waits { h with clients := ?_ }
    rw [h.clients]
    rfl
  | control side relayCmd streamId data =>
    cases side with
    | client => simp [step, control, h.pending] at hstep
    | service =>
      obtain ⟨hcmd, hrecords, rfl⟩ := control_service C.toCrypto hstep
      refine .waits { h with down := h.down.send hrecords, answer := ?_ }
      intro cell hcell hanswer
      rcases mem_append.mp hcell with hcell | hcell
      · exact h.answer cell hcell hanswer
      · rw [mem_singleton.mp hcell, relayUnpack_cellRelay_relayCommand] at hanswer
        exact absurd hanswer hcmd
  | targetRead streamId data sent =>
    simp [step, targetRead, h.service.streams] at hstep
  | targetClose streamId => simp [step, targetClose, h.service.streams] at hstep
  | toService taken connects => simp [step, toService, h.up] at hstep
  | toClient env =>
    rcases h.toClient ((cryptoDh_comm hdh ..).trans hshared) hstep with
      h | ⟨coins, kemCt, kemSs, hkem, h⟩
    · exact .waits h
    · exact .exchanges hkem h

/-- A step is one of the client alone, or one of the others. -/
theorem step_cases {Q : Prop} (hsound : s.client.Sound) (hclear : s.Clear event)
    (hstep : s.step C p event = some s') (client : s.ClientStep C s' → Q)
    (control : ∀ relayCmd streamId data,
      s.control C.toCrypto .service relayCmd streamId data = some s' → Q)
    (targetRead : ∀ streamId data, s.targetRead C streamId data true = some s' → Q)
    (targetClose : ∀ streamId, s.targetClose streamId = some s' → Q)
    (toService : ∀ taken connects, s.toService C.toCrypto p.kemSk taken connects = some s' → Q)
    (toClient : ∀ env, s.Clear (.toClient env) → s.toClient C.toCrypto p.kemPk env = some s' → Q) :
    Q := by
  cases event with
  | read streamId data queue => exact client (read_clientStep hsound hclear hstep)
  | openStream streamId target => exact client (openStream_clientStep hsound hstep)
  | closeStream streamId => exact client (closeStream_clientStep hsound hclear hstep)
  | pause streamId =>
    cases hstep
    exact client (clientStep_of_silent (sends_pause hsound streamId))
  | unpause =>
    cases hstep
    exact client (unpause_clientStep hsound)
  | control side relayCmd streamId data =>
    cases side with
    | client => exact client (control_clientStep hsound hstep)
    | service => exact control relayCmd streamId data hstep
  | targetRead streamId data sent =>
    obtain rfl : sent = true := hclear
    exact targetRead streamId data hstep
  | targetClose streamId => exact targetClose streamId hstep
  | toService taken connects => exact toService taken connects hstep
  | toClient env => exact toClient env hclear hstep

theorem Exchanges.step {kemCt : Field 1088} {kemSs : Field 32}
    (hkem : C.kemDecapsulate kemCt p.kemSk = some kemSs)
    (h : s.Exchanges C shared (hybrid C.toCrypto shared kemSs) kemCt.val) (hclear : s.Clear event)
    (hstep : s.step C p event = some s') :
    s'.Exchanges C shared (hybrid C.toCrypto shared kemSs) kemCt.val ∨
      s'.Runs C (hybrid C.toCrypto shared kemSs) := by
  refine step_cases h.sound hclear hstep ?_ ?_ ?_ ?_ ?_ ?_
  · rintro ⟨client, cells, plains, rfl, hsends⟩
    exact .inl (h.clientSends hsends)
  · intro relayCmd streamId data hcontrol
    obtain ⟨-, hrecords, rfl⟩ := control_service C.toCrypto hcontrol
    exact .inl { h with down := h.down.send hrecords }
  · intro streamId data hread
    simp [targetRead, h.service.streams] at hread
  · intro streamId hclose
    simp [targetClose, h.service.streams] at hclose
  · intro taken connects htoService
    refine h.toService kemCt.property ?_ htoService
    rw [Arr.ofList_val, hkem]
  · intro env henv htoClient
    exact .inl (h.toClient henv htoClient)

/-- The service encrypts what it reads from a local socket, and sends it. -/
theorem Runs.targetRead (h : s.Runs C secret)
    (hstep : s.targetRead C streamId data true = some s') : s'.Runs C secret := by
  simp only [Meeting.targetRead, h.active, if_true] at hstep
  split at hstep
  · cases hstep
  rename_i hread
  rw [not_or, not_or, not_lt] at hread
  simp only [RpCircuit.targetRead, h.active, if_true] at hstep
  cases hseal : cryptoAeadEncrypt C data [] s.service.e2eSendKey s.service.e2eSendNonce with
  | none =>
    simp only [hseal, Option.some.injEq] at hstep
    subst hstep
    exact { h with active := rfl, down := h.down.send_other rfl }
  | some record =>
    simp only [hseal, Option.some.injEq] at hstep
    subst hstep
    have hrec := length_record hseal hread.2.1 hread.2.2
    rw [h.sendKey, h.down.sendNonce] at hseal
    refine { h with
      active := rfl
      down := h.down.send (.cons hseal hread.2.1 hread.2.2 .nil) ?_ }
    rw [records_cons_data (by simp), relayUnpack_cellRelay _ _ hrec.2]
    rfl

theorem Runs.step (h : s.Runs C secret) (hclear : s.Clear event)
    (hstep : s.step C p event = some s') : s'.Runs C secret := by
  refine step_cases h.sound hclear hstep ?_ ?_ ?_ ?_ ?_ ?_
  · rintro ⟨client, cells, plains, rfl, hsends⟩
    exact h.clientSends hsends
  · intro relayCmd streamId data hcontrol
    obtain ⟨-, hrecords, rfl⟩ := control_service C.toCrypto hcontrol
    exact { h with down := h.down.send_other hrecords }
  · intro streamId data hread
    exact h.targetRead hread
  · intro streamId hclose
    rw [targetClose] at hclose
    split at hclose
    · cases hclose
    · cases hclose
      refine { h with down := h.down.send_other ?_ }
      rw [records_cons_other (by rw [relayUnpack_cellRelay_relayCommand]; decide), records_nil]
  · intro taken connects htoService
    exact h.toService htoService
  · intro env henv htoClient
    exact h.toClient henv htoClient

/-- The answer of the service is on the way. -/
theorem start_waits {C : Crypto} (hstart : start C base p = some s) :
    ∃ shared, cryptoDh C p.serviceEphSk (base p.clientEphSk) = some shared ∧
      s.Waits C (base p.serviceEphSk) shared p.clientEphSk := by
  cases hshared : cryptoDh C p.serviceEphSk (base p.clientEphSk) with
  | none => simp [start, hsRendezvous, hshared] at hstart
  | some shared =>
    have hfits : (p.rendezvousCookie.val ++ (base p.serviceEphSk).val
        ++ (C.hash shared.val).val).length ≤ moorRelayData := by
      simp only [length_append, Arr.length_val]
      decide
    have hanswer : (((p.rendezvousCookie.val ++ (base p.serviceEphSk).val
        ++ (C.hash shared.val).val)).drop 20).take 64
          = (base p.serviceEphSk).val ++ (C.hash shared.val).val := by
      rw [append_assoc, drop_left' (by simp), take_of_length_le (by simp)]
    have hshort : ¬UInt16.ofNat (p.rendezvousCookie.val ++ (base p.serviceEphSk).val
        ++ (C.hash shared.val).val).length < 20 + 64 := by
      simp only [length_append, Arr.length_val]
      decide
    simp only [start, hsRendezvous, hshared, if_true, Option.bind_eq_bind, Option.bind_some,
      rpRendezvous1, relayUnpack_cellRelay _ _ hfits, if_neg hshort, hanswer, Option.pure_def,
      Option.some.injEq] at hstart
    subst hstart
    refine ⟨shared, rfl, rfl, ⟨_, _, rfl⟩, rfl, rfl,
      ⟨rfl, rfl, rfl, rfl, rfl, rfl, show 0 < 1088 by decide⟩, rfl, rfl, ⟨rfl, rfl, rfl, ?_⟩, ?_⟩
    · rw [records_cons_other (by rw [relayUnpack_cellRelay_relayCommand]; decide), records_nil]
    intro cell hcell _
    rw [mem_singleton.mp hcell, relayUnpack_cellRelay]
    rw [length_append, Arr.length_val, Arr.length_val]
    decide

/-- For Diffie-Hellman that commutes and a KEM that is correct, in whatever order the two ends move:
the client and the service derive the same keys from the same secrets, and every record that arrives
is decrypted to what was encrypted, in every run in which no record is overtaken while it waits. -/
theorem e2e_records_in_step {C : AeadCrypto} {base : Field 32 → Field 32} {p : Introduction}
    (hdh : ∀ a b, C.scalarmult a (base b) = C.scalarmult b (base a))
    (hkem : ∀ coins kemCt kemSs, C.kemEncapsulate p.kemPk coins = some (kemCt, kemSs) →
      C.kemDecapsulate kemCt p.kemSk = some kemSs)
    {s s' : Meeting} {events : List Event} (hstart : start C.toCrypto base p = some s)
    (hclear : Run.Along (step C p) Clear s events) (hrun : Run.run (step C p) s events = some s') :
    ∃ shared, cryptoDh C.toCrypto p.serviceEphSk (base p.clientEphSk) = some shared ∧
      cryptoDh C.toCrypto p.clientEphSk (base p.serviceEphSk) = some shared ∧
      s'.Agreed C.toCrypto p shared := by
  obtain ⟨shared, hshared, hwaits⟩ := start_waits hstart
  have hstep : ∀ s event s', Phase C base p shared s → s.Clear event →
      step C p s event = some s' → Phase C base p shared s' := by
    intro s event s' hphase hevent hnext
    cases hphase with
    | waits h => exact h.step hdh hshared hnext
    | exchanges hencapsulate h =>
      rcases h.step (hkem _ _ _ hencapsulate) hevent hnext with h | h
      · exact .exchanges hencapsulate h
      · exact .runs hencapsulate h
    | runs hencapsulate h => exact .runs hencapsulate (h.step hevent hnext)
  refine ⟨shared, hshared, (cryptoDh_comm hdh ..).trans hshared, ?_⟩
  exact (Run.run_invariant hstep (.waits hwaits) hclear hrun).agreed

end Meeting

def sampleIntroduction : Introduction where
  rendezvousCookie := Field.zero 20
  clientEphSk := Arr.replicate 32 1
  serviceEphSk := Arr.replicate 32 2
  kemPk := Field.zero 1184
  kemSk := Field.zero 2400
  clientId := 7
  serviceId := 8
  clientHops := [⟨Field.zero 32, ⟨Arr.replicate 32 1, 0, Field.zero 32⟩,
    ⟨Arr.replicate 32 2, 0, Field.zero 32⟩⟩]
  serviceHops := [⟨Field.zero 32, ⟨Arr.replicate 32 3, 0, Field.zero 32⟩,
    ⟨Arr.replicate 32 4, 0, Field.zero 32⟩⟩]
  ccPathType := 0

/-- Surroundings in which all is sent and all is taken. -/
def sampleClientEnv : ClientEnv := ⟨0, fun _ => [some 0], 498, Arr.replicate 32 9, 3⟩

/-- The run of the stand-ins, in which a public key is its secret key. -/
def sampleMeeting (events : List Meeting.Event) : Option Meeting := do
  let s ← Meeting.start Crypto.sample id sampleIntroduction
  Run.run (Meeting.step AeadCrypto.sample sampleIntroduction) s events

namespace Meeting

/-- After the handshake, a record in each direction. -/
def sampleEvents : List Event :=
  [.toClient sampleClientEnv, .openStream 1 [], .toService 498 true, .toService 498 true,
    .toService 498 true, .toService 498 true, .read 1 (ascii "hello") [some 0], .toService 498 true,
    .targetRead 1 (ascii "world") true, .toClient sampleClientEnv]

set_option maxRecDepth 100000 in
theorem e2e_records_in_step_sample :
    ∃ s shared, sampleMeeting sampleEvents = some s ∧
      s.up.received = [some (ascii "hello")] ∧ s.down.received = [some (ascii "world")] ∧
      s.Agreed Crypto.sample sampleIntroduction shared := by
  obtain ⟨s, hstart, hclear, s', hrun, hup, hdown⟩ :
      ∃ s, start Crypto.sample id sampleIntroduction = some s ∧
        Run.Along (step AeadCrypto.sample sampleIntroduction) Clear s sampleEvents ∧
        ∃ s', Run.run (step AeadCrypto.sample sampleIntroduction) s sampleEvents = some s' ∧
          s'.up.received = [some (ascii "hello")] ∧ s'.down.received = [some (ascii "world")] := by
    decide +kernel
  have hdh : ∀ a b, AeadCrypto.sample.scalarmult a (id b) = AeadCrypto.sample.scalarmult b (id a) :=
    scalarmult_comm_sample
  obtain ⟨shared, -, -, hagreed⟩ :=
    e2e_records_in_step hdh (kem_correct_sample _ _) hstart hclear hrun
  refine ⟨s', shared, ?_, hup, hdown, hagreed⟩
  rw [sampleMeeting, hstart]
  exact hrun

/-- The window of stream 1 is used up, and its next record waits. Stream 2 sends a record. -/
def overtakingEvents : List Event :=
  [.toClient sampleClientEnv, .openStream 1 [], .openStream 2 []] ++
    List.replicate 101 (.read 1 (ascii "x") [some 0]) ++ [.read 2 (ascii "y") [some 0]] ++
    List.replicate 106 (.toService 498 true)

set_option maxRecDepth 100000 in
/-- The record of stream 2 has been encrypted after the one that waits, and does not decrypt. -/
theorem e2e_record_overtakes :
    (∀ a b, Crypto.sample.scalarmult a (id b) = Crypto.sample.scalarmult b (id a)) ∧
    (∀ coins kemCt kemSs,
      Crypto.sample.kemEncapsulate sampleIntroduction.kemPk coins = some (kemCt, kemSs) →
      Crypto.sample.kemDecapsulate kemCt sampleIntroduction.kemSk = some kemSs) ∧
    ∃ s, sampleMeeting overtakingEvents = some s ∧ s.up.cells = [] ∧ s.up.sent = 101 ∧
      s.service.e2eRecvNonce = 100 ∧ s.up.received.drop 100 = [none] ∧
      ∀ shared, ¬s.Agreed Crypto.sample sampleIntroduction shared := by
  refine ⟨scalarmult_comm_sample, kem_correct_sample _ _, ?_⟩
  obtain ⟨s, hrun, hcells, hsent, hnonce, hreceived⟩ : ∃ s,
      sampleMeeting overtakingEvents = some s ∧ s.up.cells = [] ∧ s.up.sent = 101 ∧
      s.service.e2eRecvNonce = 100 ∧ s.up.received.drop 100 = [none] := by
    decide +kernel
  refine ⟨s, hrun, hcells, hsent, hnonce, hreceived, ?_⟩
  intro shared hagreed
  have hdrop := congrArg (drop 100) hagreed.up.decrypts
  rw [hreceived, ← map_drop] at hdrop
  have hmem : none ∈ ((s.up.plains.take s.up.received.length).drop 100).map some :=
    hdrop ▸ mem_cons_self
  obtain ⟨plain, -, hplain⟩ := mem_map.mp hmem
  cases hplain

end Meeting

end Moor
