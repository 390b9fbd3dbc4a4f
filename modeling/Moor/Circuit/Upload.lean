import Moor.Relay.FlowControl

/-!
# Uploads

A client sends data to the end of its circuit, which acknowledges every hundred cells by a SENDME.
The channels between them keep the order, and apart from that the two ends move in any order. The
digests that the client records have to be those that the SENDMEs carry.
-/

namespace Moor

open Codec List Option FlowCircuit

/-- A client, the other end of its circuit, and the payloads under way; with the numbers of cells of
data sent, and of SENDMEs for the circuit that the client accepted and refused. -/
structure Upload (S : Type) where
  client : FlowCircuit
  peer : S
  forward : List Payload
  backward : List Payload
  sent : ℕ
  acked : ℕ
  refused : ℕ

namespace Upload

/-- What can happen next: the client sends data, in cells that are queued at some times, or another
cell; it opens or closes a stream; the other end takes a cell, or does something else; the client
takes a cell. -/
inductive Event (E A : Type)
  | sendData (streamId : UInt16) (data : Bytes) (times : List ℕ)
  | sendOther (relayCmd : UInt8) (streamId : UInt16) (data : Bytes)
  | openStream (streamId : UInt16)
  | closeStream (streamId : UInt16)
  | deliver (env : E)
  | act (action : A)
  | receive (nowMs : ℕ)

variable {S E A : Type}

def start (hops : List Hop) (ccPathType : UInt8) (peer : S) : Upload S :=
  ⟨.init hops ccPathType, peer, [], [], 0, 0, 0⟩

/-- The client sends data. All cells are queued, since there is a time for each of them. -/
def sendData (C : Crypto) (streamId : UInt16) (data : Bytes) (times : List ℕ) (s : Upload S) :
    Option (Upload S) :=
  if (chunks moorRelayData data).length ≤ times.length then do
    let (client, cells, _) ← s.client.sendData C streamId data (times.map some)
    return { s with
      client := client
      forward := s.forward ++ cells.map DataCell.stamped
      sent := s.sent + cells.length }
  else none

def sendOther (C : Crypto) (relayCmd : UInt8) (streamId : UInt16) (data : Bytes) (s : Upload S) :
    Option (Upload S) :=
  if relayCmd = relayData then none
  else
    let payload := cellRelay relayCmd streamId data
    let (hops, wrapped) := circuitEncryptForward C s.client.hops payload
    let stamped := (setLastDigest C (s.client.hops.map Hop.forward) payload).2
    some { s with
      client := { s.client with hops := hops }
      forward := if wrapped.isSome then s.forward ++ [stamped] else s.forward }

/-- The client takes a cell. -/
def receive (nowMs : ℕ) (s : Upload S) : Option (Upload S) :=
  match s.backward with
  | [] => none
  | payload :: backward =>
    let relay := relayUnpack payload
    if relay.relayCommand = relaySendme then do
      let (client, accepted) ← s.client.handleSendme nowMs relay.streamId relay.data
      return { s with
        client := client
        backward := backward
        acked := if relay.streamId = 0 ∧ accepted then s.acked + 1 else s.acked
        refused := if relay.streamId = 0 ∧ !accepted then s.refused + 1 else s.refused }
    else some { s with backward := backward }

/-- One step. The other end is given by how it takes a cell, and by what else it can do. -/
def step (C : Crypto) (recv : E → Payload → S → S × List Payload)
    (act : A → S → Option (S × List Payload)) (s : Upload S) : Event E A → Option (Upload S)
  | .sendData streamId data times => s.sendData C streamId data times
  | .sendOther relayCmd streamId data => s.sendOther C relayCmd streamId data
  | .openStream streamId =>
    (s.client.step C (.openStream streamId)).map fun client => { s with client := client }
  | .closeStream streamId =>
    (s.client.step C (.closeStream streamId)).map fun client => { s with client := client }
  | .deliver env =>
    match s.forward with
    | [] => none
    | payload :: forward =>
      let (peer, out) := recv env payload s.peer
      some { s with peer := peer, forward := forward, backward := s.backward ++ out }
  | .act action =>
    (act action s.peer).map fun (peer, out) =>
      { s with peer := peer, backward := s.backward ++ out }
  | .receive nowMs => s.receive nowMs

end Upload

/-! ### The client sends -/

def lastDigest (hops : List Hop) : Option (Field 32) :=
  (hops.map Hop.forward).getLast?.map Layer.digest

/-- A hop has no nonces left, so that nothing can be sent any more. -/
def Exhausted (hops : List Hop) : Prop := ∃ l ∈ hops.map Hop.forward, l.nonce = Layer.uint64Max

variable {C : Crypto} {payload : Payload}

/-- A layer without nonces stays in its place. -/
theorem exhausted_encryptLayers {layers layers' : List Layer}
    (h : encryptLayers C layers payload = (layers', none)) :
    ∃ l ∈ layers', l.nonce = Layer.uint64Max := by
  induction layers generalizing layers' with
  | nil => simp [encryptLayers] at h
  | cons l layers ih =>
    rw [encryptLayers] at h
    rcases hrest : encryptLayers C layers payload with ⟨rest, _ | inner⟩
    · rw [hrest] at h
      cases h
      obtain ⟨l', hmem, hmax⟩ := ih hrest
      exact ⟨l', mem_cons_of_mem l hmem, hmax⟩
    rw [hrest] at h
    by_cases hl : l.nonce = Layer.uint64Max
    · simp only [Layer.crypt, if_pos hl] at h
      cases h
      exact ⟨l, mem_cons_self, hl⟩
    · simp [Layer.crypt, if_neg hl] at h

/-- A cell that is sent is stamped with the next digest of the last hop. -/
theorem lastDigest_encrypt {hops hops' : List Hop} {wrapped : Payload} {digest : Field 32}
    (h : circuitEncryptForward C hops payload = (hops', some wrapped))
    (hdig : ¬Exhausted hops → lastDigest hops = some digest) :
    lastDigest hops' = some (nextDigest C payload digest) ∧
      (setLastDigest C (hops.map Hop.forward) payload).2
        = putDigest (digestPrefix (nextDigest C payload digest)) payload := by
  have hlayers := (circuitEncryptForward_layers C hops payload).1
  rw [h] at hlayers
  have hwrapped : (sendLayers C (hops.map Hop.forward) payload).2 = some wrapped :=
    congrArg Prod.snd h
  have hsend : sendLayers C (hops.map Hop.forward) payload =
      (hops'.map Hop.forward, some wrapped) := Prod.ext hlayers.symm hwrapped
  rcases eq_nil_or_concat' (hops.map Hop.forward) with hnil | ⟨layers, l, hconcat⟩
  · have hlive : ¬Exhausted hops := by simp [Exhausted, hnil]
    have hdigest' := hdig hlive
    simp [lastDigest, hnil] at hdigest'
  rw [hconcat] at hsend
  obtain ⟨hlayers', -, hne, hl⟩ := sendLayers_concat hsend
  have hlive : ¬Exhausted hops := by
    rw [Exhausted, hconcat]
    rintro ⟨l', hmem, hmax⟩
    rcases mem_append.mp hmem with hmem | hmem
    · exact hne l' hmem hmax
    · exact hl (mem_singleton.mp hmem ▸ hmax)
  have hdigest' := hdig hlive
  rw [lastDigest, hconcat, getLast?_concat, map_some, some_inj] at hdigest'
  rw [lastDigest, hlayers', getLast?_concat, hconcat, setLastDigest_concat, hdigest']
  exact ⟨rfl, rfl⟩

/-- What holds at the client before it sends data, and with every cell that it sends, holds after
it. -/
theorem FlowCircuit.sendPieces_invariant {streamId : UInt16}
    {P : FlowCircuit → List Payload → ℕ → Prop}
    (hcell : ∀ circ forward sent chunk nowMs hops wrapped circ', P circ forward sent →
      0 < circ.circPackageWindow →
      circuitEncryptForward C circ.hops (cellRelay relayData streamId chunk)
        = (hops, some wrapped) →
      countCell nowMs streamId { circ with hops := hops } = some circ' →
      P circ' (forward ++ [(setLastDigest C (circ.hops.map Hop.forward)
        (cellRelay relayData streamId chunk)).2]) (sent + 1))
    (hfails : ∀ circ forward sent chunk hops, P circ forward sent →
      circuitEncryptForward C circ.hops (cellRelay relayData streamId chunk) = (hops, none) →
      P { circ with hops := hops } forward sent) {totalLen : ℕ} {pieces : List Bytes}
    {times : List ℕ} (htimes : pieces.length ≤ times.length) {circ circ' : FlowCircuit}
    {cells : List DataCell} {ret : ℤ} {forward : List Payload} {sent : ℕ} (h : P circ forward sent)
    (hsend : sendPieces C streamId totalLen pieces (times.map some) circ
      = some (circ', cells, ret)) :
    P circ' (forward ++ cells.map DataCell.stamped) (sent + cells.length) := by
  induction pieces generalizing times circ circ' cells ret forward sent with
  | nil =>
    cases hsend
    simpa using h
  | cons chunk rest ih =>
    obtain ⟨nowMs, times, rfl⟩ := exists_cons_of_length_pos (Nat.zero_lt_of_lt htimes)
    rw [sendPieces] at hsend
    by_cases hblocked : circ.Blocked streamId
    · rw [if_pos hblocked] at hsend
      cases hsend
      simpa using h
    rw [if_neg hblocked] at hsend
    have hwin : 0 < circ.circPackageWindow := lt_of_not_ge fun hle => hblocked (.inl hle)
    cases henc : circuitEncryptForward C circ.hops (cellRelay relayData streamId chunk) with
    | mk hops wrapped =>
    cases wrapped with
    | none =>
      simp only [henc] at hsend
      cases hsend
      simpa using hfails circ forward sent chunk hops h henc
    | some wrapped =>
      simp only [henc, map_cons, headD_cons, tail_cons, bind_eq_bind,
        bind_eq_some_iff, Option.pure_def, some_inj, Prod.mk.injEq] at hsend
      obtain ⟨circ₁, hcount, ⟨circ₂, cells₁, ret₁⟩, hrest, rfl, rfl, rfl⟩ := hsend
      have hnext := hcell circ forward sent chunk nowMs hops wrapped circ₁ h hwin henc hcount
      have hdone := ih (Nat.le_of_succ_le_succ htimes) hnext hrest
      rw [append_assoc, singleton_append] at hdone
      rw [map_cons, length_cons, Nat.add_comm _ 1, ← Nat.add_assoc]
      exact hdone

namespace Upload

variable {S : Type}

/-- What is preserved when the client sends a cell of data, or another cell, or cannot send. -/
structure SendInvariant (C : Crypto) (P : Upload S → Prop) : Prop where
  data : ∀ {s : Upload S} {streamId : UInt16} {chunk : Bytes} {nowMs : ℕ} {hops : List Hop}
    {wrapped : Payload} {client : FlowCircuit}, P s → 0 < s.client.circPackageWindow →
    circuitEncryptForward C s.client.hops (cellRelay relayData streamId chunk)
      = (hops, some wrapped) →
    FlowCircuit.countCell nowMs streamId { s.client with hops := hops } = some client →
    P { s with
      client := client
      forward := s.forward ++ [(setLastDigest C (s.client.hops.map Hop.forward)
        (cellRelay relayData streamId chunk)).2]
      sent := s.sent + 1 }
  other : ∀ {s : Upload S} {relayCmd : UInt8} {streamId : UInt16} {data : Bytes} {hops : List Hop}
    {wrapped : Payload}, P s → relayCmd ≠ relayData →
    circuitEncryptForward C s.client.hops (cellRelay relayCmd streamId data)
      = (hops, some wrapped) →
    P { s with
      client := { s.client with hops := hops }
      forward := s.forward ++ [(setLastDigest C (s.client.hops.map Hop.forward)
        (cellRelay relayCmd streamId data)).2] }
  stuck : ∀ {s : Upload S} {payload : Payload} {hops : List Hop}, P s →
    circuitEncryptForward C s.client.hops payload = (hops, none) →
    P { s with client := { s.client with hops := hops } }

variable {C : Crypto} {P : Upload S → Prop} {s s' : Upload S}

variable {streamId : UInt16} {data : Bytes}

theorem SendInvariant.sendData (hP : SendInvariant C P) (h : P s) {times : List ℕ}
    (hstep : s.sendData C streamId data times = some s') : P s' := by
  rw [Upload.sendData] at hstep
  split_ifs at hstep with htimes
  obtain ⟨⟨client, cells, ret⟩, hsend, heq⟩ := bind_eq_some_iff.mp hstep
  cases heq
  exact sendPieces_invariant
    (P := fun client forward sent =>
      P { s with client := client, forward := forward, sent := sent })
    (fun _ _ _ _ _ _ _ _ hcirc hwin henc hcount => hP.data hcirc hwin henc hcount)
    (fun _ _ _ _ _ hcirc henc => hP.stuck hcirc henc) htimes h hsend

theorem SendInvariant.sendOther (hP : SendInvariant C P) (h : P s) {relayCmd : UInt8}
    (hstep : s.sendOther C relayCmd streamId data = some s') : P s' := by
  cases henc : circuitEncryptForward C s.client.hops (cellRelay relayCmd streamId data) with
  | mk hops wrapped =>
  simp only [Upload.sendOther, henc] at hstep
  split_ifs at hstep with hcmd hwrapped
  · obtain ⟨wrapped, rfl⟩ := isSome_iff_exists.mp hwrapped
    cases hstep
    exact hP.other h hcmd henc
  · obtain rfl := not_isSome_iff_eq_none.mp hwrapped
    cases hstep
    exact hP.stuck h henc

end Upload

/-! ### Digests in step -/

section

variable (C : Crypto)

def digestAfter (digest : Field 32) (payloads : List Payload) : Field 32 :=
  payloads.foldl (fun digest payload => nextDigest C payload digest) digest

/-- Each payload carries the digest that is due. -/
def Recognised : Field 32 → List Payload → Prop
  | _, [] => True
  | digest, payload :: payloads =>
    recognises C digest payload = true ∧ Recognised (nextDigest C payload digest) payloads

/-- The payloads under way take the other end from its digest to that of the client's last hop. -/
structure InStep (hops : List Hop) (digest : Field 32) (forward : List Payload) : Prop where
  recognised : Recognised C digest forward
  last : ¬Exhausted hops → lastDigest hops = some (digestAfter C digest forward)

variable {C}

@[simp] theorem digestAfter_concat (digest : Field 32) (payloads : List Payload)
    (payload : Payload) :
    digestAfter C digest (payloads ++ [payload])
      = nextDigest C payload (digestAfter C digest payloads) := by
  simp [digestAfter]

variable {digest : Field 32} {payload wrapped : Payload} {hops : List Hop} {forward : List Payload}
  {streamId : UInt16}

theorem recognised_concat {payloads : List Payload} :
    Recognised C digest (payloads ++ [payload]) ↔
      Recognised C digest payloads ∧
        recognises C (digestAfter C digest payloads) payload = true := by
  induction payloads generalizing digest with
  | nil => simp [Recognised, digestAfter]
  | cons first payloads ih => simp [Recognised, ih, and_assoc, digestAfter]

/-- The other end takes a payload that it recognises. -/
theorem EndCircuit.recognise_of_recognises {circ : EndCircuit}
    (h : recognises C circ.relayForwardDigest payload = true) :
    circ.recognise C payload
      = some { circ with relayForwardDigest := nextDigest C payload circ.relayForwardDigest } := by
  rw [recognises, Bool.and_eq_true, beq_iff_eq] at h
  obtain ⟨hzero, hcheck⟩ := h
  obtain ⟨digest, hdig⟩ := isSome_iff_exists.mp hcheck
  rw [relayCheckDigest] at hdig
  rw [recognise, if_pos hzero, relayCheckDigest]
  split_ifs at hdig ⊢
  rfl

/-- The client sends a cell, and both ends stay in step. -/
theorem InStep.send {hops' : List Hop} (h : InStep C hops digest forward)
    (hzero : (relayUnpack payload).recognized = 0)
    (henc : circuitEncryptForward C hops payload = (hops', some wrapped)) :
    InStep C hops' digest
      (forward ++ [(setLastDigest C (hops.map Hop.forward) payload).2]) := by
  obtain ⟨hlast, hstamped⟩ := lastDigest_encrypt henc h.last
  rw [hstamped]
  constructor
  · refine recognised_concat.mpr ⟨h.recognised, ?_⟩
    have hcheck := relayCheckDigest_relaySetDigest C payload (digestAfter C digest forward)
    rw [relaySetDigest] at hcheck
    simp [recognises, relayUnpack_putDigest, hzero, hcheck]
  · intro _
    simp [hlast]

/-- The stamp leaves the kind of a cell. -/
theorem InStep.relayCommand_stamped {hops' : List Hop} {relayCmd : UInt8} {data : Bytes}
    (h : InStep C hops digest forward)
    (henc : circuitEncryptForward C hops (cellRelay relayCmd streamId data)
      = (hops', some wrapped)) :
    (relayUnpack (setLastDigest C (hops.map Hop.forward)
      (cellRelay relayCmd streamId data)).2).relayCommand = relayCmd := by
  rw [(lastDigest_encrypt henc h.last).2, relayUnpack_putDigest]
  exact relayUnpack_cellRelay_relayCommand relayCmd streamId data

/-- What the client has after a cell of data. Every hundredth time it records the digest that the
other end will have. -/
theorem InStep.countCell {client client' : FlowCircuit} (h : InStep C client.hops digest forward)
    (hok : client.Ok) (hwin : 0 < client.circPackageWindow) {chunk : Bytes} {nowMs : ℕ}
    (henc : circuitEncryptForward C client.hops (cellRelay relayData streamId chunk)
      = (hops, some wrapped))
    (hcount : FlowCircuit.countCell nowMs streamId { client with hops := hops } = some client') :
    let forward' := forward ++ [(setLastDigest C (client.hops.map Hop.forward)
      (cellRelay relayData streamId chunk)).2]
    client'.Ok ∧ InStep C client'.hops digest forward' ∧ client'.inflight = client.inflight + 1 ∧
      client'.sendmeAuthExpected.toList = client.sendmeAuthExpected.toList ++
        if (client.inflight + 1) % moorSendmeIncrement = 0 then
          [authDigest (digestAfter C digest forward')] else [] := by
  intro forward'
  obtain ⟨hlast, hstamped⟩ := lastDigest_encrypt henc h.last
  obtain ⟨last, hgetLast, hdig⟩ : ∃ last, hops.getLast? = some last ∧
      last.forward.digest = digestAfter C digest forward' := by
    rw [lastDigest, getLast?_map, Option.map_map, map_eq_some_iff] at hlast
    obtain ⟨last, hgetLast, hdig⟩ := hlast
    refine ⟨last, hgetLast, ?_⟩
    rw [digestAfter_concat, hstamped, nextDigest_putDigest]
    exact hdig
  obtain ⟨client'', hcount', hok', hhops, hinflight, hexp, -⟩ := countCell_spec
    (hok.setHops (hops_ne_nil_circuitEncryptForward hok.hops henc)) hwin
    hgetLast nowMs streamId
  obtain rfl := some_inj.mp (hcount.symm.trans hcount')
  rw [hdig] at hexp
  exact ⟨hok', hhops ▸ h.send (by simp) henc, hinflight, hexp⟩

/-- When the client cannot send a cell, it can send none. -/
theorem InStep.exhausted {hops' : List Hop} (h : InStep C hops digest forward)
    (henc : circuitEncryptForward C hops payload = (hops', none)) :
    InStep C hops' digest forward := by
  refine ⟨h.recognised, fun hlive => absurd ?_ hlive⟩
  have hlayers := (circuitEncryptForward_layers C hops payload).1
  rw [henc] at hlayers
  have hnone : (sendLayers C (hops.map Hop.forward) payload).2 = none := congrArg Prod.snd henc
  rw [Exhausted, hlayers]
  exact exhausted_encryptLayers (Prod.ext rfl hnone)

/-- The other end takes the next payload. -/
theorem InStep.tail (h : InStep C hops digest (payload :: forward)) :
    InStep C hops (nextDigest C payload digest) forward :=
  ⟨h.recognised.2, h.last⟩

end

/-! ### SENDMEs for the circuit -/

/-- The data of the SENDMEs for the circuit among some payloads. -/
def circuitSendmes (payloads : List Payload) : List Bytes :=
  payloads.filterMap fun payload =>
    let relay := relayUnpack payload
    if relay.relayCommand = relaySendme ∧ relay.streamId = 0 then some relay.data else none

/-- The number of cells of data among some payloads. -/
def dataCount (payloads : List Payload) : ℕ :=
  payloads.countP fun payload => (relayUnpack payload).relayCommand == relayData

@[simp] theorem circuitSendmes_nil : circuitSendmes [] = [] := rfl

@[simp] theorem circuitSendmes_append (xs ys : List Payload) :
    circuitSendmes (xs ++ ys) = circuitSendmes xs ++ circuitSendmes ys := filterMap_append ..

/-- Other cells that are queued are no SENDMEs for the circuit. -/
theorem circuitSendmes_queueRelay {relayCmd : UInt8} {streamId : UInt16}
    (h : relayCmd ≠ relaySendme ∨ streamId ≠ 0) (C : Crypto) (env : EndEnv) (data : Bytes)
    (circ : EndCircuit) :
    circuitSendmes (circ.queueRelay C env relayCmd streamId data).2 = [] := by
  have hother : ¬(relayCmd = relaySendme ∧ streamId = 0) := fun hboth =>
    h.elim (· hboth.1) (· hboth.2)
  simp only [EndCircuit.queueRelay, relaySetDigest]
  split_ifs
  · simp [circuitSendmes, relayUnpack_putDigest, hother]
  · rfl

theorem circuitSendmes_queueRelay_sendme {env : EndEnv} (h : env.queue relaySendme 0 = true)
    (C : Crypto) {data : Bytes} (hdata : data.length ≤ moorRelayData) (circ : EndCircuit) :
    circuitSendmes (circ.queueRelay C env relaySendme 0 data).2 = [data] := by
  simp [EndCircuit.queueRelay, relaySetDigest, h, circuitSendmes, relayUnpack_putDigest,
    relayUnpack_cellRelay _ _ hdata]

/-! ### What the client preserves -/

namespace Upload

variable {S E A : Type}

/-- What is preserved by the client: when it sends, when its streams change, and when it takes a
cell. -/
structure ClientInvariant (C : Crypto) (P : Upload S → Prop) : Prop extends SendInvariant C P where
  ok : ∀ {s : Upload S}, P s → s.client.Ok
  streams : ∀ {s : Upload S} {client : FlowCircuit}, P s → client.Ok →
    client.hops = s.client.hops → client.inflight = s.client.inflight →
    client.sendmeAuthExpected = s.client.sendmeAuthExpected → P { s with client := client }
  skip : ∀ {s : Upload S} (backward : List Payload), P s →
    circuitSendmes s.backward = circuitSendmes backward → P { s with backward := backward }
  sendme : ∀ {s : Upload S} {data : Bytes} (backward : List Payload) {nowMs : ℕ}
    {client : FlowCircuit} {accepted : Bool}, P s →
    circuitSendmes s.backward = data :: circuitSendmes backward →
    s.client.handleSendme nowMs 0 data = some (client, accepted) →
    P { s with
      client := client
      backward := backward
      acked := if accepted then s.acked + 1 else s.acked
      refused := if !accepted then s.refused + 1 else s.refused }

variable {C : Crypto} {P Q : Upload S → Prop} {s s' : Upload S}

theorem ClientInvariant.receive (hP : ClientInvariant C P) (h : P s) {nowMs : ℕ}
    (hstep : s.receive nowMs = some s') : P s' := by
  rw [Upload.receive.eq_def] at hstep
  cases hback : s.backward with
  | nil => simp [hback] at hstep
  | cons payload backward =>
    simp only [hback] at hstep
    by_cases hsendme : (relayUnpack payload).relayCommand = relaySendme
    · rw [if_pos hsendme] at hstep
      obtain ⟨⟨client, accepted⟩, hhandle, heq⟩ := bind_eq_some_iff.mp hstep
      cases heq
      by_cases hcircuit : (relayUnpack payload).streamId = 0
      · rw [hcircuit] at hhandle
        have hnext := hP.sendme backward h
          (by simp [hback, circuitSendmes, hsendme, hcircuit]) hhandle
        simpa only [hcircuit, true_and] using hnext
      rw [handleSendme, if_neg hcircuit] at hhandle
      cases hhandle
      have hnext := hP.streams (hP.skip backward h (by simp [hback, circuitSendmes, hcircuit]))
        (streamSendme_ok (hP.ok h) (relayUnpack payload).streamId) rfl rfl rfl
      simpa only [hcircuit, false_and, if_false] using hnext
    · rw [if_neg hsendme] at hstep
      cases hstep
      exact hP.skip backward h (by simp [hback, circuitSendmes, hsendme])

/-- A step keeps what the client and the other end preserve. -/
theorem ClientInvariant.step (hP : ClientInvariant C P) (hQ : ∀ s, P s → Q s) (h : P s)
    {recv : E → Payload → S → S × List Payload} {act : A → S → Option (S × List Payload)}
    {event : Event E A}
    (hdeliver : ∀ {env payload forward}, event = .deliver env → s.forward = payload :: forward →
      Q { s with
        peer := (recv env payload s.peer).1
        forward := forward
        backward := s.backward ++ (recv env payload s.peer).2 })
    (hact : ∀ {action peer out}, act action s.peer = some (peer, out) →
      P { s with peer := peer, backward := s.backward ++ out })
    (hstep : s.step C recv act event = some s') : Q s' := by
  cases event with
  | sendData streamId data times => exact hQ _ (hP.sendData h hstep)
  | sendOther relayCmd streamId data => exact hQ _ (hP.sendOther h hstep)
  | openStream streamId =>
    obtain ⟨client, hclient, hok⟩ :=
      step_spec C s.client (.openStream streamId) (hP.ok h)
    cases hstep
    cases hclient
    exact hQ _ (hP.streams h hok rfl rfl rfl)
  | closeStream streamId =>
    obtain ⟨client, hclient, hok⟩ :=
      step_spec C s.client (.closeStream streamId) (hP.ok h)
    cases hstep
    cases hclient
    exact hQ _ (hP.streams h hok rfl rfl rfl)
  | deliver env =>
    rw [Upload.step] at hstep
    cases hfwd : s.forward with
    | nil => simp [hfwd] at hstep
    | cons payload forward =>
      simp only [hfwd] at hstep
      cases hstep
      exact hdeliver rfl hfwd
  | act action =>
    obtain ⟨⟨peer, out⟩, haction, rfl⟩ := map_eq_some_iff.mp hstep
    exact hQ _ (hact haction)
  | receive nowMs => exact hQ _ (hP.receive h hstep)

end Upload

end Moor
