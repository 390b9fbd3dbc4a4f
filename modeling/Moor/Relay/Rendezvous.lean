import Moor.Circuit.Upload

/-!
# Uploads through a rendezvous point

A rendezvous point joins the circuit of a client and that of a service, and sends the cells of each
on to the other. It counts the cells of data as an exit does, and sends a SENDME for every hundred;
but its SENDMEs carry no digest, and the client refuses them.
-/

namespace Moor

open Codec List FlowCircuit

/-- Two circuits that are joined at a rendezvous point. -/
structure Joined where
  circ : EndCircuit
  partner : EndCircuit

namespace Joined

def swap (joined : Joined) : Joined := ⟨joined.partner, joined.circ⟩

variable (C : Crypto) (env : EndEnv)

/-- Counts a cell of data, and sends a SENDME for every hundred. -/
def countData (circ : EndCircuit) : EndCircuit × List Payload :=
  let circ := { circ with circDeliverWindow := circ.circDeliverWindow - 1 }
  if circ.circDeliverWindow ≤ moorCircuitWindow - moorSendmeIncrement then
    let (circ, out) :=
      if circ.prevConn = some .opened then circ.queueRelay C env relaySendme 0 [] else (circ, [])
    ({ circ with circDeliverWindow := circ.circDeliverWindow + moorSendmeIncrement }, out)
  else (circ, [])

/-- Sends a cell on to the other circuit. Returns the cells for this circuit and for the other. -/
def forward (relay : RelayPayload) (joined : Joined) : Joined × List Payload × List Payload :=
  if relay.relayCommand = relayData ∧ joined.circ.circDeliverWindow ≤ 0 then (joined, [], [])
  else
    let (circ, out) :=
      if relay.relayCommand = relayData then countData C env joined.circ else (joined.circ, [])
    let (partner, sent) :=
      joined.partner.queueRelay C env relay.relayCommand relay.streamId relay.data
    (⟨circ, partner⟩, out, sent)

/-- A cell on one of the circuits. When the other one has lost its connection, the relay handles the
cell itself. -/
def handleRelay (payload : Payload) (joined : Joined) : Joined × List Payload × List Payload :=
  match joined.circ.recognise C payload with
  | none => (joined, [], [])
  | some circ =>
    if joined.partner.prevConn = some .opened then
      forward C env (relayUnpack payload) { joined with circ := circ }
    else
      let (circ, out) := circ.dispatch C env (relayUnpack payload)
      ({ joined with circ := circ }, out, [])

end Joined

/-! ### The joint run -/

/-- The surroundings of a rendezvous point whose cells are all delivered. -/
def rpEnv : EndEnv := ⟨fun _ _ => true, [], []⟩

/-- The rendezvous point takes a cell from the client. -/
def rpRecv (C : Crypto) (_ : Unit) (payload : Payload) (joined : Joined) :
    Joined × List Payload :=
  let (joined, out, _) := joined.handleRelay C rpEnv payload
  (joined, out)

/-- The rendezvous point takes a cell from the service, which sends no SENDMEs for the circuit. -/
def rpAct (C : Crypto) (payload : Payload) (joined : Joined) : Option (Joined × List Payload) :=
  let relay := relayUnpack payload
  if relay.relayCommand = relaySendme ∧ relay.streamId = 0 then none
  else
    let (joined, _, out) := joined.swap.handleRelay C rpEnv payload
    some (joined.swap, out)

/-- An event between a client and a rendezvous point. -/
abbrev RendezvousEvent := Upload.Event Unit Payload

/-- Two circuits that have just been joined. -/
def Upload.startRp (hops : List Hop) (rp : Hop) (ccPathType : UInt8) (service : Hop) :
    Upload Joined :=
  .start (hops ++ [rp]) ccPathType
    ⟨.init rp.forward.digest rp.backward.digest,
      .init service.forward.digest service.backward.digest⟩

/-- A cell of data is counted, and answered by an empty SENDME if it is the hundredth. -/
theorem Joined.countData_spec (C : Crypto) (circ : EndCircuit) {n : ℕ}
    (hwin : circ.circDeliverWindow = 1000 - ((n % 100 : ℕ) : ℤ))
    (hconn : circ.prevConn = some .opened) :
    (Joined.countData C rpEnv circ).1.circDeliverWindow = 1000 - (((n + 1) % 100 : ℕ) : ℤ) ∧
      (∀ body ∈ circuitSendmes (Joined.countData C rpEnv circ).2, body = []) ∧
      n / 100 + (circuitSendmes (Joined.countData C rpEnv circ).2).length = (n + 1) / 100 := by
  by_cases hdue : circ.circDeliverWindow - 1 ≤ moorCircuitWindow - moorSendmeIncrement
  · have hsendmes : circuitSendmes (Joined.countData C rpEnv circ).2 = [[]] := by
      simp only [Joined.countData, if_pos hdue, if_pos hconn]
      exact circuitSendmes_queueRelay_sendme rfl C (by simp) _
    have hwindow' : (Joined.countData C rpEnv circ).1.circDeliverWindow
        = circ.circDeliverWindow - 1 + moorSendmeIncrement := by
      simp only [Joined.countData, if_pos hdue, if_pos hconn]
      rfl
    rw [moorCircuitWindow, moorSendmeIncrement] at hdue
    rw [hsendmes, hwindow', moorSendmeIncrement]
    refine ⟨by omega, by simp, ?_⟩
    rw [length_singleton]
    omega
  · have hcount : Joined.countData C rpEnv circ
        = ({ circ with circDeliverWindow := circ.circDeliverWindow - 1 }, []) := by
      simp only [Joined.countData, if_neg hdue]
    rw [moorCircuitWindow, moorSendmeIncrement] at hdue
    rw [hcount, circuitSendmes_nil]
    refine ⟨?_, by simp, ?_⟩
    · simp only
      omega
    · rw [length_nil]
      omega

/-- Counting leaves the rest of a circuit alone. -/
theorem Joined.countData_other (C : Crypto) (env : EndEnv) (circ : EndCircuit) :
    (Joined.countData C env circ).1.relayForwardDigest = circ.relayForwardDigest ∧
      (Joined.countData C env circ).1.prevConn = circ.prevConn := by
  simp only [Joined.countData]
  split_ifs <;> exact ⟨rfl, rfl⟩

variable {C : Crypto} {payload : Payload}

/-- What the rendezvous point does with a cell of the client that it recognises, when it has counted
`n` cells of data. -/
theorem rpRecv_spec {joined : Joined} {n : ℕ}
    (hrecognises : recognises C joined.circ.relayForwardDigest payload = true)
    (hwin : joined.circ.circDeliverWindow = 1000 - ((n % 100 : ℕ) : ℤ))
    (hconn : joined.circ.prevConn = some .opened)
    (hpartner : joined.partner.prevConn = some .opened) : let r := rpRecv C () payload joined
    let n' := if (relayUnpack payload).relayCommand = relayData then n + 1 else n
    r.1.circ.relayForwardDigest = nextDigest C payload joined.circ.relayForwardDigest ∧
      r.1.circ.circDeliverWindow = 1000 - ((n' % 100 : ℕ) : ℤ) ∧
      r.1.circ.prevConn = some .opened ∧ r.1.partner.prevConn = some .opened ∧
      (∀ body ∈ circuitSendmes r.2, body = []) ∧
      n / 100 + (circuitSendmes r.2).length = n' / 100 := by
  have hrecognise := EndCircuit.recognise_of_recognises hrecognises
  have hopen : ¬joined.circ.circDeliverWindow ≤ 0 := by omega
  simp only [rpRecv, Joined.handleRelay, hrecognise, hpartner, Joined.forward, hopen, and_false,
    if_false, if_true]
  by_cases hdata : (relayUnpack payload).relayCommand = relayData
  · simp only [hdata, if_true]
    obtain ⟨hdig, hconn'⟩ := Joined.countData_other C rpEnv { joined.circ with
      relayForwardDigest := nextDigest C payload joined.circ.relayForwardDigest }
    obtain ⟨hwindow', hsendmes⟩ := Joined.countData_spec C { joined.circ with
      relayForwardDigest := nextDigest C payload joined.circ.relayForwardDigest } hwin hconn
    exact ⟨hdig, hwindow', hconn'.trans hconn, hpartner, hsendmes⟩
  · simp only [hdata, if_false]
    exact ⟨trivial, hwin, hconn, hpartner, by simp, rfl⟩

/-- A cell of the service leaves the counting of the client's cells alone. -/
theorem rpAct_spec {joined joined' : Joined} {out : List Payload}
    (hconn : joined.circ.prevConn = some .opened)
    (h : rpAct C payload joined = some (joined', out)) :
    joined'.circ.relayForwardDigest = joined.circ.relayForwardDigest ∧
      joined'.circ.circDeliverWindow = joined.circ.circDeliverWindow ∧
      joined'.circ.prevConn = joined.circ.prevConn ∧
      joined'.partner.prevConn = joined.partner.prevConn ∧ circuitSendmes out = [] := by
  simp only [rpAct] at h
  split_ifs at h with hsendme
  cases h
  have hother : (relayUnpack payload).relayCommand ≠ relaySendme ∨
      (relayUnpack payload).streamId ≠ 0 := not_and_or.mp hsendme
  simp only [Joined.handleRelay, Joined.swap]
  cases hrecognise : joined.partner.recognise C payload with
  | none => exact ⟨rfl, rfl, rfl, rfl, rfl⟩
  | some partner =>
    have hprev : partner.prevConn = joined.partner.prevConn := by
      rw [EndCircuit.recognise] at hrecognise
      split_ifs at hrecognise
      obtain ⟨digest, -, rfl⟩ := Option.map_eq_some_iff.mp hrecognise
      rfl
    simp only [if_pos hconn, Joined.forward]
    by_cases hdrop : (relayUnpack payload).relayCommand = relayData ∧ partner.circDeliverWindow ≤ 0
    · simp only [if_pos hdrop]
      exact ⟨trivial, trivial, trivial, hprev, rfl⟩
    simp only [if_neg hdrop]
    refine ⟨rfl, rfl, rfl, ?_, circuitSendmes_queueRelay hother ..⟩
    split_ifs
    · exact (Joined.countData_other C rpEnv partner).2.trans hprev
    · exact hprev

/-- A rendezvous point that has counted `n` cells of data from the client. The SENDMEs for them are
on their way or have been refused. -/
structure RpCounts (C : Crypto) (n : ℕ) (s : Upload Joined) : Prop where
  ok : s.client.Ok
  inStep : InStep C s.client.hops s.peer.circ.relayForwardDigest s.forward
  window : s.peer.circ.circDeliverWindow = 1000 - ((n % 100 : ℕ) : ℤ)
  conn : s.peer.circ.prevConn = some .opened
  partner : s.peer.partner.prevConn = some .opened
  sent : s.sent = n + dataCount s.forward
  inflight : s.client.inflight = s.sent
  sendmes : ∀ body ∈ circuitSendmes s.backward, body = []
  refused : s.refused + (circuitSendmes s.backward).length = n / 100

namespace RpCounts

variable {C : Crypto} {n : ℕ} {s : Upload Joined}

/-- The client refuses the SENDMEs for the circuit. -/
theorem clientInvariant : Upload.ClientInvariant C (RpCounts C n) where
  ok h := h.ok
  data := by
    intro s streamId chunk nowMs hops wrapped client h hwin henc hcount
    obtain ⟨hok, hin, hinflight, -⟩ := h.inStep.countCell h.ok hwin henc hcount
    have hdata := h.inStep.relayCommand_stamped henc
    refine { h with ok := hok, inStep := hin, sent := ?_, inflight := ?_ }
    · simp [dataCount, hdata, h.sent, Nat.add_assoc]
    · simp [hinflight, h.inflight]
  other := by
    intro s relayCmd streamId data hops wrapped h hcmd henc
    have hother := h.inStep.relayCommand_stamped henc
    refine { h with
      ok := h.ok.setHops (hops_ne_nil_circuitEncryptForward h.ok.hops henc)
      inStep := h.inStep.send (by simp) henc
      sent := ?_ }
    simpa [dataCount, hother, hcmd] using h.sent
  stuck := by
    intro s payload hops h henc
    exact { h with
      ok := h.ok.setHops (hops_ne_nil_circuitEncryptForward h.ok.hops henc)
      inStep := h.inStep.exhausted henc }
  streams := by
    intro s client h hok hhops hinflight _
    refine { h with ok := hok, inStep := ?_, inflight := hinflight.trans h.inflight }
    rw [hhops]
    exact h.inStep
  skip := by
    intro s backward h hback
    exact { h with sendmes := hback ▸ h.sendmes, refused := hback ▸ h.refused }
  sendme := by
    intro s data backward nowMs client accepted h hback hsendme
    have hbodies := h.sendmes
    have hrefused := h.refused
    rw [hback] at hbodies hrefused
    have hempty : data = [] := hbodies _ mem_cons_self
    rw [hempty, handleSendme, if_pos rfl,
      if_pos (show ([] : Bytes).length < 20 by simp), ite_self] at hsendme
    cases hsendme
    refine { h with
      sendmes := fun body hmem => hbodies body (mem_cons_of_mem _ hmem)
      refused := ?_ }
    simp only [length_cons, Bool.not_false, if_true] at hrefused ⊢
    omega

variable {payload : Payload}

/-- The rendezvous point takes a cell from the client. -/
theorem deliver (h : RpCounts C n s) {forward : List Payload}
    (hfwd : s.forward = payload :: forward) :
    ∃ n', RpCounts C n' { s with
      peer := (rpRecv C () payload s.peer).1
      forward := forward
      backward := s.backward ++ (rpRecv C () payload s.peer).2 } := by
  have hin := h.inStep
  rw [hfwd] at hin
  obtain ⟨hdig, hwin, hconn, hpartner, hbodies, hlen⟩ :=
    rpRecv_spec hin.recognised.1 h.window h.conn h.partner
  have hsent := h.sent
  have hrefused := h.refused
  rw [hfwd] at hsent
  refine ⟨_, h.ok, ?_, hwin, hconn, hpartner, ?_, h.inflight, ?_, ?_⟩
  · simpa only [hdig] using hin.tail
  · by_cases hdata : (relayUnpack payload).relayCommand = relayData
    · simp only [dataCount, hdata, countP_cons, beq_self_eq_true, if_true] at hsent ⊢
      omega
    · simpa [dataCount, hdata] using hsent
  · simp only [circuitSendmes_append]
    exact forall_mem_append.mpr ⟨h.sendmes, hbodies⟩
  · simp only [circuitSendmes_append, length_append]
    omega

/-- The rendezvous point takes a cell from the service. -/
theorem act (h : RpCounts C n s) {peer : Joined} {out : List Payload}
    (hact : rpAct C payload s.peer = some (peer, out)) :
    RpCounts C n { s with peer := peer, backward := s.backward ++ out } := by
  obtain ⟨hdig, hwin, hconn, hpartner, hout⟩ := rpAct_spec h.conn hact
  refine { h with
    inStep := ?_
    window := hwin.trans h.window
    conn := hconn.trans h.conn
    partner := hpartner.trans h.partner
    sendmes := ?_
    refused := ?_ }
  · simpa only [hdig] using h.inStep
  · simpa only [circuitSendmes_append, hout, append_nil] using h.sendmes
  · simpa only [circuitSendmes_append, hout, append_nil] using h.refused

theorem step (h : RpCounts C n s) {event : RendezvousEvent} {s' : Upload Joined}
    (hstep : s.step C (rpRecv C) (rpAct C) event = some s') : ∃ n', RpCounts C n' s' :=
  clientInvariant.step (Q := fun s => ∃ n, RpCounts C n s) (fun _ h => ⟨n, h⟩) h
    (fun _ hfwd => h.deliver hfwd) h.act hstep

theorem startRp (C : Crypto) (hops : List Hop) (rp : Hop) (ccPathType : UInt8) (service : Hop) :
    RpCounts C 0 (.startRp hops rp ccPathType service) := by
  constructor
  case ok => exact ok_init (by simp) ccPathType
  case inStep =>
    refine ⟨trivial, fun _ => ?_⟩
    simp [Upload.startRp, Upload.start, init, lastDigest, EndCircuit.init, digestAfter]
  case sendmes => simp [Upload.startRp, Upload.start]
  all_goals rfl

end RpCounts

/-- **Uploads through a rendezvous point.** When everything is delivered, the client has accepted
all SENDMEs and can go on if and only if it has sent fewer than a hundred cells of data: no SENDME
is ever accepted, and the window is gone after a thousand cells. -/
theorem rendezvous_upload (C : Crypto) (hops : List Hop) (rp : Hop) (ccPathType : UInt8)
    (service : Hop) (events : List RendezvousEvent) (s : Upload Joined)
    (hrun : Run.run (Upload.step C (rpRecv C) (rpAct C)) (.startRp hops rp ccPathType service)
      events = some s) (hfwd : s.forward = []) (hback : s.backward = []) :
    (s.refused = 0 ∧ 0 < s.client.circPackageWindow ↔ s.sent < 100) ∧
      s.client.circPackageWindow = 1000 - s.sent := by
  obtain ⟨n, h⟩ := Run.run_invariant (I := fun s => ∃ n, RpCounts C n s) (P := fun _ _ => True)
    (fun s event s' hs _ hstep => hs.elim fun n hn => hn.step hstep)
    ⟨0, RpCounts.startRp C hops rp ccPathType service⟩
    (Run.along_of_forall (fun _ _ _ => trivial) _) hrun
  have hsent := h.sent
  have hrefused := h.refused
  have hwin := h.ok.window
  rw [hfwd, dataCount, countP_nil] at hsent
  rw [hback, circuitSendmes_nil, length_nil] at hrefused
  rw [h.inflight, moorCircuitWindow] at hwin
  constructor
  · omega
  · omega

/-- A hop for the instances below. -/
def sampleRpHop : Hop where
  nodeId := Arr.replicate 32 1
  forward := ⟨Arr.replicate 32 2, 0, Field.zero 32⟩
  backward := ⟨Arr.replicate 32 4, 0, Field.zero 32⟩

/-- The client sends cells of one byte, the rendezvous point takes them, and the client takes what
comes back. -/
def sampleRpUpload (sent received : ℕ) : List RendezvousEvent :=
  List.replicate sent (.sendData 1 [0] [0]) ++ List.replicate sent (.deliver ()) ++
    List.replicate received (.receive 0)

theorem rendezvous_upload_sample :
    ∃ s, Run.run (Upload.step Crypto.sample (rpRecv Crypto.sample) (rpAct Crypto.sample))
        (.startRp [] sampleRpHop 0 sampleRpHop) (sampleRpUpload 3 0) = some s ∧
      (s.refused = 0 ∧ 0 < s.client.circPackageWindow ↔ s.sent < 100) ∧
      s.client.circPackageWindow = 1000 - s.sent := by
  obtain ⟨s, hs, hfwd, hback⟩ : ∃ s, Run.run (Upload.step Crypto.sample
      (rpRecv Crypto.sample) (rpAct Crypto.sample)) (.startRp [] sampleRpHop 0 sampleRpHop)
      (sampleRpUpload 3 0) = some s ∧ s.forward = [] ∧ s.backward = [] := by decide +kernel
  exact ⟨s, hs, rendezvous_upload Crypto.sample [] sampleRpHop 0 sampleRpHop _ s hs hfwd hback⟩

/-- After a hundred cells that were all delivered, the SENDME of the rendezvous point is refused. -/
theorem rendezvous_sendme_refused :
    ∃ s, Run.run (Upload.step Crypto.sample (rpRecv Crypto.sample) (rpAct Crypto.sample))
        (.startRp [] sampleRpHop 0 sampleRpHop) (sampleRpUpload 100 1) = some s ∧
      s.forward = [] ∧ s.backward = [] ∧ s.refused = 1 ∧ s.client.circPackageWindow = 900 := by
  decide +kernel

end Moor
