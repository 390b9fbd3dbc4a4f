import Moor.Circuit.Upload

/-!
# The client and the exit in lockstep

The client records the digest of every hundredth cell of data; the exit sends a SENDME with the
digest when it has counted a hundred. They agree as long as the exit counts every cell. A cell whose
write to the target fails is not counted.
-/

namespace Moor

open Codec List EndCircuit Prod

/-! ### How the exit counts -/

namespace EndCircuit

/-- The fields for the cells from the client. -/
def delivering (circ : EndCircuit) : Field 32 × ℤ × Option ConnState :=
  (circ.relayForwardDigest, circ.circDeliverWindow, circ.prevConn)

section Delivering

variable (C : Crypto) (env : EndEnv) (streamId : UInt16) (circ : EndCircuit)

/-- Cells for a stream, and changes of it, are no matter for the count of the circuit. -/
theorem streamRule_delivering : StreamRule fun circ r =>
    r.1.delivering = circ.delivering ∧ circuitSendmes r.2 = [] where
  refl _ := ⟨rfl, rfl⟩
  trans h h' := ⟨h'.1.trans h.1, by rw [circuitSendmes_append, h.2, h'.2]; rfl⟩
  modify _ _ _ := ⟨rfl, rfl⟩
  queue _ hother := ⟨rfl, circuitSendmes_queueRelay hother ..⟩

theorem delivering_handleSendme (data : Bytes) :
    (circ.handleSendme env streamId data).delivering = circ.delivering := by
  rw [handleSendme]
  cases circ.findStream streamId with
  | none | some stream =>
    simp only [refill]
    split_ifs <;> rfl

theorem delivering_recordCell : circ.recordCell.delivering = circ.delivering := by
  rw [recordCell]
  split_ifs <;> rfl

/-- Reading from the targets is no matter for the cells from the client. -/
theorem exitTargetRead_other (target : TargetRead) :
    (circ.exitTargetRead C env streamId target).1.delivering = circ.delivering ∧
      circuitSendmes (circ.exitTargetRead C env streamId target).2 = [] := by
  rw [exitTargetRead.eq_def]
  cases circ.findStream streamId with
  | none => exact ⟨rfl, rfl⟩
  | some stream =>
    cases target with
    | again =>
      dsimp only
      split_ifs <;> exact ⟨rfl, rfl⟩
    | closed =>
      dsimp only
      split_ifs
      · exact ⟨rfl, rfl⟩
      · exact ⟨rfl, circuitSendmes_queueRelay (.inl (by decide)) ..⟩
      · exact ⟨rfl, rfl⟩
    | data bytes =>
      dsimp only [packageData]
      split_ifs
      · exact ⟨rfl, rfl⟩
      · exact ⟨rfl, rfl⟩
      · exact ⟨delivering_recordCell _, circuitSendmes_queueRelay (.inl (by decide)) ..⟩

end Delivering

/-- A cell of data was counted, and acknowledged if it was the hundredth: `window` is the window
with the cell taken off. -/
def Counted (digest : Field 32) (window : ℤ) (r : EndCircuit × List Payload) : Prop :=
  if window ≤ moorCircuitWindow - moorSendmeIncrement then
    r.1.delivering = (digest, window + moorSendmeIncrement, some .opened) ∧
      circuitSendmes r.2 = [(authDigest digest).val]
  else r.1.delivering = (digest, window, some .opened) ∧ circuitSendmes r.2 = []

variable {C : Crypto} {env : EndEnv} {digest : Field 32} {window : ℤ} {circ : EndCircuit}

/-- Cells without a SENDME for the circuit may go before. -/
theorem Counted.append {r : EndCircuit × List Payload} (h : Counted digest window r)
    {out : List Payload} (hout : circuitSendmes out = []) :
    Counted digest window (r.1, out ++ r.2) := by
  simpa only [Counted, circuitSendmes_append, hout, nil_append] using h

/-- Without a broken socket, writing to a target does not fail. -/
theorem streamForwardToTarget_ne_error {answers : List Socket.Answer}
    (h : Socket.Answer.failed ∉ answers) (n : ℕ) :
    (streamForwardToTarget answers n).1 ≠ .error := by
  fun_induction streamForwardToTarget answers n with
  | case1 => simp
  | case2 => simp
  | case3 => simp
  | case4 => simp at h
  | case5 => simp
  | case6 k answers n hk fwd total hrest ih =>
    have ih' := ih fun hmem => h (mem_cons_of_mem _ hmem)
    rwa [hrest] at ih'

variable (hqueue : env.queue relaySendme 0 = true)
  (hcirc : circ.delivering = (digest, window, some .opened))
include hqueue hcirc

theorem sendmeCheck_counted (streamId : UInt16) :
    Counted digest window (circ.sendmeCheck C env streamId) := by
  simp only [delivering, Prod.mk.injEq] at hcirc
  obtain ⟨rfl, rfl, hconn⟩ := hcirc
  have hcap : ¬(circ.circDeliverWindow ≤ moorCircuitWindow - moorSendmeIncrement ∧
      moorCircuitWindow < circ.circDeliverWindow + moorSendmeIncrement) := by
    omega
  have hconn' : ¬circ.prevConn ≠ some .opened := not_not.mpr hconn
  simp only [sendmeCheck, if_neg hconn', if_neg hcap, Counted, circuitSendmes_append,
    (streamRule_delivering.streamSendme streamId).1,
    (streamRule_delivering.streamSendme streamId).2, append_nil]
  by_cases hdue : circ.circDeliverWindow ≤ moorCircuitWindow - moorSendmeIncrement
  · have hlen : (authDigest circ.relayForwardDigest).val.length ≤ moorRelayData := by
      rw [Arr.length_val, moorRelayData]
      omega
    simp only [circuitSendme, if_pos hdue, if_pos hqueue]
    exact ⟨by rw [← hconn]; rfl, circuitSendmes_queueRelay_sendme hqueue C hlen circ⟩
  · simp only [circuitSendme, if_neg hdue]
    exact ⟨by rw [← hconn]; rfl, rfl⟩

omit hqueue in
theorem countData_delivering (streamId : UInt16) :
    (circ.countData streamId).delivering = (digest, window - 1, some .opened) := by
  simp only [delivering, Prod.mk.injEq] at hcirc
  obtain ⟨rfl, rfl, hconn⟩ := hcirc
  rw [← hconn]
  rfl

/-- Data that is written to a target, in whole or in part, is counted. -/
theorem writeData_counted (hanswers : Socket.Answer.failed ∉ env.answers) (streamId : UInt16)
    (data : Bytes) :
    Counted digest (window - 1) (circ.writeData C env streamId data) := by
  have hwritten := streamForwardToTarget_ne_error hanswers data.length
  rcases hfwd : streamForwardToTarget env.answers data.length with ⟨fwd, totalSent⟩
  rw [hfwd] at hwritten
  simp only [writeData, hfwd, if_neg hwritten]
  obtain ⟨hpaused, hout⟩ := streamRule_delivering.trans
    (streamRule_delivering.pauseStream C env circ streamId fwd)
    (streamRule_delivering.resumeStream streamId totalSent data.length)
  have hcounted := countData_delivering (hpaused.trans hcirc) streamId
  exact (sendmeCheck_counted hqueue hcounted streamId).append hout

/-- Every cell of data is counted, whatever has become of its stream, unless a write to its target
fails. -/
theorem handleData_counted (hanswers : Socket.Answer.failed ∉ env.answers) (hwin : 0 < window)
    (streamId : UInt16) (data : Bytes) :
    Counted digest (window - 1) (circ.handleData C env streamId data) := by
  have hcounted := countData_delivering hcirc streamId
  have hcounted' : delivering { circ with circDeliverWindow := circ.circDeliverWindow - 1 } =
      (digest, window - 1, some .opened) := countData_delivering hcirc 0
  rw [handleData]
  cases circ.findStream streamId with
  | none => exact sendmeCheck_counted hqueue hcounted' streamId
  | some stream =>
    dsimp only
    split_ifs
    · exact sendmeCheck_counted hqueue hcounted' streamId
    · exact sendmeCheck_counted hqueue hcounted streamId
    · -- the floor of the circuit's window is far away
      have hexcess : (circ.countExcess streamId).delivering =
          (digest, window - 1, some .opened) := by
        simp only [delivering, Prod.mk.injEq] at hcirc
        obtain ⟨rfl, rfl, hconn⟩ := hcirc
        have hfloor : -moorCircuitWindow < circ.circDeliverWindow := by
          rw [moorCircuitWindow]
          omega
        simp only [countExcess, if_pos hfloor]
        rw [← hconn]
        rfl
      exact sendmeCheck_counted hqueue hexcess streamId
    · exact writeData_counted hqueue hcirc hanswers streamId data

end EndCircuit

/-! ### The joint run -/

/-- The exit takes a cell from the client. Everything that it queues is delivered. -/
def exitRecv (C : Crypto) (env : List Socket.Answer × Bytes) (payload : Payload)
    (circ : EndCircuit) : EndCircuit × List Payload :=
  circ.handleRelay C ⟨fun _ _ => true, env.1, env.2⟩ payload

/-- What else the exit does: it reads from its targets, sends cells of its own other than SENDMEs,
and its streams change. -/
def exitAct (C : Crypto) : EndCircuit.Event → EndCircuit → Option (EndCircuit × List Payload)
  | .cell _ _, _ => none
  | .queue env relayCmd streamId data, circ =>
    if relayCmd = relaySendme then none else some (circ.queueRelay C env relayCmd streamId data)
  | event, circ => some (circ.step C event)

/-- An event between the client and the exit. -/
abbrev ExitEvent := Upload.Event (List Socket.Answer × Bytes) EndCircuit.Event

def ExitEvent.TargetHolds : ExitEvent → Prop
  | .deliver env => Socket.Answer.failed ∉ env.1
  | _ => True

/-- The digests that are recorded for some payloads, of which `n` cells of data went before: one at
every hundredth. -/
def recorded (C : Crypto) : Field 32 → ℕ → List Payload → List AuthDigest
  | _, _, [] => []
  | digest, n, payload :: payloads =>
    let digest := nextDigest C payload digest
    if (relayUnpack payload).relayCommand = relayData then
      (if (n + 1) % 100 = 0 then [authDigest digest] else []) ++ recorded C digest (n + 1) payloads
    else recorded C digest n payloads

/-- The digest that one more payload adds. -/
theorem recorded_concat (C : Crypto) (digest : Field 32) (n : ℕ) (payloads : List Payload)
    (payload : Payload) :
    recorded C digest n (payloads ++ [payload]) = recorded C digest n payloads ++
      if (relayUnpack payload).relayCommand = relayData ∧
          (n + dataCount payloads + 1) % 100 = 0 then
        [authDigest (digestAfter C digest (payloads ++ [payload]))]
      else [] := by
  induction payloads generalizing digest n with
  | nil =>
    by_cases hdata : (relayUnpack payload).relayCommand = relayData
    · simp [recorded, hdata, dataCount, digestAfter]
    · simp [recorded, hdata]
  | cons first payloads ih =>
    by_cases hdata : (relayUnpack first).relayCommand = relayData
    · have hcount : n + 1 + dataCount payloads = n + dataCount (first :: payloads) := by
        simp [dataCount, hdata]
        omega
      simp [recorded, hdata, ih, hcount, digestAfter]
    · have hcount : dataCount payloads = dataCount (first :: payloads) := by
        simp [dataCount, hdata]
      simp [recorded, hdata, ih, hcount, digestAfter]

variable {C : Crypto}

/-- What the exit does with a cell that it recognises, when it has counted `n` cells of data. -/
theorem exitRecv_spec {circ : EndCircuit} {n : ℕ} {payload : Payload}
    {env : List Socket.Answer × Bytes}
    (hrecognises : recognises C circ.relayForwardDigest payload = true)
    (hcirc : circ.delivering = (circ.relayForwardDigest, 1000 - ((n % 100 : ℕ) : ℤ), some .opened))
    (hanswers : Socket.Answer.failed ∉ env.1) :
    (exitRecv C env payload circ).1.delivering =
        (nextDigest C payload circ.relayForwardDigest,
          1000 - (((if (relayUnpack payload).relayCommand = relayData then n + 1 else n)
            % 100 : ℕ) : ℤ), some .opened) ∧
      circuitSendmes (exitRecv C env payload circ).2 =
        if (relayUnpack payload).relayCommand = relayData ∧ (n + 1) % 100 = 0 then
          [(authDigest (nextDigest C payload circ.relayForwardDigest)).val]
        else [] := by
  have hnext : delivering { circ with
      relayForwardDigest := nextDigest C payload circ.relayForwardDigest } =
        (nextDigest C payload circ.relayForwardDigest, 1000 - ((n % 100 : ℕ) : ℤ), some .opened) :=
    congrArg (Prod.mk _) (congrArg snd hcirc)
  simp only [exitRecv, handleRelay, recognise_of_recognises hrecognises, dispatch]
  by_cases hdata : (relayUnpack payload).relayCommand = relayData
  · have hcounted : EndCircuit.Counted (nextDigest C payload circ.relayForwardDigest)
        (1000 - ((n % 100 : ℕ) : ℤ) - 1)
        (handleData C ⟨fun _ _ => true, env.1, env.2⟩ (relayUnpack payload).streamId
          (relayUnpack payload).data _) :=
      handleData_counted rfl hnext hanswers (by omega) ..
    rw [EndCircuit.Counted] at hcounted
    simp only [hdata, true_and, if_true]
    by_cases hdue : (n + 1) % 100 = 0
    · have hle : 1000 - ((n % 100 : ℕ) : ℤ) - 1 ≤ moorCircuitWindow - moorSendmeIncrement := by
        rw [moorCircuitWindow, moorSendmeIncrement]
        omega
      have hwin : 1000 - ((n % 100 : ℕ) : ℤ) - 1 + moorSendmeIncrement
          = 1000 - (((n + 1) % 100 : ℕ) : ℤ) := by
        rw [moorSendmeIncrement]
        omega
      rw [if_pos hle, hwin] at hcounted
      rw [if_pos hdue]
      exact hcounted
    · have hgt : ¬1000 - ((n % 100 : ℕ) : ℤ) - 1 ≤ moorCircuitWindow - moorSendmeIncrement := by
        rw [moorCircuitWindow, moorSendmeIncrement]
        omega
      have hwin : 1000 - ((n % 100 : ℕ) : ℤ) - 1 = 1000 - (((n + 1) % 100 : ℕ) : ℤ) := by
        omega
      rw [if_neg hgt, hwin] at hcounted
      rw [if_neg hdue]
      exact hcounted
  · simp only [hdata, false_and, if_false]
    split_ifs
    · exact ⟨(delivering_handleSendme ..).trans hnext, rfl⟩
    · exact ⟨hnext, rfl⟩

theorem exitAct_spec {event : EndCircuit.Event} {circ circ' : EndCircuit} {out : List Payload}
    (h : exitAct C event circ = some (circ', out)) :
    circ'.delivering = circ.delivering ∧ circuitSendmes out = [] := by
  cases event with
  | cell env payload => simp [exitAct] at h
  | queue env relayCmd streamId data =>
    rw [exitAct] at h
    split_ifs at h with hcmd
    obtain ⟨rfl, rfl⟩ := mk.inj (Option.some_inj.mp h)
    exact ⟨rfl, circuitSendmes_queueRelay (.inl hcmd) ..⟩
  | read env streamId target =>
    obtain ⟨rfl, rfl⟩ := mk.inj (Option.some_inj.mp h)
    exact exitTargetRead_other ..
  | streams streams =>
    obtain ⟨rfl, rfl⟩ := mk.inj (Option.some_inj.mp h)
    exact ⟨rfl, rfl⟩

/-- The two ends when the exit has counted `n` cells of data: the client expects the digests of the
SENDMEs on their way, and of those that the cells on their way will cause. -/
structure Lockstep (C : Crypto) (n : ℕ) (s : Upload EndCircuit) : Prop where
  ok : s.client.Ok
  inStep : InStep C s.client.hops s.peer.relayForwardDigest s.forward
  delivering : s.peer.delivering =
    (s.peer.relayForwardDigest, 1000 - ((n % 100 : ℕ) : ℤ), some .opened)
  sent : s.sent = n + dataCount s.forward
  inflight : s.client.inflight = s.sent - 100 * s.acked
  expected : s.client.sendmeAuthExpected.toList.map Subtype.val = circuitSendmes s.backward ++
    (recorded C s.peer.relayForwardDigest n s.forward).map Subtype.val
  refused : s.refused = 0

namespace Lockstep

variable {C : Crypto} {n : ℕ} {s : Upload EndCircuit}

/-- The client's own cells of data are those that the exit will count. A SENDME for the circuit
carries the oldest digest. -/
theorem clientInvariant : Upload.ClientInvariant C (Lockstep C n) where
  ok h := h.ok
  data := by
    intro s streamId chunk nowMs hops wrapped client h hwin henc hcount
    obtain ⟨hok, hin, hinflight, hexp⟩ := h.inStep.countCell h.ok hwin henc hcount
    have hdata := h.inStep.relayCommand_stamped henc
    have hsent := h.sent
    have hflight := h.inflight
    refine { h with ok := hok, inStep := hin, sent := ?_, inflight := ?_, expected := ?_ }
    · simp [dataCount, hdata, hsent, Nat.add_assoc]
    · simp only
      omega
    · have hdue : (s.client.inflight + 1) % moorSendmeIncrement = 0 ↔
          (n + dataCount s.forward + 1) % 100 = 0 := by
        rw [moorSendmeIncrement]
        omega
      simp only [recorded_concat, hdata, true_and, map_append, hexp, h.expected, append_assoc, hdue]
  other := by
    intro s relayCmd streamId data hops wrapped h hcmd henc
    have hother := h.inStep.relayCommand_stamped henc
    exact { h with
      ok := h.ok.setHops (FlowCircuit.hops_ne_nil_circuitEncryptForward h.ok.hops henc)
      inStep := h.inStep.send (by simp) henc
      sent := by simpa [dataCount, hother, hcmd] using h.sent
      expected := by simpa [recorded_concat, hother, hcmd] using h.expected }
  stuck := by
    intro s payload hops h henc
    exact { h with
      ok := h.ok.setHops (FlowCircuit.hops_ne_nil_circuitEncryptForward h.ok.hops henc)
      inStep := h.inStep.exhausted henc }
  streams := by
    intro s client h hok hhops hinflight hexp
    refine { h with ok := hok, inStep := ?_, inflight := ?_, expected := ?_ }
    · rw [hhops]
      exact h.inStep
    · exact hinflight.trans h.inflight
    · rw [hexp]
      exact h.expected
  skip := by
    intro s backward h hback
    exact { h with expected := by rw [h.expected, hback] }
  sendme := by
    intro s data backward nowMs client accepted h hback hsendme
    have hexp := h.expected
    rw [hback, cons_append] at hexp
    obtain ⟨digest, rest, hlist, hdig, hrest⟩ := map_eq_cons_iff.mp hexp
    have hdata : data.take 20 = digest.val := by
      rw [← hdig]
      exact take_of_length_le (Arr.length_val _).le
    obtain ⟨client', haccepts, hok, hhops, hinflight, hlist', -⟩ :=
      FlowCircuit.handleSendme_accepts h.ok hlist hdata nowMs
    obtain ⟨rfl, rfl⟩ := mk.inj (Option.some_inj.mp (hsendme.symm.trans haccepts))
    refine { h with ok := hok, inStep := ?_, inflight := ?_, expected := ?_ }
    · rw [hhops]
      exact h.inStep
    · have hflight := h.inflight
      simp only [hinflight, moorSendmeIncrement, if_true]
      omega
    · rw [hlist']
      exact hrest

/-- The exit takes a cell. -/
theorem deliver (h : Lockstep C n s) {payload : Payload} {forward : List Payload}
    (hfwd : s.forward = payload :: forward) {env : List Socket.Answer × Bytes}
    (hanswers : Socket.Answer.failed ∉ env.1) :
    ∃ n', Lockstep C n' { s with
      peer := (exitRecv C env payload s.peer).1
      forward := forward
      backward := s.backward ++ (exitRecv C env payload s.peer).2 } := by
  have hin := h.inStep
  rw [hfwd] at hin
  obtain ⟨hdelivering, hout⟩ := exitRecv_spec hin.recognised.1 h.delivering hanswers
  have hdig : (exitRecv C env payload s.peer).1.relayForwardDigest
      = nextDigest C payload s.peer.relayForwardDigest := congrArg fst hdelivering
  have hsent := h.sent
  have hexp := h.expected
  rw [hfwd] at hsent hexp
  refine ⟨if (relayUnpack payload).relayCommand = relayData then n + 1 else n, ?_⟩
  refine { h with
    inStep := by simpa only [hdig] using hin.tail
    delivering := by simpa only [hdig] using hdelivering
    sent := ?_, expected := ?_ }
  · by_cases hdata : (relayUnpack payload).relayCommand = relayData
    · simp only [dataCount, hdata, countP_cons, beq_self_eq_true, if_true] at hsent ⊢
      omega
    · simpa [dataCount, hdata] using hsent
  · simp only [circuitSendmes_append, hout, hdig]
    by_cases hdata : (relayUnpack payload).relayCommand = relayData
    · by_cases hdue : (n + 1) % 100 = 0
      · simpa [recorded, hdata, hdue] using hexp
      · simpa [recorded, hdata, hdue] using hexp
    · simpa [recorded, hdata] using hexp

/-- The exit does something else. -/
theorem act (h : Lockstep C n s) {event : EndCircuit.Event} {peer : EndCircuit}
    {out : List Payload} (hact : exitAct C event s.peer = some (peer, out)) :
    Lockstep C n { s with peer := peer, backward := s.backward ++ out } := by
  obtain ⟨hdelivering, hout⟩ := exitAct_spec hact
  have hdig : peer.relayForwardDigest = s.peer.relayForwardDigest :=
    congrArg fst hdelivering
  exact { h with
    inStep := by simpa only [hdig] using h.inStep
    delivering := by simpa only [hdig] using hdelivering.trans h.delivering
    expected := by simpa only [circuitSendmes_append, hout, append_nil, hdig] using h.expected }

theorem step (h : Lockstep C n s) {event : ExitEvent} (htarget : event.TargetHolds)
    {s' : Upload EndCircuit} (hstep : s.step C (exitRecv C) (exitAct C) event = some s') :
    ∃ n', Lockstep C n' s' := by
  refine clientInvariant.step (Q := fun s => ∃ n, Lockstep C n s) (fun _ h => ⟨n, h⟩) h ?_ h.act
    hstep
  rintro env payload forward rfl hfwd
  exact h.deliver hfwd htarget

end Lockstep

/-- A circuit between a client and an exit that has just been built. -/
def Upload.startExit (hops : List Hop) (exit : Hop) (ccPathType : UInt8) : Upload EndCircuit :=
  .start (hops ++ [exit]) ccPathType (.init exit.forward.digest exit.backward.digest)

theorem lockstep_startExit (C : Crypto) (hops : List Hop) (exit : Hop) (ccPathType : UInt8) :
    Lockstep C 0 (.startExit hops exit ccPathType) := by
  constructor
  case ok => exact FlowCircuit.ok_init (by simp) ccPathType
  case inStep =>
    refine ⟨trivial, fun _ => ?_⟩
    simp [Upload.startExit, Upload.start, FlowCircuit.init, lastDigest, init, digestAfter]
  all_goals rfl

/-- **SENDMEs in lockstep.** While no write to a target fails, the client accepts every SENDME of
the exit, those on their way carry the oldest digests that it has recorded, and its window is what
is left of a thousand cells by those not yet acknowledged. -/
theorem sendme_lockstep (C : Crypto) (hops : List Hop) (exit : Hop) (ccPathType : UInt8)
    (events : List ExitEvent) (htargets : ∀ event ∈ events, event.TargetHolds)
    (s : Upload EndCircuit)
    (hrun : Run.run (Upload.step C (exitRecv C) (exitAct C)) (.startExit hops exit ccPathType)
      events = some s) :
    s.refused = 0 ∧
      circuitSendmes s.backward <+: s.client.sendmeAuthExpected.toList.map Subtype.val ∧
      s.client.circPackageWindow + (s.sent - 100 * s.acked) = 1000 := by
  obtain ⟨n, h⟩ := Run.run_invariant (P := fun _ event => ExitEvent.TargetHolds event)
    (I := fun s => ∃ n, Lockstep C n s)
    (fun s event s' hs htarget hstep => hs.elim fun n hn => hn.step htarget hstep)
    ⟨0, lockstep_startExit C hops exit ccPathType⟩
    (Run.along_of_forall (fun event hevent _ => htargets event hevent) _) hrun
  refine ⟨h.refused, ⟨_, h.expected.symm⟩, ?_⟩
  rw [h.ok.window, h.inflight, moorCircuitWindow]
  omega

instance : DecidablePred ExitEvent.TargetHolds := fun event => by
  cases event <;> unfold ExitEvent.TargetHolds <;> infer_instance

/-- A hop for the instances below. -/
def sampleExitHop : Hop where
  nodeId := Arr.replicate 32 1
  forward := ⟨Arr.replicate 32 2, 0, Field.zero 32⟩
  backward := ⟨Arr.replicate 32 4, 0, Field.zero 32⟩

/-- The client sends cells of one byte on an open stream; the exit takes them, with these answers of
the target's socket, and the client takes what comes back. -/
def sampleUpload (sent : ℕ) (answers : List (List Socket.Answer)) (received : ℕ) :
    List ExitEvent :=
  List.replicate sent (.sendData 1 [0] [0]) ++
    [.act (.streams [⟨1, true, true, moorStreamWindow, moorStreamWindow, false⟩])] ++
    answers.map (fun answers => .deliver (answers, [])) ++ List.replicate received (.receive 0)

theorem sendme_lockstep_sampleUpload :
    ∃ s, Run.run (Upload.step Crypto.sample (exitRecv Crypto.sample) (exitAct Crypto.sample))
        (.startExit [] sampleExitHop 0) (sampleUpload 100 (List.replicate 100 [.took 1]) 2)
        = some s ∧
      s.acked = 1 ∧ s.refused = 0 ∧
      circuitSendmes s.backward <+: s.client.sendmeAuthExpected.toList.map Subtype.val ∧
      s.client.circPackageWindow + (s.sent - 100 * s.acked) = 1000 :=
  Run.exists_some_and (by decide +kernel) fun s hs =>
    sendme_lockstep Crypto.sample [] sampleExitHop 0 _ (by decide +kernel) s hs

/-- Primitives whose digests count the cells. -/
def countingCrypto : Crypto :=
  { Crypto.sample with hash := fun bs => Arr.ofList 32 0 [bs.headD 0 + 1] }

/-- The write of the first of a hundred and one cells fails, so that the exit has counted a hundred
at the last of them. It sends the digest of that one, while the client expects the one before. -/
theorem sendme_lockstep_breaks :
    ∃ s, Run.run (Upload.step countingCrypto (exitRecv countingCrypto) (exitAct countingCrypto))
        (.startExit [] sampleExitHop 0) (sampleUpload 101 ([.failed] :: List.replicate 100 []) 2)
        = some s ∧
      s.refused = 1 ∧ s.acked = 0 := by decide +kernel

end Moor
