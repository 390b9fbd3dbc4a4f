import Moor.Relay.FlowControl

/-!
# The window of the exit towards the client

The exit sends a thousand cells of data before it waits for a SENDME. A SENDME for the circuit has
to carry the digest of the cells that it acknowledges; but when no digest is outstanding, the exit
takes every SENDME.
-/

namespace Moor

open Codec EndCircuit RingBuffer Prod

namespace EndCircuit

/-- The fields for the cells towards the client. -/
def sending (circ : EndCircuit) : ℤ × RingBuffer AuthDigest moorSendmeAuthMax × ℤ :=
  (circ.circPackageWindow, circ.sendmeAuthExpected, circ.sendmeAuthCellsSent)

/-- Data from the client does not touch the window towards it. -/
theorem dataRule_sending : DataRule fun circ r => r.1.sending = circ.sending where
  refl _ := rfl
  trans h h' := h'.trans h
  modify _ _ _ := rfl
  queue _ _ := rfl
  window _ := rfl
  sendme _ := rfl

variable (C : Crypto) (circ : EndCircuit)

/-- The window grows only for a SENDME with the oldest digest that was recorded, and that digest is
taken off. -/
def RaisesByDigest (event : Event) : Prop :=
  circ.circPackageWindow < (circ.step C event).1.circPackageWindow →
    ∃ env payload digest, event = .cell env payload ∧
      (relayUnpack payload).relayCommand = relaySendme ∧ (relayUnpack payload).streamId = 0 ∧
      (relayUnpack payload).data.take 20 = digest.val ∧
      circ.sendmeAuthExpected.toList = digest :: (circ.step C event).1.sendmeAuthExpected.toList

/-- The payload is a SENDME for the circuit, and is recognised. -/
def IsCircuitSendme (payload : Payload) : Prop :=
  (relayCheckDigest C payload circ.relayForwardDigest).isSome ∧
    (relayUnpack payload).recognized = 0 ∧ (relayUnpack payload).relayCommand = relaySendme ∧
    (relayUnpack payload).streamId = 0

/-- A SENDME for the circuit comes while a digest is outstanding, or while the window is too large
for it. It is not one with a part of a digest that the bytes left in the buffer complete. -/
def SendmeDue (circ : EndCircuit) : Event → Prop
  | .cell env payload =>
    let data := (relayUnpack payload).data
    circ.IsCircuitSendme C payload → circ.circPackageWindow ≤ moorCircuitWindow →
      0 < circ.sendmeAuthExpected.count ∧ (8 ≤ data.length → data.length < 20 →
        Arr.ofList 20 0 (data ++ env.stale) ≠ circ.sendmeAuthExpected.oldest)
  | _ => True

theorem sending_refill :
    circ.refill.sending =
      (if moorCircuitWindow < circ.circPackageWindow then circ.circPackageWindow
        else circ.circPackageWindow + moorSendmeIncrement,
        circ.sendmeAuthExpected, circ.sendmeAuthCellsSent) := by
  rw [refill]
  split_ifs <;> rfl

/-- The checks of a SENDME for the circuit: without a digest there are none. -/
def Accepts (env : EndEnv) (data : Bytes) (circ : EndCircuit) : Prop :=
  circ.sendmeAuthExpected.count = 0 ∨
    8 ≤ data.length ∧ Arr.ofList 20 0 (data ++ env.stale) = circ.sendmeAuthExpected.oldest

variable {env : EndEnv} {data : Bytes} {circ : EndCircuit} {C : Crypto} {payload : Payload}

theorem sending_handleSendme_of_accepts (h : circ.Accepts env data) :
    (circ.handleSendme env 0 data).sending =
      (if moorCircuitWindow < circ.circPackageWindow then circ.circPackageWindow
        else circ.circPackageWindow + moorSendmeIncrement,
        circ.sendmeAuthExpected.pop, circ.sendmeAuthCellsSent) := by
  rw [handleSendme, if_pos rfl]
  by_cases hcount : circ.sendmeAuthExpected.count = 0
  · rw [if_neg (by omega), sending_refill, pop_of_count_eq_zero hcount]
  · obtain ⟨hlen, hdig⟩ := h.resolve_left hcount
    rw [if_pos (by omega), if_neg (by omega), if_neg (not_not.mpr hdig), sending_refill]

theorem sending_handleSendme_of_not_accepts (h : ¬circ.Accepts env data) :
    (circ.handleSendme env 0 data).sending = circ.sending := by
  have hcount : 0 < circ.sendmeAuthExpected.count := Nat.pos_of_ne_zero fun hzero => h (.inl hzero)
  rw [handleSendme, if_pos rfl, if_pos hcount]
  by_cases hlen : data.length < 8
  · rw [if_pos hlen]
  · simp [if_pos fun hdig => h (.inr ⟨not_lt.mp hlen, hdig⟩)]

/-- A SENDME for a stream leaves the window of the circuit alone. -/
theorem sending_handleSendme_stream (env : EndEnv) {streamId : UInt16} (h : streamId ≠ 0)
    (data : Bytes) (circ : EndCircuit) : (circ.handleSendme env streamId data).sending
      = circ.sending := by
  rw [handleSendme, if_neg h]
  cases circ.findStream streamId with
  | none => rfl
  | some stream =>
    dsimp only
    split_ifs <;> rfl

theorem sending_handleRelay_sendme (h : circ.IsCircuitSendme C payload) (env : EndEnv) :
    (circ.handleRelay C env payload).1.sending
      = (circ.handleSendme env 0 (relayUnpack payload).data).sending := by
  obtain ⟨hdig, hrecognized, hcommand, hstream⟩ := h
  obtain ⟨digest, hdig⟩ := Option.isSome_iff_exists.mp hdig
  simp only [handleRelay, recognise, hdig, hrecognized, Option.map_some, dispatch, hcommand,
    hstream, if_true, if_neg (show ¬relaySendme = relayData by decide)]
  simp only [handleSendme, refill]
  split_ifs <;> rfl

/-- No other cell touches the window. -/
theorem sending_handleRelay_other (h : ¬circ.IsCircuitSendme C payload) (env : EndEnv) :
    (circ.handleRelay C env payload).1.sending = circ.sending := by
  rw [handleRelay, recognise]
  by_cases hrecognized : (relayUnpack payload).recognized = 0
  · rw [if_pos hrecognized]
    cases hdig : relayCheckDigest C payload circ.relayForwardDigest with
    | none => rfl
    | some digest =>
      simp only [Option.map_some, dispatch]
      split_ifs with hdata hsendme
      · exact dataRule_sending.handleData ..
      · refine sending_handleSendme_stream env (fun hstream => h ?_) ..
        exact ⟨by rw [hdig]; rfl, hrecognized, hsendme, hstream⟩
      · rfl
  · rw [if_neg hrecognized]

/-- How many cells of data an event sent. -/
def dataCells : Event → List Payload → ℕ
  | .read _ _ (.data _), out => out.length
  | _, _ => 0

theorem sending_recordCell (circ : EndCircuit) :
    circ.recordCell.sending = (circ.circPackageWindow,
      if moorSendmeIncrement ≤ circ.sendmeAuthCellsSent + 1 then
        (circ.sendmeAuthExpected.push (authDigest circ.relayBackwardDigest), 0)
      else (circ.sendmeAuthExpected, circ.sendmeAuthCellsSent + 1)) := by
  rw [recordCell]
  split_ifs <;> rfl

theorem packageData_spec (C : Crypto) (env : EndEnv) (streamId : UInt16) (bytes : Bytes)
    (circ : EndCircuit) :
    let r := circ.packageData C env streamId bytes
    (r.2 = [] ∧ r.1.sending =
        (circ.circPackageWindow - 1, circ.sendmeAuthExpected, circ.sendmeAuthCellsSent)) ∨
      (r.2.length ≤ 1 ∧ ∃ digest, r.1.sending = (circ.circPackageWindow - 1,
        if moorSendmeIncrement ≤ circ.sendmeAuthCellsSent + 1 then
          (circ.sendmeAuthExpected.push digest, 0)
        else (circ.sendmeAuthExpected, circ.sendmeAuthCellsSent + 1))) := by
  by_cases hconn : circ.prevConn ≠ some .opened
  · simp only [packageData, modifyStream, if_pos hconn]
    exact .inl ⟨trivial, rfl⟩
  simp only [packageData, modifyStream, if_neg hconn]
  refine .inr ⟨?_, _, sending_recordCell _⟩
  simp only [queueRelay]
  cases env.queue relayData streamId <;> simp

theorem exitTargetRead_spec (C : Crypto) (env : EndEnv) (streamId : UInt16) (target : TargetRead)
    (circ : EndCircuit) :
    let r := circ.exitTargetRead C env streamId target
    (r.1.sending = circ.sending ∧ dataCells (.read env streamId target) r.2 = 0) ∨
      ∃ bytes, target = .data bytes ∧ 0 < circ.circPackageWindow ∧
        r = circ.packageData C env streamId bytes := by
  intro r
  cases hfind : circ.findStream streamId with
  | none =>
    have hr : r = (circ, []) := by simp only [r, exitTargetRead, hfind]
    exact .inl ⟨by rw [hr], by cases target <;> simp [hr, dataCells]⟩
  | some stream =>
    simp only [r, exitTargetRead, hfind]
    by_cases hwin : stream.packageWindow ≤ 0 ∨ circ.circPackageWindow ≤ 0
    · simp only [if_pos hwin]
      exact .inl ⟨trivial, by cases target <;> rfl⟩
    simp only [if_neg hwin]
    cases target with
    | again => exact .inl ⟨rfl, rfl⟩
    | closed =>
      split_ifs <;> exact .inl ⟨rfl, rfl⟩
    | data bytes =>
      exact .inr ⟨bytes, rfl, not_le.mp fun hle => hwin (.inr hle), rfl⟩

/-- The window grows by recorded digests alone exactly if every SENDME is due. -/
theorem raisesByDigest_iff (C : Crypto) (circ : EndCircuit) (event : Event) :
    circ.RaisesByDigest C event ↔ circ.SendmeDue C event := by
  cases event with
  | cell env payload =>
    by_cases hsendme : circ.IsCircuitSendme C payload
    · have hstep : (circ.step C (.cell env payload)).1.sending =
          (circ.handleSendme env 0 (relayUnpack payload).data).sending :=
        sending_handleRelay_sendme hsendme env
      constructor
      · intro hraises _ hsmall
        by_contra hdue
        -- the SENDME is accepted, and has no whole digest that is outstanding
        have haccepts : circ.Accepts env (relayUnpack payload).data := by
          by_cases hcount : circ.sendmeAuthExpected.count = 0
          · exact .inl hcount
          · refine .inr (by_contra fun hother => hdue ⟨Nat.pos_of_ne_zero hcount, ?_⟩)
            exact fun hlen _ hdig => hother ⟨hlen, hdig⟩
        rw [sending_handleSendme_of_accepts haccepts, if_neg (not_lt.mpr hsmall)] at hstep
        obtain ⟨_, _, digest, hevent, -, -, hdata, hexp⟩ := hraises (by
          rw [show (circ.step C (.cell env payload)).1.circPackageWindow = _ from
            congrArg fst hstep, moorSendmeIncrement]
          omega)
        cases hevent
        have hcount := congrArg List.length hexp
        have hlen := congrArg List.length hdata
        rw [length_toList, List.length_cons] at hcount
        rw [List.length_take, digest.property] at hlen
        omega
      · intro hdue hraise
        by_cases haccepts : circ.Accepts env (relayUnpack payload).data
        · rw [sending_handleSendme_of_accepts haccepts] at hstep
          have hwin : (circ.step C (.cell env payload)).1.circPackageWindow = _ :=
            congrArg fst hstep
          have hexp : (circ.step C (.cell env payload)).1.sendmeAuthExpected =
              circ.sendmeAuthExpected.pop := congrArg (fun sending => sending.2.1) hstep
          have hsmall : circ.circPackageWindow ≤ moorCircuitWindow := by
            by_contra hlarge
            rw [hwin, if_pos (not_le.mp hlarge)] at hraise
            exact lt_irrefl _ hraise
          obtain ⟨hcount, hwhole⟩ := hdue hsendme hsmall
          obtain ⟨hlen, hdig⟩ := haccepts.resolve_left hcount.ne'
          have hlong : 20 ≤ (relayUnpack payload).data.length := by
            by_contra hshort
            exact hwhole hlen (not_le.mp hshort) hdig
          refine ⟨env, payload, _, rfl, hsendme.2.2.1, hsendme.2.2.2, ?_,
            hexp ▸ toList_eq_cons hcount⟩
          rw [← hdig, ← List.take_of_length_le (Arr.length_val _).le,
            Arr.take_val_ofList _ _ _ (by rw [List.length_append]; omega) le_rfl,
            List.take_append_of_le_length hlong]
        · rw [sending_handleSendme_of_not_accepts haccepts] at hstep
          exact absurd hraise (not_lt.mpr (congrArg fst hstep).le)
    · have hstep : (circ.step C (.cell env payload)).1.sending = circ.sending :=
        sending_handleRelay_other hsendme env
      refine iff_of_true (fun hraise => absurd hraise (not_lt.mpr ?_)) (absurd · hsendme)
      exact (congrArg fst hstep).le
  | read env streamId target =>
    refine iff_of_true (fun hraise => absurd hraise (not_lt.mpr ?_)) trivial
    rcases exitTargetRead_spec C env streamId target circ with ⟨h, -⟩ | ⟨bytes, -, -, hr⟩
    · exact (congrArg fst h).le
    · rw [step, hr]
      rcases packageData_spec C env streamId bytes circ with ⟨-, h⟩ | ⟨-, digest, h⟩
      all_goals exact (congrArg fst h).le.trans (by omega)
  | queue env relayCmd streamId data | streams streams =>
    exact iff_of_true (absurd · (lt_irrefl _)) trivial

end EndCircuit

/-- The end of a circuit, with the number of cells of data that it sent and of digests that came
back. -/
structure EndLog where
  circ : EndCircuit
  dataSent : ℕ
  acked : ℕ

namespace EndLog

def start (relayForwardDigest relayBackwardDigest : Field 32) : EndLog :=
  ⟨.init relayForwardDigest relayBackwardDigest, 0, 0⟩

def step (C : Crypto) (s : EndLog) (event : EndCircuit.Event) : Option EndLog :=
  let (circ, out) := s.circ.step C event
  some {
    circ := circ
    dataSent := s.dataSent + EndCircuit.dataCells event out
    acked := s.acked + (s.circ.sendmeAuthExpected.count - circ.sendmeAuthExpected.count) }

/-- The cells under way fit the window, and a digest is kept for every hundred of them. -/
structure Ok (s : EndLog) : Prop where
  window_nonneg : 0 ≤ s.circ.circPackageWindow
  cells_nonneg : 0 ≤ s.circ.sendmeAuthCellsSent
  cells_lt : s.circ.sendmeAuthCellsSent < 100
  room : s.circ.circPackageWindow + 100 * s.circ.sendmeAuthExpected.count +
    s.circ.sendmeAuthCellsSent ≤ 1000
  sent_le : (s.dataSent : ℤ) ≤ 100 * (s.acked + s.circ.sendmeAuthExpected.count) +
    s.circ.sendmeAuthCellsSent

variable {C : Crypto} {s : EndLog}

variable {circ : EndCircuit}

/-- An event that leaves the fields for sending alone, and sends no data. -/
theorem Ok.of_sending (h : s.Ok) (hsending : circ.sending = s.circ.sending) :
    Ok ⟨circ, s.dataSent,
      s.acked + (s.circ.sendmeAuthExpected.count - circ.sendmeAuthExpected.count)⟩ := by
  simp only [sending, Prod.mk.injEq] at hsending
  obtain ⟨hwin, hexp, hcells⟩ := hsending
  constructor
  all_goals simp only [hwin, hexp, hcells, Nat.sub_self, Nat.add_zero]
  · exact h.window_nonneg
  · exact h.cells_nonneg
  · exact h.cells_lt
  · exact h.room
  · exact h.sent_le

/-- A SENDME with a digest makes room for as many cells as the digest stood for. -/
theorem Ok.acknowledge (h : s.Ok) (hcount : 0 < s.circ.sendmeAuthExpected.count)
    (hsending : circ.sending = (s.circ.circPackageWindow + moorSendmeIncrement,
      s.circ.sendmeAuthExpected.pop, s.circ.sendmeAuthCellsSent)) :
    Ok ⟨circ, s.dataSent,
      s.acked + (s.circ.sendmeAuthExpected.count - circ.sendmeAuthExpected.count)⟩ := by
  simp only [sending, Prod.mk.injEq, moorSendmeIncrement] at hsending
  obtain ⟨hwin, hexp, hcells⟩ := hsending
  obtain ⟨hwindow₀, hcells₀, hcells₁, hroom, hsent⟩ := h
  constructor
  all_goals simp only [hwin, hexp, hcells, count_pop]; omega

/-- A cell of data that is sent takes its place in the window. -/
theorem Ok.packageData (h : s.Ok) (hpos : 0 < s.circ.circPackageWindow) (env : EndEnv)
    (streamId : UInt16) (bytes : Bytes) :
    let r := s.circ.packageData C env streamId bytes
    Ok ⟨r.1, s.dataSent + r.2.length,
      s.acked + (s.circ.sendmeAuthExpected.count - r.1.sendmeAuthExpected.count)⟩ := by
  intro r
  obtain ⟨hwindow₀, hcells₀, hcells₁, hroom, hsent⟩ := h
  have hspec := s.circ.packageData_spec C env streamId bytes
  simp only [sending, Prod.mk.injEq] at hspec
  rcases hspec with ⟨hout, hwin, hexp, hcells⟩ | ⟨hout, digest, hwin, hrec⟩
  · constructor
    all_goals simp only [r, hout, hwin, hexp, hcells, List.length_nil]; omega
  by_cases hfull : moorSendmeIncrement ≤ s.circ.sendmeAuthCellsSent + 1
  · rw [if_pos hfull, Prod.mk.injEq] at hrec
    rw [moorSendmeIncrement] at hfull
    have hroom' : s.circ.sendmeAuthExpected.count < moorSendmeAuthMax := show _ < 10 by omega
    have hcount : r.1.sendmeAuthExpected.count = s.circ.sendmeAuthExpected.count + 1 := by
      rw [hrec.1, count_push hroom']
    constructor
    all_goals simp only [hcount, r, hwin, hrec.2]; omega
  · rw [if_neg hfull, Prod.mk.injEq] at hrec
    rw [moorSendmeIncrement] at hfull
    constructor
    all_goals simp only [r, hwin, hrec.1, hrec.2]; omega

theorem Ok.step (h : s.Ok) {event : EndCircuit.Event} (hdue : s.circ.SendmeDue C event)
    {s' : EndLog} (hstep : s.step C event = some s') : s'.Ok := by
  cases hstep
  cases event with
  | cell env payload =>
    by_cases hsendme : s.circ.IsCircuitSendme C payload
    · have hsending := sending_handleRelay_sendme hsendme env
      by_cases haccepts : s.circ.Accepts env (relayUnpack payload).data
      · have hsmall : s.circ.circPackageWindow ≤ moorCircuitWindow := by
          have hroom := h.room
          have hcells := h.cells_nonneg
          rw [moorCircuitWindow]
          omega
        rw [sending_handleSendme_of_accepts haccepts, if_neg (not_lt.mpr hsmall)] at hsending
        exact h.acknowledge (hdue hsendme hsmall).1 hsending
      · rw [sending_handleSendme_of_not_accepts haccepts] at hsending
        exact h.of_sending hsending
    · exact h.of_sending (sending_handleRelay_other hsendme env)
  | read env streamId target =>
    rcases s.circ.exitTargetRead_spec C env streamId target with
      ⟨hsame, hnone⟩ | ⟨bytes, rfl, hpos, hr⟩
    · simp only [hnone]
      exact h.of_sending hsame
    · simp only [hr]
      exact h.packageData hpos env streamId bytes
  | queue env relayCmd streamId data => exact h.of_sending rfl
  | streams streams => exact h.of_sending rfl

end EndLog

/-- **SENDMEs at the exit.** The window grows by recorded digests alone exactly if every SENDME for
the circuit comes while a digest is outstanding; and then the client gets no more than a window of
cells beyond those whose digests it returned. -/
theorem exit_window_by_digest (C : Crypto) :
    (∀ circ event, EndCircuit.RaisesByDigest C circ event ↔ EndCircuit.SendmeDue C circ event) ∧
      ∀ relayForwardDigest relayBackwardDigest events s,
        Run.Along (EndLog.step C) (fun s => EndCircuit.SendmeDue C s.circ)
          (.start relayForwardDigest relayBackwardDigest) events →
        Run.run (EndLog.step C) (.start relayForwardDigest relayBackwardDigest) events = some s →
        s.dataSent ≤ 1000 + 100 * s.acked := by
  refine ⟨raisesByDigest_iff C, fun forward backward events s halong hrun => ?_⟩
  have h : s.Ok := Run.run_invariant (fun s event s' hs hdue hstep => hs.step hdue hstep)
    (by constructor <;> simp [EndLog.start, init, moorCircuitWindow]) halong hrun
  have hwin := h.window_nonneg
  have hroom := h.room
  have hsent := h.sent_le
  omega

/-- A circuit, a stream, and what the handling of a cell meets, for the instances below. -/
def sampleDigest : Field 32 := Arr.replicate 32 7

def sampleExitStream : ExitStream := ⟨1, true, true, moorStreamWindow, moorStreamWindow, false⟩

def sampleEndEnv : EndEnv := ⟨fun _ _ => true, [.took 498], []⟩

/-- A cell that the exit recognises as the first one. -/
def samplePayload (relayCmd : UInt8) (data : Bytes) : Payload :=
  (relaySetDigest Crypto.sample (cellRelay relayCmd 0 data) sampleDigest).1

def sampleEndEvents : List EndCircuit.Event :=
  [.streams [sampleExitStream], .read sampleEndEnv 1 (.data [1, 2, 3]),
    .cell sampleEndEnv (samplePayload relayData [4])]

theorem exit_window_by_digest_sample :
    ∃ s, Run.run (EndLog.step Crypto.sample) (.start sampleDigest sampleDigest) sampleEndEvents
        = some s ∧
      s.dataSent = 1 ∧ s.dataSent ≤ 1000 + 100 * s.acked := by
  have hdata : (relayUnpack (samplePayload relayData [4])).relayCommand ≠ relaySendme := by
    decide +kernel
  refine Run.exists_some_and (by decide +kernel) fun s hs =>
    (exit_window_by_digest Crypto.sample).2 _ _ sampleEndEvents s ?_ hs
  exact ⟨trivial, fun _ _ => ⟨trivial, fun _ _ => ⟨fun hsendme => absurd hsendme.2.2.1 hdata,
    fun _ _ => trivial⟩⟩⟩

/-- Before the exit has sent anything, an empty SENDME raises its window to eleven hundred cells. -/
theorem exit_window_grows_without_digest :
    ∃ circ event, circ.circPackageWindow = 1000 ∧ circ.sendmeAuthExpected.toList = [] ∧
      (EndCircuit.step Crypto.sample circ event).1.circPackageWindow = 1100 ∧
      ¬circ.RaisesByDigest Crypto.sample event := by
  have hraise : (step Crypto.sample (.init sampleDigest sampleDigest)
      (.cell sampleEndEnv (samplePayload relaySendme []))).1.circPackageWindow = 1100 := by
    decide +kernel
  refine ⟨_, _, rfl, rfl, hraise, fun hraises => ?_⟩
  obtain ⟨_, _, digest, -, -, -, -, hexp⟩ := hraises (by rw [hraise]; decide)
  exact absurd hexp (by simp [init])

end Moor
