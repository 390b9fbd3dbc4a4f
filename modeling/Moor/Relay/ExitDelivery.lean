import Moor.Relay.ExitStreams

/-!
# What the target of a stream gets

The exit writes the data of a cell to the target and forgets it, whether the socket took all of it
or not. What a target has taken is the beginning of what came for its stream as long as its socket
does not stall within a cell; a socket that breaks closes the stream.
-/

namespace Moor

open Codec List Option EndCircuit Function

/-- A socket takes something at every call until all is written, or it breaks: it does not refuse
and does not take nothing. -/
def noStall : List Socket.Answer → ℕ → Bool
  | _, 0 => true
  | [], _ + 1 => false
  | .again :: _, _ + 1 => false
  | .failed :: _, _ + 1 => true
  | .took k :: answers, n + 1 => k ≠ 0 && noStall answers (n + 1 - k)

/-- All is written, or the socket breaks. -/
theorem streamForwardToTarget_of_noStall {answers : List Socket.Answer} {n : ℕ}
    (h : noStall answers n) :
    (streamForwardToTarget answers n).1 = .error ∨ (streamForwardToTarget answers n).2 = n := by
  induction answers generalizing n with
  | nil =>
    cases n with
    | zero => exact .inr rfl
    | succ n => exact absurd h Bool.false_ne_true
  | cons answer answers ih =>
    cases n with
    | zero => exact .inr rfl
    | succ n =>
      cases answer with
      | again => exact absurd h Bool.false_ne_true
      | failed => exact .inl rfl
      | took k =>
        rw [noStall, Bool.and_eq_true, decide_eq_true_iff] at h
        rw [streamForwardToTarget, if_neg h.1]
        refine (ih h.2).imp_right fun hall => ?_
        change min k (n + 1) + (streamForwardToTarget answers (n + 1 - k)).2 = n + 1
        omega

namespace EndCircuit

variable {C : Crypto} {env : EndEnv} {circ : EndCircuit} {id : UInt16}

/-- The number of streams with an id. -/
def idCount (id : UInt16) (circ : EndCircuit) : ℕ := circ.countCore fun core => core.1 == id

/-- The number of streams with an id whose target is connected. -/
def liveCount (id : UInt16) (circ : EndCircuit) : ℕ :=
  circ.countCore fun core => core.1 == id && core.2.1 && core.2.2

theorem liveCount_le_idCount : circ.liveCount id ≤ circ.idCount id := by
  refine countP_mono_left fun stream _ h => ?_
  simp only [Bool.and_eq_true] at h
  exact h.1.1

theorem liveCount_pos_of_readyStream (h : circ.readyStream id) : 0 < circ.liveCount id := by
  obtain ⟨stream, hfind, hready⟩ := (any_eq_true _ _).mp h
  have hfind := (ite_none_left_eq_some.mp hfind).2
  refine countP_pos_iff.mpr ⟨stream, mem_of_find?_eq_some hfind, ?_⟩
  have hid := find?_some hfind
  simp only [Bool.and_eq_true] at hready ⊢
  exact ⟨⟨hid, hready.1⟩, hready.2⟩

theorem readyStream_of_writesData (h : circ.writesData id) : circ.readyStream id := by
  obtain ⟨stream, hfind, hwrites⟩ := (any_eq_true _ _).mp h
  refine (any_eq_true _ _).mpr ⟨stream, hfind, ?_⟩
  simp only [Bool.and_eq_true] at hwrites ⊢
  exact hwrites.1

/-- The only stream with an id is gone once it is freed. -/
theorem idCount_closeStream (hone : circ.idCount id ≤ 1) (hid : id ≠ 0) :
    (circ.closeStream id).idCount id = 0 := by
  change countP _ circ.streams ≤ 1 at hone
  change countP _ (replaceF _ circ.streams) = 0
  revert hone
  induction circ.streams with
  | nil => exact fun _ => rfl
  | cons stream streams ih =>
    intro hone
    rw [countP_cons] at hone
    by_cases hthis : stream.streamId = id
    · rw [replaceF_cons, if_pos ⟨hthis, hid⟩, countP_cons, if_neg (by simpa using hid.symm)]
      rw [if_pos (by simpa using hthis)] at hone
      omega
    · rw [replaceF_cons, if_neg (fun h => hthis h.1), countP_cons, if_neg (by simpa using hthis)]
      exact ih (by omega)

theorem noneOpened_exitTargetRead (streamId : UInt16) (target : TargetRead) :
    NoneOpened circ (circ.exitTargetRead C env streamId target).1 := by
  have hrecord (circ : EndCircuit) : circ.recordCell.streams = circ.streams := by
    rw [recordCell]
    split_ifs <;> rfl
  unfold exitTargetRead
  split
  · exact .of_streams rfl
  split
  · exact .of_streams rfl
  cases target with
  | again => exact .of_streams rfl
  | closed =>
    split_ifs
    · exact (dataRule_quiet.andThen (quiet_queueRelay (by decide) streamId [])
        (dataRule_quiet.modify streamId fun _ => .inr rfl)).noneOpened
    · exact .of_streams rfl
  | data bytes =>
    intro p hp
    dsimp only [packageData]
    have hcount : (modifyStream streamId
        (fun stream => { stream with packageWindow := stream.packageWindow - 1 })
        { circ with circPackageWindow := circ.circPackageWindow - 1 }).countCore p ≤
          circ.countCore p :=
      countCore_modifyStream fun _ _ h => h
    split_ifs
    · exact hcount
    · rw [countCore, hrecord]
      exact hcount

/-- A stream that is opened is one more at most. -/
theorem countCore_openStream (p : UInt16 × Bool × Bool → Bool) {streamId : UInt16}
    {connected : Bool} {circ' : EndCircuit} (h : circ.openStream streamId connected = some circ') :
    circ'.countCore p ≤ circ.countCore p + if p (streamId, true, connected) then 1 else 0 := by
  rw [openStream] at h
  split_ifs at h with hfree hroom
  · obtain rfl := some_inj.mp h
    change countP _ (replaceF _ circ.streams) ≤ countP _ circ.streams + _
    clear h hfree
    induction circ.streams with
    | nil => exact Nat.zero_le _
    | cons stream streams ih =>
      by_cases hzero : stream.streamId = 0
      · rw [replaceF_cons, if_pos hzero, countP_cons, countP_cons]
        dsimp only
        omega
      · rw [replaceF_cons, if_neg hzero, countP_cons, countP_cons]
        omega
  · obtain rfl := some_inj.mp h
    simp [countCore]

/-- A target that breaks takes its stream with it. -/
theorem idCount_handleData_of_error {data : Bytes} (hwrites : circ.writesData id)
    (herror : (streamForwardToTarget env.answers data.length).1 = .error)
    (hone : circ.idCount id ≤ 1) (hid : id ≠ 0) :
    (circ.handleData C env id data).1.idCount id = 0 := by
  obtain ⟨stream, hfind, hwrites⟩ := (any_eq_true _ _).mp hwrites
  simp only [Bool.and_eq_true, decide_eq_true_iff] at hwrites
  obtain ⟨⟨hopen, hconnected⟩, hcirc, hstream⟩ := hwrites
  rw [handleData, hfind]
  simp only [hopen, hconnected, Bool.not_true, Bool.false_eq_true, if_false,
    if_neg (not_or.mpr ⟨not_le.mpr hcirc, not_le.mpr hstream⟩)]
  rw [writeData]
  simp only [herror, if_true]
  rw [closeTarget]
  split
  rename_i circ' _ hqueue
  have hstreams : circ'.streams = circ.streams := by
    split_ifs at hqueue
    all_goals
      obtain ⟨rfl, -⟩ := Prod.ext_iff.mp hqueue
      rfl
  refine idCount_closeStream ?_ hid
  rwa [idCount, countCore, hstreams]

end EndCircuit

namespace Exit

variable {C : Crypto} {env : EndEnv} {s s' : Exit} {id : UInt16}

/-! ### The streams of a circuit -/

theorem exitTargetReadCb_spec (C : Crypto) (env : EndEnv) (s : Exit) (streamId : UInt16)
    (target : EndCircuit.TargetRead) :
    EndCircuit.NoneOpened s.circ (s.exitTargetReadCb C env streamId target).circ ∧
      (s.exitTargetReadCb C env streamId target).received = s.received ∧
      (s.exitTargetReadCb C env streamId target).accepted = s.accepted := by
  have hread : EndCircuit.NoneOpened s.circ (s.circ.exitTargetRead C env streamId target).1 :=
    noneOpened_exitTargetRead streamId target
  rw [exitTargetReadCb]
  split
  · exact ⟨.of_streams rfl, rfl, rfl⟩
  cases target with
  | again | closed => exact ⟨hread, rfl, rfl⟩
  | data bytes =>
    dsimp only
    split_ifs
    all_goals exact ⟨hread, rfl, rfl⟩

theorem streams_connectStream (streamId : UInt16) :
    (s.connectStream C env streamId).circ.streams = s.circ.streams := by
  rw [connectStream]
  split_ifs <;> rfl

/-! ### The invariant -/

/-- The target of a stream has all that came for the stream, or a part of it when it is no longer
connected. The id is that of one stream. -/
structure Delivered (id : UInt16) (s : Exit) : Prop where
  one : s.circ.idCount id ≤ 1
  all : s.accepted id = s.received id ∨
    s.accepted id <+: s.received id ∧ s.circ.liveCount id = 0

variable (h : s.Delivered id)
include h

theorem Delivered.isPrefix : s.accepted id <+: s.received id :=
  h.all.elim (fun hall => hall ▸ prefix_rfl) And.left

/-- What the socket of a connected stream meets when a cell of data comes for it. -/
def Delivers (C : Crypto) (s : Exit) : Event → Prop
  | .cell env payload =>
    let relay := relayUnpack payload
    (s.circ.recognise C payload).isSome → relay.relayCommand = relayData →
      s.circ.readyStream relay.streamId →
      s.circ.writesData relay.streamId ∧ noStall env.answers relay.data.length
  | _ => True

instance (C : Crypto) (s : Exit) (event : Event) : Decidable (s.Delivers C event) := by
  induction event using Event.casesOn <;> unfold Delivers <;> infer_instance

theorem Delivered.of_noneOpened (hid : id ≠ 0) (hnone : EndCircuit.NoneOpened s.circ s'.circ)
    (hreceived : s'.received id = s.received id) (haccepted : s'.accepted id = s.accepted id) :
    s'.Delivered id where
  one := (hnone _ fun _ _ => by simpa using hid.symm).trans h.one
  all := by
    rw [hreceived, haccepted]
    refine h.all.imp_right fun hpart => ⟨hpart.1, Nat.le_zero.mp ?_⟩
    exact (hnone _ fun _ _ => by simp [hid.symm]).trans hpart.2.le

variable {streamId : UInt16}

/-- A stream that is connected has got nothing yet. -/
theorem Delivered.connectStream {circ : EndCircuit} (hone : circ.idCount id ≤ 1)
    (hlive : id ≠ streamId → circ.liveCount id ≤ s.circ.liveCount id) :
    (Exit.connectStream C env streamId { s with circ := circ }).Delivered id := by
  have hcount (p : UInt16 × Bool × Bool → Bool) :
      (Exit.connectStream C env streamId { s with circ := circ }).circ.countCore p =
        circ.countCore p := by
    simp [countCore, streams_connectStream]
  by_cases hid : id = streamId
  · refine ⟨(hcount _).trans_le hone, .inl ?_⟩
    rw [Exit.connectStream, hid]
    split_ifs
    all_goals
      change update _ _ _ _ = update _ _ _ _
      simp
  · have hsame : Unchanged id { s with circ := circ }
        (Exit.connectStream C env streamId { s with circ := circ }) :=
      unchanged_connectStream hid
    refine ⟨(hcount _).trans_le hone, ?_⟩
    rw [hsame.accepted, hsame.received, liveCount, hcount]
    exact h.all.imp_right fun hpart => ⟨hpart.1, Nat.le_zero.mp ((hlive hid).trans hpart.2.le)⟩

theorem Delivered.exitConnect {immediate : Bool}
    (hstep : s.exitConnect C env streamId immediate = some s') : s'.Delivered id := by
  obtain ⟨hfresh, hstep⟩ := ite_none_left_eq_some.mp hstep
  rw [not_or, Bool.not_eq_true, isSome_eq_false_iff, isNone_iff_eq_none, findStream] at hfresh
  split at hstep
  · exact absurd hstep.symm (some_ne_none s')
  rename_i circ hopen
  have hone : circ.idCount id ≤ 1 := by
    have hcount := countCore_openStream (fun core => core.1 == id) hopen
    by_cases hid : id = streamId
    · have hfree : s.circ.idCount id = 0 := by
        have hnone := hfresh.2
        rw [if_neg hfresh.1, ← hid] at hnone
        exact countP_eq_zero.mpr (find?_eq_none.mp hnone)
      refine hcount.trans ?_
      change s.circ.idCount id + _ ≤ 1
      split_ifs <;> omega
    · rw [if_neg (by simpa using Ne.symm hid)] at hcount
      exact hcount.trans h.one
  have hlive : id ≠ streamId ∨ immediate = false → circ.liveCount id ≤ s.circ.liveCount id := by
    intro hother
    have hcount := countCore_openStream
      (fun core => core.1 == id && core.2.1 && core.2.2) hopen
    rwa [if_neg] at hcount
    rcases hother with hother | hother
    · simp [Ne.symm hother]
    · simp [hother]
  cases hstep
  cases immediate with
  | true => exact h.connectStream hone fun hid => hlive (.inl hid)
  | false =>
    refine ⟨hone, h.all.imp_right fun hpart => ⟨hpart.1, Nat.le_zero.mp ?_⟩⟩
    exact (hlive (.inr rfl)).trans hpart.2.le

theorem Delivered.exitConnectCompleteCb (hid : id ≠ 0) (streamId : UInt16) (ok : Bool) :
    (s.exitConnectCompleteCb C env streamId ok).Delivered id := by
  rw [Exit.exitConnectCompleteCb]
  cases ok with
  | true =>
    refine h.connectStream (le_trans ?_ h.one) fun hother => ?_
    · exact countCore_modifyStream fun _ _ h => h
    · refine countCore_modifyStream fun stream hstream hlive => ?_
      simp only [Bool.and_eq_true, beq_iff_eq] at hlive
      exact absurd (hlive.1.1.symm.trans hstream) hother
  | false =>
    rw [if_neg Bool.false_ne_true]
    dsimp only
    split_ifs
    all_goals exact h.of_noneOpened hid (noneOpened_closeStream streamId) rfl rfl

/-- The data of a cell reaches the target, or the stream ends. -/
theorem Delivered.handleData (hid : id ≠ 0) {data : Bytes}
    (hdelivers : s.circ.readyStream streamId →
      s.circ.writesData streamId ∧ noStall env.answers data.length) :
    (s.handleData C env streamId data).Delivered id := by
  have hnone : EndCircuit.NoneOpened s.circ (s.circ.handleData C env streamId data).1 :=
    (dataRule_quiet.handleData streamId data).noneOpened
  rw [Exit.handleData]
  by_cases hready : s.circ.readyStream streamId = true
  · obtain ⟨hwrites, hstall⟩ := hdelivers hready
    by_cases hthis : id = streamId
    · subst hthis
      have hall : s.accepted id = s.received id := h.all.resolve_right fun hpart =>
        absurd (liveCount_pos_of_readyStream hready) (by omega)
      split_ifs with herror
      · have hgone := idCount_handleData_of_error (C := C) hwrites herror h.one hid
        refine ⟨hgone.le.trans (Nat.zero_le 1), .inr ⟨?_, ?_⟩⟩
        · change update s.accepted id _ id <+: update s.received id _ id
          rw [update_self, update_self, hall, prefix_append_right_inj]
          exact take_prefix _ _
        · exact Nat.le_zero.mp (liveCount_le_idCount.trans hgone.le)
      · have hlen := (streamForwardToTarget_of_noStall hstall).resolve_left herror
        refine ⟨(hnone _ fun _ _ => ?_).trans h.one, .inl ?_⟩
        · simpa using hid.symm
        · change update _ _ _ _ = update _ _ _ _
          rw [update_self, update_self, hall, taken, hlen, take_length]
    · split_ifs
      all_goals
        exact h.of_noneOpened hid hnone (update_of_ne hthis _ _)
          (update_of_ne hthis _ _)
  · have hwrites : ¬s.circ.writesData streamId = true :=
      fun hwrites => hready (readyStream_of_writesData hwrites)
    rw [if_neg hready, if_neg hwrites]
    exact h.of_noneOpened hid hnone rfl rfl

theorem Delivered.handleRelay {payload : Payload} (hid : id ≠ 0)
    (hdelivers : s.Delivers C (.cell env payload)) :
    (s.handleRelay C env payload).Delivered id := by
  rw [Exit.handleRelay]
  cases hrec : s.circ.recognise C payload with
  | none => exact h
  | some circ =>
    obtain ⟨digest, rfl⟩ := recognise_eq_some hrec
    have hsame : Delivered id { s with circ := { s.circ with relayForwardDigest := digest } } :=
      { h with }
    dsimp only
    by_cases hcmd : (relayUnpack payload).relayCommand = relayData
    · rw [dispatch, if_pos hcmd]
      exact hsame.handleData hid (hdelivers (by rw [hrec]; rfl) hcmd)
    · obtain ⟨circ, xoffRecv, watch, hnone, heq⟩ := dispatch_control hcmd
      rw [heq]
      exact hsame.of_noneOpened hid hnone rfl rfl

theorem Delivered.step {event : Event} (hid : id ≠ 0) (hdelivers : s.Delivers C event)
    (hstep : s.step C event = some s') : s'.Delivered id := by
  cases event with
  | cell env payload =>
    cases hstep
    exact h.handleRelay hid hdelivers
  | connect env streamId immediate => exact h.exitConnect hstep
  | connectDone env streamId ok =>
    obtain ⟨-, hstep⟩ := ite_none_right_eq_some.mp hstep
    cases hstep
    exact h.exitConnectCompleteCb hid streamId ok
  | readable env streamId target =>
    obtain ⟨-, hstep⟩ := ite_none_right_eq_some.mp hstep
    cases hstep
    obtain ⟨hnone, hreceived, haccepted⟩ := exitTargetReadCb_spec C env s streamId target
    exact h.of_noneOpened hid hnone (congrFun hreceived id) (congrFun haccepted id)
  | queue env relayCmd streamId data =>
    obtain ⟨-, hstep⟩ := ite_none_left_eq_some.mp hstep
    cases hstep
    exact h.of_noneOpened hid (.of_streams rfl) rfl rfl
  | prevConn state =>
    cases hstep
    exact h.of_noneOpened hid (.of_streams rfl) rfl rfl

omit h

end Exit

/-- What the target of a stream has taken is the beginning of the data that came for the stream, in
every run in which every cell of data for a connected stream comes within the windows and meets a
socket that does not stall before it has the whole cell. -/
theorem exit_delivery_without_stall (C : Crypto) (circ : EndCircuit) (hcirc : circ.streams = [])
    (events : List Exit.Event) (s : Exit)
    (halong : Run.Along (Exit.step C) (fun s event => s.Delivers C event) (.init circ) events)
    (hrun : Run.run (Exit.step C) (.init circ) events = some s) (id : UInt16) (hid : id ≠ 0) :
    s.accepted id <+: s.received id := by
  have hinit : (Exit.init circ).Delivered id := by
    refine ⟨?_, .inl rfl⟩
    change countP _ circ.streams ≤ 1
    rw [hcirc]
    exact Nat.zero_le 1
  have h : s.Delivered id := Run.run_invariant (I := fun s => s.Delivered id)
    (fun s event s' hs hdelivers hstep => hs.step hid hdelivers hstep) hinit halong hrun
  exact h.isPrefix

/-- A stream is connected, and two cells of data come for it; the socket answers the first. -/
def sampleExitUpload (answers : List Socket.Answer) : List Exit.Event :=
  .connect sampleExitEnv 1 true ::
    List.zipWith Exit.Event.cell [{ sampleExitEnv with answers := answers }, sampleExitEnv]
      (sampleCells [(relayData, 1, [97, 98]), (relayData, 1, [99])])

theorem exit_delivery_without_stall_sample :
    ∃ s, Run.run (Exit.step Crypto.sample)
        (.init (.init (Arr.replicate 32 7) (Arr.replicate 32 7)))
        (sampleExitUpload [.took 1, .took 1]) = some s ∧
      s.accepted 1 = [97, 98, 99] ∧ s.accepted 1 <+: s.received 1 :=
  Run.exists_some_and (by decide +kernel) fun s hs =>
    exit_delivery_without_stall Crypto.sample _ rfl _ s (by decide +kernel) hs 1 (by decide)

/-- The socket takes one byte of the first cell and then refuses: the second byte is skipped, and
the target gets the next cell. -/
theorem exit_skips_after_stall :
    ∃ s, Run.run (Exit.step Crypto.sample)
        (.init (.init (Arr.replicate 32 7) (Arr.replicate 32 7)))
        (sampleExitUpload [.took 1, .again]) = some s ∧
      s.circ.readyStream 1 ∧ s.received 1 = [97, 98, 99] ∧ s.accepted 1 = [97, 99] ∧
      ¬s.accepted 1 <+: s.received 1 := by decide +kernel

end Moor
