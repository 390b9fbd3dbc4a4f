import Moor.Link.Sending

/-!
# The two schedules of a link

Sender and receiver of a link move to new keys each on its own: after a number of records, or after
some time on its own clock. The receiver opens a record with the key of its current epoch or with
the one before. This is enough as long as its schedule puts it in the epoch of each record, or one
further, when the record arrives; a receiver whose schedule is behind has no key for the record.
Schedules that follow the count of records alone stay in step.
-/

namespace Moor

open Codec List LinkDirection Nat

/-- Both ends of one direction of a link: the bytes under way, the records they are part of, the
cells sent and received, and the clocks of the ends. -/
structure RekeyLink where
  sender : Conn
  receiver : Conn
  channel : Bytes
  pending : List Sealed
  sent : List Cell
  received : List Cell
  sendClock : ℕ
  recvClock : ℕ
  broken : Bool

/-- The sender sends a cell, or the receiver tries to read one when some more bytes have arrived. -/
inductive RekeyEvent
  | send (nowMs : ℕ) (cell : Cell)
  | recv (nowMs : ℕ) (arrived : ℕ)

namespace RekeyLink

/-- What becomes of the link when the receiver has tried to read a cell. -/
def afterRecv (s : RekeyLink) : RecvResult → RekeyLink
  | .nothing => s
  | .cell cell => { s with pending := s.pending.tail, received := s.received ++ [cell] }
  | .error => { s with broken := true }

/-- The clock of neither end goes back, and bytes arrive in order. -/
def step (C : AeadCrypto) (s : RekeyLink) : RekeyEvent → Option RekeyLink
  | .send nowMs cell =>
    if nowMs < s.sendClock then none
    else
      let e := s.sender.sendCell C nowMs [.took moorCellWireSize] true cell
      some { s with
        sender := e.conn
        channel := s.channel ++ e.written
        pending := s.pending ++ e.sealed
        sent := s.sent ++ e.sealed.map fun _ => cell
        sendClock := nowMs }
  | .recv nowMs arrived =>
    if nowMs < s.recvClock then none
    else
      let count := min arrived (recvSpace s.receiver.recvBuf)
      let r := s.receiver.recvCell C.toCrypto nowMs (some (s.channel.take count))
      some (afterRecv
        { s with receiver := r.1, channel := s.channel.drop count, recvClock := nowMs } r.2)

/-- The link when the handshake is done at both ends, each at a time of its own. -/
def start (sender receiver : Conn) (sendMs recvMs : ℕ) : RekeyLink where
  sender := linkRekeyInit sendMs sender
  receiver := linkRekeyInit recvMs receiver
  channel := []
  pending := []
  sent := []
  received := []
  sendClock := sendMs
  recvClock := recvMs
  broken := false

end RekeyLink

/-- The two ends of a link after the handshake. -/
structure HandshakeDone (sender receiver : Conn) : Prop where
  sendOpen : sender.state = .opened
  recvOpen : receiver.state = .opened
  sendRaw : sender.transport = false
  sendDone : sender.pqHandshakeDone = true
  recvDone : receiver.pqHandshakeDone = true
  key : sender.send.key = receiver.recv.key
  nonce : sender.send.nonce = receiver.recv.nonce
  recvBuf : receiver.recvBuf = []

/-- The epoch whose key is tried first on a record that arrives now. -/
def LinkDirection.epochAt (d : LinkDirection) (nowMs : ℕ) : ℕ :=
  if d.RotationDue nowMs then d.epoch + 1 else d.epoch

/-- When a record is complete, the schedule of the receiver puts it in the epoch in which the record
was made, or in the next one. -/
def EpochsMeet (s : RekeyLink) : RekeyEvent → Prop
  | .send .. => True
  | .recv nowMs arrived =>
    let count := min arrived (recvSpace s.receiver.recvBuf)
    HaveComplete (s.receiver.recvBuf ++ s.channel.take count) →
      ∀ made ∈ s.pending.head?,
        made.epoch ≤ s.receiver.recv.epochAt nowMs ∧
          s.receiver.recv.epochAt nowMs ≤ made.epoch + 1

instance (s : RekeyLink) : DecidablePred (EpochsMeet s)
  | .send .. => .isTrue trivial
  | .recv .. => inferInstanceAs (Decidable (_ → _))

/-! ### The keys of a schedule -/

/-- The keys of the epochs, from the key of the handshake on. -/
def epochKey (C : Crypto) (key : Field 32) : ℕ → Field 32
  | 0 => key
  | epoch + 1 => cryptoLinkRekey C (epochKey C key epoch) (epoch + 1)

/-- A direction holds the key of its epoch, and that of the epoch before. -/
structure OnSchedule (C : Crypto) (key : Field 32) (d : LinkDirection) : Prop where
  current : d.key = epochKey C key d.epoch
  chain : d.chain = epochKey C key d.epoch
  previous : ∀ epoch, d.epoch = epoch + 1 → d.prevValid = true ∧ d.prevKey = epochKey C key epoch

section Schedule

variable {C : Crypto} {key : Field 32} {d : LinkDirection}

theorem onSchedule_rekeyInit (nowMs : ℕ) (d : LinkDirection) :
    OnSchedule C d.key (d.rekeyInit nowMs) :=
  ⟨rfl, rfl, fun epoch h => absurd h (by simp [rekeyInit])⟩

theorem OnSchedule.maybeRotate (h : OnSchedule C key d) (nowMs : ℕ) :
    OnSchedule C key (d.maybeRotate C true nowMs) := by
  by_cases hdue : d.RotationDue nowMs
  · rw [LinkDirection.maybeRotate, if_pos ⟨rfl, hdue⟩]
    have hnext : cryptoLinkRekey C d.chain (d.epoch + 1) = epochKey C key (d.epoch + 1) := by
      rw [h.chain, epochKey]
    refine ⟨hnext, hnext, fun epoch hepoch => ⟨rfl, ?_⟩⟩
    obtain rfl : d.epoch = epoch := succ_injective hepoch
    exact h.current
  · rw [LinkDirection.maybeRotate, if_neg fun hboth => hdue hboth.2]
    exact h

theorem epoch_maybeRotate (C : Crypto) (d : LinkDirection) (nowMs : ℕ) :
    (d.maybeRotate C true nowMs).epoch = d.epochAt nowMs := by
  by_cases hdue : d.RotationDue nowMs
  · rw [maybeRotate, if_pos ⟨rfl, hdue⟩, epochAt, if_pos hdue]
    rfl
  · simp [maybeRotate, epochAt, if_neg hdue]

end Schedule

/-- A record opens to what was encrypted or not at all, whatever the key. -/
def OpensOnlyToPlain (C : AeadCrypto) : Prop :=
  ∀ key key' nonce plain record, cryptoAeadEncrypt C plain [] key nonce = some record →
    ∀ plain' ∈ cryptoAeadDecrypt C.toCrypto record key' nonce, plain' = plain

/-- A record made on the schedule. -/
structure MadeOnSchedule (C : AeadCrypto) (key : Field 32) (made : Sealed) : Prop where
  current : made.key = epochKey C.toCrypto key made.epoch
  encrypted : cryptoAeadEncrypt C made.plain [] made.key made.nonce = some made.record
  length : made.record.length = cellRecordSize

section Records

variable {C : AeadCrypto} {key : Field 32} {d d' : LinkDirection} {made : Sealed} {cell : Cell}

theorem madeOnSchedule_encryptRecord (hd : OnSchedule C.toCrypto key d)
    (h : encryptRecord C d cell = some (d', made)) : MadeOnSchedule C key made := by
  obtain ⟨-, hkey, -, hepoch, hplain, hencrypted⟩ := encryptRecord_eq_some h
  refine ⟨by rw [hkey, hepoch, hd.current], hencrypted, ?_⟩
  simp [C.length_aeadEncrypt hencrypted, hplain, cellRecordSize]

/-- In the epoch of a record and in the next one, the record is opened. -/
theorem decryptRecord_of_epoch (hd : OnSchedule C.toCrypto key d)
    (hmade : MadeOnSchedule C key made) (hnonce : made.nonce = d.nonce)
    (hle : made.epoch ≤ d.epoch) (hge : d.epoch ≤ made.epoch + 1) :
    ∃ plain, decryptRecord C.toCrypto d made.record = some plain ∧
      (OpensOnlyToPlain C → plain = made.plain) := by
  have hopened := cryptoAeadDecrypt_of_encrypt hmade.encrypted
  rw [decryptRecord]
  cases hcurrent : cryptoAeadDecrypt C.toCrypto made.record d.key d.nonce with
  | some plain =>
    refine ⟨plain, rfl, fun honly => honly _ d.key _ _ _ hmade.encrypted plain ?_⟩
    rw [hnonce]
    exact hcurrent
  | none =>
    -- the current key is not the key of the record, so the record is of the epoch before
    have hepoch : d.epoch = made.epoch + 1 := by
      by_contra hne
      have heq : d.epoch = made.epoch := by omega
      rw [hd.current, heq, ← hmade.current, ← hnonce, hopened] at hcurrent
      simp at hcurrent
    obtain ⟨hvalid, hprevious⟩ := hd.previous _ hepoch
    refine ⟨made.plain, ?_, fun _ => rfl⟩
    simp only [hvalid, if_true]
    rw [hprevious, ← hmade.current, ← hnonce, hopened]

theorem sendFrame_took {conn : Conn} {wire : Bytes} (htransport : conn.transport = false)
    (hlen : wire.length = moorCellWireSize) :
    sendFrame [.took moorCellWireSize] true wire conn = (conn, wire, true) := by
  simp [sendFrame, htransport, Socket.sendAll_took_of_length_le hlen.le]

end Records

/-- Both ends are on one schedule: what is under way are frames of records made on it, with the
nonces the receiver expects next. -/
structure RekeyLink.InStep (C : AeadCrypto) (key : Field 32) (s : RekeyLink) : Prop where
  sendOn : OnSchedule C.toCrypto key s.sender.send
  recvOn : OnSchedule C.toCrypto key s.receiver.recv
  sendRaw : s.sender.transport = false
  sendDone : s.sender.pqHandshakeDone = true
  recvOpen : s.receiver.state = .opened
  recvDone : s.receiver.pqHandshakeDone = true
  made : ∀ made ∈ s.pending, MadeOnSchedule C key made
  nonces : s.pending.map (fun made => made.nonce.toNat)
    = List.range' s.receiver.recv.nonce.toNat s.pending.length
  counter : s.sender.send.nonce.toNat = s.receiver.recv.nonce.toNat + s.pending.length
  bytes : s.receiver.recvBuf ++ s.channel
    = (s.pending.map fun made => wireFrame made.record).flatten
  contents : OpensOnlyToPlain C →
    s.sent = s.received ++ s.pending.map fun made => cellUnpack made.plain
  unbroken : s.broken = false

section InStep

variable {C : AeadCrypto} {key : Field 32} {s s' : RekeyLink} {nowMs : ℕ} (hs : s.InStep C key)
include hs

theorem RekeyLink.InStep.send {cell : Cell} (h : s.step C (.send nowMs cell) = some s') :
    s'.InStep C key := by
  have hrotated := hs.sendOn.maybeRotate nowMs
  rw [← hs.sendDone] at hrotated
  by_cases hclock : nowMs < s.sendClock
  · simp [RekeyLink.step, hclock] at h
  rw [RekeyLink.step, if_neg hclock] at h
  cases h
  rcases Conn.sendCell_cases C nowMs [.took moorCellWireSize] true cell s.sender with
    ⟨d, state, heffect, hd, -⟩ | ⟨d, made, -, hne, hseal, heffect⟩
  · have hon : OnSchedule C.toCrypto key d := by
      rcases hd with rfl | rfl
      · exact hs.sendOn
      · exact hrotated
    have hnonce : d.nonce = s.sender.send.nonce := by
      rcases hd with rfl | rfl
      · rfl
      · exact maybeRotate_nonce ..
    rw [heffect]
    simp only [append_nil, map_nil]
    exact { hs with sendOn := hon, counter := by rw [hnonce, hs.counter] }
  have hmade := madeOnSchedule_encryptRecord hrotated hseal
  have hlen := length_wireFrame_made hseal
  obtain ⟨rfl, -, hnonce, -, hplain, -⟩ := encryptRecord_eq_some hseal
  rw [maybeRotate_nonce] at hnonce
  rw [heffect, sendFrame_took (by exact hs.sendRaw) hlen]
  refine { hs with
    sendOn := { hrotated with }
    made := ?_, nonces := ?_, counter := ?_, bytes := ?_, contents := fun honly => ?_ }
  · exact forall_mem_append.mpr ⟨hs.made, forall_mem_singleton.mpr hmade⟩
  · simp only [SendEffect.ofFrame, map_append, map_cons, map_nil,
      length_append, length_singleton, hs.nonces, hnonce, hs.counter,
      range'_concat, one_mul]
  · simp only [SendEffect.ofFrame, maybeRotate_nonce, toNat_nonce_add_one hne, hs.counter,
      length_append, length_singleton, add_assoc]
  · simp only [SendEffect.ofFrame, ← append_assoc, hs.bytes, map_append,
      flatten_append, map_cons, map_nil, flatten_cons, flatten_nil, append_nil]
  · simp only [SendEffect.ofFrame, hs.contents honly, map_append, map_cons,
      map_nil, hplain, cellUnpack_cellPack, append_assoc]

/-- More of the channel is in the buffer, and no record is complete. -/
theorem RekeyLink.InStep.buffered {buf channel : Bytes} (recvClock : ℕ)
    (h : buf ++ channel = s.receiver.recvBuf ++ s.channel) :
    InStep C key { s with
      receiver := { s.receiver with recvBuf := buf }
      channel := channel
      recvClock := recvClock } :=
  { hs with bytes := h.trans hs.bytes }

/-- The counter of a receiver that waits for a record is not at its end. -/
theorem RekeyLink.InStep.nonce_ne_max (h : s.pending ≠ []) :
    s.receiver.recv.nonce ≠ Layer.uint64Max := by
  intro hmax
  have hcounter := hs.counter
  have hpos := length_pos_iff.mpr h
  have hlt := s.sender.send.nonce.toNat_lt
  have hvalue : s.receiver.recv.nonce.toNat = 2 ^ 64 - 1 := by
    rw [hmax]
    rfl
  omega

/-- The oldest record under way is the one that the receiver waits for. -/
theorem RekeyLink.InStep.nonce_head {made : Sealed} (h : made ∈ s.pending.head?) :
    made.nonce = s.receiver.recv.nonce := by
  obtain ⟨pending, hpend⟩ := head?_eq_some_iff.mp h
  have hnonces := hs.nonces
  rw [hpend, map_cons, length_cons, range'_succ] at hnonces
  exact UInt64.toNat_inj.mp (cons.inj hnonces).1

/-- The oldest record is opened and leaves the buffer. -/
theorem RekeyLink.InStep.opened (nowMs : ℕ) {made : Sealed} {pending : List Sealed}
    {more channel plain : Bytes} (hpend : s.pending = made :: pending)
    (hbytes : wireFrame made.record ++ more ++ channel = s.receiver.recvBuf ++ s.channel)
    (hplain : OpensOnlyToPlain C → plain = made.plain) :
    let recv := s.receiver.recv.maybeRotate C.toCrypto s.receiver.pqHandshakeDone nowMs
    InStep C key { s with
      receiver := { s.receiver with
        recv := { recv with nonce := recv.nonce + 1, epochRecords := recv.epochRecords + 1 }
        recvBuf := more }
      channel := channel
      pending := pending
      received := s.received ++ [cellUnpack plain]
      recvClock := nowMs } := by
  have hrotated := hs.recvOn.maybeRotate nowMs
  rw [← hs.recvDone] at hrotated
  have hcounter := hs.counter
  have hnonces := hs.nonces
  have hframes := hs.bytes
  rw [hpend, length_cons] at hcounter hnonces
  rw [hpend] at hframes
  have hne := hs.nonce_ne_max (by simp [hpend])
  refine { hs with
    recvOn := { hrotated with }
    made := fun m hm => hs.made m (hpend ▸ mem_cons_of_mem made hm)
    nonces := ?_, counter := ?_, bytes := ?_, contents := fun honly => ?_ }
  · simp only [maybeRotate_nonce, toNat_nonce_add_one hne]
    exact (cons.inj hnonces).2
  · simp only [maybeRotate_nonce, toNat_nonce_add_one hne]
    omega
  · rw [map_cons, flatten_cons, ← hbytes, append_assoc] at hframes
    exact append_cancel_left hframes
  · have hcontents := hs.contents honly
    rw [hpend, map_cons] at hcontents
    simp [hcontents, hplain honly]

/-- Reading from a buffer that holds the start of what is under way. -/
theorem RekeyLink.InStep.recvFrame {buf channel : Bytes}
    (hbytes : buf ++ channel = s.receiver.recvBuf ++ s.channel)
    (hepochs : HaveComplete buf → ∀ made ∈ s.pending.head?,
      made.epoch ≤ s.receiver.recv.epochAt nowMs ∧
        s.receiver.recv.epochAt nowMs ≤ made.epoch + 1) :
    let r := Moor.recvFrame C.toCrypto nowMs { s.receiver with recvBuf := buf }
    InStep C key (RekeyLink.afterRecv
      { s with receiver := r.1, channel := channel, recvClock := nowMs } r.2) := by
  have hframes := hbytes.trans hs.bytes
  by_cases hnil : s.pending = []
  · rw [hnil] at hframes
    obtain ⟨rfl, -⟩ := append_eq_nil_iff.mp hframes
    exact hs.buffered nowMs hbytes
  obtain ⟨made, pending, hpend⟩ := exists_cons_of_ne_nil hnil
  have hmade : MadeOnSchedule C key made := hs.made made (by simp [hpend])
  rw [hpend, map_cons, flatten_cons] at hframes
  have hlen : (wireFrame made.record).length = 2 + cellRecordSize := by
    simp [wireFrame, hmade.length]
  by_cases hlt : buf.length < 2 + cellRecordSize
  · rw [recvFrame_of_lt hmade.length { s.receiver with recvBuf := buf } hframes hlt]
    exact hs.buffered nowMs hbytes
  -- the buffer holds the whole frame
  obtain ⟨more, rfl⟩ : wireFrame made.record <+: buf :=
    prefix_of_prefix_length_le ⟨_, hframes.symm⟩ ⟨_, rfl⟩ (by omega)
  have hcomplete : HaveComplete (wireFrame made.record ++ more) := by
    rw [HaveComplete, frameLength_wireFrame_append hmade.length]
    omega
  obtain ⟨hle, hge⟩ := hepochs hcomplete made (by simp [hpend])
  have hrotated := hs.recvOn.maybeRotate nowMs
  have hnonce := hs.nonce_head (show made ∈ s.pending.head? by simp [hpend])
  obtain ⟨plain, hdec, hplain⟩ := decryptRecord_of_epoch hrotated hmade
    (hnonce.trans (maybeRotate_nonce ..).symm) (by rwa [epoch_maybeRotate])
    (by rwa [epoch_maybeRotate])
  rw [← hs.recvDone] at hdec
  rw [recvFrame_of_frame hmade.length { s.receiver with recvBuf := wireFrame made.record ++ more }
    rfl (hs.nonce_ne_max hnil) hdec]
  have hopened := hs.opened nowMs hpend hbytes hplain
  simpa only [RekeyLink.afterRecv, hpend, tail_cons] using hopened

theorem RekeyLink.InStep.step {event : RekeyEvent} (hepochs : EpochsMeet s event)
    (h : s.step C event = some s') : s'.InStep C key := by
  cases event with
  | send nowMs cell => exact hs.send h
  | recv nowMs arrived =>
    by_cases hclock : nowMs < s.recvClock
    · simp [RekeyLink.step, hclock] at h
    rw [RekeyLink.step, if_neg hclock] at h
    cases h
    have hlen : (s.channel.take (min arrived (recvSpace s.receiver.recvBuf))).length
        ≤ recvSpace s.receiver.recvBuf :=
      (length_take_le ..).trans (min_le_right ..)
    have hbytes : s.receiver.recvBuf ++
        s.channel.take (min arrived (recvSpace s.receiver.recvBuf)) ++
        s.channel.drop (min arrived (recvSpace s.receiver.recvBuf))
        = s.receiver.recvBuf ++ s.channel := by
      simp
    rw [Conn.recvCell_of_length_le hs.recvOpen hlen]
    by_cases hwait : s.channel.take (min arrived (recvSpace s.receiver.recvBuf)) = [] ∧
        recvSpace s.receiver.recvBuf ≠ 0
    · rw [hwait.1, append_nil] at hbytes
      rw [if_pos hwait]
      exact hs.buffered nowMs hbytes
    · rw [if_neg hwait]
      exact hs.recvFrame hbytes hepochs

omit hs

theorem RekeyLink.inStep_start {sender receiver : Conn} (h : HandshakeDone sender receiver)
    (sendMs recvMs : ℕ) :
    (RekeyLink.start sender receiver sendMs recvMs).InStep C receiver.recv.key := by
  have hsend := onSchedule_rekeyInit (C := C.toCrypto) sendMs sender.send
  rw [h.key] at hsend
  exact { h with
    sendOn := hsend
    recvOn := onSchedule_rekeyInit recvMs receiver.recv
    made := fun made hmade => nomatch hmade
    nonces := rfl
    counter := congrArg UInt64.toNat h.nonce
    bytes := (append_nil _).trans h.recvBuf
    contents := fun _ => rfl
    unbroken := rfl }

end InStep

/-- From the end of the handshake on, whenever the cells are sent and the bytes arrive, and whatever
the clocks show: if the schedule of the receiver meets the epoch of each record, no record fails to
decrypt, and the cells received are the cells sent, up to those under way. -/
theorem link_rekey_synchronous {C : AeadCrypto} {sender receiver : Conn} {sendMs recvMs : ℕ}
    {events : List RekeyEvent} {s : RekeyLink} (hstart : HandshakeDone sender receiver)
    (hepochs : Run.Along (RekeyLink.step C) EpochsMeet
      (.start sender receiver sendMs recvMs) events)
    (h : Run.run (RekeyLink.step C) (.start sender receiver sendMs recvMs) events = some s) :
    s.broken = false ∧ (OpensOnlyToPlain C →
      s.sent = s.received ++ s.pending.map fun made => cellUnpack made.plain) := by
  have hinStep : s.InStep C receiver.recv.key :=
    Run.run_invariant (fun _ _ _ hs hevent hstep => hs.step hevent hstep)
      (RekeyLink.inStep_start hstart sendMs recvMs) hepochs h
  exact ⟨hinStep.unbroken, hinStep.contents⟩

/-! ### Schedules that follow the count alone -/

/-- The end that sends or reads does so within half an hour of the start of its epoch. -/
def ClocksWithin (s : RekeyLink) : RekeyEvent → Prop
  | .send nowMs _ => nowMs - s.sender.send.epochStartMs < moorLinkRekeyIntervalMs
  | .recv nowMs _ => nowMs - s.receiver.recv.epochStartMs < moorLinkRekeyIntervalMs

/-- All epochs before the current one have had all of their records, from a first nonce on. -/
structure LinkDirection.ByCount (first : ℕ) (d : LinkDirection) : Prop where
  nonce : d.nonce.toNat = first + d.epoch * moorLinkRekeyRecords + d.epochRecords
  le : d.epochRecords ≤ moorLinkRekeyRecords

section ByCount

variable {C : Crypto} {d : LinkDirection} {first nowMs : ℕ}

theorem LinkDirection.ByCount.maybeRotate (h : d.ByCount first)
    (hclock : nowMs - d.epochStartMs < moorLinkRekeyIntervalMs) :
    (d.maybeRotate C true nowMs).ByCount first ∧
      (d.maybeRotate C true nowMs).epochRecords < moorLinkRekeyRecords := by
  by_cases hroom : d.epochRecords < moorLinkRekeyRecords
  · rw [LinkDirection.maybeRotate, if_neg fun hdue => hdue.2 ⟨hroom, hclock⟩]
    exact ⟨h, hroom⟩
  · rw [LinkDirection.maybeRotate, if_pos ⟨rfl, fun hnot => hroom hnot.1⟩]
    have hfull : d.epochRecords = moorLinkRekeyRecords := le_antisymm h.le (not_lt.mp hroom)
    have hcount : d.nonce.toNat = first + (d.epoch + 1) * moorLinkRekeyRecords + 0 := by
      rw [h.nonce, hfull, succ_mul, add_zero, add_assoc]
    have hpos : 0 < moorLinkRekeyRecords := by decide
    exact ⟨⟨hcount, zero_le _⟩, hpos⟩

theorem LinkDirection.ByCount.record (h : d.ByCount first)
    (hroom : d.epochRecords < moorLinkRekeyRecords) (hne : d.nonce ≠ Layer.uint64Max) :
    ByCount first { d with nonce := d.nonce + 1, epochRecords := d.epochRecords + 1 } :=
  ⟨(toNat_nonce_add_one hne).trans (congrArg (· + 1) h.nonce), hroom⟩

theorem LinkDirection.ByCount.epoch_eq (h : d.ByCount first)
    (hroom : d.epochRecords < moorLinkRekeyRecords) :
    d.epoch = (d.nonce.toNat - first) / moorLinkRekeyRecords := by
  rw [h.nonce, Nat.add_assoc, Nat.add_sub_cancel_left, Nat.add_comm,
    Nat.add_mul_div_right _ _ (by decide), Nat.div_eq_of_lt hroom, Nat.zero_add]

theorem LinkDirection.ByCount.recvFrame {conn : Conn} (h : conn.recv.ByCount first)
    (hdone : conn.pqHandshakeDone = true)
    (hclock : nowMs - conn.recv.epochStartMs < moorLinkRekeyIntervalMs) :
    (Moor.recvFrame C nowMs conn).1.recv.ByCount first := by
  have hrotated := h.maybeRotate (C := C) hclock
  rw [← hdone] at hrotated
  unfold Moor.recvFrame
  split
  · exact h
  split
  · exact h
  split
  · exact h
  split
  · exact h
  rename_i hne
  dsimp only
  split
  · exact hrotated.1
  · exact hrotated.1.record hrotated.2 (by rwa [maybeRotate_nonce])

theorem LinkDirection.ByCount.recvCell {conn : Conn} (h : conn.recv.ByCount first)
    (hdone : conn.pqHandshakeDone = true)
    (hclock : nowMs - conn.recv.epochStartMs < moorLinkRekeyIntervalMs) (incoming : Option Bytes) :
    (conn.recvCell C nowMs incoming).1.recv.ByCount first := by
  unfold Conn.recvCell
  split
  · exact h
  split
  · exact h.recvFrame hdone hclock
  split
  · exact h
  · exact h
  · exact ByCount.recvFrame (by exact h) hdone hclock

end ByCount

/-- The schedules of both ends and the epochs of the records under way follow from the nonces. -/
structure RekeyLink.ByCount (first : ℕ) (s : RekeyLink) : Prop where
  send : s.sender.send.ByCount first
  recv : s.receiver.recv.ByCount first
  made : ∀ made ∈ s.pending, made.epoch = (made.nonce.toNat - first) / moorLinkRekeyRecords

section ByCount

variable {C : AeadCrypto} {key : Field 32} {s s' : RekeyLink} {first nowMs : ℕ}
  {event : RekeyEvent} (hs : s.InStep C key) (h : s.ByCount first)
include hs h

theorem RekeyLink.ByCount.epochsMeet (hclock : ClocksWithin s event) : EpochsMeet s event := by
  cases event with
  | send nowMs cell => exact trivial
  | recv nowMs arrived =>
    intro _ made hmade
    have hrotated := h.recv.maybeRotate (C := C.toCrypto) hclock
    have hepoch := hrotated.1.epoch_eq hrotated.2
    rw [epoch_maybeRotate, maybeRotate_nonce, ← hs.nonce_head hmade,
      ← h.made made (mem_of_mem_head? hmade)] at hepoch
    omega

theorem RekeyLink.ByCount.step (hclock : ClocksWithin s event) (hstep : s.step C event = some s') :
    s'.ByCount first := by
  cases event with
  | send nowMs cell =>
    have hrotated := h.send.maybeRotate (C := C.toCrypto) hclock
    rw [← hs.sendDone] at hrotated
    by_cases hback : nowMs < s.sendClock
    · simp [RekeyLink.step, hback] at hstep
    rw [RekeyLink.step, if_neg hback] at hstep
    cases hstep
    rcases Conn.sendCell_cases C nowMs [.took moorCellWireSize] true cell s.sender with
      ⟨d, state, heffect, hd, -⟩ | ⟨d, made, -, hne, hseal, heffect⟩
    · rw [heffect]
      refine { h with send := ?_, made := by simpa using h.made }
      rcases hd with rfl | rfl
      · exact h.send
      · exact hrotated.1
    · have hlen := length_wireFrame_made hseal
      obtain ⟨rfl, -, hnonce, hepoch, -, -⟩ := encryptRecord_eq_some hseal
      rw [heffect, sendFrame_took (by exact hs.sendRaw) hlen]
      refine { h with
        send := hrotated.1.record hrotated.2 (by rwa [maybeRotate_nonce])
        made := forall_mem_append.mpr ⟨h.made, forall_mem_singleton.mpr ?_⟩ }
      rw [hepoch, hnonce]
      exact hrotated.1.epoch_eq hrotated.2
  | recv nowMs arrived =>
    by_cases hback : nowMs < s.recvClock
    · simp [RekeyLink.step, hback] at hstep
    rw [RekeyLink.step, if_neg hback] at hstep
    cases hstep
    have hrecv := h.recv.recvCell (C := C.toCrypto) hs.recvDone hclock
      (some (s.channel.take (min arrived (recvSpace s.receiver.recvBuf))))
    cases hresult : (s.receiver.recvCell C.toCrypto nowMs
        (some (s.channel.take (min arrived (recvSpace s.receiver.recvBuf))))).2 with
    | nothing | error => exact { h with recv := hrecv }
    | cell cell => exact { h with recv := hrecv, made := fun m hm => h.made m (mem_of_mem_tail hm) }

end ByCount

/-- In every run in which no end lets half an hour of its clock pass in one epoch, the schedules
move on with the count of records alone, and no record fails to decrypt. -/
theorem link_rekey_by_count {C : AeadCrypto} {sender receiver : Conn} {sendMs recvMs : ℕ}
    {events : List RekeyEvent} {s : RekeyLink} (hstart : HandshakeDone sender receiver)
    (hclocks : Run.Along (RekeyLink.step C) ClocksWithin
      (.start sender receiver sendMs recvMs) events)
    (h : Run.run (RekeyLink.step C) (.start sender receiver sendMs recvMs) events = some s) :
    s.broken = false ∧ (OpensOnlyToPlain C →
      s.sent = s.received ++ s.pending.map fun made => cellUnpack made.plain) := by
  have hcounts : (RekeyLink.start sender receiver sendMs recvMs).ByCount
      receiver.recv.nonce.toNat := by
    refine ⟨⟨?_, zero_le _⟩, ⟨?_, zero_le _⟩, fun made hmade => nomatch hmade⟩
    · simp [RekeyLink.start, linkRekeyInit, rekeyInit, hstart.nonce]
    · simp [RekeyLink.start, linkRekeyInit, rekeyInit]
  obtain ⟨hinStep, -⟩ := Run.run_invariant
    (I := fun s => s.InStep C receiver.recv.key ∧ s.ByCount receiver.recv.nonce.toNat)
    (fun _ _ _ hs hclock hstep =>
      ⟨hs.1.step (hs.2.epochsMeet hs.1 hclock) hstep, hs.2.step hs.1 hclock hstep⟩)
    ⟨RekeyLink.inStep_start hstart sendMs recvMs, hcounts⟩ hclocks h
  exact ⟨hinStep.unbroken, hinStep.contents⟩

/-- The ends of a link for evaluation. -/
theorem handshakeDone_sampleConn : HandshakeDone sampleConn sampleConn := by
  constructor <;> rfl

/-- The sender has moved on to the next key after half an hour, and the receiver, whose schedule
started first, has too. The record arrives in two parts. -/
def sampleRekeyEvents : List RekeyEvent :=
  [.send 5 (sampleCell 1), .recv 9 4096, .send 1800010 (sampleCell 2), .recv 1800011 100,
    .recv 1800012 4096]

theorem link_rekey_synchronous_sample :
    ∃ s, Run.run (RekeyLink.step AeadCrypto.sample) (.start sampleConn sampleConn 3 2)
        sampleRekeyEvents = some s ∧
      s.received = [sampleCell 1, sampleCell 2] ∧ s.sender.send.epoch = 1 ∧ s.broken = false ∧
      (OpensOnlyToPlain AeadCrypto.sample →
        s.sent = s.received ++ s.pending.map fun made => cellUnpack made.plain) := by
  obtain ⟨s, hs, hcells, hepoch⟩ : ∃ s, Run.run (RekeyLink.step AeadCrypto.sample)
      (.start sampleConn sampleConn 3 2) sampleRekeyEvents = some s ∧
      s.received = [sampleCell 1, sampleCell 2] ∧ s.sender.send.epoch = 1 := by decide +kernel
  exact ⟨s, hs, hcells, hepoch,
    link_rekey_synchronous handshakeDone_sampleConn (by decide +kernel) hs⟩

/-- The schedule of the receiver started ten milliseconds after that of the sender. A record sent
when the sender has moved on arrives within these ten milliseconds: the receiver has no key for it,
and the link is dead. -/
theorem link_rekey_breaks :
    HandshakeDone sampleConn sampleConn ∧
      ∃ s, Run.run (RekeyLink.step AeadCrypto.sample) (.start sampleConn sampleConn 0 10)
        [.send 1800000 (sampleCell 1), .recv 1800005 4096] = some s ∧ s.broken = true :=
  ⟨handshakeDone_sampleConn, by decide +kernel⟩

end Moor
