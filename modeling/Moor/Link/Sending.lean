import Mathlib.Data.List.Pairwise
import Moor.Link.Connection

/-!
# What a link has encrypted and written

The sending end of a link over a whole run: every use of its keys is logged, in order, and so is
every byte the socket took. The counter of the sending direction never stands still over a use and
never goes back, so no nonce is used twice, whatever becomes of the frames and of the keys. The
bytes on the wire follow the order of the nonces as long as no frame overtakes the output queue.
-/

namespace Moor

open Codec List Socket Conn

/-- The sending end of a link, with the bytes the socket took and the uses of the keys. -/
structure LinkSender where
  conn : Conn
  wire : Bytes
  sealed : List Sealed

/-- What can happen to the sending end of a link. -/
inductive SendEvent
  | sendCell (nowMs : ℕ) (answers : List Socket.Answer) (room : Bool) (cell : Cell)
  | encryptCell (nowMs : ℕ) (cell : Cell)
  | hsEncryptCellRaw (cell : Cell)
  | pqHandshakeFinish (nowMs : ℕ) (kemShared : Field 32)
  | queueFlush (answers : List Socket.Answer)
  /-- The handshake or the event loop moves the connection to another state. -/
  | setState (state : ConnState)

namespace LinkSender

/-- Logs what a call did. -/
def log (s : LinkSender) (e : SendEffect) : LinkSender :=
  ⟨e.conn, s.wire ++ e.written, s.sealed ++ e.sealed⟩

def step (C : AeadCrypto) (s : LinkSender) : SendEvent → Option LinkSender
  | .sendCell nowMs answers room cell => some (s.log (s.conn.sendCell C nowMs answers room cell))
  | .encryptCell nowMs cell => some (s.log (s.conn.encryptCell C nowMs cell))
  | .hsEncryptCellRaw cell => some (s.log (Moor.hsEncryptCellRaw C cell s.conn))
  | .pqHandshakeFinish nowMs kemShared =>
    some { s with conn := Moor.pqHandshakeFinish C.toCrypto nowMs kemShared s.conn }
  | .queueFlush answers =>
    let (written, conn) := Moor.queueFlush answers s.conn
    some { s with conn := conn, wire := s.wire ++ written }
  | .setState state => some { s with conn := { s.conn with state := state } }

end LinkSender

/-! ### Every use of a key has a nonce of its own -/

/-- A call leaves the counter alone, or uses its value once and moves it on by one. -/
def UsesOneNonce (conn : Conn) (e : SendEffect) : Prop :=
  e.sealed = [] ∧ e.conn.send.nonce = conn.send.nonce ∨
    ∃ made, e.sealed = [made] ∧ made.nonce = conn.send.nonce ∧
      e.conn.send.nonce.toNat = conn.send.nonce.toNat + 1

section Nonce

variable {C : AeadCrypto} {conn : Conn} {cell : Cell}

theorem toNat_nonce_add_one {nonce : UInt64} (h : nonce ≠ Layer.uint64Max) :
    (nonce + 1).toNat = nonce.toNat + 1 := by
  have hne : nonce.toNat ≠ 2 ^ 64 - 1 := fun heq => h (UInt64.toNat_inj.mp heq)
  have hlt := nonce.toNat_lt
  rw [UInt64.toNat_add, UInt64.toNat_one]
  omega

variable {made : Sealed}

theorem encryptRecord_eq_some {d d' : LinkDirection}
    (h : encryptRecord C d cell = some (d', made)) :
    d' = { d with nonce := d.nonce + 1 } ∧ made.key = d.key ∧ made.nonce = d.nonce ∧
      made.epoch = d.epoch ∧ made.plain = (cellPack cell).val ∧
      cryptoAeadEncrypt C made.plain [] made.key made.nonce = some made.record := by
  rw [encryptRecord] at h
  cases hseal : cryptoAeadEncrypt C (cellPack cell).val [] d.key d.nonce with
  | none => simp [hseal] at h
  | some record =>
    rw [hseal] at h
    cases h
    exact ⟨rfl, rfl, rfl, rfl, rfl, hseal⟩

@[simp] theorem maybeRotate_nonce (C : Crypto) (pq : Bool) (nowMs : ℕ) (d : LinkDirection) :
    (d.maybeRotate C pq nowMs).nonce = d.nonce := by
  rw [LinkDirection.maybeRotate, apply_ite LinkDirection.nonce]
  exact ite_self _

variable (nowMs : ℕ) (answers : List Socket.Answer) (room : Bool)

theorem sendFrame_conn (wire : Bytes) (conn : Conn) :
    ∃ state outq,
      (sendFrame answers room wire conn).1 = { conn with state := state, outq := outq } := by
  by_cases htransport : conn.transport = true
  · rw [sendFrame, if_pos htransport]
    cases transportSend answers with
    | true => exact ⟨_, _, rfl⟩
    | false => exact ⟨.none, _, rfl⟩
  rw [sendFrame, if_neg htransport]
  by_cases hbroken : (sendAll answers wire).broken = true
  · rw [if_pos hbroken]
    exact ⟨.none, _, rfl⟩
  rw [if_neg hbroken]
  by_cases hrest : (sendAll answers wire).rest = []
  · rw [if_pos hrest]
    exact ⟨_, _, rfl⟩
  rw [if_neg hrest]
  cases room with
  | false => exact ⟨.none, _, rfl⟩
  | true => exact ⟨_, _, rfl⟩

/-- What a call to send a cell does: nothing but a change of the key or the state, or one use of the
key and an offer to the socket. -/
theorem Conn.sendCell_cases (C : AeadCrypto) (nowMs : ℕ) (answers : List Socket.Answer)
    (room : Bool) (cell : Cell) (conn : Conn) :
    (∃ d state, conn.sendCell C nowMs answers room cell =
        ⟨{ conn with send := d, state := state }, [], [], false⟩ ∧
      (d = conn.send ∨ d = conn.send.maybeRotate C.toCrypto conn.pqHandshakeDone nowMs) ∧
      (state = .opened → conn.state = .opened)) ∨
    ∃ d made, conn.state = .opened ∧ conn.send.nonce ≠ Layer.uint64Max ∧
      encryptRecord C (conn.send.maybeRotate C.toCrypto conn.pqHandshakeDone nowMs) cell
        = some (d, made) ∧
      conn.sendCell C nowMs answers room cell =
        .ofFrame made (sendFrame answers room (wireFrame made.record)
          { conn with send := { d with epochRecords := d.epochRecords + 1 } }) := by
  by_cases hopen : conn.state = .opened
  · by_cases hmax : conn.send.nonce = Layer.uint64Max
    · refine .inl ⟨conn.send, .none, ?_, .inl rfl, nofun⟩
      rw [sendCell, if_neg (not_not.mpr hopen), if_pos hmax]
    rw [sendCell, if_neg (not_not.mpr hopen), if_neg hmax]
    cases hseal : encryptRecord C
        (conn.send.maybeRotate C.toCrypto conn.pqHandshakeDone nowMs) cell with
    | none =>
      refine .inl ⟨conn.send.maybeRotate C.toCrypto conn.pqHandshakeDone nowMs, conn.state, ?_,
        .inr rfl, id⟩
      simp only [linkRekeySendMaybeRotate, hseal]
    | some sent =>
      refine .inr ⟨sent.1, sent.2, hopen, hmax, rfl, ?_⟩
      simp only [linkRekeySendMaybeRotate, hseal]
  · refine .inl ⟨conn.send, conn.state, ?_, .inl rfl, id⟩
    rw [sendCell, if_pos hopen]

theorem usesOneNonce_of_encryptRecord {d : LinkDirection} {e : SendEffect} {d₀ : LinkDirection}
    (hne : conn.send.nonce ≠ Layer.uint64Max) (hnonce : d₀.nonce = conn.send.nonce)
    (h : encryptRecord C d₀ cell = some (d, made)) (hsealed : e.sealed = [made])
    (hconn : e.conn.send.nonce = d.nonce) : UsesOneNonce conn e := by
  obtain ⟨rfl, -, hmade, -⟩ := encryptRecord_eq_some h
  refine .inr ⟨made, hsealed, hmade.trans hnonce, ?_⟩
  rw [hconn, hnonce, toNat_nonce_add_one hne]

theorem sendCell_usesOneNonce : UsesOneNonce conn (conn.sendCell C nowMs answers room cell) := by
  rcases sendCell_cases C nowMs answers room cell conn with
    ⟨d, state, h, rfl | rfl, -⟩ | ⟨d, made, -, hne, hseal, h⟩
  · rw [h]
    exact .inl ⟨rfl, rfl⟩
  · rw [h]
    exact .inl ⟨rfl, maybeRotate_nonce ..⟩
  · obtain ⟨state, outq, hconn⟩ := sendFrame_conn answers room (wireFrame made.record)
      { conn with send := { d with epochRecords := d.epochRecords + 1 } }
    rw [h]
    refine usesOneNonce_of_encryptRecord hne (maybeRotate_nonce ..) hseal rfl ?_
    rw [SendEffect.ofFrame, hconn]

theorem encryptCell_usesOneNonce : UsesOneNonce conn (conn.encryptCell C nowMs cell) := by
  by_cases hopen : conn.state = .opened
  · by_cases hmax : conn.send.nonce = Layer.uint64Max
    · rw [encryptCell, if_neg (not_not.mpr hopen), if_pos hmax]
      exact .inl ⟨rfl, rfl⟩
    rw [encryptCell, if_neg (not_not.mpr hopen), if_neg hmax]
    cases hseal : encryptRecord C
        (conn.send.maybeRotate C.toCrypto conn.pqHandshakeDone nowMs) cell with
    | none =>
      simp only [linkRekeySendMaybeRotate, hseal]
      exact .inl ⟨rfl, maybeRotate_nonce ..⟩
    | some sent =>
      simp only [linkRekeySendMaybeRotate, hseal]
      exact usesOneNonce_of_encryptRecord hmax (maybeRotate_nonce ..) hseal rfl rfl
  · rw [encryptCell, if_pos hopen]
    exact .inl ⟨rfl, rfl⟩

theorem hsEncryptCellRaw_usesOneNonce : UsesOneNonce conn (hsEncryptCellRaw C cell conn) := by
  by_cases hmax : conn.send.nonce = Layer.uint64Max
  · rw [hsEncryptCellRaw, if_pos hmax]
    exact .inl ⟨rfl, rfl⟩
  rw [hsEncryptCellRaw, if_neg hmax]
  cases hseal : encryptRecord C conn.send cell with
  | none => exact .inl ⟨rfl, rfl⟩
  | some sent => exact usesOneNonce_of_encryptRecord hmax rfl hseal rfl rfl

end Nonce

/-- The nonces used so far increase, and the counter is beyond all of them. -/
structure LinkSender.NonceOrder (s : LinkSender) : Prop where
  increasing : s.sealed.Pairwise fun a b => a.nonce.toNat < b.nonce.toNat
  lt_counter : ∀ a ∈ s.sealed, a.nonce.toNat < s.conn.send.nonce.toNat

section NonceOrder

variable {C : AeadCrypto} {s : LinkSender}

theorem LinkSender.NonceOrder.log (hs : s.NonceOrder) {e : SendEffect}
    (h : UsesOneNonce s.conn e) : (s.log e).NonceOrder := by
  rcases h with ⟨hsealed, hnonce⟩ | ⟨made, hsealed, hmade, hnonce⟩
  · constructor
    · rw [LinkSender.log, hsealed, append_nil]
      exact hs.increasing
    · rw [LinkSender.log, hsealed, append_nil, hnonce]
      exact hs.lt_counter
  constructor
  · rw [LinkSender.log, hsealed]
    refine pairwise_append.mpr ⟨hs.increasing, pairwise_singleton .., ?_⟩
    intro a ha b hb
    rw [mem_singleton.mp hb, hmade]
    exact hs.lt_counter a ha
  intro a ha
  rw [LinkSender.log, hsealed] at ha
  rw [LinkSender.log, hnonce]
  rcases mem_append.mp ha with ha | ha
  · have := hs.lt_counter a ha
    omega
  · rw [mem_singleton.mp ha, hmade]
    omega

variable {s' : LinkSender}

/-- Neither the key nor the state of a connection matters to the order of the nonces. -/
theorem LinkSender.NonceOrder.congr (hs : s.NonceOrder) (hsealed : s'.sealed = s.sealed)
    (hnonce : s'.conn.send.nonce = s.conn.send.nonce) : s'.NonceOrder := by
  constructor
  · rw [hsealed]
    exact hs.increasing
  · rw [hsealed, hnonce]
    exact hs.lt_counter

theorem LinkSender.NonceOrder.step (hs : s.NonceOrder) {event : SendEvent}
    (h : s.step C event = some s') : s'.NonceOrder := by
  cases event with
  | sendCell nowMs answers room cell =>
    cases h
    exact hs.log (sendCell_usesOneNonce nowMs answers room)
  | encryptCell nowMs cell =>
    cases h
    exact hs.log (encryptCell_usesOneNonce nowMs)
  | hsEncryptCellRaw cell =>
    cases h
    exact hs.log hsEncryptCellRaw_usesOneNonce
  | pqHandshakeFinish nowMs kemShared | queueFlush answers | setState state =>
    cases h
    exact hs.congr rfl rfl

/-- In every run of a link, the nonces used under any keys increase. -/
theorem LinkSender.nonceOrder_of_run {conn : Conn} {events : List SendEvent}
    (h : Run.run (LinkSender.step C) ⟨conn, [], []⟩ events = some s) : s.NonceOrder :=
  Run.run_invariant (P := fun _ _ => True) (fun _ _ _ hs _ hstep => hs.step hstep)
    ⟨List.Pairwise.nil, by simp⟩ (Run.along_of_forall (fun _ _ _ => trivial) _) h

end NonceOrder

/-- No key and nonce are used to encrypt two different plaintexts, whatever cells are sent by
whichever call, whatever the socket answers, and however the keys change. -/
theorem link_nonce_unique {C : AeadCrypto} {conn : Conn} {events : List SendEvent} {s : LinkSender}
    (h : Run.run (LinkSender.step C) ⟨conn, [], []⟩ events = some s) :
    ∀ a ∈ s.sealed, ∀ b ∈ s.sealed, a.key = b.key → a.nonce = b.nonce → a.plain = b.plain := by
  let Same : Sealed → Sealed → Prop := fun a b => a.nonce = b.nonce → a.plain = b.plain
  have hsymm : Std.Symm Same := ⟨fun a b hab hnonce => (hab hnonce.symm).symm⟩
  have hpairs : s.sealed.Pairwise Same :=
    (LinkSender.nonceOrder_of_run h).increasing.imp fun hlt hnonce =>
      absurd (congrArg UInt64.toNat hnonce) hlt.ne
  intro a ha b hb _
  exact hpairs.forall_of_forall (fun _ _ _ => rfl) ha hb

/-- An open connection with nothing in its queue, for evaluation. -/
def sampleConn : Conn :=
  let direction : LinkDirection :=
    ⟨Arr.replicate 32 7, 0, 0, 0, 0, Arr.replicate 32 7, Field.zero 32, false⟩
  ⟨.opened, Field.zero 32, false, true, direction, direction, [], [], 0⟩

/-- A cell whose bytes are all the same, for evaluation. -/
def sampleCell (b : UInt8) : Cell := ⟨0, b, Arr.replicate 509 b⟩

/-- Cells are encrypted by all three calls, before and after the keys change; the socket takes a
part, breaks, or takes nothing. -/
def sampleSends : List SendEvent :=
  [.setState .pqSending, .hsEncryptCellRaw (sampleCell 1), .pqHandshakeFinish 5 (Field.zero 32),
    .encryptCell 6 (sampleCell 2), .sendCell 7 [.took 10, .again] true (sampleCell 3),
    .queueFlush [.took 20], .sendCell 1800007 [.failed] true (sampleCell 4)]

theorem link_nonce_unique_sampleSends :
    ∃ s, Run.run (LinkSender.step AeadCrypto.sample) ⟨sampleConn, [], []⟩ sampleSends = some s ∧
      s.sealed.length = 4 ∧
      ∀ a ∈ s.sealed, ∀ b ∈ s.sealed, a.key = b.key → a.nonce = b.nonce → a.plain = b.plain :=
  Run.exists_some_and (by decide +kernel) fun _ hs => link_nonce_unique hs

/-! ### The order of the bytes on the wire -/

/-- The frames made so far, one after the other. -/
def LinkSender.frames (s : LinkSender) : Bytes :=
  (s.sealed.map fun made => wireFrame made.record).flatten

/-- The output queue of a connection, with what is written of its first item. -/
def Conn.queue (conn : Conn) : Socket.Queue UInt8 := ⟨conn.outq, conn.writeOff⟩

/-- A cell is sent, or the socket can be written to. -/
def SendEvent.OnWire : SendEvent → Prop
  | .sendCell .. => True
  | .queueFlush .. => True
  | _ => False

instance : DecidablePred SendEvent.OnWire := fun e => by
  cases e <;> unfold SendEvent.OnWire <;> infer_instance

/-- A cell that is sent does not overtake the output queue: the queue is empty, or the socket
refuses. -/
def NoOvertaking (s : LinkSender) : SendEvent → Prop
  | .sendCell _ answers _ _ => s.conn.outq = [] ∨ Socket.Refuses answers
  | _ => True

instance (s : LinkSender) : DecidablePred (NoOvertaking s) := fun e => by
  cases e <;> unfold NoOvertaking <;> infer_instance

/-- What is written and what waits in the queue are the frames in their order, up to what is lost
when the connection dies. -/
structure LinkSender.WireOrder (s : LinkSender) : Prop where
  raw : s.conn.transport = false
  valid : s.conn.queue.Valid
  wire : ∃ lost, s.frames = s.wire ++ s.conn.queue.pending ++ lost ∧
    (s.conn.state = .opened → lost = [])

section WireOrder

variable {C : AeadCrypto} {s : LinkSender}

variable {cell : Cell} {answers : List Socket.Answer}

theorem length_wireFrame_made {d d' : LinkDirection} {made : Sealed}
    (h : encryptRecord C d cell = some (d', made)) :
    (wireFrame made.record).length = moorCellWireSize := by
  obtain ⟨-, -, -, -, hplain, hseal⟩ := encryptRecord_eq_some h
  rw [length_wireFrame, C.length_aeadEncrypt hseal, hplain, Arr.length_val, moorCellWireSize]

/-- A frame offered on a raw connection goes behind the queue, and nothing of it is lost while the
connection lives. -/
theorem sendFrame_pending (conn : Conn) (room : Bool) {wire : Bytes}
    (htransport : conn.transport = false) (hvalid : conn.queue.Valid)
    (hlen : wire.length = moorCellWireSize) (horder : conn.outq = [] ∨ Socket.Refuses answers) :
    let r := sendFrame answers room wire conn
    r.1.queue.Valid ∧ ∃ lost, conn.queue.pending ++ wire = r.2.1 ++ r.1.queue.pending ++ lost ∧
      (r.1.state = .opened → lost = []) := by
  have hsplit := sendAll_taken_append_rest answers wire
  have hcomm : conn.queue.pending ++ (sendAll answers wire).taken
      = (sendAll answers wire).taken ++ conn.queue.pending := by
    rcases horder with hempty | hrefuses
    · simp [Socket.Queue.pending, queue, hempty]
    · simp [sendAll_taken_of_refuses hrefuses]
  have hwire : conn.queue.pending ++ wire = (sendAll answers wire).taken ++
      conn.queue.pending ++ (sendAll answers wire).rest := by
    simp [← hcomm, hsplit]
  by_cases hbroken : (sendAll answers wire).broken = true
  · simp only [sendFrame, htransport, Bool.false_eq_true, if_false, if_pos hbroken]
    exact ⟨hvalid, _, hwire, fun hopen => absurd hopen (by decide)⟩
  by_cases hrest : (sendAll answers wire).rest = []
  · simp only [sendFrame, htransport, Bool.false_eq_true, if_false, if_neg hbroken, if_pos hrest]
    exact ⟨hvalid, [], by rw [hwire, hrest], fun _ => rfl⟩
  simp only [sendFrame, htransport, Bool.false_eq_true, if_false, if_neg hbroken, if_neg hrest]
  cases room with
  | false =>
    simp only [queuePush, Bool.false_eq_true, if_false]
    exact ⟨hvalid, _, hwire, fun hopen => absurd hopen (by decide)⟩
  | true =>
    have htake : (sendAll answers wire).rest.take moorCellWireSize
        = (sendAll answers wire).rest := by
      refine take_of_length_le ?_
      have := congrArg length hsplit
      rw [length_append] at this
      omega
    simp only [queuePush, if_true, htake]
    refine ⟨hvalid.push hrest, [], ?_, fun _ => rfl⟩
    rw [append_nil, hwire, append_assoc]
    exact congrArg _ (Socket.Queue.pending_push hvalid _).symm

theorem LinkSender.frames_log (s : LinkSender) (e : SendEffect) (made : Sealed)
    (h : e.sealed = [made]) : (s.log e).frames = s.frames ++ wireFrame made.record := by
  simp [LinkSender.frames, LinkSender.log, h]

theorem LinkSender.WireOrder.sendCell (hs : s.WireOrder) {nowMs : ℕ} {room : Bool}
    (horder : s.conn.outq = [] ∨ Socket.Refuses answers) :
    (s.log (s.conn.sendCell C nowMs answers room cell)).WireOrder := by
  obtain ⟨lost, hwire, hlost⟩ := hs.wire
  rcases sendCell_cases C nowMs answers room cell s.conn with
    ⟨d, state, h, -, hstate⟩ | ⟨d, made, hopen, -, hseal, h⟩
  · rw [h]
    refine ⟨hs.raw, hs.valid, lost, ?_, fun hopen => hlost (hstate hopen)⟩
    simpa [LinkSender.log, LinkSender.frames, queue] using hwire
  -- the connection was open, so nothing had been lost before this frame
  rw [hlost hopen, append_nil] at hwire
  obtain ⟨state, outq, hconn⟩ := sendFrame_conn answers room (wireFrame made.record)
    { s.conn with send := { d with epochRecords := d.epochRecords + 1 } }
  obtain ⟨hvalid, lost', hpend, hlost'⟩ := sendFrame_pending
    { s.conn with send := { d with epochRecords := d.epochRecords + 1 } } room hs.raw
    hs.valid (length_wireFrame_made hseal) horder
  rw [h]
  refine ⟨?_, hvalid, lost', ?_, hlost'⟩
  · rw [LinkSender.log, SendEffect.ofFrame, hconn]
    exact hs.raw
  · rw [LinkSender.frames_log s _ made rfl, hwire, append_assoc]
    refine (congrArg (s.wire ++ ·) hpend).trans ?_
    simp [LinkSender.log, SendEffect.ofFrame]

theorem LinkSender.WireOrder.step (hs : s.WireOrder) {event : SendEvent} {s' : LinkSender}
    (honWire : event.OnWire) (horder : NoOvertaking s event) (h : s.step C event = some s') :
    s'.WireOrder := by
  cases event with
  | sendCell nowMs answers room cell =>
    cases h
    exact hs.sendCell horder
  | queueFlush answers =>
    cases h
    obtain ⟨lost, hwire, hlost⟩ := hs.wire
    obtain ⟨hpend, hvalid⟩ := Socket.Queue.flush_spec answers hs.valid
    refine ⟨hs.raw, hvalid, lost, ?_, hlost⟩
    refine hwire.trans (congrArg (· ++ lost) ?_)
    rw [append_assoc]
    exact congrArg (s.wire ++ ·) hpend.symm
  | encryptCell => exact honWire.elim
  | hsEncryptCellRaw => exact honWire.elim
  | pqHandshakeFinish => exact honWire.elim
  | setState => exact honWire.elim

theorem LinkSender.wireOrder_start {conn : Conn} (htransport : conn.transport = false)
    (houtq : conn.outq = []) (hoff : conn.writeOff = 0) :
    LinkSender.WireOrder ⟨conn, [], []⟩ := by
  refine ⟨htransport, ?_, [], ?_, fun _ => rfl⟩
  · rw [queue, houtq, hoff]
    exact Socket.Queue.valid_empty
  · simp [LinkSender.frames, queue, Socket.Queue.pending, houtq]

end WireOrder

/-- On a raw connection whose cells never overtake the output queue, the bytes on the wire are a
prefix of the frames in the order of their nonces, whatever the socket takes. -/
theorem link_wire_isPrefix_frames {C : AeadCrypto} {conn : Conn} {events : List SendEvent}
    {s : LinkSender} (htransport : conn.transport = false) (houtq : conn.outq = [])
    (hoff : conn.writeOff = 0) (honWire : ∀ event ∈ events, event.OnWire)
    (horder : Run.Along (LinkSender.step C) NoOvertaking ⟨conn, [], []⟩ events)
    (h : Run.run (LinkSender.step C) ⟨conn, [], []⟩ events = some s) :
    s.wire <+: s.frames ∧ s.sealed.Pairwise fun a b => a.nonce.toNat < b.nonce.toNat := by
  have hwireOrder : s.WireOrder :=
    Run.run_invariant (fun _ _ _ hs hevent hstep => hs.step hevent.1 hevent.2 hstep)
      (LinkSender.wireOrder_start htransport houtq hoff) (horder.and_of_forall_mem honWire) h
  obtain ⟨lost, hwire, -⟩ := hwireOrder.wire
  refine ⟨?_, (LinkSender.nonceOrder_of_run h).increasing⟩
  rw [hwire, append_assoc]
  exact prefix_append ..

/-- The socket takes a part of the first cell; the second waits behind the rest, and both are
written later. -/
def sampleWrites : List SendEvent :=
  [.sendCell 1 [.took 10, .again] true (sampleCell 1), .sendCell 2 [.again] true (sampleCell 2),
    .queueFlush [.took 600, .took 30], .queueFlush [.took 600]]

theorem link_wire_isPrefix_frames_sampleWrites :
    ∃ s, Run.run (LinkSender.step AeadCrypto.sample) ⟨sampleConn, [], []⟩ sampleWrites = some s ∧
      s.wire.length = 2 * moorCellWireSize ∧ s.wire <+: s.frames ∧
      s.sealed.Pairwise fun a b => a.nonce.toNat < b.nonce.toNat :=
  Run.exists_some_and (by decide +kernel) fun _ hs =>
    link_wire_isPrefix_frames rfl rfl rfl (by decide) (by decide +kernel) hs

/-- The socket refuses the first cell, which is queued, and takes the second at once: the second
frame is on the wire before the first. -/
theorem link_wire_overtakes_queue :
    ∃ s, Run.run (LinkSender.step AeadCrypto.sample) ⟨sampleConn, [], []⟩
        [.sendCell 1 [.again] true (sampleCell 1), .sendCell 2 [.took 532] true (sampleCell 2)]
        = some s ∧ ¬s.wire <+: s.frames := by decide +kernel

end Moor
