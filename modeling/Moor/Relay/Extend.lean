import Moor.Circuit.Onion
import Moor.Fragment
import Moor.Node.Wire
import Moor.Relay.ExitConnect

/-!
# Extending a circuit at a relay

A client asks the last relay of its circuit to extend it: by a RELAY_EXTEND, with typed link
specifiers by a RELAY_EXTEND2, or by a RELAY_EXTEND_PQ, which may also come in fragments. A relay
that accepts starts an attempt: it sends a CREATE over a channel that is open, or dispatches a
worker. Requests have to come in cells of the kind RELAY_EARLY, of which a circuit takes eight,
and the relay does not extend to itself; the copy of the checks behind the reassembly of fragments
has neither of these.

## Main results

* `extends_only_early`: over runs without fragmented requests the attempts are as they should be.
-/

namespace Moor

open Codec Option

def relayExtend : UInt8 := 6
def moorMaxRelayEarly : ℕ := 8
def moorMaxPqExtendInflight : ℕ := 4
def extendMaxThreads : ℕ := 16
def moorCircCellQueueMax : ℕ := 2500
def moorLsIpv4 : UInt8 := 0
def moorLsIpv6 : UInt8 := 1
def moorLsIdentity : UInt8 := 2

/-! ### Requests -/

/-- What a request to extend asks for. -/
structure ExtendRequest where
  nextAddr : Bytes
  nextPort : UInt16
  nextIdentityPk : Field 32
  clientEphPk : Field 32
  pq : Bool
  deriving DecidableEq

/-- The layout that RELAY_EXTEND and RELAY_EXTEND_PQ share. -/
def parseExtend (pq : Bool) (data : Bytes) : Option ExtendRequest :=
  if data.length < 130 then none
  else
    some {
      nextAddr := cString (Arr.ofList 63 0 data)
      nextPort := UInt16.ofNat (beDecode ((data.drop 64).take 2))
      nextIdentityPk := Arr.ofList 32 0 (data.drop 66)
      clientEphPk := Arr.ofList 32 0 (data.drop 98)
      pq := pq }

variable (ntop6 : Ipv6 → Bytes) (consensus : Option (List NodeDescriptor))

/-- The address and the port of a relay in the consensus, for a request that leaves them out. -/
def resolveByConsensus (req : ExtendRequest) : ExtendRequest :=
  match (consensus.getD []).find? fun desc => desc.identityPk = req.nextIdentityPk with
  | none => req
  | some desc =>
    { req with nextAddr := cString (Arr.ofList 63 0 desc.address.val), nextPort := desc.orPort }

/-- What was read of the link specifiers, and the position after them. -/
structure LinkSpecs where
  nextAddr : Bytes
  nextPort : UInt16
  haveAddr : Bool
  identity : Option (Field 32)
  pos : ℕ

/-- One link specifier; those that are not known are passed over. -/
def LinkSpecs.take (lsType : UInt8) (body : Bytes) (specs : LinkSpecs) : LinkSpecs :=
  if lsType = moorLsIpv4 ∧ body.length = 6 then
    { specs with
      nextAddr := dottedQuad (body.getD 0 0) (body.getD 1 0) (body.getD 2 0) (body.getD 3 0)
      nextPort := UInt16.ofNat (beDecode (body.drop 4))
      haveAddr := true }
  else if lsType = moorLsIpv6 ∧ body.length = 18 then
    { specs with
      nextAddr := ntop6 (Arr.ofList 16 0 body)
      nextPort := UInt16.ofNat (beDecode (body.drop 16))
      haveAddr := true }
  else if lsType = moorLsIdentity ∧ body.length = 32 then
    { specs with identity := some (Arr.ofList 32 0 body) }
  else specs

/-- Reads link specifiers until they are all read or one does not fit. -/
def readLinkSpecs (ntop6 : Ipv6 → Bytes) (data : Bytes) : ℕ → LinkSpecs → LinkSpecs
  | 0, specs => specs
  | n + 1, specs =>
    if data.length < specs.pos + 2 then specs
    else
      let lsLen := (data.getD (specs.pos + 1) 0).toNat
      let pos := specs.pos + 2
      if data.length < pos + lsLen then { specs with pos := pos }
      else
        let specs' := specs.take ntop6 (data.getD specs.pos 0) ((data.drop pos).take lsLen)
        readLinkSpecs ntop6 data n { specs' with pos := pos + lsLen }

/-- The request of a RELAY_EXTEND2. An address that is missing or starts with `0.0.` is looked up
in the consensus. -/
def parseExtend2 (data : Bytes) : Option ExtendRequest :=
  if data.length < 3 then none
  else
    let specs := readLinkSpecs ntop6 data (data.getD 0 0).toNat ⟨[], 0, false, none, 1⟩
    match specs.identity with
    | none => none
    | some identity =>
      if data.length < specs.pos + 32 then none
      else
        let req : ExtendRequest :=
          ⟨specs.nextAddr, specs.nextPort, identity, Arr.ofList 32 0 (data.drop specs.pos), false⟩
        let missing := !specs.haveAddr || specs.nextAddr.take 4 == ascii "0.0."
        let known := (consensus.getD []).any fun desc => desc.identityPk = identity
        let req := if missing then resolveByConsensus consensus req else req
        if (!specs.haveAddr ∧ ¬(missing ∧ known)) ∨ req.nextPort = 0 then none else some req

/-! ### A circuit -/

/-- An attempt to extend: the commands of the cells that asked for it, and the identity of the
relay it goes to. -/
structure ExtendAttempt where
  commands : List UInt8
  target : Field 32
  deriving DecidableEq

/-- What the handlers read and write of a circuit; with the commands of the cells that brought the
fragments in the slots, and the attempts that were started. -/
structure ExtendCircuit where
  forward : Layer
  relayEarlyCount : ℕ
  extendPending : Bool
  reassembly : List Reassembly
  rpJoined : Bool
  nextOpen : Bool
  marked : Bool
  fragmentCommands : UInt16 → List UInt8
  attempts : List ExtendAttempt

/-- What the rest of the relay contributes: the time, its consensus, the texts of IPv6 addresses,
the open channels, whether sending, allocating and starting a thread succeed, how many workers and
PQ extensions are under way, how many cells are queued, and whether one more can be. -/
structure ExtendEnv where
  now : ℕ
  consensus : Option (List NodeDescriptor)
  ntop6 : Ipv6 → Bytes
  channelOpen : Field 32 → Bool
  sendOk : Bool
  allocOk : Bool
  threadOk : Bool
  extendThreads : ℕ
  pqInflight : ℕ
  queueDepth : ℕ
  queueOk : Bool

namespace ExtendCircuit

variable (C : Crypto) (I : Inet) (own : Field 32)

/-- A circuit that has just been created. -/
def init (forward : Layer) : ExtendCircuit :=
  ⟨forward, 0, false, moorReassemblyInit, false, false, false, fun _ => [], []⟩

variable (env : ExtendEnv) (commands : List UInt8) (req : ExtendRequest) (command : UInt8)
  (data : Bytes) (circ : ExtendCircuit)

def attempt : ExtendCircuit :=
  { circ with
    extendPending := true
    attempts := circ.attempts ++ [⟨commands, req.nextIdentityPk⟩] }

/-- Sends a CREATE over an open channel to the next relay, or dispatches a worker. -/
def startExtend : ExtendCircuit :=
  if env.channelOpen req.nextIdentityPk then
    if env.sendOk then { circ.attempt commands req with nextOpen := true } else circ
  else if !env.allocOk then circ
  else if extendMaxThreads ≤ env.extendThreads ∨ !env.threadOk then
    { circ with extendPending := false }
  else circ.attempt commands req

/-- Requests have to come in a RELAY_EARLY, and are counted. -/
def takeEarly : Option ExtendCircuit :=
  if command ≠ cellRelayEarlyCmd then none
  else if moorMaxRelayEarly ≤ circ.relayEarlyCount then none
  else some { circ with relayEarlyCount := circ.relayEarlyCount + 1 }

/-- The checks on the target that the handlers of whole cells share. -/
def checkAndStart : ExtendCircuit :=
  if req.nextIdentityPk = own then circ
  else if isPrivateAddress I req.nextAddr then circ
  else circ.startExtend env commands req

def handleExtend : ExtendCircuit :=
  match circ.takeEarly command with
  | none => circ
  | some circ =>
    match parseExtend false data with
    | none => circ
    | some req =>
      if circ.extendPending then circ
      else
        let req := if data.take 64 = List.replicate 64 0 then resolveByConsensus env.consensus req
          else req
        circ.checkAndStart I own env [command] req

def handleExtend2 : ExtendCircuit :=
  match circ.takeEarly command with
  | none => circ
  | some circ =>
    if circ.extendPending then circ
    else
      match parseExtend2 env.ntop6 env.consensus data with
      | none => circ
      | some req => circ.checkAndStart I own env [command] req

def handleExtendPq : ExtendCircuit :=
  match circ.takeEarly command with
  | none => circ
  | some circ =>
    if moorMaxPqExtendInflight ≤ env.pqInflight then circ
    else
      match parseExtend true data with
      | none => circ
      | some req => circ.checkAndStart I own env [command] req

/-- A RELAY_EXTEND_PQ that was put together from fragments has checks of its own: neither the kind
of its cells nor the count nor the relay's own identity is looked at. -/
def handleReassembledPq : ExtendCircuit :=
  if moorMaxPqExtendInflight ≤ env.pqInflight then circ
  else
    match parseExtend true data with
    | none => circ
    | some req =>
      if isPrivateAddress I req.nextAddr then circ else circ.startExtend env commands req

/-- A fragment is put into its slot. The commands of the cells are kept for each identifier, from
the fragment that opened the slot on. -/
def handleFragment (relay : RelayPayload) (circ : ExtendCircuit) : ExtendCircuit :=
  let received := moorFragmentReceive env.now circ.reassembly relay.data relay.streamId
    relay.relayCommand
  let id := (fragmentHeader relay.data).fragmentId
  let known := (expireSlots env.now circ.reassembly).any fun slot =>
    slot.active && slot.fragmentId == id
  let commands := (if known then circ.fragmentCommands id else []) ++ [command]
  let circ := { circ with reassembly := received.1 }
  match received.2 with
  | .error => circ
  | .more => { circ with fragmentCommands := Function.update circ.fragmentCommands id commands }
  | .complete cmd data =>
    if cmd = relayExtendPq then circ.handleReassembledPq I env commands data else circ

/-- A cell for this relay. The commands that do not extend the circuit are left out. -/
def dispatch (relay : RelayPayload) (circ : ExtendCircuit) : ExtendCircuit :=
  if relay.relayCommand = relayExtend then circ.handleExtend I own env command relay.data
  else if relay.relayCommand = relayExtend2 then circ.handleExtend2 I own env command relay.data
  else if relay.relayCommand = relayExtendPq then circ.handleExtendPq I own env command relay.data
  else if relay.relayCommand = relayFragment ∨ relay.relayCommand = relayFragmentEnd then
    circ.handleFragment I env command relay
  else circ

/-- A cell for a relay behind this one. Those of the kind RELAY_EARLY are counted. -/
def forwardCell : ExtendCircuit :=
  if moorCircCellQueueMax < env.queueDepth then { circ with marked := true }
  else if !circ.nextOpen then circ
  else if command = cellRelayEarlyCmd ∧ moorMaxRelayEarly ≤ circ.relayEarlyCount then circ
  else
    let circ := if command = cellRelayEarlyCmd then
      { circ with relayEarlyCount := circ.relayEarlyCount + 1 } else circ
    { circ with marked := circ.marked || !env.queueOk }

/-- A relay cell from the client. What is recognised on a circuit that was joined with another by
a rendezvous goes to that one. -/
def handleRelay (payload : Payload) (circ : ExtendCircuit) : ExtendCircuit :=
  let (forward, out) := relayHandleForward C circ.forward payload
  let circ := { circ with forward := forward }
  match out with
  | .inr payload =>
    if circ.rpJoined then circ else circ.dispatch I own env command (relayUnpack payload)
  | .inl _ => circ.forwardCell env command

/-- What happens to a circuit: a RELAY or RELAY_EARLY cell from the client; what the rest of the
relay does to it, which ends attempts, opens and closes the connection to the next relay and joins
circuits; and its end, after which no cell finds it. -/
inductive Event
  | cell (env : ExtendEnv) (command : UInt8) (payload : Payload)
  | settle (extendPending nextOpen rpJoined : Bool)
  | close

def step : Event → Option ExtendCircuit
  | .cell env command payload =>
    if circ.marked ∨ (command ≠ cellRelayCmd ∧ command ≠ cellRelayEarlyCmd) then some circ
    else some (circ.handleRelay C I own env command payload)
  | .settle extendPending nextOpen rpJoined =>
    some { circ with extendPending := extendPending, nextOpen := nextOpen, rpJoined := rpJoined }
  | .close => some { circ with marked := true }

/-! ### What a cell can do -/

def endsExtendPq (relay : RelayPayload) : Bool :=
  decide (relay.relayCommand = relayFragmentEnd) &&
    decide ((fragmentHeader relay.data).innerCmd = relayExtendPq)

/-- The condition on an event: a cell that the relay recognises does not end a fragmented
RELAY_EXTEND_PQ. -/
def sendsWhole : Event → Bool
  | .cell _ _ payload =>
    match (relayHandleForward C circ.forward payload).2 with
    | .inr payload => !endsExtendPq (relayUnpack payload)
    | .inl _ => true
  | _ => true

variable {C I own}

/-- At most one attempt is started, by a command and not to the relay itself. -/
def Starts (own : Field 32) (command : UInt8) (circ circ' : ExtendCircuit) : Prop :=
  circ'.relayEarlyCount = circ.relayEarlyCount ∧
    (circ'.attempts = circ.attempts ∨
      ∃ target ≠ own, circ'.attempts = circ.attempts ++ [⟨[command], target⟩])

/-- The count and the attempts stay as they are, or a RELAY_EARLY was counted and at most one
attempt was started by it. -/
def Advances (own : Field 32) (circ circ' : ExtendCircuit) : Prop :=
  (circ'.relayEarlyCount = circ.relayEarlyCount ∧ circ'.attempts = circ.attempts) ∨
    (circ.relayEarlyCount < moorMaxRelayEarly ∧
      Starts own cellRelayEarlyCmd { circ with relayEarlyCount := circ.relayEarlyCount + 1 } circ')

variable (env : ExtendEnv) {command : UInt8} {circ : ExtendCircuit} {relay : RelayPayload}

theorem Starts.refl : Starts own command circ circ := ⟨rfl, .inl rfl⟩

theorem Advances.refl : Advances own circ circ := .inl ⟨rfl, rfl⟩

theorem starts_startExtend {req : ExtendRequest} (hreq : req.nextIdentityPk ≠ own) :
    Starts own command circ (circ.startExtend env [command] req) := by
  have hattempt : ∃ target ≠ own,
      circ.attempts ++ [⟨[command], req.nextIdentityPk⟩] = circ.attempts ++ [⟨[command], target⟩] :=
    ⟨req.nextIdentityPk, hreq, rfl⟩
  rw [startExtend]
  split_ifs
  · exact ⟨rfl, .inr hattempt⟩
  · exact .refl
  · exact .refl
  · exact ⟨rfl, .inl rfl⟩
  · exact ⟨rfl, .inr hattempt⟩

theorem starts_checkAndStart (req : ExtendRequest) :
    Starts own command circ (circ.checkAndStart I own env [command] req) := by
  rw [checkAndStart]
  split_ifs with hown
  · exact .refl
  · exact .refl
  · exact starts_startExtend env hown

/-- A request that was counted as a RELAY_EARLY advances the circuit by what it starts. -/
theorem advances_of_takeEarly {circ₁ circ' : ExtendCircuit}
    (h : circ.takeEarly command = some circ₁) (hstarts : Starts own command circ₁ circ') :
    Advances own circ circ' := by
  rw [takeEarly, ite_none_left_eq_some, ite_none_left_eq_some, not_not, not_le] at h
  obtain ⟨rfl, hlt, h⟩ := h
  rw [← some.inj h] at hstarts
  exact .inr ⟨hlt, hstarts⟩

theorem advances_handleExtend (data : Bytes) :
    Advances own circ (circ.handleExtend I own env command data) := by
  rw [handleExtend]
  split
  · exact .refl
  rename_i circ₁ hearly
  apply advances_of_takeEarly hearly
  split
  · exact .refl
  split_ifs
  · exact .refl
  · exact starts_checkAndStart env _
  · exact starts_checkAndStart env _

theorem advances_handleExtend2 (data : Bytes) :
    Advances own circ (circ.handleExtend2 I own env command data) := by
  rw [handleExtend2]
  split
  · exact .refl
  rename_i circ₁ hearly
  apply advances_of_takeEarly hearly
  split_ifs
  · exact .refl
  · split
    · exact .refl
    · exact starts_checkAndStart env _

theorem advances_handleExtendPq (data : Bytes) :
    Advances own circ (circ.handleExtendPq I own env command data) := by
  rw [handleExtendPq]
  split
  · exact .refl
  rename_i circ₁ hearly
  apply advances_of_takeEarly hearly
  split_ifs
  · exact .refl
  · split
    · exact .refl
    · exact starts_checkAndStart env _

/-- A fragment that does not end a RELAY_EXTEND_PQ starts nothing. -/
theorem advances_handleFragment (hrelay : endsExtendPq relay = false) :
    Advances own circ (circ.handleFragment I env command relay) := by
  simp only [handleFragment]
  split
  · exact .inl ⟨rfl, rfl⟩
  · exact .inl ⟨rfl, rfl⟩
  rename_i cmd data hcomplete
  obtain ⟨hend, hcmd⟩ := moorFragmentReceive_complete hcomplete
  have hpq : cmd ≠ relayExtendPq := by
    intro hpq
    rw [endsExtendPq, decide_eq_true hend, ← hcmd, decide_eq_true hpq] at hrelay
    cases hrelay
  rw [if_neg hpq]
  exact .inl ⟨rfl, rfl⟩

theorem advances_dispatch (hrelay : endsExtendPq relay = false)
    (circ : ExtendCircuit) : Advances own circ (circ.dispatch I own env command relay) := by
  rw [dispatch]
  split_ifs
  · exact advances_handleExtend env _
  · exact advances_handleExtend2 env _
  · exact advances_handleExtendPq env _
  · exact advances_handleFragment env hrelay
  · exact .refl

theorem advances_forwardCell (circ : ExtendCircuit) :
    Advances own circ (circ.forwardCell env command) := by
  rw [forwardCell]
  split_ifs with hdepth hnext hlimit hearly
  · exact .inl ⟨rfl, rfl⟩
  · exact .inl ⟨rfl, rfl⟩
  · exact .inl ⟨rfl, rfl⟩
  · have hlt : circ.relayEarlyCount < moorMaxRelayEarly := not_le.mp fun hle => hlimit ⟨hearly, hle⟩
    exact .inr ⟨hlt, rfl, .inl rfl⟩
  · exact .inl ⟨rfl, rfl⟩

theorem advances_handleRelay {env : ExtendEnv} {payload : Payload}
    (hwhole : circ.sendsWhole C (.cell env command payload) = true) :
    Advances own circ (circ.handleRelay C I own env command payload) := by
  rw [sendsWhole] at hwhole
  rw [handleRelay]
  cases hout : relayHandleForward C circ.forward payload with
  | mk forward out =>
    rw [hout] at hwhole
    cases out with
    | inl payload' => exact advances_forwardCell env { circ with forward := forward }
    | inr payload' =>
      dsimp only
      split_ifs
      · exact .inl ⟨rfl, rfl⟩
      · exact advances_dispatch env (Bool.not_eq_eq_eq_not.mp hwhole)
          { circ with forward := forward }

theorem advances_step {circ' : ExtendCircuit} {e : Event} (hwhole : circ.sendsWhole C e = true)
    (h : circ.step C I own e = some circ') : Advances own circ circ' := by
  cases e with
  | cell env command payload =>
    rw [step] at h
    split_ifs at h with hskip
    · rw [← some.inj h]
      exact .refl
    · rw [← some.inj h]
      exact advances_handleRelay hwhole
  | settle extendPending nextOpen rpJoined | close =>
    rw [← some.inj h]
    exact .inl ⟨rfl, rfl⟩

/-- Every attempt was counted, and was asked for by a RELAY_EARLY for another relay. -/
structure Counted (own : Field 32) (circ : ExtendCircuit) : Prop where
  length_le : circ.attempts.length ≤ circ.relayEarlyCount
  count_le : circ.relayEarlyCount ≤ moorMaxRelayEarly
  early : ∀ a ∈ circ.attempts, a.commands = [cellRelayEarlyCmd] ∧ a.target ≠ own

theorem counted_init (forward : Layer) : Counted own (init forward) :=
  ⟨le_rfl, Nat.zero_le _, fun _ ha => nomatch ha⟩

theorem Counted.advances {circ' : ExtendCircuit} (h : Counted own circ)
    (hadv : Advances own circ circ') : Counted own circ' := by
  rcases hadv with ⟨hcount, hattempts⟩ | ⟨hlt, hcount, hattempts⟩
  · exact ⟨by rw [hcount, hattempts]; exact h.length_le, by rw [hcount]; exact h.count_le,
      by rw [hattempts]; exact h.early⟩
  have hcount' : circ'.relayEarlyCount = circ.relayEarlyCount + 1 := hcount
  have hlen := h.length_le
  rcases hattempts with hattempts | ⟨target, hown, hattempts⟩
  · have hsame : circ'.attempts = circ.attempts := hattempts
    exact ⟨by rw [hcount', hsame]; omega, by omega, by rw [hsame]; exact h.early⟩
  have hone : circ'.attempts = circ.attempts ++ [⟨[cellRelayEarlyCmd], target⟩] := hattempts
  refine ⟨by rw [hcount', hone, List.length_append, List.length_singleton]; omega, by omega, ?_⟩
  intro a ha
  rw [hone] at ha
  rcases List.mem_append.mp ha with ha | ha
  · exact h.early a ha
  · rw [List.mem_singleton.mp ha]
    exact ⟨rfl, hown⟩

end ExtendCircuit

/-- Over every run of a circuit in which no cell ends a fragmented RELAY_EXTEND_PQ, every attempt
to extend was asked for by a RELAY_EARLY, there are at most eight, and none goes to the relay
itself. -/
theorem extends_only_early (C : Crypto) (I : Inet) (own : Field 32) (forward : Layer)
    {events : List ExtendCircuit.Event} {circ : ExtendCircuit}
    (hrun : Run.run (ExtendCircuit.step C I own) (.init forward) events = some circ)
    (hwhole : Run.Along (ExtendCircuit.step C I own) (fun circ e => circ.sendsWhole C e = true)
      (.init forward) events) :
    (∀ a ∈ circ.attempts, a.commands = [cellRelayEarlyCmd] ∧ a.target ≠ own) ∧
      circ.attempts.length ≤ moorMaxRelayEarly := by
  have hcounted : circ.Counted own :=
    Run.run_invariant (fun _ _ _ hs he hstep => hs.advances (ExtendCircuit.advances_step he hstep))
      (ExtendCircuit.counted_init forward) hwhole hrun
  exact ⟨hcounted.early, le_trans hcounted.length_le hcounted.count_le⟩

/-- The cells of a client for the relay it shares a layer with. -/
def sealedCells (C : Crypto) : Layer → List (UInt8 × UInt16 × Bytes) → List Payload
  | _, [] => []
  | l, (relayCmd, streamId, data) :: cells =>
    match sendLayers C [l] (cellRelay relayCmd streamId data) with
    | ([l], some payload) => payload :: sealedCells C l cells
    | _ => []

def sampleLayer : Layer := ⟨Arr.replicate 32 3, 0, Arr.replicate 32 7⟩

def sampleExtendEnv : ExtendEnv where
  now := 0
  consensus := none
  ntop6 := fun _ => []
  channelOpen := fun _ => false
  sendOk := true
  allocOk := true
  threadOk := true
  extendThreads := 0
  pqInflight := 0
  queueDepth := 0
  queueOk := true

/-- A request to extend to the relay with an identity at `8.8.8.8`. -/
def sampleExtendData (identity : UInt8) : Bytes :=
  (Arr.ofList 64 0 (dottedQuad 8 8 8 8)).val ++ be16 9001 ++ List.replicate 32 identity ++
    List.replicate 32 5

/-- A request to extend in a RELAY_EARLY, and, when that is done, one in a plain RELAY. -/
def sampleExtends : List ExtendCircuit.Event :=
  match sealedCells Crypto.sample sampleLayer
      [(relayExtend, 0, sampleExtendData 2), (relayExtendPq, 0, sampleExtendData 4)] with
  | [first, second] =>
    [.cell sampleExtendEnv cellRelayEarlyCmd first, .settle false false false,
      .cell sampleExtendEnv cellRelayCmd second]
  | _ => []

/-- The relay starts the attempt that the RELAY_EARLY asks for, and only that. -/
theorem extends_only_early_sample :
    ∃ circ, Run.run (ExtendCircuit.step Crypto.sample Inet.sample (Arr.replicate 32 1))
        (.init sampleLayer) sampleExtends = some circ ∧
      circ.attempts = [⟨[cellRelayEarlyCmd], Arr.replicate 32 2⟩] ∧
      circ.attempts.length ≤ moorMaxRelayEarly :=
  Run.exists_some_and (by decide +kernel) fun _ hs =>
    (extends_only_early Crypto.sample Inet.sample _ sampleLayer hs (by decide +kernel)).2

/-- One fragment in a plain RELAY, which is the first and the last of a RELAY_EXTEND_PQ to the
relay itself, makes the relay start an attempt to extend to itself. -/
theorem extends_by_fragment :
    ∃ payload, sealedCells Crypto.sample sampleLayer
        [(relayFragmentEnd, 0, be16 9 ++ be16 0 ++ be16 130 ++ [relayExtendPq] ++
          sampleExtendData 1)] = [payload] ∧
      (Run.run (ExtendCircuit.step Crypto.sample Inet.sample (Arr.replicate 32 1))
          (.init sampleLayer) [.cell sampleExtendEnv cellRelayCmd payload]).map
          ExtendCircuit.attempts
        = some [⟨[cellRelayCmd], Arr.replicate 32 1⟩] := by
  refine ⟨_, rfl, ?_⟩
  decide +kernel

end Moor
