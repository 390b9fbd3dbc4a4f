import Moor.Circuit.Binding
import Moor.Circuit.Downgrade

/-!
# Both ends of a handshake with the guard

A client and a guard that follow the protocol, and whose cells arrive, have the same layers for the
first hop: after a PQ handshake, when the guard has put the KEM ciphertext together.
-/

namespace Moor

open Codec Prog

section Exchange

variable {C : Crypto} {own eph : KeyPair}
  {onionPk onionSk identityPk ephPk keySeed authTag : Field 32}

/-- The tag of the relay verifies at the client, which has the relay's key seed. -/
theorem ckeClient_of_ckeRelay (hdh : cryptoDh C own.sk eph.pk = cryptoDh C eph.sk own.pk)
    (honion : cryptoDh C own.sk onionPk = cryptoDh C onionSk own.pk)
    (h : ckeRelay C eph onionSk identityPk own.pk = some (keySeed, authTag)) :
    ckeClient C own onionPk identityPk eph.pk authTag = some keySeed := by
  rw [ckeRelay] at h
  rw [ckeClient, hdh, honion]
  split at h
  · simp [Option.some_inj.mp h]
  · cases h

theorem ckeClientGuard_of_ckeClient (host : Host)
    (h : ckeClient C own onionPk identityPk ephPk authTag = some keySeed) :
    ckeClientGuard C host own onionPk identityPk ephPk authTag = some keySeed := by
  have hdh := h
  rw [ckeClient] at hdh
  split at hdh
  next h₁ h₂ => simp only [ckeClientGuard, h₁, h₂, h]
  · cases hdh

/-- The two fields of a request or an answer. -/
theorem ofList_pair (a b : Field 32) :
    Arr.ofList 32 0 (Arr.ofList 509 0 (a.val ++ b.val)).val = a ∧
      Arr.ofList 32 0 ((Arr.ofList 509 0 (a.val ++ b.val)).val.drop 32) = b := by
  rw [Arr.val_ofList_of_le _ (by simp), List.append_assoc, List.drop_left' (by simp)]
  exact ⟨Arr.ofList_append .., Arr.ofList_append ..⟩

theorem read_cellCreated (circuitId : UInt32) (a b : Field 32) :
    relayEphPk (cellCreated circuitId a b).payload.val = a ∧
      recvAuthTag (cellCreated circuitId a b).payload.val = b :=
  ofList_pair a b

end Exchange

section Ends

variable {C : Crypto} {host : Host} {config : RelayConfig} {eph : KeyPair} {onionPk : Field 32}
  {circ : Circuit} {relay : RelayCircuit} {request reply : Cell} {inbox : List Cell}
  {kemCt : Field 1088} {kemSs : Field 32}

theorem chunks_kemCt (kemCt : Field 1088) : chunks 509 kemCt.val =
    [kemCt.val.take 509, (kemCt.val.drop 509).take 509, kemCt.val.drop 1018] := by
  simp [chunks, List.range_succ]

/-- The cells of a ciphertext complete the handshake of a relay that waits for it. -/
theorem relayHandleKemCts_chunks (hpend : relay.pqKemPending = true)
    (hempty : relay.pqKemCt = []) (hkem : C.kemDecapsulate kemCt config.kemSk = some kemSs) :
    relayHandleKemCts C config relay ((chunks 509 kemCt.val).map (Arr.ofList 509 0)) =
      some { relay.setKeys (circuitKxPq C kemSs) with
        pqKeySeed := Field.zero 32
        pqKemPending := false
        pqKemCt := [] } := by
  have h₁ : (Arr.ofList 509 0 (kemCt.val.take 509)).val.take 1088 = kemCt.val.take 509 := by
    simp [Arr.val_ofList_of_le]
  have h₂ : (Arr.ofList 509 0 ((kemCt.val.drop 509).take 509)).val.take 579 =
      (kemCt.val.drop 509).take 509 := by
    simp [Arr.val_ofList_of_le]
  -- the padding of the last cell is not taken
  have h₃ : (Arr.ofList 509 0 (kemCt.val.drop 1018)).val.take 70 = kemCt.val.drop 1018 := by
    rw [Arr.take_val_ofList _ _ _ (by simp) (by simp), List.take_of_length_le (by simp)]
  have hjoin : kemCt.val.take 509 ++ ((kemCt.val.drop 509).take 509 ++ kemCt.val.drop 1018) =
      kemCt.val := by
    rw [← List.drop_drop (i := 509) (j := 509), List.take_append_drop, List.take_append_drop]
  simp [chunks_kemCt, relayHandleKemCts, relayHandleKemCt, hpend, hempty, h₁, h₂, h₃, hjoin,
    Arr.ofList_val, hkem, RelayCircuit.setKeys]

/-! ### The phases of a handshake -/

theorem connectionSendCell_of_room {room : ℕ} (hroom : circ.link.room = room + 1) (cell : Cell) :
    connectionSendCell cell circ = (some (), { circ with
      link := { circ.link with room := room, sent := circ.link.sent ++ [cell] } }) := by
  rw [connectionSendCell, hroom]

theorem connectionRecvCell_of_inbox (hinbox : circ.link.inbox = reply :: inbox)
    (hmine : reply.command ≠ cellPaddingCmd ∧ reply.circuitId = circ.circuitId) :
    connectionRecvCell circ =
      (some reply, { circ with link := { circ.link with inbox := inbox } }) := by
  simp [connectionRecvCell, hinbox, hmine]

/-- The client draws a key, sends its request, and goes on with the answer. -/
theorem request_answered {room : ℕ} (hroom : circ.link.room = room + 1)
    (hinbox : circ.link.inbox = reply :: inbox)
    (hmine : reply.command ≠ cellPaddingCmd ∧ reply.circuitId = circ.circuitId)
    (make : UInt32 → KeyPair → Cell) (next : KeyPair → Cell → Prog Circuit Unit) :
    (do
      let eph ← cryptoBoxKeygen host
      let circuitId ← Prog.read Circuit.circuitId
      connectionSendCell (make circuitId eph)
      let resp ← connectionRecvCell
      next eph resp : Prog Circuit Unit) circ =
    next (host.boxKeygen circ.drawn) reply ⟨circ.circuitId, circ.hops,
      ⟨room, circ.link.sent ++ [make circ.circuitId (host.boxKeygen circ.drawn)], inbox⟩,
      circ.drawn + 1⟩ := by
  refine .trans (bind_of_returns rfl) <| .trans (bind_of_returns rfl) <|
    .trans (bind_of_returns (connectionSendCell_of_room ?_ _)) <|
    bind_of_returns (connectionRecvCell_of_inbox ?_ ?_)
  · exact hroom
  · exact hinbox
  · exact hmine

theorem addHop_of_lt (h : circ.hops.length < moorCircuitHops) (keys : HopKeys) (nodeId : Field 32) :
    addHop keys nodeId circ = (some (), { circ with hops := circ.hops ++ [keys.hop nodeId] }) :=
  .trans (bind_of_returns rfl) (bind_of_returns (require_of h))

/-- The pieces of the ciphertext are sent in cells of their own. -/
theorem sendKemCt_of_room {room : ℕ} (hroom : circ.link.room = room + 3) :
    sendKemCt kemCt circ = (some (), { circ with link := { circ.link with
      room := room
      sent := circ.link.sent ++ ((chunks 509 kemCt.val).map (Arr.ofList 509 0)).map
        (⟨circ.circuitId, cellKemCtCmd, ·⟩) } }) := by
  refine .trans (bind_of_returns rfl) ?_
  rw [chunks_kemCt]
  refine .trans (bind_of_returns (connectionSendCell_of_room hroom _)) <|
    .trans (bind_of_returns (connectionSendCell_of_room rfl _)) <|
    .trans (bind_of_returns (connectionSendCell_of_room rfl _)) ?_
  simp [forEach, pure]

variable {circuitId : UInt32} {own : KeyPair}

/-- The guard answers a CREATE with its tag, and has the layers. -/
theorem relayHandleCreate_cellCreate (h : relayHandleCreate C config eph
      (cellCreate circuitId config.identityPk own.pk) = some (relay, reply)) :
    ∃ keySeed authTag,
      ckeRelay C eph config.onionSk config.identityPk own.pk = some (keySeed, authTag) ∧
      relay = (RelayCircuit.alloc circuitId).setKeys (circuitKx C keySeed) ∧
      reply = cellCreated circuitId eph.pk authTag := by
  have hpair := ofList_pair config.identityPk own.pk
  simp only [relayHandleCreate, cellCreate, hpair.1, hpair.2, ne_eq, not_true_eq_false,
    if_false] at h
  split at h
  · cases h
  next keySeed authTag hrelay =>
    cases h
    exact ⟨keySeed, authTag, hrelay, rfl, rfl⟩

/-- The guard answers a CREATE_PQ with its tag, and waits for the ciphertext. -/
theorem relayHandleCreatePq_cellCreate (h : relayHandleCreatePq C config eph
      { cellCreate circuitId config.identityPk own.pk with command := cellCreatePqCmd }
        = some (relay, reply)) :
    ∃ keySeed authTag,
      ckeRelay C eph config.onionSk config.identityPk own.pk = some (keySeed, authTag) ∧
      relay = { RelayCircuit.alloc circuitId with pqKeySeed := keySeed, pqKemPending := true } ∧
      reply = { cellCreated circuitId eph.pk authTag with command := cellCreatedPqCmd } := by
  have hpair := ofList_pair config.identityPk own.pk
  simp only [relayHandleCreatePq, cellCreate, hpair.1, hpair.2, ne_eq, not_true_eq_false,
    if_false] at h
  split at h
  · cases h
  next keySeed authTag hrelay =>
    cases h
    exact ⟨keySeed, authTag, hrelay, rfl, rfl⟩

/-! ### Agreement -/

/-- The client knows the onion key of the guard: the Diffie-Hellman secrets of the two are the same
at both ends. -/
structure Acquainted (C : Crypto) (config : RelayConfig) (own eph : KeyPair) (onionPk : Field 32) :
    Prop where
  ephemeral : cryptoDh C own.sk eph.pk = cryptoDh C eph.sk own.pk
  onion : cryptoDh C own.sk onionPk = cryptoDh C config.onionSk own.pk

/-- A client that gets the answer of the guard to its CREATE has the guard's layers. -/
theorem circuitCreate_agrees (hkeys : Acquainted C config (host.boxKeygen circ.drawn) eph onionPk)
    (hrequest : request =
      cellCreate circ.circuitId config.identityPk (host.boxKeygen circ.drawn).pk)
    (hreply : relayHandleCreate C config eph request = some (relay, reply))
    (hinbox : circ.link.inbox = reply :: inbox) (hroom : 1 ≤ circ.link.room)
    (hhops : circ.hops.length < moorCircuitHops) :
    ∃ circ', circuitCreate C host config.identityPk onionPk circ = (some (), circ') ∧
      circ'.link.sent = circ.link.sent ++ [request] ∧
      circ'.hops = circ.hops ++ [⟨config.identityPk, relay.forward, relay.backward⟩] := by
  obtain ⟨room, hroom⟩ := Nat.exists_eq_add_of_le' hroom
  subst hrequest
  obtain ⟨keySeed, authTag, hrelay, rfl, rfl⟩ := relayHandleCreate_cellCreate hreply
  have hanswer := read_cellCreated circ.circuitId eph.pk authTag
  have hmine : cellCreatedCmd ≠ cellPaddingCmd := by decide
  have hseed := ckeClientGuard_of_ckeClient host
    (ckeClient_of_ckeRelay hkeys.ephemeral hkeys.onion hrelay)
  refine ⟨⟨circ.circuitId, _, ⟨room, _, inbox⟩, circ.drawn + 1⟩, ?_, rfl, rfl⟩
  refine .trans (request_answered hroom hinbox ⟨hmine, rfl⟩ _ _) <|
    .trans (bind_of_returns (require_of rfl)) ?_
  rw [hanswer.1, hanswer.2, hseed]
  refine .trans (bind_of_returns rfl) (addHop_of_lt ?_ _ _)
  exact hhops

def sampleRequest : Cell := cellCreate 7 sampleConfig.identityPk (sampleKeys 1).pk

/-- A client that has the answer of a guard. -/
def sampleAnswered (reply : Cell) : Circuit := ⟨7, [], ⟨4, [], [reply]⟩, 0⟩

theorem circuitCreate_agrees_sample : ∃ relay reply circ',
    relayHandleCreate Crypto.sample sampleConfig (sampleKeys 3) sampleRequest =
      some (relay, reply) ∧
    circuitCreate Crypto.sample sampleHost sampleConfig.identityPk sampleConfig.onionSk
      (sampleAnswered reply) = (some (), circ') ∧
    circ'.hops = [⟨sampleConfig.identityPk, relay.forward, relay.backward⟩] := by
  obtain ⟨⟨relay, reply⟩, hreply⟩ := Option.isSome_iff_exists.mp (show (relayHandleCreate
    Crypto.sample sampleConfig (sampleKeys 3) sampleRequest).isSome by decide +kernel)
  obtain ⟨circ', hrun, -, hhops⟩ := @circuitCreate_agrees Crypto.sample sampleHost sampleConfig
    (sampleKeys 3) sampleConfig.onionSk (sampleAnswered reply) _ _ _ [] ⟨rfl, rfl⟩ rfl hreply rfl
    (by simp [sampleAnswered]) (by simp [sampleAnswered, moorCircuitHops])
  exact ⟨relay, reply, circ', hreply, hrun, hhops⟩

/-- A client that gets the answer of the guard to its CREATE_PQ sends the KEM ciphertext, and has
the layers that the guard has when it has handled what the client sent. -/
theorem circuitCreatePq_agrees {kemPk : Field 1184}
    (hkeys : Acquainted C config (host.boxKeygen circ.drawn) eph onionPk)
    (hkem : C.kemEncapsulate kemPk (host.kemCoins (circ.drawn + 1)) = some (kemCt, kemSs))
    (hdecap : C.kemDecapsulate kemCt config.kemSk = some kemSs)
    (hrequest : request = { cellCreate circ.circuitId config.identityPk
      (host.boxKeygen circ.drawn).pk with command := cellCreatePqCmd })
    (hreply : relayHandleCreatePq C config eph request = some (relay, reply))
    (hinbox : circ.link.inbox = reply :: inbox) (hroom : 4 ≤ circ.link.room)
    (hhops : circ.hops.length < moorCircuitHops) :
    ∃ circ' payloads relay',
      circuitCreatePq C host config.identityPk onionPk kemPk circ = (some (), circ') ∧
      circ'.link.sent =
        circ.link.sent ++ request :: payloads.map (⟨circ.circuitId, cellKemCtCmd, ·⟩) ∧
      relayHandleKemCts C config relay payloads = some relay' ∧ relay'.pqKemPending = false ∧
      circ'.hops = circ.hops ++ [⟨config.identityPk, relay'.forward, relay'.backward⟩] := by
  obtain ⟨room, hroom⟩ := Nat.exists_eq_add_of_le' hroom
  subst hrequest
  obtain ⟨keySeed, authTag, hrelay, rfl, rfl⟩ := relayHandleCreatePq_cellCreate hreply
  have hanswer := read_cellCreated circ.circuitId eph.pk authTag
  have hmine : cellCreatedPqCmd ≠ cellPaddingCmd := by decide
  have hseed := ckeClient_of_ckeRelay hkeys.ephemeral hkeys.onion hrelay
  refine ⟨⟨circ.circuitId, _, ⟨room, circ.link.sent ++ [_] ++ _, inbox⟩, circ.drawn + 1 + 1⟩,
    (chunks 509 kemCt.val).map (Arr.ofList 509 0), _, ?_, List.append_assoc ..,
    relayHandleKemCts_chunks rfl rfl hdecap, rfl, rfl⟩
  refine .trans (request_answered hroom hinbox ⟨hmine, rfl⟩ _ _) <|
    .trans (bind_of_returns (require_of rfl)) ?_
  rw [hanswer.1, hanswer.2, hseed]
  refine .trans (bind_of_returns rfl) <| .trans (bind_of_returns (congrArg (·, _) hkem)) <|
    .trans (bind_of_returns (sendKemCt_of_room rfl)) (addHop_of_lt ?_ _ _)
  exact hhops

theorem circuitCreatePq_agrees_sample : ∃ relay reply circ' payloads relay',
    relayHandleCreatePq Crypto.sample sampleConfig (sampleKeys 3)
      { sampleRequest with command := cellCreatePqCmd } = some (relay, reply) ∧
    circuitCreatePq Crypto.sample sampleHost sampleConfig.identityPk sampleConfig.onionSk
      (Field.zero 1184) (sampleAnswered reply) = (some (), circ') ∧
    relayHandleKemCts Crypto.sample sampleConfig relay payloads = some relay' ∧
    circ'.hops = [⟨sampleConfig.identityPk, relay'.forward, relay'.backward⟩] := by
  obtain ⟨⟨relay, reply⟩, hreply⟩ := Option.isSome_iff_exists.mp (show (relayHandleCreatePq
    Crypto.sample sampleConfig (sampleKeys 3)
    { sampleRequest with command := cellCreatePqCmd }).isSome by decide +kernel)
  obtain ⟨circ', payloads, relay', hrun, -, hkem, -, hhops⟩ :=
    @circuitCreatePq_agrees Crypto.sample sampleHost sampleConfig (sampleKeys 3)
      sampleConfig.onionSk (sampleAnswered reply) _ _ _ [] _ _ (Field.zero 1184) ⟨rfl, rfl⟩ rfl
      (kem_correct_sample _ _ _ _ _ rfl) rfl hreply rfl (by simp [sampleAnswered])
      (by simp [sampleAnswered, moorCircuitHops])
  exact ⟨relay, reply, circ', payloads, relay', hreply, hrun, hkem, hhops⟩

end Ends

end Moor
