import Moor.Circuit.KeyExchange

/-!
# The relay's end of a circuit handshake

A classical handshake is done when the relay has answered. In a PQ handshake the relay keeps the
key seed and waits for the KEM ciphertext, which comes in pieces; its keys come from the KEM secret.
-/

namespace Moor

open Codec List

/-- The keys of a relay. -/
structure RelayConfig where
  identityPk : Field 32
  onionSk : Field 32
  kemSk : Field 2400

/-- A circuit at a relay. -/
structure RelayCircuit where
  circuitId : UInt32
  forward : Layer
  backward : Layer
  pqKemCt : Bytes
  pqKeySeed : Field 32
  pqKemPending : Bool
  deriving DecidableEq

namespace RelayCircuit

/-- A circuit that has just been allocated. -/
def alloc (circuitId : UInt32) : RelayCircuit where
  circuitId := circuitId
  forward := ⟨Field.zero 32, 0, Field.zero 32⟩
  backward := ⟨Field.zero 32, 0, Field.zero 32⟩
  pqKemCt := []
  pqKeySeed := Field.zero 32
  pqKemPending := false

def setKeys (circ : RelayCircuit) (keys : HopKeys) : RelayCircuit :=
  { circ with
    forward := ⟨keys.forwardKey, 0, keys.forwardDigest⟩
    backward := ⟨keys.backwardKey, 0, keys.backwardDigest⟩ }

end RelayCircuit

section

variable (C : Crypto) (config : RelayConfig) (eph : KeyPair)

/-- Handles a CREATE cell: the circuit and the answer. -/
def relayHandleCreate (cell : Cell) : Option (RelayCircuit × Cell) :=
  let expectedId : Field 32 := Arr.ofList 32 0 cell.payload.val
  let clientEphPk : Field 32 := Arr.ofList 32 0 (cell.payload.val.drop 32)
  if expectedId ≠ config.identityPk then none
  else match ckeRelay C eph config.onionSk config.identityPk clientEphPk with
    | none => none
    | some (keySeed, authTag) =>
      some ((RelayCircuit.alloc cell.circuitId).setKeys (circuitKx C keySeed),
        cellCreated cell.circuitId eph.pk authTag)

/-- Handles a CREATE_PQ cell: the circuit, which waits for the KEM ciphertext, and the answer. -/
def relayHandleCreatePq (cell : Cell) : Option (RelayCircuit × Cell) :=
  let expectedId : Field 32 := Arr.ofList 32 0 cell.payload.val
  let clientEphPk : Field 32 := Arr.ofList 32 0 (cell.payload.val.drop 32)
  if expectedId ≠ config.identityPk then none
  else match ckeRelay C eph config.onionSk config.identityPk clientEphPk with
    | none => none
    | some (keySeed, authTag) =>
      some ({ RelayCircuit.alloc cell.circuitId with pqKeySeed := keySeed, pqKemPending := true },
        { cellCreated cell.circuitId eph.pk authTag with command := cellCreatedPqCmd })

/-- Handles a piece of the KEM ciphertext. A ciphertext that cannot be decapsulated destroys the
circuit. -/
def relayHandleKemCt (circ : RelayCircuit) (payload : Payload) : Option RelayCircuit :=
  if !circ.pqKemPending then some circ
  else
    let kemCt := circ.pqKemCt ++ payload.val.take (1088 - circ.pqKemCt.length)
    if kemCt.length < 1088 then some { circ with pqKemCt := kemCt }
    else match C.kemDecapsulate (Arr.ofList 1088 0 kemCt) config.kemSk with
      | none => none
      | some kemSs => some { circ.setKeys (circuitKxPq C kemSs) with
          pqKeySeed := Field.zero 32
          pqKemPending := false
          pqKemCt := [] }

/-- Handles the pieces of a KEM ciphertext one after the other. -/
def relayHandleKemCts (circ : RelayCircuit) : List Payload → Option RelayCircuit
  | [] => some circ
  | payload :: payloads =>
    match relayHandleKemCt C config circ payload with
    | none => none
    | some circ => relayHandleKemCts circ payloads

end

section KemCt

variable {C : Crypto} {config : RelayConfig} {circ circ' : RelayCircuit}

/-- After a PQ request the relay waits for the whole ciphertext. -/
theorem relayHandleCreatePq_pending {eph : KeyPair} {cell reply : Cell}
    (h : relayHandleCreatePq C config eph cell = some (circ, reply)) :
    circ.pqKemPending = true ∧ circ.pqKemCt = [] := by
  simp only [relayHandleCreatePq] at h
  split at h
  · cases h
  split at h
  · cases h
  · cases h
    exact ⟨rfl, rfl⟩

/-- What a piece of the ciphertext does: the relay keeps it and goes on waiting with the same key
seed, or the ciphertext is complete and its secret gives the keys. -/
theorem relayHandleKemCt_cases {payload : Payload}
    (h : relayHandleKemCt C config circ payload = some circ') (hpend : circ.pqKemPending = true)
    (hlen : circ.pqKemCt.length < 1088) :
    (circ'.pqKemPending = true ∧ circ'.pqKemCt = circ.pqKemCt ++ payload.val ∧
      circ'.pqKemCt.length < 1088) ∨
    circ'.pqKemPending = false ∧ 1088 ≤ (circ.pqKemCt ++ payload.val).length ∧ ∃ kemSs,
      C.kemDecapsulate (Arr.ofList 1088 0 (circ.pqKemCt ++ payload.val)) config.kemSk = some kemSs ∧
      circ'.forward.key = (circuitKxPq C kemSs).forwardKey ∧
      circ'.backward.key = (circuitKxPq C kemSs).backwardKey := by
  simp only [relayHandleKemCt, hpend, Bool.not_true, Bool.false_eq_true, if_false] at h
  by_cases hshort :
      (circ.pqKemCt ++ payload.val.take (1088 - circ.pqKemCt.length)).length < 1088
  · rw [if_pos hshort] at h
    rw [length_append, length_take] at hshort
    have hwhole : payload.val.take (1088 - circ.pqKemCt.length) = payload.val :=
      take_of_length_le (by omega)
    cases h
    refine .inl ⟨rfl, by rw [hwhole], ?_⟩
    simpa using hshort
  rw [if_neg hshort] at h
  have hlong : 1088 ≤ (circ.pqKemCt ++ payload.val).length := by
    rw [length_append, length_take] at hshort
    rw [length_append]
    omega
  have hct : Arr.ofList 1088 0 (circ.pqKemCt ++ payload.val.take (1088 - circ.pqKemCt.length)) =
      Arr.ofList 1088 0 (circ.pqKemCt ++ payload.val) := by
    refine Arr.ofList_eq_of_take_eq 0 (Nat.le_of_not_lt hshort) hlong ?_
    simp [take_append, take_take]
  rw [hct] at h
  cases hdecap : C.kemDecapsulate (Arr.ofList 1088 0 (circ.pqKemCt ++ payload.val))
      config.kemSk with
  | none => simp [hdecap] at h
  | some kemSs =>
    simp only [hdecap, Option.some_inj] at h
    subst h
    exact .inr ⟨rfl, hlong, kemSs, rfl, rfl, rfl⟩

/-- A relay that no longer waits ignores further pieces. -/
theorem relayHandleKemCts_of_not_pending (h : circ.pqKemPending = false) (payloads : List Payload) :
    relayHandleKemCts C config circ payloads = some circ := by
  induction payloads with
  | nil => rfl
  | cons payload payloads ih => simp [relayHandleKemCts, relayHandleKemCt, h, ih]

/-- The keys of a relay whose PQ handshake is complete come from the secret of the ciphertext that
the pieces make up. -/
theorem relayHandleKemCts_keys {payloads : List Payload}
    (h : relayHandleKemCts C config circ payloads = some circ') (hpend : circ.pqKemPending = true)
    (hlen : circ.pqKemCt.length < 1088) (hdone : circ'.pqKemPending = false) :
    ∃ kemSs,
      C.kemDecapsulate (Arr.ofList 1088 0 (circ.pqKemCt ++ (payloads.map Subtype.val).flatten))
        config.kemSk = some kemSs ∧
      circ'.forward.key = (circuitKxPq C kemSs).forwardKey ∧
      circ'.backward.key = (circuitKxPq C kemSs).backwardKey := by
  induction payloads generalizing circ with
  | nil =>
    cases h
    rw [hpend] at hdone
    cases hdone
  | cons payload payloads ih =>
    rw [relayHandleKemCts] at h
    rw [map_cons, flatten_cons, ← append_assoc]
    cases hstep : relayHandleKemCt C config circ payload with
    | none => simp [hstep] at h
    | some next =>
      simp only [hstep] at h
      rcases relayHandleKemCt_cases hstep hpend hlen with
        ⟨hnext, hct, hshort⟩ | ⟨hnext, hlong, kemSs, hdecap, hkeys⟩
      · rw [← hct]
        exact ih h hnext hshort
      rw [relayHandleKemCts_of_not_pending hnext] at h
      cases h
      -- further pieces do not reach the ciphertext
      have hct : Arr.ofList 1088 0 (circ.pqKemCt ++ payload.val ++
            (payloads.map Subtype.val).flatten) =
          Arr.ofList 1088 0 (circ.pqKemCt ++ payload.val) := by
        refine Arr.ofList_eq_of_take_eq 0 (by rw [length_append]; omega) hlong ?_
        exact take_append_of_le_length hlong
      exact ⟨kemSs, hct ▸ hdecap, hkeys⟩

end KemCt

end Moor
