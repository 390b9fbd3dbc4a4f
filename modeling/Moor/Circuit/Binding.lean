import Moor.Circuit.AsyncBuild
import Moor.Link.Keys
import Moor.Relay.Create

/-!
# The secrets that keys depend on

A PQ handshake with a relay makes two secrets, the key seed of the Diffie-Hellman exchange and the
KEM secret. The key seed authenticates the relay; the keys of the hop are those of the KEM secret.
The keys of a link depend on the Noise chain and on the KEM secret.
-/

namespace Moor

open Codec Prog Circuit

/-- A completed PQ handshake with its key seed, its KEM secret and the keys it ended with: at the
client, by either builder, for the first hop or a later one, and at the relay. -/
inductive PqHandshake (C : Crypto) : (keySeed kemSs forwardKey backwardKey : Field 32) → Prop
  | created {host ctx cell circ ctx' circ' keySeed kemCt kemSs hop} :
    ctx.pqHop = true →
    buildHandleCreated C host ctx cell circ = (some ctx', circ') →
    ckeClient C ctx.eph ctx.relayCurvePk (ctx.path.hop 0).identityPk (relayEphPk cell.payload.val)
      (recvAuthTag cell.payload.val) = some keySeed →
    C.kemEncapsulate (ctx.path.hop 0).kemPk (host.kemCoins circ.drawn) = some (kemCt, kemSs) →
    circ'.hops[0]? = some hop →
    PqHandshake C keySeed kemSs hop.forward.key hop.backward.key
  | extended {host ctx data circ ctx' circ' keySeed hop} :
    ctx.pqHop = true →
    buildHandleExtended C host ctx relayExtendedPq data circ = (some ctx', circ') →
    ckeClient C ctx.eph ctx.relayCurvePk (ctx.path.hop circ.hops.length).identityPk
      (relayEphPk data) (recvAuthTag data) = some keySeed →
    circ'.hops[circ.hops.length]? = some hop →
    PqHandshake C keySeed ctx.kemSs hop.forward.key hop.backward.key
  | create {host relayIdPk relayOnionPk relayKemPk circ circ' resp keySeed kemCt kemSs hop} :
    circuitCreatePq C host relayIdPk relayOnionPk relayKemPk circ = (some (), circ') →
    (connectionRecvCell circ).1 = some resp →
    ckeClient C (host.boxKeygen circ.drawn) relayOnionPk relayIdPk (relayEphPk resp.payload.val)
      (recvAuthTag resp.payload.val) = some keySeed →
    C.kemEncapsulate relayKemPk (host.kemCoins (circ.drawn + 1)) = some (kemCt, kemSs) →
    circ'.hops[circ.hops.length]? = some hop →
    PqHandshake C keySeed kemSs hop.forward.key hop.backward.key
  | extend {host next circ circ' resp payload keySeed kemCt kemSs hop} :
    circuitExtendPq C host next circ = (some (), circ') →
    (connectionRecvCell circ).1 = some resp →
    (circuitDecryptBackward C circ.hops resp.payload).2 = some payload →
    ckeClient C (host.boxKeygen circ.drawn) next.onionPk next.identityPk
      (relayEphPk (relayUnpack payload).data) (recvAuthTag (relayUnpack payload).data) =
        some keySeed →
    C.kemEncapsulate next.kemPk (host.kemCoins (circ.drawn + 1)) = some (kemCt, kemSs) →
    circ'.hops[circ.hops.length]? = some hop →
    PqHandshake C keySeed kemSs hop.forward.key hop.backward.key
  | relay {config eph cell circ reply payloads circ' kemSs} :
    relayHandleCreatePq C config eph cell = some (circ, reply) →
    relayHandleKemCts C config circ payloads = some circ' →
    circ'.pqKemPending = false →
    C.kemDecapsulate (Arr.ofList 1088 0 (payloads.map Subtype.val).flatten) config.kemSk =
      some kemSs →
    PqHandshake C circ.pqKeySeed kemSs circ'.forward.key circ'.backward.key

section

variable {C : Crypto}

theorem Circuit.hop_keys {circ : Circuit} {i : ℕ} {keys : HopKeys} {nodeId : Field 32} {hop : Hop}
    (hkeys : circ.keys[i]? = some (keys.hop nodeId).keys) (hhop : circ.hops[i]? = some hop) :
    hop.forward.key = keys.forwardKey ∧ hop.backward.key = keys.backwardKey := by
  have hkeys' : circ.keys[i]? = some hop.keys := by simp [Circuit.keys, hhop]
  have heq : hop.keys = (keys.hop nodeId).keys := Option.some_inj.mp (hkeys'.symm.trans hkeys)
  exact ⟨congrArg (fun key => key.2.1) heq, congrArg (fun key => key.2.2) heq⟩

theorem Circuit.Added.hop_keys {n : ℕ} {circ circ' : Circuit} {keys : HopKeys} {nodeId : Field 32}
    {hop : Hop} (h : circ.Added n (keys.hop nodeId).keys circ')
    (hhop : circ'.hops[circ.hops.length]? = some hop) :
    hop.forward.key = keys.forwardKey ∧ hop.backward.key = keys.backwardKey := by
  have hlast : circ'.keys[circ.hops.length]? = some (keys.hop nodeId).keys := by
    rw [h.keys, ← List.length_map (f := Hop.keys)]
    exact List.getElem?_concat_length
  exact Circuit.hop_keys hlast hhop

/-- Wherever a PQ handshake is completed, the keys are those of the KEM secret. -/
theorem PqHandshake.keys {keySeed kemSs forwardKey backwardKey : Field 32}
    (h : PqHandshake C keySeed kemSs forwardKey backwardKey) :
    forwardKey = (circuitKxPq C kemSs).forwardKey ∧
      backwardKey = (circuitKxPq C kemSs).backwardKey := by
  cases h with
  | created hpq hrun hseed hkem hhop =>
    obtain ⟨circ₁, keys, hkeys, hpqKeys, honward⟩ := (spec_buildHandleCreated _).of_returns hrun
    obtain ⟨kemCt, kemSs', hkem', rfl, -⟩ := hpqKeys hpq
    obtain ⟨-, rfl⟩ := Prod.mk.inj (Option.some_inj.mp (hkem.symm.trans hkem'))
    have hkeys' := honward.same.keys.trans hkeys
    exact hop_keys (congrArg (fun keys => keys[0]?) hkeys') hhop
  | extended hpq hrun hseed hhop =>
    obtain ⟨circ₁, keys, nodeId, hadded, hpqKeys, honward⟩ :=
      (spec_buildHandleExtended _ _).of_returns hrun
    obtain rfl := hpqKeys hpq rfl
    have hadded' : Added 0 _ _ _ := ⟨honward.same.keys.trans hadded.keys,
      hadded.drawn.trans honward.same.drawn⟩
    exact hadded'.hop_keys hhop
  | create hrun hresp hseed hkem hhop =>
    obtain ⟨kemCt, kemSs', hkem', hadded⟩ := (spec_circuitCreatePq _ _ _).of_returns hrun
    obtain ⟨-, rfl⟩ := Prod.mk.inj (Option.some_inj.mp (hkem.symm.trans hkem'))
    exact hadded.hop_keys hhop
  | extend hrun hresp hpayload hseed hkem hhop =>
    obtain ⟨kemCt, kemSs', hkem', hadded⟩ := (spec_circuitExtendPq _).of_returns hrun
    obtain ⟨-, rfl⟩ := Prod.mk.inj (Option.some_inj.mp (hkem.symm.trans hkem'))
    exact hadded.hop_keys hhop
  | relay hcreate hrun hdone hkem =>
    obtain ⟨hpend, hempty⟩ := relayHandleCreatePq_pending hcreate
    obtain ⟨kemSs', hkem', hkeys⟩ := relayHandleKemCts_keys hrun hpend (by simp [hempty]) hdone
    rw [hempty, List.nil_append] at hkem'
    obtain rfl := Option.some_inj.mp (hkem.symm.trans hkem')
    exact hkeys

end

/-- Two PQ handshakes that end in the same keys have the same KEM secret, and the KEM secret alone
decides the keys, whatever the key seeds are. The keys of a link decide both the Noise chaining key
and the KEM secret. -/
theorem hop_and_link_key_binding (C : Crypto) :
    (∀ seed₁ seed₂ kem₁ kem₂ forwardKey backwardKey,
      PqHandshake C seed₁ kem₁ forwardKey backwardKey →
      PqHandshake C seed₂ kem₂ forwardKey backwardKey →
      HashInjOn C [kem₁.val, kem₂.val] →
      Set.InjOn (fun key => C.kdf key 1 (ascii "moorFWD!")) {C.hash kem₁.val, C.hash kem₂.val} →
      kem₁ = kem₂) ∧
    (∀ seed₁ seed₂ kem f₁ b₁ f₂ b₂,
      PqHandshake C seed₁ kem f₁ b₁ → PqHandshake C seed₂ kem f₂ b₂ → f₁ = f₂ ∧ b₁ = b₂) ∧
    ∀ i₁ i₂ ck₁ ck₂ kem₁ kem₂,
      HashInjOn C (linkInputs C i₁ ck₁ kem₁ ++ linkInputs C i₂ ck₂ kem₂) →
      linkHandshakePq C i₁ ck₁ kem₁ = linkHandshakePq C i₂ ck₂ kem₂ →
      ck₁ = ck₂ ∧ kem₁ = kem₂ := by
  refine ⟨?_, ?_, ?_⟩
  · intro seed₁ seed₂ kem₁ kem₂ forwardKey backwardKey h₁ h₂ hhash hkdf
    have hhybrid : C.hash kem₁.val = C.hash kem₂.val :=
      hkdf (by simp) (by simp) (h₁.keys.1.symm.trans h₂.keys.1)
    exact Subtype.ext (hhash _ (by simp) _ (by simp) hhybrid)
  · intro seed₁ seed₂ kem f₁ b₁ f₂ b₂ h₁ h₂
    exact ⟨h₁.keys.1.trans h₂.keys.1.symm, h₁.keys.2.trans h₂.keys.2.symm⟩
  · intro i₁ i₂ ck₁ ck₂ kem₁ kem₂ hinj h
    exact (linkHandshakePq_inj hinj h).2

/-! ### Two handshakes of one relay -/

/-- The stand-in primitives with a hash that mixes all bytes. -/
def Crypto.mixing : Crypto :=
  { Crypto.sample with
    hash := fun bs => ⟨beEncode 32 (bs.foldl (fun acc b => (acc * 257 + b.toNat + 1) % 2 ^ 256) 0),
      length_beEncode ..⟩ }

def sampleConfig : RelayConfig where
  identityPk := Arr.replicate 32 200
  onionSk := Arr.replicate 32 201
  kemSk := Field.zero 2400

/-- The relay's answer to a client with the given ephemeral key. -/
def sampleCreatePq (b : UInt8) : Option (RelayCircuit × Cell) :=
  relayHandleCreatePq Crypto.mixing sampleConfig ⟨Arr.replicate 32 3, Arr.replicate 32 3⟩
    { cellCreate 7 sampleConfig.identityPk (Arr.replicate 32 b) with command := cellCreatePqCmd }

/-- The pieces of a KEM ciphertext. -/
def sampleKemCts : List Payload := List.replicate 3 (Arr.replicate 509 9)

/-- The relay's circuit, before and after the ciphertext. -/
def sampleCircuit (b : UInt8) : RelayCircuit :=
  match sampleCreatePq b with
  | some (circ, _) => circ
  | none => RelayCircuit.alloc 0

@[inherit_doc sampleCircuit]
def sampleCircuitDone (b : UInt8) : RelayCircuit :=
  (relayHandleKemCts Crypto.mixing sampleConfig (sampleCircuit b) sampleKemCts).getD
    (RelayCircuit.alloc 0)

theorem pqHandshake_sampleCircuit {b : UInt8}
    (h : (sampleCreatePq b).map Prod.fst = some (sampleCircuit b) ∧
      relayHandleKemCts Crypto.mixing sampleConfig (sampleCircuit b) sampleKemCts =
        some (sampleCircuitDone b) ∧
      (sampleCircuitDone b).pqKemPending = false) :
    PqHandshake Crypto.mixing (sampleCircuit b).pqKeySeed (Arr.replicate 32 9)
      (sampleCircuitDone b).forward.key (sampleCircuitDone b).backward.key := by
  obtain ⟨hcreate, hrun, hdone⟩ := h
  obtain ⟨⟨circ, reply⟩, hreply, hcirc⟩ := Option.map_eq_some_iff.mp hcreate
  rw [← show circ = sampleCircuit b from hcirc] at hrun ⊢
  have hkem : Crypto.mixing.kemDecapsulate
      (Arr.ofList 1088 0 (sampleKemCts.map Subtype.val).flatten) sampleConfig.kemSk =
        some (Arr.replicate 32 9) := by
    decide +kernel
  exact .relay hreply hrun hdone hkem

set_option maxRecDepth 100000 in
/-- The handshakes of two clients that sent the same ciphertext. -/
theorem pqHandshake_sample :
    PqHandshake Crypto.mixing (sampleCircuit 1).pqKeySeed (Arr.replicate 32 9)
      (sampleCircuitDone 1).forward.key (sampleCircuitDone 1).backward.key ∧
    PqHandshake Crypto.mixing (sampleCircuit 2).pqKeySeed (Arr.replicate 32 9)
      (sampleCircuitDone 1).forward.key (sampleCircuitDone 1).backward.key := by
  have h₁ := pqHandshake_sampleCircuit (b := 1) (by decide +kernel)
  have h₂ := pqHandshake_sampleCircuit (b := 2) (by decide +kernel)
  refine ⟨h₁, ?_⟩
  rwa [h₁.keys.1.trans h₂.keys.1.symm, h₁.keys.2.trans h₂.keys.2.symm]

set_option maxRecDepth 100000 in
/-- Two clients with different ephemeral keys have different key seeds with the relay. With the same
KEM secret they end in the same keys, although the hash tells the pairs of secrets apart. -/
theorem pqHandshake_keySeed_unused :
    ∃ seed₁ seed₂ kem forwardKey backwardKey,
      PqHandshake Crypto.mixing seed₁ kem forwardKey backwardKey ∧
      PqHandshake Crypto.mixing seed₂ kem forwardKey backwardKey ∧ seed₁ ≠ seed₂ ∧
      HashInjOn Crypto.mixing [kem.val, seed₁.val ++ kem.val, seed₂.val ++ kem.val] := by
  refine ⟨_, _, _, _, _, pqHandshake_sample.1, pqHandshake_sample.2, ?_, ?_⟩ <;> decide +kernel

set_option maxRecDepth 100000 in
theorem hop_and_link_key_binding_sample :
    (PqHandshake Crypto.mixing (sampleCircuit 2).pqKeySeed (Arr.replicate 32 9)
      (sampleCircuitDone 1).forward.key (sampleCircuitDone 1).backward.key ∧
      (Arr.replicate 32 9 : Field 32) = Arr.replicate 32 9) ∧
    HashInjOn Crypto.mixing
      (linkInputs Crypto.mixing true (Arr.replicate 32 1) (Arr.replicate 32 2) ++
        linkInputs Crypto.mixing true (Arr.replicate 32 1) (Arr.replicate 32 2)) ∧
    (Arr.replicate 32 1 : Field 32) = Arr.replicate 32 1 := by
  have hhash : HashInjOn Crypto.mixing
      [(Arr.replicate 32 9 : Field 32).val, (Arr.replicate 32 9 : Field 32).val] := by
    decide +kernel
  have hlink : HashInjOn Crypto.mixing
      (linkInputs Crypto.mixing true (Arr.replicate 32 1) (Arr.replicate 32 2) ++
        linkInputs Crypto.mixing true (Arr.replicate 32 1) (Arr.replicate 32 2)) := by
    decide +kernel
  refine ⟨⟨pqHandshake_sample.2, ?_⟩, hlink, ?_⟩
  · exact (hop_and_link_key_binding Crypto.mixing).1 _ _ _ _ _ _ pqHandshake_sample.1
      pqHandshake_sample.2 hhash (fun _ _ _ _ h => h)
  · exact ((hop_and_link_key_binding Crypto.mixing).2.2 true true _ _ _ _ hlink rfl).1

end Moor
