import Moor.Circuit.KeyExchange
import Moor.Lib.Prog
import Moor.Node.Wire

/-!
# The client builds a circuit

A client opens a circuit with the guard and extends it by two relays. The functions here wait for
each answer. With a relay that has a KEM key the handshake is a PQ handshake; when that fails with
the guard, the client connects again and makes a classical one.
-/

namespace Moor

open Codec

/-- A link to the guard: how many more cells it takes, what was sent on it, and what will be
received. -/
structure Link where
  room : ℕ
  sent : List Cell
  inbox : List Cell

/-- A circuit of the client. `drawn` counts what was drawn at random. -/
structure Circuit where
  circuitId : UInt32
  hops : List Hop
  link : Link
  drawn : ℕ

/-- What a client has around it: randomness, the C library's address parsing, and the relays of
its consensus. -/
structure Host where
  boxKeygen : ℕ → KeyPair
  kemCoins : ℕ → Field 32
  inetPton4 : Bytes → Option (Field 4)
  inetPton6 : Bytes → Option (Field 16)
  relays : List NodeDescriptor

def moorCircuitHops : ℕ := 3

/-- The client offers a PQ handshake to relays with the feature and a KEM key. -/
def pqHop (desc : NodeDescriptor) : Bool :=
  desc.features &&& nodeFeaturePq != 0 && desc.kemPk.val.any (· != 0)

/-! ### The link -/

def connectionSendCell (cell : Cell) : Prog Circuit Unit := fun circ =>
  match circ.link.room with
  | 0 => (none, circ)
  | room + 1 =>
    (some (), { circ with
      link := { circ.link with room := room, sent := circ.link.sent ++ [cell] } })

/-- Waits for a cell of the circuit. Padding and the cells of other circuits are passed over; the
wait ends when nothing more comes. -/
def connectionRecvCell : Prog Circuit Cell := fun circ =>
  let mine (cell : Cell) : Bool :=
    cell.command != cellPaddingCmd && cell.circuitId == circ.circuitId
  match circ.link.inbox.dropWhile (fun cell => !mine cell) with
  | [] => (none, { circ with link := { circ.link with inbox := [] } })
  | cell :: inbox => (some cell, { circ with link := { circ.link with inbox := inbox } })

section

variable (C : Crypto) (host : Host)

/-! ### Randomness -/

def cryptoBoxKeygen : Prog Circuit KeyPair := fun circ =>
  (some (host.boxKeygen circ.drawn), { circ with drawn := circ.drawn + 1 })

def kemEncapsulate (kemPk : Field 1184) : Prog Circuit (Field 1088 × Field 32) := fun circ =>
  (C.kemEncapsulate kemPk (host.kemCoins circ.drawn), { circ with drawn := circ.drawn + 1 })

/-! ### Relay cells -/

def sendForward (command relayCmd : UInt8) (data : Bytes) : Prog Circuit Unit := do
  let payload ← fun circ =>
    let (hops, out) := circuitEncryptForward C circ.hops (cellRelay relayCmd 0 data)
    (out, { circ with hops := hops })
  let circuitId ← Prog.read Circuit.circuitId
  connectionSendCell ⟨circuitId, command, payload⟩

/-- Removes all layers of a payload. -/
def decryptBackward (payload : Payload) : Prog Circuit Payload := fun circ =>
  let (hops, out) := circuitDecryptBackward C circ.hops payload
  (out, { circ with hops := hops })

/-- Sends the KEM ciphertext to the guard. -/
def sendKemCt (kemCt : Field 1088) : Prog Circuit Unit := do
  let circuitId ← Prog.read Circuit.circuitId
  Prog.forEach (fun chunk => connectionSendCell ⟨circuitId, cellKemCtCmd, Arr.ofList 509 0 chunk⟩)
    (chunks 509 kemCt.val)

/-- Sends the KEM ciphertext through the circuit. -/
def sendKemOffer (kemCt : Field 1088) : Prog Circuit Unit :=
  Prog.forEach (sendForward C cellRelayCmd relayKemOffer) (chunks moorRelayData kemCt.val)

/-- The request for a classical extension: the relay's address, its identity and the client's
ephemeral key. An address that is a host name is left zero. -/
def extend2Data (next : NodeDescriptor) (ephPk : Field 32) : Bytes :=
  let address : Bytes :=
    match host.inetPton4 (cString next.address), host.inetPton6 (cString next.address) with
    | some ia4, _ => [0, 6] ++ ia4.val
    | none, some ia6 => [1, 18] ++ ia6.val
    | none, none => [0, 6] ++ (Field.zero 4).val
  [2] ++ address ++ be16 next.orPort ++ [2, 32] ++ next.identityPk.val ++ ephPk.val

/-- The request for a PQ extension. -/
def extendPqData (address : Field 64) (next : NodeDescriptor) (ephPk : Field 32) : Bytes :=
  address.val ++ be16 next.orPort ++ next.identityPk.val ++ ephPk.val

/-! ### Handshakes -/

def addHop (keys : HopKeys) (nodeId : Field 32) : Prog Circuit Unit := do
  let hops ← Prog.read Circuit.hops
  Prog.require (hops.length < moorCircuitHops)
  Prog.modify fun circ => { circ with hops := circ.hops ++ [keys.hop nodeId] }

variable (guard : NodeDescriptor) (relayIdPk : Field 32)

/-- The onion key that the consensus has for a relay, when it is another one. -/
def consensusOnionPk (relayCurvePk : Field 32) : Option (Field 32) :=
  (host.relays.find? fun relay =>
    relay.identityPk = relayIdPk ∧ relay.onionPk ≠ Field.zero 32 ∧ relay.onionPk ≠ relayCurvePk).map
    NodeDescriptor.onionPk

/-- The client's end of the classical exchange with the guard. A tag that does not verify with the
given onion key is tried with the one of the consensus. -/
def ckeClientGuard (eph : KeyPair) (relayCurvePk relayIdPk relayEphPk recvAuthTag : Field 32) :
    Option (Field 32) :=
  match cryptoDh C eph.sk relayEphPk, cryptoDh C eph.sk relayCurvePk with
  | some _, some _ =>
    match ckeClient C eph relayCurvePk relayIdPk relayEphPk recvAuthTag with
    | some keySeed => some keySeed
    | none =>
      match consensusOnionPk host relayIdPk relayCurvePk with
      | some alt => ckeClient C eph alt relayIdPk relayEphPk recvAuthTag
      | none => none
  | _, _ => none

/-- The relay's ephemeral key and its tag, in an answer. -/
def relayEphPk (data : Bytes) : Field 32 := Arr.ofList 32 0 data

@[inherit_doc relayEphPk]
def recvAuthTag (data : Bytes) : Field 32 := Arr.ofList 32 0 (data.drop 32)

/-- A classical handshake with the guard. -/
def circuitCreate (relayOnionPk : Field 32) : Prog Circuit Unit := do
  let eph ← cryptoBoxKeygen host
  let circuitId ← Prog.read Circuit.circuitId
  connectionSendCell (cellCreate circuitId relayIdPk eph.pk)
  let resp ← connectionRecvCell
  Prog.require (resp.command = cellCreatedCmd)
  let keySeed ← Prog.lift (ckeClientGuard C host eph relayOnionPk relayIdPk
    (relayEphPk resp.payload.val) (recvAuthTag resp.payload.val))
  addHop (circuitKx C keySeed) relayIdPk

/-- A PQ handshake with the guard. -/
def circuitCreatePq (relayOnionPk : Field 32) (relayKemPk : Field 1184) : Prog Circuit Unit := do
  let eph ← cryptoBoxKeygen host
  let circuitId ← Prog.read Circuit.circuitId
  connectionSendCell { cellCreate circuitId relayIdPk eph.pk with command := cellCreatePqCmd }
  let resp ← connectionRecvCell
  Prog.require (resp.command = cellCreatedPqCmd)
  let _keySeed ← Prog.lift (ckeClient C eph relayOnionPk relayIdPk
    (relayEphPk resp.payload.val) (recvAuthTag resp.payload.val))
  let (kemCt, kemSs) ← kemEncapsulate C host relayKemPk
  sendKemCt kemCt
  addHop (circuitKxPq C kemSs) relayIdPk

/-- Waits for the answer to an extension. -/
def recvExtended : Prog Circuit RelayPayload := do
  let resp ← connectionRecvCell
  Prog.require (resp.command = cellRelayCmd)
  let payload ← decryptBackward C resp.payload
  return relayUnpack payload

/-- A classical handshake with the next relay, through the circuit. -/
def circuitExtend (next : NodeDescriptor) : Prog Circuit Unit := do
  let hops ← Prog.read Circuit.hops
  Prog.require (hops.length < moorCircuitHops)
  let eph ← cryptoBoxKeygen host
  sendForward C cellRelayEarlyCmd relayExtend2 (extend2Data host next eph.pk)
  let relay ← recvExtended C
  Prog.require ((relay.relayCommand = relayExtended ∨ relay.relayCommand = relayExtended2) ∧
    64 ≤ relay.dataLength)
  let keySeed ← Prog.lift (ckeClient C eph next.onionPk next.identityPk
    (relayEphPk relay.data) (recvAuthTag relay.data))
  addHop (circuitKx C keySeed) next.identityPk

/-- A PQ handshake with the next relay, through the circuit. -/
def circuitExtendPq (next : NodeDescriptor) : Prog Circuit Unit := do
  let eph ← cryptoBoxKeygen host
  let (kemCt, kemSs) ← kemEncapsulate C host next.kemPk
  sendKemOffer C kemCt
  sendForward C cellRelayEarlyCmd relayExtendPq (extendPqData next.address next eph.pk)
  let relay ← recvExtended C
  Prog.require (relay.relayCommand = relayExtendedPq ∧ 64 ≤ relay.dataLength)
  let _keySeed ← Prog.lift (ckeClient C eph next.onionPk next.identityPk
    (relayEphPk relay.data) (recvAuthTag relay.data))
  addHop (circuitKxPq C kemSs) next.identityPk

/-! ### The builder -/

/-- Opens the circuit with the guard. After a PQ handshake that failed, the client connects again,
if it can, and makes a classical one. -/
def circuitBuildCreate (reconnect : Option Link) : Prog Circuit Unit :=
  if pqHop guard then do
    let ok ← Prog.attempt (circuitCreatePq C host guard.identityPk guard.onionPk guard.kemPk)
    if ok then return ()
    else do
      let link ← Prog.lift reconnect
      Prog.modify fun circ => { circ with link := link }
      circuitCreate C host guard.identityPk guard.onionPk
  else circuitCreate C host guard.identityPk guard.onionPk

/-- Extends the circuit, with a PQ handshake where the relay has it. -/
def circuitBuildExtend (next : NodeDescriptor) : Prog Circuit Unit :=
  if pqHop next then circuitExtendPq C host next else circuitExtend C host next

/-- Builds a circuit of three hops. The relays after the guard are selected when the guard has
answered. -/
def circuitBuild (middle exitRelay : Option NodeDescriptor) (reconnect : Option Link) :
    Prog Circuit Unit := do
  circuitBuildCreate C host guard reconnect
  let exitRelay ← Prog.lift exitRelay
  let middle ← Prog.lift middle
  circuitBuildExtend C host middle
  circuitBuildExtend C host exitRelay

end

/-! ### What the programs do to the keys -/

def Circuit.keys (circ : Circuit) : List (Field 32 × Field 32 × Field 32) :=
  circ.hops.map Hop.keys

/-- No key was changed, and `n` values were drawn. -/
structure Circuit.Drew (n : ℕ) (circ circ' : Circuit) : Prop where
  keys : circ'.keys = circ.keys
  drawn : circ'.drawn = circ.drawn + n

/-- No key was changed. -/
structure Circuit.SameKeys (circ circ' : Circuit) : Prop where
  keys : circ'.keys = circ.keys
  drawn : circ.drawn ≤ circ'.drawn

/-- One hop was added, and at least `n` values were drawn. -/
structure Circuit.Added (n : ℕ) (key : Field 32 × Field 32 × Field 32) (circ circ' : Circuit) :
    Prop where
  keys : circ'.keys = circ.keys ++ [key]
  drawn : circ.drawn + n ≤ circ'.drawn

/-- A relation that does not see programs that leave the keys as they are and draw nothing. -/
class Keeps (R : Circuit → Circuit → Prop) : Prop where
  kept : ∀ {circ circ' circ''}, R circ circ' → circ'.Drew 0 circ'' → R circ circ''

namespace Circuit

variable {circ circ' circ'' : Circuit} {key : Field 32 × Field 32 × Field 32} {m n : ℕ}

theorem Drew.refl (circ : Circuit) : circ.Drew 0 circ := ⟨rfl, rfl⟩

theorem Drew.trans (h : circ.Drew m circ') (h' : circ'.Drew n circ'') : circ.Drew (m + n) circ'' :=
  ⟨h'.keys.trans h.keys, by rw [h'.drawn, h.drawn, Nat.add_assoc]⟩

theorem Drew.added (h : circ.Drew n circ') (h' : circ'.Added 0 key circ'') :
    circ.Added n key circ'' :=
  ⟨by rw [h'.keys, h.keys], h.drawn ▸ h'.drawn⟩

theorem Drew.sameKeys (h : circ.Drew n circ') : circ.SameKeys circ' :=
  ⟨h.keys, h.drawn ▸ Nat.le_add_right _ _⟩

theorem SameKeys.refl (circ : Circuit) : circ.SameKeys circ := (Drew.refl circ).sameKeys

theorem SameKeys.trans (h : circ.SameKeys circ') (h' : circ'.SameKeys circ'') :
    circ.SameKeys circ'' :=
  ⟨h'.keys.trans h.keys, h.drawn.trans h'.drawn⟩

theorem SameKeys.added (h : circ.SameKeys circ') (h' : circ'.Added n key circ'') :
    circ.Added n key circ'' :=
  ⟨by rw [h'.keys, h.keys], (Nat.add_le_add_right h.drawn n).trans h'.drawn⟩

theorem Added.le (h : circ.Added n key circ') (hle : m ≤ n) : circ.Added m key circ' :=
  ⟨h.keys, (Nat.add_le_add_left hle _).trans h.drawn⟩

instance : Keeps (Drew n) := ⟨fun h h' => h.trans h'⟩

instance : Keeps SameKeys := ⟨fun h h' => h.trans h'.sameKeys⟩

end Circuit

section Within

open Prog Circuit

variable (C : Crypto) (host : Host) {R : Circuit → Circuit → Prop} [Keeps R]

/-- A program that leaves the keys as they are and draws nothing stays within the relation. -/
theorem within_of_kept {α : Type} {p : Prog Circuit α} (h : ∀ circ, Drew 0 circ (p circ).2) :
    Within R p := by
  intro circ₀ circ hR
  have hstep : R circ₀ (p circ).2 := Keeps.kept hR (h circ)
  rw [Spec]
  rcases hp : p circ with ⟨_ | a, circ'⟩ <;> rwa [hp] at hstep

theorem within_connectionSendCell (cell : Cell) : Within R (connectionSendCell cell) := by
  refine within_of_kept ?_
  intro circ
  rw [connectionSendCell]
  split <;> exact ⟨rfl, rfl⟩

theorem within_connectionRecvCell : Within R connectionRecvCell := by
  refine within_of_kept ?_
  intro circ
  simp only [connectionRecvCell]
  split <;> exact ⟨rfl, rfl⟩

theorem within_decryptBackward (payload : Payload) : Within R (decryptBackward C payload) :=
  within_of_kept fun circ => ⟨map_keys_circuitDecryptBackward C circ.hops payload, rfl⟩

theorem within_sendForward (command relayCmd : UInt8) (data : Bytes) :
    Within R (sendForward C command relayCmd data) := by
  refine Within.bind ?_ fun payload => (within_read _).bind fun circuitId =>
    within_connectionSendCell _
  exact within_of_kept fun circ => ⟨map_keys_circuitEncryptForward C circ.hops _, rfl⟩

theorem within_sendKemCt (kemCt : Field 1088) : Within R (sendKemCt kemCt) :=
  (within_read _).bind fun _ => within_forEach (fun _ => within_connectionSendCell _) _

theorem within_sendKemOffer (kemCt : Field 1088) : Within R (sendKemOffer C kemCt) :=
  within_forEach (fun _ => within_sendForward C _ _ _) _

theorem within_recvExtended : Within R (recvExtended C) :=
  within_connectionRecvCell.bind fun _ => (within_require _).bind fun _ =>
    (within_decryptBackward C _).bind within_pure

end Within

/-! ### KEM secrets -/

/-- The client encapsulated the secret to the KEM key, with its own randomness. -/
def Encapsulated (C : Crypto) (host : Host) (drawn : ℕ) (kemPk : Field 1184) (kemSs : Field 32) :
    Prop :=
  ∃ n < drawn, ∃ kemCt, C.kemEncapsulate kemPk (host.kemCoins n) = some (kemCt, kemSs)

/-- The keys come from a secret that the client encapsulated to the KEM key. -/
def KemDerived (C : Crypto) (host : Host) (drawn : ℕ) (kemPk : Field 1184)
    (key : Field 32 × Field 32 × Field 32) : Prop :=
  ∃ kemSs, Encapsulated C host drawn kemPk kemSs ∧
    key.2 = ((circuitKxPq C kemSs).forwardKey, (circuitKxPq C kemSs).backwardKey)

section Handshakes

open Prog Circuit

variable {C : Crypto} {host : Host} {circ circ₀ : Circuit} {n : ℕ}

variable {kemPk : Field 1184}

theorem Encapsulated.mono {drawn drawn' : ℕ} {kemSs : Field 32}
    (h : Encapsulated C host drawn kemPk kemSs) (hle : drawn ≤ drawn') :
    Encapsulated C host drawn' kemPk kemSs := by
  obtain ⟨n, hn, hkem⟩ := h
  exact ⟨n, hn.trans_le hle, hkem⟩

theorem KemDerived.mono {drawn drawn' : ℕ} {key : Field 32 × Field 32 × Field 32}
    (h : KemDerived C host drawn kemPk key) (hle : drawn ≤ drawn') :
    KemDerived C host drawn' kemPk key := by
  obtain ⟨kemSs, hkem, hkey⟩ := h
  exact ⟨kemSs, hkem.mono hle, hkey⟩

theorem Circuit.Drew.spec {α : Type} {p : Prog Circuit α} (h : circ₀.Drew n circ)
    (hp : Within (Drew n) p) : Spec p (fun _ => circ₀.Drew n) circ₀.SameKeys circ :=
  (hp circ₀ circ h).mono (fun _ _ h => h) fun _ => Drew.sameKeys

theorem spec_cryptoBoxKeygen (h : circ₀.Drew n circ) :
    Spec (cryptoBoxKeygen host)
      (fun eph circ' => eph = host.boxKeygen circ.drawn ∧ circ₀.Drew (n + 1) circ')
      circ₀.SameKeys circ :=
  ⟨rfl, h.trans ⟨rfl, rfl⟩⟩

theorem spec_kemEncapsulate (kemPk : Field 1184) (h : circ₀.Drew n circ) :
    Spec (kemEncapsulate C host kemPk)
      (fun out circ' => C.kemEncapsulate kemPk (host.kemCoins (circ₀.drawn + n)) = some out ∧
        circ₀.Drew (n + 1) circ')
      circ₀.SameKeys circ := by
  have hstep : circ₀.Drew (n + 1) { circ with drawn := circ.drawn + 1 } := h.trans ⟨rfl, rfl⟩
  rw [Spec, kemEncapsulate, ← h.drawn]
  cases hkem : C.kemEncapsulate kemPk (host.kemCoins circ.drawn) with
  | none => exact hstep.sameKeys
  | some out => exact ⟨rfl, hstep⟩

theorem spec_addHop (keys : HopKeys) (nodeId : Field 32) (h : circ₀.Drew n circ) :
    Spec (addHop keys nodeId) (fun _ => circ₀.Added n (keys.hop nodeId).keys)
      circ₀.SameKeys circ := by
  refine (h.spec (within_read _)).bind ?_
  intro hops circ₁ h₁
  refine (h₁.spec (within_require _)).bind ?_
  intro _ circ₂ h₂
  exact spec_modify (h₂.added ⟨List.map_append, le_rfl⟩)

/-- A classical handshake with the guard adds a hop. -/
theorem spec_circuitCreate (relayIdPk relayOnionPk : Field 32) :
    Spec (circuitCreate C host relayIdPk relayOnionPk)
      (fun _ circ' => ∃ key, circ.Added 1 key circ') circ.SameKeys circ := by
  refine (spec_cryptoBoxKeygen (.refl circ)).bind ?_
  intro eph circ₁ hpost
  rcases hpost with ⟨_, h₁⟩
  refine (h₁.spec (within_read _)).bind ?_
  intro circuitId circ₂ h₂
  refine (h₂.spec (within_connectionSendCell _)).bind ?_
  intro _ circ₃ h₃
  refine (h₃.spec within_connectionRecvCell).bind ?_
  intro resp circ₄ h₄
  refine (h₄.spec (within_require _)).bind ?_
  intro _ circ₅ h₅
  refine (h₅.spec (within_lift _)).bind ?_
  intro keySeed circ₆ h₆
  exact (spec_addHop _ _ h₆).mono (fun _ _ hadded => ⟨_, hadded⟩) fun _ hsame => hsame

/-- A PQ handshake with the guard adds a hop whose keys come from a KEM secret. -/
theorem spec_circuitCreatePq (relayIdPk relayOnionPk : Field 32) (relayKemPk : Field 1184) :
    Spec (circuitCreatePq C host relayIdPk relayOnionPk relayKemPk)
      (fun _ circ' => ∃ kemCt kemSs,
        C.kemEncapsulate relayKemPk (host.kemCoins (circ.drawn + 1)) = some (kemCt, kemSs) ∧
        circ.Added 2 ((circuitKxPq C kemSs).hop relayIdPk).keys circ')
      circ.SameKeys circ := by
  refine (spec_cryptoBoxKeygen (.refl circ)).bind ?_
  intro eph circ₁ hpost
  rcases hpost with ⟨_, h₁⟩
  refine (h₁.spec (within_read _)).bind ?_
  intro circuitId circ₂ h₂
  refine (h₂.spec (within_connectionSendCell _)).bind ?_
  intro _ circ₃ h₃
  refine (h₃.spec within_connectionRecvCell).bind ?_
  intro resp circ₄ h₄
  refine (h₄.spec (within_require _)).bind ?_
  intro _ circ₅ h₅
  refine (h₅.spec (within_lift _)).bind ?_
  intro keySeed circ₆ h₆
  refine (spec_kemEncapsulate relayKemPk h₆).bind ?_
  intro out circ₇ hpost
  rcases hpost with ⟨hkem, h₇⟩
  refine (h₇.spec (within_sendKemCt out.1)).bind ?_
  intro _ circ₈ h₈
  refine (spec_addHop _ _ h₈).mono ?_ fun _ hsame => hsame
  intro _ _ hadded
  exact ⟨out.1, out.2, hkem, hadded⟩

variable (next : NodeDescriptor)

/-- A classical extension adds a hop. -/
theorem spec_circuitExtend :
    Spec (circuitExtend C host next) (fun _ circ' => ∃ key, circ.Added 1 key circ')
      circ.SameKeys circ := by
  refine (Drew.spec (.refl circ) (within_read _)).bind ?_
  intro hops circ₁ h₁
  refine (h₁.spec (within_require _)).bind ?_
  intro _ circ₂ h₂
  refine (spec_cryptoBoxKeygen h₂).bind ?_
  intro eph circ₃ hpost
  rcases hpost with ⟨_, h₃⟩
  refine (h₃.spec (within_sendForward C _ _ _)).bind ?_
  intro _ circ₄ h₄
  refine (h₄.spec (within_recvExtended C)).bind ?_
  intro relay circ₅ h₅
  refine (h₅.spec (within_require _)).bind ?_
  intro _ circ₆ h₆
  refine (h₆.spec (within_lift _)).bind ?_
  intro keySeed circ₇ h₇
  exact (spec_addHop _ _ h₇).mono (fun _ _ hadded => ⟨_, hadded⟩) fun _ hsame => hsame

/-- A PQ extension adds a hop whose keys come from a KEM secret. -/
theorem spec_circuitExtendPq :
    Spec (circuitExtendPq C host next)
      (fun _ circ' => ∃ kemCt kemSs,
        C.kemEncapsulate next.kemPk (host.kemCoins (circ.drawn + 1)) = some (kemCt, kemSs) ∧
        circ.Added 2 ((circuitKxPq C kemSs).hop next.identityPk).keys circ')
      circ.SameKeys circ := by
  refine (spec_cryptoBoxKeygen (.refl circ)).bind ?_
  intro eph circ₁ hpost
  rcases hpost with ⟨_, h₁⟩
  refine (spec_kemEncapsulate next.kemPk h₁).bind ?_
  intro out circ₂ hpost
  rcases hpost with ⟨hkem, h₂⟩
  refine (h₂.spec (within_sendKemOffer C out.1)).bind ?_
  intro _ circ₃ h₃
  refine (h₃.spec (within_sendForward C _ _ _)).bind ?_
  intro _ circ₄ h₄
  refine (h₄.spec (within_recvExtended C)).bind ?_
  intro relay circ₅ h₅
  refine (h₅.spec (within_require _)).bind ?_
  intro _ circ₆ h₆
  refine (h₆.spec (within_lift _)).bind ?_
  intro keySeed circ₇ h₇
  refine (spec_addHop _ _ h₇).mono ?_ fun _ hsame => hsame
  intro _ _ hadded
  exact ⟨out.1, out.2, hkem, hadded⟩

/-- What the PQ handshakes say of the new hop. -/
theorem Circuit.Added.kemDerived {circ' : Circuit} {kemCt : Field 1088} {kemSs nodeId : Field 32}
    (hadded : circ.Added 2 ((circuitKxPq C kemSs).hop nodeId).keys circ')
    (hkem : C.kemEncapsulate kemPk (host.kemCoins (circ.drawn + 1)) = some (kemCt, kemSs)) :
    KemDerived C host circ'.drawn kemPk ((circuitKxPq C kemSs).hop nodeId).keys :=
  ⟨kemSs, ⟨circ.drawn + 1, hadded.drawn, kemCt, hkem⟩, rfl⟩

/-! ### The builder -/

/-- A PQ handshake with the guard took place. -/
def createPqDone (C : Crypto) (host : Host) (guard : NodeDescriptor) (circ : Circuit) : Bool :=
  pqHop guard &&
    (circuitCreatePq C host guard.identityPk guard.onionPk guard.kemPk circ).1.isSome

variable (guard : NodeDescriptor)

theorem spec_circuitBuildCreate (reconnect : Option Link) :
    Spec (circuitBuildCreate C host guard reconnect)
      (fun _ circ' => ∃ key, circ.Added 1 key circ' ∧
        (createPqDone C host guard circ = true → KemDerived C host circ'.drawn guard.kemPk key))
      circ.SameKeys circ := by
  have hclassical {circ₁ : Circuit} (h : circ.SameKeys circ₁)
      (hdone : createPqDone C host guard circ ≠ true) :
      Spec (circuitCreate C host guard.identityPk guard.onionPk)
        (fun _ circ' => ∃ key, circ.Added 1 key circ' ∧
          (createPqDone C host guard circ = true → KemDerived C host circ'.drawn guard.kemPk key))
        circ.SameKeys circ₁ := by
    refine (spec_circuitCreate _ _).mono ?_ fun _ => h.trans
    intro _ circ' hpost
    rcases hpost with ⟨key, hadded⟩
    exact ⟨key, h.added hadded, fun h => absurd h hdone⟩
  rw [circuitBuildCreate]
  split
  · -- the attempt has succeeded, or nothing was added
    refine Spec.bind (Q := fun ok circ' =>
      (ok = true ∧ ∃ key, circ.Added 1 key circ' ∧ KemDerived C host circ'.drawn guard.kemPk key) ∨
      (ok = false ∧ circ.SameKeys circ' ∧ createPqDone C host guard circ ≠ true)) ?_ ?_
    · refine spec_attempt (((spec_circuitCreatePq _ _ _).and_result).mono ?_ ?_)
      · rintro _ circ' ⟨⟨kemCt, kemSs, hkem, hadded⟩, -⟩
        exact .inl ⟨rfl, _, hadded.le (by decide), hadded.kemDerived hkem⟩
      · intro circ' hpost
        rcases hpost with ⟨h, hfail⟩
        exact .inr ⟨rfl, h, by simp [createPqDone, hfail]⟩
    · rintro ok circ' (⟨rfl, key, hadded, hkem⟩ | ⟨rfl, hsame, hdone⟩)
      · exact ⟨key, hadded, fun _ => hkem⟩
      refine (within_lift reconnect circ circ' hsame).bind ?_
      intro link circ₁ h₁
      refine Spec.bind (Q := fun _ => circ.SameKeys) ?_ fun _ circ₂ h₂ => hclassical h₂ hdone
      exact spec_modify { h₁ with }
  · rename_i hpq
    exact hclassical (.refl circ) (by simp [createPqDone, hpq])

/-- An extension adds a hop, whose keys come from a KEM secret when the relay has PQ. -/
theorem spec_circuitBuildExtend :
    Spec (circuitBuildExtend C host next)
      (fun _ circ' => ∃ key, circ.Added 1 key circ' ∧
        (pqHop next = true → KemDerived C host circ'.drawn next.kemPk key))
      circ.SameKeys circ := by
  rw [circuitBuildExtend]
  by_cases hpq : pqHop next = true
  · rw [if_pos hpq]
    refine (spec_circuitExtendPq next).mono ?_ fun _ hsame => hsame
    intro _ circ' hpost
    rcases hpost with ⟨kemCt, kemSs, hkem, hadded⟩
    exact ⟨_, hadded.le (by decide), fun _ => hadded.kemDerived hkem⟩
  · rw [if_neg hpq]
    refine (spec_circuitExtend next).mono ?_ fun _ hsame => hsame
    intro _ circ' hpost
    rcases hpost with ⟨key, hadded⟩
    exact ⟨key, hadded, fun h => absurd h hpq⟩

/-- The keys of a circuit that was built: the guard's come from a KEM secret when the PQ handshake
with it took place, those of the other hops when their relays have PQ. -/
theorem spec_circuitBuild (middle exitRelay : Option NodeDescriptor) (reconnect : Option Link) :
    Spec (circuitBuild C host guard middle exitRelay reconnect)
      (fun _ circ' => ∃ k₀ k₁ k₂, circ'.keys = circ.keys ++ [k₀, k₁, k₂] ∧
        (createPqDone C host guard circ = true → KemDerived C host circ'.drawn guard.kemPk k₀) ∧
        (∀ m ∈ middle, pqHop m = true → KemDerived C host circ'.drawn m.kemPk k₁) ∧
        ∀ e ∈ exitRelay, pqHop e = true → KemDerived C host circ'.drawn e.kemPk k₂)
      (fun _ => True) circ := by
  refine (spec_circuitBuildCreate guard reconnect).ignoreFailure.bind ?_
  intro _ circ₁ hpost
  rcases hpost with ⟨k₀, h₀, hkem₀⟩
  refine Spec.bind (spec_lift (Q := fun e circ' => exitRelay = some e ∧ circ₁ = circ')
    (fun e he => ⟨he, rfl⟩) fun _ => trivial) ?_
  rintro e _ ⟨rfl, rfl⟩
  refine Spec.bind (spec_lift (Q := fun m circ' => middle = some m ∧ circ₁ = circ')
    (fun m hm => ⟨hm, rfl⟩) fun _ => trivial) ?_
  rintro m _ ⟨rfl, rfl⟩
  refine (spec_circuitBuildExtend m).ignoreFailure.bind ?_
  intro _ circ₂ hpost
  rcases hpost with ⟨k₁, h₁, hkem₁⟩
  refine (spec_circuitBuildExtend e).mono ?_ fun _ _ => trivial
  intro _ circ₃ hpost
  rcases hpost with ⟨k₂, h₂, hkem₂⟩
  refine ⟨k₀, k₁, k₂, ?_, fun h => (hkem₀ h).mono ?_, ?_, ?_⟩
  · rw [h₂.keys, h₁.keys, h₀.keys]
    simp
  · have := h₁.drawn
    have := h₂.drawn
    omega
  · rintro _ ⟨⟩ hpq
    exact (hkem₁ hpq).mono (Nat.le_of_succ_le h₂.drawn)
  · rintro _ ⟨⟩ hpq
    exact hkem₂ hpq

end Handshakes

end Moor
