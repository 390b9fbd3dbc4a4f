import Moor.Circuit.AsyncBuild

/-!
# Relays with PQ and the keys of their hops

Both builders offer a PQ handshake to every relay that has PQ. Here is what that says about the keys
of a circuit that is ready, whatever the network has answered.
-/

namespace Moor

open Codec Prog

section

variable {C : Crypto} {host : Host}

/-- A circuit that the builder reports as ready has three hops. -/
theorem Builder.Inv.hops {path : Path} {b : Builder} (hinv : b.Inv C host path)
    (hdone : b.completed = some true) :
    b.circ.hops.length = moorCircuitHops ∧
      ∀ i hop, b.circ.hops[i]? = some hop → pqHop (path.hop i) = true →
        i = 0 ∨ b.answers[i]? = some relayExtendedPq →
        KemDerived C host b.circ.drawn (path.hop i).kemPk hop.keys := by
  obtain ⟨hlen, hest⟩ := hinv.completed hdone
  refine ⟨by simpa [Circuit.keys] using hlen, ?_⟩
  intro i hop hhop
  exact hest.kem i hop.keys (by simp [Circuit.keys, hhop])

theorem circuitBuild_hops {guard : NodeDescriptor} {middle exitRelay : Option NodeDescriptor}
    {reconnect : Option Link} {circ circ' : Circuit} (hnew : circ.hops = [])
    (hbuild : circuitBuild C host guard middle exitRelay reconnect circ = (some (), circ')) :
    ∃ h₀ h₁ h₂, circ'.hops = [h₀, h₁, h₂] ∧
      (createPqDone C host guard circ = true → KemDerived C host circ'.drawn guard.kemPk h₀.keys) ∧
      (∀ m ∈ middle, pqHop m = true → KemDerived C host circ'.drawn m.kemPk h₁.keys) ∧
      ∀ e ∈ exitRelay, pqHop e = true → KemDerived C host circ'.drawn e.kemPk h₂.keys := by
  obtain ⟨k₀, k₁, k₂, hkeys, h₀, h₁, h₂⟩ :=
    (spec_circuitBuild (C := C) guard middle exitRelay reconnect).of_returns hbuild
  have hmap : circ'.hops.map Hop.keys = [k₀, k₁, k₂] := by
    simpa [Circuit.keys, hnew] using hkeys
  obtain ⟨hop₀, _, hhops, rfl, hrest₀⟩ := List.map_eq_cons_iff.mp hmap
  obtain ⟨hop₁, _, rfl, rfl, hrest₁⟩ := List.map_eq_cons_iff.mp hrest₀
  obtain ⟨hop₂, _, rfl, rfl, hrest₂⟩ := List.map_eq_cons_iff.mp hrest₁
  obtain rfl := List.map_eq_nil_iff.mp hrest₂
  exact ⟨hop₀, hop₁, hop₂, hhops, h₀, h₁, h₂⟩

end

/-- In a circuit that is ready the keys of a relay with PQ come from a KEM secret that the client
encapsulated to that relay. For the builder that does not wait this holds of the first hop, and of
an extended hop that was answered as a PQ extension. For the builder that waits it holds of the
extended hops, and of the first hop unless the PQ handshake with the guard has failed and the client
has connected again. -/
theorem no_classical_downgrade (C : Crypto) (host : Host) :
    (∀ circuitId path room drawn events,
      let b := (Builder.start circuitId path room drawn).run C host events
      b.completed = some true →
        b.circ.hops.length = moorCircuitHops ∧
        ∀ i hop, b.circ.hops[i]? = some hop → pqHop (path.hop i) = true →
          i = 0 ∨ b.answers[i]? = some relayExtendedPq →
          KemDerived C host b.circ.drawn (path.hop i).kemPk hop.keys) ∧
    ∀ guard middle exitRelay reconnect circ circ', circ.hops = [] →
      circuitBuild C host guard middle exitRelay reconnect circ = (some (), circ') →
      ∃ h₀ h₁ h₂, circ'.hops = [h₀, h₁, h₂] ∧
        (createPqDone C host guard circ = true →
          KemDerived C host circ'.drawn guard.kemPk h₀.keys) ∧
        (∀ m ∈ middle, pqHop m = true → KemDerived C host circ'.drawn m.kemPk h₁.keys) ∧
        ∀ e ∈ exitRelay, pqHop e = true → KemDerived C host circ'.drawn e.kemPk h₂.keys := by
  constructor
  · intro circuitId path room drawn events b hdone
    exact ((Builder.inv_start circuitId path room drawn).run events).hops hdone
  · intro guard middle exitRelay reconnect circ circ' hnew hbuild
    exact circuitBuild_hops hnew hbuild

/-! ### Builds with the stand-in primitives -/

/-- With the stand-in primitives the two keys of a pair are equal. -/
def sampleKeys (b : UInt8) : KeyPair := ⟨Arr.replicate 32 b, Arr.replicate 32 b⟩

def sampleHost : Host where
  boxKeygen n := sampleKeys (UInt8.ofNat (n + 1))
  kemCoins n := Arr.replicate 32 (UInt8.ofNat (n + 65))
  inetPton4 _ := none
  inetPton6 _ := none
  relays := []

def samplePqRelay (b : UInt8) : NodeDescriptor :=
  { NodeDescriptor.zero with
    identityPk := Arr.replicate 32 b
    onionPk := (sampleKeys b).pk
    features := nodeFeaturePq
    kemPk := Arr.replicate 1184 b }

def samplePath : Path := ⟨[samplePqRelay 200, samplePqRelay 210, samplePqRelay 220], rfl⟩

/-- What a relay answers when the client's ephemeral key is the `n`-th that was drawn. -/
def sampleAnswer (b : UInt8) (n : ℕ) : Bytes :=
  let eph := sampleKeys (b + 1)
  match ckeRelay Crypto.sample eph (sampleKeys b).sk (Arr.replicate 32 b)
      (sampleHost.boxKeygen n).pk with
  | some (_, authTag) => eph.pk.val ++ authTag.val
  | none => []

/-- The answers that a client gets: the guard's, and for each further relay a PQ answer through the
hops that the client has by then. -/
def sampleInbox (client : List Cell → Circuit) (created : Cell) (relays : List (UInt8 × ℕ)) :
    List Cell :=
  relays.foldl (fun inbox (b, n) =>
    inbox ++ [⟨7, cellRelayCmd, lastHopSends Crypto.sample (client inbox).hops
      (cellRelay relayExtendedPq 0 (sampleAnswer b n))⟩]) [created]

/-- A build without waiting, with the cells that come in. -/
def sampleAsync (inbox : List Cell) : Builder :=
  (Builder.start 7 samplePath 100 0).run Crypto.sample sampleHost
    (.connected true :: inbox.map .cell)

/-- A build that waits, with the cells that come in on the first and on a second link. -/
def sampleSync (inbox : List Cell) (again : Option (List Cell)) : Option Unit × Circuit :=
  circuitBuild Crypto.sample sampleHost (samplePath.hop 0) (some (samplePath.hop 1))
    (some (samplePath.hop 2)) (again.map (Link.mk 100 [])) ⟨7, [], ⟨100, [], inbox⟩, 0⟩

/-- All relays answer as they are asked. -/
def pqInbox : List Cell :=
  sampleInbox (fun inbox => (sampleAsync inbox).circ)
    ⟨7, cellCreatedPqCmd, Arr.ofList 509 0 (sampleAnswer 200 0)⟩ [(210, 2), (220, 4)]

/-- The guard answers a classical handshake on the second link. -/
def fallbackInbox : List Cell :=
  sampleInbox (fun inbox => (sampleSync [] (some inbox)).2)
    ⟨7, cellCreatedCmd, Arr.ofList 509 0 (sampleAnswer 200 1)⟩ [(210, 2), (220, 4)]

set_option maxRecDepth 100000 in
theorem no_classical_downgrade_sample :
    ((sampleAsync pqInbox).completed = some true ∧
      ∀ i hop, (sampleAsync pqInbox).circ.hops[i]? = some hop → i < 3 →
        KemDerived Crypto.sample sampleHost (sampleAsync pqInbox).circ.drawn
          (samplePath.hop i).kemPk hop.keys) ∧
    ∃ h₀ h₁ h₂, (sampleSync pqInbox none).1 = some () ∧
      (sampleSync pqInbox none).2.hops = [h₀, h₁, h₂] ∧
      KemDerived Crypto.sample sampleHost (sampleSync pqInbox none).2.drawn
        (samplePath.hop 0).kemPk h₀.keys := by
  obtain ⟨hasync, hall, hsync, hpq⟩ : (sampleAsync pqInbox).completed = some true ∧
      (∀ i < 3, pqHop (samplePath.hop i) = true ∧
        (i = 0 ∨ (sampleAsync pqInbox).answers[i]? = some relayExtendedPq)) ∧
      (sampleSync pqInbox none).1 = some () ∧
      createPqDone Crypto.sample sampleHost (samplePath.hop 0) ⟨7, [], ⟨100, [], pqInbox⟩, 0⟩ =
        true := by
    decide +kernel
  -- what follows holds of every inbox, and must not evaluate this one
  generalize pqInbox = inbox at *
  obtain ⟨h₀, h₁, h₂, hhops, hkem, -⟩ := (no_classical_downgrade Crypto.sample sampleHost).2
    (samplePath.hop 0) (some (samplePath.hop 1)) (some (samplePath.hop 2)) none
    ⟨7, [], ⟨100, [], inbox⟩, 0⟩ (sampleSync inbox none).2 rfl (Prod.ext hsync rfl)
  refine ⟨⟨hasync, ?_⟩, h₀, h₁, h₂, hsync, hhops, hkem hpq⟩
  intro i hop hhop hi
  exact ((no_classical_downgrade Crypto.sample sampleHost).1 7 samplePath 100 0 _ hasync).2 i hop
    hhop (hall i hi).1 (hall i hi).2

set_option maxRecDepth 100000 in
/-- The guard has PQ, but its PQ handshake is not answered. The circuit is ready with the classical
handshake on the second link, and the keys of the first hop come from no KEM secret. -/
theorem circuitBuild_classical_fallback :
    pqHop (samplePath.hop 0) = true ∧ (sampleSync [] (some fallbackInbox)).1 = some () ∧
      ∃ hop, (sampleSync [] (some fallbackInbox)).2.hops[0]? = some hop ∧
        ¬KemDerived Crypto.sample sampleHost (sampleSync [] (some fallbackInbox)).2.drawn
          (samplePath.hop 0).kemPk hop.keys := by
  have hrun : (sampleSync [] (some fallbackInbox)).1 = some () ∧
      (sampleSync [] (some fallbackInbox)).2.drawn = 6 ∧
      ((sampleSync [] (some fallbackInbox)).2.hops[0]?).isSome = true ∧
      ∀ n < 6, (sampleSync [] (some fallbackInbox)).2.hops[0]?.map (fun hop => hop.forward.key) ≠
        some (circuitKxPq Crypto.sample (sampleHost.kemCoins n)).forwardKey := by
    decide +kernel
  refine ⟨by decide +kernel, hrun.1, ?_⟩
  obtain ⟨-, hdrawn, hsome, hne⟩ := hrun
  obtain ⟨hop, hhop⟩ := Option.isSome_iff_exists.mp hsome
  refine ⟨hop, hhop, ?_⟩
  intro hderived
  rcases hderived with ⟨kemSs, ⟨n, hn, kemCt, hkem⟩, hkey⟩
  -- the stand-in KEM has its coins for the secret
  cases hkem
  refine hne n (hdrawn ▸ hn) ?_
  rw [hhop]
  exact congrArg some (Prod.mk.inj hkey).1

end Moor
