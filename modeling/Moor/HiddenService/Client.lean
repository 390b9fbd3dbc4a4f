import Moor.HiddenService.Address

/-!
# Connecting to a hidden service

A client fetches a descriptor for an address from a directory it does not trust, checks it, and
then introduces itself: it seals the introduction to the service's KEM key and sends it, with the
blinded key, to one of the introduction points.
-/

namespace Moor

open Codec

def moorMaxIntroPoints : ℕ := 10

/-- An introduction point of a service. -/
structure IntroPoint where
  nodeId : Field 32
  address : Field 64
  orPort : UInt16
  deriving DecidableEq

/-- A hidden-service descriptor. -/
structure HsDescriptor where
  addressHash : Field 32
  servicePk : Field 32
  onionPk : Field 32
  blindedPk : Field 32
  introPoints : List IntroPoint
  signature : Field 64
  revision : UInt64
  authType : UInt8
  authEntries : List (Field 80)
  powSeed : Field 32
  powDifficulty : UInt8
  kemPk : Field 1184
  kemAvailable : Bool
  falconPk : Field 897
  falconAvailable : Bool
  falconSignature : Field 752
  falconSigLen : UInt16
  introPoints_le : introPoints.length ≤ moorMaxIntroPoints

/-! ### The signatures -/

/-- The content that the service's signature covers through its hash. The number of introduction
points is copied in the machine's byte order. -/
def hsSignedContent (hsDesc : HsDescriptor) : Bytes :=
  hsDesc.blindedPk.val ++ le32 (UInt32.ofNat hsDesc.introPoints.length) ++
  joinFields ((hsDesc.introPoints.take moorMaxIntroPoints).map (·.nodeId)) ++
  hsDesc.powSeed.val ++ [hsDesc.powDifficulty] ++ be64 hsDesc.revision

variable (C : Crypto)

/-- The bytes that both signatures are over. -/
def hsToVerify (hsDesc : HsDescriptor) : Bytes :=
  hsDesc.addressHash.val ++ hsDesc.servicePk.val ++ (C.hash (hsSignedContent hsDesc)).val

/-- The Falcon signature on the descriptor is present and valid. -/
def hsFalconOk (hsDesc : HsDescriptor) : Bool :=
  hsDesc.falconSigLen != 0 &&
    C.falconVerify (hsDesc.falconSignature.val.take hsDesc.falconSigLen.toNat)
      (hsToVerify C hsDesc) hsDesc.falconPk

/-- The Ed25519 signature is valid, and so is the Falcon signature where there is a Falcon key. -/
def hsSignaturesOk (hsDesc : HsDescriptor) : Bool :=
  C.signVerify hsDesc.signature (hsToVerify C hsDesc) hsDesc.servicePk &&
    (!hsDesc.falconAvailable || hsFalconOk C hsDesc)

/-- The PQ keys of the descriptor match the commitment of the address. -/
def hsCommitmentOk (pqCommitment : Option Bytes) (hsDesc : HsDescriptor) : Bool :=
  match pqCommitment with
  | none => true
  | some commitment =>
    if hsDesc.kemAvailable then
      let falconPk := if hsDesc.falconAvailable then some hsDesc.falconPk else none
      if commit16 C (commitInput hsDesc.kemPk falconPk) = commitment then true
      -- An address of the older format commits to the KEM key alone.
      else if hsDesc.falconAvailable then
        decide (commit16 C (commitInput hsDesc.kemPk none) = commitment)
      else false
    -- A missing KEM key only gives a warning at this point.
    else true

/-! ### The connection -/

/-- What the surroundings decide: whether an authorisation entry opens, whether the rendezvous point
was established, which introduction points were reached, and whether the introduction went out. -/
structure ConnectEnv where
  sealOpen : Field 80 → Option (Field 32)
  rpEstablished : Bool
  introBuilt : List (Field 32) → Option (Field 32)
  introSent : Bool

/-- What the client takes from the descriptor into the connection. -/
structure HsSession where
  servicePk : Field 32
  introNodeId : Field 32
  kemPk : Field 1184
  blindedPk : Field 32
  powSeed : Field 32
  powDifficulty : UInt8
  deriving DecidableEq

/-- Checks the descriptor fetched for an address and connects with it. -/
def hsClientConnectStart (env : ConnectEnv) (moorAddress : Bytes) (hsDesc : HsDescriptor) :
    Option HsSession :=
  match decodeMoorAddress moorAddress with
  | none => none
  | some address =>
    if hsDesc.servicePk ≠ address.servicePk then none
    else if !hsSignaturesOk C hsDesc then none
    else if !hsCommitmentOk C address.pqCommitment hsDesc then none
    else if hsDesc.authType = 1 ∧ hsDesc.authEntries.all (fun e => (env.sealOpen e).isNone) then
      none
    else if !env.rpEstablished then none
    else if hsDesc.introPoints.length = 0 then none
    else match env.introBuilt (hsDesc.introPoints.map (·.nodeId)) with
      | none => none
      | some introNodeId =>
        -- The introduction is sealed to the KEM key, so the descriptor must have one.
        if !hsDesc.kemAvailable then none
        else if !env.introSent then none
        else some {
          servicePk := hsDesc.servicePk
          introNodeId := introNodeId
          kemPk := hsDesc.kemPk
          blindedPk := hsDesc.blindedPk
          powSeed := hsDesc.powSeed
          powDifficulty := hsDesc.powDifficulty }

/-- What a successful connection says about the descriptor. -/
structure Accepted (C : Crypto) (env : ConnectEnv) (address : MoorAddress)
    (hsDesc : HsDescriptor) (session : HsSession) : Prop where
  servicePk : hsDesc.servicePk = address.servicePk
  signatures : hsSignaturesOk C hsDesc = true
  commitment : hsCommitmentOk C address.pqCommitment hsDesc = true
  kemAvailable : hsDesc.kemAvailable = true
  intro : env.introBuilt (hsDesc.introPoints.map (·.nodeId)) = some session.introNodeId
  session : session = ⟨hsDesc.servicePk, session.introNodeId, hsDesc.kemPk, hsDesc.blindedPk,
    hsDesc.powSeed, hsDesc.powDifficulty⟩

theorem hsClientConnectStart_accepted {C : Crypto} {env : ConnectEnv} {moorAddress : Bytes}
    {address : MoorAddress} {hsDesc : HsDescriptor} {session : HsSession}
    (haddr : decodeMoorAddress moorAddress = some address)
    (h : hsClientConnectStart C env moorAddress hsDesc = some session) :
    Accepted C env address hsDesc session := by
  rw [hsClientConnectStart, haddr] at h
  simp only [Option.ite_none_left_eq_some, Bool.not_eq_true', Bool.not_eq_false] at h
  obtain ⟨hpk, hsig, hcommit, -, -, -, h⟩ := h
  cases hintro : env.introBuilt (hsDesc.introPoints.map (·.nodeId)) with
  | none => simp [hintro] at h
  | some introNodeId =>
    simp only [hintro, Option.ite_none_left_eq_some, Bool.not_eq_false, Option.some_inj] at h
    obtain ⟨hkem, -, rfl⟩ := h
    exact ⟨not_not.mp hpk, hsig, hcommit, hkem, hintro, rfl⟩

/-! ### The commitment of the address -/

/-- The byte strings that computing an address with these keys and checking a descriptor against it
hash to a commitment. -/
def commitInputs (kemPk : Field 1184) (falconPk : Option (Field 897)) (hsDesc : HsDescriptor) :
    Set Bytes :=
  {commitInput kemPk falconPk, commitInput hsDesc.kemPk (some hsDesc.falconPk),
    commitInput hsDesc.kemPk none}

section Commitment

variable {C : Crypto} {hsDesc : HsDescriptor}

/-- The check passes when the address commits to both keys of the descriptor, or to its KEM key
alone. -/
theorem hsCommitmentOk_iff (hkem : hsDesc.kemAvailable = true) (commitment : Bytes) :
    hsCommitmentOk C (some commitment) hsDesc = true ↔
      (hsDesc.falconAvailable = true ∧
        commit16 C (commitInput hsDesc.kemPk (some hsDesc.falconPk)) = commitment) ∨
      commit16 C (commitInput hsDesc.kemPk none) = commitment := by
  cases hfalcon : hsDesc.falconAvailable with
  | true => simp [hsCommitmentOk, hkem, hfalcon]
  | false => simp [hsCommitmentOk, hkem, hfalcon]

/-- With a hash that does not collide, the check accepts exactly the keys the address was computed
from. -/
theorem hsCommitmentOk_iff_keys {kemPk : Field 1184} {falconPk : Option (Field 897)}
    (hinj : Set.InjOn (commit16 C) (commitInputs kemPk falconPk hsDesc))
    (hkem : hsDesc.kemAvailable = true) :
    hsCommitmentOk C (some (commit16 C (commitInput kemPk falconPk))) hsDesc = true ↔
      hsDesc.kemPk = kemPk ∧
        ∀ f, falconPk = some f → hsDesc.falconAvailable = true ∧ hsDesc.falconPk = f := by
  have hboth : commit16 C (commitInput hsDesc.kemPk (some hsDesc.falconPk))
      = commit16 C (commitInput kemPk falconPk) ↔
        hsDesc.kemPk = kemPk ∧ some hsDesc.falconPk = falconPk := by
    rw [hinj.eq_iff (by simp [commitInputs]) (by simp [commitInputs]), commitInput_inj]
  have hkemOnly : commit16 C (commitInput hsDesc.kemPk none)
      = commit16 C (commitInput kemPk falconPk) ↔ hsDesc.kemPk = kemPk ∧ none = falconPk := by
    rw [hinj.eq_iff (by simp [commitInputs]) (by simp [commitInputs]), commitInput_inj]
  rw [hsCommitmentOk_iff hkem, hboth, hkemOnly]
  cases falconPk with
  | none => simp
  | some f =>
    simp only [Option.some_inj, reduceCtorEq, and_false, or_false, forall_eq']
    tauto

end Commitment

variable {C : Crypto}

/-- A connection to an address with a commitment uses the KEM key committed to; if the address is of
a KEM and a Falcon key, the descriptor has both and a valid Falcon signature. -/
theorem hsClientConnectStart_keys {env : ConnectEnv} {hsDesc : HsDescriptor} {outLen : ℕ}
    {identityPk : Field 32} {kemPk : Field 1184} {falconPk : Option (Field 897)}
    {moorAddress : Bytes} {session : HsSession}
    (haddr : hsComputeAddress C outLen identityPk (some kemPk) falconPk = some moorAddress)
    (hinj : Set.InjOn (commit16 C) (commitInputs kemPk falconPk hsDesc))
    (h : hsClientConnectStart C env moorAddress hsDesc = some session) :
    hsDesc.kemAvailable = true ∧ hsDesc.kemPk = kemPk ∧
      ∀ f, falconPk = some f →
        hsDesc.falconAvailable = true ∧ hsDesc.falconPk = f ∧ hsFalconOk C hsDesc = true := by
  have hacc := hsClientConnectStart_accepted (decodeMoorAddress_computeAddress haddr) h
  obtain ⟨hpk, hfalcon⟩ := (hsCommitmentOk_iff_keys hinj hacc.kemAvailable).mp hacc.commitment
  refine ⟨hacc.kemAvailable, hpk, ?_⟩
  intro f hf
  obtain ⟨havail, hfpk⟩ := hfalcon f hf
  have hsig := hacc.signatures
  simp only [hsSignaturesOk, havail, Bool.not_true, Bool.false_or, Bool.and_eq_true] at hsig
  exact ⟨havail, hfpk, hsig.2⟩

/-- The commitment of an address. A client that connects to an address with a commitment has a
descriptor whose KEM key, with or without its Falcon key, hashes to it; and for an address computed
from given keys, under a hash that does not collide, these are the keys that it accepts. -/
theorem hsClientConnectStart_pqCommitment (C : Crypto) (env : ConnectEnv) (hsDesc : HsDescriptor)
    (moorAddress : Bytes) (session : HsSession)
    (h : hsClientConnectStart C env moorAddress hsDesc = some session) :
    (∀ servicePk commitment, decodeMoorAddress moorAddress = some ⟨servicePk, some commitment⟩ →
      hsDesc.kemAvailable = true ∧ session.kemPk = hsDesc.kemPk ∧
        ((hsDesc.falconAvailable = true ∧ hsFalconOk C hsDesc = true ∧
            commit16 C (commitInput hsDesc.kemPk (some hsDesc.falconPk)) = commitment) ∨
          commit16 C (commitInput hsDesc.kemPk none) = commitment)) ∧
    (∀ outLen identityPk kemPk falconPk,
      hsComputeAddress C outLen identityPk (some kemPk) falconPk = some moorAddress →
      Set.InjOn (commit16 C) (commitInputs kemPk falconPk hsDesc) →
      (hsDesc.kemAvailable = true ∧ hsDesc.kemPk = kemPk ∧
        ∀ f, falconPk = some f →
          hsDesc.falconAvailable = true ∧ hsDesc.falconPk = f ∧ hsFalconOk C hsDesc = true) ∧
      ∀ other : HsDescriptor, other.kemAvailable = true → other.kemPk = kemPk →
        (∀ f, falconPk = some f → other.falconAvailable = true ∧ other.falconPk = f) →
        hsCommitmentOk C (some (commit16 C (commitInput kemPk falconPk))) other = true) := by
  constructor
  · intro servicePk commitment haddr
    have hacc := hsClientConnectStart_accepted haddr h
    refine ⟨hacc.kemAvailable, by rw [hacc.session], ?_⟩
    refine ((hsCommitmentOk_iff hacc.kemAvailable commitment).mp hacc.commitment).imp_left ?_
    intro hchecks
    rcases hchecks with ⟨havail, hcommit⟩
    have hsig := hacc.signatures
    simp only [hsSignaturesOk, havail, Bool.not_true, Bool.false_or, Bool.and_eq_true] at hsig
    exact ⟨havail, hsig.2, hcommit⟩
  · intro outLen identityPk kemPk falconPk haddr hinj
    refine ⟨hsClientConnectStart_keys haddr hinj h, ?_⟩
    intro other hkem hpk hfalcon
    rw [hsCommitmentOk_iff hkem, hpk]
    cases falconPk with
    | none => exact .inr rfl
    | some f =>
      obtain ⟨havail, hf⟩ := hfalcon f rfl
      exact .inl ⟨havail, by rw [hf]⟩

/-- Surroundings in which every step of the connection succeeds, through the first introduction
point. -/
def sampleEnv : ConnectEnv where
  sealOpen _ := none
  rpEstablished := true
  introBuilt nodeIds := nodeIds.head?
  introSent := true

/-- A service with all-zero keys and one introduction point. -/
def sampleService : HsDescriptor where
  addressHash := Field.zero 32
  servicePk := Field.zero 32
  onionPk := Field.zero 32
  blindedPk := Field.zero 32
  introPoints := [⟨Field.zero 32, Field.zero 64, 9001⟩]
  signature := Field.zero 64
  revision := 1
  authType := 0
  authEntries := []
  powSeed := Field.zero 32
  powDifficulty := 0
  kemPk := Field.zero 1184
  kemAvailable := true
  falconPk := Field.zero 897
  falconAvailable := true
  falconSignature := Field.zero 752
  falconSigLen := 666
  introPoints_le := by decide

def sampleSession : HsSession :=
  ⟨Field.zero 32, Field.zero 32, Field.zero 1184, Field.zero 32, Field.zero 32, 0⟩

/-- The address of `sampleService`, which commits to both of its PQ keys. -/
def sampleAddress : Bytes :=
  (hsComputeAddress Crypto.sample 96 (Field.zero 32) (some (Field.zero 1184))
    (some (Field.zero 897))).getD []

theorem hsComputeAddress_sample :
    hsComputeAddress Crypto.sample 96 (Field.zero 32) (some (Field.zero 1184))
      (some (Field.zero 897)) = some sampleAddress := by
  decide +kernel

theorem hsClientConnectStart_sample :
    hsClientConnectStart Crypto.sample sampleEnv sampleAddress sampleService
      = some sampleSession := by
  decide +kernel

theorem injOn_commitInputs_sample : Set.InjOn (commit16 Crypto.sample)
    (commitInputs (Field.zero 1184) (some (Field.zero 897)) sampleService) := by
  have hset : commitInputs (Field.zero 1184) (some (Field.zero 897)) sampleService
      = {commitInput (Field.zero 1184) (some (Field.zero 897)),
        commitInput (Field.zero 1184) none} := by
    simp [commitInputs, sampleService]
  rw [hset, Set.injOn_pair]
  exact fun h => absurd h (by decide +kernel)

/-- The client connects to `sampleService`, whose keys are those that its address commits to. -/
theorem hsClientConnectStart_pqCommitment_sample :
    hsClientConnectStart Crypto.sample sampleEnv sampleAddress sampleService = some sampleSession ∧
      sampleService.kemAvailable = true ∧ sampleService.kemPk = Field.zero 1184 ∧
      sampleService.falconAvailable = true ∧ hsFalconOk Crypto.sample sampleService = true := by
  have h := hsClientConnectStart_pqCommitment Crypto.sample sampleEnv sampleService sampleAddress
    sampleSession hsClientConnectStart_sample
  obtain ⟨⟨hkem, hpk, hfalcon⟩, -⟩ := h.2 96 (Field.zero 32) (Field.zero 1184)
    (some (Field.zero 897)) hsComputeAddress_sample injOn_commitInputs_sample
  obtain ⟨havail, -, hsig⟩ := hfalcon _ rfl
  exact ⟨hsClientConnectStart_sample, hkem, hpk, havail, hsig⟩

/-! ### What the signature covers -/

/-- Agreement of two descriptors on what their signatures cover. -/
structure HsSignedFieldsAgree (d₁ d₂ : HsDescriptor) : Prop where
  addressHash : d₁.addressHash = d₂.addressHash
  servicePk : d₁.servicePk = d₂.servicePk
  blindedPk : d₁.blindedPk = d₂.blindedPk
  nodeIds : d₁.introPoints.map (·.nodeId) = d₂.introPoints.map (·.nodeId)
  powSeed : d₁.powSeed = d₂.powSeed
  powDifficulty : d₁.powDifficulty = d₂.powDifficulty
  revision : d₁.revision = d₂.revision

theorem hsSignedContent_eq_iff (d₁ d₂ : HsDescriptor) :
    hsSignedContent d₁ = hsSignedContent d₂ ↔
      d₁.blindedPk = d₂.blindedPk ∧
      d₁.introPoints.map (·.nodeId) = d₂.introPoints.map (·.nodeId) ∧
      d₁.powSeed = d₂.powSeed ∧ d₁.powDifficulty = d₂.powDifficulty ∧
      d₁.revision = d₂.revision := by
  have h₁ : d₁.introPoints.length ≤ 10 := d₁.introPoints_le
  have h₂ : d₂.introPoints.length ≤ 10 := d₂.introPoints_le
  have hcount : UInt32.ofNat d₁.introPoints.length = UInt32.ofNat d₂.introPoints.length ↔
      d₁.introPoints.length = d₂.introPoints.length :=
    uint32_ofNat_inj (by omega) (by omega)
  simp only [hsSignedContent, moorMaxIntroPoints, List.take_of_length_le h₁,
    List.take_of_length_le h₂, List.append_assoc, field_append_cancel, le32_append_cancel, hcount]
  refine and_congr_right ?_
  intro _
  constructor
  · intro hagree
    rcases hagree with ⟨hlen, h⟩
    rw [joinFields_append_cancel (by simpa using hlen)] at h
    simpa [be64_inj] using h
  · intro hagree
    rcases hagree with ⟨hids, hseed, hdiff, hrev⟩
    refine ⟨by simpa using congrArg List.length hids, ?_⟩
    rw [hids, hseed, hdiff, hrev]

/-- With a hash that does not collide on the two contents, the signed bytes cover exactly the
fields of `HsSignedFieldsAgree`. -/
theorem hsToVerify_eq_iff {d₁ d₂ : HsDescriptor}
    (hinj : Set.InjOn C.hash {hsSignedContent d₁, hsSignedContent d₂}) :
    hsToVerify C d₁ = hsToVerify C d₂ ↔ HsSignedFieldsAgree d₁ d₂ := by
  have hhash : (C.hash (hsSignedContent d₁)).val = (C.hash (hsSignedContent d₂)).val ↔
      hsSignedContent d₁ = hsSignedContent d₂ := by
    rw [← Subtype.ext_iff, hinj.eq_iff (by simp) (by simp)]
  simp only [hsToVerify, List.append_assoc, field_append_cancel, hhash, hsSignedContent_eq_iff]
  constructor
  · intro hagree
    rcases hagree with ⟨haddr, hpk, hblinded, hids, hseed, hdiff, hrev⟩
    exact ⟨haddr, hpk, hblinded, hids, hseed, hdiff, hrev⟩
  · intro h
    exact ⟨h.addressHash, h.servicePk, h.blindedPk, h.nodeIds, h.powSeed, h.powDifficulty,
      h.revision⟩

/-- Signature and address together. Descriptors with the same signed bytes agree on every signed
field; and two of them that a client accepts for one address with a commitment give it the same
connection, KEM key included, and the same Falcon key where the address commits to one. -/
theorem hsDescriptor_binding (C : Crypto) (d₁ d₂ : HsDescriptor)
    (hsigned : hsToVerify C d₁ = hsToVerify C d₂)
    (hinj : Set.InjOn C.hash {hsSignedContent d₁, hsSignedContent d₂}) :
    HsSignedFieldsAgree d₁ d₂ ∧
    ∀ outLen identityPk kemPk falconPk moorAddress,
      hsComputeAddress C outLen identityPk (some kemPk) falconPk = some moorAddress →
      Set.InjOn (commit16 C) (commitInputs kemPk falconPk d₁ ∪ commitInputs kemPk falconPk d₂) →
      ∀ env s₁ s₂, hsClientConnectStart C env moorAddress d₁ = some s₁ →
        hsClientConnectStart C env moorAddress d₂ = some s₂ →
        s₁ = s₂ ∧ d₁.kemPk = d₂.kemPk ∧ (falconPk ≠ none → d₁.falconPk = d₂.falconPk) := by
  have hagree := (hsToVerify_eq_iff hinj).mp hsigned
  refine ⟨hagree, ?_⟩
  intro outLen identityPk kemPk falconPk moorAddress haddr hcommit env s₁ s₂ h₁ h₂
  obtain ⟨-, hkem₁, hfalcon₁⟩ :=
    hsClientConnectStart_keys haddr (hcommit.mono Set.subset_union_left) h₁
  obtain ⟨-, hkem₂, hfalcon₂⟩ :=
    hsClientConnectStart_keys haddr (hcommit.mono Set.subset_union_right) h₂
  have hkem : d₁.kemPk = d₂.kemPk := hkem₁.trans hkem₂.symm
  have hacc₁ := hsClientConnectStart_accepted (decodeMoorAddress_computeAddress haddr) h₁
  have hacc₂ := hsClientConnectStart_accepted (decodeMoorAddress_computeAddress haddr) h₂
  have hintro : s₁.introNodeId = s₂.introNodeId := by
    have hsome := hacc₁.intro
    rw [hagree.nodeIds, hacc₂.intro] at hsome
    exact (Option.some_inj.mp hsome).symm
  refine ⟨?_, hkem, ?_⟩
  · rw [hacc₁.session, hacc₂.session, hintro, hkem, hagree.servicePk, hagree.blindedPk,
      hagree.powSeed, hagree.powDifficulty]
  · intro hf
    obtain ⟨f, rfl⟩ := Option.ne_none_iff_exists'.mp hf
    exact (hfalcon₁ f rfl).2.1.trans (hfalcon₂ f rfl).2.1.symm

/-- `sampleService` with another onion key and its introduction point at another address. -/
def sampleServiceMoved : HsDescriptor where
  __ := sampleService
  onionPk := Arr.replicate 32 1
  introPoints := [⟨Field.zero 32, Arr.replicate 64 1, 443⟩]
  introPoints_le := by decide

theorem hsDescriptor_binding_sample :
    hsToVerify Crypto.sample sampleService = hsToVerify Crypto.sample sampleServiceMoved ∧
      HsSignedFieldsAgree sampleService sampleServiceMoved ∧
      sampleService.kemPk = sampleServiceMoved.kemPk ∧
      sampleService.falconPk = sampleServiceMoved.falconPk := by
  have hsigned : hsToVerify Crypto.sample sampleService
      = hsToVerify Crypto.sample sampleServiceMoved := by decide +kernel
  have hcontent : hsSignedContent sampleService = hsSignedContent sampleServiceMoved := by
    decide +kernel
  obtain ⟨hagree, hconnect⟩ := hsDescriptor_binding Crypto.sample sampleService sampleServiceMoved
    hsigned (Set.injOn_pair.mpr fun _ => hcontent)
  have hmoved : hsClientConnectStart Crypto.sample sampleEnv sampleAddress sampleServiceMoved
      = some sampleSession := by decide +kernel
  obtain ⟨-, hkem, hfalcon⟩ := hconnect 96 (Field.zero 32) (Field.zero 1184)
    (some (Field.zero 897)) sampleAddress hsComputeAddress_sample
    (by rw [show commitInputs (Field.zero 1184) (some (Field.zero 897)) sampleServiceMoved
          = commitInputs (Field.zero 1184) (some (Field.zero 897)) sampleService from rfl,
          Set.union_self]
        exact injOn_commitInputs_sample)
    sampleEnv sampleSession sampleSession hsClientConnectStart_sample hmoved
  exact ⟨hsigned, hagree, hkem, hfalcon (by simp)⟩

/-- `sampleServiceMoved` with another KEM key. -/
def sampleServiceRekeyed : HsDescriptor where
  __ := sampleServiceMoved
  kemPk := Arr.replicate 1184 1

/-- The signature alone covers neither the onion key, nor the KEM key, nor where an introduction
point is reached: under an address without a commitment a client accepts both descriptors, and
connects with different KEM keys. -/
theorem hsToVerify_keys_uncovered :
    hsToVerify Crypto.sample sampleService = hsToVerify Crypto.sample sampleServiceRekeyed ∧
      sampleService.signature = sampleServiceRekeyed.signature ∧
      (∃ moorAddress s₁ s₂,
        hsComputeAddress Crypto.sample 96 (Field.zero 32) none none = some moorAddress ∧
        hsClientConnectStart Crypto.sample sampleEnv moorAddress sampleService = some s₁ ∧
        hsClientConnectStart Crypto.sample sampleEnv moorAddress sampleServiceRekeyed = some s₂ ∧
        s₁.kemPk ≠ s₂.kemPk) ∧
      sampleService.onionPk ≠ sampleServiceRekeyed.onionPk ∧
      sampleService.introPoints ≠ sampleServiceRekeyed.introPoints := by
  refine ⟨by decide +kernel, rfl, ?_, by decide +kernel, by decide +kernel⟩
  exact ⟨(hsComputeAddress Crypto.sample 96 (Field.zero 32) none none).getD [], sampleSession,
    { sampleSession with kemPk := Arr.replicate 1184 1 }, by decide +kernel, by decide +kernel,
    by decide +kernel, by decide +kernel⟩

end Moor
