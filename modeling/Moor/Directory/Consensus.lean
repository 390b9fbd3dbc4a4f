import Moor.Node.Descriptor
import Moor.Lib.Tally

/-!
# The consensus and its signatures

The directory authorities sign a body built from the consensus. A client accepts a consensus when
a majority of the authorities it trusts have signed the body, each with Ed25519 and, where the
client knows a PQ key of the authority, with ML-DSA as well.
-/

namespace Moor

open Codec List

def moorMaxRelays : ℕ := 8192
def moorMaxDaAuthorities : ℕ := 9

/-- One authority's signature on a consensus. -/
structure DaSig where
  signature : Field 64
  identityPk : Field 32
  pqSignature : Field 3309
  pqPk : Field 1952
  hasPq : Bool
  deriving DecidableEq

/-- A consensus. The relay table and the signature table are bounded. -/
structure Consensus where
  validAfter : UInt64
  freshUntil : UInt64
  validUntil : UInt64
  relays : List NodeDescriptor
  daSigs : List DaSig
  relays_le : relays.length ≤ moorMaxRelays
  daSigs_le : daSigs.length ≤ moorMaxDaAuthorities

/-- The authority keys a client trusts. -/
structure TrustedDaKey where
  ed25519Pk : Field 32
  mldsaPk : Field 1952
  hasPq : Bool
  deriving DecidableEq

/-! ### The signed body -/

/-- Appends the relays to the body, as long as the buffer has room. -/
def bodyAppendRelays (bufSz : ℕ) : List NodeDescriptor → Bytes → Option Bytes
  | [], buf => some buf
  | relay :: rest, buf =>
    if buf.length + 40 > bufSz then none
    else bodyAppendRelays bufSz rest (buf ++ relay.identityPk.val ++ be64 relay.bandwidth)

/-- The bytes the authorities sign: the times, the number of relays, and the identity key and the
self-reported bandwidth of each relay. The buffer size is computed in 32 bits. -/
def consensusBodyBuild (cons : Consensus) : Option Bytes :=
  let numRelays := UInt32.ofNat cons.relays.length
  bodyAppendRelays (numRelays * 48 + 64).toNat cons.relays
    (be64 cons.validAfter ++ be64 cons.freshUntil ++ be64 cons.validUntil ++ be32 numRelays)

variable (C : Crypto) (body : Bytes) (sig : DaSig) (cons : Consensus)

def consensusBodyHash (cons : Consensus) : Option (Field 32) :=
  (consensusBodyBuild cons).map C.hash

/-! ### Acceptance -/

/-- The entry carries the identity key of the trusted authority. -/
def daSigNames (key : TrustedDaKey) : Bool :=
  decide (sig.identityPk = key.ed25519Pk)

/-- The checks an entry must pass once its identity key is that of a trusted authority. -/
def daSigCheck (bodyHash : Field 32) (body : Bytes) (sig : DaSig) (key : TrustedDaKey) : Bool :=
  if !C.signVerify sig.signature bodyHash.val sig.identityPk then false
  else if sig.hasPq && key.hasPq && decide (sig.pqPk ≠ key.mldsaPk) then false
  else if sig.hasPq && key.hasPq && !C.mldsaVerify sig.pqSignature body sig.pqPk then false
  -- An authority with a PQ key must not fall back to Ed25519 alone.
  else if key.hasPq && !sig.hasPq then false
  else true

/-- The client accepts the consensus. Each entry is compared with the trusted keys in turn, and
each trusted key is credited at most once. -/
def consensusVerifyHybrid (trustedKeys : List TrustedDaKey) : Bool :=
  match consensusBodyHash C cons, consensusBodyBuild cons with
  | some bodyHash, some body =>
    let majority := trustedKeys.length / 2 + 1
    let verified := (Tally.run daSigNames (daSigCheck C bodyHash body) trustedKeys cons.daSigs).2
    decide (0 < trustedKeys.length) && decide (majority ≤ verified)
  | _, _ => false

/-! ### The body as a code for what it covers -/

def bodyRelays : List NodeDescriptor → Bytes
  | [] => []
  | relay :: rest => relay.identityPk.val ++ be64 relay.bandwidth ++ bodyRelays rest

theorem bodyAppendRelays_eq {bufSz : ℕ} (relays : List NodeDescriptor) (buf : Bytes)
    (h : buf.length + 40 * relays.length ≤ bufSz) :
    bodyAppendRelays bufSz relays buf = some (buf ++ bodyRelays relays) := by
  induction relays generalizing buf with
  | nil => simp [bodyAppendRelays, bodyRelays]
  | cons relay rest ih =>
    have hroom : ¬ buf.length + 40 > bufSz := by
      simp only [length_cons] at h
      omega
    rw [bodyAppendRelays, if_neg hroom, ih]
    · simp [bodyRelays]
    · simp only [length_append, Arr.length_val, length_be64, length_cons] at h ⊢
      omega

/-- The buffer is large enough for every relay table, so that the body is always built. -/
theorem consensusBodyBuild_eq :
    consensusBodyBuild cons = some (be64 cons.validAfter ++ be64 cons.freshUntil ++
      be64 cons.validUntil ++ be32 (UInt32.ofNat cons.relays.length) ++
      bodyRelays cons.relays) := by
  have hbound : cons.relays.length ≤ 8192 := cons.relays_le
  have hsize : (UInt32.ofNat cons.relays.length * 48 + 64).toNat
      = cons.relays.length * 48 + 64 := by
    simp
    omega
  refine bodyAppendRelays_eq _ _ ?_
  simp only [length_append, length_be64, length_be32]
  omega

/-- Two lists of relays give the same part of the body exactly when they agree, position by
position, on identity key and bandwidth. -/
theorem bodyRelays_inj {rs ss : List NodeDescriptor} (hlen : rs.length = ss.length) :
    bodyRelays rs = bodyRelays ss ↔
      List.Forall₂ (fun r s => r.identityPk = s.identityPk ∧ r.bandwidth = s.bandwidth) rs ss := by
  induction rs generalizing ss with
  | nil =>
    obtain rfl : ss = [] := length_eq_zero_iff.mp hlen.symm
    simp [bodyRelays]
  | cons r rs ih =>
    obtain ⟨s, ss, rfl⟩ := exists_cons_of_length_eq_add_one hlen.symm
    simp [bodyRelays, ih (Nat.succ.inj hlen), and_assoc]

/-- Equal bodies agree on the times and on the identity key and bandwidth of each relay, and on
nothing else. -/
theorem consensusBodyBuild_eq_iff (c₁ c₂ : Consensus) :
    consensusBodyBuild c₁ = consensusBodyBuild c₂ ↔
      c₁.validAfter = c₂.validAfter ∧ c₁.freshUntil = c₂.freshUntil ∧
      c₁.validUntil = c₂.validUntil ∧
      List.Forall₂ (fun r s => r.identityPk = s.identityPk ∧ r.bandwidth = s.bandwidth)
        c₁.relays c₂.relays := by
  have hcount : UInt32.ofNat c₁.relays.length = UInt32.ofNat c₂.relays.length ↔
      c₁.relays.length = c₂.relays.length := by
    have h₁ : c₁.relays.length ≤ 8192 := c₁.relays_le
    have h₂ : c₂.relays.length ≤ 8192 := c₂.relays_le
    exact uint32_ofNat_inj (by omega) (by omega)
  simp only [consensusBodyBuild_eq, Option.some_inj, append_assoc, be64_append_cancel,
    be32_append_cancel, hcount]
  constructor
  · intro hagree
    rcases hagree with ⟨hva, hfu, hvu, hlen, hrelays⟩
    exact ⟨hva, hfu, hvu, (bodyRelays_inj hlen).mp hrelays⟩
  · intro hagree
    rcases hagree with ⟨hva, hfu, hvu, hrelays⟩
    exact ⟨hva, hfu, hvu, hrelays.length_eq, (bodyRelays_inj hrelays.length_eq).mpr hrelays⟩

/-! ### Quorum -/

/-- The entry counts for the trusted key: it has its identity key, a valid Ed25519 signature over
the hash of the body and, where the key has a PQ key, a valid ML-DSA signature under that key. -/
def EntryValid (key : TrustedDaKey) : Prop :=
  sig.identityPk = key.ed25519Pk ∧
  C.signVerify sig.signature (C.hash body).val key.ed25519Pk = true ∧
  (key.hasPq = true → sig.hasPq = true ∧ sig.pqPk = key.mldsaPk ∧
    C.mldsaVerify sig.pqSignature body key.mldsaPk = true)
  deriving Decidable

/-- The checks of the code, in the order the code makes them, are the conditions of
`EntryValid`. -/
theorem daSigCheck_iff (key : TrustedDaKey) :
    (daSigNames sig key && daSigCheck C (C.hash body) body sig key) = true ↔
      EntryValid C body sig key := by
  unfold EntryValid daSigNames daSigCheck
  by_cases hid : sig.identityPk = key.ed25519Pk
  · rw [hid]
    cases hsig : C.signVerify sig.signature (C.hash body).val key.ed25519Pk <;>
      cases hk : key.hasPq <;> cases hs : sig.hasPq <;> simp
    by_cases hpk : sig.pqPk = key.mldsaPk
    · simp [hpk]
    · simp [hpk]
  · simp [hid]

variable {trustedKeys : List TrustedDaKey}

/-- No entry names two of pairwise distinct keys. -/
theorem daSigNames_pairwise (h : (trustedKeys.map (·.ed25519Pk)).Nodup) (sig : DaSig) :
    trustedKeys.Pairwise fun k l => daSigNames sig k = true → daSigNames sig l = false := by
  rw [List.Nodup, pairwise_map] at h
  refine h.imp fun {k l} hne hk => ?_
  have hk : sig.identityPk = k.ed25519Pk := by simpa [daSigNames] using hk
  simpa [daSigNames, hk] using hne

variable (C : Crypto) (cons : Consensus)

/-- The number of trusted keys for which some entry counts. -/
def validKeyCount (trustedKeys : List TrustedDaKey) (body : Bytes) : ℕ :=
  trustedKeys.countP fun key => decide (∃ sig ∈ cons.daSigs, EntryValid C body sig key)

/-- The loop of the code credits every trusted key with a valid entry, and credits it once. -/
theorem verified_eq_validKeyCount (hdist : (trustedKeys.map (·.ed25519Pk)).Nodup) (body : Bytes) :
    (Tally.run daSigNames (daSigCheck C (C.hash body) body) trustedKeys cons.daSigs).2
      = validKeyCount C cons trustedKeys body := by
  rw [Tally.run_eq fun sig _ => daSigNames_pairwise hdist sig]
  refine countP_congr ?_
  intro key _
  simp only [Tally.supported, any_eq_true, daSigCheck_iff, decide_eq_true_eq]

/-- Acceptance is a majority of the trusted keys with a valid entry. -/
theorem consensusVerifyHybrid_iff (hn : 0 < trustedKeys.length)
    (hdist : (trustedKeys.map (·.ed25519Pk)).Nodup) {body : Bytes}
    (hbody : consensusBodyBuild cons = some body) :
    consensusVerifyHybrid C cons trustedKeys = true ↔
      trustedKeys.length / 2 + 1 ≤ validKeyCount C cons trustedKeys body := by
  simp only [consensusVerifyHybrid, consensusBodyHash, hbody, Option.map_some,
    verified_eq_validKeyCount C cons hdist, hn, decide_true, Bool.true_and, decide_eq_true_eq]

/-- Quorum. For distinct trusted keys, at most as many as the code has slots for, the loop counts
each key with a valid entry once, and a consensus is accepted exactly when these are more than
half. The verdict depends on the entries only as a set, so that neither their order nor their
multiplicity matters. -/
theorem consensusVerifyHybrid_quorum (C : Crypto) (cons : Consensus)
    (trustedKeys : List TrustedDaKey)
    (hn : 1 ≤ trustedKeys.length ∧ trustedKeys.length ≤ moorMaxDaAuthorities)
    (hdist : (trustedKeys.map (·.ed25519Pk)).Nodup) :
    (∃ body, consensusBodyBuild cons = some body ∧
      (Tally.run daSigNames (daSigCheck C (C.hash body) body) trustedKeys cons.daSigs).2
        = (trustedKeys.countP fun key => ∃ sig ∈ cons.daSigs, EntryValid C body sig key) ∧
      (consensusVerifyHybrid C cons trustedKeys = true ↔
        trustedKeys.length / 2 + 1 ≤
          trustedKeys.countP fun key => ∃ sig ∈ cons.daSigs, EntryValid C body sig key)) ∧
    (∀ cons' : Consensus, consensusBodyBuild cons' = consensusBodyBuild cons →
      (∀ sig, sig ∈ cons'.daSigs ↔ sig ∈ cons.daSigs) →
      consensusVerifyHybrid C cons' trustedKeys = consensusVerifyHybrid C cons trustedKeys) := by
  have hbody := consensusBodyBuild_eq cons
  refine ⟨⟨_, hbody, verified_eq_validKeyCount C cons hdist _,
    consensusVerifyHybrid_iff C cons hn.1 hdist hbody⟩, ?_⟩
  intro cons' hsame hentries
  rw [Bool.eq_iff_iff, consensusVerifyHybrid_iff C cons hn.1 hdist hbody,
    consensusVerifyHybrid_iff C cons' hn.1 hdist (hsame.trans hbody)]
  simp only [validKeyCount, hentries]

/-- An authority whose identity key is filled with one byte. -/
def sampleAuthority (b : UInt8) (hasPq : Bool) : TrustedDaKey where
  ed25519Pk := Arr.replicate 32 b
  mldsaPk := Arr.replicate 1952 b
  hasPq := hasPq

/-- The entry of that authority, valid under the sample primitives. -/
def sampleEntry (b : UInt8) (hasPq : Bool) : DaSig where
  signature := Arr.replicate 64 b
  identityPk := Arr.replicate 32 b
  pqSignature := Arr.replicate 3309 b
  pqPk := Arr.replicate 1952 b
  hasPq := hasPq

/-- A consensus that lists the given relays and carries the given entries. -/
def sampleConsensus (relays : List NodeDescriptor) (daSigs : List DaSig)
    (hr : relays.length ≤ moorMaxRelays) (hs : daSigs.length ≤ moorMaxDaAuthorities) :
    Consensus where
  validAfter := 1
  freshUntil := 2
  validUntil := 3
  relays := relays
  daSigs := daSigs
  relays_le := hr
  daSigs_le := hs

/-- Three authorities, one of them with a PQ key; one entry is repeated. -/
theorem consensusVerifyHybrid_quorum_three :
    ∃ body, consensusBodyBuild (sampleConsensus [NodeDescriptor.zero]
        [sampleEntry 1 false, sampleEntry 1 false, sampleEntry 2 true] (by decide) (by decide))
          = some body ∧
      (consensusVerifyHybrid Crypto.sample (sampleConsensus [NodeDescriptor.zero]
          [sampleEntry 1 false, sampleEntry 1 false, sampleEntry 2 true] (by decide) (by decide))
          [sampleAuthority 1 false, sampleAuthority 2 true, sampleAuthority 3 true] = true ↔
        2 ≤ [sampleAuthority 1 false, sampleAuthority 2 true, sampleAuthority 3 true].countP
          fun key => ∃ sig ∈ [sampleEntry 1 false, sampleEntry 1 false, sampleEntry 2 true],
            EntryValid Crypto.sample body sig key) := by
  obtain ⟨body, hbody, -, hiff⟩ := (consensusVerifyHybrid_quorum Crypto.sample
    (sampleConsensus [NodeDescriptor.zero]
      [sampleEntry 1 false, sampleEntry 1 false, sampleEntry 2 true] (by decide) (by decide))
    [sampleAuthority 1 false, sampleAuthority 2 true, sampleAuthority 3 true] (by decide)
    (by decide)).1
  exact ⟨body, hbody, hiff⟩

/-! ### What the body leaves out -/

/-- Agreement on the fields a client builds a circuit from. -/
structure ClientFieldsAgree (r s : NodeDescriptor) : Prop where
  identityPk : r.identityPk = s.identityPk
  onionPk : r.onionPk = s.onionPk
  kemPk : r.kemPk = s.kemPk
  address : r.address = s.address
  orPort : r.orPort = s.orPort
  bandwidth : r.bandwidth = s.bandwidth

/-- A relay entry of the compact consensus, with the fields a client builds a circuit from. -/
structure Microdesc where
  identityPk : Field 32
  onionPk : Field 32
  address : Field 64
  orPort : UInt16
  bandwidth : UInt64
  kemPk : Field 1184

/-- The compact consensus that clients fetch. -/
structure MicrodescConsensus where
  validAfter : UInt64
  freshUntil : UInt64
  validUntil : UInt64
  relays : List Microdesc
  daSigs : List DaSig
  relays_le : relays.length ≤ moorMaxRelays
  daSigs_le : daSigs.length ≤ moorMaxDaAuthorities

/-- The full consensus a client makes up to check a compact one: of a relay it fills in only the
identity key and the bandwidth. -/
def microdescShadow (mc : MicrodescConsensus) : Consensus where
  validAfter := mc.validAfter
  freshUntil := mc.freshUntil
  validUntil := mc.validUntil
  relays := mc.relays.map fun m =>
    { NodeDescriptor.zero with identityPk := m.identityPk, bandwidth := m.bandwidth }
  daSigs := mc.daSigs.map fun sig =>
    if sig.hasPq then sig
    else { sig with pqSignature := Field.zero 3309, pqPk := Field.zero 1952 }
  relays_le := by simpa using mc.relays_le
  daSigs_le := by simpa using mc.daSigs_le

/-- Agreement of two compact entries on the fields a client builds a circuit from. -/
structure MicrodescFieldsAgree (m n : Microdesc) : Prop where
  identityPk : m.identityPk = n.identityPk
  onionPk : m.onionPk = n.onionPk
  kemPk : m.kemPk = n.kemPk
  address : m.address = n.address
  orPort : m.orPort = n.orPort
  bandwidth : m.bandwidth = n.bandwidth

/-- Some onion key differs from the given one. -/
theorem exists_ne_onionPk (pk : Field 32) : ∃ pk' : Field 32, pk ≠ pk' := by
  by_cases h : pk = Field.zero 32
  · exact ⟨Arr.replicate 32 1, by rw [h]; decide⟩
  · exact ⟨Field.zero 32, h⟩

/-- The signed body protects the fields a client builds circuits from only where no relay is
listed. For any consensus with a relay, full or compact, there is another that every set of
authority signatures accepts alike and that gives a relay a different onion key. -/
theorem consensusBody_coverage (c₁ : Consensus) (m₁ : MicrodescConsensus) :
    ((∀ c₂ : Consensus, consensusBodyBuild c₁ = consensusBodyBuild c₂ →
        List.Forall₂ ClientFieldsAgree c₁.relays c₂.relays) ↔ c₁.relays = []) ∧
    ((∀ m₂ : MicrodescConsensus,
        consensusBodyBuild (microdescShadow m₁) = consensusBodyBuild (microdescShadow m₂) →
        List.Forall₂ MicrodescFieldsAgree m₁.relays m₂.relays) ↔ m₁.relays = []) := by
  refine ⟨⟨?_, ?_⟩, ?_, ?_⟩
  · intro h
    -- Replacing the first relay's onion key leaves the body as it is.
    by_contra hne
    obtain ⟨r, rs, hrelays⟩ := exists_cons_of_ne_nil hne
    obtain ⟨pk, hpk⟩ := exists_ne_onionPk r.onionPk
    have hle : (({ r with onionPk := pk } : NodeDescriptor) :: rs).length ≤ moorMaxRelays := by
      simpa [hrelays] using c₁.relays_le
    have hagree := h { c₁ with relays := { r with onionPk := pk } :: rs, relays_le := hle } (by
      rw [consensusBodyBuild_eq_iff, hrelays]
      exact ⟨rfl, rfl, rfl, .cons ⟨rfl, rfl⟩ (forall₂_same.mpr fun s _ => ⟨rfl, rfl⟩)⟩)
    rw [hrelays] at hagree
    exact hpk (forall₂_cons.mp hagree).1.onionPk
  · intro h c₂ hbody
    have hcover := ((consensusBodyBuild_eq_iff c₁ c₂).mp hbody).2.2.2
    rw [h] at hcover ⊢
    rw [forall₂_nil_left_iff.mp hcover]
    exact .nil
  · intro h
    by_contra hne
    obtain ⟨r, rs, hrelays⟩ := exists_cons_of_ne_nil hne
    obtain ⟨pk, hpk⟩ := exists_ne_onionPk r.onionPk
    have hle : (({ r with onionPk := pk } : Microdesc) :: rs).length ≤ moorMaxRelays := by
      simpa [hrelays] using m₁.relays_le
    have hagree := h { m₁ with relays := { r with onionPk := pk } :: rs, relays_le := hle } (by
      rw [consensusBodyBuild_eq_iff]
      simp only [microdescShadow, hrelays, map_cons]
      exact ⟨trivial, trivial, trivial, .cons ⟨rfl, rfl⟩ (forall₂_same.mpr fun s _ => ⟨rfl, rfl⟩)⟩)
    rw [hrelays] at hagree
    exact hpk (forall₂_cons.mp hagree).1.onionPk
  · intro h m₂ hbody
    have hcover := ((consensusBodyBuild_eq_iff _ _).mp hbody).2.2.2
    simp only [microdescShadow, h, map_nil, forall₂_nil_left_iff, map_eq_nil_iff]
      at hcover
    rw [h, hcover]
    exact .nil

/-- Two accepted consensuses with one signature that give the only relay different onion keys. -/
theorem consensusBody_onionPk_uncovered :
    ∃ c₁ c₂ : Consensus, consensusBodyBuild c₁ = consensusBodyBuild c₂ ∧
      c₁.daSigs = c₂.daSigs ∧
      consensusVerifyHybrid Crypto.sample c₁ [sampleAuthority 1 true] = true ∧
      consensusVerifyHybrid Crypto.sample c₂ [sampleAuthority 1 true] = true ∧
      ¬ List.Forall₂ ClientFieldsAgree c₁.relays c₂.relays := by
  refine ⟨sampleConsensus [NodeDescriptor.zero] [sampleEntry 1 true] (by decide) (by decide),
    sampleConsensus [{ NodeDescriptor.zero with onionPk := Arr.replicate 32 1 }]
      [sampleEntry 1 true] (by decide) (by decide), by decide +kernel, rfl, by decide +kernel,
    by decide +kernel, ?_⟩
  intro hagree
  exact absurd (forall₂_cons.mp hagree).1.onionPk (by decide +kernel)

end Moor
