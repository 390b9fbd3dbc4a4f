import Moor.Directory.Table

/-!
# Syncing relay tables between authorities

An authority asks its peers for their relays. The peer answers with the number of its relays and,
for each, the length of its descriptor and the descriptor itself; the authority goes through the
answer until a length is out of bounds.

A relay is admitted with a post-quantum signature only, and the key and the signature alone make its
descriptor longer than what the authority accepts from a peer.

## Main results

* `sync_complete_iff`: a table of admitted relays arrives only if it is empty.
-/

namespace Moor

open Codec List

/-! ### The answer of a peer -/

/-- The answer with one more relay; one that does not fit is skipped. -/
def daSyncPut (respSz : ℕ) (resp : Bytes) (desc : NodeDescriptor) : Bytes :=
  match nodeDescriptorSerialize (respSz - resp.length - 2) desc with
  | none => resp
  | some wire => resp ++ (be16 (.ofNat wire.length) ++ wire)

/-- The answer to `SYNC_RELAYS`, with room for 4096 bytes for each relay. -/
def daSyncResponse (relays : List NodeDescriptor) : Bytes :=
  let respSz := 4 + relays.length * (2 + 4096)
  relays.foldl (daSyncPut respSz) (be32 (.ofNat relays.length))

/-- The frame of a message on the channel between two authorities is within the limits. -/
def daChannelRecv (pt : Bytes) : Option Bytes :=
  let frameLen := 8 + (pt.length + 16)
  if frameLen < 8 + 16 ∨ frameLen > 2097152 then none else some pt

/-- Goes through at most `count` descriptors. -/
def daSyncDecode : ℕ → Bytes → List NodeDescriptor
  | 0, _ => []
  | count + 1, data =>
    match readU16.run data with
    | none => []
    | some (dlen, rest) =>
      let dlen := dlen.toNat
      if dlen > 2048 ∨ dlen < 64 ∨ dlen > rest.length then []
      else
        match nodeDescriptorDeserialize (rest.take dlen) with
        | none => daSyncDecode count (rest.drop dlen)
        | some (desc, _) => desc :: daSyncDecode count (rest.drop dlen)

/-- The descriptors that an authority decodes from the answer of a peer. -/
def daSyncReceive (resp : Bytes) : List NodeDescriptor :=
  match daChannelRecv resp with
  | none => []
  | some respData =>
    match readU32.run respData with
    | none => []
    | some (count, rest) =>
      if count.toNat > moorMaxRelays then [] else daSyncDecode count.toNat rest

/-- All descriptors of the table arrive, in its order. -/
def SyncComplete (relays : List NodeDescriptor) : Prop :=
  List.Forall₂ SameWireFields relays (daSyncReceive (daSyncResponse relays))

/-! ### What fits into a short descriptor -/

section

variable {k : ℕ} {desc : NodeDescriptor}

theorem within_readText (n : ℕ) (bad : UInt8 → Bool) :
    Within k (readText n bad) (k - n) fun _ => True :=
  (Within.readField n).bind fun _ _ => .ite (fun _ => .failure) fun _ => .pure trivial

theorem within_readV1 : Within k readV1 (k - descWireSize) fun d => d.falconSigLen = 0 := by
  refine Within.mono (.bind (.readField 32) fun _ _ => .bind (.readField 32) fun _ _ =>
    .bind (within_readText 64 _) fun _ _ => .bind .readU16 fun _ _ => .bind .readU16 fun _ _ =>
    .bind .readU32 fun _ _ => .bind .readU64 fun _ _ => .bind .readU64 fun _ _ =>
    .bind (.readField 64) fun _ _ => .pure rfl) ?_
  rw [descWireSize]
  omega

theorem within_readV2 (h : desc.falconSigLen = 0) :
    Within k (readV2 desc) (k - (descV2WireSize - descWireSize)) fun d => d.falconSigLen = 0 := by
  refine Within.mono (.bind .readU32 fun _ _ => .bind (.readField 1184) fun _ _ =>
    .bind .readU64 fun _ _ => .bind .readU16 fun _ _ => .bind .readU32 fun _ _ => .pure h) ?_
  rw [descV2WireSize, descWireSize]
  omega

/-- A block that leaves no more than there was and does not touch the signature. -/
theorem within_readIf {mask : UInt32} {extra : ℕ} {block : NodeDescriptor → Reader NodeDescriptor}
    (hblock : ∀ desc, desc.falconSigLen = 0 → Within k (block desc) k fun d => d.falconSigLen = 0)
    (h : desc.falconSigLen = 0) :
    Within k (readIf mask extra block desc) k fun d => d.falconSigLen = 0 :=
  .bind .remaining fun _ _ => .ite (fun _ => hblock desc h) fun _ => .pure h

variable (h : desc.falconSigLen = 0)
include h

theorem within_readFamily : Within k (readFamily desc) k fun d => d.falconSigLen = 0 := by
  have hfield : Within k (readField 32) k fun _ => True := (Within.readField 32).mono (by omega)
  have hcontact : ∀ desc, desc.falconSigLen = 0 →
      Within k (readV5 desc) k fun d => d.falconSigLen = 0 := fun _ h =>
    .mono (.bind (within_readText 128 _) fun _ _ => .pure h) (by omega)
  have hnickname : ∀ desc, desc.falconSigLen = 0 →
      Within k (readV4 desc) k fun d => d.falconSigLen = 0 := fun _ h =>
    .mono (.bind (within_readText 32 _) fun _ _ => .bind (within_readText 64 _) fun _ _ =>
      .bind (.readField 32) fun _ _ => .bind .readU32 fun _ _ => .bind .readU64 fun _ _ =>
      .pure h) (by omega)
  refine .ite (fun _ => ?_) fun _ => .pure h
  refine .bind (j := k) (P := fun d => d.falconSigLen = 0) ?_ fun desc h => ?_
  · exact .bind (Within.readU8.mono (by omega)) fun _ _ => .bind (hfield.readMany _) fun _ _ =>
      .bind (hfield.readMany _) fun _ _ => .bind hfield fun _ _ => .pure h
  · refine within_readIf (fun desc h => ?_) h
    exact (hnickname desc h).bind fun desc h => within_readIf hcontact h

theorem within_readV6 : Within k (readV6 desc) k fun d => d.falconSigLen = 0 :=
  .mono (.bind .readU16 fun _ _ => .pure h) (by omega)

theorem within_readV7 : Within k (readV7 desc) k fun d => d.falconSigLen = 0 :=
  .mono (.bind (.readField 16) fun _ _ => .pure h) (by omega)

/-- There is no room for the post-quantum key. -/
theorem within_readExtensions (hk : k - (descV2WireSize - descWireSize) < moorFalconPkLen + 2) :
    Within k (readExtensions desc) (k - (descV2WireSize - descWireSize))
      fun d => d.falconSigLen = 0 := by
  refine (within_readV2 h).bind fun _ h => (within_readFamily h).bind fun _ h => ?_
  have hafter : ∀ desc, desc.falconSigLen = 0 →
      Within (k - (descV2WireSize - descWireSize)) (do
        let desc ← readIf nodeFeatureBuildId 16 readV7 desc
        readIf nodeFeatureFalcon (moorFalconPkLen + 2) readV8 desc)
      (k - (descV2WireSize - descWireSize)) fun d => d.falconSigLen = 0 := by
    intro desc h
    refine (within_readIf (fun _ => within_readV7) h).bind fun _ h => ?_
    refine .bind .remaining fun n hn => .ite (fun hroom => ?_) fun _ => .pure h
    simp only [Bool.and_eq_true, decide_eq_true_eq] at hroom
    omega
  refine .bind .remaining fun _ _ => .ite (fun _ => ?_) fun _ => .pure h
  exact (within_readV6 h).bind hafter

omit h

/-- A descriptor of at most 2048 bytes has no post-quantum signature. -/
theorem falconSigLen_of_short {data : Bytes} {n : ℕ} (hlen : data.length ≤ 2048)
    (h : nodeDescriptorDeserialize data = some (desc, n)) : desc.falconSigLen = 0 := by
  unfold nodeDescriptorDeserialize at h
  by_cases hshort : data.length < descWireSize
  · rw [if_pos hshort] at h
    cases h
  rw [if_neg hshort] at h
  obtain ⟨⟨d, rest⟩, hrun, hresult⟩ := Option.bind_eq_some_iff.mp h
  obtain rfl : d = desc := (Prod.mk.inj (Option.some_inj.mp hresult)).1
  have hparse : Within 2048 (do
      let desc ← readV1
      if descV2WireSize ≤ data.length then readExtensions desc else return desc)
      (2048 - descWireSize) fun d => d.falconSigLen = 0 := by
    refine within_readV1.bind fun d hd => .ite (fun _ => ?_) fun _ => .pure hd
    exact (within_readExtensions hd (by decide)).mono (Nat.sub_le _ _)
  exact (hparse _ _ _ hlen hrun).2

end

/-! ### Admitted relays -/

/-- The descriptor without what an authority sets in it. -/
def NodeDescriptor.declared (desc : NodeDescriptor) : NodeDescriptor :=
  { desc with
    flags := 0, verifiedBandwidth := 0, countryCode := 0, asNumber := 0
    familyId := Field.zero 32 }

/-- The entry holds an admitted descriptor, with what the authority has found out itself. -/
def HoldsAdmitted (env : DaEnv) (r : DaRelay) : Prop :=
  ∃ desc, daAdmits env desc = true ∧ r.declared = desc.declared

section Admitted

variable {env : DaEnv} {now : UInt64} {desc : NodeDescriptor} {r : DaRelay}

theorem daAdmits_falcon (h : daAdmits env desc = true) :
    Flags.has desc.features nodeFeatureFalcon = true ∧ desc.falconSigLen ≠ 0 := by
  simp only [daAdmits, Bool.and_eq_true, beq_iff_eq] at h
  have hfalcon : Flags.has desc.features nodeFeatureFalcon = true :=
    Flags.has_of_and_eq h.1.1.1.1.2 (by decide)
  have hverified := h.1.1.1.1.1
  simp only [nodeVerifyDescriptor, hfalcon, Bool.not_true, Bool.false_or, Bool.and_eq_true,
    decide_eq_true_eq] at hverified
  exact ⟨hfalcon, hverified.2.1.1⟩

theorem HoldsAdmitted.falcon (h : HoldsAdmitted env r) :
    Flags.has r.features nodeFeatureFalcon = true ∧ r.falconSigLen ≠ 0 := by
  obtain ⟨desc, hdesc, hr⟩ := h
  have hfeatures := congrArg NodeDescriptor.features hr
  have hsigLen := congrArg NodeDescriptor.falconSigLen hr
  dsimp only [NodeDescriptor.declared] at hfeatures hsigLen
  rw [hfeatures, hsigLen]
  exact daAdmits_falcon hdesc

@[simp] theorem declared_daLocate (r : DaRelay) : (daLocate env desc r).declared = r.declared := by
  obtain ⟨_, _, h⟩ := exists_daLocate_eq env desc r
  rw [h]
  rfl

theorem declared_daApplyProbe (res : ProbeResult) (r : DaRelay) :
    (daApplyProbe res r).declared = r.declared := by
  unfold daApplyProbe
  split
  · rfl
  · split <;> rfl

/-- A descriptor that is taken up is admitted. -/
theorem holdsAdmitted_daAddRelay {relays relays' : List DaRelay}
    (hadd : daAddRelay env now desc relays = some relays')
    (h : ∀ r ∈ relays, HoldsAdmitted env r) : ∀ r ∈ relays', HoldsAdmitted env r := by
  have hadmits := (daAddRelay_cases hadd).1
  intro r' hr'
  rcases mem_daAddRelay hadd hr' with hold | ⟨r, -, -, rfl⟩ | rfl | rfl
  · exact h r' hold
  · exact ⟨desc, hadmits, declared_daLocate _⟩
  · exact ⟨desc, hadmits, rfl⟩
  · exact ⟨desc, hadmits, declared_daLocate _⟩

end Admitted

/-- The critical section takes no descriptor from a peer but those that are flooded. -/
def DaEvent.FromRelays : DaEvent → Prop
  | .sync _ _ | .importTrusted _ => False
  | _ => True

instance : DecidablePred DaEvent.FromRelays := fun e => by
  induction e using DaEvent.casesOn <;> unfold DaEvent.FromRelays <;> infer_instance

variable {env : DaEnv} {s : DaState}

theorem holdsAdmitted_daStep {e : DaEvent} (he : e.FromRelays)
    (h : ∀ r ∈ s.relays, HoldsAdmitted env r) :
    ∀ r ∈ (daStep env s e).relays, HoldsAdmitted env r := by
  refine daStep_table (I := fun relays => ∀ r ∈ relays, HoldsAdmitted env r)
    (fun hchange => ?_) fun _ hrelays r' hr' => ?_
  · cases hchange with
    | same => exact h
    | publish input written hadd | propagate input hadd => exact holdsAdmitted_daAddRelay hadd h
    | sync descs time => exact he.elim
    | importTrusted hadd => exact he.elim
    | probed results =>
      intro r' hr'
      obtain ⟨r, hr, rfl | ⟨res, -, rfl⟩⟩ := mem_daApplyProbes hr'
      · exact h r' hr
      · exact (h r hr).imp fun desc hdesc => hdesc.imp_right (declared_daApplyProbe res r).trans
  · obtain ⟨r, hr, q, fid, hq, rfl⟩ := mem_daPrepareRelays hr'
    have hdeclared : q.declared = r.declared := by
      rcases hq with rfl | ⟨th, rfl⟩ <;> rfl
    refine (hrelays r hr).imp fun desc hdesc => hdesc.imp_right fun hr => ?_
    unfold flagBadexit
    split <;> exact hdeclared.trans hr

/-- In a run without syncs and imports the table holds admitted descriptors only. -/
theorem holdsAdmitted_of_run {badexitIds : List (Field 32)} {events : List DaEvent}
    (hevents : ∀ e ∈ events, e.FromRelays)
    (hrun : Run.run (fun s e => some (daStep env s e)) (DaState.init badexitIds) events = some s) :
    ∀ r ∈ s.relays, HoldsAdmitted env r := by
  refine daRun_invariant (I := fun s => ∀ r ∈ s.relays, HoldsAdmitted env r) ?_ ?_
    (Run.along_of_forall (fun e he _ => hevents e he) _) hrun
  · exact fun s e hs he => holdsAdmitted_daStep he hs
  · exact fun r hr => nomatch hr

/-! ### What arrives -/

theorem falconSigLen_of_mem_daSyncDecode {count : ℕ} {data : Bytes} :
    ∀ desc ∈ daSyncDecode count data, desc.falconSigLen = 0 := by
  induction count generalizing data with
  | zero => exact fun desc hdesc => nomatch hdesc
  | succ count ih =>
    intro desc hdesc
    unfold daSyncDecode at hdesc
    split at hdesc
    · cases hdesc
    dsimp only at hdesc
    split at hdesc
    · cases hdesc
    split at hdesc
    · exact ih desc hdesc
    rename_i first n hfirst
    rcases mem_cons.mp hdesc with rfl | hdesc
    · refine falconSigLen_of_short ?_ hfirst
      rw [length_take]
      omega
    · exact ih desc hdesc

theorem falconSigLen_of_mem_daSyncReceive {resp : Bytes} :
    ∀ desc ∈ daSyncReceive resp, desc.falconSigLen = 0 := by
  unfold daSyncReceive
  split
  · exact fun desc hdesc => nomatch hdesc
  split
  · exact fun desc hdesc => nomatch hdesc
  · split
    · exact fun desc hdesc => nomatch hdesc
    · exact falconSigLen_of_mem_daSyncDecode

theorem syncComplete_iff_of_holdsAdmitted {relays : List DaRelay}
    (h : ∀ r ∈ relays, HoldsAdmitted env r) :
    SyncComplete (relays.map (·.toNodeDescriptor)) ↔ relays = [] := by
  constructor
  · intro hcomplete
    cases relays with
    | nil => rfl
    | cons r relays =>
      obtain ⟨d, ds, hsame, -, hds⟩ := forall₂_cons_left_iff.mp hcomplete
      have ⟨hfalcon, hsigLen⟩ := (h r mem_cons_self).falcon
      have hd : d.falconSigLen = 0 :=
        falconSigLen_of_mem_daSyncReceive d (hds ▸ mem_cons_self)
      exact absurd ((hsame.v8 hfalcon).2.1.symm.trans hd) hsigLen
  · rintro rfl
    exact .nil

/-- Of a table of admitted relays all descriptors arrive at a peer if and only if there are none;
and so it is after every run of an authority whose relays have all come by publication. -/
theorem sync_complete_iff (env : DaEnv) (badexitIds : List (Field 32)) :
    (∀ relays : List DaRelay, (∀ r ∈ relays, HoldsAdmitted env r) →
      (SyncComplete (relays.map (·.toNodeDescriptor)) ↔ relays = [])) ∧
    ∀ events s, (∀ e ∈ events, DaEvent.FromRelays e) →
      Run.run (fun s e => some (daStep env s e)) (DaState.init badexitIds) events = some s →
      (SyncComplete (s.relays.map (·.toNodeDescriptor)) ↔ s.relays = []) := by
  refine ⟨fun relays => syncComplete_iff_of_holdsAdmitted, ?_⟩
  intro events s hevents hrun
  exact syncComplete_iff_of_holdsAdmitted (holdsAdmitted_of_run hevents hrun)

/-- A relay with a post-quantum key. -/
def sampleFalcon : NodeDescriptor :=
  { sampleAdmitted 1 with
    falconPk := Arr.replicate 897 9, falconSignature := Arr.replicate 752 9 }

theorem sync_complete_iff_sample :
    ∃ s, Run.run (fun s e => some (daStep sampleDaEnv s e)) (DaState.init [])
        [.publish sampleFalcon 10900 sampleInput true] = some s ∧
      (SyncComplete (s.relays.map (·.toNodeDescriptor)) ↔ s.relays = []) :=
  ⟨_, rfl, (sync_complete_iff sampleDaEnv []).2 [.publish sampleFalcon 10900 sampleInput true] _
    (by decide) rfl⟩

/-- The relay is in the table of the one authority, and nothing arrives at the other. -/
theorem sync_delivers_nothing :
    ∃ s, Run.run (fun s e => some (daStep sampleDaEnv s e)) (DaState.init [])
        [.publish sampleFalcon 10900 sampleInput true] = some s ∧
      s.relays.map (·.identityPk) = [Arr.replicate 32 1] ∧
      (daSyncReceive (daSyncResponse (s.relays.map (·.toNodeDescriptor)))).length = 0 :=
  ⟨_, rfl, by decide +kernel, by decide +kernel⟩

end Moor
