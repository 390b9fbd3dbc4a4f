import Moor.Directory.Authority

/-!
# The relay table of an authority

What the critical sections of an authority do to its relay table, and what follows for every run:
when keys stay distinct, and what clients are told about the bandwidth of a relay.

A descriptor replaces the entry with its key or the entry with its address and port, whichever comes
first in the table. A relay that moves to the address of a relay before it is therefore entered
twice.
-/

namespace Moor

open Codec List
open Option (some_inj)

/-! ### What a critical section does to the table -/

/-- What a critical section does to the table before it may rebuild the consensus. -/
inductive TableChange (env : DaEnv) (relays : List DaRelay) : DaEvent → List DaRelay → Prop
  | same (e : DaEvent) : TableChange env relays e relays
  | publish {desc : NodeDescriptor} {time : UInt64} {relays' : List DaRelay} (input : BuildInput)
      (written : Bool) (h : daAddRelay env time desc relays = some relays') :
      TableChange env relays (.publish desc time input written) relays'
  | propagate {desc : NodeDescriptor} {time : UInt64} {relays' : List DaRelay}
      (input : BuildInput) (h : daAddRelay env time desc relays = some relays') :
      TableChange env relays (.propagate desc time input) relays'
  | sync (descs : List NodeDescriptor) (time : UInt64) :
      TableChange env relays (.sync descs time) (descs.foldl (daSyncRelay env time) relays)
  | importTrusted {desc : NodeDescriptor} {relays' : List DaRelay}
      (h : daAddRelayTrusted desc relays = some relays') :
      TableChange env relays (.importTrusted desc) relays'
  | probed (results : List ProbeResult) :
      TableChange env relays (.probed results) (daApplyProbes results relays)

def DaState.relays (s : DaState) : List DaRelay := s.config.consensus.relays

/-- The table after a rebuild. -/
def rebuiltRelays (env : DaEnv) (s : DaState) (input : BuildInput) (relays : List DaRelay) :
    List DaRelay :=
  daPrepareRelays env.crypto env.cap input.now input.flagsNow s.config.badexitIds relays

/-- The snapshot is the one before, or was taken of the consensus. -/
def SnapshotOf (s s' : DaState) : Prop :=
  s'.published = s.published ∨ s'.published = some s'.config.consensus.toConsensus

/-- What is left of a state: the table is known, and the snapshot is the one before or was taken of
the consensus. -/
structure Outcome (s : DaState) (relays : List DaRelay) (s' : DaState) : Prop where
  relays : s'.relays = relays
  snapshot : SnapshotOf s s'

variable {s s' : DaState} {relays : List DaRelay} {merge : Bytes → DaState → DaState}

theorem outcome_same (s : DaState) : Outcome s s.relays s := ⟨rfl, .inl rfl⟩

variable (env : DaEnv)

theorem outcome_rebuild (input : BuildInput) (s : DaState) :
    Outcome s (rebuiltRelays env s input s.relays) (s.rebuild env input) :=
  ⟨(daSignConsensus_frame ..).1, .inl rfl⟩

/-- The table is changed, and the consensus is rebuilt. -/
theorem outcome_withRelays_rebuild (input : BuildInput) (s : DaState) (relays : List DaRelay)
    (hle : relays.length ≤ moorMaxRelays) :
    Outcome s (rebuiltRelays env s input relays) ((s.withRelays relays hle).rebuild env input) :=
  ⟨(outcome_rebuild env input (s.withRelays relays hle)).relays, .inl rfl⟩

theorem Outcome.takeSnapshot (h : Outcome s relays s') (written : Bool) :
    Outcome s relays (s'.takeSnapshot written) := by
  unfold DaState.takeSnapshot
  split
  · exact ⟨h.relays, .inr rfl⟩
  · exact h

theorem outcome_attach {peerPk : Field 32} {put : DaSig → DaSig}
    (h : s.attach peerPk put = some s') : Outcome s s.relays s' := by
  unfold DaState.attach at h
  split at h
  · cases h
  · rw [← some_inj.mp h]
    exact ⟨rfl, .inl rfl⟩

theorem outcome_daMergeVote (vote : Vote) (written : Bool) (s : DaState) :
    Outcome s s.relays (daMergeVote env vote written s) := by
  unfold daMergeVote
  split
  · exact outcome_same s
  split
  · rename_i hattach
    exact (outcome_attach hattach).takeSnapshot written
  · exact outcome_same s

theorem outcome_daMergeVotePq (vote : VotePq) (written : Bool) (body : Bytes) (s : DaState) :
    Outcome s s.relays (daMergeVotePq env vote written body s) := by
  unfold daMergeVotePq
  split
  · exact outcome_same s
  split
  · exact outcome_same s
  split
  · rename_i hattach
    exact (outcome_attach hattach).takeSnapshot written
  · exact outcome_same s

theorem outcome_daReceiveVote (vote : Vote) (input : BuildInput) (written : Bool)
    (hmerge : ∀ body, Outcome s s.relays (merge body s)) :
    Outcome s (if voteDiverges env vote s then rebuiltRelays env s input s.relays else s.relays)
      (daReceiveVote env vote input written merge s) := by
  have hrebuilt := (outcome_rebuild env input s).takeSnapshot written
  unfold daReceiveVote voteDiverges
  cases hsig : env.crypto.signVerify vote.signature vote.bodyHash.val vote.peerPk with
  | false => exact outcome_same s
  | true =>
    cases hbody : consensusBodyBuild s.config.consensus.toConsensus with
    | none => exact hrebuilt
    | some body =>
      by_cases hhash : env.crypto.hash body = vote.bodyHash
      · simp only [hhash, ne_eq, not_true_eq_false, decide_false, Bool.and_false, Bool.not_true,
          Bool.false_eq_true, if_false]
        split
        · exact outcome_same s
        · exact hmerge body
      · simpa [hhash] using hrebuilt

/-- What a rebuild in a critical section finds. -/
def DaEvent.input : DaEvent → Option BuildInput
  | .publish _ _ input _ | .propagate _ _ input | .build input | .vote _ input _
  | .votePq _ input _ => some input
  | _ => none

/-- A critical section changes the table, and then may rebuild the consensus from it. It leaves the
snapshot alone or takes it of the consensus that it leaves. -/
theorem daStep_outcome (s : DaState) (e : DaEvent) :
    ∃ relays, TableChange env s.relays e relays ∧
      (Outcome s relays (daStep env s e) ∨ ∃ input, e.input = some input ∧
        Outcome s (rebuiltRelays env s input relays) (daStep env s e)) := by
  -- a vote rebuilds the consensus if it is for another body
  have of_vote {diverges : Bool} {input : BuildInput} {s' : DaState} (he : e.input = some input)
      (h : Outcome s (if diverges then rebuiltRelays env s input s.relays else s.relays) s') :
      Outcome s s.relays s' ∨ ∃ input, e.input = some input ∧
        Outcome s (rebuiltRelays env s input s.relays) s' := by
    cases diverges with
    | false => exact .inl h
    | true => exact .inr ⟨input, he, h⟩
  cases e with
  | publish desc time input written =>
    refine ⟨(daAddRelay env time desc s.relays).getD s.relays, ?_,
      .inr ⟨input, rfl, (outcome_withRelays_rebuild ..).takeSnapshot written⟩⟩
    cases hadd : daAddRelay env time desc s.relays with
    | none => exact .same _
    | some relays' => exact .publish input written hadd
  | propagate desc time input =>
    simp only [daStep]
    split
    · rename_i relays' hadd
      exact ⟨relays', .propagate input hadd, .inr ⟨input, rfl, outcome_withRelays_rebuild ..⟩⟩
    · exact ⟨s.relays, .same _, .inl (outcome_same s)⟩
  | sync descs time => exact ⟨_, .sync descs time, .inl ⟨rfl, .inl rfl⟩⟩
  | importTrusted desc =>
    simp only [daStep]
    split
    · rename_i relays' hadd
      exact ⟨relays', .importTrusted hadd, .inl ⟨rfl, .inl rfl⟩⟩
    · exact ⟨s.relays, .same _, .inl (outcome_same s)⟩
  | probed results => exact ⟨_, .probed results, .inl ⟨rfl, .inl rfl⟩⟩
  | build input => exact ⟨s.relays, .same _, .inr ⟨input, rfl, outcome_rebuild ..⟩⟩
  | snapshot written => exact ⟨s.relays, .same _, .inl ((outcome_same s).takeSnapshot written)⟩
  | vote vote input written =>
    exact ⟨s.relays, .same _, of_vote rfl (outcome_daReceiveVote env vote input written
      fun _ => outcome_daMergeVote env vote written s)⟩
  | votePq vote input written =>
    exact ⟨s.relays, .same _, of_vote rfl (outcome_daReceiveVote env vote.toVote input written
      fun body => outcome_daMergeVotePq env vote written body s)⟩

/-- What a critical section does to the table, and a rebuild to the table it finds. -/
theorem daStep_table {env : DaEnv} {e : DaEvent} {I : List DaRelay → Prop}
    (hchange : ∀ {relays}, TableChange env s.relays e relays → I relays)
    (hrebuild : ∀ {relays input}, e.input = some input → I relays →
      I (rebuiltRelays env s input relays)) : I (daStep env s e).relays := by
  obtain ⟨relays, htable, hsame | ⟨input, hinput, hrebuilt⟩⟩ := daStep_outcome env s e
  · rw [hsame.relays]
    exact hchange htable
  · rw [hrebuilt.relays]
    exact hrebuild hinput (hchange htable)

theorem daStep_published (s : DaState) (e : DaEvent) : SnapshotOf s (daStep env s e) := by
  obtain ⟨_, -, hsame | ⟨_, -, hrebuilt⟩⟩ := daStep_outcome env s e
  · exact hsame.snapshot
  · exact hrebuilt.snapshot

/-- What the critical sections keep holds in every run. -/
theorem daRun_invariant {env : DaEnv} {P : DaState → DaEvent → Prop} {I : DaState → Prop}
    (hstep : ∀ s e, I s → P s e → I (daStep env s e)) {events : List DaEvent}
    (hs : I s) (hmeets : Run.Along (fun s e => some (daStep env s e)) P s events)
    (hrun : Run.run (fun s e => some (daStep env s e)) s events = some s') : I s' := by
  refine Run.run_invariant ?_ hs hmeets hrun
  intro s e s' hs he hnext
  rw [← some_inj.mp hnext]
  exact hstep s e hs he

/-! ### Descriptors that are taken up -/

/-- The descriptor without the flags that an authority assigns. -/
def NodeDescriptor.sanitized (desc : NodeDescriptor) : NodeDescriptor :=
  { desc with flags := Flags.clear desc.flags nodeFlagsDaAssigned }

/-- The entry has the key of the descriptor, or its address and port. -/
def DaRelay.matches (desc : NodeDescriptor) (r : DaRelay) : Bool :=
  r.identityPk = desc.identityPk ∨
    (cString r.address = cString desc.address ∧ r.orPort = desc.orPort)

/-- A table around the first entry that passes a test. -/
theorem exists_modify_of_findIdx? {α : Type*} {p : α → Bool} {l : List α} {i : ℕ}
    (h : l.findIdx? p = some i) (f : α → α) :
    ∃ pre a post, l = pre ++ a :: post ∧ p a = true ∧ (∀ b ∈ pre, p b = false) ∧
      l.find? p = some a ∧ l.modify i f = pre ++ f a :: post := by
  induction l generalizing i with
  | nil => cases h
  | cons a l ih =>
    rw [findIdx?_cons] at h
    split at h
    · rename_i ha
      rw [← some_inj.mp h]
      exact ⟨[], a, l, rfl, ha, by simp, by simp [ha], rfl⟩
    rename_i ha
    obtain ⟨j, hj, rfl⟩ := Option.map_eq_some_iff.mp h
    obtain ⟨pre, b, post, rfl, hb, hpre, hfind, hmodify⟩ := ih hj
    refine ⟨a :: pre, b, post, rfl, hb, ?_, ?_, ?_⟩
    · simpa [ha] using hpre
    · simpa [ha] using hfind
    · simp [hmodify]

section Entries

variable {env : DaEnv} {now : UInt64} {desc : NodeDescriptor} {relays relays' : List DaRelay}

theorem daAddRelay_eq (env : DaEnv) (now : UInt64) (desc : NodeDescriptor) (relays : List DaRelay) :
    daAddRelay env now desc relays =
      if !daAdmits env desc then none
      else match relays.findIdx? fun r => r.matches desc with
        | some i => some (relays.modify i fun r => if r.identityPk = desc.identityPk then
            daRefreshRelay env now desc.sanitized r else daNewRelay now desc.sanitized)
        | none => if relays.length ≥ moorMaxRelays then none
          else some (relays ++ [daLocate env desc.sanitized (daNewRelay now desc.sanitized)]) :=
  rfl

/-- A descriptor that is taken up refreshes its entry, replaces another one, or is added. -/
theorem daAddRelay_cases (h : daAddRelay env now desc relays = some relays') :
    daAdmits env desc = true ∧
    ((∃ pre r post, relays = pre ++ r :: post ∧ relays.find? (·.matches desc) = some r ∧
        (∀ q ∈ pre, q.matches desc = false) ∧
        relays' = pre ++ (if r.identityPk = desc.identityPk then
          daRefreshRelay env now desc.sanitized r else daNewRelay now desc.sanitized) :: post) ∨
      ((∀ q ∈ relays, q.matches desc = false) ∧
        relays' = relays ++ [daLocate env desc.sanitized (daNewRelay now desc.sanitized)])) := by
  rw [daAddRelay_eq] at h
  split at h
  · cases h
  rename_i hadmits
  refine ⟨by simpa using hadmits, ?_⟩
  split at h
  · rename_i i hi
    left
    obtain ⟨pre, r, post, hrelays, -, hpre, hfind, hmodify⟩ := exists_modify_of_findIdx? hi
      fun r => if r.identityPk = desc.identityPk then daRefreshRelay env now desc.sanitized r
        else daNewRelay now desc.sanitized
    exact ⟨pre, r, post, hrelays, hfind, hpre, (some_inj.mp h).symm.trans hmodify⟩
  · rename_i hnone
    split at h
    · cases h
    · exact .inr ⟨fun q hq => findIdx?_eq_none_iff.mp hnone q hq, (some_inj.mp h).symm⟩

@[simp] theorem bodyEntry_daLocate (r : DaRelay) :
    (daLocate env desc r).bodyEntry = r.bodyEntry := by
  obtain ⟨_, _, h⟩ := exists_daLocate_eq env desc r
  rw [h]
  rfl

@[simp] theorem bodyEntry_daRefreshRelay (r : DaRelay) :
    (daRefreshRelay env now desc r).bodyEntry = (desc.identityPk, desc.bandwidth) :=
  bodyEntry_daLocate _

/-- What a body says of the table after a descriptor is taken up. -/
theorem daAddRelay_bodyEntries (h : daAddRelay env now desc relays = some relays') :
    (∃ pre r post, relays = pre ++ r :: post ∧ relays.find? (·.matches desc) = some r ∧
        (∀ q ∈ pre, q.matches desc = false) ∧ relays'.map DaRelay.bodyEntry =
          pre.map DaRelay.bodyEntry ++ (desc.identityPk, desc.bandwidth) ::
            post.map DaRelay.bodyEntry) ∨
      ((∀ q ∈ relays, q.matches desc = false) ∧ relays'.map DaRelay.bodyEntry =
        relays.map DaRelay.bodyEntry ++ [(desc.identityPk, desc.bandwidth)]) := by
  rcases (daAddRelay_cases h).2 with ⟨pre, r, post, hrelays, hfind, hpre, rfl⟩ | ⟨hnone, rfl⟩
  · refine .inl ⟨pre, r, post, hrelays, hfind, hpre, ?_⟩
    rw [map_append, map_cons]
    split
    · rw [bodyEntry_daRefreshRelay]
      rfl
    · rfl
  · refine .inr ⟨hnone, ?_⟩
    rw [map_append, map_singleton, bodyEntry_daLocate]
    rfl

/-! ### Distinct keys -/

/-- The table has one entry for a key. -/
def DistinctKeys (relays : List DaRelay) : Prop := (relays.map (·.identityPk)).Nodup

/-- If the relay is in the table, the first entry with its key or with its address and port is its
own. -/
def KeyComesFirst (desc : NodeDescriptor) (relays : List DaRelay) : Prop :=
  (∃ r ∈ relays, r.identityPk = desc.identityPk) →
    ∀ r ∈ relays.find? (·.matches desc), r.identityPk = desc.identityPk
  deriving Decidable

theorem map_fst_bodyEntry (relays : List DaRelay) :
    (relays.map DaRelay.bodyEntry).map Prod.fst = relays.map (·.identityPk) := by
  rw [map_map]
  rfl

theorem nodup_replace_iff {α : Type*} {pre post : List α} {a b : α}
    (h : (pre ++ a :: post).Nodup) (hpre : b ∉ pre) :
    (pre ++ b :: post).Nodup ↔ b ∉ post := by
  rw [nodup_middle, nodup_cons, mem_append] at h ⊢
  exact ⟨fun hb => fun hmem => hb.1 (.inr hmem), fun hb => ⟨fun hmem => hmem.elim hpre hb, h.2⟩⟩

theorem notMem_keys (h : ∀ r ∈ relays, r.matches desc = false) :
    desc.identityPk ∉ relays.map (·.identityPk) := by
  intro hmem
  obtain ⟨r, hr, hkey⟩ := mem_map.mp hmem
  simpa [DaRelay.matches, hkey] using h r hr

/-- A descriptor leaves keys distinct if and only if no entry with its address comes before its
own. -/
theorem distinctKeys_daAddRelay_iff (hdist : DistinctKeys relays)
    (h : daAddRelay env now desc relays = some relays') :
    DistinctKeys relays' ↔ KeyComesFirst desc relays := by
  rcases daAddRelay_bodyEntries h with ⟨pre, r, post, hrelays, hfind, hpre, hentries⟩ |
    ⟨hnone, hentries⟩
  · have hkeys : relays'.map (·.identityPk) =
        pre.map (·.identityPk) ++ desc.identityPk :: post.map (·.identityPk) := by
      simp [← map_fst_bodyEntry, hentries]
    have hold : (pre.map (·.identityPk) ++ r.identityPk :: post.map (·.identityPk)).Nodup := by
      simpa [DistinctKeys, hrelays] using hdist
    rw [DistinctKeys, hkeys, nodup_replace_iff hold (notMem_keys hpre), KeyComesFirst, hfind,
      hrelays]
    constructor
    · rintro hpost ⟨q, hq, hqkey⟩ r' hr'
      rw [← some_inj.mp hr']
      rcases mem_append.mp hq with hq | hq
      · exact absurd (mem_map_of_mem hq) (hqkey ▸ notMem_keys hpre)
      · rcases mem_cons.mp hq with rfl | hq
        · exact hqkey
        · exact absurd (mem_map_of_mem hq) (hqkey ▸ hpost)
    · intro hfirst hmem
      obtain ⟨q, hq, hqkey⟩ := mem_map.mp hmem
      have hrkey := hfirst ⟨q, by simp [hq], hqkey⟩ r rfl
      rw [nodup_middle, nodup_cons, mem_append] at hold
      exact hold.1 (.inr (hrkey ▸ hmem))
  · have hkeys : relays'.map (·.identityPk) =
        relays.map (·.identityPk) ++ [desc.identityPk] := by
      simp [← map_fst_bodyEntry, hentries]
    refine iff_of_true ?_ ?_
    · rw [DistinctKeys, hkeys, ← concat_eq_append]
      exact List.Nodup.concat (notMem_keys hnone) hdist
    · rintro ⟨r, hr, hrkey⟩
      exact absurd (mem_map_of_mem hr) (hrkey ▸ notMem_keys hnone)

/-! ### Entries -/

variable {r' : DaRelay}

theorem mem_or_of_mem_modify {α : Type*} {l : List α} {i : ℕ} {f : α → α} {a : α}
    (h : a ∈ l.modify i f) : a ∈ l ∨ ∃ b, l[i]? = some b ∧ a = f b := by
  rcases mem_of_mem_modify h with hnew | ⟨j, -, hj⟩
  · exact .inr hnew
  · exact .inl (mem_of_getElem? hj)

/-- An entry after a descriptor was taken up is an old one, the old one of the relay refreshed, or a
new one. -/
theorem mem_daAddRelay (h : daAddRelay env now desc relays = some relays') (hr' : r' ∈ relays') :
    r' ∈ relays ∨
      (∃ r ∈ relays, r.identityPk = desc.identityPk ∧
        r' = daRefreshRelay env now desc.sanitized r) ∨
      r' = daNewRelay now desc.sanitized ∨
      r' = daLocate env desc.sanitized (daNewRelay now desc.sanitized) := by
  rcases (daAddRelay_cases h).2 with ⟨pre, r, post, rfl, -, -, rfl⟩ | ⟨-, rfl⟩
  · simp only [mem_append, mem_cons] at hr' ⊢
    rcases hr' with hpre | hnew | hpost
    · exact .inl (.inl hpre)
    · right
      split at hnew
      · rename_i hkey
        exact .inl ⟨r, by simp, hkey, hnew⟩
      · exact .inr (.inl hnew)
    · exact .inl (.inr (.inr hpost))
  · rcases mem_append.mp hr' with hold | hnew
    · exact .inl hold
    · exact .inr (.inr (.inr (mem_singleton.mp hnew)))

/-- A descriptor in the list of a peer is merged into the entry of the relay, or taken up. -/
theorem mem_daSyncRelay (hr' : r' ∈ daSyncRelay env now relays desc) :
    r' ∈ relays ∨
      (nodeVerifyDescriptor env.crypto desc = true ∧ desc.buildId = env.buildId ∧
        ∃ r, relays.find? (fun r => r.identityPk = desc.identityPk) = some r ∧
          r' = daMergeKnown desc r) ∨
      ∃ relays', daAddRelay env now desc relays = some relays' ∧ r' ∈ relays' ∧
        ∀ r ∈ relays, r.identityPk ≠ desc.identityPk := by
  unfold daSyncRelay at hr'
  split at hr'
  · exact .inl hr'
  rename_i hvalid
  split at hr'
  · exact .inl hr'
  rename_i hbuild
  split at hr'
  · rename_i j hj
    obtain ⟨pre, r, post, rfl, -, -, hfind, hmodify⟩ :=
      exists_modify_of_findIdx? hj (daMergeKnown desc)
    rw [hmodify] at hr'
    simp only [mem_append, mem_cons] at hr' ⊢
    rcases hr' with hold | hnew | hold
    · exact .inl (.inl hold)
    · exact .inr (.inl ⟨by simpa using hvalid, not_not.mp hbuild, r, hfind, hnew⟩)
    · exact .inl (.inr (.inr hold))
  · rename_i hnone
    cases hadd : daAddRelay env now desc relays with
    | none =>
      rw [hadd] at hr'
      exact .inl hr'
    | some relays' =>
      rw [hadd] at hr'
      refine .inr (.inr ⟨relays', rfl, hr', ?_⟩)
      simpa using findIdx?_eq_none_iff.mp hnone

/-- An imported descriptor replaces the entry of the relay or is added. -/
theorem mem_daAddRelayTrusted (h : daAddRelayTrusted desc relays = some relays')
    (hr' : r' ∈ relays') : r' ∈ relays ∨ r' = ⟨desc, 0, 0, 0⟩ := by
  unfold daAddRelayTrusted at h
  split at h
  · cases h
  split at h
  · rw [← some_inj.mp h] at hr'
    rcases mem_or_of_mem_modify hr' with hold | ⟨r, hr, rfl⟩
    · exact .inl hold
    · split
      · exact .inr rfl
      · exact .inl (mem_of_getElem? hr)
  · split at h
    · rw [← some_inj.mp h, mem_append, mem_singleton] at hr'
      exact hr'
    · cases h

theorem mem_daApplyProbes {results : List ProbeResult} (hr' : r' ∈ daApplyProbes results relays) :
    ∃ r ∈ relays, r' = r ∨ ∃ res ∈ results, r' = daApplyProbe res r := by
  obtain ⟨i, hi, rfl⟩ := mem_mapIdx.mp hr'
  refine ⟨relays[i], getElem_mem hi, ?_⟩
  split
  · rename_i res hres
    exact .inr ⟨res, mem_of_getElem? hres, rfl⟩
  · exact .inl rfl

/-- A rebuild assigns the flags of a relay and its family, and may mark it as a bad exit. -/
theorem mem_daPrepareRelays {C : Crypto} {cap : UInt64 → UInt64} {flagsNow : UInt64}
    {badexitIds : List (Field 32)}
    (hr' : r' ∈ daPrepareRelays C cap now flagsNow badexitIds relays) :
    ∃ r ∈ relays, ∃ q fid, (q = r ∨ ∃ t, q = assignFlags cap flagsNow t r) ∧
      r' = flagBadexit badexitIds { q with familyId := fid } := by
  obtain ⟨i, hi⟩ := getElem?_of_mem hr'
  rw [daPrepareRelays, getElem?_daResolveFamilies] at hi
  obtain ⟨q, hq, rfl⟩ := Option.map_eq_some_iff.mp hi
  have hmem := mem_of_getElem? hq
  have hsorted : ∀ r ∈ (SwapRemove.remove (daIsStale now) relays).insertionSort relayLe,
      r ∈ relays := by
    intro r hr
    rw [(perm_insertionSort _ _).mem_iff, (SwapRemove.perm_filter _ relays).mem_iff] at hr
    exact (mem_filter.mp hr).1
  unfold daComputeFlagsStatistical at hmem
  dsimp only at hmem
  split at hmem
  · exact ⟨q, hsorted q hmem, q, _, .inl rfl, rfl⟩
  · obtain ⟨r, hr, rfl⟩ := mem_map.mp hmem
    exact ⟨r, hsorted r hr, _, _, .inr ⟨_, rfl⟩, rfl⟩

/-! ### Runs with distinct keys -/

/-- Changing the entry of a relay leaves the keys as they are. -/
theorem keys_modify {f : DaRelay → DaRelay}
    (hf : ∀ r, r.identityPk = desc.identityPk → (f r).identityPk = desc.identityPk) {i : ℕ}
    (hi : relays.findIdx? (fun r => r.identityPk = desc.identityPk) = some i) :
    (relays.modify i f).map (·.identityPk) = relays.map (·.identityPk) := by
  obtain ⟨pre, r, post, hrelays, hr, -, -, hmodify⟩ := exists_modify_of_findIdx? hi f
  have hkey := of_decide_eq_true hr
  rw [hmodify, hrelays]
  simp [hf r hkey, hkey]

theorem identityPk_daMergeKnown {r : DaRelay} (h : r.identityPk = desc.identityPk) :
    (daMergeKnown desc r).identityPk = desc.identityPk := by
  have hmerged : (if desc.published > r.published then
      (⟨desc, r.firstSeen, 0, r.probeFailures⟩ : DaRelay) else r).identityPk = desc.identityPk := by
    split
    · rfl
    · exact h
  unfold daMergeKnown
  dsimp only
  split
  · exact hmerged
  · split <;> exact hmerged

variable (h : DistinctKeys relays)
include h

theorem DistinctKeys.daSyncRelay : DistinctKeys (daSyncRelay env now relays desc) := by
  unfold Moor.daSyncRelay
  split
  · exact h
  split
  · exact h
  split
  · rename_i j hj
    rw [DistinctKeys, keys_modify (fun r => identityPk_daMergeKnown) hj]
    exact h
  rename_i hnone
  cases hadd : daAddRelay env now desc relays with
  | none => exact h
  | some relays' =>
    refine (distinctKeys_daAddRelay_iff h hadd).mpr ?_
    rintro ⟨r, hr, hkey⟩
    exact absurd hkey (by simpa using findIdx?_eq_none_iff.mp hnone r hr)

theorem DistinctKeys.foldl_daSyncRelay (descs : List NodeDescriptor) :
    DistinctKeys (descs.foldl (Moor.daSyncRelay env now) relays) := by
  induction descs generalizing relays with
  | nil => exact h
  | cons desc descs ih => exact ih h.daSyncRelay

theorem DistinctKeys.daAddRelayTrusted (hadd : daAddRelayTrusted desc relays = some relays') :
    DistinctKeys relays' := by
  unfold Moor.daAddRelayTrusted at hadd
  split at hadd
  · cases hadd
  split at hadd
  · rename_i i hi
    rw [← some_inj.mp hadd, DistinctKeys, keys_modify _ hi]
    · exact h
    intro r hr
    split
    · rfl
    · exact hr
  · rename_i hnone
    split at hadd
    · rw [← some_inj.mp hadd, DistinctKeys, map_append, map_singleton, ← concat_eq_append]
      refine List.Nodup.concat ?_ h
      intro hmem
      obtain ⟨q, hq, hqkey⟩ := mem_map.mp hmem
      exact absurd hqkey (by simpa using findIdx?_eq_none_iff.mp hnone q hq)
    · cases hadd

theorem DistinctKeys.daApplyProbes (results : List ProbeResult) :
    DistinctKeys (daApplyProbes results relays) := by
  rw [DistinctKeys, ← map_fst_bodyEntry, map_bodyEntry_daApplyProbes, map_fst_bodyEntry]
  exact h

/-- Evicting and sorting keep keys distinct. -/
theorem DistinctKeys.rebuiltRelays (s : DaState) (input : BuildInput) :
    DistinctKeys (rebuiltRelays env s input relays) := by
  rw [DistinctKeys, ← map_fst_bodyEntry, Moor.rebuiltRelays, map_bodyEntry_daPrepareRelays,
    map_fst_bodyEntry]
  have hperm := (perm_insertionSort relayLe _).trans
    (SwapRemove.perm_filter (daIsStale input.now) relays)
  exact (hperm.map _).nodup_iff.mpr (h.sublist (filter_sublist.map _))

omit h

end Entries

/-- A descriptor that is published or flooded does not find the address of the relay before its
key. -/
def KeepsKeysDistinct (env : DaEnv) (s : DaState) : DaEvent → Prop
  | .publish desc _ _ _ | .propagate desc _ _ =>
    daAdmits env desc = true → KeyComesFirst desc s.relays
  | _ => True

instance (env : DaEnv) (s : DaState) (e : DaEvent) : Decidable (KeepsKeysDistinct env s e) := by
  induction e using DaEvent.casesOn <;> unfold KeepsKeysDistinct <;> infer_instance

/-- Keys stay distinct in a critical section. -/
theorem DistinctKeys.daStep {env : DaEnv} (h : DistinctKeys s.relays) {e : DaEvent}
    (he : KeepsKeysDistinct env s e) : DistinctKeys (daStep env s e).relays := by
  refine daStep_table (fun hchange => ?_) fun _ hrelays => hrelays.rebuiltRelays s _
  cases hchange with
  | same => exact h
  | publish input written hadd | propagate input hadd =>
    exact (distinctKeys_daAddRelay_iff h hadd).mpr (he (daAddRelay_cases hadd).1)
  | sync descs time => exact h.foldl_daSyncRelay descs
  | importTrusted hadd => exact h.daAddRelayTrusted hadd
  | probed results => exact h.daApplyProbes results

/-- Taking up a descriptor leaves the keys of a table distinct if and only if the descriptor does
not find the address of its relay before its key; and in every run of an authority in which
descriptors are taken up only so, there is one entry for a key. -/
theorem da_identities_distinct (env : DaEnv) (badexitIds : List (Field 32)) :
    (∀ now desc relays relays', DistinctKeys relays →
      daAddRelay env now desc relays = some relays' →
      (DistinctKeys relays' ↔ KeyComesFirst desc relays)) ∧
    ∀ events s, Run.Along (fun s e => some (daStep env s e)) (KeepsKeysDistinct env)
        (DaState.init badexitIds) events →
      Run.run (fun s e => some (daStep env s e)) (DaState.init badexitIds) events = some s →
      DistinctKeys s.relays := by
  refine ⟨fun now desc relays relays' => distinctKeys_daAddRelay_iff, ?_⟩
  intro events s hkeeps hrun
  refine daRun_invariant (I := fun s => DistinctKeys s.relays) ?_ ?_ hkeeps hrun
  · exact fun s e hs he => hs.daStep he
  · exact nodup_nil

/-- Two relays publish, and the second one publishes again with another address. -/
def samplePublications (address : Field 64) : List DaEvent :=
  [.publish (sampleAdmitted 1) 10900 sampleInput true,
    .publish (sampleAdmitted 2) 10900 sampleInput true,
    .publish { sampleAdmitted 2 with address } 10900 sampleInput true]

theorem da_identities_distinct_sample :
    ∃ s, Run.run (fun s e => some (daStep sampleDaEnv s e)) (DaState.init [])
        (samplePublications (sampleAdmitted 3).address) = some s ∧
      DistinctKeys s.relays :=
  ⟨_, rfl, (da_identities_distinct sampleDaEnv []).2
    (samplePublications (sampleAdmitted 3).address) _ (by decide +kernel) rfl⟩

/-- The second relay moves to the address of the first one, whose entry it replaces while its own
one stays. -/
theorem da_identity_entered_twice :
    ∃ s, Run.run (fun s e => some (daStep sampleDaEnv s e)) (DaState.init [])
        (samplePublications (sampleAdmitted 1).address) = some s ∧
      s.relays.map (·.identityPk) = [Arr.replicate 32 2, Arr.replicate 32 2] :=
  ⟨_, rfl, by decide +kernel⟩

/-! ### What a relay weighs for clients -/

def moorDaUnmeasuredBwCap : UInt64 := 100 * 1024

/-- The descriptors that come with a critical section. -/
def DaEvent.descriptors : DaEvent → List NodeDescriptor
  | .publish desc _ _ _ | .propagate desc _ _ | .importTrusted desc => [desc]
  | .sync descs _ => descs
  | _ => []

/-- The entries of the relay report no more than the cap for relays without a measurement. -/
def ReportsAtMost (pk : Field 32) (relays : List NodeDescriptor) : Prop :=
  ∀ r ∈ relays, r.identityPk = pk → r.bandwidth ≤ moorDaUnmeasuredBwCap
  deriving Decidable

/-- In every consensus with the body of the given one, and with weights of positions that are at
most their scale, the relay weighs no more than the cap. -/
def WeighsAtMost (pk : Field 32) (cons : Consensus) : Prop :=
  ∀ c : WeightedConsensus, consensusBodyBuild c.toConsensus = consensusBodyBuild cons →
    (∀ i, c.bwWeights i ≤ 10000) → ∀ requiredFlags, ∀ r ∈ c.relays, r.identityPk = pk →
      c.scaledBandwidth requiredFlags r ≤ moorDaUnmeasuredBwCap

variable {c : WeightedConsensus}

theorem positionWeight_le (h : ∀ i, c.bwWeights i ≤ 10000) (requiredFlags : UInt32)
    (r : NodeDescriptor) : c.positionWeight requiredFlags r ≤ 10000 := by
  unfold WeightedConsensus.positionWeight
  split
  · exact h _
  · split <;> exact h _

/-- A relay that reports no more than the cap weighs no more. -/
theorem scaledBandwidth_le_cap (h : ∀ i, c.bwWeights i ≤ 10000) (requiredFlags : UInt32)
    {r : NodeDescriptor} (hr : r.bandwidth ≤ moorDaUnmeasuredBwCap) :
    c.scaledBandwidth requiredFlags r ≤ moorDaUnmeasuredBwCap := by
  have hcap : moorDaUnmeasuredBwCap.toNat = 102400 := rfl
  have hbw := UInt64.le_iff_toNat_le.mp hr
  have hweight : (c.positionWeight requiredFlags r).toInt.toNat ≤ 10000 := by
    have hle := Int32.le_iff_toInt_le.mp (positionWeight_le h requiredFlags r)
    rw [show (10000 : Int32).toInt = 10000 from rfl] at hle
    omega
  rw [UInt64.le_iff_toNat_le, toNat_scaledBandwidth, WeightedConsensus.exactWeight, hcap]
  refine max_le (by decide) ?_
  split
  · refine Nat.div_le_of_le_mul ?_
    calc min 1000000000 (max 1000 r.bandwidth.toNat) *
          (c.positionWeight requiredFlags r).toInt.toNat
        ≤ 102400 * 10000 := Nat.mul_le_mul (by omega) hweight
      _ = 10000 * 102400 := Nat.mul_comm ..
  · omega

/-- A relay weighs no more than the cap for any client if and only if it reports no more. -/
theorem weighsAtMost_iff (pk : Field 32) (cons : Consensus) :
    WeighsAtMost pk cons ↔ ReportsAtMost pk cons.relays := by
  constructor
  · intro h r hr hpk
    -- A client of the compact consensus has no weights of positions.
    have hscaled := h ⟨cons, fun _ => 0⟩ rfl
      (fun _ => (by decide : (0 : Int32) ≤ 10000)) 0 r hr hpk
    rw [UInt64.le_iff_toNat_le, toNat_scaledBandwidth, WeightedConsensus.exactWeight,
      if_neg (by simp)] at hscaled
    rw [UInt64.le_iff_toNat_le]
    have hcap : moorDaUnmeasuredBwCap.toNat = 102400 := rfl
    omega
  · intro h c hbody hweights requiredFlags r hr hpk
    refine scaledBandwidth_le_cap hweights requiredFlags ?_
    have hsame := ((consensusBodyBuild_eq_iff _ _).mp hbody).2.2.2
    obtain ⟨i, hi, rfl⟩ := getElem_of_mem hr
    have hi' : i < cons.relays.length := hsame.length_eq ▸ hi
    obtain ⟨hkey, hbw⟩ := forall₂_iff_get.mp hsame |>.2 i hi hi'
    simp only [get_eq_getElem] at hkey hbw
    rw [hbw]
    exact h _ (getElem_mem hi') (hkey ▸ hpk)

/-- The relay reports no more than the cap in the table and in the snapshot. -/
structure DaState.ReportsAtMost (pk : Field 32) (s : DaState) : Prop where
  table : ∀ r ∈ s.relays, r.identityPk = pk → r.bandwidth ≤ moorDaUnmeasuredBwCap
  served : ∀ cons ∈ s.published, Moor.ReportsAtMost pk cons.relays

section Reports

variable {env : DaEnv} {now : UInt64} {desc : NodeDescriptor} {relays relays' : List DaRelay}
  {pk : Field 32}

theorem reports_of_bodyEntry {r : DaRelay} {q : NodeDescriptor}
    (hq : q.identityPk = pk → q.bandwidth ≤ moorDaUnmeasuredBwCap)
    (h : r.bodyEntry = (q.identityPk, q.bandwidth)) (hpk : r.identityPk = pk) :
    r.bandwidth ≤ moorDaUnmeasuredBwCap := by
  obtain ⟨hkey, hbw⟩ := Prod.mk.inj h
  rw [hbw]
  exact hq (hkey ▸ hpk)

theorem bodyEntry_daMergeKnown (r : DaRelay) :
    (daMergeKnown desc r).bodyEntry = (desc.identityPk, desc.bandwidth) ∨
      (daMergeKnown desc r).bodyEntry = r.bodyEntry := by
  unfold daMergeKnown
  by_cases hnewer : desc.published > r.published
  · left
    rw [if_pos hnewer]
    split
    · rfl
    · split <;> rfl
  · right
    rw [if_neg hnewer]
    split
    · rfl
    · split <;> rfl

/-- The table that a critical section leaves reports no more than the table before and the
descriptors that come with it. -/
theorem TableChange.reports {e : DaEvent} (hchange : TableChange env relays e relays')
    (h : ∀ r ∈ relays, r.identityPk = pk → r.bandwidth ≤ moorDaUnmeasuredBwCap)
    (he : ReportsAtMost pk e.descriptors) :
    ∀ r ∈ relays', r.identityPk = pk → r.bandwidth ≤ moorDaUnmeasuredBwCap := by
  have hadd : ∀ {now desc relays relays'},
      (∀ r ∈ relays, r.identityPk = pk → r.bandwidth ≤ moorDaUnmeasuredBwCap) →
      (desc.identityPk = pk → desc.bandwidth ≤ moorDaUnmeasuredBwCap) →
      daAddRelay env now desc relays = some relays' →
      ∀ r ∈ relays', r.identityPk = pk → r.bandwidth ≤ moorDaUnmeasuredBwCap := by
    intro now desc relays relays' h hdesc hadd r' hr'
    rcases mem_daAddRelay hadd hr' with hold | ⟨r, -, -, rfl⟩ | rfl | rfl
    · exact h r' hold
    · exact reports_of_bodyEntry hdesc (bodyEntry_daRefreshRelay r)
    · exact hdesc
    · exact reports_of_bodyEntry hdesc (bodyEntry_daLocate _)
  cases hchange with
  | same => exact h
  | publish input written hadds | propagate input hadds =>
    exact hadd h (he _ (by simp [DaEvent.descriptors])) hadds
  | sync descs time =>
    have hdescs : ∀ desc ∈ descs, desc.identityPk = pk → desc.bandwidth ≤ moorDaUnmeasuredBwCap :=
      he
    clear he
    induction descs generalizing relays with
    | nil => exact h
    | cons desc descs ih =>
      refine ih ?_ fun d hd => hdescs d (mem_cons_of_mem desc hd)
      have hdesc := hdescs desc mem_cons_self
      intro r' hr'
      rcases mem_daSyncRelay hr' with hold | ⟨-, -, r, hfind, rfl⟩ | ⟨relays', hadds, hr', -⟩
      · exact h r' hold
      · rcases bodyEntry_daMergeKnown r with hentry | hentry
        · exact reports_of_bodyEntry hdesc hentry
        · exact reports_of_bodyEntry (h r (mem_of_find?_eq_some hfind)) hentry
      · exact hadd h hdesc hadds r' hr'
  | importTrusted hadds =>
    intro r' hr'
    rcases mem_daAddRelayTrusted hadds hr' with hold | rfl
    · exact h r' hold
    · exact he _ (by simp [DaEvent.descriptors])
  | probed results =>
    intro r' hr'
    obtain ⟨r, hr, rfl | ⟨res, -, rfl⟩⟩ := mem_daApplyProbes hr'
    · exact h r' hr
    · exact reports_of_bodyEntry (h r hr) (bodyEntry_daApplyProbe res r)

theorem reports_rebuiltRelays (s : DaState) (input : BuildInput)
    (h : ∀ r ∈ relays, r.identityPk = pk → r.bandwidth ≤ moorDaUnmeasuredBwCap) :
    ∀ r ∈ rebuiltRelays env s input relays,
      r.identityPk = pk → r.bandwidth ≤ moorDaUnmeasuredBwCap := by
  intro r' hr'
  have hentry := mem_map_of_mem (f := DaRelay.bodyEntry) hr'
  rw [rebuiltRelays, map_bodyEntry_daPrepareRelays] at hentry
  obtain ⟨r, hr, heq⟩ := mem_map.mp hentry
  rw [(perm_insertionSort _ _).mem_iff, (SwapRemove.perm_filter _ relays).mem_iff] at hr
  exact reports_of_bodyEntry (h r (mem_filter.mp hr).1) heq.symm

end Reports

/-- The relay goes on reporting no more than the cap if no descriptor of it reports more. -/
theorem DaState.ReportsAtMost.step {env : DaEnv} {pk : Field 32}
    (h : s.ReportsAtMost pk) {e : DaEvent} (he : Moor.ReportsAtMost pk e.descriptors) :
    (daStep env s e).ReportsAtMost pk := by
  have htable : ∀ r ∈ (daStep env s e).relays,
      r.identityPk = pk → r.bandwidth ≤ moorDaUnmeasuredBwCap :=
    daStep_table (fun hchange => hchange.reports h.table he) fun _ => reports_rebuiltRelays s _
  refine ⟨htable, ?_⟩
  intro cons hcons
  rcases daStep_published env s e with hsame | htaken
  · exact h.served cons (hsame ▸ hcons)
  rw [htaken] at hcons
  rw [← some_inj.mp hcons]
  intro r hr
  obtain ⟨q, hq, rfl⟩ := mem_map.mp hr
  exact htable q hq

/-- A relay weighs no more than the cap for the clients of a consensus if and only if its entries
report no more; and in every run of an authority in which no descriptor of the relay reports more
than the cap it weighs no more for the clients of the snapshot. -/
theorem unmeasured_weight_capped (env : DaEnv) (badexitIds : List (Field 32)) (pk : Field 32) :
    (∀ cons, WeighsAtMost pk cons ↔ ReportsAtMost pk cons.relays) ∧
    ∀ events s, (∀ e ∈ events, ReportsAtMost pk (DaEvent.descriptors e)) →
      Run.run (fun s e => some (daStep env s e)) (DaState.init badexitIds) events = some s →
      ∀ cons ∈ s.published, WeighsAtMost pk cons := by
  refine ⟨weighsAtMost_iff pk, ?_⟩
  intro events s hreports hrun cons hcons
  have hcapped : s.ReportsAtMost pk := by
    refine daRun_invariant (I := DaState.ReportsAtMost pk) (fun s e hs he => hs.step he) ?_
      (Run.along_of_forall (fun e he _ => hreports e he) _) hrun
    exact ⟨fun r hr => absurd hr not_mem_nil, fun cons hcons => nomatch hcons⟩
  exact (weighsAtMost_iff pk cons).mpr (hcapped.served cons hcons)

/-- A relay that reports a bandwidth of 1000. -/
theorem unmeasured_weight_capped_sample :
    ∃ s cons, Run.run (fun s e => some (daStep sampleDaEnv s e)) (DaState.init [])
        [.publish { sampleAdmitted 1 with bandwidth := 1000 } 10900 sampleInput true] = some s ∧
      s.published = some cons ∧ WeighsAtMost (Arr.replicate 32 1) cons :=
  ⟨_, _, rfl, rfl, (unmeasured_weight_capped sampleDaEnv [] (Arr.replicate 32 1)).2
    [.publish { sampleAdmitted 1 with bandwidth := 1000 } 10900 sampleInput true] _
    (by decide +kernel) rfl _ rfl⟩

/-- A relay that no one has measured reports a bandwidth of a billion, which is what it weighs for a
client of the snapshot. -/
theorem unmeasured_weight_not_capped :
    ∃ s cons, Run.run (fun s e => some (daStep sampleDaEnv s e)) (DaState.init [])
        [.publish { sampleAdmitted 1 with bandwidth := 1000000000 } 10900 sampleInput true]
        = some s ∧
      s.published = some cons ∧ ∃ r ∈ cons.relays, r.identityPk = Arr.replicate 32 1 ∧
        (⟨cons, s.config.consensus.bwWeights⟩ : WeightedConsensus).scaledBandwidth 0 r
          > moorDaUnmeasuredBwCap :=
  ⟨_, _, rfl, rfl, by decide +kernel⟩

end Moor
