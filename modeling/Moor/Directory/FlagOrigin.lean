import Moor.Directory.Sync

/-!
# Where the flags of a relay come from

Running, fast, stable, guard, authority and bad exit are flags that an authority assigns, and a
relay or a peer should not be able to set them. Beside the table of an authority, the critical
sections of a run keep with each entry how its descriptor has arrived and which flags the authority
has set on it since: by a probe, by computing the flags from what it has measured, or by its list of
bad exits.

A descriptor that is published is stripped of these flags. A newer descriptor in the list of a peer
is taken over with them.

## Main results

* `da_flags_own`: the flags of an entry were set by the authority since it was created.
-/

namespace Moor

open Codec Flags Bool

/-- The flags that an authority assigns. -/
def daAssignedFlags : List UInt32 :=
  [nodeFlagFast, nodeFlagStable, nodeFlagBadexit, nodeFlagRunning, nodeFlagGuard, nodeFlagAuthority]

/-! ### The table with the origin of its entries -/

def probeSets (res : ProbeResult) (r : DaRelay) : UInt32 :=
  if r.identityPk = res.identityPk ∧ res.alive = true then
    nodeFlagRunning ||| (if has r.flags nodeFlagExit && !res.exitVerified then nodeFlagBadexit
      else 0)
  else 0

/-- The flags that the computation from measurements sets on an entry, given the entry after it. -/
def assignSets (r : DaRelay) : UInt32 :=
  (r.flags &&& (nodeFlagFast ||| nodeFlagStable ||| nodeFlagGuard)) |||
    (if has r.flags nodeFlagMiddleonly then nodeFlagBadexit else 0)

def badexitSets (badexitIds : List (Field 32)) (r : DaRelay) : UInt32 :=
  if r.identityPk ∈ badexitIds then nodeFlagBadexit else 0

/-- How the descriptor of an entry has arrived. -/
inductive Origin
  /-- The relay or another authority has published it, or it was in the list of a peer. -/
  | received
  /-- It was in the consensus of a peer that was imported at the start. -/
  | imported
  deriving DecidableEq

/-- An entry with the origin of its descriptor and the flags that the authority has set on it. -/
structure Traced where
  entry : DaRelay
  origin : Origin
  own : UInt32

section Table

variable (env : DaEnv) (now : UInt64) (desc : NodeDescriptor)

/-- `daAddRelay`. Only a relay that publishes again keeps the flags that were set on its entry. -/
def tracedAdd (table : List Traced) : Option (List Traced) :=
  if !daAdmits env desc then none
  else
    match table.findIdx? fun t => t.entry.matches desc with
    | some i => some (table.modify i fun t =>
        if t.entry.identityPk = desc.identityPk then
          ⟨daRefreshRelay env now desc.sanitized t.entry, .received, t.own⟩
        else ⟨daNewRelay now desc.sanitized, .received, 0⟩)
    | none =>
      if table.length ≥ moorMaxRelays then none
      else some (table ++
        [⟨daLocate env desc.sanitized (daNewRelay now desc.sanitized), .received, 0⟩])

/-- `daAddRelayTrusted`. -/
def tracedAddTrusted (table : List Traced) : Option (List Traced) :=
  if desc.features &&& nodeFeaturesRequired ≠ nodeFeaturesRequired then none
  else
    match table.findIdx? fun t => t.entry.identityPk = desc.identityPk with
    | some i => some (table.modify i fun t =>
        if desc.published > t.entry.published then ⟨⟨desc, 0, 0, 0⟩, .imported, 0⟩ else t)
    | none =>
      if table.length < moorMaxRelays then some (table ++ [⟨⟨desc, 0, 0, 0⟩, .imported, 0⟩])
      else none

/-- `daMergeKnown`. A newer descriptor comes with its own flags, and none of those that were set
before are left. -/
def Traced.merge (t : Traced) : Traced :=
  if desc.published > t.entry.published then ⟨daMergeKnown desc t.entry, .received, 0⟩
  else { t with entry := daMergeKnown desc t.entry }

/-- `daSyncRelay`. -/
def tracedSync (table : List Traced) (desc : NodeDescriptor) : List Traced :=
  if !nodeVerifyDescriptor env.crypto desc then table
  else if desc.buildId ≠ env.buildId then table
  else
    match table.findIdx? fun t => t.entry.identityPk = desc.identityPk with
    | some j => table.modify j (Traced.merge desc)
    | none => (tracedAdd env now desc table).getD table

/-- `daApplyProbes`. -/
def tracedProbes (results : List ProbeResult) (table : List Traced) : List Traced :=
  table.mapIdx fun i t => match results[i]? with
    | some res => ⟨daApplyProbe res t.entry, t.origin, t.own ||| probeSets res t.entry⟩
    | none => t

/-- `daComputeFlagsStatistical`, with the thresholds of the active relays of the table. -/
def tracedFlags (table : List Traced) : List Traced :=
  let active := (table.map Traced.entry).filter (·.isActive env.cap)
  if active.isEmpty then table
  else table.map fun t =>
    let r := assignFlags env.cap now (flagThresholds env.cap now active) t.entry
    ⟨r, t.origin, t.own ||| assignSets r⟩

/-- `daResolveFamilies`, which ends with the authority's list of bad exits. -/
def tracedFamilies (badexitIds : List (Field 32)) (table : List Traced) : List Traced :=
  let relays := daResolveFamilies env.crypto badexitIds (table.map Traced.entry)
  (table.zip relays).map fun (t, r) => ⟨r, t.origin, t.own ||| badexitSets badexitIds t.entry⟩

/-- `daPrepareRelays`, which is what a rebuild does to the table. -/
def tracedRebuild (s : DaState) (input : BuildInput) (table : List Traced) : List Traced :=
  let table := SwapRemove.remove (fun t => daIsStale input.now t.entry) table
  let table := table.insertionSort fun t t' => relayLe t.entry t'.entry
  let table := tracedFlags env input.flagsNow table
  tracedFamilies env s.config.badexitIds table

/-- What a critical section of the authority does to the table. -/
def tracedTable (s : DaState) (table : List Traced) : DaEvent → List Traced
  | .publish desc time input _ =>
    tracedRebuild env s input ((tracedAdd env time desc table).getD table)
  | .propagate desc time input =>
    match tracedAdd env time desc table with
    | some table => tracedRebuild env s input table
    | none => table
  | .sync descs time => descs.foldl (tracedSync env time) table
  | .importTrusted desc => (tracedAddTrusted desc table).getD table
  | .probed results => tracedProbes results table
  | .build input => tracedRebuild env s input table
  | .snapshot _ => table
  | .vote vote input _ =>
    if voteDiverges env vote s then tracedRebuild env s input table else table
  | .votePq vote input _ =>
    if voteDiverges env vote.toVote s then tracedRebuild env s input table else table

end Table

/-- Every flag of the entry that an authority assigns is one that it has set. -/
def FlagsOwn (r : DaRelay) (own : UInt32) : Prop :=
  ∀ flag ∈ daAssignedFlags, has r.flags flag = true → has own flag = true

/-! ### The entries are those of the authority -/

section

open List

theorem map_modify_of_comm {α β : Type*} {f : α → β} {g : α → α} {h : β → β}
    (hcomm : ∀ a, f (g a) = h (f a)) (l : List α) (i : ℕ) :
    (l.modify i g).map f = (l.map f).modify i h := by
  refine ext_getElem? fun j => ?_
  rw [getElem?_map, getElem?_modify, getElem?_modify, getElem?_map]
  cases l[j]? with
  | none => rfl
  | some a =>
    refine congrArg some ?_
    rw [apply_ite f, hcomm]

variable (env : DaEnv) (now : UInt64) (desc : NodeDescriptor) (table : List Traced)

theorem entries_tracedAdd :
    (tracedAdd env now desc table).map (map Traced.entry) =
      daAddRelay env now desc (table.map Traced.entry) := by
  rw [daAddRelay_eq, tracedAdd]
  split
  · rfl
  simp only [findIdx?_map, Function.comp_def, length_map]
  cases table.findIdx? fun t => t.entry.matches desc with
  | some i =>
    refine congrArg some (map_modify_of_comm (fun t => ?_) table i)
    exact apply_ite Traced.entry ..
  | none =>
    dsimp only
    split
    · rfl
    · exact congrArg some map_append

theorem entries_tracedAdd_getD :
    ((tracedAdd env now desc table).getD table).map Traced.entry =
      (daAddRelay env now desc (table.map Traced.entry)).getD (table.map Traced.entry) := by
  rw [← entries_tracedAdd, Option.getD_map]

theorem entries_tracedAddTrusted :
    (tracedAddTrusted desc table).map (map Traced.entry) =
      daAddRelayTrusted desc (table.map Traced.entry) := by
  rw [daAddRelayTrusted, tracedAddTrusted]
  split
  · rfl
  simp only [findIdx?_map, Function.comp_def, length_map]
  cases table.findIdx? fun t => t.entry.identityPk = desc.identityPk with
  | some i =>
    refine congrArg some (map_modify_of_comm (fun t => ?_) table i)
    exact apply_ite Traced.entry ..
  | none =>
    dsimp only
    split
    · exact congrArg some map_append
    · rfl

theorem entries_tracedSync :
    (tracedSync env now table desc).map Traced.entry =
      daSyncRelay env now (table.map Traced.entry) desc := by
  rw [daSyncRelay, tracedSync]
  split
  · rfl
  split
  · rfl
  simp only [findIdx?_map, Function.comp_def]
  cases table.findIdx? fun t => t.entry.identityPk = desc.identityPk with
  | some i =>
    refine map_modify_of_comm (fun t => ?_) table i
    unfold Traced.merge
    split <;> rfl
  | none => exact entries_tracedAdd_getD env now desc table

theorem entries_tracedProbes (results : List ProbeResult) :
    (tracedProbes results table).map Traced.entry =
      daApplyProbes results (table.map Traced.entry) := by
  refine ext_getElem? fun i => ?_
  simp only [tracedProbes, daApplyProbes, getElem?_map, getElem?_mapIdx, Option.map_map]
  congr 1
  funext t
  cases results[i]? <;> rfl

theorem entries_tracedFlags :
    (tracedFlags env now table).map Traced.entry =
      daComputeFlagsStatistical env.cap now (table.map Traced.entry) := by
  unfold tracedFlags daComputeFlagsStatistical
  dsimp only
  split
  · rfl
  · rw [map_map, map_map]
    rfl

theorem entries_tracedFamilies (badexitIds : List (Field 32)) :
    (tracedFamilies env badexitIds table).map Traced.entry =
      daResolveFamilies env.crypto badexitIds (table.map Traced.entry) := by
  rw [tracedFamilies, map_map]
  refine map_snd_zip ?_
  rw [length_daResolveFamilies, length_map]

theorem entries_tracedRebuild (s : DaState) (input : BuildInput) :
    (tracedRebuild env s input table).map Traced.entry =
      rebuiltRelays env s input (table.map Traced.entry) := by
  rw [tracedRebuild, entries_tracedFamilies, entries_tracedFlags,
    map_insertionSort _ relayLe Traced.entry _ fun _ _ _ _ => Iff.rfl,
    SwapRemove.map_remove Traced.entry (daIsStale input.now)]
  rfl

/-- The critical section does to the entries what the authority does to its table. -/
theorem entries_tracedTable {s : DaState} {table : List Traced}
    (htable : table.map Traced.entry = s.relays) (e : DaEvent) :
    (tracedTable env s table e).map Traced.entry = (daStep env s e).relays := by
  have hvote {vote : Vote} {input : BuildInput} {s' : DaState}
      (h : Outcome s (if voteDiverges env vote s then rebuiltRelays env s input s.relays
        else s.relays) s') :
      (if voteDiverges env vote s then tracedRebuild env s input table else table).map
        Traced.entry = s'.relays := by
    rw [h.relays, apply_ite (map Traced.entry), entries_tracedRebuild, htable]
  cases e with
  | publish desc time input written =>
    rw [tracedTable, entries_tracedRebuild, entries_tracedAdd_getD, htable]
    exact ((outcome_withRelays_rebuild env input s _ _).takeSnapshot written).relays.symm
  | propagate desc time input =>
    have hadd := entries_tracedAdd env time desc table
    rw [htable] at hadd
    rw [daStep]
    split
    · rename_i relays hrelays
      obtain ⟨table', htable', hentries⟩ := Option.map_eq_some_iff.mp (hadd.trans hrelays)
      simp only [tracedTable, htable', entries_tracedRebuild, hentries]
      exact (outcome_withRelays_rebuild env input s _ _).relays.symm
    · rename_i hrelays
      simp only [tracedTable, Option.map_eq_none_iff.mp (hadd.trans hrelays)]
      exact htable
  | sync descs time =>
    have hfold : descs.foldl (daSyncRelay env time) (table.map Traced.entry) = _ :=
      foldl_hom (map Traced.entry) fun table desc =>
        (entries_tracedSync env time desc table).symm
    rw [htable] at hfold
    exact hfold.symm
  | importTrusted desc =>
    have hadd : ((tracedAddTrusted desc table).getD table).map Traced.entry =
        (daAddRelayTrusted desc s.relays).getD s.relays := by
      rw [← htable, ← entries_tracedAddTrusted, Option.getD_map]
    simp only [tracedTable, daStep]
    split
    · rename_i relays hrelays
      rw [hadd, show daAddRelayTrusted desc s.relays = some relays from hrelays]
      rfl
    · rename_i hrelays
      rw [hadd, show daAddRelayTrusted desc s.relays = none from hrelays]
      rfl
  | probed results =>
    rw [tracedTable, entries_tracedProbes, htable]
    rfl
  | build input =>
    rw [tracedTable, entries_tracedRebuild, htable]
    exact (outcome_rebuild env input s).relays.symm
  | snapshot written => exact htable.trans ((outcome_same s).takeSnapshot written).relays.symm
  | vote vote input written =>
    exact hvote (outcome_daReceiveVote env vote input written fun _ =>
      outcome_daMergeVote env vote written s)
  | votePq vote input written =>
    exact hvote (outcome_daReceiveVote env vote.toVote input written fun body =>
      outcome_daMergeVotePq env vote written body s)

end

/-- An authority, with the table that its critical sections keep beside its own. -/
structure TracedDa where
  da : DaState
  table : List Traced
  entries : table.map Traced.entry = da.relays

def tracedDaStep (env : DaEnv) (s : TracedDa) (e : DaEvent) : TracedDa :=
  ⟨daStep env s.da e, tracedTable env s.da s.table e, entries_tracedTable env s.entries e⟩

def tracedRun (env : DaEnv) (badexitIds : List (Field 32)) (events : List DaEvent) : TracedDa :=
  events.foldl (tracedDaStep env) ⟨DaState.init badexitIds, [], rfl⟩

theorem run_eq_tracedRun (env : DaEnv) (badexitIds : List (Field 32)) (events : List DaEvent) :
    Run.run (fun s e => some (daStep env s e)) (DaState.init badexitIds) events =
      some (tracedRun env badexitIds events).da := by
  have hrun := Run.run_some (tracedDaStep env) ⟨DaState.init badexitIds, [], rfl⟩ events
  exact (Run.run_map TracedDa.da (fun _ _ => rfl) _).symm.trans (congrArg (Option.map _) hrun)

/-! ### Flags under the changes of an entry -/

section

variable {env : DaEnv} {now : UInt64} {desc : NodeDescriptor} {r : DaRelay}
  {own flag : UInt32}

theorem and_daAssigned (h : flag ∈ daAssignedFlags) : flag &&& nodeFlagsDaAssigned = flag := by
  revert flag
  decide

theorem and_not_daAssigned (h : flag ∈ daAssignedFlags) : flag &&& ~~~nodeFlagsDaAssigned = 0 := by
  revert flag
  decide

@[simp] theorem flags_daLocate (r : DaRelay) : (daLocate env desc r).flags = r.flags := by
  obtain ⟨_, _, h⟩ := exists_daLocate_eq env desc r
  rw [h]

theorem FlagsOwn.mono {own' : UInt32} (h : FlagsOwn r own) : FlagsOwn r (own ||| own') := by
  intro flag hflag hhas
  simp [or_has, h flag hflag hhas]

/-- An entry without any of the flags. -/
theorem flagsOwn_of_eq_false (h : has r.flags nodeFlagsDaAssigned = false) :
    FlagsOwn r own := by
  intro flag hflag hhas
  rw [← has_and_of_mask (and_daAssigned hflag), has_iff] at hhas
  refine absurd ?_ hhas
  simp only [has, bne_eq_false_iff_eq] at h
  rw [h, UInt32.zero_and]

theorem flagsOwn_daNewRelay : FlagsOwn (daNewRelay now desc.sanitized) own :=
  flagsOwn_of_eq_false (has_clear_eq_false (by decide))

theorem flagsOwn_daLocate (h : FlagsOwn r own) : FlagsOwn (daLocate env desc r) own := by
  rw [FlagsOwn, flags_daLocate]
  exact h

theorem flagsOwn_daRefreshRelay (h : FlagsOwn r own) :
    FlagsOwn (daRefreshRelay env now desc.sanitized r) own := by
  refine flagsOwn_daLocate ?_
  intro flag hflag hhas
  have hwire : has desc.sanitized.flags flag = false :=
    has_clear_eq_false (and_not_daAssigned hflag)
  rw [or_has, hwire, Bool.false_or, has_and_of_mask (and_daAssigned hflag)] at hhas
  exact h flag hflag hhas

/-- A newer descriptor must come without the flags. -/
theorem flagsOwn_daMergeKnown (h : ¬ desc.published > r.published → FlagsOwn r own)
    (hdesc : desc.published > r.published → has desc.flags nodeFlagsDaAssigned = false) :
    FlagsOwn (daMergeKnown desc r) own := by
  have hmerged : FlagsOwn (if desc.published > r.published then
      (⟨desc, r.firstSeen, 0, r.probeFailures⟩ : DaRelay) else r) own := by
    split
    · rename_i hnewer
      exact flagsOwn_of_eq_false (hdesc hnewer)
    · rename_i holder
      exact h holder
  unfold daMergeKnown
  dsimp only
  split
  · exact hmerged
  · split <;> exact hmerged

/-- A flag is set by setting it alone. -/
theorem has_of_putFlag {w f : UInt32} {on : Bool} (h : has (putFlag w flag on) f = true) :
    has w f = true ∨ (on = true ∧ has flag f = true) := by
  unfold putFlag at h
  split at h
  · rename_i hon
    rw [or_has, or_eq_true] at h
    exact h.imp_right fun hf => ⟨hon, hf⟩
  · exact .inl (has_of_has_clear h)

theorem has_putFlag_of_disjoint {w f : UInt32} (h : f &&& ~~~flag = f)
    (hflag : has flag f = false) (on : Bool) :
    has (putFlag w flag on) f = has w f := by
  unfold putFlag
  split
  · simp [or_has, hflag]
  · exact has_clear_of_disjoint h

/-- A probe sets that the relay is running, and that an exit is bad. -/
theorem flagsOwn_daApplyProbe (h : FlagsOwn r own) (res : ProbeResult) :
    FlagsOwn (daApplyProbe res r) (own ||| probeSets res r) := by
  unfold daApplyProbe
  split
  · exact h.mono
  rename_i hkey
  split
  · rename_i halive
    have hexit : has (r.flags ||| nodeFlagRunning) nodeFlagExit =
        has r.flags nodeFlagExit := by
      simp [or_has, show has nodeFlagRunning nodeFlagExit = false by decide]
    intro flag hflag hhas
    dsimp only at hhas
    rw [or_has, probeSets, if_pos ⟨not_not.mp hkey, halive⟩, or_has, or_eq_true, or_eq_true]
    have hset : has (r.flags ||| nodeFlagRunning) flag = true →
        has own flag = true ∨ has nodeFlagRunning flag = true := by
      rw [or_has, or_eq_true]
      exact Or.imp_left (h flag hflag)
    rw [hexit] at hhas
    split at hhas
    · rename_i hisExit
      rcases has_of_putFlag hhas with hhas | ⟨hbad, hhas⟩
      · exact (hset hhas).imp_right Or.inl
      · refine .inr (.inr ?_)
        rw [hisExit, hbad]
        exact hhas
    · exact (hset hhas).imp_right Or.inl
  · intro flag hflag hhas
    exact h.mono flag hflag (has_of_has_clear hhas)

theorem flagsOwn_flagBadexit (h : FlagsOwn r own) (badexitIds : List (Field 32)) :
    FlagsOwn (flagBadexit badexitIds r) (own ||| badexitSets badexitIds r) := by
  unfold flagBadexit badexitSets
  split
  · intro flag hflag hhas
    rw [or_has, or_eq_true] at hhas ⊢
    exact hhas.imp_left (h flag hflag)
  · exact h.mono

/-- A flag that is not computed from measurements is none of the three that are. -/
theorem disjoint_of_not_computed : ∀ flag ∈ daAssignedFlags,
    flag &&& (nodeFlagFast ||| nodeFlagStable ||| nodeFlagGuard) ≠ flag →
    has nodeFlagFast flag = false ∧ has nodeFlagStable flag = false ∧
      has nodeFlagGuard flag = false := by
  decide

theorem has_of_putFlag_of_disjoint {w f : UInt32} {on : Bool} (hflag : has flag f = false)
    (h : has (putFlag w flag on) f = true) : has w f = true := by
  rcases has_of_putFlag h with h | ⟨-, h⟩
  · exact h
  · simp [hflag] at h

/-- The flags that a rebuild computes are the fast, stable and guard flags, and the bad exit flag of
a relay for the middle only. -/
theorem flagsOwn_assignFlags (h : FlagsOwn r own) (cap : UInt64 → UInt64) (t : FlagThresholds) :
    FlagsOwn (assignFlags cap now t r) (own ||| assignSets (assignFlags cap now t r)) := by
  intro flag hflag hhas
  rw [or_has, assignSets, or_has, or_eq_true, or_eq_true]
  by_cases hmask : flag &&& (nodeFlagFast ||| nodeFlagStable ||| nodeFlagGuard) = flag
  · exact .inr (.inl ((has_and_of_mask hmask).trans hhas))
  have ⟨hfast, hstable, hguard⟩ := disjoint_of_not_computed flag hflag hmask
  have hold : ∀ fast stable guard, has (putFlag (putFlag (putFlag r.flags nodeFlagFast fast)
      nodeFlagStable stable) nodeFlagGuard guard) flag = true → has own flag = true :=
    fun fast stable guard hhas => h flag hflag (has_of_putFlag_of_disjoint hfast
      (has_of_putFlag_of_disjoint hstable (has_of_putFlag_of_disjoint hguard hhas)))
  simp only [assignFlags] at hhas ⊢
  split
  · rename_i hmiddle
    rw [if_pos hmiddle] at hhas
    rcases has_of_putFlag hhas with hhas | ⟨-, hbad⟩
    · exact .inl (hold _ _ _ (has_of_putFlag_of_disjoint hguard hhas))
    refine .inr (.inr ?_)
    rw [has_putFlag_of_disjoint (by decide) (by decide),
      has_putFlag_of_disjoint (by decide) (by decide), hmiddle]
    exact hbad
  · rename_i hmiddle
    rw [if_neg hmiddle] at hhas
    exact .inl (hold _ _ _ hhas)

end

/-! ### The flags along a run -/

section

open List

variable {env : DaEnv} {now : UInt64} {desc : NodeDescriptor} {t : Traced}
  {table table' : List Traced}

/-- The authority has set the flags of the entry, or it was imported and not seen since. -/
structure Traced.Sound (t : Traced) : Prop where
  own : t.origin = .received → FlagsOwn t.entry t.own
  firstSeen : t.origin = .imported → t.entry.firstSeen = 0

theorem sound_received {r : DaRelay} {own : UInt32} (h : FlagsOwn r own) :
    Traced.Sound ⟨r, .received, own⟩ :=
  ⟨fun _ => h, nofun⟩

theorem sound_imported (desc : NodeDescriptor) : Traced.Sound ⟨⟨desc, 0, 0, 0⟩, .imported, 0⟩ :=
  ⟨nofun, fun _ => rfl⟩

/-- A change that sets flags of the authority's own and does not touch the origin or the time at
which the relay was first seen. -/
theorem Traced.Sound.set (h : t.Sound) {r : DaRelay} {sets : UInt32}
    (hown : ∀ own, FlagsOwn t.entry own → FlagsOwn r (own ||| sets))
    (hseen : r.firstSeen = t.entry.firstSeen) : Traced.Sound ⟨r, t.origin, t.own ||| sets⟩ :=
  ⟨fun horigin => hown t.own (h.own horigin), fun horigin => hseen.trans (h.firstSeen horigin)⟩

theorem Traced.Sound.refresh (h : t.Sound)
    (hseen : t.entry.firstSeen = 0 → has t.entry.flags nodeFlagsDaAssigned = false) :
    Traced.Sound ⟨daRefreshRelay env now desc.sanitized t.entry, .received, t.own⟩ := by
  refine sound_received (flagsOwn_daRefreshRelay ?_)
  cases horigin : t.origin with
  | received => exact h.own horigin
  | imported => exact flagsOwn_of_eq_false (hseen (h.firstSeen horigin))

theorem firstSeen_daMergeKnown (desc : NodeDescriptor) (r : DaRelay) :
    (daMergeKnown desc r).firstSeen = r.firstSeen := by
  unfold daMergeKnown
  dsimp only
  split
  · split <;> rfl
  · split <;> split <;> rfl

theorem Traced.Sound.merge (h : t.Sound) (hnewer : desc.published > t.entry.published →
      has desc.flags nodeFlagsDaAssigned = false) : (t.merge desc).Sound := by
  unfold Traced.merge
  split
  · rename_i hpublished
    exact sound_received (flagsOwn_daMergeKnown (absurd hpublished) hnewer)
  · refine ⟨fun horigin => ?_, fun horigin => ?_⟩
    · exact flagsOwn_daMergeKnown (fun _ => h.own horigin) hnewer
    · exact (firstSeen_daMergeKnown desc t.entry).trans (h.firstSeen horigin)

theorem firstSeen_daApplyProbe (res : ProbeResult) (r : DaRelay) :
    (daApplyProbe res r).firstSeen = r.firstSeen := by
  unfold daApplyProbe
  split
  · rfl
  · split <;> rfl

variable (h : ∀ t ∈ table, t.Sound)
include h

theorem sound_modify {i : ℕ} {f : Traced → Traced} (hf : ∀ t ∈ table, (f t).Sound) :
    ∀ t ∈ table.modify i f, t.Sound := by
  intro t' ht'
  rcases mem_or_of_mem_modify ht' with hold | ⟨t, ht, rfl⟩
  · exact h t' hold
  · exact hf t (mem_of_getElem? ht)

/-- A descriptor is published, or is in the list of a peer for a relay that is not known. -/
theorem sound_tracedAdd
    (hseen : daAdmits env desc = true → ∀ t ∈ table, t.entry.identityPk = desc.identityPk →
      t.entry.firstSeen = 0 → has t.entry.flags nodeFlagsDaAssigned = false)
    (hadd : tracedAdd env now desc table = some table') : ∀ t ∈ table', t.Sound := by
  unfold tracedAdd at hadd
  split at hadd
  · cases hadd
  rename_i hadmits
  split at hadd
  · rw [← Option.some_inj.mp hadd]
    refine sound_modify h fun t ht => ?_
    split
    · rename_i hkey
      exact (h t ht).refresh (hseen (by simpa using hadmits) t ht hkey)
    · exact sound_received flagsOwn_daNewRelay
  · split at hadd
    · cases hadd
    rw [← Option.some_inj.mp hadd, forall_mem_append, forall_mem_singleton]
    exact ⟨h, sound_received (flagsOwn_daLocate flagsOwn_daNewRelay)⟩

theorem sound_tracedAdd_getD
    (hseen : daAdmits env desc = true → ∀ t ∈ table, t.entry.identityPk = desc.identityPk →
      t.entry.firstSeen = 0 → has t.entry.flags nodeFlagsDaAssigned = false) :
    ∀ t ∈ (tracedAdd env now desc table).getD table, t.Sound := by
  cases hadd : tracedAdd env now desc table with
  | none => exact h
  | some table' => exact sound_tracedAdd h hseen hadd

theorem sound_tracedAddTrusted : ∀ t ∈ (tracedAddTrusted desc table).getD table, t.Sound := by
  unfold tracedAddTrusted
  split
  · exact h
  split
  · refine sound_modify h fun t ht => ?_
    split
    · exact sound_imported desc
    · exact h t ht
  · split
    · exact forall_mem_append.mpr ⟨h, forall_mem_singleton.mpr (sound_imported desc)⟩
    · exact h

theorem sound_tracedProbes (results : List ProbeResult) :
    ∀ t ∈ tracedProbes results table, t.Sound := by
  intro t' ht'
  obtain ⟨i, hi, rfl⟩ := mem_mapIdx.mp ht'
  have hold := h _ (getElem_mem hi)
  split
  · rename_i res _
    exact hold.set (fun own hown => flagsOwn_daApplyProbe hown res) (firstSeen_daApplyProbe res _)
  · exact hold

theorem sound_tracedFlags : ∀ t ∈ tracedFlags env now table, t.Sound := by
  unfold tracedFlags
  dsimp only
  split
  · exact h
  · intro t' ht'
    obtain ⟨t, ht, rfl⟩ := mem_map.mp ht'
    exact (h t ht).set (fun own hown => flagsOwn_assignFlags hown env.cap _) rfl

theorem sound_tracedFamilies (badexitIds : List (Field 32)) :
    ∀ t ∈ tracedFamilies env badexitIds table, t.Sound := by
  intro t' ht'
  obtain ⟨⟨t, r⟩, hpair, rfl⟩ := mem_map.mp ht'
  obtain ⟨i, hi⟩ := getElem?_of_mem hpair
  obtain ⟨ht, hr⟩ : table[i]? = some t ∧ _ = some r := getElem?_zip_eq_some.mp hi
  rw [getElem?_daResolveFamilies, getElem?_map, ht, Option.map_some, Option.map_some,
    Option.some_inj] at hr
  subst hr
  refine (h t (mem_of_getElem? ht)).set (fun own hown => ?_) (by unfold flagBadexit; split <;> rfl)
  have hfamily : FlagsOwn
      { t.entry with familyId := familyOf (table.map Traced.entry) env.crypto i } own := hown
  exact flagsOwn_flagBadexit hfamily badexitIds

theorem sound_tracedRebuild (s : DaState) (input : BuildInput) :
    ∀ t ∈ tracedRebuild env s input table, t.Sound := by
  refine sound_tracedFamilies (sound_tracedFlags fun t ht => ?_) _
  rw [mem_insertionSort, (SwapRemove.perm_filter _ table).mem_iff] at ht
  exact h t (mem_filter.mp ht).1

end

/-- A descriptor in the list of a peer has no flags of an authority if it is newer than that of the
relay in the table. -/
def BringsNoFlags (env : DaEnv) (relays : List DaRelay) (desc : NodeDescriptor) : Prop :=
  nodeVerifyDescriptor env.crypto desc = true → desc.buildId = env.buildId →
    ∀ r ∈ relays.find? fun r => r.identityPk = desc.identityPk,
      desc.published > r.published → has desc.flags nodeFlagsDaAssigned = false
  deriving Decidable

/-- The list of a peer does not bring flags for relays that are known, and a relay that publishes
again has no flags from an import at the start. -/
def KeepsFlagsOwn (env : DaEnv) (s : DaState) : DaEvent → Prop
  | .publish desc _ _ _ | .propagate desc _ _ =>
    daAdmits env desc = true → ∀ r ∈ s.relays, r.identityPk = desc.identityPk →
      r.firstSeen = 0 → has r.flags nodeFlagsDaAssigned = false
  | .sync descs time =>
    Run.Along (fun relays desc => some (daSyncRelay env time relays desc)) (BringsNoFlags env)
      s.relays descs
  | _ => True

instance (env : DaEnv) (s : DaState) (e : DaEvent) : Decidable (KeepsFlagsOwn env s e) := by
  induction e using DaEvent.casesOn <;> unfold KeepsFlagsOwn <;> infer_instance

section Runs

variable {env : DaEnv} {time : UInt64} {desc : NodeDescriptor} {table : List Traced}

theorem sound_tracedSync (hbrings : BringsNoFlags env (table.map Traced.entry) desc)
    (h : ∀ t ∈ table, t.Sound) : ∀ t ∈ tracedSync env time table desc, t.Sound := by
  unfold tracedSync
  split
  · exact h
  rename_i hvalid
  split
  · exact h
  rename_i hbuild
  split
  · rename_i i hi
    obtain ⟨pre, t, post, rfl, -, -, hfind, hmodify⟩ :=
      exists_modify_of_findIdx? hi (Traced.merge desc)
    have hentry : ((pre ++ t :: post).map Traced.entry).find?
        (fun r => r.identityPk = desc.identityPk) = some t.entry := by
      rw [List.find?_map]
      exact congrArg (Option.map Traced.entry) hfind
    have hnewer := hbrings (by simpa using hvalid) (not_not.mp hbuild) t.entry hentry
    rw [hmodify]
    intro t' ht'
    rcases List.mem_append.mp ht' with hpre | hpost
    · exact h t' (by simp [hpre])
    rcases List.mem_cons.mp hpost with rfl | hpost
    · exact (h t (by simp)).merge hnewer
    · exact h t' (by simp [hpost])
  · rename_i hnone
    refine sound_tracedAdd_getD h fun _ t ht hkey => ?_
    simpa [hkey] using List.findIdx?_eq_none_iff.mp hnone t ht

/-- Each descriptor of the list of a peer leaves every entry sound. -/
theorem sound_foldl_tracedSync {descs : List NodeDescriptor}
    (hbrings : Run.Along (fun relays desc => some (daSyncRelay env time relays desc))
      (BringsNoFlags env) (table.map Traced.entry) descs) (h : ∀ t ∈ table, t.Sound) :
    ∀ t ∈ descs.foldl (tracedSync env time) table, t.Sound := by
  have halong : Run.Along (fun table desc => some (tracedSync env time table desc))
      (fun table desc => BringsNoFlags env (table.map Traced.entry) desc) table descs := by
    refine hbrings.of_map (List.map Traced.entry) fun table desc => ?_
    exact congrArg some (entries_tracedSync env time desc table)
  refine Run.run_invariant (I := fun table => ∀ t ∈ table, Traced.Sound t) ?_ h halong
    (Run.run_some _ _ _)
  intro table desc table' h hdesc hnext
  rw [← Option.some_inj.mp hnext]
  exact sound_tracedSync hdesc h

/-- A critical section that keeps to the condition leaves every entry sound. -/
theorem sound_tracedDaStep {s : TracedDa} {e : DaEvent} (he : KeepsFlagsOwn env s.da e)
    (h : ∀ t ∈ s.table, t.Sound) : ∀ t ∈ (tracedDaStep env s e).table, t.Sound := by
  have hentry {t : Traced} (ht : t ∈ s.table) : t.entry ∈ s.da.relays :=
    s.entries ▸ List.mem_map_of_mem ht
  have hrebuild (diverges : Bool) (input : BuildInput) :
      ∀ t ∈ if diverges then tracedRebuild env s.da input s.table else s.table, t.Sound := by
    cases diverges with
    | false => exact h
    | true => exact sound_tracedRebuild h s.da input
  cases e with
  | publish desc time input written =>
    exact sound_tracedRebuild
      (sound_tracedAdd_getD h fun hadmits t ht => he hadmits t.entry (hentry ht)) s.da input
  | propagate desc time input =>
    simp only [tracedDaStep, tracedTable]
    split
    · rename_i hadd
      exact sound_tracedRebuild
        (sound_tracedAdd h (fun hadmits t ht => he hadmits t.entry (hentry ht)) hadd) s.da input
    · exact h
  | sync descs time =>
    refine sound_foldl_tracedSync ?_ h
    rw [s.entries]
    exact he
  | importTrusted desc => exact sound_tracedAddTrusted h
  | probed results => exact sound_tracedProbes h results
  | build input => exact sound_tracedRebuild h s.da input
  | snapshot written => exact h
  | vote vote input written => exact hrebuild _ input
  | votePq vote input written => exact hrebuild _ input

end Runs

/-- In every run of an authority in which lists of peers bring no flags for known relays, and no
relay with flags from an import publishes again, the flags of a relay whose descriptor was published
or in the list of a peer were set by the authority itself since the entry was created. -/
theorem da_flags_own (env : DaEnv) (badexitIds : List (Field 32)) (events : List DaEvent)
    (s : DaState)
    (hkeeps : Run.Along (fun s e => some (daStep env s e)) (KeepsFlagsOwn env)
      (DaState.init badexitIds) events)
    (hrun : Run.run (fun s e => some (daStep env s e)) (DaState.init badexitIds) events = some s) :
    (tracedRun env badexitIds events).table.map Traced.entry = s.relays ∧
      ∀ t ∈ (tracedRun env badexitIds events).table,
        t.origin = .received → FlagsOwn t.entry t.own := by
  rw [run_eq_tracedRun, Option.some_inj] at hrun
  subst hrun
  refine ⟨(tracedRun env badexitIds events).entries, fun t ht => ?_⟩
  have hsound := Run.run_invariant (I := fun s : TracedDa => ∀ t ∈ s.table, t.Sound) ?_ ?_
    (hkeeps.of_map (t := ⟨DaState.init badexitIds, [], rfl⟩) TracedDa.da fun _ _ => rfl)
    (Run.run_some (tracedDaStep env) _ _)
  · exact (hsound t ht).own
  · intro s e s' h he hnext
    rw [← Option.some_inj.mp hnext]
    exact sound_tracedDaStep he h
  · exact fun t ht => nomatch ht

/-- A relay publishes, and a peer answers with a newer descriptor of it, without a post-quantum
signature and with the flags. -/
def samplePeerFlags (flags : UInt32) : List DaEvent :=
  [.publish (sampleAdmitted 1) 10900 sampleInput true,
    .sync (daSyncReceive (daSyncResponse [{ sampleAdmitted 1 with
      published := (sampleAdmitted 1).published + 1, features := nodeFeatureCellKem, flags }]))
      10900]

theorem da_flags_own_sample :
    let s := tracedRun sampleDaEnv [] (samplePeerFlags 0)
    s.table.map Traced.entry = s.da.relays ∧
      ∀ t ∈ s.table, t.origin = .received → FlagsOwn t.entry t.own :=
  da_flags_own sampleDaEnv [] (samplePeerFlags 0) _ (by decide +kernel) (run_eq_tracedRun ..)

/-- The peer calls the relay an authority, and so it is in the table. -/
theorem da_takes_flags_from_peer :
    let s := tracedRun sampleDaEnv [] (samplePeerFlags nodeFlagAuthority)
    Run.run (fun s e => some (daStep sampleDaEnv s e)) (DaState.init [])
        (samplePeerFlags nodeFlagAuthority) = some s.da ∧ s.table.map Traced.entry = s.da.relays ∧
      ∃ t ∈ s.table, t.origin = .received ∧ has t.entry.flags nodeFlagAuthority = true ∧
        has t.own nodeFlagAuthority = false :=
  ⟨run_eq_tracedRun .., (tracedRun ..).entries, by decide +kernel⟩

end Moor
