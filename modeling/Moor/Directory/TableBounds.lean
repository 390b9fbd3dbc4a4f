import Moor.Directory.Table

/-!
# The room of the relay table

The relay table of an authority is an array that starts with room for 256 relays and is enlarged by
`da_add_relay_unlocked` when it is full. The import of a peer's consensus at the start appends
without looking at the room.
-/

namespace Moor

open Codec List

/-- The room for one more relay: it is doubled when the table is full. -/
def daGrow (relayCapacity numRelays : ℕ) : ℕ :=
  if numRelays ≥ relayCapacity then max (min (relayCapacity * 2) moorMaxRelays) 256
  else relayCapacity

/-- The room after a descriptor is taken up. The table grows before an entry is appended. -/
def daAddRoom (relays relays' : List DaRelay) (relayCapacity : ℕ) : ℕ :=
  if relays.length < relays'.length then daGrow relayCapacity relays.length else relayCapacity

/-- An authority with the room of its table. -/
structure DaTable where
  state : DaState
  relayCapacity : ℕ

def DaTable.init (badexitIds : List (Field 32)) : DaTable := ⟨DaState.init badexitIds, 256⟩

/-- The relay list of a peer, with the room of the table after each descriptor. -/
def daSyncRoom (env : DaEnv) (time : UInt64) (table : List DaRelay × ℕ) (desc : NodeDescriptor) :
    List DaRelay × ℕ :=
  let relays := daSyncRelay env time table.1 desc
  (relays, daAddRoom table.1 relays table.2)

/-- One critical section. The table grows where descriptors are taken up, except for the import of
a peer's consensus. -/
def daTableStep (env : DaEnv) (s : DaTable) (e : DaEvent) : DaTable where
  state := daStep env s.state e
  relayCapacity :=
    match e with
    | .publish desc time _ _ | .propagate desc time _ =>
      daAddRoom s.state.relays ((daAddRelay env time desc s.state.relays).getD s.state.relays)
        s.relayCapacity
    | .sync descs time => (descs.foldl (daSyncRoom env time) (s.state.relays, s.relayCapacity)).2
    | _ => s.relayCapacity

/-- The entries fit into the array, and the array is bounded. -/
def TableFits (relays : List DaRelay) (relayCapacity : ℕ) : Prop :=
  relays.length ≤ relayCapacity ∧ relayCapacity ≤ moorMaxRelays

/-- An import finds its relay in the table or room for it, or is refused. -/
def ImportFits (s : DaTable) : DaEvent → Prop
  | .importTrusted desc =>
    desc.features &&& nodeFeaturesRequired ≠ nodeFeaturesRequired ∨
      (∃ r ∈ s.state.relays, r.identityPk = desc.identityPk) ∨
      s.state.relays.length < s.relayCapacity ∨ s.state.relays.length = moorMaxRelays
  | _ => True

instance (s : DaTable) (e : DaEvent) : Decidable (ImportFits s e) := by
  induction e using DaEvent.casesOn <;> unfold ImportFits <;> infer_instance

section

variable {env : DaEnv} {time : UInt64} {desc : NodeDescriptor} {relays relays' : List DaRelay}
  {relayCapacity : ℕ}

/-- The room never shrinks, and is enough after one more relay. -/
theorem TableFits.add (h : TableFits relays relayCapacity)
    (hlen : relays'.length ≤ relays.length + 1) (hmax : relays'.length ≤ moorMaxRelays) :
    TableFits relays' (daAddRoom relays relays' relayCapacity) ∧
      relayCapacity ≤ daAddRoom relays relays' relayCapacity := by
  simp only [TableFits, daAddRoom, daGrow, moorMaxRelays] at *
  split_ifs <;> omega

theorem length_daAddRelay_le_succ (env : DaEnv) (time : UInt64) (desc : NodeDescriptor) :
    ((daAddRelay env time desc relays).getD relays).length ≤ relays.length + 1 := by
  cases h : daAddRelay env time desc relays with
  | none => exact Nat.le_succ _
  | some relays' =>
    obtain ⟨-, ⟨pre, r, post, rfl, -, -, rfl⟩ | ⟨-, rfl⟩⟩ := daAddRelay_cases h <;> simp

theorem length_daSyncRelay_le_succ :
    (daSyncRelay env time relays desc).length ≤ relays.length + 1 := by
  unfold daSyncRelay
  split_ifs
  · exact Nat.le_succ _
  · exact Nat.le_succ _
  · split
    · simp
    · exact length_daAddRelay_le_succ ..

theorem length_daAddRelayTrusted (h : daAddRelayTrusted desc relays = some relays') :
    relays'.length = relays.length ∨
      desc.features &&& nodeFeaturesRequired = nodeFeaturesRequired ∧
        (¬∃ r ∈ relays, r.identityPk = desc.identityPk) ∧ relays.length < moorMaxRelays ∧
        relays'.length = relays.length + 1 := by
  unfold daAddRelayTrusted at h
  split at h
  · cases h
  next hfeatures =>
  split at h
  · cases h
    simp
  next hnone =>
  split at h
  next hroom =>
    cases h
    exact .inr ⟨not_not.mp hfeatures, by simpa using hnone, hroom, by simp⟩
  · cases h

theorem TableFits.sync (descs : List NodeDescriptor) (h : TableFits relays relayCapacity) :
    TableFits (descs.foldl (daSyncRelay env time) relays)
        (descs.foldl (daSyncRoom env time) (relays, relayCapacity)).2 ∧
      relayCapacity ≤ (descs.foldl (daSyncRoom env time) (relays, relayCapacity)).2 := by
  induction descs generalizing relays relayCapacity with
  | nil => exact ⟨h, le_rfl⟩
  | cons desc descs ih =>
    obtain ⟨hnext, hgrows⟩ :=
      h.add length_daSyncRelay_le_succ (length_daSyncRelay_le (h.1.trans h.2) env time desc)
    exact (ih hnext).imp_right hgrows.trans

end

variable {env : DaEnv} {s : DaTable}

theorem tableFits_daTableStep (e : DaEvent) (h : TableFits s.state.relays s.relayCapacity)
    (he : ImportFits s e) :
    TableFits (daTableStep env s e).state.relays (daTableStep env s e).relayCapacity := by
  have hadd (desc : NodeDescriptor) (time : UInt64) :=
    h.add (length_daAddRelay_le_succ env time desc)
    (length_daAddRelay_getD_le (h.1.trans h.2) env time desc)
  -- A rebuild evicts relays and leaves the array alone.
  refine daStep_table (I := fun relays => TableFits relays (daTableStep env s e).relayCapacity)
    (fun hchange => ?_) fun _ hfits => ⟨(length_daPrepareRelays_le ..).trans hfits.1, hfits.2⟩
  cases hchange with
  | same e =>
    cases e with
    | publish desc time | propagate desc time =>
      exact ⟨h.1.trans (hadd desc time).2, (hadd desc time).1.2⟩
    | sync descs time => exact ⟨h.1.trans (h.sync descs).2, (h.sync descs).1.2⟩
    | _ => exact h
  | @publish desc time _ input written hrelays =>
    simpa [daTableStep, hrelays] using (hadd desc time).1
  | @propagate desc time _ input hrelays => simpa [daTableStep, hrelays] using (hadd desc time).1
  | sync descs time => exact (h.sync descs).1
  | importTrusted hrelays =>
    refine ⟨?_, h.2⟩
    rcases length_daAddRelayTrusted hrelays with hsame | ⟨hfeatures, hnew, hroom, hlen⟩
    · exact hsame.le.trans h.1
    rcases he with he | he | hless | hfull
    · exact absurd hfeatures he
    · exact absurd he hnew
    · exact hlen.le.trans hless
    · exact absurd hfull hroom.ne
  | probed results => simpa [TableFits, daApplyProbes, daTableStep] using h

/-- The entries of the table fit into its array, and the array is bounded, in every state that an
authority reaches by publications, lists of peers, probes, rebuilds, votes and snapshots in any
order, and by imports that find room. -/
theorem da_table_fits (env : DaEnv) (badexitIds : List (Field 32)) (es : List DaEvent)
    (s : DaTable)
    (hrun : Run.run (fun s e => some (daTableStep env s e)) (DaTable.init badexitIds) es = some s)
    (halong : Run.Along (fun s e => some (daTableStep env s e)) ImportFits
      (DaTable.init badexitIds) es) :
    s.state.relays.length ≤ s.relayCapacity ∧ s.relayCapacity ≤ moorMaxRelays := by
  refine Run.run_invariant (I := fun s => TableFits s.state.relays s.relayCapacity) ?_ ?_
    halong hrun
  · intro s e s' hs he hstep
    cases hstep
    exact tableFits_daTableStep e hs he
  · exact ⟨Nat.zero_le _, by simp [DaTable.init, moorMaxRelays]⟩

/-- A descriptor in a peer's consensus. -/
def sampleImported (n : ℕ) : NodeDescriptor :=
  { NodeDescriptor.zero with
    identityPk := ⟨beEncode 32 n, length_beEncode 32 n⟩, features := nodeFeaturesRequired }

/-- Two relays are imported, one before and one after another publishes, and the consensus is built
again. -/
def sampleTableEvents : List DaEvent :=
  [.importTrusted (sampleImported 1), .publish (sampleAdmitted 1) 10900 sampleInput true,
    .importTrusted (sampleImported 2), .build sampleInput, .snapshot true]

theorem da_table_fits_sample :
    ∃ s, Run.run (fun s e => some (daTableStep sampleDaEnv s e)) (DaTable.init [])
        sampleTableEvents = some s ∧
      s.state.relays.length ≤ s.relayCapacity ∧ s.relayCapacity ≤ moorMaxRelays :=
  ⟨_, Run.run_some _ _ _,
    da_table_fits sampleDaEnv [] sampleTableEvents _ (Run.run_some _ _ _) (by decide +kernel)⟩

/-- A consensus with some number of relays is imported. -/
def sampleImports : ℕ → DaTable
  | 0 => DaTable.init []
  | n + 1 => daTableStep sampleDaEnv (sampleImports n) (.importTrusted (sampleImported n))

theorem relays_sampleImports {n : ℕ} (hn : n ≤ 257) :
    (sampleImports n).state.relays = (List.range n).map (⟨sampleImported ·, 0, 0, 0⟩) ∧
      (sampleImports n).relayCapacity = 256 := by
  induction n with
  | zero => exact ⟨rfl, rfl⟩
  | succ n ih =>
    obtain ⟨hrelays, hroom⟩ := ih (by omega)
    refine ⟨?_, hroom⟩
    have hnew : ∀ r ∈ (sampleImports n).state.relays,
        r.identityPk ≠ (sampleImported n).identityPk := by
      rw [hrelays]
      simp only [mem_map, mem_range]
      rintro r ⟨m, hm, rfl⟩ hkey
      have hbytes := congrArg (fun pk : Field 32 => beDecode pk.val) hkey
      simp only [sampleImported, beDecode_beEncode] at hbytes
      omega
    have hadd : daAddRelayTrusted (sampleImported n) (sampleImports n).state.relays =
        some ((sampleImports n).state.relays ++ [⟨sampleImported n, 0, 0, 0⟩]) := by
      have hlen : (sampleImports n).state.relays.length < moorMaxRelays := by
        simp [hrelays, moorMaxRelays]
        omega
      have hnone := findIdx?_eq_none_iff.mpr fun r hr => decide_eq_false (hnew r hr)
      simp only [daAddRelayTrusted, hnone, if_pos hlen]
      exact if_neg (by simp [sampleImported])
    rw [range_succ, map_append, ← hrelays]
    simp only [sampleImports, daTableStep, daStep]
    split
    next relays' hsome => exact Option.some_inj.mp (hsome.symm.trans hadd)
    next hnone => cases hnone.symm.trans hadd

/-- The import of a consensus with 257 relays writes the last one behind the array. -/
theorem da_table_overrun :
    (sampleImports 257).state.relays.length = 257 ∧ (sampleImports 257).relayCapacity = 256 := by
  obtain ⟨hrelays, hroom⟩ := relays_sampleImports le_rfl
  exact ⟨by rw [hrelays, length_map, length_range], hroom⟩

end Moor
