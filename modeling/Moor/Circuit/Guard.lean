import Moor.Lib.Run
import Moor.Node.Select
import Moor.Node.Wire

/-!
# Guards

A client enters the network through few relays. It samples guards from the consensus into an array
of 32 slots, confirms those over which a circuit was built, and keeps a list of primary guards. The
state is saved to a file and loaded at the start. Path-bias detection counts the circuits over each
guard and disables a guard over which too few of them succeed.

## Main results

* `moorGuardLoad_save`: what of a saved state is loaded.
-/

namespace Moor

open Codec List

def moorGuardSampledMax : ℕ := 32
def moorGuardPrimaryMax : ℕ := 3
def moorGuardConfirmedMax : ℕ := 8

def moorPbMinCircs : UInt32 := 20
def moorPbScaleAt : UInt32 := 300

/-- A guard, with what path-bias detection counts. -/
structure GuardEntry where
  identityPk : Field 32
  address : Bytes
  port : UInt16
  addedAt : UInt64
  confirmedAt : UInt64
  lastTried : UInt64
  unreachableSince : UInt64
  isReachable : Bool
  pbCircAttempts : UInt32
  pbCircSuccess : UInt32
  pbUseAttempts : UInt32
  pbUseSuccess : UInt32
  pbSuspect : Bool
  pbDisabled : Bool
  deriving DecidableEq

def GuardEntry.zero : GuardEntry :=
  ⟨Field.zero 32, [], 0, 0, 0, 0, 0, false, 0, 0, 0, 0, false, false⟩

/-- The guards of a client. The slots of the array that are not in use keep what was in them. -/
structure GuardState where
  sampled : List GuardEntry
  unused : List GuardEntry
  primaryIndices : List ℕ
  confirmedIndices : List ℕ
  deriving DecidableEq

namespace GuardState

/-- A state of zero bytes. -/
def zero : GuardState := ⟨[], List.replicate moorGuardSampledMax .zero, [], []⟩

/-- The guard at an index is in use and meets a condition. -/
def has (s : GuardState) (p : GuardEntry → Bool) (idx : ℕ) : Bool := s.sampled[idx]?.any p

end GuardState

/-! ### Sampling -/

variable (pk : Field 32) (now : UInt64) (s : GuardState)

/-- A relay is written over a slot. The counts of the slot stay. -/
def GuardEntry.sample (relay : NodeDescriptor) (slot : GuardEntry) : GuardEntry :=
  { slot with
    identityPk := relay.identityPk
    address := cString (Arr.ofList 63 0 relay.address.val)
    port := relay.orPort
    addedAt := now
    confirmedAt := 0
    lastTried := 0
    unreachableSince := 0
    isReachable := false }

/-- Fills the slots with guards of the consensus that are not sampled yet. -/
def sampleInto (cons : WeightedConsensus) (now : UInt64) :
    List GuardEntry → List GuardEntry → List UInt64 → Option (List GuardEntry × List GuardEntry)
  | sampled, [], _ => some (sampled, [])
  | sampled, slot :: unused, draws =>
    match moorNodeSelectRelay cons (nodeFlagGuard ||| nodeFlagStable ||| nodeFlagRunning)
        (sampled.map (·.identityPk)) draws with
    | none => none
    | some (none, _) => some (sampled, slot :: unused)
    | some (some relay, draws) =>
      sampleInto cons now (sampled ++ [slot.sample now relay]) unused draws

def moorGuardSample (cons : WeightedConsensus) (now : UInt64) (draws : List UInt64)
    (s : GuardState) : Option GuardState :=
  (sampleInto cons now s.sampled s.unused draws).map fun (sampled, unused) =>
    { s with sampled := sampled, unused := unused }

/-! ### Primary guards -/

/-- Adds the indices that are accepted until there are three. -/
def fillPrimary (accept : List ℕ → ℕ → Bool) (indices primary : List ℕ) : List ℕ :=
  indices.foldl
    (fun primary idx =>
      if primary.length < moorGuardPrimaryMax ∧ accept primary idx then primary ++ [idx]
      else primary)
    primary

/-- The primary guards are the confirmed ones that are reachable, then the other confirmed ones and
then any, but none that is disabled. -/
def moorGuardUpdatePrimary : GuardState :=
  let enabled (primary : List ℕ) (idx : ℕ) : Bool :=
    s.has (fun e => !e.pbDisabled) idx && !primary.contains idx
  let reachable (_ : List ℕ) (idx : ℕ) : Bool :=
    s.has (fun e => e.isReachable && !e.pbDisabled) idx
  { s with
    primaryIndices :=
      fillPrimary enabled (List.range s.sampled.length)
        (fillPrimary enabled s.confirmedIndices (fillPrimary reachable s.confirmedIndices [])) }

/-- The guard for the next circuit, and the count of rounds: a primary guard that is reachable, any
that is reachable, the primary guards in turn, or the first of all. -/
def moorGuardSelect (rrIdx : ℕ) : Option GuardEntry × ℕ :=
  match s.primaryIndices.findSome? fun idx => s.sampled[idx]?.filter GuardEntry.isReachable with
  | some g => (some g, rrIdx)
  | none =>
    match s.sampled.find? GuardEntry.isReachable with
    | some g => (some g, rrIdx)
    | none =>
      if s.primaryIndices.isEmpty then (s.sampled.head?, rrIdx)
      else
        let idx := s.primaryIndices.getD (rrIdx % s.primaryIndices.length) 0
        (s.sampled[idx]?.or s.sampled.head?, rrIdx + 1)

/-! ### Reachability -/

/-- Changes the first guard with an identity. -/
def GuardState.modify (f : GuardEntry → GuardEntry) (s : GuardState) : GuardState :=
  { s with sampled := s.sampled.modify (s.sampled.findIdx fun e => e.identityPk == pk) f }

def GuardEntry.reached (e : GuardEntry) : GuardEntry :=
  { e with
    isReachable := true
    unreachableSince := 0
    lastTried := now
    confirmedAt := if e.confirmedAt = 0 then now else e.confirmedAt }

def GuardEntry.missed (e : GuardEntry) : GuardEntry :=
  { e with
    isReachable := false
    lastTried := now
    unreachableSince := if e.unreachableSince = 0 then now else e.unreachableSince }

/-- A circuit over the guard was built, which confirms it. -/
def moorGuardMarkReachable : GuardState :=
  match s.sampled.findIdx? fun e => e.identityPk == pk with
  | none => s
  | some i =>
    let unconfirmed := s.has (fun e => e.confirmedAt == 0) i
    let s := s.modify pk (.reached now)
    moorGuardUpdatePrimary
      { s with
        confirmedIndices :=
          if unconfirmed ∧ s.confirmedIndices.length < moorGuardConfirmedMax then
            s.confirmedIndices ++ [i]
          else s.confirmedIndices }

def moorGuardMarkUnreachable : GuardState :=
  match s.sampled.findIdx? fun e => e.identityPk == pk with
  | none => s
  | some _ =>
    moorGuardUpdatePrimary (s.modify pk (.missed now))

/-! ### Expiry -/

/-- A guard is kept for 120 days. -/
def GuardEntry.fresh (e : GuardEntry) : Bool := now - e.addedAt < 120 * 24 * 3600

/-- The guards that are too old leave the array, and the others move up. -/
def moorGuardExpire : GuardState :=
  let kept := s.sampled.filter (·.fresh now)
  moorGuardUpdatePrimary
    { s with
      sampled := kept
      unused := (s.sampled ++ s.unused).drop kept.length
      confirmedIndices := s.confirmedIndices.filterMap fun idx =>
        if s.has (·.fresh now) idx then some ((s.sampled.take idx).countP (·.fresh now))
        else none }

/-! ### Path bias -/

/-- Counts that get large are halved. -/
def GuardEntry.maybeScale (g : GuardEntry) : GuardEntry :=
  if moorPbScaleAt ≤ g.pbCircAttempts then
    { g with
      pbCircAttempts := g.pbCircAttempts / 2
      pbCircSuccess := g.pbCircSuccess / 2
      pbUseAttempts := g.pbUseAttempts / 2
      pbUseSuccess := g.pbUseSuccess / 2 }
  else g

def moorPathbiasCountBuildAttempt : GuardState :=
  s.modify pk fun g => { g with pbCircAttempts := g.pbCircAttempts + 1 }.maybeScale

def moorPathbiasCountBuildSuccess : GuardState :=
  s.modify pk fun g => { g with pbCircSuccess := g.pbCircSuccess + 1 }

def moorPathbiasCountUseAttempt : GuardState :=
  s.modify pk fun g => { g with pbUseAttempts := g.pbUseAttempts + 1 }

def moorPathbiasCountUseSuccess : GuardState :=
  s.modify pk fun g => { g with pbUseSuccess := g.pbUseSuccess + 1 }

/-- The rate of successes is below a number of percent. The source divides doubles; counts of 32
bits are too small for the rounding to matter. -/
def rateBelow (success attempts : UInt32) (percent : ℕ) : Bool :=
  100 * success.toNat < percent * attempts.toNat

def GuardEntry.disable (g : GuardEntry) : GuardEntry :=
  { g with pbDisabled := true, pbSuspect := true, isReachable := false }

/-- The checks on one guard: on the circuits that were built, and on those that were used. -/
def GuardEntry.check (g : GuardEntry) : GuardEntry :=
  if g.pbDisabled ∨ g.pbCircAttempts < moorPbMinCircs then g
  else
    let built :=
      if rateBelow g.pbCircSuccess g.pbCircAttempts 30 then g.disable
      else if rateBelow g.pbCircSuccess g.pbCircAttempts 50 then { g with pbSuspect := true }
      else g
    if moorPbMinCircs ≤ g.pbUseAttempts ∧ rateBelow g.pbUseSuccess g.pbUseAttempts 50 then
      built.disable
    else built

def moorPathbiasCheckAll : GuardState :=
  let s := { s with sampled := s.sampled.map GuardEntry.check }
  if s.primaryIndices.any (s.has GuardEntry.pbDisabled) then moorGuardUpdatePrimary s else s

/-! ### The file -/

/-- A guard in the file: what path-bias detection knows is not part of it. -/
def GuardEntry.encode (e : GuardEntry) : Bytes :=
  e.identityPk.val ++ (Arr.ofList 64 0 e.address).val ++ be16 e.port ++ be64 e.addedAt ++
    be64 e.confirmedAt ++ be64 e.lastTried ++ be64 e.unreachableSince ++
    [if e.isReachable then 1 else 0]

def encodeIndex (idx : ℕ) : Bytes := be32 (UInt32.ofNat idx)

def moorGuardSave : Bytes :=
  encodeIndex s.sampled.length ++ encodeIndex s.confirmedIndices.length ++
    encodeIndex s.primaryIndices.length ++ s.sampled.flatMap GuardEntry.encode ++
    s.confirmedIndices.flatMap encodeIndex ++ s.primaryIndices.flatMap encodeIndex

def readGuardEntry : Reader GuardEntry := do
  let identityPk ← readField 32
  let address ← readField 64
  let port ← readU16
  let addedAt ← readU64
  let confirmedAt ← readU64
  let lastTried ← readU64
  let unreachableSince ← readU64
  let isReachable ← readU8
  return ⟨identityPk, cString (address.set 63 0), port, addedAt, confirmedAt, lastTried,
    unreachableSince, isReachable ≠ 0, 0, 0, 0, 0, false, false⟩

def readIndex : Reader ℕ := do return (← readU32).toNat

/-- The numbers of the header are bounded, and the indices are those of guards in the file. -/
def readGuardState : Reader GuardState := do
  let numSampled ← readIndex
  let numConfirmed ← readIndex
  let numPrimary ← readIndex
  if moorGuardSampledMax < numSampled ∨ moorGuardConfirmedMax < numConfirmed ∨
      moorGuardPrimaryMax < numPrimary then failure
  let sampled ← readMany readGuardEntry numSampled
  let confirmedIndices ← readMany readIndex numConfirmed
  let primaryIndices ← readMany readIndex numPrimary
  if (confirmedIndices ++ primaryIndices).any (numSampled ≤ ·) then failure
  return ⟨sampled, List.replicate (moorGuardSampledMax - numSampled) .zero, primaryIndices,
    confirmedIndices⟩

/-- Loads the file over a state. A file that cannot be read leaves a state of zero bytes, and
without a file the state stays. -/
def moorGuardLoad (file : Option Bytes) (s : GuardState) : GuardState :=
  match file with
  | none => s
  | some bytes =>
    match readGuardState.run bytes with
    | none => .zero
    | some (s, _) => s

/-! ### What the lists of indices hold -/

namespace GuardState

/-- The array has 32 slots, no guard is in it twice, and the lists of indices are bounded and point
to guards. -/
structure Sound (s : GuardState) : Prop where
  slots : s.sampled.length + s.unused.length = moorGuardSampledMax
  nodup : (s.sampled.map (·.identityPk)).Nodup
  confirmed_length : s.confirmedIndices.length ≤ moorGuardConfirmedMax
  confirmed_lt : ∀ idx ∈ s.confirmedIndices, idx < s.sampled.length

structure WellFormed (s : GuardState) : Prop extends Sound s where
  primary_length : s.primaryIndices.length ≤ moorGuardPrimaryMax
  primary_lt : ∀ idx ∈ s.primaryIndices, idx < s.sampled.length

theorem wellFormed_zero : WellFormed zero :=
  ⟨⟨rfl, nodup_nil, Nat.zero_le _, fun _ h => nomatch h⟩, Nat.zero_le _, fun _ h => nomatch h⟩

variable {s : GuardState} {p : GuardEntry → Bool}

theorem has_iff {idx : ℕ} : s.has p idx = true ↔ ∃ e, s.sampled[idx]? = some e ∧ p e = true := by
  simp only [has, Option.any_eq_true]

theorem lt_of_has {idx : ℕ} (h : s.has p idx = true) : idx < s.sampled.length := by
  obtain ⟨e, he, -⟩ := has_iff.mp h
  exact (List.getElem?_eq_some_iff.mp he).1

end GuardState

section FillPrimary

variable {accept : List ℕ → ℕ → Bool} {indices primary : List ℕ}

theorem fillPrimary_cons (idx : ℕ) :
    fillPrimary accept (idx :: indices) primary = fillPrimary accept indices
      (if primary.length < moorGuardPrimaryMax ∧ accept primary idx then primary ++ [idx]
        else primary) := rfl

theorem length_fillPrimary_le (h : primary.length ≤ moorGuardPrimaryMax) :
    (fillPrimary accept indices primary).length ≤ moorGuardPrimaryMax := by
  induction indices generalizing primary with
  | nil => exact h
  | cons idx indices ih =>
    rw [fillPrimary_cons]
    split
    next hroom =>
      refine ih ?_
      rw [length_append, length_singleton]
      exact hroom.1
    · exact ih h

theorem forall_mem_fillPrimary {P : ℕ → Prop} (haccept : ∀ primary idx, accept primary idx → P idx)
    (h : ∀ idx ∈ primary, P idx) : ∀ idx ∈ fillPrimary accept indices primary, P idx := by
  induction indices generalizing primary with
  | nil => exact h
  | cons idx indices ih =>
    rw [fillPrimary_cons]
    split
    next hroom =>
      have hidx := haccept _ _ hroom.2
      exact ih (forall_mem_append.mpr ⟨h, forall_mem_singleton.mpr hidx⟩)
    · exact ih h

theorem fillPrimary_ne_nil (h : primary ≠ [] ∨ ∃ idx ∈ indices, accept [] idx = true) :
    fillPrimary accept indices primary ≠ [] := by
  induction indices generalizing primary with
  | nil => exact h.resolve_right (by simp)
  | cons idx indices ih =>
    rw [fillPrimary_cons]
    split
    · exact ih (.inl (by simp))
    next hrefused =>
      refine ih ?_
      by_cases hnil : primary = []
      · subst hnil
        obtain ⟨i, hi, hacc⟩ := h.resolve_left (· rfl)
        rcases mem_cons.mp hi with rfl | hi
        · exact absurd ⟨Nat.succ_pos _, hacc⟩ hrefused
        · exact .inr ⟨i, hi, hacc⟩
      · exact .inl hnil

end FillPrimary

namespace GuardState

variable {s : GuardState}

/-- No primary guard is disabled. -/
theorem has_of_mem_updatePrimary :
    ∀ idx ∈ (moorGuardUpdatePrimary s).primaryIndices, s.has (fun e => !e.pbDisabled) idx := by
  refine forall_mem_fillPrimary (fun _ idx h => (Bool.and_eq_true_iff.mp h).1) ?_
  refine forall_mem_fillPrimary (fun _ idx h => (Bool.and_eq_true_iff.mp h).1) ?_
  refine forall_mem_fillPrimary (fun _ idx h => ?_) fun _ h => nomatch h
  obtain ⟨e, he, hboth⟩ := has_iff.mp h
  exact has_iff.mpr ⟨e, he, (Bool.and_eq_true_iff.mp hboth).2⟩

/-- There is a primary guard if there is one that is not disabled. -/
theorem updatePrimary_ne_nil {e : GuardEntry} (he : e ∈ s.sampled)
    (henabled : e.pbDisabled = false) : (moorGuardUpdatePrimary s).primaryIndices ≠ [] := by
  obtain ⟨idx, hidx, rfl⟩ := getElem_of_mem he
  refine fillPrimary_ne_nil (.inr ⟨idx, mem_range.mpr hidx, ?_⟩)
  rw [Bool.and_eq_true_iff]
  exact ⟨has_iff.mpr ⟨_, getElem?_eq_getElem hidx, by simp [henabled]⟩, rfl⟩

theorem Sound.updatePrimary (h : s.Sound) : (moorGuardUpdatePrimary s).WellFormed where
  toSound := { h with }
  primary_length :=
    length_fillPrimary_le (length_fillPrimary_le (length_fillPrimary_le (Nat.zero_le _)))
  primary_lt idx hidx := lt_of_has (has_of_mem_updatePrimary idx hidx)

variable {s' : GuardState} {pk : Field 32} {f : GuardEntry → GuardEntry}

/-- A change to the guards that leaves their identities alone. -/
theorem Sound.of_identities (h : s.Sound)
    (hids : s'.sampled.map (·.identityPk) = s.sampled.map (·.identityPk))
    (hunused : s'.unused = s.unused) (hconfirmed : s'.confirmedIndices = s.confirmedIndices) :
    s'.Sound := by
  have hlen : s'.sampled.length = s.sampled.length := by
    simpa using congrArg length hids
  exact ⟨by rw [hlen, hunused]; exact h.slots, by rw [hids]; exact h.nodup,
    by rw [hconfirmed]; exact h.confirmed_length,
    by rw [hlen, hconfirmed]; exact h.confirmed_lt⟩

/-- What is read of the guards stays when the guard that changes shows no difference. -/
theorem map_modify {β : Type} {view : GuardEntry → β}
    (hf : ∀ e ∈ s.sampled, e.identityPk = pk → view (f e) = view e) :
    (s.modify pk f).sampled.map view = s.sampled.map view := by
  rw [modify]
  generalize s.sampled = l at hf
  induction l with
  | nil => rfl
  | cons e l ih =>
    rw [findIdx_cons]
    cases hpk : e.identityPk == pk with
    | true => simp [hf e mem_cons_self (beq_iff_eq.mp hpk)]
    | false => simpa using ih fun e he => hf e (mem_cons_of_mem _ he)

theorem forall_mem_modify {P : GuardEntry → Prop} (h : ∀ e ∈ s.sampled, P e)
    (hf : ∀ e, e.identityPk = pk → P e → P (f e)) : ∀ e ∈ (s.modify pk f).sampled, P e := by
  rw [modify]
  generalize s.sampled = l at h
  induction l with
  | nil => exact h
  | cons e l ih =>
    have hrest := ih fun e he => h e (mem_cons_of_mem _ he)
    have hfirst := h e mem_cons_self
    rw [findIdx_cons]
    cases hpk : e.identityPk == pk with
    | true =>
      simpa using ⟨hf e (beq_iff_eq.mp hpk) hfirst, fun e he => h e (mem_cons_of_mem _ he)⟩
    | false => simpa using ⟨hfirst, hrest⟩

/-- A condition on the guard at an index is one on what is read of it. -/
theorem has_congr {p : GuardEntry → Bool} (h : s'.sampled.map p = s.sampled.map p) (idx : ℕ) :
    s'.has p idx = s.has p idx := by
  have hany : ∀ l : List GuardEntry, l[idx]?.any p = (l.map p)[idx]?.any id := by
    intro l
    rw [getElem?_map, Option.any_map]
    rfl
  rw [has, has, hany, hany, h]

theorem Sound.modify (h : s.Sound) (hf : ∀ e, (f e).identityPk = e.identityPk) :
    (s.modify pk f).Sound :=
  h.of_identities (map_modify fun e _ _ => hf e) rfl rfl

theorem WellFormed.of_identities (h : s.WellFormed)
    (hids : s'.sampled.map (·.identityPk) = s.sampled.map (·.identityPk))
    (hunused : s'.unused = s.unused) (hconfirmed : s'.confirmedIndices = s.confirmedIndices)
    (hprimary : s'.primaryIndices = s.primaryIndices) : s'.WellFormed where
  toSound := h.toSound.of_identities hids hunused hconfirmed
  primary_length := hprimary ▸ h.primary_length
  primary_lt := by
    have hlen : s'.sampled.length = s.sampled.length := by
      simpa using congrArg length hids
    rw [hlen, hprimary]
    exact h.primary_lt

theorem WellFormed.markReachable (h : s.WellFormed) (pk : Field 32) (now : UInt64) :
    (moorGuardMarkReachable pk now s).WellFormed := by
  simp only [moorGuardMarkReachable]
  split
  · exact h
  next i hi =>
  have hlt : i < s.sampled.length := (findIdx?_eq_some_iff_findIdx_eq.mp hi).1
  have hsound : (s.modify pk (.reached now)).Sound := h.toSound.modify fun _ => rfl
  have hlen : (s.modify pk (.reached now)).sampled.length = s.sampled.length :=
    length_modify ..
  refine Sound.updatePrimary ⟨hsound.slots, hsound.nodup, ?_, ?_⟩
  · split
    next hroom =>
      rw [length_append, length_singleton]
      exact hroom.2
    · exact hsound.confirmed_length
  split
  · have hidx := hlt.trans_eq hlen.symm
    exact forall_mem_append.mpr ⟨hsound.confirmed_lt, forall_mem_singleton.mpr hidx⟩
  · exact hsound.confirmed_lt

theorem WellFormed.markUnreachable (h : s.WellFormed) (pk : Field 32) (now : UInt64) :
    (moorGuardMarkUnreachable pk now s).WellFormed := by
  simp only [moorGuardMarkUnreachable]
  split
  · exact h
  · have hsound : (s.modify pk (.missed now)).Sound := h.toSound.modify fun _ => rfl
    exact hsound.updatePrimary

/-- A guard that is kept has a place among those that are kept. -/
theorem countP_take_lt {now : UInt64} {idx : ℕ} (h : s.has (·.fresh now) idx = true) :
    (s.sampled.take idx).countP (·.fresh now) < (s.sampled.filter (·.fresh now)).length := by
  obtain ⟨e, he, hfresh⟩ := has_iff.mp h
  obtain ⟨hidx, rfl⟩ := List.getElem?_eq_some_iff.mp he
  rw [← countP_eq_length_filter]
  calc (s.sampled.take idx).countP (·.fresh now)
      < (s.sampled.take (idx + 1)).countP (·.fresh now) := by
        rw [take_succ_eq_append_getElem hidx, countP_append, countP_singleton, if_pos hfresh]
        exact Nat.lt_succ_self _
    _ ≤ s.sampled.countP (·.fresh now) := (take_sublist _ _).countP_le

theorem Sound.expire (h : s.Sound) (now : UInt64) : (moorGuardExpire now s).WellFormed := by
  refine Sound.updatePrimary ⟨?_, ?_, ?_, ?_⟩
  · have hle := length_filter_le (·.fresh now) s.sampled
    have hslots := h.slots
    simp only [length_drop, length_append]
    omega
  · exact h.nodup.sublist (filter_sublist.map _)
  · exact (length_filterMap_le _ _).trans h.confirmed_length
  · intro i hi
    obtain ⟨idx, -, hidx⟩ := mem_filterMap.mp hi
    obtain ⟨hkept, hplace⟩ := Option.ite_none_right_eq_some.mp hidx
    rw [← Option.some_inj.mp hplace]
    exact countP_take_lt hkept

end GuardState

variable {cons : WeightedConsensus} {now : UInt64} {draws : List UInt64} {s : GuardState}

theorem sampleInto_spec {sampled unused sampled' unused' : List GuardEntry}
    (h : sampleInto cons now sampled unused draws = some (sampled', unused'))
    (hnodup : (sampled.map (·.identityPk)).Nodup) :
    ∃ new, sampled' = sampled ++ new ∧ (sampled'.map (·.identityPk)).Nodup ∧
      sampled'.length + unused'.length = sampled.length + unused.length ∧
      ∀ e ∈ new, ∃ slot ∈ unused, e.pbDisabled = slot.pbDisabled := by
  induction unused generalizing sampled draws with
  | nil =>
    cases h
    exact ⟨[], by simp, hnodup, rfl, by simp⟩
  | cons slot unused ih =>
    rw [sampleInto] at h
    split at h
    · cases h
    · cases h
      exact ⟨[], by simp, hnodup, rfl, by simp⟩
    next relay draws' hselect =>
    have hfresh : relay.identityPk ∉ sampled.map (·.identityPk) := by
      have hpasses := (mem_of_moorNodeSelectRelay hselect).2
      simp only [NodeDescriptor.passes, Bool.and_eq_true] at hpasses
      simpa using hpasses.2
    have hnodup' : ((sampled ++ [slot.sample now relay]).map (·.identityPk)).Nodup := by
      rw [map_append, map_singleton]
      refine nodup_append.mpr ⟨hnodup, nodup_singleton _, ?_⟩
      intro pk hpk pk' hpk' heq
      rw [heq, mem_singleton.mp hpk'] at hpk
      exact hfresh hpk
    obtain ⟨new, rfl, hnodup'', hlen, hnew⟩ := ih h hnodup'
    refine ⟨slot.sample now relay :: new, by simp, hnodup'', ?_, ?_⟩
    · simp only [length_append, length_cons, length_nil] at hlen ⊢
      omega
    intro e he
    rcases mem_cons.mp he with rfl | he
    · exact ⟨slot, mem_cons_self, rfl⟩
    · obtain ⟨old, hold, hflag⟩ := hnew e he
      exact ⟨old, mem_cons_of_mem _ hold, hflag⟩

/-- Sampling adds guards that keep the mark of their slot. -/
theorem moorGuardSample_spec {s' : GuardState} (h : s.WellFormed)
    (hsample : moorGuardSample cons now draws s = some s') :
    s'.WellFormed ∧ ∃ new unused, s' = { s with sampled := s.sampled ++ new, unused := unused } ∧
      ∀ e ∈ new, ∃ slot ∈ s.unused, e.pbDisabled = slot.pbDisabled := by
  obtain ⟨⟨sampled, unused⟩, hinto, rfl⟩ := Option.map_eq_some_iff.mp hsample
  obtain ⟨new, rfl, hnodup, hlen, hnew⟩ := sampleInto_spec hinto h.nodup
  have hgrows : s.sampled.length ≤ (s.sampled ++ new).length := by simp
  refine ⟨⟨⟨hlen.trans h.slots, hnodup, h.confirmed_length, ?_⟩, h.primary_length, ?_⟩, new,
    unused, rfl, hnew⟩
  · exact fun idx hidx => (h.confirmed_lt idx hidx).trans_le hgrows
  · exact fun idx hidx => (h.primary_lt idx hidx).trans_le hgrows

/-! ### What is loaded of a saved state -/

/-- A guard after it was saved and loaded: nothing is left of the path-bias detection. -/
def GuardEntry.reloaded (e : GuardEntry) : GuardEntry :=
  { e with
    address := cString ((Arr.ofList 64 0 e.address).set 63 0)
    pbCircAttempts := 0
    pbCircSuccess := 0
    pbUseAttempts := 0
    pbUseSuccess := 0
    pbSuspect := false
    pbDisabled := false }

def GuardState.reloaded (s : GuardState) : GuardState where
  sampled := s.sampled.map GuardEntry.reloaded
  unused := List.replicate (moorGuardSampledMax - s.sampled.length) .zero
  primaryIndices := s.primaryIndices
  confirmedIndices := s.confirmedIndices

theorem GuardState.WellFormed.reloaded (h : s.WellFormed) : s.reloaded.WellFormed := by
  have hlen : s.reloaded.sampled.length = s.sampled.length := length_map _
  have hsampled : s.sampled.length ≤ moorGuardSampledMax := h.slots ▸ Nat.le_add_right _ _
  refine ⟨⟨?_, ?_, h.confirmed_length, ?_⟩, h.primary_length, ?_⟩
  · simp [GuardState.reloaded, Nat.add_sub_cancel' hsampled]
  · have hids : s.reloaded.sampled.map (·.identityPk)
        = s.sampled.map (·.identityPk) := map_map
    rw [hids]
    exact h.nodup
  · rw [hlen]
    exact h.confirmed_lt
  · rw [hlen]
    exact h.primary_lt

theorem readGuardEntry_run (e : GuardEntry) (rest : Bytes) :
    readGuardEntry.run (e.encode ++ rest) = some (e.reloaded, rest) := by
  simp [readGuardEntry, GuardEntry.encode, append_assoc, GuardEntry.reloaded]

theorem readIndex_run {idx : ℕ} (h : idx < 2 ^ 32) (rest : Bytes) :
    readIndex.run (encodeIndex idx ++ rest) = some (idx, rest) := by
  have hmod : (UInt32.ofNat idx).toNat = idx := by
    rw [UInt32.toNat_ofNat', Nat.mod_eq_of_lt h]
  simp [readIndex, encodeIndex, hmod]

theorem readMany_readIndex_run {indices : List ℕ} {n : ℕ} (h : ∀ idx ∈ indices, idx < n)
    (hn : n ≤ moorGuardSampledMax) (rest : Bytes) :
    (readMany readIndex indices.length).run (indices.flatMap encodeIndex ++ rest)
      = some (indices, rest) := by
  have hread := readMany_run_flatMap (fun idx : ℕ => idx) indices
    (fun idx hidx => readIndex_run (((h idx hidx).trans_le hn).trans (by decide))) rest
  rwa [map_id'] at hread

theorem moorGuardLoad_save (h : s.WellFormed) (t : GuardState) :
    moorGuardLoad (some (moorGuardSave s)) t = s.reloaded := by
  have hsampled : s.sampled.length ≤ moorGuardSampledMax := h.slots ▸ Nat.le_add_right _ _
  have hentries := readMany_run_flatMap GuardEntry.reloaded s.sampled
    fun e _ rest => readGuardEntry_run e rest
  have hconfirmed := readMany_readIndex_run h.confirmed_lt hsampled
  have hprimary := readMany_readIndex_run h.primary_lt hsampled []
  rw [append_nil] at hprimary
  have hrange : ((s.confirmedIndices ++ s.primaryIndices).any fun idx =>
      decide (s.sampled.length ≤ idx)) = false := by
    simp only [any_eq_false, decide_eq_true_eq, Nat.not_le, mem_append]
    rintro idx (hidx | hidx)
    · exact h.confirmed_lt idx hidx
    · exact h.primary_lt idx hidx
  have hheader : ¬(moorGuardSampledMax < s.sampled.length ∨
      moorGuardConfirmedMax < s.confirmedIndices.length ∨
      moorGuardPrimaryMax < s.primaryIndices.length) := by
    have := h.confirmed_length
    have := h.primary_length
    omega
  have hfits : ∀ n ≤ moorGuardSampledMax, n < 2 ^ 32 := fun n hn => hn.trans_lt (by decide)
  have hrun : readGuardState.run (moorGuardSave s) = some (s.reloaded, []) := by
    simp only [readGuardState, moorGuardSave, append_assoc, StateT.run_bind,
      Option.bind_eq_bind, readIndex_run (hfits _ hsampled),
      readIndex_run (hfits _ (h.confirmed_length.trans (by decide))),
      readIndex_run (hfits _ (h.primary_length.trans (by decide))), Option.bind_some,
      if_neg hheader, hentries, hconfirmed, hprimary, hrange, StateT.run_pure, Bool.false_eq_true,
      if_false]
    rfl
  simp only [moorGuardLoad, hrun]

end Moor
