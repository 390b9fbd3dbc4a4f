import Moor.Lib.Run
import Moor.Node.Select

/-!
# Vanguards

The circuits of a hidden service take their middle hops from two small sets of relays, which keeps
their guards from being enumerated. A member of the second layer stays for a day and one of the
third for an hour; a call drops the members that have expired and fills both layers.

## Main results

* `vanguards_sound`: the layers stay disjoint and without excluded relays if no member of the third
  layer is open to the second.
-/

namespace Moor

open Codec List

def moorVanguardL2Count : ℕ := 4
def moorVanguardL3Count : ℕ := 8
def moorVanguardL2Rotate : UInt64 := 86400
def moorVanguardL3Rotate : UInt64 := 3600

structure VanguardRelay where
  relayId : Field 32
  expiresAt : UInt64
  valid : Bool
  deriving DecidableEq

structure VanguardSet where
  l2 : List VanguardRelay
  l3 : List VanguardRelay
  deriving DecidableEq

/-- What a call reads: the relays, the time, the excluded identities and the random words. -/
structure VanguardCall where
  consensus : WeightedConsensus
  now : UInt64
  excludeIds : List (Field 32)
  draws : List UInt64

def relayIds (layer : List VanguardRelay) : List (Field 32) := layer.map VanguardRelay.relayId

def unexpired (now : UInt64) (layer : List VanguardRelay) : List VanguardRelay :=
  layer.filter fun v => v.valid && now < v.expiresAt

/-- Adds up to `n` relays; the array of the excluded ones has room for 16. -/
def fillLayer (call : VanguardCall) (requiredFlags : UInt32) (others : List (Field 32))
    (rotate : UInt64) : ℕ → List VanguardRelay → List UInt64 →
      Option (List VanguardRelay × List UInt64)
  | 0, layer, draws => some (layer, draws)
  | n + 1, layer, draws =>
    match moorNodeSelectRelay call.consensus requiredFlags ((relayIds layer ++ others).take 16)
        draws with
    | none => none
    | some (none, draws) => some (layer, draws)
    | some (some relay, draws) =>
      fillLayer call requiredFlags others rotate n
        (layer ++ [⟨relay.identityPk, call.now + rotate, true⟩]) draws

variable (vg : VanguardSet) (call : VanguardCall)

/-- Fills what has not expired of a layer, if the consensus has any relay. -/
def refillLayer (count : ℕ) (requiredFlags : UInt32) (rotate : UInt64) (others : List (Field 32))
    (layer : List VanguardRelay) (draws : List UInt64) :
    Option (List VanguardRelay × List UInt64) :=
  let kept := unexpired call.now layer
  fillLayer call requiredFlags others rotate
    (if call.consensus.relays.isEmpty then 0 else count - kept.length) kept draws

def moorVanguardInit (call : VanguardCall) : Option VanguardSet := do
  let (l2, draws) ← refillLayer call moorVanguardL2Count (nodeFlagRunning ||| nodeFlagStable)
    moorVanguardL2Rotate call.excludeIds vg.l2 call.draws
  let (l3, _) ← refillLayer call moorVanguardL3Count nodeFlagRunning moorVanguardL3Rotate
    (relayIds l2 ++ call.excludeIds) vg.l3 draws
  return ⟨l2, l3⟩

/-! ### The layers of every run -/

structure VanguardSet.Sound (vg : VanguardSet) : Prop where
  l2_length : vg.l2.length ≤ moorVanguardL2Count
  l3_length : vg.l3.length ≤ moorVanguardL3Count
  l2_nodup : (relayIds vg.l2).Nodup
  l3_nodup : (relayIds vg.l3).Nodup
  disjoint : ∀ pk ∈ relayIds vg.l2, pk ∉ relayIds vg.l3

/-- The members after a call are those that have not expired and new ones, none of them excluded. -/
def VanguardSet.AddsAllowed (vg' : VanguardSet) : Prop :=
  ∃ new2 new3, vg'.l2 = unexpired call.now vg.l2 ++ new2 ∧
    vg'.l3 = unexpired call.now vg.l3 ++ new3 ∧
    ∀ v ∈ new2 ++ new3, v.relayId ∉ call.excludeIds

/-- The excluded identities always fit beside the members, and the second layer is full or no relay
that it can take is in the third. -/
def VanguardSet.Open (call : VanguardCall) : Prop :=
  call.excludeIds.length ≤ 5 ∧
    ((unexpired call.now vg.l2).length = moorVanguardL2Count ∨
      ∀ r ∈ call.consensus.relays,
        r.passes (nodeFlagRunning ||| nodeFlagStable) call.excludeIds →
          r.identityPk ∉ relayIds (unexpired call.now vg.l3))
  deriving Decidable

/-- A member that is a relay of the consensus and passes the filters. -/
def VanguardCall.Offers (requiredFlags : UInt32) (others : List (Field 32)) (v : VanguardRelay) :
    Prop :=
  ∃ r ∈ call.consensus.relays, r.passes requiredFlags others ∧ v.relayId = r.identityPk

variable {vg vg' : VanguardSet} {call : VanguardCall} {requiredFlags : UInt32}
  {others : List (Field 32)} {rotate : UInt64}

@[simp] theorem length_relayIds (layer : List VanguardRelay) :
    (relayIds layer).length = layer.length :=
  length_map _

@[simp] theorem relayIds_append (layer new : List VanguardRelay) :
    relayIds (layer ++ new) = relayIds layer ++ relayIds new :=
  map_append

theorem VanguardCall.Offers.notMem {v : VanguardRelay} (h : call.Offers requiredFlags others v) :
    v.relayId ∉ others := by
  obtain ⟨r, -, hpasses, heq⟩ := h
  simp_all [NodeDescriptor.passes]

/-- If the excluded ones fit, a layer takes relays that pass the filters, each only once. -/
theorem fillLayer_spec {n : ℕ} {layer layer' : List VanguardRelay} {draws draws' : List UInt64}
    (h : fillLayer call requiredFlags others rotate n layer draws = some (layer', draws'))
    (hroom : layer.length + n + others.length ≤ 17) (hnodup : (relayIds layer).Nodup) :
    ∃ new, layer' = layer ++ new ∧ new.length ≤ n ∧ (relayIds layer').Nodup ∧
      ∀ v ∈ new, call.Offers requiredFlags others v := by
  induction n generalizing layer draws with
  | zero =>
    cases h
    exact ⟨[], by simp, le_rfl, hnodup, by simp⟩
  | succ n ih =>
    have hfits : (relayIds layer ++ others).length ≤ 16 := by
      rw [length_append, length_relayIds]
      omega
    rw [fillLayer, take_of_length_le hfits] at h
    split at h
    · cases h
    · cases h
      exact ⟨[], by simp, by simp, hnodup, by simp⟩
    next relay rest hselect =>
    obtain ⟨hmem, hpasses⟩ := mem_of_moorNodeSelectRelay hselect
    have hnew : relay.identityPk ∉ relayIds layer ∧ relay.passes requiredFlags others := by
      simp_all [NodeDescriptor.passes]
    obtain ⟨new, rfl, hlen, hnodup', hadded⟩ := ih h
      (by simp only [length_append, length_cons, length_nil]; omega)
      (by simpa [relayIds, nodup_append] using ⟨hnodup, by simpa [relayIds] using hnew.1⟩)
    refine ⟨_ :: new, append_assoc .., Nat.succ_le_succ hlen, hnodup', ?_⟩
    exact forall_mem_cons.mpr ⟨⟨relay, hmem, hnew.2, rfl⟩, hadded⟩

theorem relayIds_unexpired (now : UInt64) (layer : List VanguardRelay) :
    relayIds (unexpired now layer) <+ relayIds layer :=
  filter_sublist.map _

theorem refillLayer_spec {count : ℕ} {layer layer' : List VanguardRelay}
    {draws draws' : List UInt64}
    (h : refillLayer call count requiredFlags rotate others layer draws = some (layer', draws'))
    (hroom : count + others.length ≤ 17) (hlen : layer.length ≤ count)
    (hnodup : (relayIds layer).Nodup) :
    layer'.length ≤ count ∧ (relayIds layer').Nodup ∧
      ∃ new, layer' = unexpired call.now layer ++ new ∧
        ∀ v ∈ new, call.Offers requiredFlags others v := by
  have hkept : (unexpired call.now layer).length ≤ layer.length := length_filter_le ..
  rw [refillLayer] at h
  set n := if call.consensus.relays.isEmpty then 0 else _ with hn
  have hn_le : n ≤ count - (unexpired call.now layer).length := by
    split at hn <;> omega
  obtain ⟨new, rfl, hle, hnodup', hnew⟩ := fillLayer_spec h (by omega)
    (hnodup.sublist (relayIds_unexpired call.now layer))
  refine ⟨?_, hnodup', new, rfl, hnew⟩
  rw [length_append]
  omega

theorem VanguardSet.Sound.init (h : vg.Sound) (hopen : vg.Open call)
    (hinit : moorVanguardInit vg call = some vg') : vg'.Sound ∧ vg.AddsAllowed call vg' := by
  obtain ⟨⟨l2, draws⟩, hl2, hinit⟩ := Option.bind_eq_some_iff.mp hinit
  obtain ⟨⟨l3, draws'⟩, hl3, hinit⟩ := Option.bind_eq_some_iff.mp hinit
  cases hinit
  obtain ⟨hexclude, hopen⟩ := hopen
  obtain ⟨hlength2, hnodup2, new2, rfl, hnew2⟩ := refillLayer_spec hl2
    (by rw [moorVanguardL2Count]; omega) h.l2_length h.l2_nodup
  obtain ⟨hlength3, hnodup3, new3, rfl, hnew3⟩ := refillLayer_spec hl3
    (by simp only [length_append, length_relayIds, moorVanguardL2Count, moorVanguardL3Count] at *
        omega) h.l3_length h.l3_nodup
  refine ⟨⟨hlength2, hlength3, hnodup2, hnodup3, ?_⟩, new2, new3, rfl, rfl, ?_⟩
  · intro pk hpk hpk3
    rw [relayIds_append, mem_append] at hpk3
    obtain hpk3 | hpk3 := hpk3
    · rw [relayIds_append, mem_append] at hpk
      obtain hpk | hpk := hpk
      · exact h.disjoint pk ((relayIds_unexpired ..).subset hpk)
          ((relayIds_unexpired ..).subset hpk3)
      obtain ⟨v, hv, rfl⟩ := mem_map.mp hpk
      obtain ⟨r, hr, hpasses, heq⟩ := hnew2 v hv
      obtain hfull | hopen := hopen
      · have hpos := length_pos_of_mem hv
        rw [length_append] at hlength2
        omega
      · exact hopen r hr hpasses (heq ▸ hpk3)
    · obtain ⟨v, hv, rfl⟩ := mem_map.mp hpk3
      exact (hnew3 v hv).notMem (mem_append_left _ hpk)
  · intro v hv hmem
    obtain hv | hv := mem_append.mp hv
    · exact (hnew2 v hv).notMem hmem
    · exact (hnew3 v hv).notMem (mem_append_right _ hmem)

/-- In a run whose calls are all open, the layers are small, without repetition and disjoint after
every call, and no call adds a relay that it excludes. -/
theorem vanguards_sound {calls : List VanguardCall}
    (halong : Run.Along moorVanguardInit VanguardSet.Open ⟨[], []⟩ calls)
    (hrun : Run.run moorVanguardInit ⟨[], []⟩ calls = some vg) :
    vg.Sound ∧ ∀ call vg', vg.Open call → moorVanguardInit vg call = some vg' →
      vg.AddsAllowed call vg' := by
  have hempty : VanguardSet.Sound ⟨[], []⟩ := by
    constructor <;> simp [relayIds]
  have hsound : vg.Sound := Run.run_invariant (fun _ _ _ h hopen hinit => (h.init hopen hinit).1)
    hempty halong hrun
  exact ⟨hsound, fun call vg' hopen hinit => (hsound.init hopen hinit).2⟩

/-- A call when relay 1 is stable and relay 2 has the given flags. -/
def sampleVanguards (flags : UInt32) : VanguardCall :=
  ⟨sampleWeighted [sampleNode 1 (nodeFlagRunning ||| nodeFlagStable) 0, sampleNode 2 flags 0]
    (show 2 ≤ moorMaxRelays by decide), 0, [], List.replicate 4 0⟩

/-- A first call, one when the third layer has expired, and one when both have. -/
def sampleVanguardCalls : List VanguardCall :=
  [sampleVanguards nodeFlagRunning, { sampleVanguards nodeFlagRunning with now := 3600 },
    { sampleVanguards nodeFlagRunning with now := 90000 }]

theorem vanguards_sound_sample :
    ∃ vg, Run.run moorVanguardInit ⟨[], []⟩ sampleVanguardCalls = some vg ∧ vg.l2 ≠ [] ∧
      vg.l3 ≠ [] ∧ vg.Sound := by
  obtain ⟨vg, hrun, hl2, hl3⟩ : ∃ vg, Run.run moorVanguardInit ⟨[], []⟩ sampleVanguardCalls =
      some vg ∧ vg.l2 ≠ [] ∧ vg.l3 ≠ [] := by decide +kernel
  exact ⟨vg, hrun, hl2, hl3, (vanguards_sound (by decide +kernel) hrun).1⟩

/-- A relay of the third layer that is stable at the next call gets into the second as well. -/
theorem vanguard_of_both_layers :
    ∃ vg, Run.run moorVanguardInit ⟨[], []⟩
        [sampleVanguards nodeFlagRunning, sampleVanguards (nodeFlagRunning ||| nodeFlagStable)]
          = some vg ∧ ¬ vg.Sound := by
  obtain ⟨vg, hrun, pk, hl2, hl3⟩ : ∃ vg, Run.run moorVanguardInit ⟨[], []⟩
      [sampleVanguards nodeFlagRunning, sampleVanguards (nodeFlagRunning ||| nodeFlagStable)]
        = some vg ∧ ∃ pk ∈ relayIds vg.l2, pk ∈ relayIds vg.l3 := by decide +kernel
  exact ⟨vg, hrun, fun h => h.disjoint pk hl2 hl3⟩

end Moor
