import Moor.Circuit.Guard
import Moor.Lib.Text

/-!
# The path of a circuit

A client builds its circuits over three relays: a guard, which its guard state names if it can, an
exit, and a relay in the middle. Both builders exclude by identity what they have chosen already.
Only the synchronous builder looks at families, only when it has a database of countries, and then
it gives up after ten attempts; and neither builder asks whether the guard that the state or the
configuration names is the client's own relay.

What the draws decide is only which of the relays that pass the filters is taken, and each of them
is taken for some draws. So the constraints hold for all draws exactly when they hold for every path
that the filters admit.

## Main results

* `path_constraints_iff`: when the constraints hold for all draws.
-/

namespace Moor

open Codec List Flags
open Text (tolower)

/-- The relays of a circuit. -/
structure SelectedPath where
  guard : NodeDescriptor
  middle : NodeDescriptor
  exit : NodeDescriptor

/-! ### The guard -/

variable (cons : WeightedConsensus) (ourPk : Field 32)

/-- The first relay with a nickname, in letters of either case. -/
def moorNodeFindByNickname (name : Bytes) : Option NodeDescriptor :=
  if name.isEmpty then none
  else
    cons.relays.find? fun r =>
      !(cString r.nickname).isEmpty && (cString r.nickname).map tolower == name.map tolower

/-- The value of a hexadecimal digit. -/
def hexDigit (ch : UInt8) : Option UInt8 :=
  if 0x30 ≤ ch ∧ ch ≤ 0x39 then some (ch - 0x30)
  else if 0x61 ≤ tolower ch ∧ tolower ch ≤ 0x66 then some (tolower ch - 0x57)
  else none

/-- The bytes of a text of hexadecimal digits. -/
def hex2bin : Bytes → Option Bytes
  | [] => some []
  | [_] => none
  | hi :: lo :: rest =>
    match hexDigit hi, hexDigit lo, hex2bin rest with
    | some h, some l, some bytes => some ((h * 16 + l) :: bytes)
    | _, _, _ => none

/-- The relay that the configuration names as the entry: by its nickname, or by its identity in
hexadecimal. -/
def forcedGuard (entryNode : Bytes) : Option NodeDescriptor :=
  if entryNode.isEmpty then none
  else
    (moorNodeFindByNickname cons entryNode).or
      (if entryNode.length = 64 then
        (hex2bin entryNode).bind fun pk => cons.relays.find? fun r => r.identityPk.val == pk
      else none)

/-- The guard that the guard state names, if it is in the consensus and running. -/
def guardOfState (state : GuardState) (rrIdx : ℕ) : Option NodeDescriptor :=
  (moorGuardSelect state rrIdx).1.bind fun ge =>
    cons.relays.find? fun r =>
      r.identityPk == ge.identityPk && has r.flags nodeFlagRunning

variable (now : UInt64) (anyGuard geoip : Bool) (named : Option NodeDescriptor)

/-- The guard that is named, or one that is drawn. The synchronous builder takes any relay when
there is none with the flag. -/
def chooseGuard (draws : List UInt64) : Option (Option NodeDescriptor × List UInt64) :=
  match named with
  | some guard => some (some guard, draws)
  | none =>
    match moorNodeSelectRelay cons (nodeFlagGuard ||| nodeFlagRunning) [ourPk] draws with
    | some (none, draws) =>
      if anyGuard then moorNodeSelectRelay cons nodeFlagRunning [ourPk] draws
      else some (none, draws)
    | result => result

/-! ### The other relays -/

/-- A relay for the next position, with an eye to diversity if there is a database of countries. -/
def selectHop (requiredFlags : UInt32) (excludeIds : List (Field 32))
    (selected : List NodeDescriptor) (draws : List UInt64) :
    Option (Option NodeDescriptor × List UInt64) :=
  if geoip then moorNodeSelectRelayDiverse cons requiredFlags excludeIds selected draws
  else moorNodeSelectRelay cons requiredFlags excludeIds draws

/-- The exit and then the middle, each without what was chosen before. -/
def selectRest (guard : NodeDescriptor) (draws : List UInt64) : Option SelectedPath :=
  match selectHop cons geoip (nodeFlagExit ||| nodeFlagRunning) [ourPk, guard.identityPk] [guard]
      draws with
  | some (some exit, draws) =>
    match selectHop cons geoip nodeFlagRunning [ourPk, guard.identityPk, exit.identityPk]
        [guard, exit] draws with
    | some (some middle, _) => some ⟨guard, middle, exit⟩
    | _ => none
  | _ => none

def selectPath (draws : List UInt64) : Option SelectedPath :=
  match chooseGuard cons ourPk anyGuard named draws with
  | some (some guard, draws) => selectRest cons ourPk geoip guard draws
  | _ => none

/-! ### The builders -/

def moorConsensusIsValid (cons : WeightedConsensus) : Bool :=
  (if 5 < cons.validAfter then cons.validAfter - 5 else 0) ≤ now && now < cons.validUntil

/-- The path of a circuit that the asynchronous builder builds, if the channel to the guard, the
CREATE and the EXTENDs succeed. -/
def moorCircuitBuildAsync (cons : WeightedConsensus) (ourPk : Field 32) (state : GuardState)
    (rrIdx : ℕ) (connected : Bool) (draws : List UInt64) : Option SelectedPath :=
  if moorConsensusIsValid now cons && connected then
    selectPath cons ourPk false false (guardOfState cons state rrIdx) draws
  else none

/-- The path of a circuit that the synchronous builder builds, if the connection to the guard, the
CREATE and the EXTENDs succeed. -/
def moorCircuitBuild (entryNode : Bytes) (geoip : Bool) (cons : WeightedConsensus)
    (ourPk : Field 32) (state : GuardState) (rrIdx : ℕ) (connected : Bool)
    (draws : List UInt64) : Option SelectedPath :=
  if connected then
    selectPath cons ourPk true geoip
      ((forcedGuard cons entryNode).or (guardOfState cons state rrIdx)) draws
  else none

/-- The two builders with what they read besides: the time, or the configuration. -/
inductive PathBuilder
  | async (now : UInt64)
  | sync (entryNode : Bytes) (geoip : Bool)

namespace PathBuilder

def build (cons : WeightedConsensus) (ourPk : Field 32) (state : GuardState) (rrIdx : ℕ)
    (connected : Bool) (draws : List UInt64) : PathBuilder → Option SelectedPath
  | async now => moorCircuitBuildAsync now cons ourPk state rrIdx connected draws
  | sync entryNode geoip => moorCircuitBuild entryNode geoip cons ourPk state rrIdx connected draws

end PathBuilder

/-! ### The constraints -/

namespace SelectedPath

/-- Three relays, none of them the client's own, and the last one an exit that is not bad. -/
structure Proper (ourPk : Field 32) (p : SelectedPath) : Prop where
  guard_middle : p.guard.identityPk ≠ p.middle.identityPk
  guard_exit : p.guard.identityPk ≠ p.exit.identityPk
  middle_exit : p.middle.identityPk ≠ p.exit.identityPk
  guard_own : p.guard.identityPk ≠ ourPk
  middle_own : p.middle.identityPk ≠ ourPk
  exit_own : p.exit.identityPk ≠ ourPk
  exit_flag : has p.exit.flags nodeFlagExit = true
  exit_good : has p.exit.flags nodeFlagBadexit = false

/-- No two relays are of one family. -/
def familyFree (p : SelectedPath) : Bool :=
  !moorNodeSameFamily p.guard p.middle && !moorNodeSameFamily p.guard p.exit &&
    !moorNodeSameFamily p.middle p.exit

/-- There is a choice of running relays that meets the other constraints and has no two relays of
one family. -/
def Avoidable (cons : WeightedConsensus) (ourPk : Field 32) : Prop :=
  ∃ q : SelectedPath, (∀ r ∈ [q.guard, q.middle, q.exit],
    r ∈ cons.relays ∧ has r.flags nodeFlagRunning = true) ∧ q.Proper ourPk ∧
      q.familyFree = true

end SelectedPath

/-! ### What the filters admit -/

variable {cons : WeightedConsensus} {ourPk : Field 32} {p : SelectedPath}

section Selection

variable {requiredFlags : UInt32}
  {excludeIds : List (Field 32)} {selected : List NodeDescriptor} {geoip anyGuard : Bool}
  {draws rest : List UInt64} {r guard : NodeDescriptor}

/-- A relay of the consensus that passes the filters. -/
def Passes (cons : WeightedConsensus) (requiredFlags : UInt32) (excludeIds : List (Field 32))
    (r : NodeDescriptor) : Prop :=
  r ∈ cons.relays ∧ r.passes requiredFlags excludeIds = true

theorem Passes.ne (h : Passes cons requiredFlags excludeIds r) :
    ∀ pk ∈ excludeIds, r.identityPk ≠ pk := by
  intro pk hpk heq
  have hpasses := h.2
  simp only [NodeDescriptor.passes, Bool.and_eq_true, Bool.not_eq_true', contains_eq_mem,
    decide_eq_false_iff_not] at hpasses
  exact hpasses.2 (heq ▸ hpk)

theorem Passes.exit (h : Passes cons (nodeFlagExit ||| nodeFlagRunning) excludeIds r) :
    has r.flags nodeFlagExit = true ∧ has r.flags nodeFlagBadexit = false := by
  have hpasses := h.2
  have hexit : has (nodeFlagExit ||| nodeFlagRunning) nodeFlagExit = true := by decide
  simp only [NodeDescriptor.passes, Bool.and_eq_true, beq_iff_eq, hexit, Bool.true_and,
    Bool.not_eq_true'] at hpasses
  exact ⟨has_of_and_eq hpasses.1.1.1 hexit, hpasses.1.1.2⟩

theorem passes_of_selectHop
    (h : selectHop cons geoip requiredFlags excludeIds selected draws = some (some r, rest)) :
    Passes cons requiredFlags excludeIds r := by
  unfold selectHop at h
  split at h
  · exact mem_of_selectDiverse h
  · exact mem_of_moorNodeSelectRelay h

theorem exists_selectHop_eq (geoip : Bool) (selected : List NodeDescriptor)
    (h : Passes cons requiredFlags excludeIds r) :
    ∃ ds, ∀ draws, selectHop cons geoip requiredFlags excludeIds selected (ds ++ draws)
      = some (some r, draws) := by
  cases geoip with
  | true =>
    exact exists_selectDiverse_eq h.1 h.2 10
  | false =>
    obtain ⟨d, hd⟩ := exists_moorNodeSelectRelay_eq h.1 h.2
    refine ⟨[d], fun draws => ?_⟩
    simp [selectHop, hd]

theorem moorNodeSelectRelay_eq_none
    (h : moorNodeSelectRelay cons requiredFlags excludeIds draws = some (none, rest)) :
    (∀ r, ¬Passes cons requiredFlags excludeIds r) ∧ rest = draws := by
  simp only [moorNodeSelectRelay] at h
  split at h
  next hempty =>
    refine ⟨fun r hr => ?_, (congrArg Prod.snd (Option.some_inj.mp h)).symm⟩
    rw [List.isEmpty_iff, filter_eq_nil_iff] at hempty
    exact hempty r hr.1 hr.2
  · obtain ⟨_, -, heq⟩ := Option.map_eq_some_iff.mp h
    cases heq

theorem moorNodeSelectRelay_of_none (h : ∀ r, ¬Passes cons requiredFlags excludeIds r)
    (draws : List UInt64) :
    moorNodeSelectRelay cons requiredFlags excludeIds draws = some (none, draws) := by
  have hempty : (cons.relays.filter (·.passes requiredFlags excludeIds)).isEmpty = true := by
    rw [List.isEmpty_iff, filter_eq_nil_iff]
    exact fun r hr hpasses => h r ⟨hr, hpasses⟩
  simp [moorNodeSelectRelay, hempty]

/-- The guards a builder can come to: the one that is named, or any with the flag, or any at all
where there is none and the builder takes it. -/
def GuardFits (cons : WeightedConsensus) (ourPk : Field 32) (anyGuard : Bool) :
    Option NodeDescriptor → NodeDescriptor → Prop
  | some named, guard => guard = named
  | none, guard =>
    Passes cons (nodeFlagGuard ||| nodeFlagRunning) [ourPk] guard ∨
      (anyGuard = true ∧ (∀ r, ¬Passes cons (nodeFlagGuard ||| nodeFlagRunning) [ourPk] r) ∧
        Passes cons nodeFlagRunning [ourPk] guard)

variable {named : Option NodeDescriptor}

theorem guardFits_of_chooseGuard
    (h : chooseGuard cons ourPk anyGuard named draws = some (some guard, rest)) :
    GuardFits cons ourPk anyGuard named guard := by
  cases named with
  | some named =>
    simp only [chooseGuard, Option.some_inj, Prod.mk.injEq] at h
    exact h.1.symm
  | none =>
    simp only [chooseGuard] at h
    split at h
    next draws' hnone =>
      cases anyGuard with
      | true =>
        exact .inr ⟨rfl, (moorNodeSelectRelay_eq_none hnone).1, mem_of_moorNodeSelectRelay h⟩
      | false =>
        exact nomatch congrArg Prod.fst (Option.some_inj.mp h)
    · exact .inl (mem_of_moorNodeSelectRelay h)

theorem exists_chooseGuard_eq (h : GuardFits cons ourPk anyGuard named guard) :
    ∃ ds, ∀ draws, chooseGuard cons ourPk anyGuard named (ds ++ draws)
      = some (some guard, draws) := by
  cases named with
  | some named =>
    refine ⟨[], fun draws => ?_⟩
    rw [chooseGuard, nil_append, h]
  | none =>
    rcases h with hguard | ⟨rfl, hnone, hany⟩
    · obtain ⟨d, hd⟩ := exists_moorNodeSelectRelay_eq hguard.1 hguard.2
      refine ⟨[d], fun draws => ?_⟩
      rw [singleton_append, chooseGuard]
      simp only [hd]
    · obtain ⟨d, hd⟩ := exists_moorNodeSelectRelay_eq hany.1 hany.2
      refine ⟨[d], fun draws => ?_⟩
      rw [singleton_append, chooseGuard]
      simp [moorNodeSelectRelay_of_none hnone, hd]

/-- The exit and the middle that pass the filters after a guard. -/
structure RestFits (cons : WeightedConsensus) (ourPk : Field 32) (p : SelectedPath) : Prop where
  exit : Passes cons (nodeFlagExit ||| nodeFlagRunning) [ourPk, p.guard.identityPk] p.exit
  middle : Passes cons nodeFlagRunning [ourPk, p.guard.identityPk, p.exit.identityPk] p.middle

theorem fits_of_selectPath (h : selectPath cons ourPk anyGuard geoip named draws = some p) :
    GuardFits cons ourPk anyGuard named p.guard ∧ RestFits cons ourPk p := by
  simp only [selectPath] at h
  split at h
  next guard draws₁ hguard =>
    simp only [selectRest] at h
    split at h
    next exit draws₂ hexit =>
      split at h
      next middle rest hmiddle =>
        cases h
        exact ⟨guardFits_of_chooseGuard hguard, passes_of_selectHop hexit,
          passes_of_selectHop hmiddle⟩
      · cases h
    · cases h
  · cases h

theorem exists_selectPath_eq (geoip : Bool) (hguard : GuardFits cons ourPk anyGuard named p.guard)
    (hrest : RestFits cons ourPk p) :
    ∃ draws, selectPath cons ourPk anyGuard geoip named draws = some p := by
  obtain ⟨dg, hdg⟩ := exists_chooseGuard_eq hguard
  obtain ⟨de, hde⟩ := exists_selectHop_eq geoip [p.guard] hrest.exit
  obtain ⟨dm, hdm⟩ := exists_selectHop_eq geoip [p.guard, p.exit] hrest.middle
  refine ⟨dg ++ (de ++ (dm ++ [])), ?_⟩
  simp only [selectPath, hdg, selectRest, hde, hdm]

end Selection

/-! ### When the constraints hold -/

/-- The paths a builder admits: its guard is one it can come to, and the other relays pass the
filters. -/
def PathBuilder.Admits (cons : WeightedConsensus) (ourPk : Field 32) (state : GuardState)
    (rrIdx : ℕ) (p : SelectedPath) : PathBuilder → Prop
  | async now =>
    moorConsensusIsValid now cons = true ∧
      GuardFits cons ourPk false (guardOfState cons state rrIdx) p.guard ∧ RestFits cons ourPk p
  | sync entryNode _ =>
    GuardFits cons ourPk true
        ((forcedGuard cons entryNode).or (guardOfState cons state rrIdx)) p.guard ∧
      RestFits cons ourPk p

/-- A path is built for some draws exactly when it is admitted. -/
theorem PathBuilder.exists_build_eq_iff (B : PathBuilder) (cons : WeightedConsensus)
    (ourPk : Field 32) (state : GuardState) (rrIdx : ℕ) (p : SelectedPath) :
    (∃ connected draws, B.build cons ourPk state rrIdx connected draws = some p) ↔
      B.Admits cons ourPk state rrIdx p := by
  cases B with
  | async now =>
    constructor
    · rintro ⟨connected, draws, h⟩
      obtain ⟨hboth, hpath⟩ := Option.ite_none_right_eq_some.mp h
      exact ⟨(Bool.and_eq_true_iff.mp hboth).1, fits_of_selectPath hpath⟩
    rintro ⟨hvalid, hguard, hrest⟩
    obtain ⟨draws, hdraws⟩ := exists_selectPath_eq false hguard hrest
    refine ⟨true, draws, ?_⟩
    rw [PathBuilder.build, moorCircuitBuildAsync, hvalid, Bool.true_and, if_pos rfl, hdraws]
  | sync entryNode geoip =>
    constructor
    · rintro ⟨connected, draws, h⟩
      exact fits_of_selectPath (Option.ite_none_right_eq_some.mp h).2
    rintro ⟨hguard, hrest⟩
    obtain ⟨draws, hdraws⟩ := exists_selectPath_eq geoip hguard hrest
    refine ⟨true, draws, ?_⟩
    rw [PathBuilder.build, moorCircuitBuild, if_pos rfl, hdraws]

theorem PathBuilder.Admits.rest {B : PathBuilder} {state : GuardState} {rrIdx : ℕ}
    (h : B.Admits cons ourPk state rrIdx p) : RestFits cons ourPk p := by
  cases B with
  | async now => exact h.2.2
  | sync entryNode geoip => exact h.2

/-- The filters see to everything but the guard. -/
theorem RestFits.proper (h : RestFits cons ourPk p) (hguard : p.guard.identityPk ≠ ourPk) :
    p.Proper ourPk where
  guard_middle := (h.middle.ne _ (by simp)).symm
  guard_exit := (h.exit.ne _ (by simp)).symm
  middle_exit := h.middle.ne _ (by simp)
  guard_own := hguard
  middle_own := h.middle.ne _ (by simp)
  exit_own := h.exit.ne _ (by simp)
  exit_flag := h.exit.exit.1
  exit_good := h.exit.exit.2

/-- For both builders, every consensus and every guard state: the constraints hold for every circuit
that is built, whatever is drawn, exactly when no path that the filters admit starts at the client's
own relay or has two relays of one family that another choice would avoid. -/
theorem path_constraints_iff (B : PathBuilder) (cons : WeightedConsensus) (ourPk : Field 32)
    (state : GuardState) (rrIdx : ℕ) :
    (∀ connected draws p, B.build cons ourPk state rrIdx connected draws = some p →
        p.Proper ourPk ∧ (SelectedPath.Avoidable cons ourPk → p.familyFree = true)) ↔
      ∀ p, B.Admits cons ourPk state rrIdx p →
        p.guard.identityPk ≠ ourPk ∧ (SelectedPath.Avoidable cons ourPk → p.familyFree = true) := by
  constructor
  · intro h p hadmits
    obtain ⟨connected, draws, hbuild⟩ :=
      (B.exists_build_eq_iff cons ourPk state rrIdx p).mpr hadmits
    obtain ⟨hproper, hfamily⟩ := h connected draws p hbuild
    exact ⟨hproper.guard_own, hfamily⟩
  · intro h connected draws p hbuild
    have hadmits := (B.exists_build_eq_iff cons ourPk state rrIdx p).mp ⟨connected, draws, hbuild⟩
    obtain ⟨hguard, hfamily⟩ := h p hadmits
    exact ⟨hadmits.rest.proper hguard, hfamily⟩

/-- A guard and an exit of one family, another exit, and a relay for the middle. -/
def sampleFamilies : WeightedConsensus :=
  sampleWeighted
    [sampleNode 1 (nodeFlagGuard ||| nodeFlagRunning) 7,
      sampleNode 2 (nodeFlagExit ||| nodeFlagRunning) 7,
      sampleNode 3 (nodeFlagExit ||| nodeFlagRunning) 0, sampleNode 4 nodeFlagRunning 0]
    (by decide)

/-- The asynchronous builder takes the guard and the exit of one family, although the other exit
would avoid it. -/
theorem path_of_one_family :
    (∃ p, (PathBuilder.async 6).build sampleFamilies (Arr.replicate 32 9) .zero 0 true [0, 0, 1000]
        = some p ∧ moorNodeSameFamily p.guard p.exit = true) ∧
      SelectedPath.Avoidable sampleFamilies (Arr.replicate 32 9) := by
  refine ⟨by decide +kernel, ⟨sampleNode 1 (nodeFlagGuard ||| nodeFlagRunning) 7,
    sampleNode 4 nodeFlagRunning 0, sampleNode 3 (nodeFlagExit ||| nodeFlagRunning) 0⟩, ?_, ?_,
    by decide +kernel⟩
  · simp only [forall_mem_cons, sampleFamilies, sampleWeighted]
    refine ⟨⟨by simp, by decide⟩, ⟨by simp, by decide⟩, ⟨by simp, by decide⟩, by simp⟩
  · constructor <;> decide +kernel

end Moor
