import Moor.Circuit.Guard

/-!
# Guards that path-bias detection disabled

A client over its whole life: it samples guards, marks them reachable or not, checks them for path
bias, lets them expire, and saves its state and loads it again. Beside the state the model keeps the
identities of the guards that were disabled and have not expired since.

A disabled guard is left out of the primary guards and is marked as not reachable, which keeps it
from being selected. It comes back when a circuit over it succeeds after all, since the search for
any guard that is reachable does not look at the mark, and when the state is loaded from a file,
which has no room for the mark.

## Main results

* `disabled_guard_not_selected`: a disabled guard is not selected while there is another.
-/

namespace Moor

open Codec Option GuardState Bool
open List hiding cons

/-- A client. With the file goes which guards were disabled when it was written. -/
structure GuardClient where
  state : GuardState
  rrIdx : ℕ
  file : Option (Bytes × List (Field 32))
  disabled : List (Field 32)

namespace GuardClient

def init : GuardClient := ⟨.zero, 0, none, []⟩

/-- Only guards that are sampled count as disabled. -/
def forget (ids : List (Field 32)) (c : GuardClient) : GuardClient :=
  { c with
    disabled := ids.filter fun pk => (c.state.sampled.map (·.identityPk)).contains pk }

/-- The operations on the guards. -/
inductive Op
  | sample (cons : WeightedConsensus) (now : UInt64) (draws : List UInt64)
  | markReachable (pk : Field 32) (now : UInt64)
  | markUnreachable (pk : Field 32) (now : UInt64)
  | updatePrimary
  | countBuildAttempt (pk : Field 32)
  | countBuildSuccess (pk : Field 32)
  | countUseAttempt (pk : Field 32)
  | countUseSuccess (pk : Field 32)
  | checkAll
  | expire (now : UInt64)
  | save
  | load
  | select

def newlyDisabled (s : GuardState) : List (Field 32) :=
  (s.sampled.filter fun e => !e.pbDisabled && e.check.pbDisabled).map (·.identityPk)

def step (c : GuardClient) : Op → Option GuardClient
  | .sample cons now draws =>
    (moorGuardSample cons now draws c.state).map fun s => { c with state := s }
  | .markReachable pk now => some { c with state := moorGuardMarkReachable pk now c.state }
  | .markUnreachable pk now => some { c with state := moorGuardMarkUnreachable pk now c.state }
  | .updatePrimary => some { c with state := moorGuardUpdatePrimary c.state }
  | .countBuildAttempt pk => some { c with state := moorPathbiasCountBuildAttempt pk c.state }
  | .countBuildSuccess pk => some { c with state := moorPathbiasCountBuildSuccess pk c.state }
  | .countUseAttempt pk => some { c with state := moorPathbiasCountUseAttempt pk c.state }
  | .countUseSuccess pk => some { c with state := moorPathbiasCountUseSuccess pk c.state }
  | .checkAll =>
    some { c with
      state := moorPathbiasCheckAll c.state
      disabled := c.disabled ++ newlyDisabled c.state }
  | .expire now => some ({ c with state := moorGuardExpire now c.state }.forget c.disabled)
  | .save => some { c with file := some (moorGuardSave c.state, c.disabled) }
  | .load =>
    match c.file with
    | none => some c
    | some (bytes, disabled) =>
      some ({ c with state := moorGuardLoad (some bytes) c.state }.forget (disabled ++ c.disabled))
  | .select => some { c with rrIdx := (moorGuardSelect c.state c.rrIdx).2 }

/-- No circuit over a disabled guard is built, the state is not loaded while a guard is disabled or
from a file that was written then, a check has primary guards to replace, and guards are sampled
into slots that no disabled guard has left and while there are primary guards or nothing is
disabled. -/
def keepsExcluded (c : GuardClient) : Op → Bool
  | .sample _ _ _ =>
    c.state.unused.all (fun e => !e.pbDisabled) &&
      (!c.state.primaryIndices.isEmpty || c.state.sampled.all fun e => !e.pbDisabled)
  | .markReachable pk _ => !c.disabled.contains pk
  | .checkAll => !c.state.primaryIndices.isEmpty || c.state.sampled.all GuardEntry.pbDisabled
  | .load => c.file.all fun file => file.2.isEmpty && c.disabled.isEmpty
  | _ => true

/-! ### The invariant -/

/-- The guards and the primary ones: the mark says who was disabled, a disabled guard is neither
reachable nor primary, and there is a primary guard unless all guards are alike. -/
structure Excluded (disabled : List (Field 32)) (s : GuardState) : Prop where
  known : ∀ pk ∈ disabled, pk ∈ s.sampled.map (·.identityPk)
  marked : ∀ e ∈ s.sampled, e.pbDisabled = true ↔ e.identityPk ∈ disabled
  unreachable : ∀ e ∈ s.sampled, e.pbDisabled = true → e.isReachable = false
  primary : ∀ idx ∈ s.primaryIndices, s.has (fun e => !e.pbDisabled) idx = true
  alike : s.primaryIndices = [] →
    (∀ e ∈ s.sampled, e.pbDisabled = false) ∨ ∀ e ∈ s.sampled, e.pbDisabled = true

/-- The guards are well-formed, here and in the file. -/
structure Kept (c : GuardClient) : Prop where
  wellFormed : c.state.WellFormed
  file : ∀ file, c.file = some file → ∃ s : GuardState, s.WellFormed ∧ file.1 = moorGuardSave s

structure Inv (c : GuardClient) : Prop extends Kept c where
  excluded : Excluded c.disabled c.state

theorem inv_init : Inv init where
  wellFormed := GuardState.wellFormed_zero
  excluded := by
    refine ⟨?_, ?_, ?_, ?_, fun _ => .inl ?_⟩ <;> exact fun _ h => nomatch h
  file _ h := nomatch h

section Excluded

variable {disabled : List (Field 32)} {s : GuardState}

/-- Whoever the primary guards were, the new ones are as they should be. -/
theorem Excluded.updatePrimary (hknown : ∀ pk ∈ disabled, pk ∈ s.sampled.map (·.identityPk))
    (hmarked : ∀ e ∈ s.sampled, e.pbDisabled = true ↔ e.identityPk ∈ disabled)
    (hunreachable : ∀ e ∈ s.sampled, e.pbDisabled = true → e.isReachable = false) :
    Excluded disabled (moorGuardUpdatePrimary s) where
  known := hknown
  marked := hmarked
  unreachable := hunreachable
  primary := GuardState.has_of_mem_updatePrimary
  alike hnil := by
    refine .inr fun e he => ?_
    by_contra hdisabled
    exact updatePrimary_ne_nil he (eq_false_iff.mpr hdisabled) hnil

variable {pk : Field 32} {f : GuardEntry → GuardEntry}

/-- A count does not change who is selected. -/
theorem Excluded.count (h : Excluded disabled s) (hid : ∀ e, (f e).identityPk = e.identityPk)
    (hflag : ∀ e, (f e).pbDisabled = e.pbDisabled)
    (hreach : ∀ e, (f e).isReachable = e.isReachable) : Excluded disabled (s.modify pk f) where
  known := by
    rw [map_modify fun e _ _ => hid e]
    exact h.known
  marked := forall_mem_modify h.marked fun e _ he => by rwa [hflag, hid]
  unreachable := forall_mem_modify h.unreachable fun e _ he => by rwa [hflag, hreach]
  primary idx hidx := by
    rw [has_congr (map_modify fun e _ _ => by rw [hflag]) idx]
    exact h.primary idx hidx
  alike hnil :=
    (h.alike hnil).imp
      (fun hall => forall_mem_modify hall fun e _ he => by rwa [hflag])
      fun hall => forall_mem_modify hall fun e _ he => by rwa [hflag]

/-- A mark of a guard, after which the primary guards are chosen anew. -/
theorem Excluded.mark (h : Excluded disabled s) (confirmed : List ℕ)
    (hid : ∀ e, (f e).identityPk = e.identityPk) (hflag : ∀ e, (f e).pbDisabled = e.pbDisabled)
    (hreach : pk ∉ disabled ∨ ∀ e, (f e).isReachable = false) :
    Excluded disabled
      (moorGuardUpdatePrimary { s.modify pk f with confirmedIndices := confirmed }) := by
  refine Excluded.updatePrimary ?_ ?_ ?_
  · rw [map_modify fun e _ _ => hid e]
    exact h.known
  · exact forall_mem_modify h.marked fun e _ he => by rwa [hflag, hid]
  have hboth : ∀ e ∈ s.sampled, (e.pbDisabled = true ↔ e.identityPk ∈ disabled) ∧
      (e.pbDisabled = true → e.isReachable = false) :=
    fun e he => ⟨h.marked e he, h.unreachable e he⟩
  refine fun e he => (forall_mem_modify hboth ?_ e he).2
  intro e hpk he
  rw [hflag, hid]
  refine ⟨he.1, fun hdisabled => ?_⟩
  rcases hreach with hpk' | hreach
  · exact absurd (he.1.mp hdisabled) (hpk ▸ hpk')
  · exact hreach e

/-- A check leaves a guard that is disabled as it is, and takes one that it disables off the
network. -/
theorem check_spec (e : GuardEntry) :
    e.check.identityPk = e.identityPk ∧ (e.pbDisabled = true → e.check = e) ∧
      (e.pbDisabled = false → e.check.pbDisabled = true → e.check.isReachable = false) := by
  unfold GuardEntry.check
  split
  next hskip =>
    refine ⟨rfl, fun _ => rfl, fun henabled hdisabled => ?_⟩
    rw [henabled] at hdisabled
    cases hdisabled
  next hchecked =>
    have henabled : e.pbDisabled = false := eq_false_iff.mpr fun h => hchecked (.inl h)
    split_ifs <;> simp [GuardEntry.disable, henabled]

theorem map_identityPk_check (entries : List GuardEntry) :
    (entries.map GuardEntry.check).map (·.identityPk)
      = entries.map (·.identityPk) := by
  rw [List.map_map]
  exact map_congr_left fun e _ => (check_spec e).1

variable (h : Excluded disabled s)
include h

/-- The mark is set on those that a check disables, and on no other. -/
theorem Excluded.marked_check (hnodup : (s.sampled.map (·.identityPk)).Nodup) :
    ∀ e ∈ s.sampled.map GuardEntry.check,
      e.pbDisabled = true ↔ e.identityPk ∈ disabled ++ newlyDisabled s := by
  intro e' he'
  obtain ⟨e, he, rfl⟩ := mem_map.mp he'
  rw [(check_spec e).1, mem_append]
  constructor
  · intro hdisabled
    by_cases hbefore : e.pbDisabled = true
    · exact .inl ((h.marked e he).mp hbefore)
    · refine .inr (mem_map_of_mem (mem_filter.mpr ⟨he, ?_⟩))
      simp [hbefore, hdisabled]
  rintro (hold | hnew)
  · have hbefore := (h.marked e he).mpr hold
    rwa [(check_spec e).2.1 hbefore]
  obtain ⟨e', he', hsame⟩ := mem_map.mp hnew
  have hboth := mem_filter.mp he'
  rw [← inj_on_of_nodup_map hnodup hboth.1 he hsame]
  exact (and_eq_true_iff.mp hboth.2).2

theorem Excluded.checkAll (hnodup : (s.sampled.map (·.identityPk)).Nodup)
    (hprimary : s.primaryIndices = [] → ∀ e ∈ s.sampled, e.pbDisabled = true) :
    Excluded (disabled ++ newlyDisabled s) (moorPathbiasCheckAll s) := by
  have hknown : ∀ pk ∈ disabled ++ newlyDisabled s,
      pk ∈ (s.sampled.map GuardEntry.check).map (·.identityPk) := by
    intro pk hpk
    rw [map_identityPk_check]
    rcases mem_append.mp hpk with hold | hnew
    · exact h.known pk hold
    · exact (filter_sublist.map _).subset hnew
  have hunreachable : ∀ e ∈ s.sampled.map GuardEntry.check,
      e.pbDisabled = true → e.isReachable = false := by
    intro e' he' hdisabled
    obtain ⟨e, he, rfl⟩ := mem_map.mp he'
    by_cases hbefore : e.pbDisabled = true
    · rw [(check_spec e).2.1 hbefore]
      exact h.unreachable e he hbefore
    · exact (check_spec e).2.2 (eq_false_iff.mpr hbefore) hdisabled
  simp only [moorPathbiasCheckAll]
  split
  · exact Excluded.updatePrimary hknown (h.marked_check hnodup) hunreachable
  next hnone =>
    refine ⟨hknown, h.marked_check hnodup, hunreachable, ?_, ?_⟩
    · intro idx hidx
      -- The guard is there, and it was not one that was disabled.
      obtain ⟨e, he, -⟩ := has_iff.mp (h.primary idx hidx)
      have hget : (s.sampled.map GuardEntry.check)[idx]? = some e.check := by
        simp [he]
      refine has_iff.mpr ⟨e.check, hget, ?_⟩
      rw [List.any_eq_true, not_exists] at hnone
      by_contra hdisabled
      refine hnone idx ⟨hidx, has_iff.mpr ⟨e.check, hget, ?_⟩⟩
      simpa using hdisabled
    · intro hnil
      refine .inr fun e' he' => ?_
      obtain ⟨e, he, rfl⟩ := mem_map.mp he'
      have hbefore := hprimary hnil e he
      rwa [(check_spec e).2.1 hbefore]

theorem Excluded.expire (now : UInt64) :
    Excluded (disabled.filter fun pk =>
      ((moorGuardExpire now s).sampled.map (·.identityPk)).contains pk)
      (moorGuardExpire now s) := by
  refine Excluded.updatePrimary ?_ ?_ ?_
  · intro pk hpk
    exact contains_iff_mem.mp (mem_filter.mp hpk).2
  · intro e he
    rw [h.marked e (mem_of_mem_filter he), mem_filter, contains_iff_mem]
    exact (and_iff_left (mem_map_of_mem he)).symm
  · exact fun e he => h.unreachable e (mem_of_mem_filter he)

theorem Excluded.sample {new unused : List GuardEntry}
    (hnodup : ((s.sampled ++ new).map (·.identityPk)).Nodup)
    (hnew : ∀ e ∈ new, e.pbDisabled = false)
    (hprimary : s.primaryIndices = [] → ∀ e ∈ s.sampled, e.pbDisabled = false) :
    Excluded disabled { s with sampled := s.sampled ++ new, unused := unused } where
  known pk hpk := by
    rw [map_append]
    exact mem_append_left _ (h.known pk hpk)
  marked e he := by
    rcases mem_append.mp he with he | he
    · exact h.marked e he
    rw [map_append] at hnodup
    have hdisjoint := disjoint_of_nodup_append hnodup
    simp only [hnew e he, false_eq_true, false_iff]
    exact fun hpk => hdisjoint (h.known _ hpk) (mem_map_of_mem he)
  unreachable := by
    refine forall_mem_append.mpr ⟨h.unreachable, fun e he => ?_⟩
    rw [hnew e he]
    intro hfalse
    cases hfalse
  primary idx hidx := by
    obtain ⟨e, he, hflag⟩ := has_iff.mp (h.primary idx hidx)
    have hlt := (List.getElem?_eq_some_iff.mp he).1
    exact has_iff.mpr ⟨e, (getElem?_append_left hlt).trans he, hflag⟩
  alike hnil := .inl (forall_mem_append.mpr ⟨hprimary hnil, hnew⟩)

omit h

/-- Nothing is disabled in a state that is loaded. -/
theorem excluded_reloaded (h : s.WellFormed) : Excluded [] s.reloaded where
  known _ hpk := absurd hpk not_mem_nil
  marked e' he' := by
    obtain ⟨e, -, rfl⟩ := mem_map.mp he'
    simp [GuardEntry.reloaded]
  unreachable e' he' := by
    obtain ⟨e, -, rfl⟩ := mem_map.mp he'
    intro hfalse
    cases hfalse
  primary idx hidx := by
    have hlt := h.primary_lt idx hidx
    refine has_iff.mpr ⟨s.sampled[idx].reloaded, ?_, rfl⟩
    simp [reloaded, getElem?_eq_getElem hlt]
  alike _ := by
    refine .inl fun e' he' => ?_
    obtain ⟨e, -, rfl⟩ := mem_map.mp he'
    rfl

/-- A guard that is disabled is selected only when all are. -/
theorem Excluded.select (h : Excluded disabled s) {rrIdx : ℕ} {g : GuardEntry}
    (hselect : (moorGuardSelect s rrIdx).1 = some g) (hg : g.identityPk ∈ disabled) :
    ∀ e ∈ s.sampled, e.identityPk ∈ disabled := by
  -- A guard that is reachable or primary is not disabled.
  have hreachable : ∀ e ∈ s.sampled, e.isReachable = true → e.identityPk ∉ disabled := by
    intro e he hreach hdisabled
    rw [h.unreachable e he ((h.marked e he).mpr hdisabled)] at hreach
    cases hreach
  have hprimary : ∀ idx ∈ s.primaryIndices, ∀ e, s.sampled[idx]? = some e →
      e.identityPk ∉ disabled := by
    intro idx hidx e he hdisabled
    obtain ⟨e', he', henabled⟩ := has_iff.mp (h.primary idx hidx)
    obtain rfl := some_inj.mp (he.symm.trans he')
    simp [(h.marked e (mem_of_getElem? he)).mpr hdisabled] at henabled
  simp only [moorGuardSelect] at hselect
  split at hselect
  next g' hfirst =>
    obtain ⟨idx, hidx, hsome⟩ := exists_of_findSome?_eq_some hfirst
    obtain rfl := some_inj.mp hselect
    exact absurd hg (hprimary idx hidx _ (filter_eq_some_iff.mp hsome).1)
  next =>
  split at hselect
  next g' hany =>
    obtain rfl := some_inj.mp hselect
    exact absurd hg (hreachable _ (mem_of_find?_eq_some hany) (find?_some hany))
  next =>
  split at hselect
  next hnil =>
    have hmem : g ∈ s.sampled := mem_of_mem_head? hselect
    rcases h.alike (isEmpty_iff.mp hnil) with hnone | hall
    · exact absurd ((h.marked g hmem).mpr hg) (by simp [hnone g hmem])
    · exact fun e he => (h.marked e he).mp (hall e he)
  next hne =>
    have hlt : rrIdx % s.primaryIndices.length < s.primaryIndices.length :=
      Nat.mod_lt _ (length_pos_iff.mpr fun hnil => hne (isEmpty_iff.mpr hnil))
    have hidx : s.primaryIndices.getD (rrIdx % s.primaryIndices.length) 0 ∈ s.primaryIndices := by
      rw [getD_eq_getElem _ _ hlt]
      exact getElem_mem hlt
    obtain ⟨e, he, -⟩ := has_iff.mp (h.primary _ hidx)
    rw [he] at hselect
    obtain rfl := some_inj.mp hselect
    exact absurd hg (hprimary _ hidx e he)

end Excluded

variable {c c' : GuardClient}

theorem wellFormed_checkAll {s : GuardState} (h : s.WellFormed) :
    (moorPathbiasCheckAll s).WellFormed := by
  have hwf : { s with sampled := s.sampled.map GuardEntry.check : GuardState }.WellFormed :=
    h.of_identities (map_identityPk_check _) rfl rfl rfl
  simp only [moorPathbiasCheckAll]
  split
  · exact hwf.toSound.updatePrimary
  · exact hwf

/-- Scaling the counts touches neither identity nor mark nor reachability. -/
theorem maybeScale_keeps (e : GuardEntry) :
    e.maybeScale.identityPk = e.identityPk ∧ e.maybeScale.pbDisabled = e.pbDisabled ∧
      e.maybeScale.isReachable = e.isReachable := by
  simp only [GuardEntry.maybeScale]
  split <;> exact ⟨rfl, rfl, rfl⟩

theorem Kept.step (h : Kept c) {op : Op} (hstep : c.step op = some c') : Kept c' := by
  have hcount : ∀ pk f, (∀ e : GuardEntry, (f e).identityPk = e.identityPk) →
      Kept { c with state := c.state.modify pk f } :=
    fun pk f hid =>
      ⟨h.wellFormed.of_identities (map_modify fun e _ _ => hid e) rfl rfl rfl, h.file⟩
  cases op with
  | sample cons now draws =>
    obtain ⟨s', hsample, rfl⟩ := map_eq_some_iff.mp hstep
    exact ⟨(moorGuardSample_spec h.wellFormed hsample).1, h.file⟩
  | load =>
    simp only [GuardClient.step] at hstep
    split at hstep <;> cases hstep
    · exact h
    next bytes disabled hfile =>
      obtain ⟨s, hs, rfl⟩ := h.file _ hfile
      refine ⟨?_, h.file⟩
      simpa only [forget, moorGuardLoad_save hs] using hs.reloaded
  | save =>
    cases hstep
    exact ⟨h.wellFormed, fun file heq => ⟨c.state, h.wellFormed, by rw [← some_inj.mp heq]⟩⟩
  | countBuildAttempt pk =>
    cases hstep
    exact hcount pk _ fun e => (maybeScale_keeps _).1
  | countBuildSuccess pk | countUseAttempt pk | countUseSuccess pk =>
    cases hstep
    exact hcount pk _ fun _ => rfl
  | markReachable pk now =>
    cases hstep
    exact ⟨h.wellFormed.markReachable pk now, h.file⟩
  | markUnreachable pk now =>
    cases hstep
    exact ⟨h.wellFormed.markUnreachable pk now, h.file⟩
  | updatePrimary =>
    cases hstep
    exact ⟨h.wellFormed.toSound.updatePrimary, h.file⟩
  | checkAll =>
    cases hstep
    exact ⟨wellFormed_checkAll h.wellFormed, h.file⟩
  | expire now =>
    cases hstep
    exact ⟨h.wellFormed.toSound.expire now, h.file⟩
  | select =>
    cases hstep
    exact ⟨h.wellFormed, h.file⟩

theorem Inv.step (h : Inv c) {op : Op} (hkeeps : c.keepsExcluded op = true)
    (hstep : c.step op = some c') : Inv c' := by
  refine ⟨h.toKept.step hstep, ?_⟩
  cases op with
  | sample cons now draws =>
    obtain ⟨s', hsample, rfl⟩ := map_eq_some_iff.mp hstep
    obtain ⟨hwf, new, unused, rfl, hslot⟩ := moorGuardSample_spec h.wellFormed hsample
    simp only [keepsExcluded, and_eq_true, List.all_eq_true, or_eq_true,
      not_eq_true', List.isEmpty_eq_false_iff] at hkeeps
    refine h.excluded.sample hwf.nodup ?_ fun hnil => hkeeps.2.resolve_left (· hnil)
    intro e he
    obtain ⟨slot, hmem, hflag⟩ := hslot e he
    rw [hflag]
    exact hkeeps.1 slot hmem
  | markReachable pk now =>
    cases hstep
    simp only [moorGuardMarkReachable]
    split
    · exact h.excluded
    · simp only [keepsExcluded, not_eq_true', contains_eq_mem, decide_eq_false_iff_not] at hkeeps
      exact h.excluded.mark _ (fun _ => rfl) (fun _ => rfl) (.inl hkeeps)
  | markUnreachable pk now =>
    cases hstep
    simp only [moorGuardMarkUnreachable]
    split
    · exact h.excluded
    · exact h.excluded.mark c.state.confirmedIndices (fun _ => rfl) (fun _ => rfl)
        (.inr fun _ => rfl)
  | updatePrimary =>
    cases hstep
    exact .updatePrimary h.excluded.known h.excluded.marked h.excluded.unreachable
  | countBuildAttempt pk =>
    cases hstep
    exact h.excluded.count (fun _ => (maybeScale_keeps _).1) (fun _ => (maybeScale_keeps _).2.1)
      fun _ => (maybeScale_keeps _).2.2
  | countBuildSuccess pk | countUseAttempt pk | countUseSuccess pk =>
    cases hstep
    exact h.excluded.count (fun _ => rfl) (fun _ => rfl) fun _ => rfl
  | checkAll =>
    cases hstep
    simp only [keepsExcluded, or_eq_true, not_eq_true', isEmpty_eq_false_iff,
      List.all_eq_true] at hkeeps
    exact h.excluded.checkAll h.wellFormed.nodup fun hnil => hkeeps.resolve_left (· hnil)
  | expire now =>
    cases hstep
    exact h.excluded.expire now
  | load =>
    simp only [GuardClient.step] at hstep
    split at hstep
    · cases hstep
      exact h.excluded
    next bytes disabled hfile =>
      cases hstep
      obtain ⟨s, hwf, rfl⟩ := h.file _ hfile
      simp only [keepsExcluded, hfile, all_some, and_eq_true, List.isEmpty_iff] at hkeeps
      obtain ⟨rfl, hdisabled⟩ := hkeeps
      simp only [moorGuardLoad_save hwf, forget, hdisabled, List.append_nil, List.filter_nil]
      exact excluded_reloaded hwf
  | save | select =>
    cases hstep
    exact h.excluded

end GuardClient

/-- Over every run of the operations that keep disabled guards excluded, a guard that path-bias
detection disabled is not selected while a guard is sampled that it did not disable. -/
theorem disabled_guard_not_selected {ops : List GuardClient.Op} {c : GuardClient}
    (hrun : Run.run GuardClient.step .init ops = some c)
    (hkeeps : Run.Along GuardClient.step (fun c op => c.keepsExcluded op = true) .init ops)
    {rrIdx : ℕ} {g e : GuardEntry} (hselect : (moorGuardSelect c.state rrIdx).1 = some g)
    (he : e ∈ c.state.sampled) (hother : e.identityPk ∉ c.disabled) :
    g.identityPk ∉ c.disabled := by
  have hinv : c.Inv :=
    Run.run_invariant (fun _ _ _ hs hkeeps hstep => hs.step hkeeps hstep) GuardClient.inv_init
      hkeeps hrun
  exact fun hg => hother (hinv.excluded.select hselect hg e he)

/-- Two guards are sampled, and path-bias detection disables the first. -/
def sampleDetection : List GuardClient.Op :=
  let flags := nodeFlagGuard ||| nodeFlagStable ||| nodeFlagRunning
  let cons := sampleWeighted [sampleNode 1 flags 0, sampleNode 2 flags 0] (by decide)
  [.sample cons 0 [0, 0], .updatePrimary] ++
    replicate 20 (.countBuildAttempt (Arr.replicate 32 1)) ++ [.checkAll]

/-- The guards that are disabled, all guards, and the one that is selected. -/
def GuardClient.summary (c : GuardClient) :
    List (Field 32) × List (Field 32) × Option (Field 32) :=
  (c.disabled, c.state.sampled.map (·.identityPk),
    (moorGuardSelect c.state c.rrIdx).1.map (·.identityPk))

/-- The other guard is selected. -/
theorem disabled_guard_not_selected_sample :
    ∃ c g, Run.run GuardClient.step .init sampleDetection = some c ∧
      c.disabled = [Arr.replicate 32 1] ∧ (moorGuardSelect c.state c.rrIdx).1 = some g ∧
      g.identityPk ∉ c.disabled := by
  obtain ⟨c, hrun, hdisabled, g, hselect, e, he, heq⟩ : ∃ c,
      Run.run GuardClient.step .init sampleDetection = some c ∧ c.disabled = [Arr.replicate 32 1] ∧
      ∃ g, (moorGuardSelect c.state c.rrIdx).1 = some g ∧
        ∃ e ∈ c.state.sampled, e.identityPk = Arr.replicate 32 2 := by
    decide +kernel
  refine ⟨c, g, hrun, hdisabled, hselect, ?_⟩
  refine disabled_guard_not_selected hrun (by decide +kernel) hselect he ?_
  rw [heq, hdisabled]
  decide

/-- When a circuit over the first guard succeeds after all and the second is not reachable, the
first is selected although it is disabled and the second is not. -/
theorem disabled_guard_selected :
    (Run.run GuardClient.step .init (sampleDetection ++
        [.markUnreachable (Arr.replicate 32 2) 1, .markReachable (Arr.replicate 32 1) 1])).map
        GuardClient.summary
      = some ([Arr.replicate 32 1], [Arr.replicate 32 1, Arr.replicate 32 2],
        some (Arr.replicate 32 1)) := by
  decide +kernel

/-- Over every run of the operations, saving and loading included, no guard is sampled twice, the
array keeps its slots, and the confirmed and the primary guards are bounded and are sampled. -/
theorem guards_wellFormed {ops : List GuardClient.Op} {c : GuardClient}
    (hrun : Run.run GuardClient.step .init ops = some c) : c.state.WellFormed :=
  (Run.run_invariant (P := fun _ _ => True) (fun _ _ _ h _ hstep => h.step hstep)
    GuardClient.inv_init.toKept (Run.along_of_forall (fun _ _ _ => trivial) _)
    hrun : c.Kept).wellFormed

theorem guards_wellFormed_sample :
    ∃ c, Run.run GuardClient.step .init (sampleDetection ++ [.save, .load]) = some c ∧
      c.state.sampled.length = 2 ∧ c.state.WellFormed :=
  Run.exists_some_and (by decide +kernel) fun _ => guards_wellFormed

end Moor
