import Moor.Directory.Authority

/-!
# The shared random value

The authorities commit to random values, reveal them, and derive a value for the epoch from all
reveals that they know. Each build of a consensus draws a new value, derives the shared one and
forgets the commitments.

The reveals are sorted so that the order in which they came does not matter. The comparison that is
given to the sort only tells whether two reveals are equal, and the sort leaves them as they came.

## Main results

* `srv_agreement_iff`: when two authorities agree, and when the builds of an epoch do.
-/

namespace Moor

open Codec List

/-! ### The protocol -/

/-- What an authority knows of the contribution of another one. -/
structure SrvCommitment where
  commit : Field 32
  reveal : Field 32
  identityPk : Field 32
  revealed : Bool
  deriving DecidableEq

/-- The commitments, at most one of each authority, and the values of this and the last period. -/
structure SrvState where
  srvCommits : List SrvCommitment
  srvCurrent : Field 32
  srvPrevious : Field 32
  srvCommits_le : srvCommits.length ≤ moorMaxDaAuthorities
  distinct : (srvCommits.map (·.identityPk)).Nodup

section Protocol

variable (C : Crypto) (identityPk : Field 32)

/-- The authority's own commitment to a random value. -/
def srvOwnCommitment (random : Field 32) : SrvCommitment :=
  ⟨C.hash random.val, random, identityPk, true⟩

/-- The commitments with that of the authority, in its old place if it had one. -/
def srvPutOwn (random : Field 32) (commits : List SrvCommitment) : List SrvCommitment :=
  match commits.findIdx? fun c => c.identityPk = identityPk with
  | some i => commits.modify i fun _ => srvOwnCommitment C identityPk random
  | none =>
    if commits.length ≥ moorMaxDaAuthorities then commits
    else commits ++ [srvOwnCommitment C identityPk random]

def SrvCommitment.withReveal (reveal : Field 32) (c : SrvCommitment) : SrvCommitment :=
  if C.hash reveal.val = c.commit then { c with reveal, revealed := true } else c

def srvPutReveal (pk reveal : Field 32) (commits : List SrvCommitment) : List SrvCommitment :=
  match commits.findIdx? fun c => c.identityPk = pk with
  | some i => commits.modify i (SrvCommitment.withReveal C reveal)
  | none => commits

variable {commits : List SrvCommitment} (pk reveal random : Field 32)

theorem length_srvPutOwn_le (h : commits.length ≤ moorMaxDaAuthorities) :
    (srvPutOwn C identityPk random commits).length ≤ moorMaxDaAuthorities := by
  rw [srvPutOwn]
  split
  · rwa [length_modify]
  split
  · exact h
  · rw [length_append, length_singleton]
    omega

theorem length_srvPutReveal (commits : List SrvCommitment) :
    (srvPutReveal C pk reveal commits).length = commits.length := by
  rw [srvPutReveal]
  split
  · rw [length_modify]
  · rfl

theorem map_modify_eq {α β : Type*} {f : α → β} {g : α → α} {l : List α} {i : ℕ}
    (h : ∀ a ∈ l[i]?, f (g a) = f a) : (l.modify i g).map f = l.map f := by
  refine ext_getElem? fun j => ?_
  rw [getElem?_map, getElem?_map, getElem?_modify]
  rcases eq_or_ne i j with rfl | hne
  · cases hl : l[i]? with
    | none => rfl
    | some a => simpa using h a hl
  · simp [hne]

theorem map_identityPk_srvPutReveal (commits : List SrvCommitment) :
    (srvPutReveal C pk reveal commits).map (·.identityPk) = commits.map (·.identityPk) := by
  rw [srvPutReveal]
  split
  · refine map_modify_eq fun c _ => ?_
    rw [SrvCommitment.withReveal]
    split <;> rfl
  · rfl

theorem nodup_srvPutOwn (h : (commits.map (·.identityPk)).Nodup) :
    ((srvPutOwn C identityPk random commits).map (·.identityPk)).Nodup := by
  rw [srvPutOwn]
  split
  · rename_i i hi
    obtain ⟨hlt, hpk, -⟩ := findIdx?_eq_some_iff_getElem.mp hi
    rw [map_modify_eq]
    · exact h
    · intro c hc
      obtain ⟨-, rfl⟩ := List.getElem?_eq_some_iff.mp hc
      exact (of_decide_eq_true hpk).symm
  · rename_i hnone
    split
    · exact h
    rw [map_append, nodup_append]
    refine ⟨h, nodup_singleton _, ?_⟩
    intro pk hpk pk' hpk'
    obtain ⟨c, hc, rfl⟩ := mem_map.mp hpk
    rw [mem_singleton.mp hpk']
    exact of_decide_eq_false (findIdx?_eq_none_iff.mp hnone c hc)

def moorDaSrvGenerateCommit (s : SrvState) : SrvState where
  srvCommits := srvPutOwn C identityPk random s.srvCommits
  srvCurrent := s.srvCurrent
  srvPrevious := s.srvPrevious
  srvCommits_le := length_srvPutOwn_le C identityPk random s.srvCommits_le
  distinct := nodup_srvPutOwn C identityPk random s.distinct

/-- The reveal of a peer, which must fit its commitment. -/
def moorDaSrvReveal (s : SrvState) : SrvState where
  srvCommits := srvPutReveal C pk reveal s.srvCommits
  srvCurrent := s.srvCurrent
  srvPrevious := s.srvPrevious
  srvCommits_le := (length_srvPutReveal C pk reveal s.srvCommits).trans_le s.srvCommits_le
  distinct := by
    rw [map_identityPk_srvPutReveal]
    exact s.distinct

def srvCmp (a b : SrvCommitment) : ℤ := C.sodiumMemcmp a.reveal b.reveal

/-- The revealed commitments after `qsort`, which merges sorted halves and takes the left entry
where it does not compare as greater. -/
def srvSorted (commits : List SrvCommitment) : List SrvCommitment :=
  (commits.filter (·.revealed)).mergeSort fun a b => decide (srvCmp C a b ≤ 0)

/-- The value of the period from the reveals, or a random one if there are none. -/
def moorDaSrvCompute (s : SrvState) : SrvState :=
  let sorted := srvSorted C s.srvCommits
  if sorted.length = 0 then
    { s with srvPrevious := s.srvCurrent, srvCurrent := random }
  else
    { srvCommits := []
      srvPrevious := s.srvCurrent
      srvCurrent := C.hash (sorted.flatMap (·.reveal.val))
      srvCommits_le := Nat.zero_le _
      distinct := List.nodup_nil }

/-- What a build does first: a commitment to a new value, and the value of the period. -/
def srvBuild (fallback : Field 32) (s : SrvState) : SrvState :=
  moorDaSrvCompute C fallback (moorDaSrvGenerateCommit C identityPk random s)

end Protocol

/-! ### What is hashed -/

/-- The reveals that are known, in the order of the table. -/
def SrvState.reveals (s : SrvState) : List (Field 32) :=
  (s.srvCommits.filter (·.revealed)).map (·.reveal)

def srvValue (C : Crypto) (reveals : List (Field 32)) : Field 32 :=
  C.hash (reveals.flatMap (·.val))

/-- No two entries compare as out of order, so that the sort changes nothing. -/
theorem srvSorted_eq (C : Crypto) (commits : List SrvCommitment) :
    srvSorted C commits = commits.filter (·.revealed) := by
  have hle : ∀ a b : SrvCommitment, decide (srvCmp C a b ≤ 0) = true := by
    intro a b
    rw [decide_eq_true_iff, srvCmp, C.sodiumMemcmp_eq]
    split <;> decide
  exact mergeSort_of_pairwise (pairwise_of_forall hle)

section Own

variable (C : Crypto) {identityPk : Field 32} {s : SrvState}

theorem moorDaSrvCompute_of_ne_nil (h : s.reveals ≠ []) (random : Field 32) :
    (moorDaSrvCompute C random s).srvCurrent = srvValue C s.reveals ∧
      (moorDaSrvCompute C random s).srvCommits = [] := by
  have hlen : ¬ (srvSorted C s.srvCommits).length = 0 := by
    rw [srvSorted_eq, length_eq_zero_iff]
    exact fun hnil => h (by simp [SrvState.reveals, hnil])
  have hreveals : s.reveals.flatMap (·.val) =
      (srvSorted C s.srvCommits).flatMap (·.reveal.val) := by
    rw [SrvState.reveals, flatMap_map, srvSorted_eq]
  rw [moorDaSrvCompute, if_neg hlen, srvValue, hreveals]
  exact ⟨rfl, rfl⟩

/-- The authority has a commitment, or there is room for one. -/
def SrvState.HasRoom (identityPk : Field 32) (s : SrvState) : Prop :=
  (∃ c ∈ s.srvCommits, c.identityPk = identityPk) ∨ s.srvCommits.length < moorMaxDaAuthorities

/-- The authority's commitment is new, all others stay. -/
theorem mem_srvPutOwn (h : s.HasRoom identityPk) (random : Field 32) (c : SrvCommitment) :
    c ∈ srvPutOwn C identityPk random s.srvCommits ↔
      c = srvOwnCommitment C identityPk random ∨
        (c ∈ s.srvCommits ∧ c.identityPk ≠ identityPk) := by
  rw [srvPutOwn]
  split
  · rename_i i hi
    obtain ⟨hlt, hpk, -⟩ := findIdx?_eq_some_iff_getElem.mp hi
    have hget := getElem?_eq_getElem hlt
    have hpk := of_decide_eq_true hpk
    constructor
    · intro hc
      rcases mem_of_mem_modify hc with ⟨_, -, rfl⟩ | ⟨j, hne, hj⟩
      · exact .inl rfl
      · refine .inr ⟨mem_of_getElem? hj, fun hown => hne ?_⟩
        exact eq_of_getElem?_of_nodup_map s.distinct hj hget (hown.trans hpk.symm)
    rintro (rfl | ⟨hc, hown⟩)
    · exact mem_of_getElem? (i := i) (by rw [getElem?_modify, hget]; simp)
    obtain ⟨j, hj⟩ := getElem?_of_mem hc
    have hne : i ≠ j := by
      rintro rfl
      exact hown (Option.some.inj (hj.symm.trans hget) ▸ hpk)
    exact mem_of_getElem? (i := j) (by rw [getElem?_modify, hj]; simp [hne])
  · rename_i hnone
    have hother : ∀ c ∈ s.srvCommits, c.identityPk ≠ identityPk := by
      simpa using findIdx?_eq_none_iff.mp hnone
    have hroom : ¬ s.srvCommits.length ≥ moorMaxDaAuthorities := by
      rcases h with ⟨c, hc, hpk⟩ | hlt
      · exact absurd hpk (hother c hc)
      · exact Nat.not_le.mpr hlt
    rw [if_neg hroom, mem_append, mem_singleton, or_comm]
    exact or_congr_right (and_iff_left_of_imp (hother c)).symm

theorem mem_reveals_generate (h : s.HasRoom identityPk) (random : Field 32) :
    random ∈ (moorDaSrvGenerateCommit C identityPk random s).reveals := by
  refine mem_map.mpr ⟨srvOwnCommitment C identityPk random, mem_filter.mpr ⟨?_, rfl⟩, rfl⟩
  exact (mem_srvPutOwn C h random _).mpr (.inl rfl)

/-- The new value is the only one that is known if and only if no other authority has revealed. -/
theorem reveals_generate_eq_iff (h : s.HasRoom identityPk) (random : Field 32) :
    (moorDaSrvGenerateCommit C identityPk random s).reveals = [random] ↔
      ∀ c ∈ s.srvCommits, c.revealed = true → c.identityPk = identityPk := by
  obtain ⟨known, hknown⟩ : ∃ known, known =
    (srvPutOwn C identityPk random s.srvCommits).filter (·.revealed) := ⟨_, rfl⟩
  have hreveals : (moorDaSrvGenerateCommit C identityPk random s).reveals =
      known.map (·.reveal) := by
    rw [hknown]
    rfl
  have hmem : ∀ c, c ∈ known ↔ (c = srvOwnCommitment C identityPk random ∨
      (c ∈ s.srvCommits ∧ c.identityPk ≠ identityPk)) ∧ c.revealed = true := by
    simp [hknown, mem_srvPutOwn C h]
  have hown : srvOwnCommitment C identityPk random ∈ known := (hmem _).mpr ⟨.inl rfl, rfl⟩
  rw [hreveals]
  constructor
  · intro hsingle c hc hrevealed
    by_contra hother
    have hlen : known.length = 1 := by
      rw [← length_map (·.reveal), hsingle, length_singleton]
    obtain ⟨c', rfl⟩ := length_eq_one_iff.mp hlen
    have hc' := mem_singleton.mp ((hmem c).mpr ⟨.inr ⟨hc, hother⟩, hrevealed⟩)
    rw [hc', ← mem_singleton.mp hown] at hother
    exact hother rfl
  intro honly
  have hall : ∀ c ∈ known, c = srvOwnCommitment C identityPk random := by
    intro c hc
    obtain ⟨rfl | ⟨hc, hother⟩, hrevealed⟩ := (hmem c).mp hc
    · rfl
    · exact absurd (honly c hc hrevealed) hother
  have hnodup : known.Nodup := by
    rw [hknown]
    exact (nodup_srvPutOwn C identityPk random s.distinct).of_map.filter _
  rw [eq_replicate_of_mem hall, nodup_replicate] at hnodup
  have hlen : known.length = 1 := by
    have hpos := length_pos_of_mem hown
    omega
  rw [eq_replicate_of_mem hall, hlen]
  rfl

end Own

/-! ### The builds of an authority -/

/-- The critical section builds a consensus. -/
def DaEvent.rebuilds (env : DaEnv) (s : DaState) : DaEvent → Bool
  | .publish .. | .build _ => true
  | .propagate desc time _ => (daAddRelay env time desc s.config.consensus.relays).isSome
  | .vote v _ _ => voteDiverges env v s
  | .votePq v _ _ => voteDiverges env v.toVote s
  | .sync .. | .importTrusted _ | .probed _ | .snapshot _ => false

def BuildInput.withSrv (srv : SrvState) (input : BuildInput) : BuildInput :=
  { input with srvCurrent := srv.srvCurrent, srvPrevious := srv.srvPrevious }

/-- The critical section with the values that it finds. -/
def DaEvent.withSrv (srv : SrvState) : DaEvent → DaEvent
  | .publish desc time input written => .publish desc time (input.withSrv srv) written
  | .propagate desc time input => .propagate desc time (input.withSrv srv)
  | .build input => .build (input.withSrv srv)
  | .vote v input written => .vote v (input.withSrv srv) written
  | .votePq v input written => .votePq v (input.withSrv srv) written
  | event => event

/-- An authority with its part in the protocol. -/
structure SrvDa where
  da : DaState
  srv : SrvState

/-- A critical section, with the random values that it draws if it builds a consensus: that of a
commitment, and the one to use without any reveals. -/
structure SrvEvent where
  event : DaEvent
  random : Field 32
  fallback : Field 32

/-- One critical section. A build takes the shared random values first. -/
def srvDaStep (env : DaEnv) (s : SrvDa) (e : SrvEvent) : SrvDa :=
  if e.event.rebuilds env s.da then
    let srv := srvBuild env.crypto env.signer.identityPk e.random e.fallback s.srv
    ⟨daStep env s.da (e.event.withSrv srv), srv⟩
  else ⟨daStep env s.da e.event, s.srv⟩

/-- The values that the consensuses of a run are built with. -/
def publishedSrv (env : DaEnv) : SrvDa → List SrvEvent → List (Field 32)
  | _, [] => []
  | s, e :: events =>
    let s' := srvDaStep env s e
    if e.event.rebuilds env s.da then
      s'.da.config.consensus.srvCurrent :: publishedSrv env s' events
    else publishedSrv env s' events

/-- The random values that the builds of a run draw. -/
def buildDraws (env : DaEnv) : SrvDa → List SrvEvent → List (Field 32)
  | _, [] => []
  | s, e :: events =>
    if e.event.rebuilds env s.da then e.random :: buildDraws env (srvDaStep env s e) events
    else buildDraws env (srvDaStep env s e) events

theorem srvCurrent_rebuild (env : DaEnv) (input : BuildInput) (s : DaState) :
    (s.rebuild env input).config.consensus.srvCurrent = input.srvCurrent :=
  (daSignConsensus_frame ..).2

theorem config_takeSnapshot (written : Bool) (s : DaState) :
    (s.takeSnapshot written).config = s.config := by
  rw [DaState.takeSnapshot]
  split <;> rfl

section

variable {env : DaEnv} {s : DaState}

theorem srvCurrent_daReceiveVote {vote : Vote} (h : voteDiverges env vote s = true)
    (input : BuildInput) (written : Bool) (merge : Bytes → DaState → DaState) :
    (daReceiveVote env vote input written merge s).config.consensus.srvCurrent =
      input.srvCurrent := by
  rw [voteDiverges, Bool.and_eq_true] at h
  rw [daReceiveVote, h.1, if_neg (by decide)]
  cases hbody : consensusBodyBuild s.config.consensus.toConsensus with
  | none =>
    rw [config_takeSnapshot, srvCurrent_rebuild]
  | some body =>
    have hdiffers := h.2
    rw [hbody] at hdiffers
    dsimp only
    rw [if_pos (of_decide_eq_true hdiffers), config_takeSnapshot, srvCurrent_rebuild]

/-- A build publishes the value that it finds. -/
theorem srvCurrent_daStep {e : DaEvent} (h : e.rebuilds env s = true) (srv : SrvState) :
    (daStep env s (e.withSrv srv)).config.consensus.srvCurrent = srv.srvCurrent := by
  cases e with
  | publish desc time input written =>
    rw [DaEvent.withSrv, daStep, config_takeSnapshot, srvCurrent_rebuild]
    rfl
  | propagate desc time input =>
    obtain ⟨relays, hadd⟩ := Option.isSome_iff_exists.mp h
    rw [DaEvent.withSrv, daStep]
    split
    · rw [srvCurrent_rebuild]
      rfl
    · rename_i hnone
      cases hnone.symm.trans hadd
  | build input => rw [DaEvent.withSrv, daStep, srvCurrent_rebuild]; rfl
  | vote vote input written | votePq vote input written => exact srvCurrent_daReceiveVote h _ _ _
  | sync | importTrusted | probed | snapshot => cases h

end

/-- The reveals behind the values of a run's builds: for the first one those that are known, with a
new one of the authority's own, and for each later one its own new one. -/
def buildReveals (env : DaEnv) (s : SrvDa) (events : List SrvEvent) : List (List (Field 32)) :=
  match buildDraws env s events with
  | [] => []
  | random :: draws =>
    (moorDaSrvGenerateCommit env.crypto env.signer.identityPk random s.srv).reveals ::
      draws.map fun random => [random]

section Runs

variable {env : DaEnv} {s : SrvDa} {e : SrvEvent}

theorem srvDaStep_of_rebuilds (h : e.event.rebuilds env s.da = true)
    (hroom : s.srv.HasRoom env.signer.identityPk) :
    (srvDaStep env s e).da.config.consensus.srvCurrent = srvValue env.crypto
        (moorDaSrvGenerateCommit env.crypto env.signer.identityPk e.random s.srv).reveals ∧
      (srvDaStep env s e).srv.srvCommits = [] := by
  have hcompute := moorDaSrvCompute_of_ne_nil env.crypto
    (ne_nil_of_mem (mem_reveals_generate env.crypto hroom e.random)) e.fallback
  rw [srvDaStep, if_pos h]
  exact ⟨(srvCurrent_daStep h _).trans hcompute.1, hcompute.2⟩

/-- After a build there are no commitments that a reveal could be for, so that a run need not say
what peers reveal between its builds. -/
theorem moorDaSrvReveal_after_build (h : e.event.rebuilds env s.da = true)
    (hroom : s.srv.HasRoom env.signer.identityPk) (pk reveal : Field 32) :
    moorDaSrvReveal env.crypto pk reveal (srvDaStep env s e).srv = (srvDaStep env s e).srv := by
  have hnil := (srvDaStep_of_rebuilds h hroom).2
  have hput : srvPutReveal env.crypto pk reveal (srvDaStep env s e).srv.srvCommits =
      (srvDaStep env s e).srv.srvCommits := by
    rw [hnil]
    rfl
  simp only [moorDaSrvReveal, hput]

theorem srv_srvDaStep_of_not (h : e.event.rebuilds env s.da = false) :
    (srvDaStep env s e).srv = s.srv := by
  rw [srvDaStep, h]
  rfl

/-- Without commitments each build has its own new value only. -/
theorem publishedSrv_of_nil (events : List SrvEvent) (h : s.srv.srvCommits = []) :
    publishedSrv env s events =
      (buildDraws env s events).map fun random => srvValue env.crypto [random] := by
  induction events generalizing s with
  | nil => rfl
  | cons e events ih =>
    rw [publishedSrv, buildDraws]
    cases hbuild : e.event.rebuilds env s.da with
    | false =>
      exact ih (by rw [srv_srvDaStep_of_not hbuild, h])
    | true =>
      have hroom : s.srv.HasRoom env.signer.identityPk := .inr (by rw [h]; decide)
      obtain ⟨hvalue, hnil⟩ := srvDaStep_of_rebuilds hbuild hroom
      have halone := (reveals_generate_eq_iff env.crypto hroom e.random).mpr (by simp [h])
      rw [if_pos rfl, if_pos rfl, map_cons, hvalue, halone, ih hnil]

theorem publishedSrv_eq (events : List SrvEvent) (hroom : s.srv.HasRoom env.signer.identityPk) :
    publishedSrv env s events = (buildReveals env s events).map (srvValue env.crypto) := by
  induction events generalizing s with
  | nil => rfl
  | cons e events ih =>
    rw [publishedSrv, buildReveals, buildDraws]
    cases hbuild : e.event.rebuilds env s.da with
    | false =>
      have hsrv := srv_srvDaStep_of_not hbuild
      simp [ih (hsrv ▸ hroom), buildReveals, hsrv]
    | true =>
      obtain ⟨hvalue, hnil⟩ := srvDaStep_of_rebuilds hbuild hroom
      rw [if_pos rfl, if_pos rfl]
      rw [map_cons, hvalue, publishedSrv_of_nil events hnil, map_map]
      rfl

end Runs

/-! ### Agreement -/

def AllSame {α : Type*} (l : List α) : Prop := ∀ a ∈ l, ∀ b ∈ l, a = b

theorem allSame_map_iff {α β : Type*} {f : α → β} {l : List α} (h : Set.InjOn f {a | a ∈ l}) :
    AllSame (l.map f) ↔ AllSame l := by
  simp only [AllSame, forall_mem_map]
  exact forall₂_congr fun a ha => forall₂_congr fun b hb => h.eq_iff ha hb

theorem allSame_cons_cons {α : Type*} {a b : α} {l : List α} :
    AllSame (a :: b :: l) ↔ a = b ∧ AllSame (b :: l) := by
  constructor
  · intro h
    exact ⟨h a (by simp) b (by simp),
      fun x hx y hy => h x (mem_cons_of_mem a hx) y (mem_cons_of_mem a hy)⟩
  · rintro ⟨rfl, h⟩
    simpa [AllSame] using h

theorem allSame_buildReveals_iff {env : DaEnv} {s : SrvDa}
    (hroom : s.srv.HasRoom env.signer.identityPk) (events : List SrvEvent) :
    AllSame (buildReveals env s events) ↔ (buildDraws env s events).length ≤ 1 ∨
      (∀ c ∈ s.srv.srvCommits, c.revealed = true → c.identityPk = env.signer.identityPk) ∧
        AllSame (buildDraws env s events) := by
  rw [buildReveals]
  match buildDraws env s events with
  | [] => simp [AllSame]
  | [random] => simp [AllSame]
  | random :: random' :: draws =>
    have hsingle : Function.Injective fun random : Field 32 => [random] :=
      fun a b hab => (cons.inj hab).1
    have hfirst : (moorDaSrvGenerateCommit env.crypto env.signer.identityPk random s.srv).reveals =
        [random'] ↔ (∀ c ∈ s.srv.srvCommits, c.revealed = true →
          c.identityPk = env.signer.identityPk) ∧ random = random' := by
      rw [← reveals_generate_eq_iff env.crypto hroom random]
      constructor
      · intro h
        have hmem := mem_reveals_generate env.crypto hroom random
        rw [h, mem_singleton] at hmem
        exact ⟨h.trans (by rw [hmem]), hmem⟩
      · rintro ⟨h, rfl⟩
        exact h
    have hrest : AllSame ([random'] :: draws.map fun random => [random]) ↔
        AllSame (random' :: draws) := allSame_map_iff (l := random' :: draws) hsingle.injOn
    have hmany : ¬ (random :: random' :: draws).length ≤ 1 := by simp
    dsimp only
    rw [map_cons, allSame_cons_cons, hrest, hfirst, allSame_cons_cons, or_iff_right hmany,
      and_assoc]

/-- The values agree exactly where the reveals do. Two authorities with the same commitments, of
which some are revealed, derive one value if and only if the reveals have come in the same order.
All consensuses that an authority builds in an epoch are built with one value if and only if it
builds at most one, or no other authority has revealed anything and it always draws the same value.
The hash does not collide on the reveals that it is applied to. -/
theorem srv_agreement_iff (C : Crypto) :
    (∀ s t : SrvState, s.srvCommits.Perm t.srvCommits →
      (∃ c ∈ s.srvCommits, c.revealed = true) →
      (srvValue C s.reveals = srvValue C t.reveals → s.reveals = t.reveals) → ∀ r r',
      ((moorDaSrvCompute C r s).srvCurrent = (moorDaSrvCompute C r' t).srvCurrent ↔
        s.reveals = t.reveals)) ∧
    (∀ (env : DaEnv) (s : SrvDa) (events : List SrvEvent), env.crypto = C →
      s.srv.HasRoom env.signer.identityPk →
      Set.InjOn (srvValue C) {reveals | reveals ∈ buildReveals env s events} →
      (AllSame (publishedSrv env s events) ↔ (buildDraws env s events).length ≤ 1 ∨
        (∀ c ∈ s.srv.srvCommits, c.revealed = true → c.identityPk = env.signer.identityPk) ∧
          AllSame (buildDraws env s events))) := by
  refine ⟨?_, ?_⟩
  · rintro s t hperm ⟨c, hc, hrevealed⟩ hcollide r r'
    have hs : s.reveals ≠ [] :=
      ne_nil_of_mem (mem_map_of_mem (mem_filter.mpr ⟨hc, hrevealed⟩))
    have ht : t.reveals ≠ [] :=
      ne_nil_of_mem (mem_map_of_mem (mem_filter.mpr ⟨hperm.subset hc, hrevealed⟩))
    rw [(moorDaSrvCompute_of_ne_nil C hs r).1, (moorDaSrvCompute_of_ne_nil C ht r').1]
    exact ⟨hcollide, congrArg _⟩
  · rintro env s events rfl hroom hcollide
    rw [publishedSrv_eq events hroom, allSame_map_iff hcollide,
      allSame_buildReveals_iff hroom events]

/-- The revealed commitment of an authority. -/
def sampleCommitment (b : UInt8) : SrvCommitment :=
  srvOwnCommitment Crypto.sample (Arr.replicate 32 b) (Arr.replicate 32 b)

/-- Two authorities have revealed, in the given order. -/
def sampleSrvState (a b : UInt8) (h : a ≠ b) : SrvState where
  srvCommits := [sampleCommitment a, sampleCommitment b]
  srvCurrent := Field.zero 32
  srvPrevious := Field.zero 32
  srvCommits_le := (by decide : 2 ≤ moorMaxDaAuthorities)
  distinct := by
    have hpk : Arr.replicate 32 a ≠ Arr.replicate 32 b :=
      fun hab => h (Arr.replicate_injective (by decide) hab)
    simpa [sampleCommitment, srvOwnCommitment] using hpk

/-- A build that draws a value. -/
def sampleBuild (b : UInt8) : SrvEvent := ⟨.build sampleInput, Arr.replicate 32 b, Field.zero 32⟩

theorem srv_agreement_iff_sample :
    let s := sampleSrvState 1 2 (by decide)
    let t := sampleSrvState 2 1 (by decide)
    ((moorDaSrvCompute Crypto.sample (Field.zero 32) s).srvCurrent =
      (moorDaSrvCompute Crypto.sample (Field.zero 32) t).srvCurrent ↔ s.reveals = t.reveals) ∧
    ¬ AllSame (publishedSrv sampleDaEnv ⟨DaState.init [], s⟩ [sampleBuild 3, sampleBuild 4]) := by
  intro s t
  have hcollide :
      ∀ a ∈ buildReveals sampleDaEnv ⟨DaState.init [], s⟩ [sampleBuild 3, sampleBuild 4],
      ∀ b ∈ buildReveals sampleDaEnv ⟨DaState.init [], s⟩ [sampleBuild 3, sampleBuild 4],
      srvValue sampleDaEnv.crypto a = srvValue sampleDaEnv.crypto b → a = b := by decide +kernel
  have hbuilds := (srv_agreement_iff sampleDaEnv.crypto).2 sampleDaEnv ⟨DaState.init [], s⟩
    [sampleBuild 3, sampleBuild 4] rfl (.inr (by decide)) fun a ha b hb => hcollide a ha b hb
  refine ⟨(srv_agreement_iff Crypto.sample).1 s t (.swap _ _ _) ⟨sampleCommitment 1, by decide, rfl⟩
    (by decide +kernel) _ _, fun hsame => ?_⟩
  rcases hbuilds.mp hsame with hone | ⟨hothers, -⟩
  · revert hone
    decide +kernel
  · revert hothers
    decide +kernel

/-- Two reveals give different values in their two orders, and two builds of one epoch give
different values. -/
theorem srv_values_differ :
    let s := sampleSrvState 1 2 (by decide)
    let t := sampleSrvState 2 1 (by decide)
    s.srvCommits.Perm t.srvCommits ∧
    (moorDaSrvCompute Crypto.sample (Field.zero 32) s).srvCurrent ≠
      (moorDaSrvCompute Crypto.sample (Field.zero 32) t).srvCurrent ∧
    ∃ v w, publishedSrv sampleDaEnv ⟨DaState.init [], s⟩ [sampleBuild 3, sampleBuild 4] = [v, w] ∧
      v ≠ w := by
  intro s t
  have hs := moorDaSrvCompute_of_ne_nil (s := s) Crypto.sample (by decide) (Field.zero 32)
  have ht := moorDaSrvCompute_of_ne_nil (s := t) Crypto.sample (by decide) (Field.zero 32)
  refine ⟨List.Perm.swap _ _ _, ?_, ?_⟩
  · rw [hs.1, ht.1]
    decide +kernel
  · rw [publishedSrv_eq _ (.inr (by decide))]
    exact ⟨_, _, rfl, by decide +kernel⟩

/-! ### Whose reveals a value is made of -/

/-- What an authority that began without commitments can have come to, with the values it drew for
its own, whatever reveals came in and in whatever order. -/
inductive SrvReached (C : Crypto) (identityPk : Field 32) : List (Field 32) → SrvState → Prop
  | start {srv} : srv.srvCommits = [] → SrvReached C identityPk [] srv
  | generate {drawn srv} (random) : SrvReached C identityPk drawn srv →
    SrvReached C identityPk (random :: drawn) (moorDaSrvGenerateCommit C identityPk random srv)
  | reveal {drawn srv} (pk reveal) : SrvReached C identityPk drawn srv →
    SrvReached C identityPk drawn (moorDaSrvReveal C pk reveal srv)
  | compute {drawn srv} (random) : SrvReached C identityPk drawn srv →
    SrvReached C identityPk drawn (moorDaSrvCompute C random srv)

section Reached

variable {C : Crypto} {identityPk : Field 32} {drawn : List (Field 32)} {srv : SrvState}

/-- There is at most one commitment. It is the authority's, to a value that it drew. -/
theorem SrvReached.commits (h : SrvReached C identityPk drawn srv) :
    srv.srvCommits = [] ∨ ∃ random ∈ drawn, ∃ reveal,
      srv.srvCommits = [⟨C.hash random.val, reveal, identityPk, true⟩] ∧
      C.hash reveal.val = C.hash random.val := by
  induction h with
  | start hnil => exact .inl hnil
  | generate random _ ih =>
    refine .inr ⟨random, mem_cons_self, random, ?_, rfl⟩
    rcases ih with hnil | ⟨_, _, _, hone, _⟩
    · simp [moorDaSrvGenerateCommit, srvPutOwn, srvOwnCommitment, hnil, moorMaxDaAuthorities]
    · simp [moorDaSrvGenerateCommit, srvPutOwn, srvOwnCommitment, hone]
  | reveal pk reveal _ ih =>
    rcases ih with hnil | ⟨random, hmem, reveal₀, hone, hopens⟩
    · exact .inl (by simp [moorDaSrvReveal, srvPutReveal, hnil])
    refine .inr ⟨random, hmem, ?_⟩
    by_cases hpk : identityPk = pk
    · by_cases hfits : C.hash reveal.val = C.hash random.val
      · refine ⟨reveal, ?_, hfits⟩
        simp [moorDaSrvReveal, srvPutReveal, hone, hpk, SrvCommitment.withReveal, hfits]
      · refine ⟨reveal₀, ?_, hopens⟩
        simp [moorDaSrvReveal, srvPutReveal, hone, hpk, SrvCommitment.withReveal, hfits]
    · exact ⟨reveal₀, by simp [moorDaSrvReveal, srvPutReveal, hone, hpk], hopens⟩
  | compute random _ ih =>
    rw [moorDaSrvCompute]
    split
    · exact ih
    · exact .inl rfl

/-- No peer contributes: the value of a period is a random one, or that of a single reveal that
opens the commitment of the authority to a value that it drew itself. -/
theorem srv_value_own (h : SrvReached C identityPk drawn srv) (fallback : Field 32) :
    srv.srvCommits = [] ∧ (moorDaSrvCompute C fallback srv).srvCurrent = fallback ∨
      ∃ random ∈ drawn, ∃ reveal : Field 32,
        srv.srvCommits = [⟨C.hash random.val, reveal, identityPk, true⟩] ∧
        C.hash reveal.val = C.hash random.val ∧
        (moorDaSrvCompute C fallback srv).srvCurrent = srvValue C [reveal] := by
  rcases h.commits with hnil | ⟨random, hmem, reveal, hone, hopens⟩
  · exact .inl ⟨hnil, by simp [moorDaSrvCompute, srvSorted_eq, hnil]⟩
  · refine .inr ⟨random, hmem, reveal, hone, hopens, ?_⟩
    simp [moorDaSrvCompute, srvSorted_eq, hone, srvValue]

end Reached

theorem srv_value_own_sample :
    let s := moorDaSrvGenerateCommit Crypto.sample (Arr.replicate 32 1) (Arr.replicate 32 7)
      ⟨[], Field.zero 32, Field.zero 32, Nat.zero_le _, nodup_nil⟩
    let t := moorDaSrvReveal Crypto.sample (Arr.replicate 32 2) (Arr.replicate 32 9) s
    t.srvCommits = [] ∧
        (moorDaSrvCompute Crypto.sample (Field.zero 32) t).srvCurrent = Field.zero 32 ∨
      ∃ random ∈ [Arr.replicate 32 7], ∃ reveal : Field 32,
        t.srvCommits = [⟨Crypto.sample.hash random.val, reveal, Arr.replicate 32 1, true⟩] ∧
        Crypto.sample.hash reveal.val = Crypto.sample.hash random.val ∧
        (moorDaSrvCompute Crypto.sample (Field.zero 32) t).srvCurrent =
          srvValue Crypto.sample [reveal] :=
  srv_value_own (.reveal _ _ (.generate _ (.start rfl))) _

end Moor
