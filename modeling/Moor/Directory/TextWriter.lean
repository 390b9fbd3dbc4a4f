import Moor.Directory.TextRelays

/-!
# What the serializer writes

Every part of the document but the PQ parts of the signatures is appended only if it fits, and the
serializer fails otherwise. A PQ key or signature that does not fit is left out without a failure,
so that a buffer which ends within the last of them gets a document with a line missing.
-/

namespace Moor

open Codec Text List Nat
open Option (bind_eq_bind bind_some)

/-! ### The document -/

variable (lib : TextLib) (outLen : ℕ) (f : Bytes → Option Bytes)

def daSigText (sig : DaSig) : Bytes :=
  tmpLine (daSignatureLine lib sig) ++
    if sig.hasPq then
      tmpLine (pqDaSignatureLine lib sig) ++
        (b64enc lib sig.pqPk ++ [10] ++ (b64enc lib sig.pqSignature ++ [10]))
    else []

/-- What stands before the signatures. -/
def unsignedText (cons : FullConsensus) : Bytes :=
  (headerTexts lib cons).flatten ++ cons.relays.flatMap (relayText lib) ++
    tmpLine (weightsLine cons.bwWeights) ++ (ascii "directory-footer" ++ [10])

/-- The complete document. -/
def consensusText (cons : FullConsensus) : Bytes :=
  unsignedText lib cons ++ cons.daSigs.flatMap (daSigText lib)

/-! ### Writing -/

/-- Appends the text if it fits and fails otherwise. -/
def Writes (text : Bytes) : Prop :=
  ∀ out, out.length ≤ outLen → f out = bcat outLen out text

def Fits (text : Bytes) : Prop :=
  ∀ out, out.length + text.length ≤ outLen → f out = some (out ++ text)

section Writes

variable {outLen : ℕ} {f g : Bytes → Option Bytes} {out s t text text' : Bytes}

theorem bcat_of_le (h : out.length + s.length ≤ outLen) : bcat outLen out s = some (out ++ s) :=
  if_neg (not_lt.mpr h)

theorem bcat_of_lt (h : outLen < out.length + s.length) : bcat outLen out s = none := if_pos h

theorem Writes.fits (h : Writes outLen f text) : Fits outLen f text := by
  intro out hroom
  rw [h out (by omega), bcat_of_le hroom]

theorem Fits.bind (hf : Fits outLen f text) (hg : Fits outLen g text') :
    Fits outLen (fun out => f out >>= g) (text ++ text') := by
  intro out hroom
  rw [length_append] at hroom
  change f out >>= g = _
  rw [hf out (by omega), bind_eq_bind, bind_some, hg _ (by rw [length_append]; omega), append_assoc]

theorem Writes.bind (hf : Writes outLen f text) (hg : Writes outLen g text') :
    Writes outLen (fun out => f out >>= g) (text ++ text') := by
  intro out hout
  change f out >>= g = _
  rw [hf out hout]
  by_cases hroom : out.length + text.length ≤ outLen
  · rw [bcat_of_le hroom, bind_eq_bind, bind_some, hg _ (by rwa [length_append])]
    simp [bcat, add_assoc]
  · rw [bcat_of_lt (by omega), bcat_of_lt (by rw [length_append]; omega)]
    rfl

theorem writes_nil : Writes outLen some [] := by
  intro out hout
  rw [bcat_of_le (by simpa using hout), append_nil]

theorem writes_bcat (s : Bytes) : Writes outLen (fun out => bcat outLen out s) s :=
  fun _ _ => rfl

/-- The pieces of a list are written one after the other. -/
theorem writes_foldlM {α : Type} {write : Bytes → α → Option Bytes} {text : α → Bytes}
    (xs : List α) (h : ∀ x ∈ xs, Writes outLen (write · x) (text x)) :
    Writes outLen (fun out => xs.foldlM write out) (xs.flatMap text) := by
  induction xs with
  | nil => exact writes_nil
  | cons x xs ih =>
    exact (h x mem_cons_self).bind (ih fun y hy => h y (mem_cons_of_mem x hy))

theorem fits_foldlM {α : Type} {write : Bytes → α → Option Bytes} {text : α → Bytes}
    (xs : List α) (h : ∀ x ∈ xs, Fits outLen (write · x) (text x)) :
    Fits outLen (fun out => xs.foldlM write out) (xs.flatMap text) := by
  induction xs with
  | nil => exact writes_nil.fits
  | cons x xs ih =>
    exact (h x mem_cons_self).bind (ih fun y hy => h y (mem_cons_of_mem x hy))

end Writes

/-! ### The parts of the document -/

section

variable {outLen : ℕ} {lib : TextLib}

theorem writes_texts (texts : List Bytes) :
    Writes outLen (fun out => texts.foldlM (bcat outLen) out) texts.flatten := by
  have h := @writes_foldlM outLen Bytes (bcat outLen) id texts fun s _ => writes_bcat s
  rwa [flatMap_id] at h

theorem writes_kem (kemPk : Field 1184) :
    Writes outLen (kemSerialize lib outLen · kemPk) (tmpLine (ascii "k " ++ b64enc lib kemPk)) := by
  intro out _
  have hlen : (ascii "k " ++ b64enc lib kemPk).length ≤ 8190 := by
    rw [length_append, length_b64enc]
    decide
  rw [tmpLine_eq hlen]
  simp only [kemSerialize, bcat, length_append, length_singleton]
  by_cases hkey : out.length + (ascii "k ").length + (b64enc lib kemPk).length > outLen
  · rw [if_pos hkey, if_pos (by omega)]
    rfl
  · rw [if_neg hkey, bind_eq_bind, bind_some]
    simp [add_assoc]

theorem writes_relay (d : NodeDescriptor) :
    Writes outLen (relaySerialize lib outLen · d) (relayText lib d) := by
  have hkem : Writes outLen (fun out =>
      if Flags.has d.features nodeFeaturePq then kemSerialize lib outLen out d.kemPk else some out)
      (if Flags.has d.features nodeFeaturePq then [tmpLine (ascii "k " ++ b64enc lib d.kemPk)]
        else []).flatten := by
    by_cases hpq : Flags.has d.features nodeFeaturePq
    · simp only [if_pos hpq, flatten_singleton]
      exact writes_kem d.kemPk
    · simp only [if_neg hpq, flatten_nil]
      exact writes_nil
  have h := ((writes_texts (relayTextsBefore lib d)).bind hkem).bind
    (@writes_texts outLen (relayTextsAfter lib d))
  intro out hout
  rw [relayText, ← h out hout]
  simp only [relaySerialize, bind_assoc]
  by_cases hpq : Flags.has d.features nodeFeaturePq
  · simp only [if_pos hpq]
  · simp only [if_neg hpq]

variable (sig : DaSig)

theorem length_daSignatureLine : (daSignatureLine lib sig).length = 153 := by
  simp only [daSignatureLine, length_append, length_b64enc]
  decide

theorem length_pqDaSignatureLine : (pqDaSignatureLine lib sig).length = 67 := by
  simp only [pqDaSignatureLine, length_append, length_b64enc]
  decide

/-- The lines of a signature without those of its PQ parts. -/
def announcement (lib : TextLib) (sig : DaSig) : Bytes :=
  tmpLine (daSignatureLine lib sig) ++ if sig.hasPq then tmpLine (pqDaSignatureLine lib sig) else []

theorem length_announcement :
    (announcement lib sig).length = 154 + if sig.hasPq then 68 else 0 := by
  have hline := @length_daSignatureLine lib sig
  have hpqLine := @length_pqDaSignatureLine lib sig
  rw [announcement, length_append, tmpLine_eq (by omega), tmpLine_eq (by omega)]
  split
  · simp [hline, hpqLine]
  · simp [hline]

theorem writes_announcement :
    Writes outLen (fun out => do
      let out ← bcat outLen out (tmpLine (daSignatureLine lib sig))
      if sig.hasPq then bcat outLen out (tmpLine (pqDaSignatureLine lib sig)) else some out)
      (announcement lib sig) := by
  refine (writes_bcat _).bind ?_
  by_cases hpq : sig.hasPq = true
  · simp only [if_pos hpq]
    exact writes_bcat _
  · simp only [if_neg hpq]
    exact writes_nil

/-- A signature without PQ parts. -/
theorem writes_daSig {sig : DaSig} (hpq : sig.hasPq = false) :
    Writes outLen (daSigSerialize lib outLen · sig) (daSigText lib sig) := by
  have h := @writes_announcement outLen lib sig
  simp only [announcement, hpq, Bool.false_eq_true, if_false] at h
  simpa only [daSigSerialize, daSigText, hpq, Bool.false_eq_true, if_false] using h

theorem appendFitting_of_le {out s : Bytes} (h : out.length + s.length + 1 ≤ outLen) :
    appendFitting outLen out s = out ++ (s ++ [10]) := by
  rw [appendFitting, if_pos h, append_assoc]

theorem fits_daSig : Fits outLen (daSigSerialize lib outLen · sig) (daSigText lib sig) := by
  by_cases hpq : sig.hasPq = true
  · intro out hroom
    simp only [daSigText, if_pos hpq, length_append, length_singleton] at hroom
    simp only [daSigSerialize, daSigText, if_pos hpq]
    have hpk : (out ++ tmpLine (daSignatureLine lib sig) ++ tmpLine
        (pqDaSignatureLine lib sig)).length + (b64enc lib sig.pqPk).length + 1 ≤ outLen := by
      simp only [length_append]
      omega
    rw [bcat_of_le (by omega), bind_eq_bind, bind_some, bcat_of_le,
      bind_some, appendFitting_of_le hpk, appendFitting_of_le]
    · simp only [append_assoc]
    · simp only [length_append, length_singleton]
      omega
    · rw [length_append]
      omega
  · exact (writes_daSig (by simpa using hpq)).fits

theorem foldlM_daSigSerialize {sigs : List DaSig} {out : Bytes}
    (h : out.length + (sigs.flatMap (daSigText lib)).length ≤ outLen) :
    sigs.foldlM (daSigSerialize lib outLen) out = some (out ++ sigs.flatMap (daSigText lib)) :=
  fits_foldlM sigs (fun sig _ => fits_daSig sig) out h

theorem moorConsensusSerialize_eq (cons : FullConsensus) :
    moorConsensusSerialize lib outLen cons =
      bcat outLen [] (unsignedText lib cons) >>=
        cons.daSigs.foldlM (daSigSerialize lib outLen) := by
  have h := (((writes_texts (headerTexts lib cons)).bind
    (writes_foldlM cons.relays fun d _ => @writes_relay outLen lib d)).bind
    (writes_bcat (tmpLine (weightsLine cons.bwWeights)))).bind
    (writes_bcat (ascii "directory-footer" ++ [10]))
  rw [unsignedText, ← h [] (zero_le _), moorConsensusSerialize]
  simp only [bind_assoc]

/-- A buffer with room for the document gets it. -/
theorem moorConsensusSerialize_of_le {cons : FullConsensus}
    (h : (consensusText lib cons).length ≤ outLen) :
    moorConsensusSerialize lib outLen cons = some (consensusText lib cons) := by
  rw [consensusText, length_append] at h
  rw [moorConsensusSerialize_eq, bcat_of_le (by rw [length_nil]; omega),
    bind_eq_bind, bind_some, nil_append, foldlM_daSigSerialize h, consensusText]

end

/-! ### The size of the buffer -/

section

variable (lib : TextLib)

theorem length_tmpLine_le (s : Bytes) : (tmpLine s).length ≤ s.length + 1 := by
  rw [tmpLine, length_take, length_append, length_singleton]
  exact min_le_right _ _

theorem length_optional_le {p : Prop} [Decidable p] (s : Bytes) :
    (if p then [s] else []).flatten.length ≤ s.length := by
  split
  · simp
  · exact zero_le _

variable {key : Bytes}

theorem length_keyLine_le (hkey : key.length = 2) {n : ℕ} (f : Field n) :
    (tmpLine (key ++ b64enc lib f)).length ≤ 4 * ((n + 2) / 3) + 3 := by
  have hle := length_tmpLine_le (key ++ b64enc lib f)
  rw [length_append, hkey, length_b64enc] at hle
  omega

theorem length_textLine_le (hkey : key.length = 2) {n : ℕ} (f : Field n) :
    (tmpLine (key ++ cString f)).length ≤ n + 3 := by
  have hle := length_tmpLine_le (key ++ cString f)
  have htext := length_cString_le f
  rw [length_append, hkey] at hle
  omega

/-- The lines of a relay fit into what the size of the buffer has for them. -/
theorem length_relayText_le (d : NodeDescriptor) : (relayText lib d).length ≤ 2400 := by
  have hn := (length_tmpLine_le _).trans (succ_le_succ (length_relayLine_le lib d))
  have ho := @length_keyLine_le lib (ascii "o ") rfl _ d.onionPk
  have ha := (@length_optional_le (nonEmpty d.address6) _ _).trans
    (@length_textLine_le (ascii "a ") rfl _ d.address6)
  have hk := (@length_optional_le (Flags.has d.features nodeFeaturePq) _ _).trans
    (@length_keyLine_le lib (ascii "k ") rfl _ d.kemPk)
  have hs := length_flagsLine_le d
  have hw := (length_tmpLine_le _).trans (succ_le_succ (length_bandwidthLine_le d))
  have hg := (@length_optional_le (d.countryCode ≠ 0) _ _).trans
    ((length_tmpLine_le _).trans (succ_le_succ (length_geoLine_le d)))
  have hf := (@length_optional_le (d.familyId ≠ Field.zero 32) _ _).trans
    (@length_keyLine_le lib (ascii "f ") rfl _ d.familyId)
  have hp := @length_keyLine_le lib (ascii "p ") rfl _ d.signature
  have hc := (@length_optional_le (nonEmpty d.contactInfo) _ _).trans
    (@length_textLine_le (ascii "c ") rfl _ d.contactInfo)
  simp only [relayText, relayTextsBefore, relayTextsAfter, flatten_append, flatten_cons,
    flatten_nil, append_nil, length_append, length_singleton] at *
  omega

theorem length_header_le (cons : FullConsensus) :
    (headerTexts lib cons).flatten.length ≤ 400 := by
  have htime : ∀ {key : Bytes} (t : UInt64), key.length = 12 →
      (tmpLine (key ++ fmtTime lib t)).length ≤ 32 := by
    intro key t hkey
    have hle := length_tmpLine_le (key ++ fmtTime lib t)
    have hfmt := length_fmtTime_le lib t
    rw [length_append, hkey] at hle
    omega
  have hsrv : ∀ {key : Bytes} (f : Field 32), key.length ≤ 27 →
      (tmpLine (key ++ b64enc lib f)).length ≤ 72 := by
    intro key f hkey
    have hle := length_tmpLine_le (key ++ b64enc lib f)
    rw [length_append, length_b64enc] at hle
    omega
  have hflags : knownFlagsLine.length = 77 := by decide
  have hafter := @htime (ascii "valid-after ") cons.validAfter rfl
  have hfresh := @htime (ascii "fresh-until ") cons.freshUntil rfl
  have huntil := @htime (ascii "valid-until ") cons.validUntil rfl
  have hcurrent := @hsrv (ascii "shared-rand-current-value ") cons.srvCurrent (by decide)
  have hprevious := @hsrv (ascii "shared-rand-previous-value ") cons.srvPrevious (by decide)
  simp only [headerTexts, flatten_cons, flatten_nil, append_nil, length_append,
    hflags, length_ascii, String.reduceToList, length_cons, length_nil]
  omega

theorem length_weightsLine_le (w : Fin 8 → Int32) : (weightsLine w).length ≤ 145 := by
  have hkey : ∀ i, (weightKey i).length = 4 := by decide
  have hnum : ∀ z : Int32, (intNumeral 0 z.toInt).length ≤ 11 := by
    intro z
    have hlo := z.le_toInt
    have hhi := z.toInt_lt
    have hdigits : (decimal z.toInt.natAbs).length ≤ 10 :=
      length_decimal_le (by decide) (by omega)
    rw [intNumeral]
    split <;> simp <;> omega
  have hsum : ((finRange 8).map fun i =>
      (32 :: (weightKey i ++ intNumeral 0 (w i).toInt)).length).sum ≤ 8 * 16 := by
    refine (sum_le_card_nsmul _ 16 ?_).trans (by simp)
    simp only [forall_mem_map, length_cons, length_append, hkey]
    intro i _
    have := hnum (w i)
    omega
  rw [weightsLine, length_append, length_flatMap]
  exact Nat.add_le_add_left hsum 17

theorem length_daSigText (sig : DaSig) :
    (daSigText lib sig).length = 154 + if sig.hasPq then 7086 else 0 := by
  have hlen := @length_announcement lib sig
  rw [announcement, length_append] at hlen
  rw [daSigText, length_append]
  split at hlen
  · rename_i hpq
    simp only [if_pos hpq, length_append, length_singleton, length_b64enc]
    omega
  · rename_i hpq
    simpa only [if_neg hpq] using hlen

/-- The size that the callers allocate is enough. -/
theorem length_consensusText_le (cons : FullConsensus) :
    (consensusText lib cons).length ≤ moorConsensusWireSize cons.toConsensus := by
  have hheader := length_header_le lib cons
  have hrelays : (cons.relays.map fun d => (relayText lib d).length).sum ≤
      cons.relays.length * 2400 := by
    refine (sum_le_card_nsmul _ 2400 ?_).trans (by simp)
    simp only [forall_mem_map]
    exact fun d _ => length_relayText_le lib d
  have hweights := (length_tmpLine_le _).trans
    (succ_le_succ (length_weightsLine_le cons.bwWeights))
  have hsigs : (cons.daSigs.map fun sig => (daSigText lib sig).length).sum ≤
      (cons.daSigs.map fun sig => 256 + if sig.hasPq then 8192 else 0).sum := by
    refine sum_le_sum fun sig _ => ?_
    rw [length_daSigText]
    split <;> omega
  simp only [consensusText, unsignedText, moorConsensusWireSize, length_append,
    length_flatMap, length_ascii, String.reduceToList, length_cons, length_nil]
  omega

end

/-! ### Completeness -/

section

variable {outLen : ℕ} {lib : TextLib} {cons : FullConsensus}

/-- Without PQ parts the serializer writes the document or fails. -/
theorem moorConsensusSerialize_of_classical (h : ∀ sig ∈ cons.daSigs, sig.hasPq = false) :
    moorConsensusSerialize lib outLen cons = bcat outLen [] (consensusText lib cons) := by
  have hwrites := (writes_bcat (unsignedText lib cons)).bind
    (writes_foldlM cons.daSigs fun sig hsig => @writes_daSig outLen lib sig (h sig hsig))
  rw [moorConsensusSerialize_eq]
  exact hwrites [] (zero_le _)

variable {sig : DaSig} {sigs : List DaSig}

/-- A PQ signature that does not fit is left out. -/
theorem daSigSerialize_short (hpq : sig.hasPq = true) {out : Bytes}
    (hroom : out.length + (announcement lib sig).length + 2605 ≤ outLen)
    (hshort : outLen < out.length + (announcement lib sig).length + 2605 + 4413) :
    daSigSerialize lib outLen out sig =
      some (out ++ (announcement lib sig ++ (b64enc lib sig.pqPk ++ [10]))) := by
  have hpk := @length_b64enc lib _ sig.pqPk
  have hsig := @length_b64enc lib _ sig.pqSignature
  simp only [announcement, if_pos hpq, length_append] at hroom hshort
  have hfit : (out ++ tmpLine (daSignatureLine lib sig) ++ tmpLine
      (pqDaSignatureLine lib sig)).length + (b64enc lib sig.pqPk).length + 1 ≤ outLen := by
    simp only [length_append]
    omega
  simp only [daSigSerialize, announcement, if_pos hpq]
  rw [bcat_of_le (by omega), bind_eq_bind, bind_some, bcat_of_le,
    bind_some, appendFitting_of_le hfit, appendFitting, if_neg]
  · simp only [append_assoc]
  · simp only [length_append, length_singleton]
    omega
  · rw [length_append]
    omega

/-- The last signature with PQ parts. -/
theorem exists_last_pq (hsig : sig ∈ sigs) (hpq : sig.hasPq = true) :
    ∃ before last after, sigs = before ++ last :: after ∧ last.hasPq = true ∧
      ∀ s ∈ after, s.hasPq = false := by
  obtain ⟨last, hlast⟩ := Option.isSome_iff_exists.mp
    (find?_isSome.mpr ⟨sig, mem_reverse.mpr hsig, hpq⟩)
  obtain ⟨hpqLast, after, before, heq, hafter⟩ := find?_eq_some_iff_append.mp hlast
  refine ⟨before.reverse, last, after.reverse, ?_, hpqLast, ?_⟩
  · rw [← reverse_reverse sigs, heq]
    simp
  · simpa using hafter

/-- Signatures without PQ parts are shorter than a PQ signature. -/
theorem length_classical_lt (hlen : sigs.length ≤ moorMaxDaAuthorities)
    (h : ∀ s ∈ sigs, s.hasPq = false) : (sigs.flatMap (daSigText lib)).length < 4413 := by
  have hsum : (sigs.map fun sig => (daSigText lib sig).length).sum ≤ sigs.length * 154 := by
    refine (sum_le_card_nsmul _ 154 ?_).trans (by simp)
    simp only [forall_mem_map]
    intro sig hsig
    rw [length_daSigText, h sig hsig]
    rfl
  have hmax : moorMaxDaAuthorities = 9 := rfl
  rw [length_flatMap]
  omega

section Short

variable {before after : List DaSig} {last : DaSig}
  (hsigs : cons.daSigs = before ++ last :: after) (hpq : last.hasPq = true)
include hsigs hpq

/-- A buffer with room for the lines after a PQ signature, but not for the signature. -/
theorem moorConsensusSerialize_short (hafter : ∀ s ∈ after, s.hasPq = false)
    (houtLen : outLen = (unsignedText lib cons).length + (before.flatMap (daSigText lib)).length +
      ((announcement lib last).length + 2605) + (after.flatMap (daSigText lib)).length) :
    moorConsensusSerialize lib outLen cons =
      some (unsignedText lib cons ++ before.flatMap (daSigText lib) ++
        (announcement lib last ++ (b64enc lib last.pqPk ++ [10])) ++
        after.flatMap (daSigText lib)) := by
  have hshort : (after.flatMap (daSigText lib)).length < 4413 := by
    have hle := cons.daSigs_le
    rw [hsigs, length_append, length_cons] at hle
    exact length_classical_lt (by omega) hafter
  have hpk : (b64enc lib last.pqPk ++ [10]).length = 2605 := by
    rw [length_append, length_b64enc]
    rfl
  have hout : (unsignedText lib cons ++ before.flatMap (daSigText lib)).length =
      (unsignedText lib cons).length + (before.flatMap (daSigText lib)).length := length_append
  rw [moorConsensusSerialize_eq, bcat_of_le (by rw [length_nil]; omega),
    bind_eq_bind, bind_some, nil_append, hsigs, foldlM_append,
    foldlM_daSigSerialize (by omega), bind_eq_bind, bind_some, foldlM_cons,
    daSigSerialize_short hpq (by omega) (by omega), bind_eq_bind, bind_some,
    foldlM_daSigSerialize]
  rw [length_append, hout, length_append, hpk]
  omega

end Short

/-- Some buffer gets a document without the last PQ signature. -/
theorem exists_incomplete (hsig : sig ∈ cons.daSigs) (hpq : sig.hasPq = true) :
    ∃ outLen text, moorConsensusSerialize lib outLen cons = some text ∧
      text.length < (consensusText lib cons).length := by
  obtain ⟨before, last, after, hsigs, hpqLast, hafter⟩ := exists_last_pq hsig hpq
  refine ⟨_, _, moorConsensusSerialize_short hsigs hpqLast hafter rfl, ?_⟩
  simp only [consensusText, hsigs, flatMap_append, flatMap_cons, daSigText, announcement,
    if_pos hpqLast, length_append, length_singleton]
  omega

/-- A document of the serializer is complete in every buffer if and only if no signature has PQ
parts. A buffer of the size that the callers allocate gets the complete document. -/
theorem consensus_serialize_complete_iff (lib : TextLib) (cons : FullConsensus) :
    (((∀ outLen, moorConsensusSerialize lib outLen cons = none ∨
        moorConsensusSerialize lib outLen cons = some (consensusText lib cons)) ∧
      ∀ outLen ≥ moorConsensusWireSize cons.toConsensus,
        moorConsensusSerialize lib outLen cons ≠ none) ↔
      ∀ sig ∈ cons.daSigs, sig.hasPq = false) ∧
    ∀ outLen ≥ moorConsensusWireSize cons.toConsensus,
      moorConsensusSerialize lib outLen cons = some (consensusText lib cons) := by
  have hwire : ∀ outLen ≥ moorConsensusWireSize cons.toConsensus,
      moorConsensusSerialize lib outLen cons = some (consensusText lib cons) := fun outLen h =>
    moorConsensusSerialize_of_le ((length_consensusText_le lib cons).trans h)
  refine ⟨⟨?_, ?_⟩, hwire⟩
  · rintro ⟨hcomplete, -⟩ sig hsig
    by_contra hpq
    obtain ⟨outLen, text, hsome, hlt⟩ := @exists_incomplete lib cons sig hsig (by simpa using hpq)
    rcases hcomplete outLen with hnone | htext
    · rw [hsome] at hnone
      cases hnone
    · rw [hsome, Option.some_inj] at htext
      exact absurd (htext ▸ hlt) (lt_irrefl _)
  · intro hclassical
    refine ⟨fun outLen => ?_, fun outLen h => by rw [hwire outLen h]; exact Option.some_ne_none _⟩
    rw [moorConsensusSerialize_of_classical hclassical, bcat]
    split
    · exact .inl rfl
    · exact .inr rfl

/-- A consensus without relays and with one signature. -/
def FullConsensus.signedSample : FullConsensus :=
  { FullConsensus.init with
    daSigs := [⟨Field.zero 64, Field.zero 32, Field.zero 3309, Field.zero 1952, true⟩]
    relays_le := zero_le _
    daSigs_le := by decide }

/-- In a buffer of 3244 bytes the line with the PQ signature is left out, and the serializer does
not fail. -/
theorem consensus_serialize_incomplete :
    ∃ text, moorConsensusSerialize TextLib.sample 3244 .signedSample = some text ∧
      text ≠ consensusText TextLib.sample .signedSample := by decide +kernel

end

end Moor
