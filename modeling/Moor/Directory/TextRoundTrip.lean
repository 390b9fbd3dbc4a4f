import Moor.Directory.Microdesc
import Moor.Directory.TextWriter

/-!
# The text of a consensus is read back

The weights, the footer and the signatures, and then the whole text: what the serializer writes,
the parser reads back.
-/

namespace Moor

open Codec Text Scanf List TextState

/-! ### The weights and the footer -/

/-- One weight of the line, with the blank before it. -/
def weightText (w : Fin 8 → Int32) (i : Fin 8) : Bytes :=
  32 :: (weightKey i ++ intNumeral 0 (w i).toInt)

theorem exists_cons_weightKey : ∀ i, ∃ key, weightKey i = 87 :: key
  | 0 | 1 | 2 | 3 | 4 | 5 | 6 | 7 => ⟨_, rfl⟩

variable (w : Fin 8 → Int32)

theorem head?_weightTexts_isDigit (is : List (Fin 8)) :
    ∀ c ∈ (is.flatMap (weightText w)).head?, isDigit c = false := by
  cases is with
  | nil => simp
  | cons i is =>
    intro c hc
    cases hc
    decide

theorem scan_weight (i : Fin 8) (fmt : List Directive) (is : List (Fin 8)) :
    scan ((weightKey i).map .literal ++ .int :: fmt)
        (weightKey i ++ intNumeral 0 (w i).toInt ++ is.flatMap (weightText w)) =
      .num (w i).toInt :: scan fmt (is.flatMap (weightText w)) := by
  rw [append_assoc, scan_literals]
  exact scan_int fmt 0 (Int32.le_toInt _) (Int32.toInt_lt _) (head?_weightTexts_isDigit w is)

theorem scan_weights (is : List (Fin 8)) (his : bwWgg ∉ is) :
    scan (is.flatMap fun i =>
        (if i = bwWgg then [] else [.blank]) ++ (weightKey i).map .literal ++ [.int])
        (is.flatMap (weightText w)) = is.map fun i => .num (w i).toInt := by
  induction is with
  | nil => rfl
  | cons i is ih =>
    obtain ⟨hi, his⟩ := not_or.mp (mt mem_cons.mpr his)
    have hhead : ∀ c ∈ (weightKey i ++ intNumeral 0 (w i).toInt ++
        is.flatMap (weightText w)).head?, isSpace c = false := by
      obtain ⟨key, hkey⟩ := exists_cons_weightKey i
      rw [hkey]
      intro c hc
      cases hc
      decide
    rw [flatMap_cons, if_neg (Ne.symm hi), flatMap_cons, map_cons, ← ih his,
      ← scan_weight, ← scan_blank _ hhead]
    simp [weightText]

/-- The weights after the first one, which are the ones with a blank before them. -/
def laterWeights : List (Fin 8) := (List.finRange 8).tail

theorem finRange_eq : List.finRange 8 = 0 :: laterWeights := by decide

theorem weightsLine_eq :
    weightsLine w = ascii "bandwidth-weights " ++ (weightKey 0 ++ intNumeral 0 (w 0).toInt ++
      laterWeights.flatMap (weightText w)) := by
  rfl

theorem parseWeights_weightsLine (w w' : Fin 8 → Int32) :
    parseWeights (weightKey 0 ++ intNumeral 0 (w 0).toInt ++
      laterWeights.flatMap (weightText w)) w' = w := by
  have hscan : scan weightsFormat (weightKey 0 ++ intNumeral 0 (w 0).toInt ++
      laterWeights.flatMap (weightText w)) =
      .num (w 0).toInt :: laterWeights.map fun i => .num (w i).toInt := by
    rw [weightsFormat, finRange_eq, flatMap_cons, if_pos (show 0 = bwWgg from rfl), nil_append,
      append_assoc, singleton_append, scan_weight, scan_weights w _ (by decide)]
  rw [parseWeights, scanWeights, hscan]
  funext i
  match i with
  | 0 | 1 | 2 | 3 | 4 | 5 | 6 | 7 => exact Int32.ofInt_toInt _

theorem parseLine_weights (lib : TextLib) (stack : Field 32) (s : Bytes) (st : TextState) :
    parseLine lib stack (ascii "bandwidth-weights " ++ s) st =
      .next { st with bwWeights := parseWeights s st.bwWeights } := rfl

/-! ### Signatures -/

section

variable {lib : TextLib} {stack : Field 32} {st : TextState} {sig : DaSig}

/-- The signature that the first line has. -/
def DaSig.withoutPq (sig : DaSig) : DaSig where
  signature := sig.signature
  identityPk := sig.identityPk
  pqSignature := Field.zero 3309
  pqPk := Field.zero 1952
  hasPq := false

@[simp] theorem DaSig.identityPk_populated (sig : DaSig) :
    sig.populated.identityPk = sig.identityPk := by
  unfold DaSig.populated
  split <;> rfl

/-- A state with one more signature. -/
def TextState.withDaSig (st : TextState) (sig : DaSig)
    (h : st.daSigs.length < moorMaxDaAuthorities) : TextState :=
  { st with
    daSigs := st.daSigs ++ [sig]
    relays_le := st.length_relays_le
    daSigs_le := by
      rw [List.length_append]
      exact h }

theorem TextState.onDaSig_withDaSig (h : st.daSigs.length < moorMaxDaAuthorities)
    (f : DaSig → DaSig) :
    (st.withDaSig sig h).onDaSig st.daSigs.length f = st.withDaSig (f sig) h := by
  simp only [onDaSig, withDaSig, modify_concat]

theorem parseLine_daSignature (s : Bytes) (hfoot : st.inFooter = true)
    (hroom : st.daSigs.length < moorMaxDaAuthorities) :
    parseLine lib stack (ascii "directory-signature" ++ s) st =
      .next (parseDaSignature lib stack s st) := by
  have hline : parseLine lib stack (ascii "directory-signature" ++ s) st =
      if !st.inFooter || moorMaxDaAuthorities ≤ st.daSigs.length then .next st
      else .next (parseDaSignature lib stack s st) := rfl
  rw [hline, hfoot, if_neg (by simpa using hroom)]

theorem parseLine_pqDaSignature (s : Bytes) (hfoot : st.inFooter = true) :
    parseLine lib stack (ascii "pq-directory-signature" ++ s) st =
      match pqDaSignatureSlot lib stack s st with
      | some found => .pqParts found
      | none => .next st := by
  have hline : parseLine lib stack (ascii "pq-directory-signature" ++ s) st =
      if !st.inFooter then .next st
      else match pqDaSignatureSlot lib stack s st with
        | some found => .pqParts found
        | none => .next st := rfl
  rw [hline, hfoot]
  rfl

theorem parseDaSignature_daSignatureLine (hroom : st.daSigs.length < moorMaxDaAuthorities)
    (hnew : ∀ s ∈ st.daSigs, s.identityPk ≠ sig.identityPk) :
    parseDaSignature lib stack
        (32 :: (b64enc lib sig.identityPk ++ (32 :: b64enc lib sig.signature))) st =
      st.withDaSig sig.withoutPq hroom := by
  have hgap : ∀ c ∈ (32 :: b64enc lib sig.signature).head?, isSpace c = true := by
    intro c hc
    cases hc
    decide
  have hhead : ∀ c ∈ (b64enc lib sig.signature).head?, isSpace c = false :=
    fun c hc => (graphic_b64enc _).isSpace c (mem_of_mem_head? hc)
  have hscan : scan [.word 63, .blank, .word 127]
      (32 :: (b64enc lib sig.identityPk ++ (32 :: b64enc lib sig.signature))) =
      [.word (b64enc lib sig.identityPk), .word (b64enc lib sig.signature)] := by
    rw [scan_word_space, scan_b64enc _ _ (by decide) (by decide) hgap, scan_blank _ hhead,
      scan_b64enc_end _ (by decide) (by decide)]
  have hany : (st.daSigs.any fun s => s.identityPk = sig.identityPk) = false := by
    simpa using hnew
  simp only [parseDaSignature, hscan, b64dec_b64enc, hany]
  rw [addDaSig, dif_neg (Nat.not_le.mpr hroom)]
  rfl

theorem pqDaSignatureSlot_pqDaSignatureLine (hroom : st.daSigs.length < moorMaxDaAuthorities)
    (hnew : ∀ s ∈ st.daSigs, s.identityPk ≠ sig.identityPk) :
    pqDaSignatureSlot lib stack (32 :: b64enc lib sig.identityPk)
        (st.withDaSig sig.withoutPq hroom) = some st.daSigs.length := by
  have hscan : scan [.word 63] (32 :: b64enc lib sig.identityPk) =
      [.word (b64enc lib sig.identityPk)] := by
    rw [scan_word_space, scan_b64enc_end _ (by decide) (by decide)]
  have hnone : (st.daSigs.findIdx? fun s => s.identityPk = sig.identityPk) = none := by
    simpa using hnew
  simp only [pqDaSignatureSlot, hscan, b64dec_b64enc, withDaSig, findIdx?_append,
    hnone, findIdx?_singleton, DaSig.withoutPq]
  simp

/-- The two lines after the line that announces PQ parts. -/
theorem reads_pqParts {line : Bytes} {st' : TextState} {found : ℕ} (hline : IsLine line)
    (h : parseLine lib stack line st = .pqParts found)
    (hst' : (st.onDaSig found fun s => { s with pqPk := sig.pqPk }).onDaSig found
      (fun s => { s with pqSignature := sig.pqSignature, hasPq := true }) = st') :
    Reads lib stack
      (tmpLine line ++ (b64enc lib sig.pqPk ++ [10] ++ (b64enc lib sig.pqSignature ++ [10])))
      st st' := by
  have hpk : IsLine (b64enc lib sig.pqPk) :=
    ⟨(graphic_b64enc _).printable, by rw [length_b64enc]; decide⟩
  have hsig : IsLine (b64enc lib sig.pqSignature) :=
    ⟨(graphic_b64enc _).printable, by rw [length_b64enc]; decide⟩
  intro rest
  rw [tmpLine_eq hline.length]
  simp only [append_assoc, cons_append, nil_append]
  rw [splitLines_line (hline.notMem (by decide)), splitLines_line (hpk.notMem (by decide)),
    splitLines_line (hsig.notMem (by decide)), parseLines, lineText_line hline, h]
  simp only [lineText_line hpk, lineText_line hsig, b64dec_b64enc, hst']

theorem daSignatureLine_eq (sig : DaSig) :
    daSignatureLine lib sig = ascii "directory-signature" ++
      (32 :: (b64enc lib sig.identityPk ++ (32 :: b64enc lib sig.signature))) := by
  have hspace : ascii "directory-signature " = ascii "directory-signature" ++ [32] := by decide
  rw [daSignatureLine, hspace]
  simp

theorem pqDaSignatureLine_eq (sig : DaSig) :
    pqDaSignatureLine lib sig =
      ascii "pq-directory-signature" ++ (32 :: b64enc lib sig.identityPk) := by
  have hspace : ascii "pq-directory-signature " = ascii "pq-directory-signature" ++ [32] := by
    decide
  simp [pqDaSignatureLine, hspace]

theorem isLine_daSignatureLine (sig : DaSig) : IsLine (daSignatureLine lib sig) := by
  refine ⟨?_, by rw [length_daSignatureLine]; decide⟩
  simp only [daSignatureLine, printable_append]
  exact ⟨⟨⟨by decide, (graphic_b64enc _).printable⟩, by decide⟩, (graphic_b64enc _).printable⟩

theorem isLine_pqDaSignatureLine (sig : DaSig) : IsLine (pqDaSignatureLine lib sig) :=
  isLine_of_graphic (by decide) (graphic_b64enc _) (by rw [length_b64enc]; decide)

/-- A signature of an authority that is new is read back. -/
theorem reads_daSig (hfoot : st.inFooter = true) (hroom : st.daSigs.length < moorMaxDaAuthorities)
    (hnew : ∀ s ∈ st.daSigs, s.identityPk ≠ sig.identityPk) :
    Reads lib stack (daSigText lib sig) st (st.withDaSig sig.populated hroom) := by
  have hfirst : parseLine lib stack (daSignatureLine lib sig) st =
      .next (st.withDaSig sig.withoutPq hroom) := by
    rw [daSignatureLine_eq, parseLine_daSignature _ hfoot hroom,
      parseDaSignature_daSignatureLine hroom hnew]
  have hreads := Reads.ofTmpLine (isLine_daSignatureLine sig) hfirst
  rw [daSigText]
  by_cases hpq : sig.hasPq = true
  · rw [if_pos hpq]
    have hslot : parseLine lib stack (pqDaSignatureLine lib sig)
        (st.withDaSig sig.withoutPq hroom) = .pqParts st.daSigs.length := by
      rw [pqDaSignatureLine_eq, @parseLine_pqDaSignature _ _ (st.withDaSig _ hroom) _ hfoot,
        pqDaSignatureSlot_pqDaSignatureLine hroom hnew]
    refine hreads.append (reads_pqParts (isLine_pqDaSignatureLine sig) hslot ?_)
    rw [onDaSig_withDaSig, onDaSig_withDaSig, DaSig.populated, if_pos hpq, DaSig.withoutPq, ← hpq]
  · rw [if_neg hpq, append_nil, DaSig.populated, if_neg hpq]
    rw [Bool.not_eq_true] at hpq
    rwa [DaSig.withoutPq, ← hpq] at hreads

/-- The signatures of different authorities are read back. -/
theorem reads_daSigs (sigs : List DaSig) (hfoot : st.inFooter = true)
    (hroom : (st.daSigs ++ sigs.map DaSig.populated).length ≤ moorMaxDaAuthorities)
    (hnodup : ((st.daSigs ++ sigs).map DaSig.identityPk).Nodup) :
    Reads lib stack (sigs.flatMap (daSigText lib)) st
      { st with daSigs := st.daSigs ++ sigs.map DaSig.populated, daSigs_le := hroom } := by
  induction sigs generalizing st with
  | nil =>
    simp only [map_nil, append_nil]
    exact .nil
  | cons sig sigs ih =>
    have hlt : st.daSigs.length < moorMaxDaAuthorities := by
      simp only [length_append, length_map, length_cons] at hroom
      omega
    have hnew : ∀ s ∈ st.daSigs, s.identityPk ≠ sig.identityPk := by
      rw [map_append, nodup_append] at hnodup
      exact fun s hs => hnodup.2.2 _ (mem_map_of_mem hs) _ mem_cons_self
    have hrest := @ih (st.withDaSig sig.populated hlt) hfoot
      (by simpa [withDaSig] using hroom) (by simpa [withDaSig] using hnodup)
    simp only [withDaSig, append_assoc, singleton_append] at hrest
    exact (reads_daSig hfoot hlt hnew).append hrest

end

/-! ### The document -/

/-- A relay of an authority's table: a descriptor that was accepted, with the fields that the
authority sets itself. -/
def NodeDescriptor.Admitted (d : NodeDescriptor) : Prop :=
  ∃ data desc n, nodeDescriptorDeserialize data = some (desc, n) ∧
    d = { desc with
      flags := d.flags
      bandwidth := d.bandwidth
      verifiedBandwidth := d.verifiedBandwidth
      countryCode := d.countryCode
      asNumber := d.asNumber
      familyId := d.familyId }

theorem NodeDescriptor.Admitted.textsAccepted {d : NodeDescriptor} (h : d.Admitted) :
    TextsAccepted d := by
  obtain ⟨data, desc, n, hread, heq⟩ := h
  have htexts := textsAccepted_of_deserialize hread
  rw [heq]
  exact { htexts with }

/-- What a consensus must have to be read back. -/
structure FullConsensus.TextSafe (cons : FullConsensus) : Prop where
  relays : ∀ d ∈ cons.relays, d.TextSafe
  validAfter : cons.validAfter < year10000
  validAfter_ne : cons.validAfter ≠ 0
  freshUntil : cons.freshUntil < year10000
  validUntil : cons.validUntil < year10000
  daSigs : (cons.daSigs.map DaSig.identityPk).Nodup

theorem isLine_weightsLine (w : Fin 8 → Int32) : IsLine (weightsLine w) := by
  have hkey : ∀ i, Printable (weightKey i) := by decide
  refine ⟨?_, (length_weightsLine_le w).trans (by decide)⟩
  intro c hc
  rw [weightsLine, mem_append, mem_flatMap] at hc
  rcases hc with hc | ⟨i, -, hc⟩
  · exact (by decide : Printable (ascii "bandwidth-weights")) c hc
  have htext : Printable (32 :: (weightKey i ++ intNumeral 0 (w i).toInt)) := by
    simp only [printable_cons, printable_append]
    exact ⟨by decide, hkey i, (graphic_intNumeral _ _).printable⟩
  exact htext c hc

variable {lib : TextLib} {stack : Field 32} {st : TextState}

theorem reads_weights (w : Fin 8 → Int32) :
    Reads lib stack (tmpLine (weightsLine w)) st { st with bwWeights := w } := by
  have hparse := parseLine_weights lib stack (weightKey 0 ++ intNumeral 0 (w 0).toInt ++
    laterWeights.flatMap (weightText w)) st
  rw [← weightsLine_eq, parseWeights_weightsLine] at hparse
  exact .ofTmpLine (isLine_weightsLine w) hparse

/-- The parser goes over a whole document. -/
theorem reads_consensusText {cons cons' : FullConsensus} (hrelays : ∀ d ∈ cons.relays, d.Admitted)
    (h : cons.TextSafe) :
    ∃ st : TextState, Reads lib stack (consensusText lib cons) (.start cons') st ∧
      List.Forall₂ NodeDescriptor.SameInText cons.relays st.relays ∧
      st.validAfter = cons.validAfter ∧ st.freshUntil = cons.freshUntil ∧
      st.validUntil = cons.validUntil ∧ st.srvCurrent = cons.srvCurrent ∧
      st.srvPrevious = cons.srvPrevious ∧ st.bwWeights = cons.bwWeights ∧
      st.daSigs = cons.daSigs.map DaSig.populated := by
  have hheader := @reads_header lib stack (.start cons') cons h.validAfter h.freshUntil h.validUntil
  obtain ⟨es, currentRelay, hle, hsame, hrelay⟩ := @reads_relays lib stack cons.relays
    (fun d hd => ⟨h.relays d hd, (hrelays d hd).textsAccepted⟩) { start cons' with
      validAfter := cons.validAfter
      freshUntil := cons.freshUntil
      validUntil := cons.validUntil
      srvCurrent := cons.srvCurrent
      srvPrevious := cons.srvPrevious } rfl (by simpa [start] using cons.relays_le)
  have hfoot : ∀ st : TextState, Reads lib stack (ascii "directory-footer" ++ [10]) st
      { st with inFooter := true, currentRelay := none } := fun st =>
    .ofLine ⟨by decide, by decide⟩ rfl
  have hunsigned := ((hheader.append hrelay).append (reads_weights cons.bwWeights)).append
    (hfoot _)
  have hsigs := hunsigned.append (reads_daSigs cons.daSigs rfl
    (by simpa [start] using cons.daSigs_le) (by simpa [start] using h.daSigs))
  exact ⟨_, hsigs, hsame, rfl, rfl, rfl, rfl, rfl, rfl, rfl⟩

theorem exists_consensusText_eq (lib : TextLib) (cons : FullConsensus) :
    ∃ rest, consensusText lib cons = ascii "moor-consensus" ++ rest ∧ 6 ≤ rest.length := by
  have hversion : ascii "moor-consensus 1" = ascii "moor-consensus" ++ ascii " 1" := by decide
  simp only [consensusText, unsignedText, headerTexts, flatten_cons, hversion, append_assoc]
  refine ⟨_, rfl, ?_⟩
  simp [length_ascii]
  omega

/-- The document is of the format. -/
theorem consensusText_magic (lib : TextLib) (cons : FullConsensus) :
    ¬ (consensusText lib cons).length < 20 ∧
      (consensusText lib cons).take 14 = ascii "moor-consensus" := by
  obtain ⟨rest, heq, hlen⟩ := exists_consensusText_eq lib cons
  have hmagic : (ascii "moor-consensus").length = 14 := rfl
  rw [heq]
  refine ⟨?_, take_left' hmagic⟩
  rw [length_append, hmagic]
  omega

/-- The parser accepts a document that it gets over with a time of validity. -/
theorem moorConsensusDeserialize_of_reads {cons cons' : FullConsensus}
    (h : Reads lib stack (consensusText lib cons) (.start cons') st) (hst : st.validAfter ≠ 0) :
    moorConsensusDeserialize lib stack cons' (consensusText lib cons) =
      some (st.toFullConsensus, (consensusText lib cons).length) := by
  obtain ⟨hlength, hmagic⟩ := consensusText_magic lib cons
  have hparse := h []
  rw [append_nil] at hparse
  rw [moorConsensusDeserialize, if_neg hlength, if_neg (by rw [hmagic]; simp; omega), hparse]
  exact if_neg hst

/-- A relay with a port in its address. -/
def addressedRelay : NodeDescriptor :=
  { NodeDescriptor.zero with address := Arr.ofList 64 0 (ascii "10.0.0.1:9001"), orPort := 9001 }

theorem admitted_addressedRelay : addressedRelay.Admitted :=
  ⟨wireV1 addressedRelay, addressedRelay, 216, by decide +kernel, rfl⟩

def addressedConsensus : FullConsensus :=
  { FullConsensus.signedSample with
    validAfter := 3600
    relays := [addressedRelay]
    relays_le := by decide }

theorem admitted_addressedConsensus : ∀ d ∈ addressedConsensus.relays, d.Admitted := by
  intro d hd
  rw [mem_singleton.mp hd]
  exact admitted_addressedRelay

theorem textSafe_addressedConsensus : addressedConsensus.TextSafe where
  relays := by
    intro d hd
    rw [mem_singleton.mp hd]
    exact ⟨by decide, by decide, by decide, by decide, by decide⟩
  validAfter := by decide
  validAfter_ne := by decide
  freshUntil := by decide
  validUntil := by decide
  daSigs := by decide

end Moor
