import Moor.Directory.TextFormat

/-!
# What a text leaves of the old consensus

A consensus is read into a structure that holds an older one. The parser empties the tables of
relays and signatures and the shared random values before the first line, but not the three times
and the weights, which are overwritten by their lines. What a document without one of these lines
gives depends on the consensus that was there.

## Main results

* `consensus_deserialize_deterministic_iff`: the old consensus does not matter if and only if the
  document is self-contained.
-/

namespace Moor

open Codec Text Scanf List Option TextState

/-! ### Lines that are taken for themselves -/

section

variable (lib : TextLib) (stack : Field 32)

def signatureKey (line : Bytes) : Option (Field 32) :=
  match scan [.word 63, .blank, .word 127] (line.drop 19) with
  | [.word pkB64, .word _] => some (b64dec lib stack pkB64).1
  | _ => none

/-- The authorities whose signatures have been seen, after a signature line. -/
def noteSignature (ids : List (Field 32)) (line : Bytes) : List (Field 32) :=
  match signatureKey lib stack line with
  | some pk => if ids.length < moorMaxDaAuthorities ∧ pk ∉ ids then ids ++ [pk] else ids
  | none => ids

/-- The PQ parts of a signature that has been seen follow the line. -/
def announcesPq (ids : List (Field 32)) (line : Bytes) : Bool :=
  match scan [.word 63] (line.drop 22) with
  | [.word pkB64] => decide ((b64dec lib stack pkB64).1 ∈ ids)
  | _ => false

/-- Whether the footer has begun and whose signatures have been seen, after a line; nothing if the
next two lines are PQ parts of a signature. -/
def skim (line : Bytes) (inFooter : Bool) (ids : List (Field 32)) :
    Option (Bool × List (Field 32)) :=
  match lineKind line with
  | .footer => some (true, ids)
  | .daSignature => some (inFooter, if inFooter then noteSignature lib stack ids line else ids)
  | .pqDaSignature =>
    if inFooter && announcesPq lib stack ids line then none else some (inFooter, ids)
  | _ => some (inFooter, ids)

/-- The lines that are not PQ parts of a signature, each with whether it is in the footer. -/
def dispatched : List Bytes → Bool → List (Field 32) → List (Bool × Bytes)
  | [], _, _ => []
  | raw :: lines, inFooter, ids =>
    (inFooter, lineText raw) ::
      match skim lib stack (lineText raw) inFooter ids with
      | some (inFooter, ids) => dispatched lines inFooter ids
      | none =>
        match lines with
        | _ :: _ :: lines => dispatched lines inFooter ids
        | _ => []

end

/-! ### The times and the weights -/

/-- What the parser does not empty. -/
@[ext] structure Kept where
  validAfter : UInt64
  freshUntil : UInt64
  validUntil : UInt64
  bwWeights : Fin 8 → Int32

def FullConsensus.kept (cons : FullConsensus) : Kept :=
  ⟨cons.validAfter, cons.freshUntil, cons.validUntil, cons.bwWeights⟩

/-- The state with other times and weights. -/
def TextState.over (st : TextState) (m : Kept) : TextState :=
  { st with
    validAfter := m.validAfter
    freshUntil := m.freshUntil
    validUntil := m.validUntil
    bwWeights := m.bwWeights
    relays_le := st.length_relays_le
    daSigs_le := st.length_daSigs_le }

def Kept.after (lib : TextLib) (m : Kept) (line : Bytes) : Kept :=
  match lineKind line with
  | .validAfter => { m with validAfter := parseTime lib (line.drop 12) }
  | .freshUntil => { m with freshUntil := parseTime lib (line.drop 12) }
  | .validUntil => { m with validUntil := parseTime lib (line.drop 12) }
  | .weights => { m with bwWeights := parseWeights (line.drop 18) m.bwWeights }
  | _ => m

/-- The times and the weights after a list of lines. -/
def Kept.afterAll (lib : TextLib) (m : Kept) (lines : List (Bool × Bytes)) : Kept :=
  lines.foldl (fun m p => m.after lib p.2) m

/-- What becomes of a line, with other times and weights. -/
def LineResult.over (m : Kept) : LineResult → LineResult
  | .malformed => .malformed
  | .next st => .next (st.over m)
  | .pqParts found => .pqParts found

section Over

variable (st : TextState) (m : Kept)

@[simp] theorem inFooter_over : (st.over m).inFooter = st.inFooter := rfl

@[simp] theorem daSigs_over : (st.over m).daSigs = st.daSigs := rfl

theorem onRelay_over (f : NodeDescriptor → NodeDescriptor) :
    (st.over m).onRelay f = (st.onRelay f).over m := by
  obtain ⟨cons, inFooter, currentRelay⟩ := st
  cases inFooter <;> cases currentRelay <;> rfl

theorem addRelay_over (d : NodeDescriptor) :
    (st.over m).addRelay d = (st.addRelay d).map (·.over m) := by
  by_cases h : st.relays.length + 1 > moorMaxRelays
  · have hover : (st.over m).addRelay d = none := dif_pos h
    have hst : st.addRelay d = none := dif_pos h
    simp [hover, hst]
  have hover : (st.over m).addRelay d = _ := dif_neg h
  have hst : st.addRelay d = _ := dif_neg h
  rw [hover, hst]
  rfl

theorem addDaSig_over (sig : DaSig) : (st.over m).addDaSig sig = (st.addDaSig sig).over m := by
  by_cases h : st.daSigs.length ≥ moorMaxDaAuthorities
  · have hover : (st.over m).addDaSig sig = st.over m := dif_pos h
    have hst : st.addDaSig sig = st := dif_pos h
    rw [hover, hst]
  have hover : (st.over m).addDaSig sig = _ := dif_neg h
  have hst : st.addDaSig sig = _ := dif_neg h
  rw [hover, hst]
  rfl

theorem parseDaSignature_over (lib : TextLib) (stack : Field 32) (args : Bytes) :
    parseDaSignature lib stack args (st.over m) = (parseDaSignature lib stack args st).over m := by
  unfold parseDaSignature
  split
  · rename_i pkB64 sigB64 _
    dsimp only
    rw [addDaSig_over]
    by_cases hany : st.daSigs.any (fun sig => sig.identityPk = (b64dec lib stack pkB64).1) = true
    · rw [if_pos hany]
      exact if_pos hany
    · rw [if_neg hany]
      exact if_neg hany
  · rfl

/-- A line does the same whatever the times and the weights are, but for these. -/
theorem parseLine_over (lib : TextLib) (stack : Field 32) (line : Bytes) :
    parseLine lib stack line (st.over m) =
      (parseLine lib stack line st).over (m.after lib line) := by
  unfold parseLine Kept.after
  cases lineKind line with
  | version | knownFlags | other | validAfter | freshUntil | validUntil | weights | footer => rfl
  | srvCurrent | srvPrevious =>
    dsimp only [TextState.over]
    split <;> rfl
  | relay =>
    rw [addRelay_over, inFooter_over]
    by_cases hfoot : st.inFooter = true
    · rw [if_pos hfoot, if_pos hfoot]
      rfl
    · rw [if_neg hfoot, if_neg hfoot]
      cases st.addRelay (parseRelay lib (line.drop 2)) <;> rfl
  | onion | address6 | kem | flags | bandwidth | geo | family | signature | contact =>
    dsimp only
    rw [onRelay_over]
    rfl
  | daSignature =>
    dsimp only
    rw [parseDaSignature_over, inFooter_over, daSigs_over]
    split <;> rfl
  | pqDaSignature =>
    have hslot : pqDaSignatureSlot lib stack (line.drop 22) (st.over m) =
        pqDaSignatureSlot lib stack (line.drop 22) st := rfl
    dsimp only
    rw [hslot, inFooter_over]
    split
    · rfl
    · split <;> rfl

end Over

/-! ### The lines that the parser takes -/

/-- The authorities whose signatures the parser has. -/
def TextState.ids (st : TextState) : List (Field 32) := st.daSigs.map (·.identityPk)

/-- A shared random value that cannot be decoded. -/
def srvMalformed (lib : TextLib) (line : Bytes) : Bool :=
  match lineKind line with
  | .srvCurrent => (b64dec lib (Field.zero 32) (line.drop 26)).2 == 0
  | .srvPrevious => (b64dec lib (Field.zero 32) (line.drop 27)).2 == 0
  | _ => false

def startsRelay (inFooter : Bool) (line : Bytes) : Bool := !inFooter && lineKind line == .relay

section Skim

variable {lib : TextLib} {stack : Field 32} {line : Bytes} {st st' : TextState}

theorem onRelay_frame (f : NodeDescriptor → NodeDescriptor) :
    (st.onRelay f).inFooter = st.inFooter ∧ (st.onRelay f).ids = st.ids ∧
      (st.onRelay f).relays.length = st.relays.length := by
  unfold onRelay
  split
  · exact ⟨rfl, rfl, rfl⟩
  split
  · exact ⟨rfl, rfl, rfl⟩
  · exact ⟨rfl, rfl, length_modify ..⟩

theorem parseDaSignature_frame (args : Bytes) :
    (parseDaSignature lib stack args st).inFooter = st.inFooter ∧
      (parseDaSignature lib stack args st).relays = st.relays := by
  unfold parseDaSignature
  split
  · dsimp only
    split
    · exact ⟨rfl, rfl⟩
    · unfold addDaSig
      split <;> exact ⟨rfl, rfl⟩
  · exact ⟨rfl, rfl⟩

theorem ids_parseDaSignature (hroom : st.daSigs.length < moorMaxDaAuthorities) :
    (parseDaSignature lib stack (line.drop 19) st).ids = noteSignature lib stack st.ids line := by
  unfold parseDaSignature noteSignature signatureKey
  generalize scan [.word 63, .blank, .word 127] (line.drop 19) = values
  split
  · rename_i pkB64 sigB64
    dsimp only
    have hmem : st.daSigs.any (fun sig => sig.identityPk = (b64dec lib stack pkB64).1) = true ↔
        (b64dec lib stack pkB64).1 ∈ st.ids := by
      simp [ids]
    by_cases hseen : (b64dec lib stack pkB64).1 ∈ st.ids
    · rw [if_pos (hmem.mpr hseen), if_neg fun h => h.2 hseen]
    · rw [if_neg fun h => hseen (hmem.mp h), addDaSig, dif_neg (Nat.not_le.mpr hroom),
        if_pos ⟨by simpa [ids] using hroom, hseen⟩]
      simp [ids]
  · simp

theorem isSome_pqDaSignatureSlot :
    (pqDaSignatureSlot lib stack (line.drop 22) st).isSome = announcesPq lib stack st.ids line := by
  unfold pqDaSignatureSlot announcesPq
  generalize scan [.word 63] (line.drop 22) = values
  split
  · rw [Bool.eq_iff_iff, findIdx?_isSome]
    simp [ids]
  · simp

/-- What one line does, as far as it decides on the lines that are taken and on a refusal. -/
def LineSpec (lib : TextLib) (stack : Field 32) (line : Bytes) (st : TextState) : LineResult → Prop
  | .malformed => srvMalformed lib line = true ∨
    (startsRelay st.inFooter line = true ∧ moorMaxRelays < st.relays.length + 1)
  | .next st' => skim lib stack line st.inFooter st.ids = some (st'.inFooter, st'.ids) ∧
    srvMalformed lib line = false ∧
    st'.relays.length = st.relays.length + (startsRelay st.inFooter line).toNat
  | .pqParts _ => skim lib stack line st.inFooter st.ids = none ∧ lineKind line = .pqDaSignature

theorem lineSpec_of_parseLine {result : LineResult} (h : parseLine lib stack line st = result) :
    LineSpec lib stack line st result := by
  subst h
  unfold parseLine
  cases hkind : lineKind line with
  | version | knownFlags | other | validAfter | freshUntil | validUntil | footer | weights =>
    simp [LineSpec, skim, srvMalformed, startsRelay, hkind, ids]
  | onion | address6 | kem | flags | bandwidth | geo | family | signature | contact =>
    simp [LineSpec, skim, srvMalformed, startsRelay, hkind, onRelay_frame]
  | srvCurrent | srvPrevious =>
    dsimp only
    split
    · rename_i hzero
      refine .inl ?_
      rw [srvMalformed, hkind]
      exact beq_iff_eq.mpr hzero
    · rename_i hcount
      have hsrv : srvMalformed lib line = false := by
        rw [srvMalformed, hkind]
        exact beq_eq_false_iff_ne.mpr hcount
      simp [LineSpec, skim, hsrv, startsRelay, hkind, ids]
  | relay =>
    dsimp only
    split
    · rename_i hfoot
      simp [LineSpec, skim, srvMalformed, startsRelay, hkind, hfoot]
    rename_i hfoot
    unfold addRelay
    by_cases hroom : moorMaxRelays < st.relays.length + 1
    · simp [LineSpec, startsRelay, hkind, hfoot, hroom]
    · simp [LineSpec, skim, srvMalformed, startsRelay, hkind, hfoot, hroom, ids]
  | daSignature =>
    dsimp only
    split
    · rename_i hskip
      have hnote : st.inFooter = true → noteSignature lib stack st.ids line = st.ids := by
        intro hfoot
        have hfull : ¬ st.ids.length < moorMaxDaAuthorities := by simpa [ids, hfoot] using hskip
        unfold noteSignature
        split
        · exact if_neg fun hroom => hfull hroom.1
        · rfl
      simpa [LineSpec, skim, srvMalformed, startsRelay, hkind] using hnote
    · rename_i hfull
      rw [Bool.not_eq_true, Bool.or_eq_false_iff, Bool.not_eq_false', decide_eq_false_iff_not,
        Nat.not_le] at hfull
      simp [LineSpec, skim, srvMalformed, startsRelay, hkind, parseDaSignature_frame,
        ids_parseDaSignature hfull.2, hfull.1]
  | pqDaSignature =>
    dsimp only
    split
    · rename_i hfoot
      simp [LineSpec, skim, srvMalformed, startsRelay, hkind, (Bool.not_eq_true' _).mp hfoot]
    rename_i hfoot
    have hslot := @isSome_pqDaSignatureSlot lib stack line st
    split
    · rename_i found hfound
      simp_all [LineSpec, skim]
    · rename_i hnone
      simp_all [LineSpec, skim, srvMalformed, startsRelay]

theorem after_of_pqParts {found : ℕ} (h : parseLine lib stack line st = .pqParts found) (m : Kept) :
    m.after lib line = m := by
  rw [Kept.after, (lineSpec_of_parseLine h).2]

theorem ids_onDaSig {f : DaSig → DaSig} (hf : ∀ sig, (f sig).identityPk = sig.identityPk) (i : ℕ) :
    (st.onDaSig i f).ids = st.ids := by
  apply ext_getElem?
  intro j
  rw [ids, ids, onDaSig, getElem?_map, getElem?_map, getElem?_modify]
  cases st.daSigs[j]? with
  | none => rfl
  | some sig =>
    simp only [Option.map_eq_map, map_some, some_inj]
    split
    · exact hf sig
    · rfl

theorem ids_pqParts (found : ℕ) (pqPk pqSig : Bytes) :
    ((st.onDaSig found fun sig => { sig with pqPk := (b64dec lib sig.pqPk pqPk).1 }).onDaSig found
      fun sig => { sig with
        pqSignature := (b64dec lib sig.pqSignature pqSig).1, hasPq := true }).ids = st.ids := by
  rw [ids_onDaSig, ids_onDaSig]
  all_goals exact fun _ => rfl

end Skim

variable {lib : TextLib} {stack : Field 32} {raw : Bytes} {lines : List Bytes} {st : TextState}

theorem dispatched_of_some {inFooter inFooter' : Bool} {ids ids' : List (Field 32)}
    (h : skim lib stack (lineText raw) inFooter ids = some (inFooter', ids')) :
    dispatched lib stack (raw :: lines) inFooter ids =
      (inFooter, lineText raw) :: dispatched lib stack lines inFooter' ids' := by
  rw [dispatched.eq_def]
  dsimp only
  rw [h]

theorem dispatched_of_none {inFooter : Bool} {ids : List (Field 32)}
    (h : skim lib stack (lineText raw) inFooter ids = none) :
    dispatched lib stack (raw :: lines) inFooter ids = (inFooter, lineText raw) ::
      match lines with
      | _ :: _ :: lines => dispatched lib stack lines inFooter ids
      | _ => [] := by
  rw [dispatched.eq_def]
  dsimp only
  rw [h]

/-- The parser does the same whatever the times and the weights are, but for these, which are those
after the lines that are taken for themselves. -/
theorem parseLines_over (m : Kept) :
    parseLines lib stack lines (st.over m) = (parseLines lib stack lines st).map fun st' =>
      st'.over (m.afterAll lib (dispatched lib stack lines st.inFooter st.ids)) := by
  fun_induction parseLines lib stack lines st generalizing m with
  | case1 st => rfl
  | case2 raw lines st h =>
    rw [parseLines, parseLine_over, h]
    rfl
  | case3 raw lines st st' h ih =>
    rw [parseLines, parseLine_over, h]
    dsimp only [LineResult.over]
    rw [ih, dispatched_of_some (lineSpec_of_parseLine h).1]
    rfl
  | case4 raw st found h | case5 raw st found h pqPk =>
    rw [parseLines, parseLine_over, h, dispatched_of_none (lineSpec_of_parseLine h).1]
    dsimp only [LineResult.over, Kept.afterAll, foldl]
    rw [after_of_pqParts h]
    rfl
  | case6 raw st found h pqPk st' pqSig lines ih =>
    rw [parseLines, parseLine_over, h, dispatched_of_none (lineSpec_of_parseLine h).1]
    dsimp only [LineResult.over, Kept.afterAll, foldl]
    rw [after_of_pqParts h]
    have hrest := ih m
    rw [ids_pqParts] at hrest
    exact hrest

/-! ### Documents that are refused -/

/-- A document is refused for a shared random value or for too many relays. -/
theorem parseLines_eq_none_iff :
    parseLines lib stack lines st = none ↔
      (dispatched lib stack lines st.inFooter st.ids).any (fun p => srvMalformed lib p.2) = true ∨
      moorMaxRelays < st.relays.length +
        (dispatched lib stack lines st.inFooter st.ids).countP (fun p => startsRelay p.1 p.2) := by
  fun_induction parseLines lib stack lines st with
  | case1 st => simpa [dispatched] using st.relays_le
  | case2 raw lines st h =>
    obtain ⟨rest, hrest⟩ : ∃ rest, dispatched lib stack (raw :: lines) st.inFooter st.ids =
        (st.inFooter, lineText raw) :: rest := ⟨_, dispatched.eq_def ..⟩
    rw [hrest, any_cons, countP_cons]
    refine iff_of_true rfl ?_
    rcases lineSpec_of_parseLine h with hsrv | ⟨hstarts, hfull⟩
    · exact .inl (by rw [hsrv, Bool.true_or])
    · rw [if_pos hstarts]
      omega
  | case3 raw lines st st' h ih =>
    have ⟨hskim, hsrv, hlen⟩ := lineSpec_of_parseLine h
    rw [ih, dispatched_of_some hskim, hlen, any_cons, hsrv, Bool.false_or,
      countP_cons, Bool.toNat, Bool.cond_eq_ite, Nat.add_assoc, Nat.add_comm (ite _ _ _)]
  | case4 raw st found h | case5 raw st found h pqPk =>
    have ⟨hskim, hkind⟩ := lineSpec_of_parseLine h
    rw [dispatched_of_none hskim]
    simpa [srvMalformed, startsRelay, hkind] using st.relays_le
  | case6 raw st found h pqPk st' pqSig lines ih =>
    have ⟨hskim, hkind⟩ := lineSpec_of_parseLine h
    have hstarts : startsRelay st.inFooter (lineText raw) = false := by simp [startsRelay, hkind]
    rw [ids_pqParts] at ih
    rw [dispatched_of_none hskim, ih, any_cons, countP_cons, srvMalformed, hkind, hstarts,
      Bool.false_or]
    rfl

/-! ### Self-contained documents -/

def timeOf (lib : TextLib) (kind : LineKind) (line : Bytes) : Option UInt64 :=
  if lineKind line = kind then some (parseTime lib (line.drop 12)) else none

def weightsIn (line : Bytes) : Option (Fin 8 → Int32) :=
  if lineKind line = .weights then scanWeights (line.drop 18) else none

section Kept

variable (lib : TextLib) (m : Kept) (lines : List (Bool × Bytes))

/-- A field that each line sets or leaves is that of the last line that sets it. -/
theorem Kept.field_afterAll {β : Type*} (field : Kept → β) (f : Bytes → Option β)
    (h : ∀ m line, field (m.after lib line) = (f line).getD (field m)) :
    field (m.afterAll lib lines) =
      ((lines.filterMap fun p => f p.2).getLast?).getD (field m) := by
  induction lines generalizing m with
  | nil => rfl
  | cons p lines ih =>
    refine (ih (m := m.after lib p.2)).trans ?_
    rw [h]
    cases hf : f p.2 with
    | none => simp [hf]
    | some b => simp [hf, getLast?_cons]

theorem validAfter_afterAll : (m.afterAll lib lines).validAfter =
    ((lines.filterMap fun p => timeOf lib .validAfter p.2).getLast?).getD m.validAfter := by
  refine m.field_afterAll lib lines Kept.validAfter _ fun m line => ?_
  unfold Kept.after timeOf
  cases lineKind line <;> rfl

theorem freshUntil_afterAll : (m.afterAll lib lines).freshUntil =
    ((lines.filterMap fun p => timeOf lib .freshUntil p.2).getLast?).getD m.freshUntil := by
  refine m.field_afterAll lib lines Kept.freshUntil _ fun m line => ?_
  unfold Kept.after timeOf
  cases lineKind line <;> rfl

theorem validUntil_afterAll : (m.afterAll lib lines).validUntil =
    ((lines.filterMap fun p => timeOf lib .validUntil p.2).getLast?).getD m.validUntil := by
  refine m.field_afterAll lib lines Kept.validUntil _ fun m line => ?_
  unfold Kept.after timeOf
  cases lineKind line <;> rfl

theorem bwWeights_afterAll : (m.afterAll lib lines).bwWeights =
    ((lines.filterMap fun p => weightsIn p.2).getLast?).getD m.bwWeights := by
  refine m.field_afterAll lib lines Kept.bwWeights _ fun m line => ?_
  unfold Kept.after weightsIn
  cases lineKind line <;> rfl

end Kept

/-- The document has all three times and the weights, or is refused whatever was there: it is too
short or of another format, has a shared random value that cannot be decoded or too many relays, or
its last beginning of validity cannot be read. -/
def SelfContained (lib : TextLib) (stack : Field 32) (data : Bytes) : Prop :=
  let lines := dispatched lib stack (splitLines data) false []
  data.length < 20 ∨ data.take 14 ≠ ascii "moor-consensus" ∨
    lines.any (fun p => srvMalformed lib p.2) = true ∨
    moorMaxRelays < lines.countP (fun p => startsRelay p.1 p.2) ∨
    (lines.filterMap fun p => timeOf lib .validAfter p.2).getLast? = some 0 ∨
    ((lines.filterMap fun p => timeOf lib .validAfter p.2) ≠ [] ∧
      (lines.filterMap fun p => timeOf lib .freshUntil p.2) ≠ [] ∧
      (lines.filterMap fun p => timeOf lib .validUntil p.2) ≠ [] ∧
      (lines.filterMap fun p => weightsIn p.2) ≠ [])

theorem start_eq_over (cons : FullConsensus) :
    TextState.start cons = (TextState.start FullConsensus.init).over cons.kept := rfl

variable {data : Bytes}

/-- What is read from a document of the format, from the lines for a new consensus. -/
theorem moorConsensusDeserialize_eq (cons : FullConsensus)
    (hlen : ¬ data.length < 20) (hmagic : data.take 14 = ascii "moor-consensus") :
    moorConsensusDeserialize lib stack cons data =
      (parseLines lib stack (splitLines data) (.start .init)).bind fun st =>
        let m := cons.kept.afterAll lib (dispatched lib stack (splitLines data) false [])
        if m.validAfter = 0 then none else some ((st.over m).toFullConsensus, data.length) := by
  have hformat : ¬ (data.length < 17 ∨ data.take 14 ≠ ascii "moor-consensus") := by
    rw [not_or, not_not]
    exact ⟨by omega, hmagic⟩
  have hlines := @parseLines_over lib stack (splitLines data) (.start .init) cons.kept
  rw [← start_eq_over] at hlines
  rw [moorConsensusDeserialize, if_neg hlen, if_neg hformat]
  rw [hlines]
  cases parseLines lib stack (splitLines data) (.start .init) <;> rfl

/-- The consensus with the times and the weights. -/
def Kept.consensus (m : Kept) : FullConsensus :=
  { FullConsensus.init with
    validAfter := m.validAfter
    freshUntil := m.freshUntil
    validUntil := m.validUntil
    bwWeights := m.bwWeights }

theorem getD_ne_zero {o : Option UInt64} (h : o ≠ some 0) {v : UInt64} (hv : v ≠ 0) :
    o.getD v ≠ 0 := by
  cases o with
  | none => exact hv
  | some t => exact fun hzero => h (congrArg some hzero)

theorem ne_nil_of_getD_eq {α : Type*} {l : List α} {a b : α} (hne : a ≠ b)
    (h : l.getLast?.getD a = l.getLast?.getD b) : l ≠ [] := by
  rintro rfl
  exact hne h

theorem getD_getLast?_eq {α : Type*} {l : List α} (h : l ≠ []) (a b : α) :
    l.getLast?.getD a = l.getLast?.getD b := by
  rw [getLast?_eq_getLast_of_ne_nil h]
  rfl

/-- A document of the format that is not refused for its lines. -/
theorem deterministic_iff_of_parseLines (hlen : ¬ data.length < 20)
    (hmagic : data.take 14 = ascii "moor-consensus")
    (hparse : parseLines lib stack (splitLines data) (.start .init) = some st) :
    (∀ cons₁ cons₂, moorConsensusDeserialize lib stack cons₁ data =
      moorConsensusDeserialize lib stack cons₂ data) ↔
    let lines := dispatched lib stack (splitLines data) false []
    (lines.filterMap fun p => timeOf lib .validAfter p.2).getLast? = some 0 ∨
    ((lines.filterMap fun p => timeOf lib .validAfter p.2) ≠ [] ∧
      (lines.filterMap fun p => timeOf lib .freshUntil p.2) ≠ [] ∧
      (lines.filterMap fun p => timeOf lib .validUntil p.2) ≠ [] ∧
      (lines.filterMap fun p => weightsIn p.2) ≠ []) := by
  generalize hlines : dispatched lib stack (splitLines data) false [] = lines
  have hread : ∀ cons, moorConsensusDeserialize lib stack cons data =
      if (cons.kept.afterAll lib lines).validAfter = 0 then none
      else some ((st.over (cons.kept.afterAll lib lines)).toFullConsensus, data.length) := by
    intro cons
    rw [moorConsensusDeserialize_eq cons hlen hmagic, hparse, hlines]
    rfl
  constructor
  · intro h
    by_cases hzero : (lines.filterMap fun p => timeOf lib .validAfter p.2).getLast? = some 0
    · exact .inl hzero
    have hnonzero : ∀ m : Kept, m.validAfter ≠ 0 →
        moorConsensusDeserialize lib stack m.consensus data =
          some ((st.over (m.afterAll lib lines)).toFullConsensus, data.length) := by
      intro m hm
      refine (hread m.consensus).trans (if_neg ?_)
      rw [validAfter_afterAll]
      exact getD_ne_zero hzero hm
    -- Two consensuses that differ in all that is kept are read into.
    have hsame := h (Kept.consensus ⟨1, 1, 1, fun _ => 1⟩) (Kept.consensus ⟨2, 2, 2, fun _ => 2⟩)
    rw [hnonzero _ (by decide), hnonzero _ (by decide)] at hsame
    have hcons := congrArg FullConsensus.kept (Prod.mk.inj (some_inj.mp hsame)).1
    have hvalidAfter := congrArg Kept.validAfter hcons
    have hfreshUntil := congrArg Kept.freshUntil hcons
    have hvalidUntil := congrArg Kept.validUntil hcons
    have hbwWeights := congrArg Kept.bwWeights hcons
    dsimp only [FullConsensus.kept, TextState.over]
      at hvalidAfter hfreshUntil hvalidUntil hbwWeights
    rw [validAfter_afterAll, validAfter_afterAll] at hvalidAfter
    rw [freshUntil_afterAll, freshUntil_afterAll] at hfreshUntil
    rw [validUntil_afterAll, validUntil_afterAll] at hvalidUntil
    rw [bwWeights_afterAll, bwWeights_afterAll] at hbwWeights
    exact .inr ⟨ne_nil_of_getD_eq (by decide) hvalidAfter,
      ne_nil_of_getD_eq (by decide) hfreshUntil, ne_nil_of_getD_eq (by decide) hvalidUntil,
      ne_nil_of_getD_eq (by decide) hbwWeights⟩
  · intro h cons₁ cons₂
    rw [hread, hread]
    rcases h with hzero | ⟨hvalidAfter, hfreshUntil, hvalidUntil, hbwWeights⟩
    · have hrefused : ∀ m : Kept, (m.afterAll lib lines).validAfter = 0 := by
        simp [validAfter_afterAll, hzero]
      simp [if_pos (hrefused _)]
    have hkept : cons₁.kept.afterAll lib lines = cons₂.kept.afterAll lib lines := by
      apply Kept.ext
      · rw [validAfter_afterAll, validAfter_afterAll]
        exact getD_getLast?_eq hvalidAfter _ _
      · rw [freshUntil_afterAll, freshUntil_afterAll]
        exact getD_getLast?_eq hfreshUntil _ _
      · rw [validUntil_afterAll, validUntil_afterAll]
        exact getD_getLast?_eq hvalidUntil _ _
      · rw [bwWeights_afterAll, bwWeights_afterAll]
        exact getD_getLast?_eq hbwWeights _ _
    rw [hkept]

/-- What is read does not depend on the consensus that was there if and only if the document is
self-contained. -/
theorem consensus_deserialize_deterministic_iff (lib : TextLib) (stack : Field 32) (data : Bytes) :
    (∀ cons₁ cons₂, moorConsensusDeserialize lib stack cons₁ data =
      moorConsensusDeserialize lib stack cons₂ data) ↔ SelfContained lib stack data := by
  by_cases hlen : data.length < 20
  · refine iff_of_true (fun cons₁ cons₂ => ?_) (.inl hlen)
    simp [moorConsensusDeserialize, if_pos hlen]
  by_cases hmagic : data.take 14 = ascii "moor-consensus"
  · have hrefused := @parseLines_eq_none_iff lib stack (splitLines data) (.start .init)
    have hempty : (start .init).relays.length = 0 := rfl
    rw [hempty, Nat.zero_add] at hrefused
    cases hparse : parseLines lib stack (splitLines data) (.start .init) with
    | none =>
      refine iff_of_true (fun cons₁ cons₂ => ?_) ?_
      · rw [moorConsensusDeserialize_eq cons₁ hlen hmagic,
          moorConsensusDeserialize_eq cons₂ hlen hmagic, hparse]
        rfl
      · exact .inr (.inr ((hrefused.mp hparse).imp_right .inl))
    | some st =>
      have haccepted := mt hrefused.mpr (by rw [hparse]; exact nofun)
      rw [not_or] at haccepted
      rw [deterministic_iff_of_parseLines hlen hmagic hparse]
      constructor
      · exact fun h => .inr (.inr (.inr (.inr h)))
      rintro (h | h | h | h | h)
      · exact absurd h hlen
      · exact absurd hmagic h
      · exact absurd h haccepted.1
      · exact absurd h haccepted.2
      · exact h
  · refine iff_of_true (fun cons₁ cons₂ => ?_) (.inr (.inl hmagic))
    rw [moorConsensusDeserialize, if_neg hlen, if_pos (.inr hmagic), moorConsensusDeserialize,
      if_neg hlen, if_pos (.inr hmagic)]

/-- A document without times is refused for a new consensus, and else takes over the times that were
there. -/
theorem consensus_deserialize_keeps_times :
    let data := ascii "moor-consensus 1" ++ [10] ++ (ascii "directory-footer" ++ [10])
    let old := Kept.consensus ⟨1, 2, 3, fun _ => 10000⟩
    (moorConsensusDeserialize TextLib.sample (Field.zero 32) FullConsensus.init data).isNone ∧
      (moorConsensusDeserialize TextLib.sample (Field.zero 32) old data).map
        (fun r => (r.1.validAfter, r.1.validUntil, r.1.bwWeights 0)) = some (1, 3, 10000) := by
  decide +kernel

end Moor
