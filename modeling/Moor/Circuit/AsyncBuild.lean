import Moor.Circuit.Client

/-!
# Building a circuit without waiting

The builder sends a request, remembers what it waits for, and goes on when the answer comes. The
cells it gets may be anything; the builder may also be told that the guard is connected, and that
its time is over.
-/

namespace Moor

open Codec

inductive CbuildState
  | idle
  | connecting
  | waitCreated
  | waitCreatedPq
  | waitExtendedMid
  | waitExtendedExit
  | ready
  | failed
  deriving DecidableEq

/-- Guard, middle and exit. -/
abbrev Path := Arr NodeDescriptor 3

def Path.hop (path : Path) (i : ℕ) : NodeDescriptor := path.val.getD i NodeDescriptor.zero

/-- What the builder remembers of the hop it waits for. -/
structure CbuildCtx where
  state : CbuildState
  path : Path
  eph : KeyPair
  relayCurvePk : Field 32
  kemSs : Field 32
  pqHop : Bool
  cancelled : Bool

/-- A circuit and its builder. `completed` is the status it ended with, and `answers` has the
commands that the established hops were answered with. -/
structure Builder where
  circ : Circuit
  buildCtx : Option CbuildCtx
  markedForClose : Bool
  completed : Option Bool
  answers : List UInt8

inductive BuildEvent
  | connected (ok : Bool)
  | cell (cell : Cell)
  | timeout

section

variable (C : Crypto) (host : Host)

def cbuildSendCreate (ctx : CbuildCtx) : Prog Circuit CbuildCtx := do
  let guard := ctx.path.hop 0
  let eph ← cryptoBoxKeygen host
  let circuitId ← Prog.read Circuit.circuitId
  let cell := cellCreate circuitId guard.identityPk eph.pk
  connectionSendCell (if pqHop guard then { cell with command := cellCreatePqCmd } else cell)
  return { ctx with
    state := if pqHop guard then .waitCreatedPq else .waitCreated
    eph := eph
    relayCurvePk := guard.onionPk
    pqHop := pqHop guard }

variable (ctx : CbuildCtx)

/-- Offers a KEM secret to the next relay, if it has PQ. -/
def cbuildOfferKem (next : NodeDescriptor) : Prog Circuit (Field 32) :=
  if pqHop next then do
    let (kemCt, kemSs) ← kemEncapsulate C host next.kemPk
    sendKemOffer C kemCt
    return kemSs
  else return ctx.kemSs

def cbuildSendExtend (hopIdx : ℕ) : Prog Circuit CbuildCtx := do
  let next := ctx.path.hop hopIdx
  let eph ← cryptoBoxKeygen host
  let kemSs ← cbuildOfferKem C host ctx next
  sendForward C cellRelayEarlyCmd (if pqHop next then relayExtendPq else relayExtend2)
    (if pqHop next then extendPqData (Arr.ofList 64 0 (cString next.address)) next eph.pk
      else extend2Data host next eph.pk)
  return { ctx with
    state := if hopIdx = 1 then .waitExtendedMid else .waitExtendedExit
    eph := eph
    relayCurvePk := next.onionPk
    kemSs := kemSs
    pqHop := pqHop next }

def cbuildSendNextOnionSkin (ctx : CbuildCtx) : Prog Circuit CbuildCtx := do
  let hops ← Prog.read Circuit.hops
  if moorCircuitHops ≤ hops.length then return { ctx with state := .ready }
  else cbuildSendExtend C host ctx hops.length

def cbuildCreatedKeys (keySeed : Field 32) : Prog Circuit HopKeys :=
  if ctx.pqHop then do
    let (kemCt, kemSs) ← kemEncapsulate C host (ctx.path.hop 0).kemPk
    sendKemCt kemCt
    return circuitKxPq C kemSs
  else return circuitKx C keySeed

/-- Handles the answer of the guard. Where it fails, the build is over. -/
def buildHandleCreated (cell : Cell) : Prog Circuit CbuildCtx := do
  Prog.require (cell.command = if ctx.pqHop then cellCreatedPqCmd else cellCreatedCmd)
  let guard := ctx.path.hop 0
  let keySeed ← Prog.lift (ckeClient C ctx.eph ctx.relayCurvePk guard.identityPk
    (relayEphPk cell.payload.val) (recvAuthTag cell.payload.val))
  let keys ← cbuildCreatedKeys C host ctx keySeed
  Prog.modify fun circ => { circ with hops := [keys.hop guard.identityPk] }
  cbuildSendNextOnionSkin C host { ctx with
    eph := { ctx.eph with sk := Field.zero 32 }
    kemSs := if ctx.pqHop then Field.zero 32 else ctx.kemSs }

def buildHandleExtended (relayCmd : UInt8) (data : Bytes) : Prog Circuit CbuildCtx := do
  Prog.require (relayCmd = relayExtended ∨ relayCmd = relayExtended2 ∨ relayCmd = relayExtendedPq)
  Prog.require (64 ≤ data.length)
  let hops ← Prog.read Circuit.hops
  let next := ctx.path.hop hops.length
  let keySeed ← Prog.lift (ckeClient C ctx.eph ctx.relayCurvePk next.identityPk
    (relayEphPk data) (recvAuthTag data))
  let hybrid : Bool := ctx.pqHop && relayCmd == relayExtendedPq
  let keys := if hybrid then circuitKxPq C ctx.kemSs else circuitKx C keySeed
  Prog.modify fun circ => { circ with hops := circ.hops ++ [keys.hop next.identityPk] }
  cbuildSendNextOnionSkin C host { ctx with
    eph := { ctx.eph with sk := Field.zero 32 }
    kemSs := if hybrid then Field.zero 32 else ctx.kemSs }

/-! ### Events -/

namespace Builder

variable (b : Builder)

def cbuildFinish (ok : Bool) : Builder :=
  { b with buildCtx := none, completed := some ok }

/-- The circuit will be closed, and gets no more cells. -/
def markForClose (ctx : CbuildCtx) : Builder :=
  { b with markedForClose := true, buildCtx := some { ctx with cancelled := true } }

/-- Runs a handler, which may fail or bring the circuit to its end. -/
def handle (answers : List UInt8) (handler : Prog Circuit CbuildCtx) : Builder :=
  match handler b.circ with
  | (none, circ) => { b with circ := circ }.cbuildFinish false
  | (some ctx, circ) =>
    if ctx.state = .ready then { b with circ := circ, answers := answers }.cbuildFinish true
    else { b with circ := circ, answers := answers, buildCtx := some ctx }

/-- Handles a relay cell after decryption. -/
def processRelay (ctx : CbuildCtx) (relay : RelayPayload) : Builder :=
  if relay.recognized ≠ 0 then b
  else if relay.relayCommand = relayExtended ∨ relay.relayCommand = relayExtended2 ∨
      relay.relayCommand = relayExtendedPq then
    if ctx.state = .waitExtendedMid ∨ ctx.state = .waitExtendedExit then
      b.handle (b.answers ++ [relay.relayCommand])
        (buildHandleExtended C host ctx relay.relayCommand relay.data)
    else b.markForClose ctx
  else b

def processCircuitCell (ctx : CbuildCtx) (cell : Cell) : Builder :=
  if cell.command = cellDestroyCmd then b.cbuildFinish false
  else if cell.command = cellCreatedCmd ∨ cell.command = cellCreatedPqCmd then
    if ctx.state = .waitCreated ∨ ctx.state = .waitCreatedPq then
      b.handle [cell.command] (buildHandleCreated C host ctx cell)
    else b
  else if cell.command ≠ cellRelayCmd then b
  else
    match circuitDecryptBackward C b.circ.hops cell.payload with
    | (hops, none) => { b with circ := { b.circ with hops := hops } }.markForClose ctx
    | (hops, some payload) =>
      { b with circ := { b.circ with hops := hops } }.processRelay C host ctx (relayUnpack payload)

/-- What an event does. Nothing happens once the build is over. -/
def step (event : BuildEvent) : Builder :=
  match b.buildCtx with
  | none => b
  | some ctx =>
    match event with
    | .connected ok =>
      if ctx.cancelled || !ok then b.cbuildFinish false
      else b.handle [] (cbuildSendCreate host ctx)
    | .cell cell =>
      if b.markedForClose || cell.circuitId != b.circ.circuitId then b
      else b.processCircuitCell C host ctx cell
    | .timeout => b.cbuildFinish false

/-- A builder that waits for the connection to the guard. -/
def start (circuitId : UInt32) (path : Path) (room drawn : ℕ) : Builder where
  circ := ⟨circuitId, [], ⟨room, [], []⟩, drawn⟩
  buildCtx := some
    { state := .connecting
      path := path
      eph := ⟨Field.zero 32, Field.zero 32⟩
      relayCurvePk := Field.zero 32
      kemSs := Field.zero 32
      pqHop := false
      cancelled := false }
  markedForClose := false
  completed := none
  answers := []

def run (events : List BuildEvent) : Builder := events.foldl (step C host) b

end Builder

end

/-! ### What the builder waits for -/

open Prog Circuit

variable (C : Crypto) (host : Host) (path : Path)

/-- The builder waits for the answer of the next hop, with the secret that it offered to it. -/
structure WaitsExtended (ctx : CbuildCtx) (circ : Circuit) : Prop where
  waits : ctx.state = .waitExtendedMid ∨ ctx.state = .waitExtendedExit
  pos : 0 < circ.keys.length
  length : circ.keys.length < moorCircuitHops
  pqHop_eq : ctx.pqHop = pqHop (path.hop circ.keys.length)
  kemSs : ctx.pqHop = true →
    Encapsulated C host circ.drawn (path.hop circ.keys.length).kemPk ctx.kemSs

/-- The builder has gone on with the keys as they were: it waits for the next hop, or is ready. -/
structure Onward (circ : Circuit) (ctx : CbuildCtx) (circ' : Circuit) : Prop where
  path_eq : ctx.path = path
  same : circ.SameKeys circ'
  next : (ctx.state = .ready ∧ moorCircuitHops ≤ circ.keys.length) ∨
    WaitsExtended C host path ctx circ'

section Handlers

variable {C host path} {ctx : CbuildCtx} {circ circ' : Circuit}

theorem spec_cbuildOfferKem (next : NodeDescriptor) :
    Spec (cbuildOfferKem C host ctx next)
      (fun kemSs circ' => circ.SameKeys circ' ∧
        (pqHop next = true → Encapsulated C host circ'.drawn next.kemPk kemSs))
      (fun _ => True) circ := by
  rw [cbuildOfferKem]
  by_cases hpq : pqHop next = true
  · rw [if_pos hpq]
    refine (spec_kemEncapsulate next.kemPk (.refl circ)).ignoreFailure.bind ?_
    intro out circ₁ hpost
    rcases hpost with ⟨hkem, h₁⟩
    refine (h₁.spec (within_sendKemOffer C out.1)).ignoreFailure.bind ?_
    intro _ circ₂ h₂
    refine spec_pure ⟨h₂.sameKeys, fun _ => ⟨circ.drawn, ?_, out.1, hkem⟩⟩
    exact Nat.lt_of_succ_le h₂.drawn.ge
  · rw [if_neg hpq]
    exact spec_pure ⟨.refl circ, fun h => absurd h hpq⟩

theorem spec_cbuildSendExtend (hpos : 0 < circ.keys.length)
    (hlength : circ.keys.length < moorCircuitHops) :
    Spec (cbuildSendExtend C host ctx circ.keys.length)
      (fun ctx' circ' => ctx'.path = ctx.path ∧ circ.SameKeys circ' ∧
        WaitsExtended C host ctx.path ctx' circ')
      (fun _ => True) circ := by
  refine (spec_cryptoBoxKeygen (.refl circ)).ignoreFailure.bind ?_
  intro eph circ₁ hpost
  rcases hpost with ⟨_, h₁⟩
  refine (spec_cbuildOfferKem _).bind ?_
  intro kemSs circ₂ hpost
  rcases hpost with ⟨h₂, hkem⟩
  refine (within_sendForward C _ _ _ circ₂ circ₂ (SameKeys.refl circ₂)).ignoreFailure.bind ?_
  intro _ circ₃ h₃
  have hsame := (h₁.sameKeys.trans h₂).trans h₃
  refine spec_pure ⟨rfl, hsame, ?_, ?_, ?_, ?_, ?_⟩
  · split
    · exact .inl rfl
    · exact .inr rfl
  · rwa [hsame.keys]
  · rwa [hsame.keys]
  · rw [hsame.keys]
  · intro hpq
    rw [hsame.keys]
    exact (hkem hpq).mono h₃.drawn

theorem spec_cbuildSendNextOnionSkin (hpos : 0 < circ.keys.length) :
    Spec (cbuildSendNextOnionSkin C host ctx) (Onward C host ctx.path circ) (fun _ => True)
      circ := by
  have hlen : circ.hops.length = circ.keys.length := (List.length_map _).symm
  refine Spec.bind (spec_read (Q := fun hops circ' => hops.length = circ.keys.length ∧ circ = circ')
    ⟨hlen, rfl⟩) ?_
  rintro hops _ ⟨hhops, rfl⟩
  rw [hhops]
  by_cases hall : moorCircuitHops ≤ circ.keys.length
  · rw [if_pos hall]
    exact spec_pure ⟨rfl, .refl circ, .inl ⟨rfl, hall⟩⟩
  rw [if_neg hall]
  refine (spec_cbuildSendExtend hpos (Nat.lt_of_not_le hall)).mono ?_ fun _ h => h
  intro ctx' circ' hpost
  rcases hpost with ⟨hpath, hsame, hwaits⟩
  exact ⟨hpath, hsame, .inr hwaits⟩

theorem spec_cbuildCreatedKeys (keySeed : Field 32) :
    Spec (cbuildCreatedKeys C host ctx keySeed)
      (fun keys circ' => ctx.pqHop = true → ∃ kemCt kemSs,
        C.kemEncapsulate (ctx.path.hop 0).kemPk (host.kemCoins circ.drawn) = some (kemCt, kemSs) ∧
        keys = circuitKxPq C kemSs ∧ circ.drawn < circ'.drawn)
      (fun _ => True) circ := by
  rw [cbuildCreatedKeys]
  by_cases hpq : ctx.pqHop = true
  · rw [if_pos hpq]
    refine (spec_kemEncapsulate _ (.refl circ)).ignoreFailure.bind ?_
    intro out circ₁ hpost
    rcases hpost with ⟨hkem, h₁⟩
    refine (h₁.spec (within_sendKemCt out.1)).ignoreFailure.bind ?_
    intro _ circ₂ h₂
    exact spec_pure fun _ => ⟨out.1, out.2, hkem, rfl, Nat.lt_of_succ_le h₂.drawn.ge⟩
  · rw [if_neg hpq]
    exact spec_pure fun h => absurd h hpq

/-- The guard's answer establishes the first hop, whose keys come from a KEM secret when the builder
asked for it. -/
theorem spec_buildHandleCreated (cell : Cell) :
    Spec (buildHandleCreated C host ctx cell)
      (fun ctx' circ' => ∃ circ₁ keys, circ₁.keys = [(keys.hop (ctx.path.hop 0).identityPk).keys] ∧
        (ctx.pqHop = true → ∃ kemCt kemSs,
          C.kemEncapsulate (ctx.path.hop 0).kemPk (host.kemCoins circ.drawn) =
            some (kemCt, kemSs) ∧
          keys = circuitKxPq C kemSs ∧ circ.drawn < circ₁.drawn) ∧
        Onward C host ctx.path circ₁ ctx' circ')
      (fun _ => True) circ := by
  refine Spec.bind (spec_require (Q := fun _ circ' => circ = circ') (fun _ => rfl)
    fun _ => trivial) ?_
  rintro _ _ rfl
  refine Spec.bind (spec_lift (Q := fun _ circ' => circ = circ') (fun _ _ => rfl)
    fun _ => trivial) ?_
  rintro keySeed _ rfl
  refine (spec_cbuildCreatedKeys keySeed).bind ?_
  intro keys circ₁ hkeys
  refine Spec.bind (Q := fun _ circ' => circ'.keys = [(keys.hop (ctx.path.hop 0).identityPk).keys] ∧
    circ'.drawn = circ₁.drawn) (spec_modify ⟨rfl, rfl⟩) ?_
  intro _ circ₂ hpost
  rcases hpost with ⟨hkeys₂, hdrawn⟩
  refine (spec_cbuildSendNextOnionSkin (by simp [hkeys₂])).mono ?_ fun _ h => h
  intro ctx' circ' honward
  exact ⟨circ₂, keys, hkeys₂, hdrawn ▸ hkeys, honward⟩

/-- The answer of the next relay establishes its hop. The keys come from the KEM secret that was
offered when the answer is that of a PQ extension. -/
theorem spec_buildHandleExtended (relayCmd : UInt8) (data : Bytes) :
    Spec (buildHandleExtended C host ctx relayCmd data)
      (fun ctx' circ' => ∃ circ₁ keys nodeId, circ.Added 0 (HopKeys.hop keys nodeId).keys circ₁ ∧
        (ctx.pqHop = true → relayCmd = relayExtendedPq → keys = circuitKxPq C ctx.kemSs) ∧
        Onward C host ctx.path circ₁ ctx' circ')
      (fun _ => True) circ := by
  refine (within_require _ circ circ (SameKeys.refl circ)).ignoreFailure.bind ?_
  intro _ circ₁ h₁
  refine (within_require _ circ circ₁ h₁).ignoreFailure.bind ?_
  intro _ circ₂ h₂
  refine (within_read _ circ circ₂ h₂).ignoreFailure.bind ?_
  intro hops circ₃ h₃
  refine (within_lift _ circ circ₃ h₃).ignoreFailure.bind ?_
  intro keySeed circ₄ h₄
  refine Spec.bind (Q := fun _ => circ.Added 0 _) (spec_modify (h₄.added ⟨List.map_append, le_rfl⟩))
    fun _ circ₅ h₅ => ?_
  refine (spec_cbuildSendNextOnionSkin (by simp [h₅.keys])).mono ?_ fun _ h => h
  intro ctx' circ' honward
  refine ⟨circ₅, _, _, h₅, ?_, honward⟩
  intro hpq hcmd
  simp [hpq, hcmd]

end Handlers

/-! ### What holds in every state of a build -/

/-- The hops that are established. Those of relays with PQ have keys from a KEM secret: the first
hop, and the others that were answered as a PQ extension. -/
structure Established (circ : Circuit) (answers : List UInt8) : Prop where
  length_answers : answers.length = circ.keys.length
  kem : ∀ i key, circ.keys[i]? = some key → pqHop (path.hop i) = true →
    i = 0 ∨ answers[i]? = some relayExtendedPq →
    KemDerived C host circ.drawn (path.hop i).kemPk key

/-- A builder in one of its states. -/
structure CbuildCtx.Good (ctx : CbuildCtx) (circ : Circuit) (answers : List UInt8) : Prop where
  path_eq : ctx.path = path
  created : ctx.state = .waitCreated ∨ ctx.state = .waitCreatedPq →
    ctx.pqHop = Moor.pqHop (path.hop 0)
  extended : ctx.state = .waitExtendedMid ∨ ctx.state = .waitExtendedExit →
    WaitsExtended C host path ctx circ ∧ Established C host path circ answers
  ready : ctx.state = .ready →
    circ.keys.length = moorCircuitHops ∧ Established C host path circ answers

/-- What holds of a builder whatever happened to it. -/
structure Builder.Inv (b : Builder) : Prop where
  completed : b.completed = some true →
    b.circ.keys.length = moorCircuitHops ∧ Established C host path b.circ b.answers
  building : ∀ ctx, b.buildCtx = some ctx →
    b.completed = none ∧ ctx.Good C host path b.circ b.answers

section Invariant

variable {C host path} {ctx : CbuildCtx} {circ circ' : Circuit}
  {answers : List UInt8} {b : Builder}

theorem Established.mono (h : Established C host path circ answers) (hsame : circ.SameKeys circ') :
    Established C host path circ' answers := by
  refine ⟨by rw [hsame.keys, h.length_answers], ?_⟩
  intro i key hkey hpq hanswer
  rw [hsame.keys] at hkey
  exact (h.kem i key hkey hpq hanswer).mono hsame.drawn

variable {key : Field 32 × Field 32 × Field 32}

theorem Established.single (hkeys : circ.keys = [key])
    (hkem : pqHop (path.hop 0) = true → KemDerived C host circ.drawn (path.hop 0).kemPk key)
    (command : UInt8) : Established C host path circ [command] := by
  refine ⟨by simp [hkeys], ?_⟩
  intro i key' hkey hpq _
  obtain ⟨hi, heq⟩ : i = 0 ∧ key = key' := by simpa [hkeys, List.getElem?_singleton] using hkey
  subst hi heq
  exact hkem hpq

theorem Established.snoc (h : Established C host path circ answers) (hpos : 0 < circ.keys.length)
    (hadded : circ.Added 0 key circ') {relayCmd : UInt8}
    (hkem : pqHop (path.hop circ.keys.length) = true → relayCmd = relayExtendedPq →
      KemDerived C host circ'.drawn (path.hop circ.keys.length).kemPk key) :
    Established C host path circ' (answers ++ [relayCmd]) := by
  refine ⟨by simp [hadded.keys, h.length_answers], ?_⟩
  intro i key' hkey hpq hanswer
  rw [hadded.keys] at hkey
  -- an earlier hop, or the one that was added
  rcases Nat.lt_or_ge i circ.keys.length with hi | hi
  · rw [List.getElem?_append_left hi] at hkey
    rw [List.getElem?_append_left (h.length_answers ▸ hi)] at hanswer
    exact (h.kem i key' hkey hpq hanswer).mono hadded.drawn
  obtain ⟨hsub, heq⟩ : i - circ.keys.length = 0 ∧ key = key' := by
    simpa [List.getElem?_append_right hi, List.getElem?_singleton] using hkey
  obtain rfl : i = circ.keys.length := by omega
  subst heq
  refine hkem hpq ?_
  rcases hanswer with h0 | hanswer
  · omega
  · simpa [← h.length_answers] using hanswer

theorem WaitsExtended.mono (h : WaitsExtended C host path ctx circ) (hsame : circ.SameKeys circ') :
    WaitsExtended C host path ctx circ' where
  waits := h.waits
  pos := hsame.keys ▸ h.pos
  length := hsame.keys ▸ h.length
  pqHop_eq := hsame.keys ▸ h.pqHop_eq
  kemSs hpq := hsame.keys ▸ (h.kemSs hpq).mono hsame.drawn

theorem CbuildCtx.Good.mono (h : ctx.Good C host path circ answers) (hsame : circ.SameKeys circ') :
    ctx.Good C host path circ' answers where
  path_eq := h.path_eq
  created := h.created
  extended hstate := ⟨(h.extended hstate).1.mono hsame, (h.extended hstate).2.mono hsame⟩
  ready hstate := ⟨hsame.keys ▸ (h.ready hstate).1, (h.ready hstate).2.mono hsame⟩

/-- Going on from established hops leads to a good state. -/
theorem Onward.good (h : Onward C host path circ ctx circ')
    (hest : Established C host path circ answers) (hlength : circ.keys.length ≤ moorCircuitHops) :
    ctx.Good C host path circ' answers := by
  have hest' := hest.mono h.same
  rcases h.next with ⟨hready, hfull⟩ | hwaits
  · refine ⟨h.path_eq, ?_, ?_, fun _ => ⟨?_, hest'⟩⟩
    · simp [hready]
    · simp [hready]
    · rw [h.same.keys]
      exact hlength.antisymm hfull
  · refine ⟨h.path_eq, ?_, fun _ => ⟨hwaits, hest'⟩, ?_⟩
    · rcases hwaits.waits with hstate | hstate <;> simp [hstate]
    · rcases hwaits.waits with hstate | hstate <;> simp [hstate]

/-- After the first request the builder waits for the guard. -/
theorem spec_cbuildSendCreate :
    Spec (cbuildSendCreate host ctx) (fun ctx' circ' => ctx'.Good C host ctx.path circ' answers)
      (fun _ => True) circ := by
  refine (spec_cryptoBoxKeygen (.refl circ)).ignoreFailure.bind ?_
  intro eph circ₁ hpost
  rcases hpost with ⟨_, h₁⟩
  refine (h₁.spec (within_read _)).ignoreFailure.bind ?_
  intro circuitId circ₂ h₂
  refine (h₂.spec (within_connectionSendCell _)).ignoreFailure.bind ?_
  intro _ circ₃ h₃
  refine spec_pure ⟨rfl, fun _ => rfl, ?_, ?_⟩ <;> cases pqHop (ctx.path.hop 0) <;> simp

namespace Builder

theorem Inv.cbuildFinish (b : Builder) : (b.cbuildFinish false).Inv C host path :=
  ⟨(by rintro ⟨⟩), (by rintro ctx ⟨⟩)⟩

theorem Inv.mono (hinv : b.Inv C host path) (hsame : b.circ.SameKeys circ') :
    { b with circ := circ' }.Inv C host path where
  completed hdone :=
    ⟨hsame.keys ▸ (hinv.completed hdone).1, (hinv.completed hdone).2.mono hsame⟩
  building ctx hctx := ⟨(hinv.building ctx hctx).1, (hinv.building ctx hctx).2.mono hsame⟩

theorem Inv.handle {handler : Prog Circuit CbuildCtx} (hnone : b.completed = none)
    (h : Spec handler (fun ctx circ => ctx.Good C host path circ answers) (fun _ => True) b.circ) :
    (b.handle answers handler).Inv C host path := by
  rw [Builder.handle]
  rw [Spec] at h
  rcases hrun : handler b.circ with ⟨_ | ctx, circ⟩
  · exact Inv.cbuildFinish _
  rw [hrun] at h
  dsimp only
  by_cases hready : ctx.state = .ready
  · rw [if_pos hready]
    refine ⟨fun _ => h.ready hready, ?_⟩
    intro ctx' hctx
    cases hctx
  rw [if_neg hready]
  refine ⟨?_, ?_⟩
  · intro hdone
    rw [hnone] at hdone
    cases hdone
  · intro ctx' hctx
    cases hctx
    exact ⟨hnone, h⟩

theorem Inv.markForClose (hnone : b.completed = none)
    (hgood : ctx.Good C host path b.circ b.answers) : (b.markForClose ctx).Inv C host path := by
  refine ⟨?_, ?_⟩
  · intro hdone
    have : b.completed = some true := hdone
    rw [hnone] at this
    cases this
  · intro ctx' hctx
    cases hctx
    exact ⟨hnone, hgood.path_eq, hgood.created, fun hstate =>
      ⟨{ (hgood.extended hstate).1 with }, (hgood.extended hstate).2⟩, hgood.ready⟩

variable (hinv : b.Inv C host path)
include hinv

theorem Inv.processRelay (hctx : b.buildCtx = some ctx) (relay : RelayPayload) :
    (b.processRelay C host ctx relay).Inv C host path := by
  obtain ⟨hnone, hgood⟩ := hinv.building ctx hctx
  rw [Builder.processRelay]
  split
  · exact hinv
  split
  · split
    · rename_i hstate
      obtain ⟨hwaits, hest⟩ := hgood.extended hstate
      refine Inv.handle hnone ((spec_buildHandleExtended _ _).mono ?_ fun _ h => h)
      intro ctx' circ' hpost
      rcases hpost with ⟨circ₁, keys, nodeId, hadded, hkeys, honward⟩
      rw [hgood.path_eq] at honward
      have hlength : circ₁.keys.length = b.circ.keys.length + 1 := by simp [hadded.keys]
      refine honward.good (hest.snoc hwaits.pos hadded ?_) (hlength ▸ hwaits.length)
      intro hpq hcmd
      rw [← hwaits.pqHop_eq] at hpq
      obtain rfl := hkeys hpq hcmd
      exact ⟨ctx.kemSs, (hwaits.kemSs hpq).mono hadded.drawn, rfl⟩
    · exact Inv.markForClose hnone hgood
  · exact hinv

theorem Inv.processCircuitCell (hctx : b.buildCtx = some ctx) (cell : Cell) :
    (b.processCircuitCell C host ctx cell).Inv C host path := by
  obtain ⟨hnone, hgood⟩ := hinv.building ctx hctx
  rw [Builder.processCircuitCell]
  split
  · exact Inv.cbuildFinish b
  split
  · split
    · rename_i hstate
      have hpq := hgood.created hstate
      refine Inv.handle hnone ((spec_buildHandleCreated cell).mono ?_ fun _ h => h)
      intro ctx' circ' hpost
      rcases hpost with ⟨circ₁, keys, hkeys, hkem, honward⟩
      rw [hgood.path_eq] at hkem honward
      refine honward.good (.single hkeys ?_ _) (by simp [hkeys, moorCircuitHops])
      intro h
      obtain ⟨kemCt, kemSs, hss, rfl, hdrawn⟩ := hkem (hpq.trans h)
      exact ⟨kemSs, ⟨b.circ.drawn, hdrawn, kemCt, hss⟩, rfl⟩
    · exact hinv
  · split
    · exact hinv
    -- decryption leaves the keys as they are
    have hsame := map_keys_circuitDecryptBackward C b.circ.hops cell.payload
    rcases hdec : circuitDecryptBackward C b.circ.hops cell.payload with ⟨hops, _ | payload⟩ <;>
      rw [hdec] at hsame
    · exact Inv.markForClose hnone (hgood.mono ⟨hsame, le_rfl⟩)
    · have hinv' := hinv.mono
        (show b.circ.SameKeys { b.circ with hops := hops } from ⟨hsame, le_rfl⟩)
      exact hinv'.processRelay hctx _

/-- Every event keeps the invariant. -/
theorem Inv.step (event : BuildEvent) : (b.step C host event).Inv C host path := by
  rw [Builder.step]
  split
  · exact hinv
  rename_i ctx hctx
  obtain ⟨hnone, hgood⟩ := hinv.building ctx hctx
  cases event with
  | connected ok =>
    dsimp only
    split
    · exact Inv.cbuildFinish b
    · rw [← hgood.path_eq]
      exact Inv.handle hnone spec_cbuildSendCreate
  | cell cell =>
    dsimp only
    split
    · exact hinv
    · exact hinv.processCircuitCell hctx cell
  | timeout => exact Inv.cbuildFinish b

/-- The invariant holds after every sequence of events. -/
theorem Inv.run (events : List BuildEvent) : (b.run C host events).Inv C host path := by
  induction events generalizing b with
  | nil => exact hinv
  | cons event events ih => exact ih (hinv.step event)

omit hinv

theorem inv_start (circuitId : UInt32) (path : Path) (room drawn : ℕ) :
    (start circuitId path room drawn).Inv C host path := by
  refine ⟨(by rintro ⟨⟩), ?_⟩
  rintro ctx ⟨⟩
  exact ⟨rfl, rfl, (by rintro (⟨⟨⟩⟩ | ⟨⟨⟩⟩)), (by rintro (⟨⟨⟩⟩ | ⟨⟨⟩⟩)), (by rintro ⟨⟩)⟩

end Builder

end Invariant

end Moor
