import Moor.Link.Connection
import Moor.Relay.Extend

/-!
# Extensions that are completed later

A relay that has no channel to the next hop of a circuit leaves the work to a thread, which
connects, sends a CREATE and waits for the answer. The result comes back through a queue, and the
circuit it is for is looked up by its identifier on the connection it came from. Meanwhile circuits
are destroyed and created, connections are closed and opened in the same slots, and identifiers are
used again.

Circuits are numbered as they are created, and a request carries the number of the circuit that
made it. A result reaches its own circuit as long as an identifier is not taken on a connection
while it is still in use there: by a circuit, by work under way for this use of the slot or by a
CREATE that waits for its answer.

## Main results

* `results_reach_their_circuit`: what is relayed and wired belongs to the circuit's own request.
-/

namespace Moor

open Codec List

def extendQueueSize : ℕ := 32

/-- A connection object: a slot of the pool, or one that a worker made. -/
abbrev ConnRef := ℕ

/-- What a look-up compares of a connection. The generation counts how often a slot was used. -/
structure RelayConn where
  generation : UInt32
  state : ConnState

/-- A circuit at a relay, with its number. -/
structure WorkCircuit where
  uid : ℕ
  circuitId : UInt32
  prevConn : Option ConnRef
  prevCircuitId : UInt32
  nextConn : Option ConnRef
  nextCircuitId : UInt32
  extendPending : Bool
  marked : Bool

/-- Work under way, with the number of the circuit that asked for it. -/
structure ExtendWork where
  owner : ℕ
  request : ExtendRequest
  prevCircuitId : UInt32
  nextCircuitId : UInt32
  prevConn : ConnRef
  prevConnGeneration : UInt32

/-- What a worker comes back with: the reason of its failure, or the answer of the next hop and
the connection to it. -/
inductive WorkResult
  | failed (destroyReason : UInt8)
  | created (payload : Field 64) (nextConn : ConnRef)

/-- A relay: its connections and circuits, the workers that run, the results in the queue, the
CREATEs that wait for an answer, each with its circuit, and what was done: the answers relayed and
the next hops wired, each with the circuit it was done to and the one that had asked for it. -/
structure ExtendRelay where
  conns : ConnRef → RelayConn
  circuits : List WorkCircuit
  workers : List ExtendWork
  results : List (ExtendWork × WorkResult)
  sent : List (ConnRef × UInt32 × ℕ)
  nextUid : ℕ
  extended : List (ℕ × ℕ × Field 64)
  wired : List (ℕ × ℕ)

namespace WorkCircuit

/-- The pairs under which a circuit is registered. -/
def registered (id : UInt32) (conn : ConnRef) (c : WorkCircuit) : Bool :=
  (c.prevConn == some conn && c.prevCircuitId == id) ||
    (c.nextConn == some conn && c.nextCircuitId == id)

/-- The pairs that the scan over all circuits accepts: the circuit's own identifier goes with
either connection. -/
def scanned (id : UInt32) (conn : ConnRef) (c : WorkCircuit) : Bool :=
  (c.circuitId == id && (c.prevConn == some conn || c.nextConn == some conn)) ||
    c.registered id conn

def setPending (pending : Bool) (c : WorkCircuit) : WorkCircuit :=
  { c with extendPending := pending }

def mark (c : WorkCircuit) : WorkCircuit :=
  { c with marked := true }

/-- The next hop is wired into a circuit, which waits for its answer or has it already. -/
def wire (nextConn : ConnRef) (nextCircuitId : UInt32) (pending : Bool) (c : WorkCircuit) :
    WorkCircuit :=
  { c with nextConn := some nextConn, nextCircuitId := nextCircuitId, extendPending := pending }

/-- The pairs of a connection and an identifier under which a circuit is found: its own identifier
goes with both connections. -/
def pairs (c : WorkCircuit) : List (ConnRef × UInt32) :=
  (c.prevConn.toList.flatMap fun n => [(n, c.circuitId), (n, c.prevCircuitId)]) ++
    c.nextConn.toList.flatMap fun n => [(n, c.circuitId), (n, c.nextCircuitId)]

theorem mem_pairs {c : WorkCircuit} {p : ConnRef × UInt32} :
    p ∈ c.pairs ↔ (c.prevConn = some p.1 ∧ (p.2 = c.circuitId ∨ p.2 = c.prevCircuitId)) ∨
      (c.nextConn = some p.1 ∧ (p.2 = c.circuitId ∨ p.2 = c.nextCircuitId)) := by
  obtain ⟨n, id⟩ := p
  simp only [pairs, mem_append, mem_flatMap, Option.mem_toList, mem_cons, not_mem_nil, or_false,
    Prod.mk.injEq]
  aesop

theorem mem_pairs_of_scanned {c : WorkCircuit} {conn : ConnRef} {id : UInt32}
    (h : c.scanned id conn = true) : (conn, id) ∈ c.pairs := by
  simp only [scanned, registered, Bool.or_eq_true, Bool.and_eq_true, beq_iff_eq] at h
  rw [mem_pairs]
  grind

theorem mem_pairs_wire {nextConn : ConnRef} {nextCircuitId : UInt32} {pending : Bool}
    {c : WorkCircuit} {p : ConnRef × UInt32}
    (h : p ∈ (c.wire nextConn nextCircuitId pending).pairs) :
    p ∈ c.pairs ∨ p = (nextConn, nextCircuitId) ∨ p = (nextConn, c.circuitId) := by
  obtain ⟨n, id⟩ := p
  simp only [mem_pairs, wire, Option.some_inj] at h ⊢
  grind

end WorkCircuit

/-- A connection, its generation and an identifier. -/
abbrev PairKey := ConnRef × UInt32 × UInt32

/-- The circuit that work is for is looked up in the generation in which it was asked for. -/
def ExtendWork.key (w : ExtendWork) : PairKey := (w.prevConn, w.prevConnGeneration, w.prevCircuitId)

/-- The circuit for an identifier on a connection: by the table of registered pairs, and then by a
scan. A circuit that is marked for close is not found. -/
def circuitFind (id : UInt32) (conn : ConnRef) (circuits : List WorkCircuit) :
    Option WorkCircuit :=
  (circuits.find? fun c => !c.marked && c.registered id conn).or
    (circuits.find? fun c => !c.marked && c.scanned id conn)

/-- What the rest of the relay contributes: the identifier that is drawn, the open connection of a
channel to the next hop, and whether sending, allocating and starting a thread succeed. -/
structure WorkEnv where
  nextCircId : UInt32
  channel : Option ConnRef
  sendOk : Bool
  allocOk : Bool
  threadOk : Bool

namespace ExtendRelay

def init : ExtendRelay := ⟨fun _ => ⟨0, .none⟩, [], [], [], [], 0, [], []⟩

def modify (uid : ℕ) (f : WorkCircuit → WorkCircuit) (s : ExtendRelay) : ExtendRelay :=
  { s with circuits := s.circuits.map fun c => if c.uid = uid then f c else c }

variable (env : WorkEnv) (conn : ConnRef) (id : UInt32)

def setState (state : ConnState) (s : ExtendRelay) : ExtendRelay :=
  { s with conns := Function.update s.conns conn { s.conns conn with state := state } }

/-- A connection in a free slot. -/
def openConn (s : ExtendRelay) : ExtendRelay :=
  { s with conns := Function.update s.conns conn ⟨(s.conns conn).generation + 1, .opened⟩ }

/-- A connection is closed: the circuits that use it are marked and forget it, and no answer comes
over it any more. -/
def closeConn (s : ExtendRelay) : ExtendRelay :=
  { s.setState conn .none with
    circuits := s.circuits.map fun c =>
      { c with
        marked := c.marked || c.prevConn == some conn || c.nextConn == some conn
        prevConn := if c.prevConn = some conn then none else c.prevConn
        nextConn := if c.nextConn = some conn then none else c.nextConn }
    sent := s.sent.filter fun create => create.1 != conn }

/-- A CREATE or CREATE_PQ: an identifier that is taken on the connection is refused. -/
def handleCreate (s : ExtendRelay) : ExtendRelay :=
  match circuitFind id conn s.circuits with
  | some _ => s
  | none =>
    { s with
      circuits := s.circuits ++ [⟨s.nextUid, id, some conn, id, none, 0, false, false⟩]
      nextUid := s.nextUid + 1 }

def handleDestroy (s : ExtendRelay) : ExtendRelay :=
  match circuitFind id conn s.circuits with
  | none => s
  | some c => s.modify c.uid .mark

/-- A CREATE is sent over a channel, and the circuit goes over it from now on. -/
def sendCreate (n : ConnRef) (c : WorkCircuit) (s : ExtendRelay) : ExtendRelay :=
  { s.modify c.uid (.wire n env.nextCircId true) with
    sent := s.sent ++ [(n, env.nextCircId, c.uid)]
    wired := s.wired ++ [(c.uid, c.uid)] }

variable (w : ExtendWork) (result : WorkResult) (request : ExtendRequest) (s : ExtendRelay)

/-- A worker is dispatched, unless there are too many or none can be started. -/
def dispatchWorker (c : WorkCircuit) (s : ExtendRelay) : ExtendRelay :=
  if extendMaxThreads ≤ s.workers.length ∨ !env.threadOk then
    s.modify c.uid (.setPending false)
  else
    { s.modify c.uid (.setPending true) with
      workers := s.workers ++
        [⟨c.uid, request, c.prevCircuitId, env.nextCircId, conn, (s.conns conn).generation⟩] }

/-- A request to extend that has passed the checks on its cell and its target. A RELAY_EXTEND and
a RELAY_EXTEND2 also check that no extension is pending, a RELAY_EXTEND_PQ does not. -/
def handleExtend : ExtendRelay :=
  match circuitFind id conn s.circuits with
  | none => s
  | some c =>
    if c.prevConn ≠ some conn ∨ (!request.pq ∧ c.extendPending) then s
    else
      match env.channel with
      | some n => if env.sendOk then s.sendCreate env n c else s
      | none => if env.allocOk then s.dispatchWorker env conn request c else s

/-- A worker has a result. A full queue drops it. -/
def pushResult : ExtendRelay :=
  if s.results.length < extendQueueSize then
    let s := { s with results := s.results ++ [(w, result)] }
    match result with
    | .failed _ => s
    | .created _ nextConn => s.openConn nextConn
  else s

/-- A result that nobody waits for: its connection is closed. -/
def discard : ExtendRelay :=
  match result with
  | .failed _ => s
  | .created _ nextConn => s.setState nextConn .none

/-- The connection of a circuit towards the client can be written to. -/
def prevOpen (c : WorkCircuit) : Bool :=
  c.prevConn.any fun conn => (s.conns conn).state = .opened

/-- The result of a worker is taken from the queue, and the circuit is looked up. -/
def completeWork : ExtendRelay :=
  if (s.conns w.prevConn).state = .none ∨
      (s.conns w.prevConn).generation ≠ w.prevConnGeneration then s.discard result
  else
    match circuitFind w.prevCircuitId w.prevConn s.circuits with
    | none => s.discard result
    | some c =>
      if !c.extendPending then s.discard result
      else if !s.prevOpen c then
        (s.modify c.uid (.setPending false)).discard result
      else
        match result with
        | .failed _ => s.modify c.uid (.setPending false)
        | .created payload nextConn =>
          { s.modify c.uid (.wire nextConn w.nextCircuitId false) with
            wired := s.wired ++ [(c.uid, w.owner)]
            extended := s.extended ++ [(c.uid, w.owner, payload)] }

/-- A CREATED comes over a channel, in answer to a CREATE for a circuit. -/
def handleCreated (owner : ℕ) (payload : Field 64) (s : ExtendRelay) : ExtendRelay :=
  match circuitFind id conn s.circuits with
  | none => s
  | some c =>
    if !c.extendPending then s
    else
      let s' := s.modify c.uid (.setPending false)
      if s.prevOpen c then { s' with extended := s.extended ++ [(c.uid, owner, payload)] } else s'

/-- The connection that a worker hands over is an object of its own. -/
def isNew : WorkResult → Bool
  | .failed _ => true
  | .created _ nextConn => (s.conns nextConn).state = .none

/-- What happens at a relay, in any order. -/
inductive Event
  | openConn (conn : ConnRef)
  | closeConn (conn : ConnRef)
  | create (conn : ConnRef) (id : UInt32)
  | destroy (conn : ConnRef) (id : UInt32)
  | mark (uid : ℕ)
  | closeMarked
  | extend (env : WorkEnv) (conn : ConnRef) (id : UInt32) (request : ExtendRequest)
  | finish (k : ℕ) (result : WorkResult)
  | complete
  | created (k : ℕ) (payload : Field 64)

/-- One event, if it can happen: a slot is opened when it is free, the cells come over connections
that are open, and an answer is to a CREATE that waits for it. -/
def step : Event → Option ExtendRelay
  | .openConn conn => if (s.conns conn).state = .none then some (s.openConn conn) else none
  | .closeConn conn => some (s.closeConn conn)
  | .create conn id =>
    if (s.conns conn).state = .opened then some (s.handleCreate conn id) else none
  | .destroy conn id =>
    if (s.conns conn).state = .opened then some (s.handleDestroy conn id) else none
  | .mark uid => some (s.modify uid .mark)
  | .closeMarked => some { s with circuits := s.circuits.filter fun c => !c.marked }
  | .extend env conn id request =>
    if (s.conns conn).state = .opened then some (s.handleExtend env conn id request) else none
  | .finish k result =>
    match s.workers[k]? with
    | none => none
    | some w =>
      if s.isNew result then some ({ s with workers := s.workers.eraseIdx k }.pushResult w result)
      else none
  | .complete =>
    match s.results with
    | [] => none
    | (w, result) :: results => some ({ s with results := results }.completeWork w result)
  | .created k payload =>
    match s.sent[k]? with
    | none => none
    | some (conn, id, owner) =>
      some ({ s with sent := s.sent.eraseIdx k }.handleCreated conn id owner payload)

/-! ### Identifiers in use -/

/-- The work that is under way or has come back. -/
def waiting : List ExtendWork := s.workers ++ s.results.map Prod.fst

/-- A pair on the connection as it is now. -/
def key (p : ConnRef × UInt32) : PairKey := (p.1, (s.conns p.1).generation, p.2)

/-- The pairs that circuits and CREATEs that were sent have on the connections, each with the
circuit. -/
def held : List ((ConnRef × UInt32) × ℕ) :=
  (s.circuits.flatMap fun c => c.pairs.map fun p => (p, c.uid)) ++
    s.sent.map fun create => ((create.1, create.2.1), create.2.2)

/-- The identifiers in use on the connections in their generations, each with the circuit it is used
for. -/
def uses : List (PairKey × ℕ) :=
  (s.held.map fun p => (s.key p.1, p.2)) ++ s.waiting.map fun w => (w.key, w.owner)

/-- The identifier is not in use for another circuit than the given one. -/
def freeFor (uid : ℕ) (k : PairKey) : Bool :=
  s.uses.all fun p => p.1 != k || p.2 == uid

/-- What is still held on a slot is free in its next generation. -/
def opensFree (conn : ConnRef) : Bool :=
  s.held.all fun p => p.1.1 != conn ||
    s.freeFor p.2 (conn, (s.conns conn).generation + 1, p.1.2)

/-- A circuit takes the identifier towards its next hop on a connection, and its own one. -/
def wiresFree (c : WorkCircuit) (n : ConnRef) (id : UInt32) : Bool :=
  s.freeFor c.uid (s.key (n, id)) && s.freeFor c.uid (s.key (n, c.circuitId))

/-- No identifier is taken on a connection while it is in use there for another circuit: neither by
a CREATE that is accepted nor by a circuit that gets a next hop. -/
def takesFree : Event → Bool
  | .openConn conn | .finish _ (.created _ conn) => s.opensFree conn
  | .create conn id =>
    (circuitFind id conn s.circuits).isSome || s.freeFor s.nextUid (s.key (conn, id))
  | .extend env conn id _ =>
    match circuitFind id conn s.circuits, env.channel with
    | some c, some n => s.wiresFree c n env.nextCircId
    | _, _ => true
  | .complete =>
    match s.results with
    | (w, .created _ nextConn) :: _ =>
      (s.conns w.prevConn).generation != w.prevConnGeneration ||
        (circuitFind w.prevCircuitId w.prevConn s.circuits).all fun c =>
          s.wiresFree c nextConn w.nextCircuitId
    | _ => true
  | _ => true

theorem mem_held {s : ExtendRelay} {p : ConnRef × UInt32} {u : ℕ} :
    (p, u) ∈ s.held ↔
      (∃ c ∈ s.circuits, p ∈ c.pairs ∧ c.uid = u) ∨ (p.1, p.2, u) ∈ s.sent := by
  simp only [held, mem_append, mem_flatMap, mem_map, Prod.mk.injEq]
  aesop

theorem mem_uses {s : ExtendRelay} {k : PairKey} {u : ℕ} :
    (k, u) ∈ s.uses ↔ (∃ p, (p, u) ∈ s.held ∧ s.key p = k) ∨
      ∃ w ∈ s.waiting, w.key = k ∧ w.owner = u := by
  simp only [uses, mem_append, mem_map, Prod.mk.injEq, Prod.exists]
  aesop

theorem eq_of_freeFor {s : ExtendRelay} {k : PairKey} {u v : ℕ} (h : s.freeFor u k = true)
    (hv : (k, v) ∈ s.uses) : v = u := by
  have := all_eq_true.mp h _ hv
  simpa using this

/-- A circuit that is found is not marked and has the pair. -/
theorem found {id : UInt32} {conn : ConnRef} {circuits : List WorkCircuit} {c : WorkCircuit}
    (h : circuitFind id conn circuits = some c) :
    c ∈ circuits ∧ c.marked = false ∧ (conn, id) ∈ c.pairs := by
  have hscanned : c ∈ circuits ∧ (!c.marked && c.scanned id conn) = true := by
    rcases Option.or_eq_some_iff.mp h with h | ⟨-, h⟩
    · have hc := find?_some h
      simp only [Bool.and_eq_true] at hc
      exact ⟨mem_of_find?_eq_some h, by simp [WorkCircuit.scanned, hc.1, hc.2]⟩
    · exact ⟨mem_of_find?_eq_some h, by simpa using find?_some h⟩
  have hc := Bool.and_eq_true_iff.mp hscanned.2
  exact ⟨hscanned.1, Bool.not_eq_eq_eq_not.mp hc.1, WorkCircuit.mem_pairs_of_scanned hc.2⟩

/-- What a step leaves of a relay: the circuits are among those there were, identifiers come into
use only where `P` says so, and what is done is done to the circuit that had asked for it. -/
structure Keeps (P : PairKey → ℕ → Prop) (s s' : ExtendRelay) : Prop where
  uids : (s'.circuits.map (·.uid)).Sublist (s.circuits.map (·.uid))
  nextUid : s'.nextUid = s.nextUid
  generation : ∀ conn, (s'.conns conn).generation = (s.conns conn).generation
  circuits : ∀ c ∈ s'.circuits, ∀ p ∈ c.pairs, (s.key p, c.uid) ∈ s.uses ∨ P (s.key p) c.uid
  sent : ∀ create ∈ s'.sent, (s.key (create.1, create.2.1), create.2.2) ∈ s.uses ∨
    P (s.key (create.1, create.2.1)) create.2.2
  waiting : ∀ w ∈ s'.waiting, (w.key, w.owner) ∈ s.uses
  extended : ∀ e ∈ s'.extended, e ∈ s.extended ∨ e.1 = e.2.1
  wired : ∀ e ∈ s'.wired, e ∈ s.wired ∨ e.1 = e.2

/-- The invariant: on a connection, an identifier is used for one circuit only. -/
structure Consistent (s : ExtendRelay) : Prop where
  nodup : (s.circuits.map (·.uid)).Nodup
  bounded : ∀ u ∈ s.circuits.map (·.uid), u < s.nextUid
  functional : ∀ k u v, (k, u) ∈ s.uses → (k, v) ∈ s.uses → u = v
  extended : ∀ e ∈ s.extended, e.1 = e.2.1
  wired : ∀ e ∈ s.wired, e.1 = e.2

theorem consistent_init : Consistent init :=
  ⟨nodup_nil, by simp [init], by simp [init, uses, held, waiting], by simp [init], by simp [init]⟩

variable {s s' : ExtendRelay} {P : PairKey → ℕ → Prop}

theorem mem_uses_of_circuit {c : WorkCircuit} (hc : c ∈ s.circuits) {p : ConnRef × UInt32}
    (hp : p ∈ c.pairs) : (s.key p, c.uid) ∈ s.uses :=
  mem_uses.mpr (.inl ⟨p, mem_held.mpr (.inl ⟨c, hc, hp, rfl⟩), rfl⟩)

theorem mem_uses_of_sent {conn : ConnRef} {id : UInt32} {owner : ℕ}
    (h : (conn, id, owner) ∈ s.sent) : (s.key (conn, id), owner) ∈ s.uses :=
  mem_uses.mpr (.inl ⟨(conn, id), mem_held.mpr (.inr h), rfl⟩)

theorem mem_uses_of_waiting {w : ExtendWork} (hw : w ∈ s.waiting) : (w.key, w.owner) ∈ s.uses :=
  mem_uses.mpr (.inr ⟨w, hw, rfl, rfl⟩)

/-- The circuit that is found for a pair is the one it is used for. -/
theorem Consistent.found_eq (h : Consistent s) {id : UInt32} {conn : ConnRef} {c : WorkCircuit}
    {u : ℕ} (hfind : circuitFind id conn s.circuits = some c)
    (hu : (s.key (conn, id), u) ∈ s.uses) : c.uid = u :=
  have hc := found hfind
  h.functional _ c.uid u (mem_uses_of_circuit hc.1 hc.2.2) hu

/-- It is enough that what comes into use is used for one circuit only. -/
theorem Consistent.functional_of_uses (h : Consistent s)
    (huses : ∀ k u, (k, u) ∈ s'.uses → (k, u) ∈ s.uses ∨ P k u)
    (hnew : ∀ k u v, P k u → (k, v) ∈ s.uses ∨ P k v → u = v) (k : PairKey) (u v : ℕ)
    (hu : (k, u) ∈ s'.uses) (hv : (k, v) ∈ s'.uses) : u = v := by
  rcases huses k u hu with hu | hu
  · rcases huses k v hv with hv | hv
    · exact h.functional k u v hu hv
    · exact (hnew k v u hv (.inl hu)).symm
  · exact hnew k u v hu (huses k v hv)

theorem Keeps.uses (h : Keeps P s s') (k : PairKey) (u : ℕ) (hu : (k, u) ∈ s'.uses) :
    (k, u) ∈ s.uses ∨ P k u := by
  rcases mem_uses.mp hu with ⟨p, hp, rfl⟩ | ⟨w, hw, rfl, rfl⟩
  · have hkey : s'.key p = s.key p := by rw [key, key, h.generation]
    rw [hkey]
    rcases mem_held.mp hp with ⟨c, hc, hpc, rfl⟩ | hsent
    · exact h.circuits c hc p hpc
    · exact h.sent _ hsent
  · exact .inl (h.waiting w hw)

theorem Consistent.keeps (h : Consistent s) (hkeeps : Keeps P s s')
    (hnew : ∀ k u v, P k u → (k, v) ∈ s.uses ∨ P k v → u = v) : Consistent s' where
  nodup := h.nodup.sublist hkeeps.uids
  bounded u hu := by
    rw [hkeeps.nextUid]
    exact h.bounded u (hkeeps.uids.subset hu)
  functional := h.functional_of_uses hkeeps.uses hnew
  extended e he := (hkeeps.extended e he).elim (h.extended e) id
  wired e he := (hkeeps.wired e he).elim (h.wired e) id

/-- What brings nothing into use keeps the invariant. -/
theorem Consistent.of_keeps (h : Consistent s) (hkeeps : Keeps (fun _ _ => False) s s') :
    Consistent s' :=
  h.keeps hkeeps fun _ _ _ hfalse => hfalse.elim

/-- What a circuit takes when it gets a next hop. -/
def Wires (s : ExtendRelay) (c : WorkCircuit) (n : ConnRef) (id : UInt32) (k : PairKey) (u : ℕ) :
    Prop :=
  (k = s.key (n, id) ∨ k = s.key (n, c.circuitId)) ∧ u = c.uid

theorem Consistent.keeps_wires (h : Consistent s) {c : WorkCircuit} {n : ConnRef} {id : UInt32}
    (hfree : s.wiresFree c n id = true) (hkeeps : Keeps (Wires s c n id) s s') :
    Consistent s' := by
  obtain ⟨hnext, hown⟩ := Bool.and_eq_true_iff.mp hfree
  refine h.keeps hkeeps ?_
  rintro k u v ⟨hk, rfl⟩ (hused | ⟨-, rfl⟩)
  · rcases hk with rfl | rfl
    · exact (eq_of_freeFor hnext hused).symm
    · exact (eq_of_freeFor hown hused).symm
  · rfl

/-- A connection is opened in a slot on which nothing is held that work from an earlier use of this
generation still has. -/
theorem Consistent.openConn (h : Consistent s) {conn : ConnRef} (hfree : s.opensFree conn = true) :
    Consistent (s.openConn conn) := by
  refine ⟨h.nodup, h.bounded, ?_, h.extended, h.wired⟩
  refine h.functional_of_uses (P := fun k u => ∃ id, ((conn, id), u) ∈ s.held ∧
    k = (conn, (s.conns conn).generation + 1, id)) ?_ ?_
  · intro k u hu
    rcases mem_uses.mp hu with ⟨⟨n, id⟩, hp, rfl⟩ | hw
    · by_cases hn : n = conn
      · subst hn
        exact .inr ⟨id, hp, by simp [key, ExtendRelay.openConn]⟩
      · refine .inl (mem_uses.mpr (.inl ⟨(n, id), hp, ?_⟩))
        simp [key, ExtendRelay.openConn, hn]
    · exact .inl (mem_uses.mpr (.inr hw))
  · rintro k u v ⟨id, hheld, rfl⟩ (hused | ⟨id', hheld', hid⟩)
    · have hp := all_eq_true.mp hfree _ hheld
      simp only [bne_self_eq_false, Bool.false_or] at hp
      exact (eq_of_freeFor hp hused).symm
    · obtain rfl : id = id' := by simpa using hid
      exact h.functional _ u v (mem_uses.mpr (.inl ⟨_, hheld, rfl⟩))
        (mem_uses.mpr (.inl ⟨_, hheld', rfl⟩))

/-! ### What the operations keep -/

theorem Keeps.refl (s : ExtendRelay) : Keeps P s s where
  uids := List.Sublist.refl _
  nextUid := rfl
  generation _ := rfl
  circuits _ hc _ hp := .inl (mem_uses_of_circuit hc hp)
  sent _ hcreate := .inl (mem_uses_of_sent hcreate)
  waiting _ hw := mem_uses_of_waiting hw
  extended _ he := .inl he
  wired _ he := .inl he

section

variable (h : Keeps P s s')
include h

/-- A change to one circuit that brings no pair into use without leave. -/
theorem Keeps.modify {uid : ℕ} {f : WorkCircuit → WorkCircuit} (huid : ∀ c, (f c).uid = c.uid)
    (hpairs : ∀ c ∈ s'.circuits, c.uid = uid → ∀ p ∈ (f c).pairs,
      p ∈ c.pairs ∨ P (s.key p) uid) : Keeps P s (s'.modify uid f) :=
  { h with
    uids := by
      have hsame : (s'.modify uid f).circuits.map (·.uid)
          = s'.circuits.map (·.uid) := by
        simp only [ExtendRelay.modify, map_map, map_inj_left, Function.comp_apply]
        intro c _
        split
        · exact huid c
        · rfl
      rw [hsame]
      exact h.uids
    circuits := by
      intro c' hc' p hp
      obtain ⟨c, hc, rfl⟩ := mem_map.mp hc'
      by_cases huidc : c.uid = uid
      · rw [if_pos huidc] at hp ⊢
        rw [huid c]
        rcases hpairs c hc huidc p hp with hold | hnew
        · exact h.circuits c hc p hold
        · exact .inr (huidc ▸ hnew)
      · rw [if_neg huidc] at hp ⊢
        exact h.circuits c hc p hp }

theorem Keeps.mark (uid : ℕ) : Keeps P s (s'.modify uid .mark) :=
  h.modify (fun _ => rfl) fun _ _ _ _ hp => .inl hp

theorem Keeps.setPending (uid : ℕ) (pending : Bool) :
    Keeps P s (s'.modify uid (.setPending pending)) :=
  h.modify (fun _ => rfl) fun _ _ _ _ hp => .inl hp

theorem Keeps.setState (conn : ConnRef) (state : ConnState) : Keeps P s (s'.setState conn state) :=
  { h with
    generation := by
      intro n
      rw [← h.generation n]
      by_cases hn : n = conn
      · subst hn
        simp [ExtendRelay.setState]
      · simp [ExtendRelay.setState, hn] }

theorem Keeps.discard (result : WorkResult) : Keeps P s (s'.discard result) := by
  cases result with
  | failed => exact h
  | created payload nextConn => exact h.setState nextConn .none

end

variable (env : WorkEnv) (conn : ConnRef)

theorem keeps_closeConn : Keeps P s (s.closeConn conn) :=
  { (Keeps.refl s : Keeps P s s).setState conn .none with
    uids := by simp [closeConn, setState, Function.comp_def]
    circuits := by
      intro c' hc' p hp
      obtain ⟨c, hc, rfl⟩ := mem_map.mp hc'
      refine .inl (mem_uses_of_circuit hc ?_)
      -- A reference that is left is one that there was.
      simp only [WorkCircuit.mem_pairs, ite_eq_iff, reduceCtorEq, and_false, false_or] at hp ⊢
      tauto
    sent := fun create hcreate => (Keeps.refl s).sent create (mem_of_mem_filter hcreate) }

theorem keeps_closeMarked :
    Keeps P s { s with circuits := s.circuits.filter fun c => !c.marked } :=
  { Keeps.refl s with
    uids := filter_sublist.map _
    circuits := fun c hc => (Keeps.refl s).circuits c (mem_of_mem_filter hc) }

theorem keeps_handleDestroy (id : UInt32) : Keeps P s (s.handleDestroy conn id) := by
  unfold handleDestroy
  split
  · exact Keeps.refl s
  · exact (Keeps.refl s).mark _

theorem forall_mem_append_singleton {α : Type*} {Q : α → Prop} {l : List α} {a : α} (ha : Q a) :
    ∀ e ∈ l ++ [a], e ∈ l ∨ Q e := by
  intro e he
  rcases mem_append.mp he with hold | hnew
  · exact .inl hold
  · exact .inr (mem_singleton.mp hnew ▸ ha)

/-- A circuit of the relay gets a next hop. -/
theorem Consistent.keeps_wire (h : Consistent s) {c : WorkCircuit} (hc : c ∈ s.circuits)
    {n : ConnRef} {id : UInt32} (hkeeps : Keeps (Wires s c n id) s s')
    (hcircuits : s'.circuits = s.circuits) (pending : Bool) :
    Keeps (Wires s c n id) s (s'.modify c.uid (.wire n id pending)) := by
  refine hkeeps.modify (fun _ => rfl) fun c' hc' huid p hp => ?_
  obtain rfl : c' = c := inj_on_of_nodup_map h.nodup (hcircuits ▸ hc') hc huid
  refine (WorkCircuit.mem_pairs_wire hp).imp_right fun hnew => ⟨?_, rfl⟩
  exact hnew.imp (congrArg s.key) (congrArg s.key)

theorem Consistent.keeps_sendCreate (h : Consistent s) {c : WorkCircuit} (hc : c ∈ s.circuits)
    (n : ConnRef) : Keeps (Wires s c n env.nextCircId) s (s.sendCreate env n c) := by
  have hwire : Keeps (Wires s c n env.nextCircId) s _ := h.keeps_wire hc (Keeps.refl s) rfl true
  refine { hwire with sent := ?_, wired := forall_mem_append_singleton rfl }
  intro create hcreate
  rcases mem_append.mp hcreate with hold | hnew
  · exact hwire.sent create hold
  · rw [mem_singleton.mp hnew]
    exact .inr ⟨.inl rfl, rfl⟩

/-- The circuit that the work is for can be found under what the work has. -/
theorem keeps_dispatchWorker (request : ExtendRequest) {c : WorkCircuit} (hc : c ∈ s.circuits)
    (hprev : c.prevConn = some conn) : Keeps P s (s.dispatchWorker env conn request c) := by
  unfold dispatchWorker
  split
  · exact (Keeps.refl s).setPending c.uid false
  have hpend : Keeps P s _ := (Keeps.refl s).setPending c.uid true
  refine { hpend with waiting := ?_ }
  intro w hw
  rcases mem_append.mp hw with hw | hw
  · rcases mem_append.mp hw with hw | hw
    · exact hpend.waiting w (mem_append_left _ hw)
    · rw [mem_singleton.mp hw]
      exact mem_uses_of_circuit hc (p := (conn, c.prevCircuitId))
        (WorkCircuit.mem_pairs.mpr (.inl ⟨hprev, .inr rfl⟩))
  · exact hpend.waiting w (mem_append_right _ hw)

theorem Consistent.handleExtend (h : Consistent s) {id : UInt32} {request : ExtendRequest}
    (hfree : s.takesFree (.extend env conn id request) = true) :
    Consistent (s.handleExtend env conn id request) := by
  unfold ExtendRelay.handleExtend
  split
  · exact h
  next c hfind =>
  have hc := (found hfind).1
  split
  · exact h
  next hchecks =>
  split
  next n hchannel =>
    split
    · have hwires : s.wiresFree c n env.nextCircId = true := by
        simpa only [takesFree, hfind, hchannel] using hfree
      exact h.keeps_wires hwires (h.keeps_sendCreate env hc n)
    · exact h
  · split
    · have hprev : c.prevConn = some conn := not_not.mp fun hne => hchecks (.inl hne)
      exact h.of_keeps (keeps_dispatchWorker env conn request hc hprev)
    · exact h

/-- What the worker has stays in use while its result is in the queue. -/
theorem keeps_finish {k : ℕ} {w : ExtendWork} (hk : s.workers[k]? = some w)
    {results : List (ExtendWork × WorkResult)}
    (hresults : ∀ v ∈ results.map Prod.fst, v ∈ s.results.map Prod.fst ∨ v = w) :
    Keeps P s { s with workers := s.workers.eraseIdx k, results := results } := by
  refine { Keeps.refl s with waiting := fun v hv => mem_uses_of_waiting ?_ }
  rcases mem_append.mp hv with hv | hv
  · exact mem_append_left _ (mem_of_mem_eraseIdx hv)
  · rcases hresults v hv with hv | rfl
    · exact mem_append_right _ hv
    · exact mem_append_left _ (mem_of_getElem? hk)

theorem opensFree_of_uses_subset {conn : ConnRef} (hheld : s'.held = s.held)
    (hconns : s'.conns = s.conns) (huses : s'.uses ⊆ s.uses) (h : s.opensFree conn = true) :
    s'.opensFree conn = true := by
  simp only [opensFree, freeFor, hheld, hconns, all_eq_true, Bool.or_eq_true] at h ⊢
  exact fun p hp => (h p hp).imp_right fun hfree q hq => hfree q (huses hq)

variable {w : ExtendWork} {result : WorkResult} {results : List (ExtendWork × WorkResult)}
  (h : Consistent s)
include h

theorem Consistent.finish {k : ℕ} (hk : s.workers[k]? = some w)
    (hfree : s.takesFree (.finish k result) = true) :
    Consistent ({ s with workers := s.workers.eraseIdx k }.pushResult w result) := by
  unfold pushResult
  split
  · have hpush : Keeps (fun _ _ => False) s { s with
        workers := s.workers.eraseIdx k, results := s.results ++ [(w, result)] } :=
      keeps_finish hk (by simp)
    cases result with
    | failed => exact h.of_keeps hpush
    | created payload nextConn =>
      refine (h.of_keeps hpush).openConn (opensFree_of_uses_subset (s := s) rfl rfl ?_ hfree)
      exact fun p hp => (hpush.uses p.1 p.2 hp).resolve_right id
  · exact h.of_keeps (keeps_finish hk (by exact fun v hv => .inl hv))

/-- In the generation in which it was asked for, the circuit that is found for a result is the one
that had asked for it. -/
theorem Consistent.owner_eq (hw : w ∈ s.waiting)
    (hgen : (s.conns w.prevConn).generation = w.prevConnGeneration) {c : WorkCircuit}
    (hfind : circuitFind w.prevCircuitId w.prevConn s.circuits = some c) : c.uid = w.owner := by
  refine h.found_eq hfind ?_
  rw [key, hgen]
  exact mem_uses_of_waiting hw

/-- A result reaches the circuit that had asked for it, if it reaches any. -/
theorem Consistent.completeWork (hresults : s.results = (w, result) :: results)
    (hfree : s.takesFree .complete = true) :
    Consistent ({ s with results := results }.completeWork w result) := by
  have hpop : ∀ P, Keeps P s { s with results := results } := fun P =>
    { Keeps.refl s with
      waiting := fun v hv => mem_uses_of_waiting (by simp only [waiting] at hv ⊢; grind) }
  unfold ExtendRelay.completeWork
  split
  · exact h.of_keeps ((hpop _).discard result)
  next hlive =>
  have hgen : (s.conns w.prevConn).generation = w.prevConnGeneration :=
    not_not.mp (not_or.mp hlive).2
  split
  · exact h.of_keeps ((hpop _).discard result)
  next c hfind =>
  split
  · exact h.of_keeps ((hpop _).discard result)
  split
  · exact h.of_keeps (((hpop _).setPending c.uid false).discard result)
  cases result with
  | failed => exact h.of_keeps ((hpop _).setPending c.uid false)
  | created payload nextConn =>
    have howner : c.uid = w.owner := h.owner_eq (by simp [waiting, hresults]) hgen hfind
    have hwires : s.wiresFree c nextConn w.nextCircuitId = true := by
      simpa only [takesFree, hresults, hgen, hfind, bne_self_eq_false, Bool.false_or,
        Option.all_some] using hfree
    refine h.keeps_wires hwires ?_
    exact { h.keeps_wire (found hfind).1 (hpop _) rfl false with
      wired := forall_mem_append_singleton howner
      extended := forall_mem_append_singleton howner }

theorem Consistent.keeps_handleCreated {k owner : ℕ} {conn : ConnRef} {id : UInt32}
    (hk : s.sent[k]? = some (conn, id, owner)) (payload : Field 64) :
    Keeps P s ({ s with sent := s.sent.eraseIdx k }.handleCreated conn id owner payload) := by
  have herase : Keeps P s { s with sent := s.sent.eraseIdx k } :=
    { Keeps.refl s with
      sent := fun create hcreate =>
        (Keeps.refl s).sent create (mem_of_mem_eraseIdx hcreate) }
  unfold handleCreated
  split
  · exact herase
  next c hfind =>
  have howner : c.uid = owner := h.found_eq hfind (mem_uses_of_sent (mem_of_getElem? hk))
  split
  · exact herase
  split
  · exact { herase.setPending c.uid false with extended := forall_mem_append_singleton howner }
  · exact herase.setPending c.uid false

/-- A CREATE that is accepted makes a circuit with a number of its own. -/
theorem Consistent.handleCreate {conn : ConnRef} {id : UInt32}
    (hfree : s.takesFree (.create conn id) = true) : Consistent (s.handleCreate conn id) := by
  unfold ExtendRelay.handleCreate
  split
  · exact h
  next hnone =>
  simp only [takesFree, hnone, Option.isSome_none, Bool.false_or] at hfree
  refine ⟨?_, ?_, ?_, h.extended, h.wired⟩
  · simp only [map_append, map_singleton]
    refine nodup_append.mpr ⟨h.nodup, nodup_singleton _, ?_⟩
    intro u hu v hv
    rw [mem_singleton.mp hv]
    exact (h.bounded u hu).ne
  · intro u hu
    rw [map_append, map_singleton] at hu
    rcases mem_append.mp hu with hu | hu
    · exact (h.bounded u hu).trans (Nat.lt_succ_self _)
    · exact mem_singleton.mp hu ▸ Nat.lt_succ_self _
  · refine h.functional_of_uses (P := fun k u => k = s.key (conn, id) ∧ u = s.nextUid) ?_ ?_
    · intro k u hu
      rcases mem_uses.mp hu with ⟨p, hp, rfl⟩ | hw
      · rcases mem_held.mp hp with ⟨c, hc, hpc, rfl⟩ | hsent
        · rcases mem_append.mp hc with hc | hc
          · exact .inl (mem_uses_of_circuit hc hpc)
          · rw [mem_singleton.mp hc] at hpc ⊢
            have hp : p = (conn, id) := by simpa [WorkCircuit.pairs] using hpc
            exact .inr ⟨congrArg s.key hp, rfl⟩
        · exact .inl (mem_uses_of_sent hsent)
      · exact .inl (mem_uses.mpr (.inr hw))
    · rintro k u v ⟨rfl, rfl⟩ (hused | ⟨-, rfl⟩)
      · exact (eq_of_freeFor hfree hused).symm
      · rfl

theorem Consistent.step {e : Event} (hfree : s.takesFree e = true)
    (hstep : s.step e = some s') : Consistent s' := by
  cases e with
  | openConn conn =>
    obtain ⟨-, hs⟩ := Option.ite_none_right_eq_some.mp hstep
    cases hs
    exact h.openConn hfree
  | closeConn conn =>
    cases hstep
    exact h.of_keeps (keeps_closeConn conn)
  | create conn id =>
    obtain ⟨-, hs⟩ := Option.ite_none_right_eq_some.mp hstep
    cases hs
    exact h.handleCreate hfree
  | destroy conn id =>
    obtain ⟨-, hs⟩ := Option.ite_none_right_eq_some.mp hstep
    cases hs
    exact h.of_keeps (keeps_handleDestroy conn id)
  | mark uid =>
    cases hstep
    exact h.of_keeps ((Keeps.refl s).mark uid)
  | closeMarked =>
    cases hstep
    exact h.of_keeps keeps_closeMarked
  | extend env conn id request =>
    obtain ⟨-, hs⟩ := Option.ite_none_right_eq_some.mp hstep
    cases hs
    exact h.handleExtend env conn hfree
  | finish k result =>
    simp only [ExtendRelay.step] at hstep
    split at hstep
    · cases hstep
    next w hk =>
    obtain ⟨-, hs⟩ := Option.ite_none_right_eq_some.mp hstep
    cases hs
    exact h.finish hk hfree
  | complete =>
    simp only [ExtendRelay.step] at hstep
    split at hstep
    · cases hstep
    next w result results hresults =>
    cases hstep
    exact h.completeWork hresults hfree
  | created k payload =>
    simp only [ExtendRelay.step] at hstep
    split at hstep
    · cases hstep
    next conn id owner hk =>
    cases hstep
    exact h.of_keeps (h.keeps_handleCreated hk payload)

theorem Consistent.complete_gone (hresults : s.results = (w, result) :: results)
    (hgone : ∀ c ∈ s.circuits, c.uid = w.owner → c.marked) :
    s.step .complete = some ({ s with results := results }.discard result) := by
  simp only [ExtendRelay.step, hresults, ExtendRelay.completeWork]
  split
  · rfl
  next hlive =>
  have hnone : circuitFind w.prevCircuitId w.prevConn s.circuits = none := by
    rw [Option.eq_none_iff_forall_ne_some]
    intro c hfind
    have howner : c.uid = w.owner :=
      h.owner_eq (by simp [waiting, hresults]) (not_not.mp (not_or.mp hlive).2) hfind
    have hc := found hfind
    exact absurd (hgone c hc.1 howner) (by simp [hc.2.1])
  rw [hnone]

end ExtendRelay

/-- A relay that has no channels. -/
def sampleWorkEnv (nextCircId : UInt32) : WorkEnv := ⟨nextCircId, none, true, true, true⟩

def sampleExtendRequest (identity : UInt8) : ExtendRequest :=
  ⟨dottedQuad 8 8 8 8, 9001, Arr.replicate 32 identity, Arr.replicate 32 5, false⟩

/-- A circuit is created and destroyed while a worker extends it, and its identifier is taken
again. -/
def sampleReuse (id : UInt32) : List ExtendRelay.Event :=
  [.openConn 1, .create 1 5, .extend (sampleWorkEnv 77) 1 5 (sampleExtendRequest 2), .destroy 1 5,
    .closeMarked, .create 1 id, .extend (sampleWorkEnv 78) 1 id (sampleExtendRequest 3),
    .finish 0 (.created (Arr.replicate 64 2) 10), .complete]

end Moor
