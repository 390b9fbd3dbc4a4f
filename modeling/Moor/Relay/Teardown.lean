import Mathlib.Data.List.Sort
import Mathlib.Data.UInt
import Moor.Link.Connection

/-!
# Closing a circuit of a relay

The cells that a relay has accepted for forwarding wait in the queues of their circuit or, with
mixing, in a pool that they leave at random times. When a marked circuit is closed, its queues are
flushed, then DESTROY cells go to both sides, and then the pool is flushed.

## Main results

* `teardown_order_iff`: when every cell that waits goes out before the DESTROY cell on its link.
-/

namespace Moor

open Codec List

inductive CloseSide
  | forward
  | backward
  deriving DecidableEq

/-- One side of a circuit: the connection, with its socket and state, and the id there. -/
structure CircuitSide where
  conn : ℕ
  fd : ℤ
  state : ConnState
  circuitId : UInt32

/-- A cell in the pool, with the socket that its connection had when it came. -/
structure MixEntry where
  cell : Cell
  targetConn : ℕ
  targetFd : ℤ
  fireTimeMs : UInt64

/-- The pool, with the entries that are active. -/
structure MixPool where
  entries : Arr (Option MixEntry) 1024
  lambdaMs : UInt64

structure ClosingCircuit where
  side : CloseSide → Option CircuitSide
  cellQueue : CloseSide → List Cell
  markedForCloseReason : UInt8

/-- What the links take: the number of queued cells before one fails, the DESTROY cells, and cells
from the pool. -/
structure LinkTakes where
  queued : CloseSide → ℕ
  destroy : CloseSide → Bool
  mixed : MixEntry → Bool

/-- What is put on a link: a cell that waited, or the DESTROY cell. -/
inductive Frame
  | cell (cell : Cell)
  | destroy (cell : Cell)
  deriving DecidableEq

def MixEntry.isFor (side : CircuitSide) (e : MixEntry) : Bool :=
  e.targetConn = side.conn && e.targetFd = side.fd && e.cell.circuitId = side.circuitId

def MixPool.waiting (pool : MixPool) (side : CircuitSide) : List MixEntry :=
  pool.entries.val.reduceOption.filter (·.isFor side)

section Close

variable (takes : LinkTakes) (circ : ClosingCircuit) (d : CloseSide) (side : CircuitSide)

def circQueueFlushDirect : List Frame :=
  if side.state = .opened then ((circ.cellQueue d).take (takes.queued d)).map .cell else []

def sendDestroy : List Frame :=
  if side.state = .opened ∧ takes.destroy d then
    [.destroy ⟨side.circuitId, cellDestroyCmd, (Field.zero 509).set 0 circ.markedForCloseReason⟩]
  else []

/-- Entries leave the pool by their time, the first slot first where times are equal. The search
starts with the largest time, so that an entry with that time is not found. -/
def mixFlushCircuit (pool : MixPool) : List Frame × MixPool :=
  let found (e : MixEntry) : Bool := e.isFor side && e.fireTimeMs < 2 ^ 64 - 1
  let flushed := (pool.entries.val.reduceOption.filter found).insertionSort
    fun a b => a.fireTimeMs ≤ b.fireTimeMs
  (if side.state = .opened then (flushed.filter takes.mixed).map fun e => .cell e.cell else [],
    { pool with entries := ⟨pool.entries.val.map fun slot => slot.filter (!found ·), by simp⟩ })

/-- The pool is flushed for the side towards the exit first. -/
def mixFlush (pool : MixPool) (d : CloseSide) : List Frame × MixPool :=
  match circ.side d with
  | some side => if 0 < pool.lambdaMs then mixFlushCircuit takes side pool else ([], pool)
  | none => ([], pool)

/-- What the pass over a marked circuit puts on the link of a side. Every phase treats one side
after the other, so that this is the order on the link: the queue, the DESTROY cell, the pool. -/
def circuitCloseMarked (pool : MixPool) : List Frame :=
  match circ.side d with
  | some side =>
    let pool := if d = .backward then (mixFlush takes circ pool .forward).2 else pool
    circQueueFlushDirect takes circ d side ++ sendDestroy takes circ d side ++
      (mixFlush takes circ pool d).1
  | none => []

end Close

/-- The cells before the DESTROY cell. -/
def cellsBeforeDestroy : List Frame → List Cell
  | .cell cell :: sent => cell :: cellsBeforeDestroy sent
  | _ => []

theorem cellsBeforeDestroy_append (cells : List Cell) (cell : Cell) (rest : List Frame) :
    cellsBeforeDestroy (cells.map .cell ++ .destroy cell :: rest) = cells := by
  induction cells with
  | nil => rfl
  | cons c cells ih => exact congrArg (c :: ·) ih

variable {takes : LinkTakes} {circ : ClosingCircuit} {pool : MixPool}

theorem destroy_notMem_mixFlush {d : CloseSide} (cell : Cell) :
    .destroy cell ∉ (mixFlush takes circ pool d).1 := by
  unfold mixFlush
  split
  · split
    · dsimp only [mixFlushCircuit]
      split <;> simp
    · exact not_mem_nil
  · exact not_mem_nil

/-- Every cell that waits for a side when its circuit is closed, in the queue or in the pool, is on
the link before a DESTROY cell is, if and only if the pool holds none of them and the link takes the
queue, wherever it takes a DESTROY cell. -/
theorem teardown_order_iff (takes : LinkTakes) (circ : ClosingCircuit) (pool : MixPool) :
    (∀ d side, circ.side d = some side →
      (∃ cell, .destroy cell ∈ circuitCloseMarked takes circ d pool) →
      cellsBeforeDestroy (circuitCloseMarked takes circ d pool) ~
        circ.cellQueue d ++ (pool.waiting side).map (·.cell)) ↔
    ∀ d side, circ.side d = some side → side.state = .opened → takes.destroy d = true →
      (circ.cellQueue d).length ≤ takes.queued d ∧ pool.waiting side = [] := by
  refine forall_congr' fun d => forall_congr' fun side => forall_congr' fun hside => ?_
  simp only [circuitCloseMarked, hside]
  generalize (if d = .backward then (mixFlush takes circ pool .forward).2 else pool) = pool'
  have hpool := @destroy_notMem_mixFlush takes circ pool' d
  generalize (mixFlush takes circ pool' d).1 = rest at hpool
  by_cases hsent : side.state = .opened ∧ takes.destroy d = true
  · obtain ⟨hopened, hdestroy⟩ := hsent
    simp only [circQueueFlushDirect, sendDestroy, if_pos hopened,
      if_pos (And.intro hopened hdestroy), append_assoc, singleton_append,
      cellsBeforeDestroy_append]
    constructor
    · intro h _ _
      have hlen := (h ⟨_, mem_append_right _ mem_cons_self⟩).length_eq
      rw [length_take, length_append, length_map] at hlen
      exact ⟨by omega, length_eq_zero_iff.mp (by omega)⟩
    · rintro h -
      obtain ⟨htaken, hnone⟩ := h hopened hdestroy
      rw [hnone, take_of_length_le htaken, map_nil, append_nil]
  · refine iff_of_true ?_ fun hopened hdestroy => absurd ⟨hopened, hdestroy⟩ hsent
    rintro ⟨cell, hcell⟩
    rw [sendDestroy, if_neg hsent, append_nil, mem_append] at hcell
    rcases hcell with hcell | hcell
    · unfold circQueueFlushDirect at hcell
      split at hcell
      · obtain ⟨c, -, hc⟩ := mem_map.mp hcell
        cases hc
      · cases hcell
    · exact absurd hcell (hpool cell)

/-- A cell waits in the pool, and goes out behind the DESTROY cell. -/
theorem destroy_overtakes_mixed_cell :
    let side : CircuitSide := ⟨1, 7, .opened, 5⟩
    let entry : MixEntry := ⟨⟨5, cellRelayCmd, Field.zero 509⟩, 1, 7, 1000⟩
    circuitCloseMarked ⟨fun _ => 1, fun _ => true, fun _ => true⟩
        ⟨fun d => if d = .forward then some side else none, fun _ => [], 0⟩ .forward
        ⟨Arr.ofList 1024 none [some entry], 20⟩ =
      [.destroy ⟨5, cellDestroyCmd, Field.zero 509⟩, .cell entry.cell] := by
  decide +kernel

end Moor
