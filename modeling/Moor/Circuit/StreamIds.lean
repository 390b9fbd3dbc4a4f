import Mathlib.Data.Finset.Card
import Moor.Relay.ExitStreams

/-!
# The ids of the streams of a client

A client opens a stream in the first free slot of the table of its circuit. The id of the stream is
the next one of a counter that leaves out zero and the ids of the other slots. The stream is
announced by a BEGIN cell, which may fail to be encrypted or queued; the slot is not freed then.

## Main results

* `stream_ids_iff`: after any openings and closings a new id is nonzero and not in use, and when
  the table is left alone by an opening that fails.
-/

namespace Moor

open Codec List

/-- What opening a stream sets in a slot of the table. The id of a free slot is zero. -/
structure StreamSlot where
  streamId : UInt16
  targetFd : ℤ
  targetAddr : Field 256
  targetPort : UInt16
  connected : Bool
  deliverWindow : ℤ
  packageWindow : ℤ
  deriving DecidableEq

structure StreamTable where
  streams : Arr StreamSlot moorMaxStreams
  nextStreamId : UInt16

namespace StreamTable

/-- The table of a new circuit. -/
def init : StreamTable := ⟨.replicate _ ⟨0, -1, .zero 256, 0, false, 0, 0⟩, 1⟩

def idAfter (id : UInt16) : UInt16 := if id + 1 = 0 then 1 else id + 1

/-- The first id from a candidate on that is not in use, if a number of tries is enough, and the
next candidate. -/
def allocate (inUse : List UInt16) : ℕ → UInt16 → Option UInt16 × UInt16
  | 0, candidate => (none, candidate)
  | tries + 1, candidate =>
    if candidate ∈ inUse then allocate inUse tries (idAfter candidate)
    else (some candidate, idAfter candidate)

variable (streamId : UInt16) (addr : Bytes) (port : UInt16)

/-- A slot for a new stream. The last byte of the address is left alone. -/
def openSlot (slot : StreamSlot) : StreamSlot where
  streamId := streamId
  targetFd := -1
  targetAddr := Arr.ofList 256 0 ((Arr.ofList 255 0 addr).val ++ slot.targetAddr.val.drop 255)
  targetPort := port
  connected := false
  deliverWindow := moorStreamWindow
  packageWindow := moorStreamWindow

/-- Opens a stream, where the BEGIN cell is encrypted and queued or not. -/
def circuitOpenStream (encrypted queued : Bool) (t : StreamTable) : Option UInt16 × StreamTable :=
  match t.streams.val.findIdx? (·.streamId = 0) with
  | none => (none, t)
  | some i =>
    match allocate ((t.streams.val.eraseIdx i).map (·.streamId)) 65535 t.nextStreamId with
    | (none, next) => (none, { t with nextStreamId := next })
    | (some streamId, next) =>
      let t' : StreamTable :=
        ⟨⟨t.streams.val.modify i (openSlot streamId addr port), by simp⟩, next⟩
      (if encrypted && queued then some streamId else none, t')

def circuitCloseStream (t : StreamTable) : StreamTable :=
  if streamId = 0 then t
  else match t.streams.val.findIdx? (·.streamId = streamId) with
    | none => t
    | some i => { t with
        streams := ⟨t.streams.val.modify i fun slot => { slot with streamId := 0 }, by simp⟩ }

inductive Event
  | openStream (addr : Bytes) (port : UInt16) (encrypted queued : Bool)
  | closeStream (streamId : UInt16)

def step (t : StreamTable) : Event → StreamTable
  | .openStream addr port encrypted queued => (t.circuitOpenStream addr port encrypted queued).2
  | .closeStream streamId => t.circuitCloseStream streamId

/-! ### Ids -/

section

variable {inUse : List UInt16} {candidate : UInt16} {tries : ℕ}

theorem toNat_idAfter (id : UInt16) : (idAfter id).toNat = id.toNat % 65535 + 1 := by
  have hid := id.toNat_lt
  have hsucc : (id + 1).toNat = (id.toNat + 1) % 65536 := UInt16.toNat_add ..
  rw [idAfter]
  split
  · rename_i hzero
    rw [hzero] at hsucc
    change 1 = _
    change 0 = _ at hsucc
    omega
  · rename_i hne
    rw [← UInt16.toNat_inj, hsucc] at hne
    change ¬_ = 0 at hne
    omega

theorem idAfter_ne_zero (id : UInt16) : idAfter id ≠ 0 := by
  rw [← UInt16.toNat_inj.ne, toNat_idAfter]
  exact Nat.succ_ne_zero _

/-- The candidates go round all ids but zero. -/
theorem toNat_iterate_idAfter (h : candidate ≠ 0) (j : ℕ) :
    (idAfter^[j] candidate).toNat = (candidate.toNat - 1 + j) % 65535 + 1 := by
  have hpos : candidate.toNat ≠ 0 := UInt16.toNat_inj.ne.mpr h
  have hlt := candidate.toNat_lt
  induction j with
  | zero =>
    change candidate.toNat = _
    omega
  | succ j ih =>
    rw [Function.iterate_succ_apply', toNat_idAfter, ih]
    omega

theorem allocate_spec (h : candidate ≠ 0) :
    (allocate inUse tries candidate).2 ≠ 0 ∧
      ∀ id ∈ (allocate inUse tries candidate).1, id ≠ 0 ∧ id ∉ inUse := by
  induction tries generalizing candidate with
  | zero => exact ⟨h, fun id hid => nomatch hid⟩
  | succ tries ih =>
    rw [allocate]
    split
    · exact ih (idAfter_ne_zero _)
    · rename_i hfree
      refine ⟨idAfter_ne_zero _, fun id hid => ?_⟩
      rw [← Option.some_inj.mp hid]
      exact ⟨h, hfree⟩

theorem mem_inUse_of_allocate (h : (allocate inUse tries candidate).1 = none) :
    ∀ j < tries, idAfter^[j] candidate ∈ inUse := by
  induction tries generalizing candidate with
  | zero => exact fun j hj => absurd hj (Nat.not_lt_zero j)
  | succ tries ih =>
    rw [allocate] at h
    split at h
    · rename_i hused
      intro j hj
      cases j with
      | zero => exact hused
      | succ j => exact ih h j (Nat.lt_of_succ_lt_succ hj)
    · cases h

/-- With more tries than ids in use an id is found. -/
theorem allocate_ne_none (h : candidate ≠ 0) (htries : tries ≤ 65535)
    (hroom : inUse.length < tries) : (allocate inUse tries candidate).1 ≠ none := by
  intro hnone
  have hmaps := mem_inUse_of_allocate hnone
  have hcard : (Finset.range tries).card ≤ inUse.toFinset.card := by
    refine Finset.card_le_card_of_injOn (idAfter^[·] candidate) ?_ ?_
    · intro j hj
      simpa using hmaps j (by simpa using hj)
    · intro j hj k hk hjk
      have heq := congrArg UInt16.toNat hjk
      simp only [toNat_iterate_idAfter h] at heq
      simp only [Finset.coe_range, Set.mem_Iio] at hj hk
      omega
  rw [Finset.card_range] at hcard
  exact absurd (hcard.trans inUse.toFinset_card_le) (Nat.not_le.mpr hroom)

end

/-! ### Openings -/

section

variable (addr : Bytes) (port : UInt16) (encrypted queued : Bool) {t : StreamTable}

/-- Without a free slot nothing is opened; otherwise a new id is entered in the table. -/
theorem circuitOpenStream_cases (h : t.nextStreamId ≠ 0) :
    ((∀ slot ∈ t.streams.val, slot.streamId ≠ 0) ∧
      t.circuitOpenStream addr port encrypted queued = (none, t)) ∨
    ∃ id next streams, (∃ slot ∈ t.streams.val, slot.streamId = 0) ∧ id ≠ 0 ∧
      (∀ slot ∈ t.streams.val, slot.streamId ≠ id) ∧ next ≠ 0 ∧
      (∃ slot ∈ streams.val, slot.streamId = id) ∧
      t.circuitOpenStream addr port encrypted queued =
        (if encrypted && queued then some id else none, ⟨streams, next⟩) := by
  unfold circuitOpenStream
  split
  · rename_i hfull
    exact .inl ⟨by simpa using hfull, rfl⟩
  · rename_i i hi
    right
    obtain ⟨hlt, hfree, -⟩ := findIdx?_eq_some_iff_getElem.mp hi
    have hzero := of_decide_eq_true hfree
    set others := (t.streams.val.eraseIdx i).map (·.streamId) with hothers
    have hlen : others.length < 65535 := by
      rw [hothers, length_map, length_eraseIdx_of_lt hlt, t.streams.2]
      decide
    obtain ⟨hnext, hnew⟩ := @allocate_spec others t.nextStreamId 65535 h
    have hsome := allocate_ne_none h le_rfl hlen
    generalize allocate others 65535 t.nextStreamId = allocated at hnext hnew hsome
    obtain ⟨_ | id, next⟩ := allocated
    · exact absurd rfl hsome
    obtain ⟨hne, hunused⟩ := hnew id rfl
    refine ⟨id, next, _, ⟨_, getElem_mem hlt, hzero⟩, hne, ?_, hnext, ?_, rfl⟩
    · intro slot hslot heq
      obtain ⟨j, hj, rfl⟩ := getElem_of_mem hslot
      by_cases hij : j = i
      · subst hij
        exact hne (heq.symm.trans hzero)
      · refine hunused (heq ▸ mem_map_of_mem ?_)
        exact mem_eraseIdx_iff_getElem.mpr ⟨j, hj, hij, rfl⟩
    · exact ⟨openSlot id addr port (t.streams.val[i]),
        mem_of_getElem? (by rw [getElem?_modify_eq, getElem?_eq_getElem hlt]; rfl), rfl⟩

theorem step_nextStreamId_ne_zero (h : t.nextStreamId ≠ 0) (event : Event) :
    (t.step event).nextStreamId ≠ 0 := by
  cases event with
  | openStream addr port encrypted queued =>
    rw [step]
    rcases circuitOpenStream_cases addr port encrypted queued h with
      ⟨-, hr⟩ | ⟨_, _, _, -, -, -, hnext, -, hr⟩ <;> rw [hr]
    · exact h
    · exact hnext
  | closeStream streamId =>
    rw [step, circuitCloseStream]
    split
    · exact h
    split <;> exact h

end

theorem foldl_nextStreamId_ne_zero (events : List Event) :
    (events.foldl step init).nextStreamId ≠ 0 := by
  refine foldlRecOn (motive := fun t => t.nextStreamId ≠ 0) events step ?_ ?_
  · decide
  · exact fun t ht event _ => step_nextStreamId_ne_zero ht event

end StreamTable

open StreamTable

/-- After any openings, successful or not, and closings: an id that is given out is nonzero and not
that of a stream in the table, and an opening that fails leaves the table as it was, if and only if
no slot is free or the BEGIN cell is encrypted and queued. -/
theorem stream_ids_iff (events : List StreamTable.Event) (addr : Bytes) (port : UInt16)
    (encrypted queued : Bool) :
    let t := events.foldl StreamTable.step .init
    let r := t.circuitOpenStream addr port encrypted queued
    ((∀ id, r.1 = some id → id ≠ 0 ∧ ∀ slot ∈ t.streams.val, slot.streamId ≠ id) ∧
        (r.1 = none → r.2.streams = t.streams)) ↔
      (∀ slot ∈ t.streams.val, slot.streamId ≠ 0) ∨ (encrypted = true ∧ queued = true) := by
  intro t r
  rcases circuitOpenStream_cases addr port encrypted queued (foldl_nextStreamId_ne_zero events) with
    ⟨hfull, hr⟩ | ⟨id, next, streams, ⟨slot, hslot, hfree⟩, hne, hunused, -, ⟨new, hnew, hid⟩, hr⟩
  · simp only [r, t, hr]
    exact iff_of_true ⟨fun id hid => (nomatch hid), fun _ => trivial⟩ (.inl hfull)
  simp only [r, t, hr]
  by_cases hsent : encrypted = true ∧ queued = true
  · rw [if_pos (by simpa using hsent)]
    refine iff_of_true ⟨fun id' hid' => ?_, fun h => nomatch h⟩ (.inr hsent)
    rw [← Option.some_inj.mp hid']
    exact ⟨hne, hunused⟩
  · rw [if_neg (by simpa using hsent)]
    refine iff_of_false (fun h => ?_) (not_or.mpr ⟨fun h => h slot hslot hfree, hsent⟩)
    have hsame : streams = t.streams := h.2 rfl
    exact hunused new (hsame ▸ hnew) hid

/-- The queue does not take the BEGIN cell of the first stream: the opening fails, and the slot
stays occupied. -/
theorem stream_slot_kept :
    let r := StreamTable.init.circuitOpenStream (ascii "a") 80 true false
    r.1 = none ∧ r.2.streams.val.map (·.streamId) = 1 :: List.replicate 63 0 := by
  decide +kernel

end Moor
