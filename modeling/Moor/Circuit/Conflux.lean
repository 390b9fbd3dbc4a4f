import Mathlib.Order.Interval.Finset.Nat
import Moor.Cell
import Moor.Lib.Feistel
import Moor.Lib.Run
import Moor.Lib.Slots

/-!
# Circuits over several legs

A client may spread a stream over several circuits, the legs of a set. The cells are numbered by
their sender, and the numbers are encrypted so that an observer of one leg learns nothing of the
others. The receiver hands over the cell that is next at once, keeps up to 32 cells that came too
early, and drops the rest; cells that wait for too long are given up together with the gap before
them.

## Main results

* `conflux_in_order`: what is handed over, for all arrivals.
-/

namespace Moor

open Codec List Bool Slots Nat

def moorConfluxMaxLegs : ℕ := 4
def moorConfluxReorderBuf : ℕ := 32

/-! ### Numbers -/

variable (C : Crypto) (key : Field 32)

/-- The round function of the network: the start of a hash of the key, the round and a half. -/
def feistelRoundFn (roundNum : UInt8) (rHalf : UInt32) : UInt32 :=
  UInt32.ofNat (beDecode ((C.hash (key.val ++ [roundNum] ++ be32 rHalf)).val.take 4))

def feistelRounds (key : Field 32) : List (UInt32 → UInt32) :=
  [0, 1, 2, 3].map (feistelRoundFn C key)

def feistelEncrypt (seq : UInt64) : UInt64 :=
  Feistel.ofHalves (Feistel.encrypt (feistelRounds C key) (Feistel.halves seq))

def feistelDecrypt (enc : UInt64) : UInt64 :=
  Feistel.ofHalves (Feistel.decrypt (feistelRounds C key) (Feistel.halves enc))

@[simp]
theorem feistelDecrypt_feistelEncrypt (seq : UInt64) :
    feistelDecrypt C key (feistelEncrypt C key seq) = seq := by
  rw [feistelDecrypt, feistelEncrypt, Feistel.halves_ofHalves, Feistel.decrypt_encrypt,
    Feistel.ofHalves_halves]

/-- Decryption is the inverse of encryption, whatever the hash and the key are, so that different
numbers stay different. -/
theorem feistel_permutation :
    (∀ seq, feistelDecrypt C key (feistelEncrypt C key seq) = seq) ∧
      (∀ enc, feistelEncrypt C key (feistelDecrypt C key enc) = enc) ∧
      Function.Injective (feistelEncrypt C key) := by
  have hleft := feistelDecrypt_feistelEncrypt C key
  refine ⟨hleft, fun enc => ?_, Function.LeftInverse.injective hleft⟩
  rw [feistelEncrypt, feistelDecrypt, Feistel.halves_ofHalves, Feistel.encrypt_decrypt,
    Feistel.ofHalves_halves]

/-! ### The set -/

/-- A cell that came too early. -/
structure ReorderEntry where
  seq : UInt64
  streamId : UInt16
  data : Bytes
  valid : Bool
  bufferedAt : ℕ
  deriving DecidableEq

structure ConfluxLeg where
  circuit : Option ℕ
  active : Bool
  deriving DecidableEq

/-- What the receiver reads of a set. -/
structure ConfluxSet where
  legs : List ConfluxLeg
  nextRecvSeq : UInt64
  reorder : Arr ReorderEntry moorConfluxReorderBuf
  seqKey : Field 32
  reorderTimeoutMs : UInt32
  deriving DecidableEq

/-- A set as it is created over its first circuit, with a key and a timeout. -/
def moorConfluxCreate (first : ℕ) (seqKey : Field 32) (reorderTimeoutMs : UInt32) : ConfluxSet where
  legs := [⟨some first, true⟩]
  nextRecvSeq := 0
  reorder := Arr.replicate _ ⟨0, 0, [], false, 0⟩
  seqKey := seqKey
  reorderTimeoutMs := reorderTimeoutMs

variable (cset : ConfluxSet)

/-- A circuit joins the set in the place of a leg that has failed, or as a new leg. -/
def moorConfluxAddLeg (circuit : ℕ) : ConfluxSet :=
  match cset.legs.findIdx? fun leg => !leg.active with
  | some i => { cset with legs := cset.legs.set i ⟨some circuit, true⟩ }
  | none =>
    if moorConfluxMaxLegs ≤ cset.legs.length then cset
    else { cset with legs := cset.legs ++ [⟨some circuit, true⟩] }

def moorConfluxLegFailed (circuit : ℕ) : ConfluxSet :=
  match cset.legs.findIdx? fun leg => leg.circuit == some circuit with
  | some i => { cset with legs := cset.legs.set i ⟨none, false⟩ }
  | none => cset

/-! ### Receiving -/

/-- What comes of a cell: it is dropped, kept for later, or next. -/
inductive ConfluxResult
  | error
  | buffered
  | available
  deriving DecidableEq

def ConfluxSet.timeout (cset : ConfluxSet) : ℕ :=
  if 0 < cset.reorderTimeoutMs then cset.reorderTimeoutMs.toNat else 10000

/-- An entry has waited for too long. -/
def ConfluxSet.stale (now : ℕ) (entry : ReorderEntry) : Bool :=
  entry.valid && cset.timeout < now - entry.bufferedAt

def uint64Max : UInt64 := 18446744073709551615

/-- The lowest number of an entry that is kept. -/
def minSeq (reorder : List ReorderEntry) : UInt64 :=
  reorder.foldl (fun least entry => if entry.valid && entry.seq < least then entry.seq else least)
    uint64Max

/-- Entries that have waited for too long are given up. If there were any and the next cell is not
kept, the receiver goes on with the lowest number that is. -/
def ConfluxSet.expire (now : ℕ) : ConfluxSet :=
  let reorder : Arr ReorderEntry moorConfluxReorderBuf :=
    ⟨cset.reorder.val.map fun entry =>
      if cset.stale now entry then { entry with valid := false } else entry,
      by simp⟩
  let next :=
    if cset.reorder.val.any (cset.stale now) &&
        !reorder.val.any (fun entry => entry.valid && entry.seq == cset.nextRecvSeq) &&
        minSeq reorder.val != uint64Max && cset.nextRecvSeq < minSeq reorder.val then
      minSeq reorder.val
    else cset.nextRecvSeq
  { cset with reorder := reorder, nextRecvSeq := next }

def moorConfluxReceive (now : ℕ) (cset : ConfluxSet) (fromCircuit : ℕ) (encSeq : UInt64)
    (streamId : UInt16) (data : Bytes) : ConfluxSet × ConfluxResult :=
  let seq := feistelDecrypt C cset.seqKey encSeq
  let cset := cset.expire now
  if !cset.legs.any fun leg => leg.circuit == some fromCircuit && leg.active then (cset, .error)
  else if seq = cset.nextRecvSeq then
    if cset.nextRecvSeq = uint64Max then (cset, .error)
    else ({ cset with nextRecvSeq := cset.nextRecvSeq + 1 }, .available)
  else if seq < cset.nextRecvSeq then (cset, .error)
  else if UInt64.ofNat moorConfluxReorderBuf ≤ seq - cset.nextRecvSeq then (cset, .error)
  else if cset.reorder.val.any fun entry => entry.valid && entry.seq == seq then (cset, .error)
  else
    match cset.reorder.val.findIdx? fun entry => !entry.valid with
    | none => (cset, .error)
    | some i =>
      -- A cell that is too long leaves its number in a slot that stays free.
      if moorRelayData - 8 < data.length then
        match cset.reorder.val[i]? with
        | none => (cset, .error)
        | some entry =>
          ({ cset with
              reorder := cset.reorder.set i { entry with seq := seq, streamId := streamId } },
            .error)
      else
        ({ cset with reorder := cset.reorder.set i ⟨seq, streamId, data, true, now⟩ }, .buffered)

/-- A cell that is handed over, with its number. -/
structure Delivered where
  seq : UInt64
  streamId : UInt16
  data : Bytes
  deriving DecidableEq

def ReorderEntry.delivered (entry : ReorderEntry) : Delivered :=
  ⟨entry.seq, entry.streamId, entry.data⟩

/-- The next cell, if it is kept and fits into the caller's buffer. -/
def moorConfluxDeliver (lenOut : ℕ) : ConfluxSet × Option Delivered :=
  match cset.reorder.val.findIdx? fun entry => entry.valid && entry.seq == cset.nextRecvSeq with
  | none => (cset, none)
  | some i =>
    match cset.reorder.val[i]? with
    | none => (cset, none)
    | some entry =>
      if lenOut < entry.data.length then (cset, none)
      else
        let cset := { cset with reorder := cset.reorder.set i { entry with valid := false } }
        if cset.nextRecvSeq = uint64Max then (cset, none)
        else ({ cset with nextRecvSeq := cset.nextRecvSeq + 1 }, some entry.delivered)

variable {lenOut : ℕ}

/-- What a delivery does: the next cell was kept, its slot is free, and the receiver goes on. -/
theorem moorConfluxDeliver_eq_some {cset cset' : ConfluxSet} {d : Delivered}
    (h : moorConfluxDeliver cset lenOut = (cset', some d)) :
    ∃ (i : ℕ) (entry : ReorderEntry), cset.reorder.val[i]? = some entry ∧ entry.valid = true ∧
      entry.seq = cset.nextRecvSeq ∧ cset.nextRecvSeq ≠ uint64Max ∧ d = entry.delivered ∧
      cset' = { cset with
        reorder := cset.reorder.set i { entry with valid := false }
        nextRecvSeq := cset.nextRecvSeq + 1 } := by
  rw [moorConfluxDeliver] at h
  split at h
  · cases h
  next i hfind =>
  obtain ⟨hlen, htest, -⟩ := findIdx?_eq_some_iff_getElem.mp hfind
  rw [and_eq_true, beq_iff_eq] at htest
  rw [getElem?_eq_getElem hlen] at h
  dsimp only at h
  split_ifs at h with hroom hmax
  · cases h
  · cases h
  · obtain ⟨rfl, hd⟩ := Prod.mk.inj h
    exact ⟨i, _, getElem?_eq_getElem hlen, htest.1, htest.2, hmax,
      (Option.some_inj.mp hd).symm, rfl⟩

/-- What it means that nothing is delivered: the next cell is not kept, or it is too long for the
caller, or the numbers have come to their end. -/
theorem moorConfluxDeliver_eq_none {cset cset' : ConfluxSet}
    (h : moorConfluxDeliver cset lenOut = (cset', none)) :
    (cset' = cset ∧ ∀ e ∈ cset.reorder.val, e.valid → e.seq ≠ cset.nextRecvSeq) ∨
    ∃ (i : ℕ) (entry : ReorderEntry), cset.reorder.val[i]? = some entry ∧ entry.valid = true ∧
      entry.seq = cset.nextRecvSeq ∧ (lenOut < entry.data.length ∧ cset' = cset ∨
        cset.nextRecvSeq = uint64Max ∧
        cset' = { cset with reorder := cset.reorder.set i { entry with valid := false } }) := by
  rw [moorConfluxDeliver] at h
  split at h
  next hfind =>
    refine .inl ⟨(Prod.mk.inj h).1.symm, fun e he hvalid hseq => ?_⟩
    have htest := findIdx?_eq_none_iff.mp hfind e he
    simp [hvalid, hseq] at htest
  next i hfind =>
  obtain ⟨hlen, htest, -⟩ := findIdx?_eq_some_iff_getElem.mp hfind
  rw [and_eq_true, beq_iff_eq] at htest
  rw [getElem?_eq_getElem hlen] at h
  refine .inr ⟨i, _, getElem?_eq_getElem hlen, htest.1, htest.2, ?_⟩
  dsimp only at h
  split_ifs at h with hroom hmax
  · exact .inl ⟨hroom, (Prod.mk.inj h).1.symm⟩
  · exact .inr ⟨hmax, (Prod.mk.inj h).1.symm⟩
  · cases h

/-- A slot that becomes free. -/
theorem countP_valid_set_lt {l : List ReorderEntry} {i : ℕ} {entry : ReorderEntry}
    (hi : l[i]? = some entry) (hvalid : entry.valid = true) :
    (l.set i { entry with valid := false }).countP (·.valid) < l.countP (·.valid) := by
  obtain ⟨hlen, hget⟩ := List.getElem?_eq_some_iff.mp hi
  have hpos : 0 < l.countP (·.valid) :=
    countP_pos_iff.mpr ⟨entry, mem_of_getElem? hi, hvalid⟩
  rw [countP_set hlen, hget, if_pos hvalid, if_neg Bool.false_ne_true]
  omega

/-- The loop that hands over what has become next. It ends, as each cell leaves its slot. -/
def confluxDrain (cset : ConfluxSet) : ConfluxSet × List Delivered :=
  match _ : moorConfluxDeliver cset moorRelayData with
  | (cset', some d) =>
    let (drained, ds) := confluxDrain cset'
    (drained, d :: ds)
  | (cset', none) => (cset', [])
termination_by cset.reorder.val.countP (·.valid)
decreasing_by
  obtain ⟨i, entry, hi, hvalid, -, -, -, rfl⟩ := moorConfluxDeliver_eq_some ‹_›
  exact countP_valid_set_lt hi hvalid

/-- A cell that arrives: it is handed over if it is next, and then what has become next. -/
def handleConfluxData (C : Crypto) (now : ℕ) (cset : ConfluxSet) (fromCircuit : ℕ)
    (encSeq : UInt64) (streamId : UInt16) (data : Bytes) : ConfluxSet × List Delivered :=
  match moorConfluxReceive C now cset fromCircuit encSeq streamId data with
  | (cset, .error) => (cset, [])
  | (cset, .buffered) => confluxDrain cset
  | (cset, .available) =>
    let (drained, ds) := confluxDrain cset
    (drained, ⟨feistelDecrypt C cset.seqKey encSeq, streamId, data⟩ :: ds)

/-! ### Runs -/

inductive ConfluxEvent
  | cell (circuit : ℕ) (encSeq : UInt64) (streamId : UInt16) (data : Bytes) (now : ℕ)
  | addLeg (circuit : ℕ)
  | legFailed (circuit : ℕ)

/-- A set together with the cells that have arrived, under their numbers, and those that were
handed over. -/
structure ConfluxReceiver where
  cset : ConfluxSet
  received : List Delivered
  delivered : List Delivered

def confluxStep (C : Crypto) (r : ConfluxReceiver) : ConfluxEvent → Option ConfluxReceiver
  | .cell circuit encSeq streamId data now =>
    let (cset, ds) := handleConfluxData C now r.cset circuit encSeq streamId data
    some {
      cset := cset
      received := r.received ++ [⟨feistelDecrypt C r.cset.seqKey encSeq, streamId, data⟩]
      delivered := r.delivered ++ ds }
  | .addLeg circuit => some { r with cset := moorConfluxAddLeg r.cset circuit }
  | .legFailed circuit => some { r with cset := moorConfluxLegFailed r.cset circuit }

/-- The receiver of a new set. -/
def confluxStart (first : ℕ) (seqKey : Field 32) (reorderTimeoutMs : UInt32) : ConfluxReceiver :=
  ⟨moorConfluxCreate first seqKey reorderTimeoutMs, [], []⟩

/-! ### Order and origin -/

variable {C : Crypto} {cset cset' : ConfluxSet} {received delivered : List Delivered}
  {d : Delivered} {now : ℕ}

section

/-- What was handed over came under its number, in increasing order, and so will what is kept. -/
structure Sound (received : List Delivered) (cset : ConfluxSet) (delivered : List Delivered) :
    Prop where
  kept : ∀ e ∈ cset.reorder.val, e.valid → e.delivered ∈ received
  handed : ∀ d ∈ delivered, d ∈ received
  sorted : delivered.Pairwise (·.seq < ·.seq)
  below : ∀ d ∈ delivered, d.seq < cset.nextRecvSeq

variable {next : UInt64}

theorem toNat_add_one (h : next ≠ uint64Max) : (next + 1).toNat = next.toNat + 1 := by
  have hne : next.toNat ≠ 18446744073709551615 := fun heq => h (UInt64.toNat_inj.mp heq)
  have hlt := next.toNat_lt
  rw [UInt64.toNat_add, UInt64.toNat_one, mod_eq_of_lt (by omega)]

theorem lt_add_one (h : next ≠ uint64Max) : next < next + 1 := by
  rw [UInt64.lt_iff_toNat_lt, toNat_add_one h]
  exact lt_succ_self _

namespace Sound

/-- The next number is handed over. -/
theorem push (h : Sound received cset delivered) (hnext : d.seq = cset.nextRecvSeq)
    (hmax : cset.nextRecvSeq ≠ uint64Max) (hd : d ∈ received)
    (reorder : Arr ReorderEntry moorConfluxReorderBuf)
    (hreorder : ∀ e ∈ reorder.val, e.valid → e ∈ cset.reorder.val) :
    Sound received { cset with reorder := reorder, nextRecvSeq := cset.nextRecvSeq + 1 }
      (delivered ++ [d]) where
  kept e he hvalid := h.kept e (hreorder e he hvalid) hvalid
  handed := forall_mem_append.mpr ⟨h.handed, forall_mem_singleton.mpr hd⟩
  sorted := by
    refine pairwise_append.mpr ⟨h.sorted, pairwise_singleton _ _, ?_⟩
    intro x hx y hy
    rw [mem_singleton.mp hy, hnext]
    exact h.below x hx
  below x hx := by
    rcases mem_append.mp hx with hx | hx
    · exact UInt64.lt_trans (h.below x hx) (lt_add_one hmax)
    · rw [mem_singleton.mp hx, hnext]
      exact lt_add_one hmax

/-- Entries are given up, and the receiver may go on with a later number. -/
theorem skip (h : Sound received cset delivered) (hnext : cset.nextRecvSeq ≤ next)
    (reorder : Arr ReorderEntry moorConfluxReorderBuf)
    (hreorder : ∀ e ∈ reorder.val, e.valid → e ∈ cset.reorder.val) :
    Sound received { cset with reorder := reorder, nextRecvSeq := next } delivered where
  kept e he hvalid := h.kept e (hreorder e he hvalid) hvalid
  handed := h.handed
  sorted := h.sorted
  below x hx := UInt64.lt_of_lt_of_le (h.below x hx) hnext

end Sound

theorem nextRecvSeq_le_expire (cset : ConfluxSet) (now : ℕ) :
    cset.nextRecvSeq ≤ (cset.expire now).nextRecvSeq := by
  rw [ConfluxSet.expire]
  split
  next h =>
    rw [and_eq_true, decide_eq_true_eq] at h
    exact UInt64.le_of_lt h.2
  · exact UInt64.le_refl _

theorem Sound.expire (h : Sound received cset delivered) (now : ℕ) :
    Sound received (cset.expire now) delivered := by
  refine h.skip (nextRecvSeq_le_expire cset now) _ fun e he hvalid => ?_
  -- an entry that is kept was kept before the others expired
  obtain ⟨e', he', rfl⟩ := mem_map.mp he
  split at hvalid
  · cases hvalid
  next hfresh => rwa [if_neg hfresh]

/-- What a cell that arrives can do to the set, once the others have expired: nothing to what is
kept, the next number is passed, or the cell takes a free slot. -/
theorem moorConfluxReceive_cases (C : Crypto) (now : ℕ) (cset : ConfluxSet) (circuit : ℕ)
    (encSeq : UInt64) (streamId : UInt16) (data : Bytes) :
    (∃ reorder : Arr ReorderEntry moorConfluxReorderBuf,
      moorConfluxReceive C now cset circuit encSeq streamId data
        = ({ cset.expire now with reorder := reorder }, .error) ∧
      ∀ e ∈ reorder.val, e.valid → e ∈ (cset.expire now).reorder.val) ∨
    (moorConfluxReceive C now cset circuit encSeq streamId data
        = ({ cset.expire now with nextRecvSeq := (cset.expire now).nextRecvSeq + 1 }, .available) ∧
      feistelDecrypt C cset.seqKey encSeq = (cset.expire now).nextRecvSeq ∧
      (cset.expire now).nextRecvSeq ≠ uint64Max) ∨
    ∃ i < (cset.expire now).reorder.val.length,
      moorConfluxReceive C now cset circuit encSeq streamId data
        = ({ cset.expire now with
              reorder := (cset.expire now).reorder.set i
                ⟨feistelDecrypt C cset.seqKey encSeq, streamId, data, true, now⟩ },
            .buffered) := by
  rw [moorConfluxReceive]
  split_ifs with hleg hnext hmax hold hfar hkept hlong
  · exact .inl ⟨_, rfl, fun _ he _ => he⟩
  · exact .inl ⟨_, rfl, fun _ he _ => he⟩
  · exact .inr (.inl ⟨rfl, hnext, hmax⟩)
  · exact .inl ⟨_, rfl, fun _ he _ => he⟩
  · exact .inl ⟨_, rfl, fun _ he _ => he⟩
  · exact .inl ⟨_, rfl, fun _ he _ => he⟩
  · split
    · exact .inl ⟨_, rfl, fun _ he _ => he⟩
    next i hfind =>
    obtain ⟨hlen, htest, -⟩ := findIdx?_eq_some_iff_getElem.mp hfind
    rw [getElem?_eq_getElem hlen]
    refine .inl ⟨_, rfl, fun e he hvalid => ?_⟩
    rcases mem_set hlen he with rfl | hmem
    · rw [not_eq_true'] at htest
      rw [htest] at hvalid
      cases hvalid
    · exact hmem
  · split
    · exact .inl ⟨_, rfl, fun _ he _ => he⟩
    next i hfind =>
    exact .inr (.inr ⟨i, (findIdx?_eq_some_iff_getElem.mp hfind).1, rfl⟩)

/-- A slot that becomes free keeps nothing. -/
theorem mem_of_mem_set_free {l : List ReorderEntry} {i : ℕ} {entry e : ReorderEntry}
    (hi : l[i]? = some entry) (he : e ∈ l.set i { entry with valid := false })
    (hvalid : e.valid) : e ∈ l := by
  rcases mem_set (List.getElem?_eq_some_iff.mp hi).1 he with rfl | hmem
  · cases hvalid
  · exact hmem

variable (h : Sound received cset delivered)
include h

theorem Sound.drain :
    Sound received (confluxDrain cset).1 (delivered ++ (confluxDrain cset).2) := by
  fun_induction confluxDrain cset generalizing delivered with
  | case1 cset cset' d hdeliver drained ds hdrain ih =>
    obtain ⟨i, entry, hi, hvalid, hseq, hmax, rfl, rfl⟩ := moorConfluxDeliver_eq_some hdeliver
    rw [hdrain] at ih
    have hpush := h.push (d := entry.delivered) hseq hmax
      (h.kept entry (mem_of_getElem? hi) hvalid)
      (cset.reorder.set i { entry with valid := false }) fun e => mem_of_mem_set_free hi
    have hrest := ih hpush
    rwa [append_assoc] at hrest
  | case2 cset cset' hdeliver =>
    rw [append_nil]
    rcases moorConfluxDeliver_eq_none hdeliver with ⟨rfl, -⟩ | ⟨i, entry, hi, -, -, hlast⟩
    · exact h
    · rcases hlast with ⟨-, rfl⟩ | ⟨-, rfl⟩
      · exact h
      · exact h.skip (UInt64.le_refl _) _ fun e => mem_of_mem_set_free hi

theorem Sound.mono (d : Delivered) : Sound (received ++ [d]) cset delivered where
  kept e he hvalid := mem_append_left _ (h.kept e he hvalid)
  handed x hx := mem_append_left _ (h.handed x hx)
  sorted := h.sorted
  below := h.below

/-- A cell that arrives, whatever it is and whenever it comes. -/
theorem Sound.handle (C : Crypto) (now circuit : ℕ) (encSeq : UInt64) (streamId : UInt16)
    (data : Bytes) :
    Sound (received ++ [⟨feistelDecrypt C cset.seqKey encSeq, streamId, data⟩])
      (handleConfluxData C now cset circuit encSeq streamId data).1
      (delivered ++ (handleConfluxData C now cset circuit encSeq streamId data).2) := by
  have hexpired := (h.expire now).mono ⟨feistelDecrypt C cset.seqKey encSeq, streamId, data⟩
  rw [handleConfluxData]
  rcases moorConfluxReceive_cases C now cset circuit encSeq streamId data with
    ⟨reorder, heq, hreorder⟩ | ⟨heq, hnext, hmax⟩ | ⟨i, hlen, heq⟩
  · rw [heq, append_nil]
    exact hexpired.skip (UInt64.le_refl _) reorder hreorder
  · rw [heq]
    have hpush := hexpired.push (d := ⟨feistelDecrypt C cset.seqKey encSeq, streamId, data⟩) hnext
      hmax (by simp) _ fun _ he _ => he
    have hdrained := hpush.drain
    rwa [append_assoc] at hdrained
  · rw [heq]
    refine Sound.drain { hexpired with kept := fun e he hvalid => ?_ }
    rcases mem_set hlen he with rfl | hmem
    · exact mem_append_right _ (mem_singleton.mpr rfl)
    · exact hexpired.kept e hmem hvalid

omit h

theorem Sound.step {r r' : ConfluxReceiver} (h : Sound r.received r.cset r.delivered)
    {ev : ConfluxEvent} (hstep : confluxStep C r ev = some r') :
    Sound r'.received r'.cset r'.delivered := by
  cases ev with
  | cell circuit encSeq streamId data now =>
    cases hstep
    exact h.handle C now circuit encSeq streamId data
  | addLeg circuit =>
    cases hstep
    simp only [moorConfluxAddLeg]
    split
    · exact { h with }
    · split <;> exact { h with }
  | legFailed circuit =>
    cases hstep
    simp only [moorConfluxLegFailed]
    split <;> exact { h with }

end

/-! ### Complete delivery -/

/-- A cell as the sender numbers it: the number leaves room for no more than 490 bytes. -/
structure SentCell where
  streamId : UInt16
  data : Bytes
  length_le : data.length ≤ moorRelayData - 8

/-- The cells of a sender under their numbers. -/
def numbered (cells : List SentCell) : List Delivered :=
  cells.zipIdx.map fun (cell, i) => ⟨UInt64.ofNat i, cell.streamId, cell.data⟩

/-- A cell that arrives is one of the sender's, less than 32 ahead of the next that was not handed
over; it comes on a leg of the set, and no entry has waited for too long. -/
def InWindow (C : Crypto) (cells : List SentCell) (r : ConfluxReceiver) : ConfluxEvent → Prop
  | .cell circuit encSeq streamId data now =>
    (∃ s < cells.length, s < r.cset.nextRecvSeq.toNat + moorConfluxReorderBuf ∧
      ∃ cell ∈ cells[s]?, encSeq = feistelEncrypt C r.cset.seqKey (UInt64.ofNat s) ∧
        streamId = cell.streamId ∧ data = cell.data) ∧
    ⟨some circuit, true⟩ ∈ r.cset.legs ∧
    ∀ e ∈ r.cset.reorder.val, r.cset.stale now e = false
  | _ => True

instance (C : Crypto) (cells : List SentCell) (r : ConfluxReceiver) :
    DecidablePred (InWindow C cells r) := fun ev => by
  cases ev <;> unfold InWindow <;> infer_instance

section InOrder

variable {cells : List SentCell}

theorem getElem?_numbered (cells : List SentCell) (i : ℕ) :
    (numbered cells)[i]?
      = cells[i]?.map fun cell => ⟨UInt64.ofNat i, cell.streamId, cell.data⟩ := by
  rw [numbered, getElem?_map, getElem?_zipIdx, Option.map_map]
  simp [Function.comp_def]

/-- What was handed over are the first cells of the sender, and what is kept are later ones in the
window; every cell that has arrived is among them. -/
structure InOrder (cells : List SentCell) (received : List Delivered) (cset : ConfluxSet)
    (delivered : List Delivered) : Prop where
  handed : delivered = (numbered cells).take cset.nextRecvSeq.toNat
  next_le : cset.nextRecvSeq.toNat ≤ cells.length
  kept : ∀ e ∈ cset.reorder.val, e.valid → cset.nextRecvSeq.toNat ≤ e.seq.toNat ∧
    e.seq.toNat < cset.nextRecvSeq.toNat + moorConfluxReorderBuf ∧
    (numbered cells)[e.seq.toNat]? = some e.delivered
  keyed : Slots.Keyed ReorderEntry.valid ReorderEntry.seq cset.reorder.val
  seen : ∀ d ∈ received, d.seq.toNat < cset.nextRecvSeq.toNat ∨
    ∃ e ∈ cset.reorder.val, e.valid = true ∧ e.seq = d.seq

/-- The next cell is not kept. -/
def ConfluxDrained (cset : ConfluxSet) : Prop :=
  ∀ e ∈ cset.reorder.val, e.valid → e.seq ≠ cset.nextRecvSeq

namespace InOrder

/-- The next cell of the sender is handed over. -/
theorem push (h : InOrder cells received cset delivered) (hmax : cset.nextRecvSeq ≠ uint64Max)
    (hd : (numbered cells)[cset.nextRecvSeq.toNat]? = some d)
    (reorder : Arr ReorderEntry moorConfluxReorderBuf)
    (hreorder : ∀ e ∈ reorder.val, e.valid → e ∈ cset.reorder.val ∧ e.seq ≠ cset.nextRecvSeq)
    (hkeyed : Slots.Keyed ReorderEntry.valid ReorderEntry.seq reorder.val)
    (hseen : ∀ e ∈ cset.reorder.val, e.valid → e.seq ≠ cset.nextRecvSeq → e ∈ reorder.val) :
    InOrder cells received { cset with reorder := reorder, nextRecvSeq := cset.nextRecvSeq + 1 }
      (delivered ++ [d]) := by
  have hnext := toNat_add_one hmax
  have hne : ∀ {seq : UInt64}, seq ≠ cset.nextRecvSeq → seq.toNat ≠ cset.nextRecvSeq.toNat :=
    fun hseq heq => hseq (UInt64.toNat_inj.mp heq)
  refine ⟨?_, ?_, ?_, hkeyed, ?_⟩
  · rw [hnext, take_add_one, hd, h.handed]
    rfl
  · rw [hnext]
    have hlt := (List.getElem?_eq_some_iff.mp hd).1
    rw [numbered, length_map, length_zipIdx] at hlt
    exact hlt
  · intro e he hvalid
    obtain ⟨hmem, hseq⟩ := hreorder e he hvalid
    obtain ⟨hle, hlt, hget⟩ := h.kept e hmem hvalid
    have hseq' := hne hseq
    rw [hnext]
    exact ⟨by omega, by omega, hget⟩
  · intro x hx
    rw [hnext]
    rcases h.seen x hx with hlt | ⟨e, he, hvalid, hseq⟩
    · exact .inl (lt_succ_of_lt hlt)
    rcases eq_or_ne e.seq cset.nextRecvSeq with heq | hother
    · rw [← hseq, heq]
      exact .inl (lt_succ_self _)
    · exact .inr ⟨e, hseen e he hvalid hother, hvalid, hseq⟩

/-- A number of the sender is never the last one. -/
theorem ne_max (hcells : cells.length < 2 ^ 64) {next : UInt64} (h : next.toNat < cells.length) :
    next ≠ uint64Max := by
  rintro rfl
  exact absurd h (not_lt.mpr (le_of_lt_succ hcells))

theorem lt_length_of_getElem?_numbered {i : ℕ} (h : (numbered cells)[i]? = some d) :
    i < cells.length := by
  have hlt := (List.getElem?_eq_some_iff.mp h).1
  rwa [numbered, length_map, length_zipIdx] at hlt

/-- The loop hands over what has become next, and ends when the next cell is not kept. -/
theorem drain (hcells : cells.length < 2 ^ 64) (h : InOrder cells received cset delivered) :
    InOrder cells received (confluxDrain cset).1 (delivered ++ (confluxDrain cset).2) ∧
      ConfluxDrained (confluxDrain cset).1 := by
  fun_induction confluxDrain cset generalizing delivered with
  | case1 cset cset' d hdeliver drained ds hdrain ih =>
    obtain ⟨i, entry, hi, hvalid, hseq, hmax, rfl, rfl⟩ := moorConfluxDeliver_eq_some hdeliver
    rw [hdrain] at ih
    have hentry := (h.kept entry (mem_of_getElem? hi) hvalid).2.2
    rw [hseq] at hentry
    have hlen := (List.getElem?_eq_some_iff.mp hi).1
    have hpush := h.push hmax hentry (cset.reorder.set i { entry with valid := false }) ?_ ?_ ?_
    · have hrest := ih hpush
      rwa [append_assoc] at hrest
    · intro e he hvalid'
      obtain ⟨j, hj⟩ := getElem?_of_mem he
      rcases getElem?_set hlen hj with ⟨-, rfl⟩ | ⟨hji, hj⟩
      · cases hvalid'
      · refine ⟨mem_of_getElem? hj, fun hnext => hji ?_⟩
        exact h.keyed j i e entry hj hi hvalid' hvalid (hnext.trans hseq.symm)
    · exact h.keyed.set hlen fun hact => nomatch hact
    · intro e he _ hother
      refine mem_set_of_ne hi he ?_
      rintro rfl
      exact hother hseq
  | case2 cset cset' hdeliver =>
    rw [append_nil]
    rcases moorConfluxDeliver_eq_none hdeliver with ⟨rfl, hdrained⟩ | ⟨i, entry, hi, hvalid, hseq,
      hlast⟩
    · exact ⟨h, hdrained⟩
    have hentry := (h.kept entry (mem_of_getElem? hi) hvalid).2.2
    rcases hlast with ⟨hlong, -⟩ | ⟨hmax, -⟩
    · rw [getElem?_numbered] at hentry
      obtain ⟨cell, -, heq⟩ := Option.map_eq_some_iff.mp hentry
      have hle := cell.length_le
      have hdata : cell.data = entry.data := congrArg Delivered.data heq
      rw [hdata] at hle
      exact absurd hlong (not_lt.mpr (hle.trans (sub_le _ _)))
    · rw [hseq] at hentry
      exact absurd hmax (ne_max hcells (lt_length_of_getElem?_numbered hentry))

variable (h : InOrder cells received cset delivered)
include h

/-- A slot is free if the next cell is not kept: there is one slot for each number of the window,
and none is needed for the next. -/
theorem exists_free (hdrained : ConfluxDrained cset) :
    ∃ (i : ℕ) (e : ReorderEntry), cset.reorder.val.findIdx? (fun e => !e.valid) = some i ∧
      cset.reorder.val[i]? = some e ∧ e.valid = false := by
  refine h.keyed.exists_free (s := (Finset.Ioo cset.nextRecvSeq.toNat
    (cset.nextRecvSeq.toNat + moorConfluxReorderBuf)).image UInt64.ofNat) ?_ ?_
  · intro e he hvalid
    obtain ⟨hle, hlt, -⟩ := h.kept e he hvalid
    have hne : e.seq.toNat ≠ cset.nextRecvSeq.toNat := fun heq =>
      hdrained e he hvalid (UInt64.toNat_inj.mp heq)
    refine Finset.mem_image.mpr ⟨e.seq.toNat, Finset.mem_Ioo.mpr ⟨by omega, hlt⟩, ?_⟩
    exact UInt64.ofNat_toNat
  · refine Finset.card_image_le.trans_lt ?_
    rw [card_Ioo, cset.reorder.2, moorConfluxReorderBuf]
    omega

/-- A cell in the window takes a free slot. -/
theorem keep {i : ℕ} {free e : ReorderEntry} (hi : cset.reorder.val[i]? = some free)
    (hfree : free.valid = false) (hle : cset.nextRecvSeq.toNat ≤ e.seq.toNat)
    (hlt : e.seq.toNat < cset.nextRecvSeq.toNat + moorConfluxReorderBuf)
    (hget : (numbered cells)[e.seq.toNat]? = some e.delivered)
    (hnew : ∀ e' ∈ cset.reorder.val, e'.valid → e'.seq ≠ e.seq) (hvalid : e.valid = true) :
    InOrder cells (received ++ [e.delivered]) { cset with reorder := cset.reorder.set i e }
      delivered := by
  have hlen := (List.getElem?_eq_some_iff.mp hi).1
  refine ⟨h.handed, h.next_le, ?_, ?_, ?_⟩
  · intro e' he' hvalid'
    rcases mem_set hlen he' with rfl | hmem
    · exact ⟨hle, hlt, hget⟩
    · exact h.kept e' hmem hvalid'
  · exact h.keyed.set hlen fun _ j e' _ hj hvalid' => hnew e' (mem_of_getElem? hj) hvalid'
  intro d hd
  rcases mem_append.mp hd with hd | hd
  · rcases h.seen d hd with hbelow | ⟨e', he', hvalid', hseq⟩
    · exact .inl hbelow
    refine .inr ⟨e', mem_set_of_ne hi he' ?_, hvalid', hseq⟩
    rintro rfl
    rw [hfree] at hvalid'
    cases hvalid'
  · rw [mem_singleton.mp hd]
    exact .inr ⟨e, mem_of_getElem? (getElem?_set_self hlen), hvalid, rfl⟩

/-- A cell that arrives again. -/
theorem again (hd : d.seq.toNat < cset.nextRecvSeq.toNat ∨
      ∃ e ∈ cset.reorder.val, e.valid = true ∧ e.seq = d.seq) :
    InOrder cells (received ++ [d]) cset delivered := by
  exact { h with seen := forall_mem_append.mpr ⟨h.seen, forall_mem_singleton.mpr hd⟩ }

omit h

theorem expire_eq (hfresh : ∀ e ∈ cset.reorder.val, cset.stale now e = false) :
    cset.expire now = cset := by
  have hmap : cset.reorder.val.map (fun entry =>
      if cset.stale now entry then { entry with valid := false } else entry)
      = cset.reorder.val := by
    refine (map_congr_left fun e he => ?_).trans (map_id _)
    rw [hfresh e he]
    rfl
  have hany : cset.reorder.val.any (cset.stale now) = false := by
    rw [any_eq_false]
    exact fun e he => by rw [hfresh e he]; exact Bool.false_ne_true
  simp only [ConfluxSet.expire, hmap, hany, Bool.false_and, false_eq_true, if_false]

/-- A cell of the sender that arrives in the window. -/
theorem handle (hcells : cells.length < 2 ^ 64) (h : InOrder cells received cset delivered)
    (hdrained : ConfluxDrained cset) {circuit s : ℕ} {cell : SentCell}
    (hcell : cells[s]? = some cell) (hwin : s < cset.nextRecvSeq.toNat + moorConfluxReorderBuf)
    (hleg : ⟨some circuit, true⟩ ∈ cset.legs)
    (hfresh : ∀ e ∈ cset.reorder.val, cset.stale now e = false) :
    InOrder cells (received ++ [⟨UInt64.ofNat s, cell.streamId, cell.data⟩])
      (handleConfluxData C now cset circuit (feistelEncrypt C cset.seqKey (UInt64.ofNat s))
        cell.streamId cell.data).1
      (delivered ++ (handleConfluxData C now cset circuit
        (feistelEncrypt C cset.seqKey (UInt64.ofNat s)) cell.streamId cell.data).2) ∧
    ConfluxDrained (handleConfluxData C now cset circuit
      (feistelEncrypt C cset.seqKey (UInt64.ofNat s)) cell.streamId cell.data).1 := by
  have hs : s < cells.length := (List.getElem?_eq_some_iff.mp hcell).1
  have htoNat : (UInt64.ofNat s).toNat = s := by
    rw [UInt64.toNat_ofNat', mod_eq_of_lt (hs.trans hcells)]
  have hget : (numbered cells)[s]? = some ⟨UInt64.ofNat s, cell.streamId, cell.data⟩ := by
    rw [getElem?_numbered, hcell]
    rfl
  have hany : cset.legs.any (fun leg => leg.circuit == some circuit && leg.active) = true :=
    any_eq_true.mpr ⟨_, hleg, by simp⟩
  rw [handleConfluxData, moorConfluxReceive, feistelDecrypt_feistelEncrypt, expire_eq hfresh]
  simp only [hany, Bool.not_true, false_eq_true, if_false]
  rcases lt_trichotomy s cset.nextRecvSeq.toNat with hlt | heq | hgt
  · -- The cell was handed over before.
    have hne : UInt64.ofNat s ≠ cset.nextRecvSeq := by
      rw [Ne, ← UInt64.toNat_inj, htoNat]
      omega
    have hold : UInt64.ofNat s < cset.nextRecvSeq := by
      rwa [UInt64.lt_iff_toNat_lt, htoNat]
    simp only [hne, hold, if_false, if_true, append_nil]
    exact ⟨h.again (.inl (htoNat.symm ▸ hlt)), hdrained⟩
  · -- The cell is next.
    have hnext : UInt64.ofNat s = cset.nextRecvSeq := by
      simp [heq]
    have hmax : cset.nextRecvSeq ≠ uint64Max := ne_max hcells (heq ▸ hs)
    rw [hnext, heq] at hget
    simp only [hnext, hmax, if_true, if_false, feistelDecrypt_feistelEncrypt]
    have hpush := h.push hmax hget cset.reorder
      (fun e he hvalid => ⟨he, hdrained e he hvalid⟩) h.keyed fun e he _ _ => he
    have hseen := hpush.again (d := ⟨cset.nextRecvSeq, cell.streamId, cell.data⟩)
      (.inl (UInt64.lt_iff_toNat_lt.mp (lt_add_one hmax)))
    have hdrain := hseen.drain hcells
    rw [append_assoc, singleton_append] at hdrain
    exact hdrain
  have hne : UInt64.ofNat s ≠ cset.nextRecvSeq := by
    rw [Ne, ← UInt64.toNat_inj, htoNat]
    omega
  have hold : ¬UInt64.ofNat s < cset.nextRecvSeq := by
    rw [UInt64.lt_iff_toNat_lt, htoNat]
    omega
  have hfar : ¬UInt64.ofNat moorConfluxReorderBuf ≤ UInt64.ofNat s - cset.nextRecvSeq := by
    rw [UInt64.le_iff_toNat_le, UInt64.toNat_sub_of_le _ _ (UInt64.not_lt.mp hold), htoNat]
    change ¬32 ≤ s - cset.nextRecvSeq.toNat
    change s < cset.nextRecvSeq.toNat + 32 at hwin
    omega
  simp only [hne, hold, hfar, if_false]
  by_cases hkept : cset.reorder.val.any fun entry => entry.valid && entry.seq == UInt64.ofNat s
  · -- The cell is kept already.
    simp only [hkept, if_true, append_nil]
    obtain ⟨e, he, htest⟩ := any_eq_true.mp hkept
    rw [and_eq_true, beq_iff_eq] at htest
    exact ⟨h.again (.inr ⟨e, he, htest⟩), hdrained⟩
  obtain ⟨i, free, hfind, hi, hfree⟩ := h.exists_free hdrained
  have hshort : ¬moorRelayData - 8 < cell.data.length := not_lt.mpr cell.length_le
  simp only [hkept, hfind, hshort, false_eq_true, if_false]
  have hkeep := h.keep (e := ⟨UInt64.ofNat s, cell.streamId, cell.data, true, now⟩) hi hfree
    (by rw [htoNat]; exact hgt.le) (by rwa [htoNat]) (by rw [htoNat]; exact hget) ?_ rfl
  · exact hkeep.drain hcells
  intro e he hvalid hseq
  refine hkept (any_eq_true.mpr ⟨e, he, ?_⟩)
  rw [hvalid, Bool.true_and, beq_iff_eq]
  exact hseq

end InOrder

/-- The receiver of a set between two events, while all is in the window. -/
structure InSync (cells : List SentCell) (r : ConfluxReceiver) : Prop where
  inOrder : InOrder cells r.received r.cset r.delivered
  drained : ConfluxDrained r.cset

theorem InSync.step (hcells : cells.length < 2 ^ 64) {r r' : ConfluxReceiver}
    (h : InSync cells r) {ev : ConfluxEvent} (hwin : InWindow C cells r ev)
    (hstep : confluxStep C r ev = some r') : InSync cells r' := by
  cases ev with
  | cell circuit encSeq streamId data now =>
    obtain ⟨⟨s, -, hlt, cell, hcell, rfl, rfl, rfl⟩, hleg, hfresh⟩ := hwin
    cases hstep
    obtain ⟨hin, hdrained⟩ := h.inOrder.handle (C := C) hcells h.drained hcell hlt hleg hfresh
    nth_rewrite 1 [← feistelDecrypt_feistelEncrypt C r.cset.seqKey (UInt64.ofNat s)] at hin
    exact ⟨hin, hdrained⟩
  | addLeg circuit =>
    cases hstep
    simp only [moorConfluxAddLeg]
    split
    · exact ⟨{ h.inOrder with }, h.drained⟩
    · split <;> exact ⟨{ h.inOrder with }, h.drained⟩
  | legFailed circuit =>
    cases hstep
    simp only [moorConfluxLegFailed]
    split <;> exact ⟨{ h.inOrder with }, h.drained⟩

theorem inSync_start (first : ℕ) (seqKey : Field 32) (reorderTimeoutMs : UInt32) :
    InSync cells (confluxStart first seqKey reorderTimeoutMs) := by
  have hfree : ∀ e ∈ (confluxStart first seqKey reorderTimeoutMs).cset.reorder.val,
      e.valid = false := by
    intro e he
    rw [eq_of_mem_replicate he]
  refine ⟨⟨rfl, zero_le _, ?_, keyed_of_free hfree, fun d hd => nomatch hd⟩, ?_⟩
  · intro e he hvalid
    rw [hfree e he] at hvalid
    cases hvalid
  · intro e he hvalid
    rw [hfree e he] at hvalid
    cases hvalid

/-- Everything has been handed over once every cell has arrived. -/
theorem InSync.delivered_eq {r : ConfluxReceiver} (h : InSync cells r)
    (hall : ∀ d ∈ numbered cells, d ∈ r.received) : r.delivered = numbered cells := by
  have hlen : (numbered cells).length = cells.length := by
    simp [numbered]
  rw [h.inOrder.handed]
  refine take_of_length_le ?_
  rw [hlen]
  by_contra hlt
  rw [not_le] at hlt
  -- The next cell has arrived, and so it is kept; but it is not.
  have hget := getElem?_numbered cells r.cset.nextRecvSeq.toNat
  rw [getElem?_eq_getElem hlt, Option.map_some, UInt64.ofNat_toNat] at hget
  rcases h.inOrder.seen _ (hall _ (mem_of_getElem? hget)) with hbelow | ⟨e, he, hvalid, hseq⟩
  · exact lt_irrefl _ hbelow
  · exact h.drained e he hvalid hseq

end InOrder

def AllArrived (C : Crypto) (seqKey : Field 32) (cells : List SentCell)
    (events : List ConfluxEvent) : Prop :=
  ∀ (s : ℕ) (cell : SentCell), cells[s]? = some cell → ∃ circuit now,
    ConfluxEvent.cell circuit (feistelEncrypt C seqKey (UInt64.ofNat s)) cell.streamId cell.data now
      ∈ events

/-! ### What has arrived -/

/-- The cell of an event under its number. -/
def ConfluxEvent.arrival (C : Crypto) (seqKey : Field 32) : ConfluxEvent → Option Delivered
  | .cell _ encSeq streamId data _ => some ⟨feistelDecrypt C seqKey encSeq, streamId, data⟩
  | _ => none

theorem seqKey_confluxDrain (cset : ConfluxSet) :
    (confluxDrain cset).1.seqKey = cset.seqKey := by
  fun_induction confluxDrain cset with
  | case1 cset cset' d hdeliver drained ds hdrain ih =>
    obtain ⟨i, entry, -, -, -, -, -, rfl⟩ := moorConfluxDeliver_eq_some hdeliver
    rwa [hdrain] at ih
  | case2 cset cset' hdeliver =>
    rcases moorConfluxDeliver_eq_none hdeliver with ⟨rfl, -⟩ | ⟨i, entry, -, -, -, hlast⟩
    · rfl
    · rcases hlast with ⟨-, rfl⟩ | ⟨-, rfl⟩ <;> rfl

theorem seqKey_handleConfluxData (C : Crypto) (now : ℕ) (cset : ConfluxSet) (circuit : ℕ)
    (encSeq : UInt64) (streamId : UInt16) (data : Bytes) :
    (handleConfluxData C now cset circuit encSeq streamId data).1.seqKey = cset.seqKey := by
  rw [handleConfluxData]
  rcases moorConfluxReceive_cases C now cset circuit encSeq streamId data with
    ⟨reorder, heq, -⟩ | ⟨heq, -, -⟩ | ⟨i, -, heq⟩
  · rw [heq]
    rfl
  · rw [heq]
    exact seqKey_confluxDrain _
  · rw [heq]
    exact seqKey_confluxDrain _

theorem seqKey_confluxStep {r r' : ConfluxReceiver} {ev : ConfluxEvent}
    (hstep : confluxStep C r ev = some r') :
    r'.cset.seqKey = r.cset.seqKey ∧
      r'.received = r.received ++ (ev.arrival C r.cset.seqKey).toList := by
  cases ev with
  | cell circuit encSeq streamId data now =>
    cases hstep
    exact ⟨seqKey_handleConfluxData C now r.cset circuit encSeq streamId data, rfl⟩
  | addLeg circuit =>
    cases hstep
    refine ⟨?_, (append_nil _).symm⟩
    simp only [moorConfluxAddLeg]
    split
    · rfl
    · split <;> rfl
  | legFailed circuit =>
    cases hstep
    refine ⟨?_, (append_nil _).symm⟩
    simp only [moorConfluxLegFailed]
    split <;> rfl

/-- The cells that have arrived after a run. -/
theorem received_of_run {r r' : ConfluxReceiver} {events : List ConfluxEvent}
    (hrun : Run.run (confluxStep C) r events = some r') :
    r'.received = r.received ++ events.filterMap (·.arrival C r.cset.seqKey) := by
  induction events generalizing r with
  | nil =>
    cases hrun
    exact (append_nil _).symm
  | cons ev events ih =>
    rw [Run.run] at hrun
    split at hrun
    · cases hrun
    next next hstep =>
    obtain ⟨hkey, hreceived⟩ := seqKey_confluxStep hstep
    rw [ih hrun, hkey, hreceived, append_assoc, filterMap_cons]
    cases ev.arrival C r.cset.seqKey <;> rfl

/-- The receiver of a set hands cells over in the order of their numbers. If the cells of a sender
arrive in the window and nothing expires, it hands over those up to the first that has not come, and
so all of them once they have all come. Whatever arrives and expires, the numbers increase, and each
cell is one that came under its number. -/
theorem conflux_in_order (C : Crypto) (first : ℕ) (seqKey : Field 32) (reorderTimeoutMs : UInt32)
    (events : List ConfluxEvent) (r : ConfluxReceiver)
    (hrun : Run.run (confluxStep C) (confluxStart first seqKey reorderTimeoutMs) events = some r) :
    (∀ cells : List SentCell, cells.length < 2 ^ 64 →
      Run.Along (confluxStep C) (InWindow C cells) (confluxStart first seqKey reorderTimeoutMs)
        events →
      r.delivered = (numbered cells).take r.cset.nextRecvSeq.toNat ∧
      (AllArrived C seqKey cells events → r.delivered = numbered cells)) ∧
    r.delivered.Pairwise (·.seq < ·.seq) ∧
    ∀ d ∈ r.delivered, ∃ circuit encSeq now,
      ConfluxEvent.cell circuit encSeq d.streamId d.data now ∈ events ∧
      feistelDecrypt C seqKey encSeq = d.seq := by
  have hreceived : r.received = events.filterMap (·.arrival C seqKey) :=
    (received_of_run hrun).trans (nil_append _)
  refine ⟨fun cells hcells halong => ?_, ?_⟩
  · have hsync : InSync cells r :=
      Run.run_invariant (fun _ _ _ hs hev hstep => hs.step hcells hev hstep)
        (inSync_start first seqKey reorderTimeoutMs) halong hrun
    refine ⟨hsync.inOrder.handed, fun hall => hsync.delivered_eq fun d hd => ?_⟩
    obtain ⟨s, hs⟩ := getElem?_of_mem hd
    rw [getElem?_numbered] at hs
    obtain ⟨cell, hcell, rfl⟩ := Option.map_eq_some_iff.mp hs
    obtain ⟨circuit, now, hmem⟩ := hall s cell hcell
    rw [hreceived]
    refine mem_filterMap.mpr ⟨_, hmem, ?_⟩
    simp [ConfluxEvent.arrival]
  have hsound : Sound r.received r.cset r.delivered := by
    refine Run.run_invariant (P := fun _ _ => True)
      (I := fun r : ConfluxReceiver => Sound r.received r.cset r.delivered)
      (fun _ _ _ hs _ hstep => hs.step hstep) ?_ (Run.along_of_forall (fun _ _ _ => trivial) _) hrun
    refine ⟨fun e he hvalid => ?_, nofun, .nil, nofun⟩
    rw [eq_of_mem_replicate he] at hvalid
    cases hvalid
  refine ⟨hsound.sorted, fun d hd => ?_⟩
  have hmem := hsound.handed d hd
  rw [hreceived] at hmem
  obtain ⟨ev, hev, harrival⟩ := mem_filterMap.mp hmem
  cases ev with
  | cell circuit encSeq streamId data now =>
    cases harrival
    exact ⟨circuit, encSeq, now, hev, rfl⟩
  | addLeg circuit => cases harrival
  | legFailed circuit => cases harrival

/-- Three cells over two legs, the first of them last and the second twice. -/
def sampleConfluxCells : List SentCell :=
  [⟨1, [10], by decide⟩, ⟨1, [20], by decide⟩, ⟨1, [30], by decide⟩]

def sampleKey : Field 32 := Arr.replicate 32 7

def sampleConfluxCell (circuit s : ℕ) (byte : UInt8) : ConfluxEvent :=
  .cell circuit (feistelEncrypt Crypto.sample sampleKey (UInt64.ofNat s)) 1 [byte] 0

def sampleEvents : List ConfluxEvent :=
  [.addLeg 2, sampleConfluxCell 2 1 20, sampleConfluxCell 1 2 30, sampleConfluxCell 1 1 20,
    sampleConfluxCell 1 0 10]

theorem conflux_in_order_sample :
    ∃ r, Run.run (confluxStep Crypto.sample) (confluxStart 1 sampleKey 9000) sampleEvents = some r ∧
      r.delivered = numbered sampleConfluxCells := by
  obtain ⟨r, hrun⟩ := Option.isSome_iff_exists.mp (show (Run.run (confluxStep Crypto.sample)
    (confluxStart 1 sampleKey 9000) sampleEvents).isSome = true by decide +kernel)
  have hall : AllArrived Crypto.sample sampleKey sampleConfluxCells sampleEvents := by
    rintro (_ | _ | _ | s) cell hcell
    · cases hcell
      exact ⟨1, 0, by simp [sampleEvents, sampleConfluxCell]⟩
    · cases hcell
      exact ⟨2, 0, by simp [sampleEvents, sampleConfluxCell]⟩
    · cases hcell
      exact ⟨1, 0, by simp [sampleEvents, sampleConfluxCell]⟩
    · cases hcell
  exact ⟨r, hrun, ((conflux_in_order Crypto.sample 1 sampleKey 9000 sampleEvents r hrun).1
    sampleConfluxCells (by decide) (by decide +kernel)).2 hall⟩

end Moor
