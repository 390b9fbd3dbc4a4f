import Moor.Lib.Codec
import Moor.Lib.PointFunction

/-!
# Private retrieval by distributed point functions

A client that wants one entry of a store asks two servers, each with one key of a pair. A server
expands its key to one bit for each entry and answers with the sum of the entries whose bit is set;
the two answers add up to the entry at the client's target, if the bits of the servers differ there
and nowhere else.

The generator that expands a seed is a parameter, of which nothing is assumed.

## Main results

* `dpf_correct`: the bits of the two keys differ at the target and nowhere else.
-/

namespace Moor

open Codec List PointFunction Nat

def dpfLevels : ℕ := 8
def dpfDomainSize : ℕ := 256

/-- A seed of sixteen bytes with its control bit. -/
abbrev DpfNode := PointFunction.Node (Field 16)

/-- A correction word. -/
abbrev DpfCw := PointFunction.Correction (Field 16)

structure DpfKey where
  seed : Field 16
  t : Bool
  cw : Arr DpfCw dpfLevels
  cwLeaf : Field 16
  deriving DecidableEq

variable (stream : Field 16 → Field 34) (key : DpfKey)

/-- The two children that the generator's 34 bytes for a seed stand for. -/
def dpfPrg (seed : Field 16) : DpfNode × DpfNode :=
  let out := (stream seed).val
  ((Arr.ofList 16 0 out, out.getD 16 0 &&& 1 == 1),
    (Arr.ofList 16 0 (out.drop 17), out.getD 33 0 &&& 1 == 1))

/-! ### Keys -/

/-- One level of the generation of keys: the correction word, and the nodes of the two parties
towards the target. -/
def dpfGenLevel (target : UInt8) (i : ℕ) (a b : DpfNode) : DpfCw × DpfNode × DpfNode :=
  let (aL, aR) := dpfPrg stream a.1
  let (bL, bR) := dpfPrg stream b.1
  let dir : Bool := (target >>> UInt8.ofNat (dpfLevels - 1 - i)) &&& 1 == 1
  let (keepA, loseA) := if dir then (aR, aL) else (aL, aR)
  let (keepB, loseB) := if dir then (bR, bL) else (bL, bR)
  let cw : DpfCw :=
    { s := loseA.1.xor loseB.1
      left := aL.2 ^^ bL.2 ^^ !dir
      right := aR.2 ^^ bR.2 ^^ dir }
  let correct (t : Bool) (keep : DpfNode) : DpfNode :=
    if t then (keep.1.xor cw.s, keep.2 ^^ if dir then cw.right else cw.left) else keep
  (cw, correct a.2 keepA, correct b.2 keepB)

/-- The correction words of the first levels, and the nodes of the two parties after them. -/
def dpfGenLoop (stream : Field 16 → Field 34) (target : UInt8) (a b : DpfNode) :
    (i : ℕ) → Arr DpfCw i × DpfNode × DpfNode
  | 0 => (⟨[], rfl⟩, a, b)
  | i + 1 =>
    let (cws, x, y) := dpfGenLoop stream target a b i
    let (cw, x, y) := dpfGenLevel stream target i x y
    (⟨cws.val ++ [cw], by simp⟩, x, y)

/-- The leaf with the number one. -/
def dpfOne : Field 16 := Arr.ofList 16 0 [1]

/-- The keys of the two parties for a target, from their seeds. -/
def moorDpfGen (seedA seedB : Field 16) (target : UInt8) : DpfKey × DpfKey :=
  let (cw, x, y) := dpfGenLoop stream target (seedA, false) (seedB, true) dpfLevels
  let cwLeaf := (x.1.xor y.1).xor dpfOne
  (⟨seedA, false, cw, cwLeaf⟩, ⟨seedB, true, cw, cwLeaf⟩)

/-! ### Evaluation -/

/-- The children of a node, corrected if its control bit is set. -/
def dpfExpand (cw : DpfCw) (x : DpfNode) : List DpfNode :=
  let (l, r) := dpfPrg stream x.1
  if x.2 then [(l.1.xor cw.s, l.2 ^^ cw.left), (r.1.xor cw.s, r.2 ^^ cw.right)] else [l, r]

/-- The levels of the tree from the root, of which no more than `n` nodes are kept. -/
def dpfEvalLevels (stream : Field 16 → Field 34) (key : DpfKey) (n : ℕ) : ℕ → List DpfNode
  | 0 => [(key.seed, key.t)]
  | level + 1 =>
    let nodes := dpfEvalLevels stream key n level
    (nodes.flatMap (dpfExpand stream (key.cw.val.getD level ⟨Field.zero 16, false, false⟩))).take
      (min (2 * nodes.length) n)

def dpfLeaf (x : DpfNode) : UInt8 :=
  (if x.2 then x.1.xor key.cwLeaf else x.1).val.getD 0 0 &&& 1

def moorDpfEvalFull (n : ℕ) : List UInt8 :=
  let n := min n dpfDomainSize
  let leaves := dpfEvalLevels stream key n dpfLevels
  (List.range n).map fun j => dpfLeaf key (leaves.getD j (Field.zero 16, false))

/-! ### Keys on the wire -/

def dpfBit (t : Bool) : UInt8 := if t then 1 else 0

def dpfCwSerialize (cw : DpfCw) : Bytes := cw.s.val ++ [dpfBit cw.left, dpfBit cw.right]

def moorDpfKeySerialize (key : DpfKey) : Bytes :=
  key.seed.val ++ [dpfBit key.t] ++ key.cw.val.flatMap dpfCwSerialize ++ key.cwLeaf.val

def readBit : Reader Bool := do return (← readU8) &&& 1 == 1

def readDpfCw : Reader DpfCw := do
  return ⟨← readField 16, ← readBit, ← readBit⟩

def moorDpfKeyDeserialize (data : Bytes) : Option DpfKey :=
  let key : Reader DpfKey := do
    let seed ← readField 16
    let t ← readBit
    let cw ← readMany readDpfCw dpfLevels
    let cwLeaf ← readField 16
    return ⟨seed, t, Arr.ofList dpfLevels ⟨Field.zero 16, false, false⟩ cw, cwLeaf⟩
  (key.run data).map Prod.fst

theorem readBit_run (t : Bool) (rest : Bytes) :
    readBit.run (dpfBit t :: rest) = some (t, rest) := by
  cases t <;> simp [readBit, dpfBit]

theorem readDpfCw_run (cw : DpfCw) (rest : Bytes) :
    readDpfCw.run (dpfCwSerialize cw ++ rest) = some (cw, rest) := by
  simp [readDpfCw, dpfCwSerialize, readBit_run]

/-- A key is read back as it was written. -/
theorem moorDpfKeyDeserialize_serialize :
    moorDpfKeyDeserialize (moorDpfKeySerialize key) = some key := by
  have hcw := readMany_run_flatMap id key.cw.val (fun cw _ rest => readDpfCw_run cw rest)
    key.cwLeaf.val
  rw [key.cw.2, map_id] at hcw
  have hleaf := readField_run_append key.cwLeaf []
  rw [append_nil] at hleaf
  have hwords : Arr.ofList dpfLevels ⟨Field.zero 16, false, false⟩ key.cw.val = key.cw :=
    Arr.ofList_val _ _
  simp [moorDpfKeyDeserialize, moorDpfKeySerialize, readBit_run, hcw, hleaf, hwords]

/-! ### Correctness -/

section

variable (stream : Field 16 → Field 34)

def dpfDir (target : UInt8) (i : ℕ) : Bool :=
  decide (target.toNat / 2 ^ (dpfLevels - (i + 1)) % 2 = 1)

theorem dir_eq (target : UInt8) (i : ℕ) :
    ((target >>> UInt8.ofNat (dpfLevels - 1 - i)) &&& 1 == 1) = dpfDir target i := by
  have hshift : (UInt8.ofNat (dpfLevels - 1 - i)).toNat % 8 = dpfLevels - (i + 1) := by
    rw [UInt8.toNat_ofNat', dpfLevels]
    omega
  rw [dpfDir, Bool.eq_iff_iff, beq_iff_eq, decide_eq_true_iff, ← UInt8.toNat_inj, UInt8.toNat_and,
    UInt8.toNat_shiftRight, hshift, shiftRight_eq_div_pow, UInt8.toNat_one, and_one_is_mod]

theorem dpfGenLevel_eq (target : UInt8) (i : ℕ) (a b : DpfNode) :
    dpfGenLevel stream target i a b
      = (PointFunction.correction Field.xor (dpfPrg stream) a b (dpfDir target i),
        PointFunction.child Field.xor (dpfPrg stream)
          (PointFunction.correction Field.xor (dpfPrg stream) a b (dpfDir target i)) a
          (dpfDir target i),
        PointFunction.child Field.xor (dpfPrg stream)
          (PointFunction.correction Field.xor (dpfPrg stream) a b (dpfDir target i)) b
          (dpfDir target i)) := by
  rw [dpfGenLevel, dir_eq]
  cases dpfDir target i <;> rfl

theorem dpfExpand_eq (cw : DpfCw) (x : DpfNode) :
    dpfExpand stream cw x
      = [PointFunction.child Field.xor (dpfPrg stream) cw x false,
        PointFunction.child Field.xor (dpfPrg stream) cw x true] := by
  rw [dpfExpand, child, child]
  cases x.2 <;> rfl

/-- The correction words of a key by their levels. -/
def DpfKey.cwAt (key : DpfKey) (l : ℕ) : DpfCw := key.cw.val.getD l ⟨Field.zero 16, false, false⟩

theorem dpfEvalLevels_eq (key : DpfKey) (n l : ℕ) :
    dpfEvalLevels stream key n l
      = PointFunction.level Field.xor (dpfPrg stream) n key.cwAt (key.seed, key.t) l := by
  induction l with
  | zero => rfl
  | succ l ih =>
    have hexpand := funext (dpfExpand_eq stream (key.cwAt l))
    rw [DpfKey.cwAt] at hexpand
    rw [dpfEvalLevels, ih, level, hexpand]
    rfl

/-! ### The keys of a target -/

variable (target : UInt8) (a b : DpfNode)

/-- The node of a party towards the target before a level. -/
theorem dpfGenLoop_cw {i l : ℕ} (hl : l < i) :
    (dpfGenLoop stream target a b i).1.val[l]?
      = some (PointFunction.correction Field.xor (dpfPrg stream)
          (dpfGenLoop stream target a b l).2.1 (dpfGenLoop stream target a b l).2.2
          (dpfDir target l)) := by
  induction i with
  | zero => exact absurd hl (not_lt_zero l)
  | succ i ih =>
    have hlen := (dpfGenLoop stream target a b i).1.2
    simp only [dpfGenLoop, dpfGenLevel_eq]
    rcases Nat.lt_succ_iff_lt_or_eq.mp hl with hlt | rfl
    · rw [getElem?_append_left (by rwa [hlen])]
      exact ih hlt
    · rw [getElem?_append_right (by rw [hlen]), hlen, Nat.sub_self]
      rfl

variable (seedA seedB : Field 16)

theorem cwAt_moorDpfGen {l : ℕ} (hl : l < dpfLevels) :
    (moorDpfGen stream seedA seedB target).1.cwAt l
      = PointFunction.correction Field.xor (dpfPrg stream)
          (dpfGenLoop stream target (seedA, false) (seedB, true) l).2.1
          (dpfGenLoop stream target (seedA, false) (seedB, true) l).2.2 (dpfDir target l) := by
  have hget := dpfGenLoop_cw stream target (seedA, false) (seedB, true) hl
  exact congrArg (Option.getD · _) hget

/-- The nodes of the generation are those of the trees on the way to the target. -/
theorem dpfGenLoop_node {l : ℕ} (hl : l ≤ dpfLevels) :
    (dpfGenLoop stream target (seedA, false) (seedB, true) l).2
      = (PointFunction.node Field.xor (dpfPrg stream)
          (moorDpfGen stream seedA seedB target).1.cwAt (seedA, false) l
          (target.toNat / 2 ^ (dpfLevels - l)),
        PointFunction.node Field.xor (dpfPrg stream)
          (moorDpfGen stream seedA seedB target).1.cwAt (seedB, true) l
          (target.toNat / 2 ^ (dpfLevels - l))) := by
  induction l with
  | zero => rfl
  | succ l ih =>
    have hlt : l < dpfLevels := lt_of_succ_le hl
    have hparent : target.toNat / 2 ^ (dpfLevels - (l + 1)) / 2
        = target.toNat / 2 ^ (dpfLevels - l) := by
      rw [Nat.div_div_eq_div_mul, ← Nat.pow_succ,
        show (dpfLevels - (l + 1)).succ = dpfLevels - l by omega]
    have hnodes := ih hlt.le
    simp only [dpfGenLoop, dpfGenLevel_eq, node, hparent,
      cwAt_moorDpfGen stream target seedA seedB hlt, hnodes]
    rfl

theorem corrects_moorDpfGen :
    PointFunction.Corrects Field.xor (dpfPrg stream)
      (moorDpfGen stream seedA seedB target).1.cwAt (seedA, false) (seedB, true) dpfLevels
      target.toNat := by
  intro l hl
  rw [cwAt_moorDpfGen stream target seedA seedB hl, dpfGenLoop_node stream target seedA seedB hl.le]
  rfl

/-- The bits of a key are those of the leaves of its tree. -/
theorem moorDpfEvalFull_eq (key : DpfKey) (n : ℕ) :
    moorDpfEvalFull stream key n = (List.range (min n dpfDomainSize)).map fun j =>
      dpfLeaf key (PointFunction.node Field.xor (dpfPrg stream) key.cwAt (key.seed, key.t)
        dpfLevels j) := by
  rw [moorDpfEvalFull]
  refine map_congr_left fun j hj => ?_
  rw [mem_range] at hj
  have hmin : min (2 ^ dpfLevels) (min n dpfDomainSize) = min n dpfDomainSize :=
    min_eq_right (min_le_right n dpfDomainSize)
  rw [dpfEvalLevels_eq, level_eq (zero_lt_of_lt hj), hmin,
    getD_eq_getElem?_getD, getElem?_map, getElem?_range hj]
  rfl

/-- Leaves whose control bits differ, where the keys have the sum of their seeds and one as the
correction. -/
theorem dpfLeaf_xor {ka kb : DpfKey} {x y : DpfNode} (h : x.2 ≠ y.2)
    (ha : ka.cwLeaf = (x.1.xor y.1).xor dpfOne) (hb : kb.cwLeaf = (x.1.xor y.1).xor dpfOne) :
    dpfLeaf ka x ^^^ dpfLeaf kb y = 1 := by
  have hfirst : ∀ u v : Field 16, (u.xor v).val.getD 0 0 = u.val.getD 0 0 ^^^ v.val.getD 0 0 := by
    intro u v
    simp [Field.xor, getD_eq_getElem?_getD]
  have hone : dpfOne.val.getD 0 0 = 1 := rfl
  -- The low bit of one seed is that of the other, changed.
  have hbits : ∀ u v : UInt8, ((u ^^^ (u ^^^ v ^^^ 1)) &&& 1) ^^^ (v &&& 1) = 1 := by
    intro u v
    have hflip : u ^^^ (u ^^^ v ^^^ 1) = v ^^^ 1 := by
      simp [← UInt8.xor_assoc]
    rw [hflip, ← UInt8.toNat_inj, UInt8.toNat_xor, UInt8.toNat_and, UInt8.toNat_and,
      UInt8.toNat_xor, UInt8.toNat_one, and_one_is_mod, and_one_is_mod,
      xor_mod_two_eq]
    rcases mod_two_eq_zero_or_one v.toNat with hv | hv
    · rw [hv, add_mod, hv]
      rfl
    · rw [hv, add_mod, hv]
      rfl
  rw [dpfLeaf, dpfLeaf]
  cases hx : x.2 with
  | true =>
    have hy : y.2 = false := Bool.eq_false_iff.mpr fun hy => h (hx.trans hy.symm)
    simp only [hy, if_true, Bool.false_eq_true, if_false, ha, hfirst, hone]
    exact hbits _ _
  | false =>
    have hy : y.2 = true := Bool.not_eq_false _ |>.mp fun hy => h (hx.trans hy.symm)
    simp only [hy, if_true, Bool.false_eq_true, if_false, hb, hfirst, hone]
    rw [UInt8.xor_comm (x.1.val.getD 0 0) (y.1.val.getD 0 0), UInt8.xor_comm]
    exact hbits _ _

/-- The bits of the two keys at a place. -/
theorem dpfLeaf_node_xor {j : ℕ} (hj : j < 2 ^ dpfLevels) :
    dpfLeaf (moorDpfGen stream seedA seedB target).1
        (PointFunction.node Field.xor (dpfPrg stream)
          (moorDpfGen stream seedA seedB target).1.cwAt (seedA, false) dpfLevels j) ^^^
      dpfLeaf (moorDpfGen stream seedA seedB target).2
        (PointFunction.node Field.xor (dpfPrg stream)
          (moorDpfGen stream seedA seedB target).1.cwAt (seedB, true) dpfLevels j)
      = if j = target.toNat then 1 else 0 := by
  have hagree := node_agree Field.xor_comm Field.xor_xor_cancel_left
    (corrects_moorDpfGen stream target seedA seedB) Bool.false_ne_true target.toNat_lt
    (le_refl _) hj
  have hnodes := dpfGenLoop_node stream target seedA seedB (Nat.le_refl dpfLevels)
  rw [Nat.sub_self, Nat.pow_zero, Nat.div_one] at hagree hnodes
  split at hagree
  next heq =>
    have hleaf : (moorDpfGen stream seedA seedB target).1.cwLeaf
        = ((dpfGenLoop stream target (seedA, false) (seedB, true) dpfLevels).2.1.1.xor
            (dpfGenLoop stream target (seedA, false) (seedB, true) dpfLevels).2.2.1).xor dpfOne :=
      rfl
    rw [hnodes] at hleaf
    subst heq
    rw [if_pos rfl]
    exact dpfLeaf_xor hagree hleaf hleaf
  next hne =>
    rw [if_neg hne, hagree]
    exact UInt8.xor_self

end

/-- For every target, seeds and generator, and every number of entries up to 256: the keys are read
back from the wire, and the sum of their bits is one at the target and zero everywhere else. -/
theorem dpf_correct (stream : Field 16 → Field 34) (target : UInt8) (seedA seedB : Field 16)
    (n : ℕ) (hn : n ≤ dpfDomainSize) :
    ∃ ka kb, moorDpfKeyDeserialize
        (moorDpfKeySerialize (moorDpfGen stream seedA seedB target).1) = some ka ∧
      moorDpfKeyDeserialize
        (moorDpfKeySerialize (moorDpfGen stream seedA seedB target).2) = some kb ∧
      List.zipWith (· ^^^ ·) (moorDpfEvalFull stream ka n) (moorDpfEvalFull stream kb n)
        = (List.range n).map fun j => if j = target.toNat then 1 else 0 := by
  refine ⟨_, _, moorDpfKeyDeserialize_serialize _, moorDpfKeyDeserialize_serialize _, ?_⟩
  rw [moorDpfEvalFull_eq, moorDpfEvalFull_eq, min_eq_left hn, zipWith_map, zipWith_self]
  refine map_congr_left fun j hj => ?_
  exact dpfLeaf_node_xor stream target seedA seedB ((mem_range.mp hj).trans_le hn)

/-- A store of three entries, with a generator that repeats the seed. -/
theorem dpf_correct_sample :
    ∃ ka kb, List.zipWith (· ^^^ ·)
        (moorDpfEvalFull (fun seed => Arr.ofList 34 0 (seed.val ++ [3] ++ seed.val)) ka 3)
        (moorDpfEvalFull (fun seed => Arr.ofList 34 0 (seed.val ++ [3] ++ seed.val)) kb 3)
      = [0, 0, 1] := by
  obtain ⟨ka, kb, -, -, h⟩ := dpf_correct
    (fun seed => Arr.ofList 34 0 (seed.val ++ [3] ++ seed.val)) 2 (Arr.replicate 16 5)
    (Arr.replicate 16 9) 3 (by decide)
  exact ⟨ka, kb, h⟩

end Moor
