import Mathlib.Data.List.Dedup
import Mathlib.Data.List.Perm.Subperm
import Moor.Crypto
import Moor.Lib.Probe

/-!
# The bridges that are handed out

A client gets up to three bridges, from the place in the table that the hash of its address says. A
bridge with an identity that is handed out already makes way for the next one that has a new
identity, all the way round.

## Main results

* `bridgedb_select_distinct`: the identities are distinct, and as many as there can be.
-/

namespace Moor

open Codec List

def moorBridgedbHandOut : ℕ := 3

structure BridgeEntry where
  transport : Field 32
  address : Field 64
  port : UInt16
  identityPk : Field 32

abbrev identityPks (bridges : List BridgeEntry) : List (Field 32) :=
  bridges.map BridgeEntry.identityPk

structure BridgedbConfig where
  bridges : List BridgeEntry
  hashKey : Field 32

/-- A bridge with the same identity is written already. -/
def isDup (out : List BridgeEntry) (bridge : BridgeEntry) : Bool :=
  out.any fun written => written.identityPk = bridge.identityPk

/-- The bridge at the index, or the first after it that is no duplicate. There are as many further
attempts as bridges. -/
def nextBridge (bridges out : List BridgeEntry) (bridgeIdx : ℕ) : Option BridgeEntry :=
  ((range (bridges.length + 1)).filterMap fun attempts =>
    bridges[(bridgeIdx + attempts) % bridges.length]?).find? fun bridge => !isDup out bridge

def selectFrom (bridges : List BridgeEntry) (idx : UInt64) :
    ℕ → ℕ → List BridgeEntry → List BridgeEntry
  | 0, _, out => out
  | rounds + 1, i, out =>
    let bridgeIdx := (idx + UInt64.ofNat i) % UInt64.ofNat bridges.length
    match nextBridge bridges out bridgeIdx.toNat with
    | none => out
    | some bridge => selectFrom bridges idx rounds (i + 1) (out ++ [bridge])

def moorBridgedbSelect (C : Crypto) (config : BridgedbConfig) (clientIp : Bytes) (max : ℤ) :
    List BridgeEntry :=
  if max ≤ 0 ∨ config.bridges.length = 0 then []
  else
    let handOut := min (min max.toNat moorBridgedbHandOut) config.bridges.length
    let hash := C.hash (config.hashKey.val ++ clientIp.take 224)
    selectFrom config.bridges (UInt64.ofNat (beDecode (hash.val.take 8))) handOut 0 []

/-- The bridges of the table, without repeated identities. -/
structure Chosen (bridges out : List BridgeEntry) : Prop where
  nodup : (identityPks out).Nodup
  mem : ∀ bridge ∈ out, bridge ∈ bridges

variable {bridges out : List BridgeEntry} {bridge : BridgeEntry} {i : ℕ}

theorem isDup_iff : isDup out bridge ↔ bridge.identityPk ∈ identityPks out := by
  simp [isDup]

theorem nextBridge_eq_some (h : nextBridge bridges out i = some bridge) :
    bridge ∈ bridges ∧ bridge.identityPk ∉ identityPks out := by
  obtain ⟨_, -, hget⟩ := mem_filterMap.mp (mem_of_find?_eq_some h)
  have hnew := find?_some h
  rw [Bool.not_eq_true', ← Bool.not_eq_true, isDup_iff] at hnew
  exact ⟨mem_of_getElem? hget, hnew⟩

/-- No bridge is left out of the search. -/
theorem nextBridge_eq_none (h : nextBridge bridges out i = none) :
    ∀ bridge ∈ bridges, bridge.identityPk ∈ identityPks out := by
  intro bridge hmem
  obtain ⟨q, hq⟩ := getElem?_of_mem hmem
  obtain ⟨j, hj, hstep⟩ := Probe.exists_step (List.getElem?_eq_some_iff.mp hq).1 i
  have hdup := find?_eq_none.mp h bridge
    (mem_filterMap.mpr ⟨j, mem_range.mpr (by omega), hstep.symm ▸ hq⟩)
  rw [Bool.not_eq_true', Bool.not_eq_false, isDup_iff] at hdup
  exact hdup

theorem Chosen.length_le (h : Chosen bridges out) :
    out.length ≤ (identityPks bridges).dedup.length := by
  have hsub : identityPks out ⊆ (identityPks bridges).dedup :=
    fun pk hpk => mem_dedup.mpr (map_subset _ h.mem hpk)
  simpa using (h.nodup.subperm hsub).length_le

/-- The rounds go on until all identities are written. -/
theorem selectFrom_spec (idx : UInt64) (rounds i : ℕ) (h : Chosen bridges out) :
    Chosen bridges (selectFrom bridges idx rounds i out) ∧
      (selectFrom bridges idx rounds i out).length =
        min (out.length + rounds) (identityPks bridges).dedup.length := by
  induction rounds generalizing i out with
  | zero => exact ⟨h, (min_eq_left h.length_le).symm⟩
  | succ rounds ih =>
    rw [selectFrom]
    split
    next hnone =>
      have hsub : (identityPks bridges).dedup ⊆ identityPks out :=
        fun pk hpk => forall_mem_map.mpr (nextBridge_eq_none hnone) pk (mem_dedup.mp hpk)
      have hle := ((nodup_dedup _).subperm hsub).length_le
      rw [length_map] at hle
      exact ⟨h, (le_antisymm h.length_le hle).trans (min_eq_right (by omega)).symm⟩
    next bridge hsome =>
      obtain ⟨hmem, hnew⟩ := nextBridge_eq_some hsome
      have hchosen : Chosen bridges (out ++ [bridge]) := by
        refine ⟨?_, forall_mem_append.mpr ⟨h.mem, forall_mem_singleton.mpr hmem⟩⟩
        rw [identityPks, ← concat_eq_append, map_concat]
        exact h.nodup.concat hnew
      have hrest := ih (i + 1) hchosen
      rwa [length_append, length_singleton, Nat.add_assoc, Nat.add_comm 1] at hrest

/-- The bridges have distinct identities, and as many of them are handed out as are asked for, but
three at most and no more than there are identities. -/
theorem bridgedb_select_distinct (C : Crypto) (config : BridgedbConfig) (clientIp : Bytes)
    (max : ℤ) :
    let out := moorBridgedbSelect C config clientIp max
    (identityPks out).Nodup ∧ (∀ bridge ∈ out, bridge ∈ config.bridges) ∧
      out.length =
        min (min max.toNat 3) (identityPks config.bridges).dedup.length := by
  have hle : (identityPks config.bridges).dedup.length ≤ config.bridges.length := by
    simpa using (dedup_sublist (identityPks config.bridges)).length_le
  have hnil : Chosen config.bridges [] := ⟨nodup_nil, by simp⟩
  rw [moorBridgedbSelect]
  split
  · refine ⟨nodup_nil, hnil.mem, ?_⟩
    rw [length_nil]
    omega
  · obtain ⟨hchosen, hlen⟩ := selectFrom_spec _ _ 0 hnil
    refine ⟨hchosen.nodup, hchosen.mem, hlen.trans ?_⟩
    rw [length_nil, moorBridgedbHandOut]
    omega

end Moor
