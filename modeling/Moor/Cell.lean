import Moor.Crypto

/-!
# Relay cells

The payload of a relay cell carries a relay command, and a digest over all relay cells that were
exchanged with the same hop. The digest is what tells a hop that a cell is meant for it.
-/

namespace Moor

open Codec List Nat

/-- The payload of a cell, `MOOR_CELL_PAYLOAD` bytes. -/
abbrev Payload := Field 509

/-- A cell on a link. -/
structure Cell where
  circuitId : UInt32
  command : UInt8
  payload : Payload
  deriving DecidableEq

def cellPaddingCmd : UInt8 := 0
def cellCreateCmd : UInt8 := 1
def cellCreatedCmd : UInt8 := 2
def cellRelayCmd : UInt8 := 3
def cellDestroyCmd : UInt8 := 4
def cellCreatePqCmd : UInt8 := 6
def cellCreatedPqCmd : UInt8 := 7
def cellKemCtCmd : UInt8 := 8
def cellRelayEarlyCmd : UInt8 := 9

def relayBegin : UInt8 := 1
def relayData : UInt8 := 2
def relayEnd : UInt8 := 3
def relaySendme : UInt8 := 5
def relayExtended : UInt8 := 7
def relayExtend2 : UInt8 := 8
def relayExtended2 : UInt8 := 9
def relayRendezvous1 : UInt8 := 36
def relayRendezvous2 : UInt8 := 37
def relayExtendPq : UInt8 := 42
def relayExtendedPq : UInt8 := 43
def relayKemOffer : UInt8 := 44
def relayE2eKemCt : UInt8 := 46
def relayXon : UInt8 := 53
def relayXoff : UInt8 := 54

/-- The pieces of a byte string, the last of which may be shorter. -/
def chunks (size : ℕ) (bs : Bytes) : List Bytes :=
  (List.range ((bs.length + size - 1) / size)).map fun i => (bs.drop (i * size)).take size

variable {size : ℕ} {bs : Bytes}

theorem chunks_of_ne_nil (hsize : 0 < size) (h : bs ≠ []) :
    chunks size bs = bs.take size :: chunks size (bs.drop size) := by
  have hpos : 0 < bs.length := length_pos_iff.mpr h
  have hcount : (bs.length + size - 1) / size = (bs.length - size + size - 1) / size + 1 := by
    rcases Nat.le_total bs.length size with hle | hle
    · rw [Nat.sub_eq_zero_of_le hle, Nat.zero_add, Nat.div_eq_of_lt (by omega : size - 1 < size)]
      exact Nat.div_eq_of_lt_le (by omega) (by omega)
    · rw [show bs.length + size - 1 = bs.length - size + size - 1 + size by omega,
        Nat.add_div_right _ hsize]
  rw [chunks, hcount, range_succ_eq_map, map_cons, map_map, chunks, length_drop]
  congr 1
  · simp
  · refine map_congr_left fun i _ => ?_
    simp only [Function.comp_apply, succ_eq_add_one, drop_drop]
    rw [add_mul, one_mul, add_comm]

theorem chunks_nil (hsize : 0 < size) : chunks size [] = [] := by
  rw [chunks, length_nil, zero_add, div_eq_of_lt (by omega : size - 1 < size)]
  rfl

theorem chunks_of_length_le (h : bs ≠ []) (hle : bs.length ≤ size) : chunks size bs = [bs] := by
  have hpos : 0 < bs.length := length_pos_iff.mpr h
  have hsize : 0 < size := by omega
  rw [chunks_of_ne_nil hsize h, take_of_length_le hle, drop_of_length_le hle, chunks_nil hsize]

/-- The pieces put together are the byte string. -/
theorem flatten_chunks (hsize : 0 < size) (bs : Bytes) : (chunks size bs).flatten = bs := by
  induction hlen : bs.length using Nat.strong_induction_on generalizing bs with
  | _ n ih =>
    by_cases h : bs = []
    · simp [h, chunks_nil hsize]
    · have hpos : 0 < bs.length := length_pos_iff.mpr h
      have hrest := ih (bs.drop size).length (by rw [length_drop]; omega) (bs.drop size) rfl
      simp [chunks_of_ne_nil hsize h, hrest]

theorem ne_nil_and_length_le_of_mem_chunks (hsize : 0 < size) {chunk : Bytes}
    (h : chunk ∈ chunks size bs) : chunk ≠ [] ∧ chunk.length ≤ size := by
  obtain ⟨i, hi, rfl⟩ := mem_map.mp h
  rw [mem_range, lt_div_iff_mul_lt hsize] at hi
  have hlength : ((bs.drop (i * size)).take size).length = min size (bs.length - i * size) := by
    simp
  refine ⟨length_pos_iff.mp ?_, ?_⟩
  · rw [hlength]
    exact lt_min hsize (by omega)
  · rw [hlength]
    exact min_le_left ..

/-- A cell that opens a circuit: the relay's identity and the client's ephemeral key. -/
def cellCreate (circuitId : UInt32) (relayIdentityPk ephemeralPk : Field 32) : Cell :=
  ⟨circuitId, cellCreateCmd, Arr.ofList 509 0 (relayIdentityPk.val ++ ephemeralPk.val)⟩

/-- The answer to it: the relay's ephemeral key and its tag. -/
def cellCreated (circuitId : UInt32) (relayEphPk authTag : Field 32) : Cell :=
  ⟨circuitId, cellCreatedCmd, Arr.ofList 509 0 (relayEphPk.val ++ authTag.val)⟩

/-- A cell as it stands on the wire, `MOOR_CELL_SIZE` bytes. -/
def cellPack (cell : Cell) : Field 514 :=
  ⟨be32 cell.circuitId ++ [cell.command] ++ cell.payload.val, by simp⟩

def cellUnpack (bytes : Bytes) : Cell :=
  { circuitId := UInt32.ofNat (beDecode (bytes.take 4))
    command := bytes.getD 4 0
    payload := Arr.ofList 509 0 (bytes.drop 5) }

/-- A cell is read back as it was written. -/
@[simp] theorem cellUnpack_cellPack (cell : Cell) : cellUnpack (cellPack cell).val = cell := by
  have hid : UInt32.ofNat (beDecode (be32 cell.circuitId)) = cell.circuitId := by
    simp [be32, beDecode_beEncode, mod_eq_of_lt cell.circuitId.toNat_lt]
  have hval : (cellPack cell).val = be32 cell.circuitId ++ ([cell.command] ++ cell.payload.val) :=
    append_assoc ..
  have hdrop : (cellPack cell).val.drop 5 = cell.payload.val ++ [] := by
    rw [cellPack, drop_left' (by simp), append_nil]
  have hget : (cellPack cell).val.getD 4 0 = cell.command := by
    rw [hval, getD_append_right _ _ _ _ (length_be32 _).le]
    simp
  rw [cellUnpack, hget, hdrop, hval, take_left' (length_be32 _), hid, Arr.ofList_append]

/-- The space for data in a relay payload. -/
def moorRelayData : ℕ := 498

/-- The fields of a relay payload. -/
structure RelayPayload where
  relayCommand : UInt8
  recognized : UInt16
  streamId : UInt16
  digest : Field 4
  dataLength : UInt16
  data : Bytes
  deriving DecidableEq

def relayPack (relay : RelayPayload) : Payload :=
  Arr.ofList 509 0 <|
    [relay.relayCommand] ++ be16 relay.recognized ++ be16 relay.streamId ++ relay.digest.val ++
    be16 relay.dataLength ++
    if 0 < relay.dataLength.toNat ∧ relay.dataLength.toNat ≤ moorRelayData then
      relay.data.take relay.dataLength.toNat
    else []

/-- A data length beyond the space there is counts as the space there is. -/
def relayUnpack (payload : Payload) : RelayPayload :=
  let dataLength := UInt16.ofNat (min (beDecode ((payload.val.drop 9).take 2)) moorRelayData)
  { relayCommand := payload.val.getD 0 0
    recognized := UInt16.ofNat (beDecode ((payload.val.drop 1).take 2))
    streamId := UInt16.ofNat (beDecode ((payload.val.drop 3).take 2))
    digest := Arr.ofList 4 0 (payload.val.drop 5)
    dataLength := dataLength
    data := (payload.val.drop 11).take dataLength.toNat }

def cellRelay (relayCmd : UInt8) (streamId : UInt16) (data : Bytes) : Payload :=
  relayPack {
    relayCommand := relayCmd
    recognized := 0
    streamId := streamId
    digest := Field.zero 4
    dataLength := UInt16.ofNat data.length
    data := if 0 < data.length ∧ data.length ≤ moorRelayData then data else [] }

variable (C : Crypto) (payload : Payload)

theorem length_relayUnpack_data :
    (relayUnpack payload).data.length = (relayUnpack payload).dataLength.toNat := by
  have hlength : (relayUnpack payload).dataLength.toNat ≤ moorRelayData := by
    exact (mod_le ..).trans (min_le_right ..)
  have hdata : (relayUnpack payload).data =
      (payload.val.drop 11).take (relayUnpack payload).dataLength.toNat := rfl
  rw [moorRelayData] at hlength
  rw [hdata, length_take, length_drop, payload.property]
  omega

/-! ### The running digest -/

def putDigest (digest : Field 4) (payload : Payload) : Payload :=
  ⟨payload.val.take 5 ++ digest.val ++ payload.val.drop 9, by simp⟩

/-- The first four bytes of a digest. -/
def digestPrefix (digest : Field 32) : Field 4 := Arr.ofList 4 0 digest.val

/-- The running digest after a payload, whose own digest field counts as zero. -/
def nextDigest (runningDigest : Field 32) : Field 32 :=
  C.hash (runningDigest.val ++ (putDigest (Field.zero 4) payload).val)

/-- Stamps a payload with the digest, and advances the running digest. -/
def relaySetDigest (runningDigest : Field 32) : Payload × Field 32 :=
  let newDigest := nextDigest C payload runningDigest
  (putDigest (digestPrefix newDigest) payload, newDigest)

/-- Checks the digest of a payload. The running digest advances only when it matches. -/
def relayCheckDigest (runningDigest : Field 32) : Option (Field 32) :=
  let expected := nextDigest C payload runningDigest
  if Arr.ofList 4 0 (payload.val.drop 5) = digestPrefix expected then some expected else none

/-- A hop takes a payload for its own. -/
def recognises (runningDigest : Field 32) (payload : Payload) : Bool :=
  (relayUnpack payload).recognized == 0 && (relayCheckDigest C payload runningDigest).isSome

section PutDigest

variable (d e : Field 4) (payload : Payload)

@[simp] theorem take_putDigest : (putDigest d payload).val.take 5 = payload.val.take 5 := by
  simp [putDigest]

@[simp] theorem drop_five_putDigest :
    (putDigest d payload).val.drop 5 = d.val ++ payload.val.drop 9 := by
  simp [putDigest]

@[simp] theorem drop_nine_putDigest : (putDigest d payload).val.drop 9 = payload.val.drop 9 := by
  simp [putDigest, drop_append]

@[simp] theorem putDigest_putDigest : putDigest d (putDigest e payload) = putDigest d payload := by
  have hval (q : Payload) : (putDigest d q).val = q.val.take 5 ++ d.val ++ q.val.drop 9 := rfl
  apply Subtype.ext
  simp [hval]

@[simp] theorem nextDigest_putDigest (C : Crypto) (runningDigest : Field 32) :
    nextDigest C (putDigest d payload) runningDigest = nextDigest C payload runningDigest := by
  simp [nextDigest]

/-- The digest field is read back, and nothing else of a payload depends on it. -/
theorem relayUnpack_putDigest :
    relayUnpack (putDigest d payload) = { relayUnpack payload with digest := d } := by
  have hhead (q : Payload) : q.val.getD 0 0 = (q.val.take 5).getD 0 0 := by
    simp [getD_eq_getElem?_getD]
  have hslice (q : Payload) {i : ℕ} (hi : i ≤ 3) :
      (q.val.drop i).take 2 = ((q.val.take 5).drop i).take 2 := by
    rw [drop_take, take_take, min_eq_left (by omega)]
  have htail (q : Payload) : q.val.drop 11 = (q.val.drop 9).drop 2 := by rw [drop_drop]
  simp only [relayUnpack, hhead, htail, hslice _ (show 1 ≤ 3 by omega),
    hslice _ (show 3 ≤ 3 by omega), take_putDigest, drop_five_putDigest, drop_nine_putDigest,
    Arr.ofList_append]

end PutDigest

section Digest

variable (C : Crypto) (payload : Payload) (runningDigest : Field 32)

theorem relayCheckDigest_relaySetDigest :
    relayCheckDigest C (relaySetDigest C payload runningDigest).1 runningDigest
      = some (relaySetDigest C payload runningDigest).2 := by
  simp only [relaySetDigest, relayCheckDigest, nextDigest_putDigest, drop_five_putDigest,
    Arr.ofList_append, if_true]

end Digest

/-- The fields of a payload, read off its bytes. -/
theorem relayUnpack_eq {payload : Payload} {cmd : UInt8} {recognized streamId n : UInt16}
    {digest : Field 4} {rest : Bytes}
    (h : payload.val = [cmd] ++ be16 recognized ++ be16 streamId ++ digest.val ++ be16 n ++ rest) :
    relayUnpack payload =
      ⟨cmd, recognized, streamId, digest, UInt16.ofNat (min n.toNat moorRelayData),
        rest.take (UInt16.ofNat (min n.toNat moorRelayData)).toNat⟩ := by
  have hn : beDecode (be16 n) = n.toNat := by
    simp [be16, beDecode_beEncode, mod_eq_of_lt n.toNat_lt]
  have h₁ : payload.val.drop 1
      = be16 recognized ++ (be16 streamId ++ (digest.val ++ (be16 n ++ rest))) := by simp [h]
  have h₃ : payload.val.drop 3 = be16 streamId ++ (digest.val ++ (be16 n ++ rest)) := by
    rw [← drop_drop (i := 2) (j := 1), h₁, drop_left' (by simp)]
  have h₅ : payload.val.drop 5 = digest.val ++ (be16 n ++ rest) := by
    rw [← drop_drop (i := 2) (j := 3), h₃, drop_left' (by simp)]
  have h₉ : payload.val.drop 9 = be16 n ++ rest := by
    rw [← drop_drop (i := 4) (j := 5), h₅, drop_left' (by simp)]
  have h₁₁ : payload.val.drop 11 = rest := by
    rw [← drop_drop (i := 2) (j := 9), h₉, drop_left' (by simp)]
  have htake (v : UInt16) (xs : Bytes) : (be16 v ++ xs).take 2 = be16 v :=
    take_left' (by simp)
  simp only [relayUnpack, h₁, h₃, h₅, h₉, h₁₁, htake, hn, ofNat_beDecode_be16, Arr.ofList_append]
  simp [h]

theorem relayPack_val (relay : RelayPayload) :
    ∃ rest, (relayPack relay).val = [relay.relayCommand] ++ be16 relay.recognized ++
        be16 relay.streamId ++ relay.digest.val ++ be16 relay.dataLength ++ rest ∧
      (relay.data.length = relay.dataLength.toNat → relay.dataLength.toNat ≤ moorRelayData →
        rest.take relay.dataLength.toNat = relay.data) := by
  by_cases hfits : 0 < relay.dataLength.toNat ∧ relay.dataLength.toNat ≤ moorRelayData
  · have hle : relay.dataLength.toNat ≤ 498 := hfits.2
    rw [relayPack, if_pos hfits, Arr.val_ofList_of_le _ (by simp; omega), append_assoc]
    refine ⟨_, rfl, ?_⟩
    intro hlen _
    rw [take_of_length_le hlen.le, take_left' hlen]
  · rw [relayPack, if_neg hfits, Arr.val_ofList_of_le _ (by simp), append_assoc]
    refine ⟨_, rfl, ?_⟩
    intro hlen hle
    have hzero : relay.dataLength.toNat = 0 := by omega
    rw [hzero] at hlen ⊢
    rw [take_zero, eq_nil_of_length_eq_zero hlen]

variable (relayCmd : UInt8)

variable (streamId : UInt16) (data : Bytes)

/-- The header of the cells that are made, which have a zero `recognized` field. -/
theorem relayUnpack_cellRelay_header :
    (relayUnpack (cellRelay relayCmd streamId data)).relayCommand = relayCmd ∧
      (relayUnpack (cellRelay relayCmd streamId data)).recognized = 0 ∧
      (relayUnpack (cellRelay relayCmd streamId data)).streamId = streamId := by
  obtain ⟨rest, hval, -⟩ := relayPack_val ⟨relayCmd, 0, streamId, Field.zero 4,
    UInt16.ofNat data.length, if 0 < data.length ∧ data.length ≤ moorRelayData then data else []⟩
  rw [cellRelay, relayUnpack_eq hval]
  exact ⟨rfl, rfl, rfl⟩

@[simp] theorem relayUnpack_cellRelay_relayCommand :
    (relayUnpack (cellRelay relayCmd streamId data)).relayCommand = relayCmd :=
  (relayUnpack_cellRelay_header relayCmd streamId data).1

@[simp] theorem relayUnpack_cellRelay_recognized :
    (relayUnpack (cellRelay relayCmd streamId data)).recognized = 0 :=
  (relayUnpack_cellRelay_header relayCmd streamId data).2.1

@[simp] theorem relayUnpack_cellRelay_streamId :
    (relayUnpack (cellRelay relayCmd streamId data)).streamId = streamId :=
  (relayUnpack_cellRelay_header relayCmd streamId data).2.2

/-- A relay payload is read back as it was made. -/
theorem relayUnpack_cellRelay {data : Bytes} (h : data.length ≤ moorRelayData) :
    relayUnpack (cellRelay relayCmd streamId data) =
      ⟨relayCmd, 0, streamId, Field.zero 4, UInt16.ofNat data.length, data⟩ := by
  have hle : data.length ≤ 498 := h
  have hlen : (UInt16.ofNat data.length).toNat = data.length := by
    rw [UInt16.toNat_ofNat', mod_eq_of_lt (by omega)]
  have hdata : (if 0 < data.length ∧ data.length ≤ moorRelayData then data else []) = data := by
    cases data with
    | nil => rfl
    | cons b bs => rw [if_pos ⟨by simp, h⟩]
  obtain ⟨rest, hval, hrest⟩ := relayPack_val ⟨relayCmd, 0, streamId, Field.zero 4,
    UInt16.ofNat data.length, data⟩
  rw [cellRelay, hdata, relayUnpack_eq hval, hlen, min_eq_left h, hlen]
  rw [hlen] at hrest
  rw [hrest rfl h]

end Moor
