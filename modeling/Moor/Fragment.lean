import Moor.Cell
import Moor.Lib.Slots

/-!
# Reassembly of fragmented relay commands

A payload that does not fit a cell comes in fragments, each with the identifier of its payload,
its number, the total length and the command that the payload is for. A circuit keeps eight slots
in which fragments are put together in order.
-/

namespace Moor

open Codec Finset List Function Nat

def relayFragment : UInt8 := 40
def relayFragmentEnd : UInt8 := 41

def moorFragmentHeader : ℕ := 7
def moorMaxReassembly : ℕ := 4096
def moorMaxPending : ℕ := 8
def moorFragmentTimeoutMs : ℕ := 30000

/-- A slot of the reassembly. What was received so far is in the buffer. -/
structure Reassembly where
  fragmentId : UInt16
  expectedTotal : UInt16
  innerRelayCmd : UInt8
  streamId : UInt16
  buffer : Bytes
  nextSeq : UInt16
  active : Bool
  startedAt : ℕ
  deriving DecidableEq

/-- What comes of a fragment: it does not fit, more are needed, or the payload is complete. -/
inductive FragmentResult
  | error
  | more
  | complete (cmd : UInt8) (data : Bytes)
  deriving DecidableEq

/-- The slots of a new circuit. -/
def moorReassemblyInit : List Reassembly :=
  replicate moorMaxPending ⟨0, 0, 0, 0, [], 0, false, 0⟩

/-- The header of a fragment. -/
structure FragmentHeader where
  fragmentId : UInt16
  seq : UInt16
  totalLen : UInt16
  innerCmd : UInt8

def fragmentHeader (relayData : Bytes) : FragmentHeader where
  fragmentId := UInt16.ofNat (beDecode (relayData.take 2))
  seq := UInt16.ofNat (beDecode ((relayData.drop 2).take 2))
  totalLen := UInt16.ofNat (beDecode ((relayData.drop 4).take 2))
  innerCmd := relayData.getD 6 0

/-- Slots that wait for too long are given up. -/
def expireSlots (now : ℕ) (state : List Reassembly) : List Reassembly :=
  state.map fun slot =>
    if slot.active ∧ moorFragmentTimeoutMs < now - slot.startedAt then
      { slot with active := false }
    else slot

/-- A fragment goes into the slot at an index. -/
def receiveInto (state : List Reassembly) (i : ℕ) (header : FragmentHeader) (payload : Bytes)
    (fragCmd : UInt8) : List Reassembly × FragmentResult :=
  match state[i]? with
  | none => (state, .error)
  | some slot =>
    if header.seq ≠ slot.nextSeq then (state, .error)
    else if header.totalLen ≠ slot.expectedTotal ∨ header.innerCmd ≠ slot.innerRelayCmd then
      (state, .error)
    else if moorMaxReassembly - slot.buffer.length < payload.length then (state, .error)
    else
      let slot := { slot with buffer := slot.buffer ++ payload, nextSeq := slot.nextSeq + 1 }
      if fragCmd = relayFragmentEnd then
        let state := state.set i { slot with active := false }
        if slot.buffer.length ≠ slot.expectedTotal.toNat then (state, .error)
        else (state, .complete slot.innerRelayCmd slot.buffer)
      else (state.set i slot, .more)

def moorFragmentReceive (now : ℕ) (state : List Reassembly) (relayData : Bytes)
    (streamId : UInt16) (fragCmd : UInt8) : List Reassembly × FragmentResult :=
  if relayData.length < moorFragmentHeader then (state, .error)
  else
    let state := expireSlots now state
    let header := fragmentHeader relayData
    let payload := relayData.drop moorFragmentHeader
    if moorMaxReassembly < header.totalLen.toNat ∨ header.totalLen = 0 then (state, .error)
    else
      match state.findIdx? fun slot => slot.active && slot.fragmentId == header.fragmentId with
      | some i => receiveInto state i header payload fragCmd
      | none =>
        if header.seq ≠ 0 then (state, .error)
        else
          match state.findIdx? fun slot => !slot.active with
          | none => (state, .error)
          | some i =>
            let slot : Reassembly :=
              ⟨header.fragmentId, header.totalLen, header.innerCmd, streamId, [], 0, true, now⟩
            receiveInto (state.set i slot) i header payload fragCmd

variable {state : List Reassembly}

/-- A payload is complete with a fragment that is marked as the last, and is for the command that
this fragment names. -/
theorem receiveInto_complete {i : ℕ} {header : FragmentHeader} {payload data : Bytes}
    {fragCmd cmd : UInt8}
    (h : (receiveInto state i header payload fragCmd).2 = .complete cmd data) :
    fragCmd = relayFragmentEnd ∧ cmd = header.innerCmd := by
  simp only [receiveInto] at h
  split at h
  · cases h
  split_ifs at h with hseq hheader hroom hend hlen
  cases h
  rw [not_or, not_not, not_not] at hheader
  exact ⟨hend, hheader.2.symm⟩

theorem moorFragmentReceive_complete {now : ℕ} {relayData data : Bytes} {streamId : UInt16}
    {fragCmd cmd : UInt8}
    (h : (moorFragmentReceive now state relayData streamId fragCmd).2 = .complete cmd data) :
    fragCmd = relayFragmentEnd ∧ cmd = (fragmentHeader relayData).innerCmd := by
  simp only [moorFragmentReceive] at h
  split at h
  · cases h
  split at h
  · cases h
  split at h
  · exact receiveInto_complete h
  split at h
  · cases h
  · split at h
    · cases h
    · exact receiveInto_complete h

/-! ### Sending -/

def moorFragmentData : ℕ := 491

/-- A cell as the sender hands it to the callback: its command, its stream and its data. -/
structure Fragment where
  cmd : UInt8
  streamId : UInt16
  data : Bytes
  deriving DecidableEq

/-- What the sender calls for each cell, with a context of its own: zero if the cell was sent. -/
abbrev FragmentSendCb (σ : Type) := UInt32 → Fragment → σ → Int32 × σ

/-- The data of a fragment: the header and a piece of the payload. -/
def fragmentBytes (fragmentId seq totalLen : UInt16) (relayCmd : UInt8) (chunk : Bytes) : Bytes :=
  be16 fragmentId ++ be16 seq ++ be16 totalLen ++ [relayCmd] ++ chunk

theorem fragmentHeader_fragmentBytes (fragmentId seq totalLen : UInt16) (relayCmd : UInt8)
    (chunk : Bytes) :
    fragmentHeader (fragmentBytes fragmentId seq totalLen relayCmd chunk)
      = ⟨fragmentId, seq, totalLen, relayCmd⟩ := by
  have hword : ∀ v : UInt16, UInt16.ofNat (beDecode (be16 v)) = v := by
    simp
  simp only [fragmentHeader, fragmentBytes, FragmentHeader.mk.injEq]
  refine ⟨?_, ?_, ?_, rfl⟩
  · exact hword fragmentId
  · exact hword seq
  · exact hword totalLen

/-- The loop of `moorFragmentSend` over what is left of the payload. -/
def sendFragments {σ : Type} (sendCb : FragmentSendCb σ) (circuitId : UInt32) (relayCmd : UInt8)
    (streamId fragmentId totalLen seq : UInt16) (data : Bytes) (ctx : σ) : Int32 × σ :=
  if _ : data = [] then (0, ctx)
  else
    let chunk := data.take moorFragmentData
    let isLast := data.length ≤ moorFragmentData
    let fragment : Fragment :=
      { cmd := if isLast then relayFragmentEnd else relayFragment
        streamId := streamId
        data := fragmentBytes fragmentId seq totalLen relayCmd chunk }
    let (rc, ctx) := sendCb circuitId fragment ctx
    if rc ≠ 0 then (-1, ctx)
    else
      sendFragments sendCb circuitId relayCmd streamId fragmentId totalLen (seq + 1)
        (data.drop moorFragmentData) ctx
termination_by data.length
decreasing_by
  have hpos : 0 < data.length := length_pos_iff.mpr ‹_›
  rw [length_drop]
  exact sub_lt hpos (by decide)

/-- Sends a payload, in one cell if it fits. -/
def moorFragmentSend {σ : Type} (sendCb : FragmentSendCb σ) (circuitId : UInt32) (relayCmd : UInt8)
    (streamId : UInt16) (data : Bytes) (fragmentId : UInt16) (ctx : σ) : Int32 × σ :=
  if data.length = 0 ∨ moorMaxReassembly < data.length then (-1, ctx)
  else if data.length ≤ moorRelayData then sendCb circuitId ⟨relayCmd, streamId, data⟩ ctx
  else
    sendFragments sendCb circuitId relayCmd streamId fragmentId (UInt16.ofNat data.length) 0 data
      ctx

/-- A callback that sends every cell. -/
def recordFragment : FragmentSendCb (List Fragment) := fun _ fragment sent =>
  (0, sent ++ [fragment])

/-- A payload for which the sender makes fragments. -/
structure LargePayload where
  fragmentId : UInt16
  relayCmd : UInt8
  streamId : UInt16
  data : Bytes
  lt_length : moorRelayData < data.length
  length_le : data.length ≤ moorMaxReassembly

namespace LargePayload

variable (p : LargePayload)

/-- The cells that are sent for a payload. -/
def fragments (circuitId : UInt32) : List Fragment :=
  (moorFragmentSend recordFragment circuitId p.relayCmd p.streamId p.data p.fragmentId []).2

/-- How many fragments there are. -/
def count : ℕ := (p.data.length + moorFragmentData - 1) / moorFragmentData

/-- The piece of the payload in a fragment. -/
def chunk (k : ℕ) : Bytes := (p.data.drop (k * moorFragmentData)).take moorFragmentData

def fragment (k : ℕ) : Fragment where
  cmd := if k + 1 = p.count then relayFragmentEnd else relayFragment
  streamId := p.streamId
  data := fragmentBytes p.fragmentId (UInt16.ofNat k) (UInt16.ofNat p.data.length) p.relayCmd
    (p.chunk k)

def header (k : ℕ) : FragmentHeader :=
  ⟨p.fragmentId, UInt16.ofNat k, UInt16.ofNat p.data.length, p.relayCmd⟩

variable (circuitId : UInt32) (k : ℕ)

theorem ofNat_succ : UInt16.ofNat k + 1 = UInt16.ofNat (k + 1) := by
  rw [UInt16.ofNat_add]
  rfl

theorem lt_count_iff : k < p.count ↔ k * 491 < p.data.length := by
  rw [count, moorFragmentData]
  omega

theorem one_lt_count : 1 < p.count := by
  have hlong : 498 < p.data.length := p.lt_length
  rw [lt_count_iff]
  omega

theorem sendFragments_recordFragment {k : ℕ} (hk : k ≤ p.count) (sent : List Fragment) :
    sendFragments recordFragment circuitId p.relayCmd p.streamId p.fragmentId
        (UInt16.ofNat p.data.length) (UInt16.ofNat k) (p.data.drop (k * moorFragmentData)) sent
      = (0, sent ++ (range' k (p.count - k)).map p.fragment) := by
  -- The fragments that are left are counted down.
  induction hleft : p.count - k generalizing k sent with
  | zero =>
    have hnil : p.data.drop (k * moorFragmentData) = [] := by
      rw [drop_eq_nil_iff]
      exact not_lt.mp fun hlt => absurd ((p.lt_count_iff k).mpr hlt) (by omega)
    rw [sendFragments, dif_pos hnil]
    simp
  | succ left ih =>
    have hlt : k * 491 < p.data.length := (p.lt_count_iff k).mp (by omega)
    have hne : p.data.drop (k * moorFragmentData) ≠ [] := by
      rw [Ne, drop_eq_nil_iff]
      exact not_le.mpr hlt
    have hlast : (p.data.drop (k * moorFragmentData)).length ≤ moorFragmentData
        ↔ k + 1 = p.count := by
      have hnext := p.lt_count_iff (k + 1)
      rw [length_drop, moorFragmentData]
      omega
    rw [sendFragments, dif_neg hne]
    simp only [recordFragment, ne_eq, not_true_eq_false, if_false, hlast, drop_drop, ofNat_succ]
    have hrest := @ih (k + 1) (by omega) (sent ++ [p.fragment k]) (by omega)
    rw [add_mul, one_mul] at hrest
    rw [append_assoc] at hrest
    exact hrest

/-- The fragments of a payload are its pieces in order. -/
theorem fragments_eq : p.fragments circuitId = (List.range p.count).map p.fragment := by
  have hlong := p.lt_length
  have hempty : ¬(p.data.length = 0 ∨ moorMaxReassembly < p.data.length) := by
    have hle := p.length_le
    omega
  have hsend := p.sendFragments_recordFragment circuitId (zero_le _) []
  rw [fragments, moorFragmentSend, if_neg hempty, if_neg (Nat.not_le.mpr hlong)]
  exact (congrArg Prod.snd hsend).trans (by rw [range_eq_range', Nat.sub_zero]; rfl)

/-! ### Fragments of several payloads -/

/-- The slot of a payload of which some fragments have come. -/
def slot (start : ℕ) : Reassembly where
  fragmentId := p.fragmentId
  expectedTotal := UInt16.ofNat p.data.length
  innerRelayCmd := p.relayCmd
  streamId := p.streamId
  buffer := p.data.take (k * moorFragmentData)
  nextSeq := UInt16.ofNat k
  active := true
  startedAt := start

/-- What is reported for the fragments of a payload: that more are needed for all but the last, and
the payload for the last. -/
def results : List FragmentResult :=
  replicate (p.count - 1) .more ++ [.complete p.relayCmd p.data]

theorem length_results : p.results.length = p.count := by
  have hcount := p.one_lt_count
  rw [results, length_append, length_replicate, length_singleton]
  omega

theorem drop_results {k : ℕ} (hk : k < p.count) :
    p.results.drop k
      = (if k + 1 = p.count then .complete p.relayCmd p.data else .more) ::
        p.results.drop (k + 1) := by
  rw [drop_eq_getElem_cons (by rwa [length_results])]
  simp only [results, getElem_append, length_replicate, getElem_replicate, getElem_singleton]
  split_ifs <;> first | rfl | omega

theorem toNat_length : (UInt16.ofNat p.data.length).toNat = p.data.length := by
  have hle : p.data.length ≤ 4096 := p.length_le
  rw [UInt16.toNat_ofNat', mod_eq_of_lt (by omega)]

theorem buffer_append_chunk :
    p.data.take (k * moorFragmentData) ++ p.chunk k
      = p.data.take ((k + 1) * moorFragmentData) := by
  rw [chunk, add_mul, one_mul, take_add]

/-- A fragment goes into the slot that waits for it. -/
theorem receiveInto_slot {i k start : ℕ} (hslot : state[i]? = some (p.slot k start)) :
    receiveInto state i (p.header k) (p.chunk k) (p.fragment k).cmd
      = if k + 1 = p.count then
          (state.set i { p.slot (k + 1) start with active := false },
            .complete p.relayCmd p.data)
        else (state.set i (p.slot (k + 1) start), .more) := by
  have hle : p.data.length ≤ 4096 := p.length_le
  have hroom : ¬moorMaxReassembly - (p.data.take (k * moorFragmentData)).length
      < (p.chunk k).length := by
    simp only [chunk, moorMaxReassembly, moorFragmentData, length_take, length_drop]
    omega
  simp only [receiveInto, hslot, slot, ne_eq, not_true_eq_false, or_self, if_false, hroom,
    ofNat_succ, buffer_append_chunk, p.toNat_length, fragment, header]
  by_cases hlast : k + 1 = p.count
  · -- With the last fragment the buffer holds the whole payload.
    have hall : p.data.take (p.count * moorFragmentData) = p.data :=
      take_of_length_le (not_lt.mp fun hmore =>
        absurd ((p.lt_count_iff p.count).mpr hmore) (lt_irrefl _))
    simp [hlast, hall]
  · have hcmd : relayFragment ≠ relayFragmentEnd := by decide
    simp [hlast, hcmd]

end LargePayload

variable {n : ℕ} {payloads : Fin n → LargePayload} {got start : Fin n → ℕ}
  {state : List Reassembly} {p : Fin n}

/-- The slots of a circuit on which some fragments of each payload have come: each payload that is
under way has its slot, and every other slot is free. -/
structure Tracks (payloads : Fin n → LargePayload) (got start : Fin n → ℕ)
    (state : List Reassembly) : Prop where
  length : state.length = moorMaxPending
  slot : ∀ p, 0 < got p → got p < (payloads p).count →
    ∃ i : ℕ, state[i]? = some ((payloads p).slot (got p) (start p))
  owner : ∀ (i : ℕ) s, state[i]? = some s → s.active →
    ∃ p, 0 < got p ∧ got p < (payloads p).count ∧ s = (payloads p).slot (got p) (start p)
  keyed : Slots.Keyed Reassembly.active Reassembly.fragmentId state

theorem free_init : ∀ s ∈ moorReassemblyInit, s.active = false := by
  intro s hs
  rw [eq_of_mem_replicate hs]

theorem tracks_init (start : Fin n → ℕ) :
    Tracks payloads (fun _ => 0) start moorReassemblyInit := by
  refine ⟨length_replicate, fun _ hpos => absurd hpos (lt_irrefl 0), ?_,
    Slots.keyed_of_free free_init⟩
  intro i s hs hact
  rw [free_init s (mem_of_getElem? hs)] at hact
  cases hact

namespace Tracks

/-- The next fragment of a payload changes its slot, or one that is free if it is the first; the
slot is free again after the last. -/
theorem advance (h : Tracks payloads got start state)
    (hids : Injective fun p => (payloads p).fragmentId) {i t : ℕ} {s' : Reassembly}
    (hi : i < state.length)
    (hfree : ∀ s, state[i]? = some s → s.active → s = (payloads p).slot (got p) (start p))
    (hmine : 0 < got p → state[i]? = some ((payloads p).slot (got p) (start p)))
    (hmore : got p + 1 < (payloads p).count → s' = (payloads p).slot (got p + 1) t)
    (hdone : s'.active → got p + 1 < (payloads p).count) :
    Tracks payloads (update got p (got p + 1)) (update start p t)
      (state.set i s') := by
  -- Another slot in use is that of another payload.
  have hother : ∀ j s, j ≠ i → state[j]? = some s → s.active → ∃ q ≠ p, 0 < got q ∧
      got q < (payloads q).count ∧ s = (payloads q).slot (got q) (start q) := by
    intro j s hji hs hact
    obtain ⟨q, hpos, hlt, rfl⟩ := h.owner j s hs hact
    refine ⟨q, ?_, hpos, hlt, rfl⟩
    rintro rfl
    exact hji (h.keyed j i _ _ hs (hmine hpos) rfl rfl rfl)
  have hset : (state.set i s')[i]? = some s' := getElem?_set_self hi
  have hset_ne : ∀ j ≠ i, (state.set i s')[j]? = state[j]? := fun j hji =>
    getElem?_set_ne hji.symm
  refine ⟨by simp [h.length], ?_, ?_, ?_⟩
  · intro q hpos hlt
    rcases eq_or_ne q p with rfl | hqp
    · rw [update_self] at hlt
      refine ⟨i, ?_⟩
      rw [hset, hmore hlt, update_self, update_self]
    rw [update_of_ne hqp] at hpos hlt ⊢
    rw [update_of_ne hqp]
    obtain ⟨j, hj⟩ := h.slot q hpos hlt
    refine ⟨j, ?_⟩
    rw [hset_ne j, hj]
    rintro rfl
    exact hqp (hids (congrArg Reassembly.fragmentId (hfree _ hj rfl)))
  · intro j s hs hact
    rcases eq_or_ne j i with rfl | hji
    · obtain rfl : s' = s := Option.some_inj.mp (hset.symm.trans hs)
      have hlt := hdone hact
      refine ⟨p, ?_⟩
      rw [update_self, update_self]
      exact ⟨succ_pos _, hlt, hmore hlt⟩
    · obtain ⟨q, hqp, hpos, hlt, rfl⟩ := hother j s hji (hset_ne j hji ▸ hs) hact
      refine ⟨q, ?_⟩
      rw [update_of_ne hqp, update_of_ne hqp]
      exact ⟨hpos, hlt, rfl⟩
  · refine h.keyed.set hi fun hactive' j s hji hs hact hid => ?_
    obtain ⟨q, hqp, -, -, rfl⟩ := hother j s hji hs hact
    rw [hmore (hdone hactive')] at hid
    exact hqp (hids hid)

/-- No slot is given up while no payload waits for too long. -/
theorem expireSlots_eq (h : Tracks payloads got start state) {now : ℕ}
    (hnow : ∀ p, 0 < got p → got p < (payloads p).count → now - start p ≤ moorFragmentTimeoutMs) :
    expireSlots now state = state := by
  refine (map_congr_left fun s hs => ?_).trans (map_id state)
  refine if_neg ?_
  rintro ⟨hact, hlate⟩
  obtain ⟨i, hi⟩ := getElem?_of_mem hs
  obtain ⟨p, hpos, hlt, rfl⟩ := h.owner i s hi hact
  exact absurd (hnow p hpos hlt) (not_le.mpr hlate)

end Tracks

/-! ### Reassembly -/

/-- A fragment that arrives, of one of several payloads, at a time. -/
structure Arrival (n : ℕ) where
  origin : Fin n
  fragment : Fragment
  now : ℕ
  deriving DecidableEq

/-- The fragments that arrive on a circuit, each with what is reported for it. -/
def receiveAll (state : List Reassembly) :
    List (Arrival n) → List (Arrival n × FragmentResult)
  | [] => []
  | a :: arrivals =>
    let (state, result) :=
      moorFragmentReceive a.now state a.fragment.data a.fragment.streamId a.fragment.cmd
    (a, result) :: receiveAll state arrivals

/-- Fragments of some payloads arrive, those of each payload in order; the clock does not go back,
and no fragment comes too late after an earlier one of its payload. -/
structure Interleaving (payloads : Fin n → LargePayload) (circuitId : UInt32)
    (arrivals : List (Arrival n)) : Prop where
  order : ∀ p, (arrivals.filter (·.origin = p)).map (·.fragment)
    = (payloads p).fragments circuitId
  clock : arrivals.Pairwise fun a b => a.now ≤ b.now
  noTimeout : arrivals.Pairwise fun a b =>
    a.origin = b.origin → b.now - a.now ≤ moorFragmentTimeoutMs

namespace Tracks

variable (h : Tracks payloads got start state)
include h

/-- No slot is found for a payload of which nothing has come. -/
theorem findIdx?_eq_none (hids : Injective fun p => (payloads p).fragmentId) (hzero : got p = 0) :
    state.findIdx? (fun s => s.active && s.fragmentId == (payloads p).fragmentId) = none := by
  rw [findIdx?_eq_none_iff]
  intro s hs
  obtain ⟨i, hi⟩ := getElem?_of_mem hs
  by_contra htest
  simp only [Bool.and_eq_false_iff, not_or, Bool.not_eq_false, beq_iff_eq] at htest
  obtain ⟨q, hpos, -, rfl⟩ := h.owner i s hi htest.1
  obtain rfl : q = p := hids htest.2
  omega

/-- A slot is free while nothing of some payload has come: there are as many slots as payloads may
be. -/
theorem exists_free (hn : n ≤ moorMaxPending) (hzero : got p = 0) :
    ∃ (i : ℕ) (s : Reassembly), state.findIdx? (fun s => !s.active) = some i ∧
      state[i]? = some s ∧ s.active = false := by
  refine h.keyed.exists_free (s := (univ.erase p).image fun q => (payloads q).fragmentId) ?_ ?_
  · intro s hs hact
    obtain ⟨i, hi⟩ := getElem?_of_mem hs
    obtain ⟨q, hpos, -, rfl⟩ := h.owner i s hi hact
    refine mem_image.mpr ⟨q, mem_erase.mpr ⟨?_, mem_univ q⟩, rfl⟩
    rintro rfl
    omega
  · have hle := Finset.card_image_le (s := univ.erase p) (f := fun q => (payloads q).fragmentId)
    rw [card_erase_of_mem (mem_univ p), Finset.card_univ, Fintype.card_fin] at hle
    have hpos := p.pos
    rw [h.length]
    omega

/-- A fragment of a payload passes the checks of its header, and goes into a slot that is found by
its identifier or, if it is the first, into a free one. -/
theorem moorFragmentReceive_fragment {now : ℕ}
    (hnow : ∀ p, 0 < got p → got p < (payloads p).count → now - start p ≤ moorFragmentTimeoutMs)
    (p : LargePayload) (k : ℕ) :
    moorFragmentReceive now state (p.fragment k).data (p.fragment k).streamId (p.fragment k).cmd
      = match state.findIdx? fun s => s.active && s.fragmentId == p.fragmentId with
        | some i => receiveInto state i (p.header k) (p.chunk k) (p.fragment k).cmd
        | none =>
          if UInt16.ofNat k ≠ 0 then (state, .error)
          else
            match state.findIdx? fun s => !s.active with
            | none => (state, .error)
            | some i =>
              receiveInto (state.set i (p.slot 0 now)) i (p.header k) (p.chunk k)
                (p.fragment k).cmd := by
  have hle : p.data.length ≤ 4096 := p.length_le
  have hlong : 498 < p.data.length := p.lt_length
  have htotal : ¬(moorMaxReassembly < (UInt16.ofNat p.data.length).toNat ∨
      UInt16.ofNat p.data.length = 0) := by
    rw [← UInt16.toNat_inj, p.toNat_length, moorMaxReassembly, UInt16.toNat_zero]
    omega
  have hheader : ¬(p.fragment k).data.length < moorFragmentHeader := by
    simp only [LargePayload.fragment, fragmentBytes, length_append, be16, length_beEncode,
      length_singleton, moorFragmentHeader]
    omega
  rw [moorFragmentReceive, if_neg hheader]
  simp only [h.expireSlots_eq hnow, LargePayload.fragment, fragmentHeader_fragmentBytes, htotal,
    if_false]
  rfl

/-- A fragment that is next of its payload is received as it should, while none waits for too
long. -/
theorem receive (hn : n ≤ moorMaxPending) (hids : Injective fun p => (payloads p).fragmentId)
    (hlt : got p < (payloads p).count) {now : ℕ}
    (hnow : ∀ p, 0 < got p → got p < (payloads p).count → now - start p ≤ moorFragmentTimeoutMs) :
    ∃ state', moorFragmentReceive now state ((payloads p).fragment (got p)).data
        ((payloads p).fragment (got p)).streamId ((payloads p).fragment (got p)).cmd
      = (state', if got p + 1 = (payloads p).count
          then .complete (payloads p).relayCmd (payloads p).data else .more) ∧
      Tracks payloads (update got p (got p + 1))
        (update start p (if got p = 0 then now else start p)) state' := by
  rw [h.moorFragmentReceive_fragment hnow]
  rcases Nat.eq_zero_or_pos (got p) with hzero | hpos
  · obtain ⟨i, free, hi, hget, hinactive⟩ := h.exists_free hn hzero
    have hlength := (List.getElem?_eq_some_iff.mp hget).1
    have hfree : ∀ s, state[i]? = some s → s.active →
        s = (payloads p).slot (got p) (start p) := by
      intro s hs hact
      obtain rfl := Option.some_inj.mp (hget.symm.trans hs)
      rw [hinactive] at hact
      cases hact
    have hmore : got p + 1 < (payloads p).count := by
      rw [hzero]
      exact (payloads p).one_lt_count
    have hslot : (state.set i ((payloads p).slot 0 now))[i]?
        = some ((payloads p).slot (got p) now) := by
      rw [hzero, getElem?_set_self hlength]
    have hseq : ¬UInt16.ofNat (got p) ≠ 0 := by
      rw [hzero]
      decide
    rw [h.findIdx?_eq_none hids hzero, hi]
    dsimp only
    rw [if_neg hseq, (payloads p).receiveInto_slot hslot, if_neg hmore.ne, if_neg hmore.ne,
      if_pos hzero, set_set]
    exact ⟨_, rfl, h.advance hids hlength hfree (fun hpos => absurd hzero hpos.ne') (fun _ => rfl)
      fun _ => hmore⟩
  · obtain ⟨i, hslot⟩ := h.slot p hpos hlt
    have hmine : ∀ s, state[i]? = some s → s.active →
        s = (payloads p).slot (got p) (start p) :=
      fun s hs _ => Option.some_inj.mp (hs.symm.trans hslot)
    have hlength := (List.getElem?_eq_some_iff.mp hslot).1
    have hfind : state.findIdx?
        (fun s => s.active && s.fragmentId == (payloads p).fragmentId) = some i :=
      h.keyed.findIdx?_eq hslot rfl
    rw [hfind]
    dsimp only
    rw [(payloads p).receiveInto_slot hslot, if_neg hpos.ne']
    split
    next hlast =>
      refine ⟨_, rfl, h.advance hids hlength hmine (fun _ => hslot) ?_ ?_⟩
      · omega
      · exact fun hact => nomatch hact
    next hmore =>
      refine ⟨_, rfl, h.advance hids hlength hmine (fun _ => hslot) (fun _ => rfl) fun _ => ?_⟩
      omega

omit h

end Tracks

theorem map_fst_receiveAll (state : List Reassembly) (arrivals : List (Arrival n)) :
    (receiveAll state arrivals).map Prod.fst = arrivals := by
  induction arrivals generalizing state with
  | nil => rfl
  | cons a arrivals ih =>
    simp [receiveAll, ih]

/-- The fragments that are still to come of payloads of which some have come. -/
structure Expected (payloads : Fin n → LargePayload) (got start : Fin n → ℕ)
    (arrivals : List (Arrival n)) : Prop where
  order : ∀ p, (arrivals.filter (·.origin = p)).map (·.fragment)
    = ((List.range (payloads p).count).map (payloads p).fragment).drop (got p)
  clock : arrivals.Pairwise fun a b => a.now ≤ b.now
  noTimeout : arrivals.Pairwise fun a b =>
    a.origin = b.origin → b.now - a.now ≤ moorFragmentTimeoutMs
  started : ∀ a ∈ arrivals, 0 < got a.origin → a.now - start a.origin ≤ moorFragmentTimeoutMs

namespace Expected

theorem length_eq {arrivals : List (Arrival n)} (h : Expected payloads got start arrivals)
    (p : Fin n) : (arrivals.filter (·.origin = p)).length = (payloads p).count - got p := by
  simpa using congrArg length (h.order p)

variable {a : Arrival n} {arrivals : List (Arrival n)}
  (h : Expected payloads got start (a :: arrivals))
include h

/-- The first of them is the next of its payload. -/
theorem next : got a.origin < (payloads a.origin).count ∧
    a.fragment = (payloads a.origin).fragment (got a.origin) ∧
    (arrivals.filter (·.origin = a.origin)).map (·.fragment)
      = ((List.range (payloads a.origin).count).map
          (payloads a.origin).fragment).drop (got a.origin + 1) := by
  have hlt : got a.origin < (payloads a.origin).count := by
    have hlength := h.length_eq a.origin
    rw [List.filter_cons_of_pos (by simp), length_cons] at hlength
    omega
  have hfirst := h.order a.origin
  rw [List.filter_cons_of_pos (by simp), List.map_cons,
    drop_eq_getElem_cons (by rwa [length_map, length_range]), cons.injEq, getElem_map,
    getElem_range] at hfirst
  exact ⟨hlt, hfirst⟩

/-- A payload under way has a fragment to come, so that it has not waited for too long. -/
theorem onTime (q : Fin n) (hpos : 0 < got q) (hq : got q < (payloads q).count) :
    a.now - start q ≤ moorFragmentTimeoutMs := by
  have hlength := h.length_eq q
  obtain ⟨b, hb⟩ := exists_mem_of_length_pos (hlength ▸ Nat.sub_pos_of_lt hq)
  obtain ⟨hmem, horigin⟩ := mem_filter.mp hb
  obtain rfl : b.origin = q := of_decide_eq_true horigin
  have hle : a.now ≤ b.now := by
    rcases mem_cons.mp hmem with rfl | hlater
    · exact Nat.le_refl _
    · exact (pairwise_cons.mp h.clock).1 b hlater
  exact (Nat.sub_le_sub_right hle _).trans (h.started b hmem hpos)

theorem tail : Expected payloads (update got a.origin (got a.origin + 1))
    (update start a.origin (if got a.origin = 0 then a.now else start a.origin))
    arrivals where
  order q := by
    rcases eq_or_ne a.origin q with rfl | hq
    · simp [h.next.2.2]
    · rw [update_of_ne hq.symm, ← h.order q, List.filter_cons_of_neg (by simpa using hq)]
  clock := (List.pairwise_cons.mp h.clock).2
  noTimeout := (List.pairwise_cons.mp h.noTimeout).2
  started b hb hpos := by
    rcases eq_or_ne a.origin b.origin with heq | hq
    · rw [← heq, update_self]
      split
      · exact (pairwise_cons.mp h.noTimeout).1 b hb heq
      next hnonzero =>
        rw [heq] at hnonzero ⊢
        exact h.started b (mem_cons_of_mem a hb) (pos_of_ne_zero hnonzero)
    · rw [update_of_ne hq.symm] at hpos ⊢
      exact h.started b (mem_cons_of_mem a hb) hpos

end Expected

/-- What is reported for the fragments of a payload that are still to come. -/
theorem receiveAll_of_tracks (hn : n ≤ moorMaxPending)
    (hids : Injective fun p => (payloads p).fragmentId) {arrivals : List (Arrival n)}
    (h : Tracks payloads got start state) (hexp : Expected payloads got start arrivals)
    (p : Fin n) :
    ((receiveAll state arrivals).filter (·.1.origin = p)).map Prod.snd
      = (payloads p).results.drop (got p) := by
  induction arrivals generalizing got start state with
  | nil =>
    refine (drop_eq_nil_of_le ?_).symm
    rw [(payloads p).length_results]
    exact Nat.le_of_sub_eq_zero (hexp.length_eq p).symm
  | cons a arrivals ih =>
    obtain ⟨hlt, hfragment, -⟩ := hexp.next
    obtain ⟨state', hrecv, htracks⟩ := h.receive hn hids hlt hexp.onTime
    have hresults := ih htracks hexp.tail
    rw [receiveAll, hfragment, hrecv]
    rcases eq_or_ne a.origin p with rfl | hp
    · simp [hresults, (payloads _).drop_results hlt]
    · rw [update_of_ne hp.symm] at hresults
      rw [List.filter_cons_of_neg (by simpa using hp), hresults]

/-- Of up to eight large payloads with different identifiers whose fragments arrive interleaved,
each is reported once, with its last fragment, as it was sent. -/
theorem fragments_reassembled (hn : n ≤ moorMaxPending) (payloads : Fin n → LargePayload)
    (hids : Injective fun p => (payloads p).fragmentId) (circuitId : UInt32)
    (arrivals : List (Arrival n)) (h : Interleaving payloads circuitId arrivals) :
    (receiveAll moorReassemblyInit arrivals).map Prod.fst = arrivals ∧
      ∀ p, ((receiveAll moorReassemblyInit arrivals).filter (·.1.origin = p)).map Prod.snd
        = replicate (((payloads p).fragments circuitId).length - 1) .more ++
          [.complete (payloads p).relayCmd (payloads p).data] := by
  refine ⟨map_fst_receiveAll _ _, fun p => ?_⟩
  have hexp : Expected payloads (fun _ => 0) (fun _ => 0) arrivals :=
    ⟨fun q => (h.order q).trans ((payloads q).fragments_eq circuitId), h.clock, h.noTimeout,
      fun _ _ hpos => absurd hpos (lt_irrefl 0)⟩
  have hresults := receiveAll_of_tracks hn hids (tracks_init fun _ => 0) hexp p
  rw [(payloads p).fragments_eq, length_map, length_range]
  exact hresults

/-- Two payloads of two fragments each. -/
def samplePayloads (p : Fin 2) : LargePayload where
  fragmentId := UInt16.ofNat (p.val + 1)
  relayCmd := relayExtendPq
  streamId := 0
  data := replicate 600 (UInt8.ofNat p.val)
  lt_length := by rw [length_replicate]; decide
  length_le := by rw [length_replicate]; decide

def sampleArrivals : List (Arrival 2) :=
  [⟨0, (samplePayloads 0).fragment 0, 0⟩, ⟨1, (samplePayloads 1).fragment 0, 10⟩,
    ⟨0, (samplePayloads 0).fragment 1, 20⟩, ⟨1, (samplePayloads 1).fragment 1, 30010⟩]

theorem fragments_reassembled_sample :
    Interleaving samplePayloads 5 sampleArrivals ∧
      ((receiveAll moorReassemblyInit sampleArrivals).filter (·.1.origin = 1)).map Prod.snd
        = [.more, .complete relayExtendPq (replicate 600 1)] := by
  have hids : Injective fun p => (samplePayloads p).fragmentId := by decide
  have hinterleaving : Interleaving samplePayloads 5 sampleArrivals :=
    ⟨by decide +kernel, by decide, by decide⟩
  have hlength : ((samplePayloads 1).fragments 5).length = 2 := by decide +kernel
  refine ⟨hinterleaving, ?_⟩
  have hresults := (fragments_reassembled (by decide) samplePayloads hids 5 sampleArrivals
    hinterleaving).2 1
  rw [hlength] at hresults
  exact hresults

/-! ### Arbitrary cells -/

/-- A cell that arrives at a time, whoever made it. -/
def receiveCell (state : List Reassembly) (cell : ℕ × Fragment) :
    List Reassembly × FragmentResult :=
  moorFragmentReceive cell.1 state cell.2.data cell.2.streamId cell.2.cmd

/-- The slots of a circuit on which some cells have arrived. -/
def reassemble (cells : List (ℕ × Fragment)) : List Reassembly :=
  cells.foldl (fun state cell => (receiveCell state cell).1) moorReassemblyInit

/-- Neither what a slot holds nor what it waits for is over the size of the buffer. -/
def Reassembly.Bounded (slot : Reassembly) : Prop :=
  slot.buffer.length ≤ moorMaxReassembly ∧ slot.expectedTotal.toNat ≤ moorMaxReassembly

/-- The slots in use are bounded and have different identifiers. -/
structure SlotsSound (state : List Reassembly) : Prop where
  bounded : ∀ slot ∈ state, slot.active → slot.Bounded
  keyed : Slots.Keyed Reassembly.active Reassembly.fragmentId state

/-- The slot at an index may be used for an identifier: no other slot in use has it. -/
def SlotFor (fragmentId : UInt16) (state : List Reassembly) (i : ℕ) : Prop :=
  ∀ (j : ℕ) slot, state[j]? = some slot → slot.active → (slot.fragmentId = fragmentId ↔ j = i)

theorem receiveInto_spec {i : ℕ} {slot : Reassembly} {header : FragmentHeader}
    (payload : Bytes) (fragCmd : UInt8) (hslot : state[i]? = some slot)
    (hid : slot.fragmentId = header.fragmentId) (hbounded : slot.Bounded) :
    (∃ slot', (receiveInto state i header payload fragCmd).1 = state.set i slot' ∧
      slot'.fragmentId = header.fragmentId ∧ slot'.Bounded) ∧
    ∀ cmd data, (receiveInto state i header payload fragCmd).2 = .complete cmd data →
      data.length = header.totalLen.toNat := by
  have hsame : ∃ slot', state = state.set i slot' ∧ slot'.fragmentId = header.fragmentId ∧
      slot'.Bounded := by
    obtain ⟨hi, rfl⟩ := List.getElem?_eq_some_iff.mp hslot
    exact ⟨state[i], (set_getElem_self hi).symm, hid, hbounded⟩
  simp only [receiveInto, hslot]
  split_ifs with hseq hheader hroom hend hlength
  · exact ⟨hsame, nofun⟩
  · exact ⟨hsame, nofun⟩
  · exact ⟨hsame, nofun⟩
  all_goals
    have hfits : (slot.buffer ++ payload).length ≤ moorMaxReassembly := by
      rw [length_append]
      have := hbounded.1
      omega
  · exact ⟨⟨_, rfl, hid, hfits, hbounded.2⟩, nofun⟩
  · refine ⟨⟨_, rfl, hid, hfits, hbounded.2⟩, ?_⟩
    rintro cmd data ⟨-, rfl⟩
    rw [not_or, not_not] at hheader
    rw [hheader.1]
    exact not_not.mp hlength
  · exact ⟨⟨_, rfl, hid, hfits, hbounded.2⟩, nofun⟩

theorem expireSlots_getElem? {now i : ℕ} {slot : Reassembly}
    (hslot : (expireSlots now state)[i]? = some slot) (hact : slot.active) :
    state[i]? = some slot := by
  rw [expireSlots, getElem?_map, Option.map_eq_some_iff] at hslot
  obtain ⟨old, hold, rfl⟩ := hslot
  split at hact
  · cases hact
  next hkept => rwa [if_neg hkept]

namespace SlotsSound

theorem init : SlotsSound moorReassemblyInit where
  bounded slot hslot hact := absurd hact (by simp [free_init slot hslot])
  keyed := Slots.keyed_of_free free_init

variable (h : SlotsSound state) (cell : ℕ × Fragment)
include h

theorem expireSlots (now : ℕ) : SlotsSound (expireSlots now state) := by
  refine ⟨fun slot hslot hact => ?_, fun i j a b ha hb hact hactive' => ?_⟩
  · obtain ⟨i, hi⟩ := getElem?_of_mem hslot
    exact h.bounded slot (mem_of_getElem? (expireSlots_getElem? hi hact)) hact
  · exact h.keyed i j a b (expireSlots_getElem? ha hact) (expireSlots_getElem? hb hactive')
      hact hactive'

/-- What a cell does to the slots: it changes nothing, gives up those that wait for too long, and
may then put a bounded slot at the index for its identifier. -/
theorem receive_cases :
    let header := fragmentHeader cell.2.data
    let expired := Moor.expireSlots cell.1 state
    let received := Moor.receiveCell state cell
    (received.1 = state ∨ received.1 = expired ∨ ∃ i slot, received.1 = expired.set i slot ∧
      i < expired.length ∧ slot.fragmentId = header.fragmentId ∧ slot.Bounded ∧
      SlotFor header.fragmentId expired i) ∧
    ∀ cmd data, received.2 = .complete cmd data → data.length = header.totalLen.toNat := by
  have hexpired := h.expireSlots cell.1
  simp only [Moor.receiveCell, moorFragmentReceive]
  generalize Moor.expireSlots cell.1 state = expired at hexpired ⊢
  split
  · exact ⟨.inl rfl, nofun⟩
  split
  · exact ⟨.inr (.inl rfl), nofun⟩
  next htotal =>
  split
  next i hfind =>
    obtain ⟨hi, htest, -⟩ := findIdx?_eq_some_iff_getElem.mp hfind
    rw [Bool.and_eq_true, beq_iff_eq] at htest
    have hslot := getElem?_eq_getElem hi
    obtain ⟨⟨slot, hset, hid, hbounded⟩, hdone⟩ := receiveInto_spec _ _ hslot htest.2
      (hexpired.bounded _ (getElem_mem hi) htest.1)
    refine ⟨.inr (.inr ⟨i, slot, hset, hi, hid, hbounded, fun j b hb hact => ⟨?_, ?_⟩⟩), hdone⟩
    · intro hb'
      exact hexpired.keyed j i b _ hb hslot hact htest.1 (hb'.trans htest.2.symm)
    · rintro rfl
      rw [← Option.some_inj.mp (hslot.symm.trans hb)]
      exact htest.2
  next hnone =>
  split
  · exact ⟨.inr (.inl rfl), nofun⟩
  split
  · exact ⟨.inr (.inl rfl), nofun⟩
  next i hfree =>
    -- A free slot is taken, and no slot in use has the identifier.
    obtain ⟨hi, htest, -⟩ := findIdx?_eq_some_iff_getElem.mp hfree
    have hslot (slot) : (expired.set i slot)[i]? = some slot := getElem?_set_self hi
    obtain ⟨⟨slot, hset, hid, hbounded⟩, hdone⟩ := receiveInto_spec _ _
      (hslot ⟨_, _, _, cell.2.streamId, [], 0, true, cell.1⟩) rfl
      ⟨zero_le _, not_lt.mp fun hlt => htotal (.inl hlt)⟩
    rw [set_set] at hset
    refine ⟨.inr (.inr ⟨i, slot, hset, hi, hid, hbounded, fun j b hb hact => ⟨?_, ?_⟩⟩), hdone⟩
    · intro hb'
      have := findIdx?_eq_none_iff.mp hnone b (mem_of_getElem? hb)
      simp [hact, hb'] at this
    · rintro rfl
      rw [getElem?_eq_getElem hi, Option.some_inj] at hb
      rw [hb, hact] at htest
      cases htest

/-- A cell keeps what holds of the slots. -/
theorem receiveCell : SlotsSound (receiveCell state cell).1 := by
  have hexpired := h.expireSlots cell.1
  rcases (h.receive_cases cell).1 with hsame | hsame | ⟨i, slot, hset, hi, hid, hbounded, hfor⟩
  · exact hsame.symm ▸ h
  · exact hsame.symm ▸ hexpired
  · rw [hset]
    refine ⟨fun b hb hact => ?_, hexpired.keyed.set hi fun _ j b hji hb hact hsame => ?_⟩
    · rcases Slots.mem_set hi hb with rfl | hb
      · exact hbounded
      · exact hexpired.bounded b hb hact
    · exact hji ((hfor j b hb hact).mp (hsame.trans hid))

end SlotsSound

theorem slotsSound_reassemble (cells : List (ℕ × Fragment)) : SlotsSound (reassemble cells) := by
  induction cells using reverseRecOn with
  | nil => exact .init
  | append_singleton cells cell ih =>
    rw [reassemble, foldl_append]
    exact ih.receiveCell cell

/-- Whatever cells have arrived, the slots in use are within the buffer and have different
identifiers; a payload is handed over with the length that was announced, and a cell leaves the
slots of other identifiers as they are unless they wait for too long. -/
theorem fragment_slots_safe (cells : List (ℕ × Fragment)) :
    let state := reassemble cells
    (∀ slot ∈ state, slot.active → slot.buffer.length ≤ moorMaxReassembly ∧
      slot.expectedTotal.toNat ≤ moorMaxReassembly) ∧
    Slots.Keyed Reassembly.active Reassembly.fragmentId state ∧
    ∀ cell : ℕ × Fragment,
      (∀ cmd data, (receiveCell state cell).2 = .complete cmd data →
        data.length = (fragmentHeader cell.2.data).totalLen.toNat) ∧
      ∀ (i : ℕ) slot, state[i]? = some slot → slot.active →
        slot.fragmentId ≠ (fragmentHeader cell.2.data).fragmentId →
        cell.1 - slot.startedAt ≤ moorFragmentTimeoutMs →
        (receiveCell state cell).1[i]? = some slot := by
  have h := slotsSound_reassemble cells
  refine ⟨h.bounded, h.keyed, fun cell => ?_⟩
  obtain ⟨hcases, hdone⟩ := h.receive_cases cell
  refine ⟨hdone, fun i slot hslot hact hid hearly => ?_⟩
  have hkept : (expireSlots cell.1 (reassemble cells))[i]? = some slot := by
    rw [expireSlots, getElem?_map, hslot, Option.map_some,
      if_neg fun hlate => not_le.mpr hlate.2 hearly]
  rcases hcases with hsame | hsame | ⟨k, new, hset, -, -, -, hfor⟩
  · exact (congrArg (·[i]?) hsame).trans hslot
  · exact (congrArg (·[i]?) hsame).trans hkept
  · refine (congrArg (·[i]?) hset).trans ((getElem?_set_ne ?_).trans hkept)
    rintro rfl
    exact hid ((hfor k slot hkept hact).mpr rfl)

/-- A slot in use may hold more than was announced, and a cell that is rejected may give up the
slot of another identifier. -/
theorem fragment_over_announced :
    let first : ℕ × Fragment := (0, ⟨relayFragment, 0, fragmentBytes 1 0 1 relayExtendPq [7, 7]⟩)
    let late : ℕ × Fragment := (30001, ⟨relayFragment, 0, fragmentBytes 2 1 1 relayExtendPq []⟩)
    (∃ slot ∈ reassemble [first], slot.active ∧
      slot.expectedTotal.toNat < slot.buffer.length) ∧
    (receiveCell (reassemble [first]) late).2 = .error ∧
    (reassemble [first])[0]?.map (·.fragmentId) = some 1 ∧
    (receiveCell (reassemble [first]) late).1[0]? ≠ (reassemble [first])[0]? := by
  decide +kernel

end Moor
