import Moor.Circuit.Conflux

/-!
# Sending over several legs

The sender of a set cuts its data into cells, takes a number for each and hands it to a leg. When a
leg fails the call fails, with the number taken and the cells before it already sent.
-/

namespace Moor

open Codec List

/-- What the sender reads of a set, apart from the choice of legs. -/
structure ConfluxSender where
  nextSendSeq : UInt64
  seqKey : Field 32

/-- A cell that was handed to a leg, with the place of its bytes in the data of the caller. -/
structure ConfluxCell where
  offset : ℕ
  leg : ℕ
  encSeq : UInt64
  streamId : UInt16
  data : Bytes

/-- What comes of a call: the sender, the cells that were sent, and whether the call reports
success. -/
structure ConfluxSent where
  sender : ConfluxSender
  cells : List ConfluxCell
  done : Bool

/-- The loop over the data from an offset on. Each round selects a leg, if there is one, and the
cell can be encrypted and sent or not. -/
def confluxSendFrom (C : Crypto) (streamId : UInt16) :
    List (Option ℕ × Bool) → ℕ → Bytes → ConfluxSender → ConfluxSent
  | rounds, offset, data, s =>
    if data = [] then ⟨s, [], true⟩
    else
      match rounds with
      | [] | (none, _) :: _ => ⟨s, [], false⟩
      | (some leg, sends) :: rounds =>
        let chunk := data.take (moorRelayData - 8)
        let seq := s.nextSendSeq
        if seq = uint64Max then ⟨s, [], false⟩
        else
          let s := { s with nextSendSeq := seq + 1 }
          let cell := ⟨offset, leg, feistelEncrypt C s.seqKey seq, streamId, chunk⟩
          if !sends then ⟨s, [], false⟩
          else
            let rest := confluxSendFrom C streamId rounds (offset + chunk.length)
              (data.drop (moorRelayData - 8)) s
            { rest with cells := cell :: rest.cells }

def moorConfluxSendData (C : Crypto) (streamId : UInt16) (rounds : List (Option ℕ × Bool))
    (data : Bytes) (s : ConfluxSender) : ConfluxSent :=
  confluxSendFrom C streamId rounds 0 data s

def ConfluxSender.left (s : ConfluxSender) : ℕ := 2 ^ 64 - 1 - s.nextSendSeq.toNat

/-- Round after round finds a leg and sends, up to the end of the data or of the numbers. -/
def sendsAll : List (Option ℕ × Bool) → ℕ → ℕ → Bool
  | rounds, len, left =>
    decide (len = 0 ∨ left = 0) ||
      match rounds with
      | [] | (none, _) :: _ => false
      | (some _, sends) :: rounds => sends && sendsAll rounds (len - (moorRelayData - 8)) (left - 1)

section Loop

variable (C : Crypto) (streamId : UInt16) (rounds : List (Option ℕ × Bool)) (offset : ℕ)
  (data : Bytes) (s : ConfluxSender)

theorem ConfluxSender.left_eq_zero_iff : s.left = 0 ↔ s.nextSendSeq = uint64Max := by
  rw [← UInt64.toNat_inj, left]
  have hlt := s.nextSendSeq.toNat_lt
  have hmax : uint64Max.toNat = 2 ^ 64 - 1 := rfl
  omega

theorem ConfluxSender.left_next (h : s.nextSendSeq ≠ uint64Max) :
    ({ s with nextSendSeq := s.nextSendSeq + 1 } : ConfluxSender).left = s.left - 1 := by
  rw [left, left, toNat_add_one h, Nat.sub_add_eq]

theorem offset_mem_cells {leg : ℕ} (hdata : data ≠ []) (hmax : s.nextSendSeq ≠ uint64Max) :
    offset ∈ (confluxSendFrom C streamId ((some leg, true) :: rounds) offset data s).cells.map
      (·.offset) := by
  simp [confluxSendFrom, hdata, hmax]

/-- What is true of a call, from the rounds that it meets. -/
structure SentSpec (r : ConfluxSent) : Prop where
  numbers : r.cells.map (fun c => (feistelDecrypt C s.seqKey c.encSeq).toNat) =
    range' s.nextSendSeq.toNat r.cells.length
  sorted : (r.cells.map (·.offset)).Pairwise (· < ·)
  offset_le : ∀ c ∈ r.cells, offset ≤ c.offset
  taken : r.sender.left + r.cells.length ≤ s.left
  all : sendsAll rounds data.length s.left = true →
    (r.done = true ∨ r.sender.left = 0) ∧ s.left = r.sender.left + r.cells.length
  stuck : sendsAll rounds data.length s.left = false →
    r.done = false ∧ (s.left = r.sender.left + r.cells.length → r.sender.left ≠ 0)

theorem sentSpec :
    SentSpec C rounds offset data s (confluxSendFrom C streamId rounds offset data s) := by
  induction rounds generalizing offset data s with
  | nil =>
    rw [confluxSendFrom]
    by_cases hdata : data = [] <;> by_cases hleft : s.left = 0 <;>
      constructor <;> simp [hdata, hleft, sendsAll]
  | cons round rounds ih =>
    obtain ⟨_ | leg, sends⟩ := round <;> rw [confluxSendFrom]
    · by_cases hdata : data = [] <;> by_cases hleft : s.left = 0 <;>
        constructor <;> simp [hdata, hleft, sendsAll]
    by_cases hdata : data = []
    · constructor <;> simp [hdata, sendsAll]
    by_cases hmax : s.nextSendSeq = uint64Max
    · constructor <;> simp [hdata, hmax, s.left_eq_zero_iff.mpr hmax, sendsAll]
    have hleft := mt s.left_eq_zero_iff.mp hmax
    have hnext := s.left_next hmax
    cases sends
    · constructor <;> simp [hdata, hmax, hleft, hnext, sendsAll]
      omega
    have hrest := ih (offset + (data.take (moorRelayData - 8)).length)
      (data.drop (moorRelayData - 8)) { s with nextSendSeq := s.nextSendSeq + 1 }
    simp only [hdata, hmax, if_false, Bool.not_true, Bool.false_eq_true]
    generalize confluxSendFrom C streamId rounds _ _ _ = rest at hrest ⊢
    obtain ⟨hnumbers, hsorted, hfrom, htaken, hall, hstuck⟩ := hrest
    have hchunk : 0 < (data.take (moorRelayData - 8)).length := by
      simpa [moorRelayData] using length_pos_of_ne_nil hdata
    simp only [length_drop, hnext] at htaken hall hstuck
    constructor
    · simpa [toNat_add_one hmax, range'_succ] using hnumbers
    · simp only [map_cons, pairwise_cons, mem_map]
      refine ⟨?_, hsorted⟩
      rintro _ ⟨c, hc, rfl⟩
      have := hfrom c hc
      omega
    · simp only [mem_cons]
      rintro c (rfl | hc)
      · exact le_rfl
      · exact (Nat.le_add_right _ _).trans (hfrom c hc)
    · simp only [length_cons]
      omega
    · intro h
      simp [hdata, hleft, sendsAll] at h
      have := hall h
      simp only [length_cons]
      exact ⟨this.1, by omega⟩
    · intro h
      simp [hdata, hleft, sendsAll] at h
      have := hstuck h
      simp only [length_cons]
      exact ⟨this.1, fun heq => this.2 (by omega)⟩

/-- When a call fails, the receiver finds every number that was taken on a cell that was sent, and
a cell that was sent is not sent again when the call is repeated. -/
structure SendAtomic : Prop where
  transmitted : let r := moorConfluxSendData C streamId rounds data s
    r.done = false → r.cells.map (fun c => (feistelDecrypt C s.seqKey c.encSeq).toNat) =
      range' s.nextSendSeq.toNat (s.left - r.sender.left)
  once : let r := moorConfluxSendData C streamId rounds data s
    r.done = false → ∀ retry, ((r.cells ++
      (moorConfluxSendData C streamId retry data r.sender).cells).map (·.offset)).Nodup

/-- Sending is atomic if and only if the call sends everything, comes to the end of the numbers, or
finds no leg at once. -/
theorem conflux_send_atomic_iff : SendAtomic C streamId rounds data s ↔
    sendsAll rounds data.length s.left = true ∨ rounds.head?.bind (·.1) = none := by
  have hspec := sentSpec C streamId rounds 0 data s
  have htaken := hspec.taken
  have hretried (retry : List (Option ℕ × Bool)) (s' : ConfluxSender) :=
    sentSpec C streamId retry 0 data s'
  constructor
  · rintro ⟨htransmitted, honce⟩
    by_contra hnot
    obtain ⟨hall, hleg⟩ := not_or.mp hnot
    obtain ⟨hfails, hmore⟩ := hspec.stuck (Bool.not_eq_true _ ▸ hall)
    have hlen := congrArg length (htransmitted hfails)
    simp only [length_map, length_range', moorConfluxSendData] at hlen
    have hleft := hmore (by omega)
    -- The number of the first cell was taken, and the cell is sent again by a call that has a leg.
    obtain ⟨leg, sends, rest, rfl⟩ : ∃ leg sends rest, rounds = (some leg, sends) :: rest := by
      match rounds, hleg with
      | (some leg, sends) :: rest, _ => exact ⟨leg, sends, rest, rfl⟩
    simp only [sendsAll, Bool.or_eq_true, decide_eq_true_eq, length_eq_zero_iff, not_or] at hall
    obtain ⟨⟨hdata, hnumbers⟩, -⟩ := hall
    have hmax := mt s.left_eq_zero_iff.mpr hnumbers
    cases sends
    · have hnext := s.left_next hmax
      simp [confluxSendFrom, hdata, hmax] at hlen
      omega
    have hagain := honce hfails [(some leg, true)]
    have hmax' := mt (ConfluxSender.left_eq_zero_iff _).mpr hleft
    rw [map_append] at hagain
    exact (nodup_append.mp hagain).2.2 0 (offset_mem_cells _ _ _ _ _ _ hdata hmax) 0
      (offset_mem_cells _ _ _ _ _ _ hdata hmax') rfl
  · rintro (hall | hleg)
    · obtain ⟨hends, hleft⟩ := hspec.all hall
      refine ⟨fun hfails => ?_, fun hfails retry => ?_⟩
      · have hlen : s.left - (confluxSendFrom C streamId rounds 0 data s).sender.left =
            (confluxSendFrom C streamId rounds 0 data s).cells.length := by omega
        simpa [moorConfluxSendData, hlen] using hspec.numbers
      have hnone := (hretried retry (confluxSendFrom C streamId rounds 0 data s).sender).taken
      simp only [moorConfluxSendData] at hfails ⊢
      have hzero := hends.resolve_left (by simp [hfails])
      rw [hzero] at hnone
      rw [eq_nil_of_length_eq_zero (Nat.eq_zero_of_add_eq_zero_left (Nat.le_zero.mp hnone)),
        append_nil]
      exact hspec.sorted.imp fun h => h.ne
    · obtain ⟨done, hr⟩ : ∃ done, confluxSendFrom C streamId rounds 0 data s = ⟨s, [], done⟩ := by
        match rounds, hleg with
        | [], _ => rw [confluxSendFrom]; split <;> exact ⟨_, rfl⟩
        | (none, _) :: _, _ => rw [confluxSendFrom]; split <;> exact ⟨_, rfl⟩
      refine ⟨fun _ => ?_, fun _ retry => ?_⟩
      · simp [moorConfluxSendData, hr]
      · simp only [moorConfluxSendData, hr, nil_append]
        exact (hretried retry s).sorted.imp fun h => h.ne

end Loop

/-- The second of two cells cannot be sent: its number is lost, and the first 490 bytes go out
again. -/
theorem conflux_send_loses_number :
    let s : ConfluxSender := ⟨0, Field.zero 32⟩
    let data : Bytes := List.replicate 500 7
    let r := moorConfluxSendData Crypto.sample 1 [(some 0, true), (some 0, false)] data s
    let again := moorConfluxSendData Crypto.sample 1 [(some 0, true), (some 0, true)] data r.sender
    r.done = false ∧ r.cells.length = 1 ∧ r.sender.nextSendSeq = 2 ∧
      again.done = true ∧ (r.cells ++ again.cells).map (·.offset) = [0, 0, 490] := by
  decide +kernel

end Moor
