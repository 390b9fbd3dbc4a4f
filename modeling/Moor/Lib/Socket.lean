import Mathlib.Data.List.Basic

/-!
# Writing to a socket that takes what it likes

A non-blocking socket takes any part of what it is offered, from the front, or refuses. A writer
offers the rest again until all is taken or the socket refuses. What is left waits in a queue, whose
first item may be partly written; the queue is flushed when the socket can be written to again.
-/

namespace Socket

open List

/-- What the socket answers when it is offered some items. -/
inductive Answer
  /-- It takes at most this many. -/
  | took (n : ℕ)
  /-- It takes nothing now. -/
  | again
  /-- It is broken. -/
  | failed
  deriving DecidableEq

variable {α : Type*}

/-- What became of an offer: the part that was taken, the rest, and whether the socket broke. -/
structure Offer (α : Type*) where
  taken : List α
  rest : List α
  broken : Bool

/-- Offers the items until all are taken or the socket refuses. Without an answer it refuses. -/
def sendAll : List Answer → List α → Offer α
  | _, [] => ⟨[], [], false⟩
  | [], x :: xs => ⟨[], x :: xs, false⟩
  | .again :: _, x :: xs => ⟨[], x :: xs, false⟩
  | .failed :: _, x :: xs => ⟨[], x :: xs, true⟩
  | .took n :: answers, x :: xs =>
    if n = 0 then ⟨[], x :: xs, false⟩
    else
      let r := sendAll answers ((x :: xs).drop n)
      { r with taken := (x :: xs).take n ++ r.taken }

/-- What is taken and the rest are the items in their order. -/
theorem sendAll_taken_append_rest (answers : List Answer) (xs : List α) :
    (sendAll answers xs).taken ++ (sendAll answers xs).rest = xs := by
  induction answers generalizing xs with
  | nil => cases xs <;> rfl
  | cons a answers ih =>
    cases xs with
    | nil => cases a <;> rfl
    | cons x xs =>
      cases a with
      | again => rfl
      | failed => rfl
      | took n =>
        by_cases hn : n = 0
        · simp [sendAll, hn]
        · simp [sendAll, if_neg hn, ih]

/-- A socket that takes as much as it is offered takes all. -/
theorem sendAll_took_of_length_le {n : ℕ} {xs : List α} (h : xs.length ≤ n) :
    sendAll [.took n] xs = ⟨xs, [], false⟩ := by
  cases xs with
  | nil => rfl
  | cons x xs =>
    have hn : n ≠ 0 := by
      rw [length_cons] at h
      omega
    simp only [sendAll, if_neg hn, drop_of_length_le h, take_of_length_le h, append_nil]

/-- A socket whose first answer takes nothing. -/
def Refuses : List Answer → Prop
  | .took n :: _ => n = 0
  | _ => True

instance : DecidablePred Refuses
  | [] => .isTrue trivial
  | .took n :: _ => inferInstanceAs (Decidable (n = 0))
  | .again :: _ => .isTrue trivial
  | .failed :: _ => .isTrue trivial

theorem sendAll_taken_of_refuses {answers : List Answer} (h : Refuses answers) (xs : List α) :
    (sendAll answers xs).taken = [] := by
  cases answers with
  | nil => cases xs <;> rfl
  | cons a answers =>
    cases xs with
    | nil => cases a <;> rfl
    | cons x xs =>
      cases a with
      | again => rfl
      | failed => rfl
      | took n =>
        have hn : n = 0 := h
        simp [sendAll, hn]

/-! ### The queue -/

/-- Items waiting in their order; of the first, `off` elements are written already. -/
structure Queue (α : Type*) where
  items : List (List α)
  off : ℕ

namespace Queue

/-- What is still to be written. -/
def pending (q : Queue α) : List α := q.items.flatten.drop q.off

/-- No item is empty, and of the first something is left. -/
structure Valid (q : Queue α) : Prop where
  ne_nil : ∀ x ∈ q.items, x ≠ []
  off_lt : q.items = [] ∧ q.off = 0 ∨ ∃ x rest, q.items = x :: rest ∧ q.off < x.length

/-- Puts an item at the end. -/
def push (q : Queue α) (x : List α) : Queue α := ⟨q.items ++ [x], q.off⟩

/-- Offers the items one after the other, each once, until one is not taken to its end. -/
def flush : List Answer → Queue α → List α × Queue α
  | .took n :: answers, ⟨x :: rest, off⟩ =>
    if n = 0 then ([], ⟨x :: rest, off⟩)
    else
      let taken := (x.drop off).take n
      if x.length ≤ off + taken.length then
        let r := flush answers ⟨rest, 0⟩
        (taken ++ r.1, r.2)
      else (taken, ⟨x :: rest, off + taken.length⟩)
  | _, q => ([], q)

theorem valid_empty : Valid (⟨[], 0⟩ : Queue α) := ⟨by simp, .inl ⟨rfl, rfl⟩⟩

variable {q : Queue α} {x : List α}

theorem off_le_length (h : q.Valid) : q.off ≤ q.items.flatten.length := by
  rcases h.off_lt with ⟨-, hoff⟩ | ⟨x, rest, hitems, hoff⟩
  · omega
  · rw [hitems, flatten_cons, length_append]
    omega

/-- What is pushed is written after what is pending. -/
theorem pending_push (h : q.Valid) (x : List α) : (q.push x).pending = q.pending ++ x := by
  simp [pending, push, drop_append_of_le_length (off_le_length h)]

theorem Valid.push (h : q.Valid) (hx : x ≠ []) : (q.push x).Valid := by
  refine ⟨?_, .inr ?_⟩
  · exact forall_mem_append.mpr ⟨h.ne_nil, forall_mem_singleton.mpr hx⟩
  · rcases h.off_lt with ⟨hitems, hoff⟩ | ⟨y, rest, hitems, hoff⟩
    · refine ⟨x, [], by simp [Queue.push, hitems], ?_⟩
      rw [Queue.push, hoff]
      exact length_pos_iff.mpr hx
    · exact ⟨y, rest ++ [x], by simp [Queue.push, hitems], hoff⟩

theorem Valid.tail {rest : List (List α)} {off : ℕ} (h : Valid ⟨x :: rest, off⟩) :
    Valid (⟨rest, 0⟩ : Queue α) := by
  have hrest : ∀ y ∈ rest, y ≠ [] := fun y hy => h.ne_nil y (mem_cons_of_mem x hy)
  refine ⟨hrest, ?_⟩
  cases rest with
  | nil => exact .inl ⟨rfl, rfl⟩
  | cons y rest => exact .inr ⟨y, rest, rfl, length_pos_iff.mpr (hrest y (by simp))⟩

/-- A flush writes from the front of what is pending, and keeps the rest. -/
theorem flush_spec (answers : List Answer) (h : q.Valid) :
    (flush answers q).1 ++ (flush answers q).2.pending = q.pending ∧ (flush answers q).2.Valid := by
  fun_induction flush answers q with
  | case1 => exact ⟨rfl, h⟩
  | case2 n answers x rest off hn taken hall r ih =>
    obtain ⟨hpend, hvalid⟩ := ih h.tail
    have htaken : taken = x.drop off := by
      refine take_of_length_le ?_
      have hlen : taken.length ≤ n := length_take_le ..
      have hdrop : (x.drop off).length = x.length - off := length_drop ..
      omega
    refine ⟨?_, hvalid⟩
    rcases h.off_lt with ⟨hnil, -⟩ | ⟨y, rest', hitems, hoff⟩
    · simp at hnil
    · obtain ⟨rfl, rfl⟩ := cons.inj hitems
      simp only [pending, flatten_cons, drop_zero] at hpend hoff ⊢
      rw [append_assoc, hpend, htaken, drop_append_of_le_length (by omega)]
  | case3 n answers x rest off hn taken hmore =>
    have hsum : taken ++ (x.drop off).drop taken.length = x.drop off :=
      prefix_iff_eq_append.mp (List.take_prefix ..)
    refine ⟨?_, h.ne_nil, .inr ⟨x, rest, rfl, Nat.lt_of_not_le hmore⟩⟩
    rw [drop_drop] at hsum
    simp only [pending, flatten_cons]
    rw [drop_append_of_le_length (by omega), drop_append_of_le_length (by omega),
      ← append_assoc, hsum]
  | case4 => exact ⟨rfl, h⟩

end Queue

end Socket
