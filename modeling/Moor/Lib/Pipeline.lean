import Mathlib.Data.List.Basic

/-!
# Pipelines

A pipeline is a row of stages. Each stage has a state and a first-in first-out queue of the items
on their way to it; when it takes an item it either passes an item on to the stage behind it, or
keeps a result. The stages move in any order.

`flush` lets everything that is under way go through. It does not depend on the order in which the
stages move (`flush_advance`), and one more item goes through the pipeline as it goes through the
flushed one (`flush_append`). A property of the flushed pipeline can therefore be proved one item
at a time.
-/

namespace Pipeline

open List

/-- A stage: its state, the items on their way to it, and the results it has kept. -/
structure Stage (σ α β : Type*) where
  state : σ
  queue : List α
  kept : List β
  deriving DecidableEq

variable {σ α β : Type*}

/-- A stage that has kept nothing, with nothing on its way to it. -/
def Stage.idle (s : σ) : Stage σ α β := ⟨s, [], []⟩

/-- Items that arrive at the first stage. Without a stage they leave the pipeline. -/
def enqueue (xs : List α) : List (Stage σ α β) → List (Stage σ α β) × List α
  | [] => ([], xs)
  | a :: rest => ({ a with queue := a.queue ++ xs } :: rest, [])

/-- A stage emits an item of its own towards the stage behind it. -/
def emit (make : σ → Option (σ × α)) :
    ℕ → List (Stage σ α β) → Option (List (Stage σ α β) × List α)
  | _, [] => none
  | 0, a :: rest =>
    match make a.state with
    | none => none
    | some (s, y) =>
      let (rest', out) := enqueue [y] rest
      some ({ a with state := s } :: rest', out)
  | i + 1, a :: rest =>
    match emit make i rest with
    | none => none
    | some (rest', out) => some (a :: rest', out)

section Work

variable (work : σ → α → σ × (α ⊕ β))

/-- A stage takes the first item of its queue. -/
def advance : ℕ → List (Stage σ α β) → Option (List (Stage σ α β) × List α)
  | _, [] => none
  | 0, a :: rest =>
    match a.queue with
    | [] => none
    | x :: q =>
      match work a.state x with
      | (s, .inr b) => some (⟨s, q, a.kept ++ [b]⟩ :: rest, [])
      | (s, .inl y) =>
        let (rest', out) := enqueue [y] rest
        some (⟨s, q, a.kept⟩ :: rest', out)
  | i + 1, a :: rest =>
    match advance i rest with
    | none => none
    | some (rest', out) => some (a :: rest', out)

/-- A state takes items one after the other: the state then, what it passes on and what it keeps. -/
def feed : σ → List α → σ × List α × List β
  | s, [] => (s, [], [])
  | s, x :: xs =>
    match work s x with
    | (s', .inl y) => let (t, out, kept) := feed s' xs; (t, y :: out, kept)
    | (s', .inr b) => let (t, out, kept) := feed s' xs; (t, out, b :: kept)

/-- Everything under way, and the given items after it, goes through: the stages then, and what
leaves the pipeline. -/
def flush : List α → List (Stage σ α β) → List (Stage σ α β) × List α
  | xs, [] => ([], xs)
  | xs, a :: rest =>
    let (s, out, kept) := feed work a.state (a.queue ++ xs)
    let (rest', leaving) := flush out rest
    (⟨s, [], a.kept ++ kept⟩ :: rest', leaving)

variable {work}

theorem feed_append (s : σ) (xs ys : List α) :
    feed work s (xs ++ ys) =
      ((feed work (feed work s xs).1 ys).1,
        (feed work s xs).2.1 ++ (feed work (feed work s xs).1 ys).2.1,
        (feed work s xs).2.2 ++ (feed work (feed work s xs).1 ys).2.2) := by
  induction xs generalizing s with
  | nil => rfl
  | cons x xs ih =>
    rw [cons_append, feed, feed]
    rcases hx : work s x with ⟨s', y | b⟩ <;> simp [ih]

/-- Items that arrive at the first stage are under way. -/
theorem flush_enqueue (xs ys : List α) (stages : List (Stage σ α β)) :
    flush work (xs ++ ys) stages =
      ((flush work ys (enqueue xs stages).1).1,
        (enqueue xs stages).2 ++ (flush work ys (enqueue xs stages).1).2) := by
  cases stages with
  | nil => rfl
  | cons a rest => simp [enqueue, flush]

variable {stages : List (Stage σ α β)} {out : List α}

/-- Flushing does not depend on which stage moves first. -/
theorem flush_advance {i : ℕ} {stages' : List (Stage σ α β)} (xs : List α)
    (h : advance work i stages = some (stages', out)) :
    flush work xs stages = ((flush work xs stages').1, out ++ (flush work xs stages').2) := by
  induction stages generalizing i stages' out xs with
  | nil => simp [advance] at h
  | cons a rest ih =>
    cases i with
    | zero =>
      rw [advance] at h
      cases hq : a.queue with
      | nil => simp [hq] at h
      | cons x q =>
        rcases hx : work a.state x with ⟨s, y | b⟩
        · simp only [hq, hx, Option.some_inj, Prod.mk.injEq] at h
          obtain ⟨rfl, rfl⟩ := h
          simp only [flush, feed, hq, hx, cons_append]
          have hcons (ys : List α) : y :: ys = [y] ++ ys := rfl
          rw [hcons, flush_enqueue]
        · simp only [hq, hx, Option.some_inj, Prod.mk.injEq] at h
          obtain ⟨rfl, rfl⟩ := h
          simp only [flush, feed, hq, hx, cons_append, append_assoc, nil_append]
    | succ i =>
      rw [advance] at h
      cases hrest : advance work i rest with
      | none => simp [hrest] at h
      | some r =>
        simp only [hrest, Option.some_inj, Prod.mk.injEq] at h
        obtain ⟨rfl, rfl⟩ := h
        simp only [flush]
        rw [ih _ hrest]

/-- A first stage with nothing on its way to it does not move. -/
theorem head_advance {i : ℕ} {stages' : List (Stage σ α β)}
    (h : advance work i stages = some (stages', out)) (hq : ∀ a ∈ stages.head?, a.queue = []) :
    stages'.head? = stages.head? := by
  cases stages with
  | nil => simp [advance] at h
  | cons a rest =>
    have hqueue : a.queue = [] := hq a rfl
    cases i with
    | zero => simp [advance, hqueue] at h
    | succ i =>
      rw [advance] at h
      cases hrest : advance work i rest with
      | none => simp [hrest] at h
      | some r =>
        simp only [hrest, Option.some_inj, Prod.mk.injEq] at h
        rw [← h.1]
        rfl

/-- Items go through one after the other. -/
theorem flush_append (xs ys : List α) (stages : List (Stage σ α β)) :
    flush work (xs ++ ys) stages =
      ((flush work ys (flush work xs stages).1).1,
        (flush work xs stages).2 ++ (flush work ys (flush work xs stages).1).2) := by
  induction stages generalizing xs ys with
  | nil => rfl
  | cons a rest ih =>
    simp only [flush, ← append_assoc, nil_append]
    rw [feed_append]
    simp [ih]

/-- One more item that arrives goes through the flushed pipeline. -/
theorem flush_enqueue_singleton (x : α) (stages : List (Stage σ α β)) :
    (flush work [] (enqueue [x] stages).1).1 = (flush work [x] (flush work [] stages).1).1 ∧
      (enqueue [x] stages).2 ++ (flush work [] (enqueue [x] stages).1).2 =
        (flush work [] stages).2 ++ (flush work [x] (flush work [] stages).1).2 := by
  have h := (@flush_enqueue _ _ _ work [x] [] stages).symm.trans (flush_append [] [x] stages)
  exact Prod.ext_iff.mp h

/-- A pipeline with nothing under way is flushed. -/
theorem flush_of_queue_eq_nil (h : ∀ a ∈ stages, a.queue = []) :
    flush work [] stages = (stages, []) := by
  induction stages with
  | nil => rfl
  | cons a rest ih =>
    rcases a with ⟨s, q, kept⟩
    obtain rfl : q = [] := h _ mem_cons_self
    simp [flush, feed, ih fun b hb => h b (mem_cons_of_mem _ hb)]

/-- Flushing feeds every stage the items that are still to reach it. -/
theorem flush_forall₂ (xs : List α) (stages : List (Stage σ α β)) :
    List.Forall₂ (fun a b => ∃ ys, b.state = (feed work a.state ys).1 ∧
      b.kept = a.kept ++ (feed work a.state ys).2.2) stages (flush work xs stages).1 := by
  induction stages generalizing xs with
  | nil => exact .nil
  | cons a rest ih => exact .cons ⟨a.queue ++ xs, rfl, rfl⟩ (ih _)

end Work

end Pipeline
