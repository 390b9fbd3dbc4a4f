import Mathlib.Tactic.TypeStar

/-!
# Programs that change a state and may fail

A program takes a state, leaves a state, and returns a value unless it fails; what it did before it
failed stays done. A specification says what holds of the value and the state where the program
returns, and of the state where it fails.
-/

/-- A program on states `S` that returns a value of `α` unless it fails. -/
def Prog (S : Type*) (α : Type) := S → Option α × S

namespace Prog

variable {S : Type*} {α β : Type}

instance : Monad (Prog S) where
  pure a := fun s => (some a, s)
  bind p f := fun s =>
    match p s with
    | (none, s') => (none, s')
    | (some a, s') => f a s'

/-- Fails unless the condition holds. -/
def require (c : Prop) [Decidable c] : Prog S Unit :=
  fun s => (if c then some () else none, s)

/-- Returns the value, if there is one. -/
def lift (x : Option α) : Prog S α := fun s => (x, s)

/-- Returns what is read from the state. -/
def read (f : S → α) : Prog S α := fun s => (some (f s), s)

def modify (f : S → S) : Prog S Unit := fun s => (some (), f s)

/-- Runs a program for each element of a list. -/
def forEach (f : α → Prog S Unit) : List α → Prog S Unit
  | [] => pure ()
  | x :: xs => do
    f x
    forEach f xs

/-- Runs a program and tells whether it returned. -/
def attempt (p : Prog S α) : Prog S Bool := fun s => (some (p s).1.isSome, (p s).2)

/-- Run in `s`, the program returns with `Q` or fails with `E`. -/
def Spec (p : Prog S α) (Q : α → S → Prop) (E : S → Prop) (s : S) : Prop :=
  match p s with
  | (some a, s') => Q a s'
  | (none, s') => E s'

section Spec

variable {p : Prog S α} {f : α → Prog S β} {Q Q' : α → S → Prop} {R : β → S → Prop}
  {E E' : S → Prop} {s s' : S} {a : α}

/-- A program that returns is followed by what comes next. -/
theorem bind_of_returns (h : p s = (some a, s')) : (p >>= f) s = f a s' := by
  change (match p s with
    | (none, s') => (none, s')
    | (some a, s') => f a s') = f a s'
  rw [h]

theorem require_of {c : Prop} [Decidable c] (h : c) : require c s = (some (), s) := by
  rw [require, if_pos h]

theorem Spec.of_returns (h : Spec p Q E s) (hp : p s = (some a, s')) : Q a s' := by
  rw [Spec, hp] at h
  exact h

theorem Spec.mono (h : Spec p Q E s) (hQ : ∀ a s', Q a s' → Q' a s') (hE : ∀ s', E s' → E' s') :
    Spec p Q' E' s := by
  rw [Spec] at h ⊢
  split at h
  · exact hQ _ _ h
  · exact hE _ h

/-- Nothing need hold where the program fails. -/
theorem Spec.ignoreFailure (h : Spec p Q E s) : Spec p Q (fun _ => True) s :=
  h.mono (fun _ _ hQ => hQ) fun _ _ => trivial

/-- The specification may speak of the run itself. -/
theorem Spec.and_result (h : Spec p Q E s) :
    Spec p (fun a s' => Q a s' ∧ p s = (some a, s')) (fun s' => E s' ∧ p s = (none, s')) s := by
  rw [Spec] at h ⊢
  rcases hp : p s with ⟨_ | a, s'⟩
  · rw [hp] at h
    exact ⟨h, rfl⟩
  · rw [hp] at h
    exact ⟨h, rfl⟩

theorem Spec.bind (hp : Spec p Q E s) (hf : ∀ a s', Q a s' → Spec (f a) R E s') :
    Spec (p >>= f) R E s := by
  rw [Spec] at hp
  change match (match p s with
    | (none, s') => (none, s')
    | (some a, s') => f a s') with
    | (some b, s') => R b s'
    | (none, s') => E s'
  cases hps : p s with
  | mk result s' =>
    rw [hps] at hp
    cases result with
    | none => exact hp
    | some a => exact hf a s' hp

theorem spec_pure (h : Q a s) : Spec (pure a) Q E s := h

theorem spec_read {g : S → α} (h : Q (g s) s) : Spec (read g) Q E s := h

theorem spec_modify {g : S → S} {Q : Unit → S → Prop} (h : Q () (g s)) : Spec (modify g) Q E s := h

theorem spec_require {c : Prop} [Decidable c] {Q : Unit → S → Prop} (h : c → Q () s)
    (hE : ¬c → E s) : Spec (require c) Q E s := by
  by_cases hc : c
  · simpa [Spec, require, hc] using h hc
  · simpa [Spec, require, hc] using hE hc

theorem spec_lift {x : Option α} (h : ∀ a, x = some a → Q a s) (hE : x = none → E s) :
    Spec (lift x) Q E s := by
  cases x with
  | none => exact hE rfl
  | some a => exact h a rfl

theorem spec_attempt {Q : Bool → S → Prop} (h : Spec p (fun _ => Q true) (Q false) s) :
    Spec (attempt p) Q E s := by
  rw [Spec] at h
  rw [Spec, attempt]
  cases hp : p s with
  | mk result s' =>
    rw [hp] at h
    cases result with
    | none => exact h
    | some a => exact h

end Spec

/-! ### Programs that stay within a relation -/

/-- Whatever the program does, it stays within the relation to an earlier state. -/
def Within (R : S → S → Prop) (p : Prog S α) : Prop :=
  ∀ s₀ s, R s₀ s → Spec p (fun _ => R s₀) (R s₀) s

section Within

variable {R : S → S → Prop} {p : Prog S α} {f : α → Prog S β}

theorem Within.bind (hp : Within R p) (hf : ∀ a, Within R (f a)) : Within R (p >>= f) :=
  fun s₀ s hs => (hp s₀ s hs).bind fun a s' => hf a s₀ s'

theorem within_pure (a : α) : Within R (pure a) := fun _ _ hs => hs

theorem within_read (g : S → α) : Within R (read g) := fun _ _ hs => hs

theorem within_require (c : Prop) [Decidable c] : Within R (require c) :=
  fun _ _ hs => spec_require (fun _ => hs) fun _ => hs

theorem within_lift (x : Option α) : Within R (lift x) :=
  fun _ _ hs => spec_lift (fun _ _ => hs) fun _ => hs

theorem within_forEach {g : α → Prog S Unit} (hg : ∀ a, Within R (g a)) (xs : List α) :
    Within R (forEach g xs) := by
  induction xs with
  | nil => exact within_pure ()
  | cons x xs ih => exact (hg x).bind fun _ => ih

end Within

end Prog
