import Mathlib.Tactic.TypeStar

/-!
# Runs of a step function

A system is given by a step function on its states, which may refuse an action. A run takes a list
of actions one after the other; an invariant of the steps is an invariant of the runs.
-/

namespace Run

variable {S A : Type*} (step : S → A → Option S)

/-- The state after a list of actions, if every one of them can be taken. -/
def run : S → List A → Option S
  | s, [] => some s
  | s, a :: as =>
    match step s a with
    | none => none
    | some s' => run s' as

/-- Every action of the list meets the condition in the state in which it is taken. -/
def Along (P : S → A → Prop) : S → List A → Prop
  | _, [] => True
  | s, a :: as => P s a ∧ ∀ s', step s a = some s' → Along P s' as

/-- The condition on the actions of a list can be tested if that on one action can. -/
instance decidableAlong (P : S → A → Prop) [∀ s a, Decidable (P s a)] :
    ∀ s as, Decidable (Along step P s as)
  | _, [] => .isTrue trivial
  | s, a :: as =>
    match h : step s a with
    | none => decidable_of_iff (P s a) (by simp [Along, h])
    | some s' =>
      have := decidableAlong P s' as
      decidable_of_iff (P s a ∧ Along step P s' as) (by simp [Along, h])

variable {step}

variable {as : List A}

theorem run_append {s s' : S} (h : run step s as = some s') (bs : List A) :
    run step s (as ++ bs) = run step s' bs := by
  induction as generalizing s with
  | nil =>
    cases h
    rfl
  | cons a as ih =>
    rw [run] at h
    cases hnext : step s a with
    | none => simp [hnext] at h
    | some t =>
      rw [hnext] at h
      rw [List.cons_append, run, hnext]
      exact ih h

/-- A step function that never refuses is folded over the actions. -/
theorem run_some (f : S → A → S) (s : S) (as : List A) :
    run (fun s a => some (f s a)) s as = some (as.foldl f s) := by
  induction as generalizing s with
  | nil => rfl
  | cons a as ih => exact ih (f s a)

theorem along_of_forall {P : S → A → Prop} (h : ∀ a ∈ as, ∀ s, P s a) (s : S) :
    Along step P s as := by
  induction as generalizing s with
  | nil => exact trivial
  | cons a as ih => exact ⟨h a (by simp) s, fun s' _ => ih (fun b hb => h b (by simp [hb])) s'⟩

/-- A condition on the actions alone is added to a condition along the run. -/
theorem Along.and_of_forall_mem {P : S → A → Prop} {Q : A → Prop} {s : S} (h : Along step P s as)
    (hall : ∀ a ∈ as, Q a) : Along step (fun s a => Q a ∧ P s a) s as := by
  induction as generalizing s with
  | nil => exact trivial
  | cons a as ih =>
    refine ⟨⟨hall a (by simp), h.1⟩, fun s' hs' => ih (h.2 s' hs') ?_⟩
    exact fun b hb => hall b (List.mem_cons_of_mem a hb)

section Map

variable {T : Type*} {stepT : T → A → Option T} (f : T → S)

/-- A run with more state goes as the run without it. -/
theorem run_map (hstep : ∀ t a, (stepT t a).map f = step (f t) a) (t : T) :
    (run stepT t as).map f = run step (f t) as := by
  induction as generalizing t with
  | nil => rfl
  | cons a as ih =>
    rw [run, run, ← hstep]
    cases stepT t a with
    | none => rfl
    | some t' => exact ih t'

theorem Along.of_map (hstep : ∀ t a, (stepT t a).map f = step (f t) a) {P : S → A → Prop} {t : T}
    (h : Along step P (f t) as) : Along stepT (fun t a => P (f t) a) t as := by
  induction as generalizing t with
  | nil => exact trivial
  | cons a as ih =>
    refine ⟨h.1, fun t' ht' => ih (h.2 (f t') ?_)⟩
    rw [← hstep, ht', Option.map_some]

end Map

/-- An invariant may speak of the actions that were taken, the last one first. -/
theorem run_invariant_past {P : S → A → Prop} {I : List A → S → Prop}
    (hstep : ∀ past s a s', I past s → P s a → step s a = some s' → I (a :: past) s') :
    ∀ {as} past {s s'}, I past s → Along step P s as → run step s as = some s' →
      I (as.reverse ++ past) s' := by
  intro as
  induction as with
  | nil =>
    intro past s s' hs _ h
    cases h
    exact hs
  | cons a as ih =>
    intro past s s' hs halong h
    rw [run] at h
    cases hnext : step s a with
    | none => simp [hnext] at h
    | some t =>
      rw [hnext] at h
      rw [List.reverse_cons, List.append_assoc]
      exact ih (a :: past) (hstep past s a t hs halong.1 hnext) (halong.2 t hnext) h

/-- What every step that meets the condition preserves holds after every run of such steps. -/
theorem run_invariant {P : S → A → Prop} {I : S → Prop}
    (hstep : ∀ s a s', I s → P s a → step s a = some s' → I s') :
    ∀ {as s s'}, I s → Along step P s as → run step s as = some s' → I s' := by
  intro as s s' hs halong h
  exact run_invariant_past (I := fun _ => I) (fun _ => hstep) [] hs halong h

/-- What is tested on the last state of a run, beside what is proved of it. -/
theorem exists_some_and {o : Option S} {P Q : S → Prop} (h : ∃ s, o = some s ∧ P s)
    (hQ : ∀ s, o = some s → Q s) : ∃ s, o = some s ∧ P s ∧ Q s :=
  h.imp fun s hs => ⟨hs.1, hs.2, hQ s hs.1⟩

/-- A run is never stuck if every step from a state with the invariant can be taken and preserves
it. -/
theorem exists_run_of_step {I : S → Prop} (hstep : ∀ s a, I s → ∃ s', step s a = some s' ∧ I s') :
    ∀ {s} (as : List A), I s → ∃ s', run step s as = some s' ∧ I s' := by
  intro s as
  induction as generalizing s with
  | nil => exact fun hs => ⟨s, rfl, hs⟩
  | cons a as ih =>
    intro hs
    obtain ⟨t, hnext, ht⟩ := hstep s a hs
    rw [run, hnext]
    exact ih ht

end Run
