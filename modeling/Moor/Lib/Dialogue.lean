import Mathlib.Data.List.Infix
import Moor.Lib.Run

/-!
# Dialogues over a stream

A dialogue says what one party of a protocol sends and how many symbols it waits for next; how the
stream between the parties is cut into writes and reads does not appear in it. An endpoint is a
machine that writes and reads in pieces. An endpoint that implements a dialogue never writes
anything but the output of the dialogue on what it has read, and never ends with anything but its
result. When two endpoints that implement dialogues run against each other under any schedule and
both end, the two dialogues meet: each of them, on the output of the other, has the result its
endpoint ended with. Two dialogues that meet can then be followed message by message.
-/

/-- What a party does on a stream of symbols, until it gives up or is done. -/
inductive Dialogue (β : Type) (α : Type)
  | fail
  | done (a : α)
  | send (symbols : List β) (next : Dialogue β α)
  | recv (n : ℕ) (next : List β → Dialogue β α)

variable {β α γ δ : Type}

namespace Dialogue

open List

def bind : Dialogue β α → (α → Dialogue β γ) → Dialogue β γ
  | fail, _ => fail
  | done a, f => f a
  | send symbols next, f => send symbols (next.bind f)
  | recv n next, f => recv n fun symbols => (next symbols).bind f

instance : Monad (Dialogue β) where
  pure := done
  bind := bind

@[simp] theorem pure_eq (a : α) : (pure a : Dialogue β α) = done a := rfl

variable {f : α → Dialogue β γ}

@[simp] theorem done_bind (a : α) : (done a : Dialogue β α) >>= f = f a := rfl

@[simp] theorem send_bind (symbols : List β) (next : Dialogue β α) :
    send symbols next >>= f = send symbols (next >>= f) := rfl

@[simp] theorem recv_bind (n : ℕ) (next : List β → Dialogue β α) :
    recv n next >>= f = recv n fun symbols => next symbols >>= f := rfl

theorem bind_assoc (d : Dialogue β α) (g : γ → Dialogue β δ) :
    d >>= f >>= g = d >>= fun a => f a >>= g := by
  induction d with
  | fail => rfl
  | done a => rfl
  | send symbols next ih => exact congrArg (send symbols) ih
  | recv n next ih => exact congrArg (recv n) (funext ih)

def put (symbols : List β) : Dialogue β Unit := send symbols (done ())

/-- Waits for a number of symbols. -/
def get (n : ℕ) : Dialogue β (List β) := recv n done

/-- Gives up if there is no value. -/
def lift : Option α → Dialogue β α
  | none => fail
  | some a => done a

/-- Gives up unless the condition holds. -/
def guard (p : Prop) [Decidable p] : Dialogue β Unit := if p then done () else fail

@[simp] theorem put_bind (symbols : List β) (f : Unit → Dialogue β γ) :
    put symbols >>= f = send symbols (f ()) := rfl

@[simp] theorem get_bind (n : ℕ) (f : List β → Dialogue β γ) : get n >>= f = recv n f := rfl

/-! ### What a dialogue does on an input -/

/-- What is sent when so much can be received. -/
def output : Dialogue β α → List β → List β
  | fail, _ => []
  | done _, _ => []
  | send symbols next, input => symbols ++ next.output input
  | recv n next, input =>
    if n ≤ input.length then (next (input.take n)).output (input.drop n) else []

/-- The result when so much can be received. -/
def result : Dialogue β α → List β → Option α
  | fail, _ => none
  | done a, _ => some a
  | send _ next, input => next.result input
  | recv n next, input =>
    if n ≤ input.length then (next (input.take n)).result (input.drop n) else none

variable {n : ℕ} {symbols : List β}

theorem output_recv_append (next : List β → Dialogue β α) (h : symbols.length = n)
    (input : List β) : (recv n next).output (symbols ++ input) = (next symbols).output input := by
  rw [output, if_pos (by simp [h]), take_left' h, drop_left' h]

theorem result_recv_append (next : List β → Dialogue β α) (h : symbols.length = n)
    (input : List β) : (recv n next).result (symbols ++ input) = (next symbols).result input := by
  rw [result, if_pos (by simp [h]), take_left' h, drop_left' h]

/-- A party that waits either has too little or goes on with the first part of what it has. -/
theorem recv_cases (input : List β) :
    (input.length < n) ∨ ∃ symbols rest, input = symbols ++ rest ∧ symbols.length = n := by
  rcases Nat.lt_or_ge input.length n with hlt | hle
  · exact .inl hlt
  · exact .inr ⟨input.take n, input.drop n, (take_append_drop n input).symm, length_take_of_le hle⟩

/-- A dialogue that is done needs nothing more: neither its result nor its output changes. -/
theorem result_append {d : Dialogue β α} {input : List β} {a : α} (h : d.result input = some a)
    (more : List β) :
    d.result (input ++ more) = some a ∧ d.output (input ++ more) = d.output input := by
  induction d generalizing input with
  | fail => exact absurd h (by simp [result])
  | done b => exact ⟨h, rfl⟩
  | send symbols next ih =>
    obtain ⟨hresult, houtput⟩ := ih h
    exact ⟨hresult, congrArg (symbols ++ ·) houtput⟩
  | recv n next ih =>
    rcases recv_cases (n := n) input with hlt | ⟨symbols, rest, rfl, hlen⟩
    · rw [result, if_neg (by omega)] at h
      exact absurd h (by simp)
    rw [result_recv_append next hlen] at h
    rw [append_assoc, result_recv_append next hlen, output_recv_append next hlen,
      output_recv_append next hlen]
    exact ih symbols h

/-! ### What is left of a dialogue -/

/-- After so much is received and written, `todo` is left of the dialogue, and of what is received
the symbols of `buf` are not used yet. A party may also have given up. -/
structure Rest (d : Dialogue β α) (received written : List β) (todo : Dialogue β α)
    (buf : List β) : Prop where
  output : ∀ more, written ++ todo.output (buf ++ more) <+: d.output (received ++ more)
  result : ∀ more a, todo.result (buf ++ more) = some a →
    d.result (received ++ more) = some a ∧
      d.output (received ++ more) = written ++ todo.output (buf ++ more)

namespace Rest

variable {d next todo : Dialogue β α} {received written xs ys buf : List β}

theorem refl (d : Dialogue β α) : Rest d [] [] d [] where
  output _ := prefix_rfl
  result _ _ h := ⟨h, rfl⟩

/-- A part of what is to be sent is written. -/
theorem write (h : Rest d received written (send (xs ++ ys) next) buf) :
    Rest d received (written ++ xs) (send ys next) buf where
  output more := by
    have := h.output more
    simpa only [Dialogue.output, append_assoc] using this
  result more a ha := by
    have := h.result more a ha
    simpa only [Dialogue.output, append_assoc] using this

theorem sent (h : Rest d received written (send [] next) buf) :
    Rest d received written next buf where
  output := h.output
  result := h.result

theorem read (h : Rest d received written todo buf) (xs : List β) :
    Rest d (received ++ xs) written todo (buf ++ xs) where
  output more := by
    rw [append_assoc, append_assoc]
    exact h.output (xs ++ more)
  result more a ha := by
    rw [append_assoc] at ha
    rw [append_assoc, append_assoc]
    exact h.result (xs ++ more) a ha

/-- What the party waits for is there. -/
theorem use {next : List β → Dialogue β α} (h : Rest d received written (recv n next) (xs ++ buf))
    (hlen : xs.length = n) :
    Rest d received written (next xs) buf where
  output more := by
    have := h.output more
    rwa [append_assoc, output_recv_append next hlen] at this
  result more a ha := by
    have := h.result more a
    rw [append_assoc, result_recv_append next hlen, output_recv_append next hlen] at this
    exact this ha

theorem giveUp (h : Rest d received written todo buf) (buf' : List β) :
    Rest d received written fail buf' where
  output more := by
    rw [show (fail : Dialogue β α).output (buf' ++ more) = [] from rfl, append_nil]
    exact (prefix_append _ _).trans (h.output more)
  result _ _ ha := absurd ha (by simp [Dialogue.result])

theorem written_isPrefix (h : Rest d received written todo buf) :
    written <+: d.output received := by
  have := h.output []
  rw [append_nil received] at this
  exact (prefix_append _ _).trans this

/-- A party that is done has written the whole output. -/
theorem of_done {a : α} (h : Rest d received written (done a) buf) :
    d.result received = some a ∧ d.output received = written := by
  have := h.result [] a rfl
  rwa [append_nil received, show (done a : Dialogue β α).output (buf ++ []) = [] from rfl,
    append_nil written] at this

end Rest

end Dialogue

/-! ### Endpoints -/

/-- A machine that writes to a stream and reads from one in pieces: given some room it writes
symbols, given the symbols available it takes the first few; and the stream may break. -/
structure Endpoint (β α : Type) where
  State : Type
  init : State
  write : ℕ → State → List β × State
  read : List β → State → ℕ × State
  broken : State → State
  result : State → Option α

namespace Endpoint

/-- The states of the machine stand for what is left of the dialogue. -/
structure Implements (E : Endpoint β α) (d : Dialogue β α)
    (Stands : E.State → Dialogue β α → List β → Prop) : Prop where
  init : ∃ todo buf, d.Rest [] [] todo buf ∧ Stands E.init todo buf
  write : ∀ {s todo buf received written} room, d.Rest received written todo buf →
    Stands s todo buf → ∃ todo' buf',
      d.Rest received (written ++ (E.write room s).1) todo' buf' ∧
        Stands (E.write room s).2 todo' buf'
  read : ∀ {s todo buf received written} available, d.Rest received written todo buf →
    Stands s todo buf → ∃ todo' buf',
      d.Rest (received ++ available.take (E.read available s).1) written todo' buf' ∧
        Stands (E.read available s).2 todo' buf'
  broken : ∀ {s todo buf}, Stands s todo buf → ∃ buf', Stands (E.broken s) .fail buf'
  result : ∀ {s todo buf a}, Stands s todo buf → E.result s = some a → todo = .done a

end Endpoint

namespace Dialogue

/-- Goes on as far as nothing has to be written and enough is received. -/
def settle : Dialogue β α → List β → Dialogue β α × List β
  | fail, buf => (fail, buf)
  | done a, buf => (done a, buf)
  | send [] next, buf => next.settle buf
  | send (x :: xs) next, buf => (send (x :: xs) next, buf)
  | recv n next, buf =>
    if n ≤ buf.length then (next (buf.take n)).settle (buf.drop n) else (recv n next, buf)

theorem Rest.settle {d todo : Dialogue β α} {received written buf : List β}
    (h : Rest d received written todo buf) :
    Rest d received written (todo.settle buf).1 (todo.settle buf).2 := by
  induction todo generalizing buf with
  | fail => exact h
  | done a => exact h
  | send symbols next ih =>
    cases symbols with
    | nil => exact ih h.sent
    | cons x xs => exact h
  | recv n next ih =>
    rw [Dialogue.settle]
    split
    · rename_i hle
      rw [← List.take_append_drop n buf] at h
      exact ih _ (h.use (List.length_take_of_le hle))
    · exact h

/-- The party that follows the dialogue: it waits until a message is written, and until enough is
received. -/
def endpoint (d : Dialogue β α) : Endpoint β α where
  State := Dialogue β α × List β
  init := d.settle []
  write room s :=
    match s.1 with
    | send symbols next => (symbols.take room, (send (symbols.drop room) next).settle s.2)
    | _ => ([], s)
  read available s := (available.length, s.1.settle (s.2 ++ available))
  broken s := (fail, s.2)
  result s :=
    match s.1 with
    | done a => some a
    | _ => none

theorem endpoint_implements (d : Dialogue β α) :
    d.endpoint.Implements d fun s todo buf => s = (todo, buf) where
  init := ⟨_, _, (Rest.refl d).settle, rfl⟩
  write := by
    rintro s todo buf received written room h rfl
    cases todo with
    | send symbols next =>
      rw [← List.take_append_drop room symbols] at h
      exact ⟨_, _, h.write.settle, rfl⟩
    | fail | done | recv => exact ⟨_, _, (List.append_nil written).symm ▸ h, rfl⟩
  read := by
    rintro s todo buf received written available h rfl
    refine ⟨_, _, ?_, rfl⟩
    rw [show (d.endpoint.read available (todo, buf)).1 = available.length from rfl,
      List.take_length]
    exact (h.read available).settle
  broken := by
    rintro s todo buf rfl
    exact ⟨buf, rfl⟩
  result := by
    rintro s todo buf a rfl h
    cases todo with
    | done b => exact congrArg done (Option.some_inj.mp h)
    | fail | send | recv => exact absurd h (by simp [endpoint])

end Dialogue

/-! ### Two endpoints -/

/-- Two endpoints, and the symbols on the way between them. -/
structure Joint (E₁ : Endpoint β α) (E₂ : Endpoint β γ) where
  left : E₁.State
  right : E₂.State
  toRight : List β
  toLeft : List β

namespace Joint

variable {E₁ : Endpoint β α} {E₂ : Endpoint β γ}

/-- What one of the endpoints does next: it writes, when there is some room; it reads, when so many
symbols have arrived; its stream breaks; or it has ended, and something else is written. -/
inductive Action (β : Type)
  | write (room : ℕ)
  | read (arrived : ℕ)
  | broken
  | later (symbols : List β)

def start (E₁ : Endpoint β α) (E₂ : Endpoint β γ) : Joint E₁ E₂ := ⟨E₁.init, E₂.init, [], []⟩

def swap (s : Joint E₁ E₂) : Joint E₂ E₁ := ⟨s.right, s.left, s.toLeft, s.toRight⟩

def act (s : Joint E₁ E₂) : Action β → Option (Joint E₁ E₂)
  | .write room =>
    let (symbols, left) := E₁.write room s.left
    some { s with left := left, toRight := s.toRight ++ symbols }
  | .read arrived =>
    let (taken, left) := E₁.read (s.toLeft.take arrived) s.left
    some { s with
      left := left
      toLeft := (s.toLeft.take arrived).drop taken ++ s.toLeft.drop arrived }
  | .broken => some { s with left := E₁.broken s.left }
  | .later symbols =>
    if (E₁.result s.left).isSome then some { s with toRight := s.toRight ++ symbols } else none

/-- An action of either endpoint. -/
def step (s : Joint E₁ E₂) : Action β ⊕ Action β → Option (Joint E₁ E₂)
  | .inl action => s.act action
  | .inr action => (s.swap.act action).map swap

end Joint

/-! ### Dialogues that meet -/

namespace Dialogue

/-- The two dialogues end with the two values when each has the output of the other to receive, and
whatever follows it. -/
def Meets (d₁ : Dialogue β α) (d₂ : Dialogue β γ) (a : α) (c : γ) : Prop :=
  ∃ sent₁ sent₂, d₁.output sent₂ <+: sent₁ ∧ d₂.output sent₁ <+: sent₂ ∧
    d₁.result sent₂ = some a ∧ d₂.result sent₁ = some c

namespace Meets

variable {d₁ next₁ : Dialogue β α} {d₂ : Dialogue β γ} {a : α} {c : γ}

theorem symm (h : Meets d₁ d₂ a c) : Meets d₂ d₁ c a :=
  let ⟨sent₁, sent₂, h₁, h₂, ha, hc⟩ := h
  ⟨sent₂, sent₁, h₂, h₁, hc, ha⟩

theorem eq_of_done {b : α} (h : Meets (done b) d₂ a c) : b = a :=
  let ⟨_, _, _, _, ha, _⟩ := h
  Option.some_inj.mp ha

theorem not_fail (h : Meets (fail : Dialogue β α) d₂ a c) : False :=
  let ⟨_, _, _, _, ha, _⟩ := h
  absurd ha (by simp [result])

/-- A message that the other party waits for is received. -/
theorem send_recv {symbols : List β} {n : ℕ} {next₂ : List β → Dialogue β γ}
    (hlen : symbols.length = n) (h : Meets (send symbols next₁) (recv n next₂) a c) :
    Meets next₁ (next₂ symbols) a c := by
  obtain ⟨sent₁, sent₂, ⟨rest, rfl⟩, h₂, ha, hc⟩ := h
  rw [show (send symbols next₁).output sent₂ = symbols ++ next₁.output sent₂ from rfl,
    List.append_assoc] at h₂ hc
  rw [output_recv_append next₂ hlen] at h₂
  rw [result_recv_append next₂ hlen] at hc
  exact ⟨_, sent₂, List.prefix_append _ _, h₂, ha, hc⟩

/-- A message may be received in parts. -/
theorem send_append {xs ys : List β} (h : Meets (send (xs ++ ys) next₁) d₂ a c) :
    Meets (send xs (send ys next₁)) d₂ a c := by
  obtain ⟨sent₁, sent₂, h₁, h₂, ha, hc⟩ := h
  refine ⟨sent₁, sent₂, ?_, h₂, ha, hc⟩
  rwa [output, List.append_assoc] at h₁

/-- A party that did not give up has its value. -/
theorem of_lift {o : Option δ} {f : δ → Dialogue β α} (h : Meets (lift o >>= f) d₂ a c) :
    ∃ x, o = some x ∧ Meets (f x) d₂ a c := by
  cases o with
  | none => exact h.not_fail.elim
  | some x => exact ⟨x, rfl, h⟩

theorem of_guard {p : Prop} [Decidable p] {f : Unit → Dialogue β α}
    (h : Meets (guard p >>= f) d₂ a c) : p ∧ Meets (f ()) d₂ a c := by
  by_cases hp : p
  · rw [guard, if_pos hp] at h
    exact ⟨hp, h⟩
  · rw [guard, if_neg hp] at h
    exact h.not_fail.elim

end Meets

end Dialogue

namespace Joint

open Dialogue

variable {E₁ : Endpoint β α} {E₂ : Endpoint β γ} {d₁ : Dialogue β α} {d₂ : Dialogue β γ}
  {Stands₁ : E₁.State → Dialogue β α → List β → Prop}
  {Stands₂ : E₂.State → Dialogue β γ → List β → Prop}

/-- The endpoint follows its dialogue, and has sent something else only after its end. -/
def Follows (E : Endpoint β α) (d : Dialogue β α) (Stands : E.State → Dialogue β α → List β → Prop)
    (s : E.State) (received sent : List β) : Prop :=
  ∃ todo buf written extra, sent = written ++ extra ∧ d.Rest received written todo buf ∧
    Stands s todo buf ∧ (extra ≠ [] → ∀ more, d.output (received ++ more) = written)

variable {s : E₁.State} {received : List β} {actions : List (Action β ⊕ Action β)}

variable {sent : List β} (hE : E₁.Implements d₁ Stands₁)
  (h : Follows E₁ d₁ Stands₁ s received sent)
include hE h

theorem Follows.write (room : ℕ) :
    Follows E₁ d₁ Stands₁ (E₁.write room s).2 received (sent ++ (E₁.write room s).1) := by
  obtain ⟨todo, buf, written, extra, rfl, hrest, hstands, hextra⟩ := h
  obtain ⟨todo', buf', hrest', hstands'⟩ := hE.write room hrest hstands
  by_cases hnil : extra = []
  · subst hnil
    refine ⟨todo', buf', _, [], ?_, hrest', hstands', fun h => absurd rfl h⟩
    simp
  -- nothing of the dialogue is left to be written
  have hdone := hextra hnil []
  rw [List.append_nil] at hdone
  have hle := hrest'.written_isPrefix
  rw [hdone] at hle
  have hwrite : (E₁.write room s).1 = [] := by
    have := hle.length_le
    rw [List.length_append] at this
    exact List.eq_nil_of_length_eq_zero (by omega)
  rw [hwrite, List.append_nil] at hrest' ⊢
  exact ⟨todo', buf', written, extra, rfl, hrest', hstands', hextra⟩

theorem Follows.read (available : List β) :
    Follows E₁ d₁ Stands₁ (E₁.read available s).2
      (received ++ available.take (E₁.read available s).1) sent := by
  obtain ⟨todo, buf, written, extra, rfl, hrest, hstands, hextra⟩ := h
  obtain ⟨todo', buf', hrest', hstands'⟩ := hE.read available hrest hstands
  refine ⟨todo', buf', written, extra, rfl, hrest', hstands', fun hnil more => ?_⟩
  rw [List.append_assoc]
  exact hextra hnil _

theorem Follows.broken : Follows E₁ d₁ Stands₁ (E₁.broken s) received sent := by
  obtain ⟨todo, buf, written, extra, rfl, hrest, hstands, hextra⟩ := h
  obtain ⟨buf', hstands'⟩ := hE.broken hstands
  exact ⟨.fail, buf', written, extra, rfl, hrest.giveUp buf', hstands', hextra⟩

/-- An endpoint that has ended has its result from what it received, and sent all of its output. -/
theorem Follows.of_result {a : α} (ha : E₁.result s = some a) :
    d₁.result received = some a ∧ d₁.output received <+: sent := by
  obtain ⟨todo, buf, written, extra, rfl, hrest, hstands, hextra⟩ := h
  obtain rfl := hE.result hstands ha
  obtain ⟨hresult, houtput⟩ := hrest.of_done
  exact ⟨hresult, houtput ▸ List.prefix_append _ _⟩

theorem Follows.later (hresult : (E₁.result s).isSome) (symbols : List β) :
    Follows E₁ d₁ Stands₁ s received (sent ++ symbols) := by
  obtain ⟨todo, buf, written, extra, rfl, hrest, hstands, hextra⟩ := h
  obtain ⟨a, ha⟩ := Option.isSome_iff_exists.mp hresult
  obtain rfl := hE.result hstands ha
  obtain ⟨hresult, houtput⟩ := hrest.of_done
  refine ⟨_, buf, written, extra ++ symbols, List.append_assoc _ _ _, hrest, hstands, ?_⟩
  intro _ more
  rw [(result_append hresult more).2, houtput]

omit hE h

/-- Both endpoints follow their dialogues, and what one sent the other has received, or it is on
the way. -/
def Followed (d₁ : Dialogue β α) (d₂ : Dialogue β γ)
    (Stands₁ : E₁.State → Dialogue β α → List β → Prop)
    (Stands₂ : E₂.State → Dialogue β γ → List β → Prop) (s : Joint E₁ E₂) : Prop :=
  ∃ received₁ received₂, Follows E₁ d₁ Stands₁ s.left received₁ (received₂ ++ s.toRight) ∧
    Follows E₂ d₂ Stands₂ s.right received₂ (received₁ ++ s.toLeft)

theorem Followed.swap {s : Joint E₁ E₂} (h : s.Followed d₁ d₂ Stands₁ Stands₂) :
    s.swap.Followed d₂ d₁ Stands₂ Stands₁ :=
  let ⟨received₁, received₂, h₁, h₂⟩ := h
  ⟨received₂, received₁, h₂, h₁⟩

theorem Followed.act (hE : E₁.Implements d₁ Stands₁) {s s' : Joint E₁ E₂}
    (h : s.Followed d₁ d₂ Stands₁ Stands₂) {action : Action β} (hact : s.act action = some s') :
    s'.Followed d₁ d₂ Stands₁ Stands₂ := by
  obtain ⟨received₁, received₂, h₁, h₂⟩ := h
  cases action with
  | write room =>
    cases hact
    refine ⟨received₁, received₂, ?_, h₂⟩
    rw [← List.append_assoc]
    exact h₁.write hE room
  | read arrived =>
    cases hact
    refine ⟨_, received₂, h₁.read hE (s.toLeft.take arrived), ?_⟩
    rw [List.append_assoc, ← List.append_assoc (List.take _ _), List.take_append_drop,
      List.take_append_drop]
    exact h₂
  | broken =>
    cases hact
    exact ⟨received₁, received₂, h₁.broken hE, h₂⟩
  | later symbols =>
    rw [Joint.act] at hact
    split at hact
    · rename_i hresult
      cases hact
      refine ⟨received₁, received₂, ?_, h₂⟩
      rw [← List.append_assoc]
      exact h₁.later hE hresult symbols
    · exact absurd hact (by simp)

variable (hE₁ : E₁.Implements d₁ Stands₁) (hE₂ : E₂.Implements d₂ Stands₂)
include hE₁ hE₂

theorem Followed.step {s s' : Joint E₁ E₂} (h : s.Followed d₁ d₂ Stands₁ Stands₂)
    {action : Action β ⊕ Action β} (hstep : s.step action = some s') :
    s'.Followed d₁ d₂ Stands₁ Stands₂ := by
  cases action with
  | inl action => exact h.act hE₁ hstep
  | inr action =>
    obtain ⟨t, ht, rfl⟩ := Option.map_eq_some_iff.mp hstep
    exact (h.swap.act hE₂ ht).swap

/-- The endpoints under any schedule. -/
theorem followed_of_run {s : Joint E₁ E₂} (hrun : Run.run step (start E₁ E₂) actions = some s) :
    s.Followed d₁ d₂ Stands₁ Stands₂ := by
  have hstart : (start E₁ E₂).Followed d₁ d₂ Stands₁ Stands₂ := by
    obtain ⟨todo₁, buf₁, hrest₁, hstands₁⟩ := hE₁.init
    obtain ⟨todo₂, buf₂, hrest₂, hstands₂⟩ := hE₂.init
    exact ⟨[], [], ⟨todo₁, buf₁, [], [], rfl, hrest₁, hstands₁, fun h => absurd rfl h⟩,
      ⟨todo₂, buf₂, [], [], rfl, hrest₂, hstands₂, fun h => absurd rfl h⟩⟩
  exact Run.run_invariant (fun _ _ _ h _ hstep => h.step hE₁ hE₂ hstep) hstart
    (Run.along_of_forall (fun _ _ _ => trivial) _) hrun

/-- When both endpoints have ended, their dialogues meet with the two results. -/
theorem meets_of_run {s : Joint E₁ E₂} (hrun : Run.run step (start E₁ E₂) actions = some s) {a : α}
    {c : γ} (ha : E₁.result s.left = some a) (hc : E₂.result s.right = some c) :
    Meets d₁ d₂ a c := by
  obtain ⟨received₁, received₂, h₁, h₂⟩ := followed_of_run hE₁ hE₂ hrun
  obtain ⟨hresult₁, houtput₁⟩ := h₁.of_result hE₁ ha
  obtain ⟨hresult₂, houtput₂⟩ := h₂.of_result hE₂ hc
  obtain ⟨hmore₁, hfixed₁⟩ := result_append hresult₁ s.toLeft
  obtain ⟨hmore₂, hfixed₂⟩ := result_append hresult₂ s.toRight
  exact ⟨_, _, hfixed₁ ▸ houtput₁, hfixed₂ ▸ houtput₂, hmore₁, hmore₂⟩

end Joint
