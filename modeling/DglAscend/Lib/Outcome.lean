import Mathlib.Tactic

/-!
# Outcomes of imperative code

A call of an imperative routine ends in one of three ways: it returns a value, it raises an
error, or it has not finished within the fuel it was given.  An error keeps the state that the
routine had reached, because an exception that nobody rolls back leaves its partial effects
behind.

The file fixes the sequencing of outcomes (`Outcome.bind`) and a loop over a list that threads
an accumulator (`Outcome.loop`), together with the inversion lemmas and the induction rules
that proofs about such routines use.
-/

namespace DglAscend

/-- How a run of imperative code over states `σ` ends. -/
inductive Outcome (ε σ α : Type*) where
  | ok (a : α) (s : σ)
  | error (e : ε) (s : σ)
  | timeout
deriving DecidableEq

namespace Outcome

variable {ε σ τ α β γ : Type*}

/-- Sequencing: an error or a timeout of the first part is that of the whole. -/
def bind (x : Outcome ε σ α) (f : α → σ → Outcome ε σ β) : Outcome ε σ β :=
  match x with
  | ok a s => f a s
  | error e s => error e s
  | timeout => timeout

@[simp] lemma bind_ok (a : α) (s : σ) (f : α → σ → Outcome ε σ β) :
    (ok a s : Outcome ε σ α).bind f = f a s := rfl

@[simp] lemma bind_error (e : ε) (s : σ) (f : α → σ → Outcome ε σ β) :
    (error e s : Outcome ε σ α).bind f = error e s := rfl

@[simp] lemma bind_timeout (f : α → σ → Outcome ε σ β) :
    (timeout : Outcome ε σ α).bind f = timeout := rfl

variable {x : Outcome ε σ α} {f : α → σ → Outcome ε σ β} {s s' : σ}

/-- A sequence returns exactly when both parts do. -/
lemma bind_eq_ok {b : β} : x.bind f = ok b s ↔ ∃ a t, x = ok a t ∧ f a t = ok b s := by
  cases x <;> simp

/-- A sequence raises in its first part, or in its second after the first returned. -/
lemma bind_eq_error {e : ε} : x.bind f = error e s ↔
      x = error e s ∨ ∃ a t, x = ok a t ∧ f a t = error e s := by
  cases x <;> simp

/-- Change the value and the state of an outcome, keeping the way it ended. -/
def map (f : α → σ → β) (g : σ → τ) (x : Outcome ε σ α) : Outcome ε τ β :=
  match x with
  | ok a s => ok (f a s) (g s)
  | error e s => error e (g s)
  | timeout => timeout

@[simp] lemma map_ok (f : α → σ → β) (g : σ → τ) (a : α) (s : σ) :
    (ok a s : Outcome ε σ α).map f g = ok (f a s) (g s) := rfl

@[simp] lemma map_error (f : α → σ → β) (g : σ → τ) (e : ε) (s : σ) :
    (error e s : Outcome ε σ α).map f g = error e (g s) := rfl

@[simp] lemma map_timeout (f : α → σ → β) (g : σ → τ) :
    (timeout : Outcome ε σ α).map f g = timeout := rfl

lemma map_eq_ok {f : α → σ → β} {g : σ → τ} {b : β} {t : τ} :
    x.map f g = ok b t ↔ ∃ a s, x = ok a s ∧ f a s = b ∧ g s = t := by
  cases x <;> simp

lemma map_eq_error {f : α → σ → β} {g : σ → τ} {e : ε} {t : τ} :
    x.map f g = error e t ↔ ∃ s, x = error e s ∧ g s = t := by
  cases x <;> simp

/-- A change of the states of a sequence is one of the states of its parts. -/
lemma map_state_bind {g : σ → τ} {f' : α → τ → Outcome ε τ β}
    (h : ∀ a s, (f a s).map (fun b _ => b) g = f' a (g s)) :
    (x.bind f).map (fun b _ => b) g = (x.map (fun a _ => a) g).bind f' := by
  cases x with
  | ok a s => exact h a s
  | error e s => rfl
  | timeout => rfl

/-- The state in which a routine returned. -/
def state? : Outcome ε σ α → Option σ
  | ok _ s => some s
  | _ => none

lemma state?_eq_some : x.state? = some s ↔ ∃ a, x = ok a s := by
  cases x <;> simp [state?]

/-- The value that a routine returned. -/
def value? : Outcome ε σ α → Option α
  | ok a _ => some a
  | _ => none

lemma value?_eq_some {a : α} : x.value? = some a ↔ ∃ s, x = ok a s := by
  cases x <;> simp [value?]

lemma toOption_eq_some {x : Except ε α} {a : α} : x.toOption = some a ↔ x = .ok a := by
  cases x <;> simp [Except.toOption]

/-- A check in the state `s`, which may raise. -/
def ofExcept (x : Except ε α) (s : σ) : Outcome ε σ α :=
  match x with
  | .ok a => ok a s
  | .error e => error e s

@[simp] lemma ofExcept_ok (a : α) (s : σ) : ofExcept (.ok a : Except ε α) s = ok a s := rfl

lemma ofExcept_bind_eq_ok {x : Except ε α} {s t : σ} {b : β} :
    (ofExcept x s).bind f = ok b t ↔ ∃ a, x = .ok a ∧ f a s = ok b t := by
  cases x <;> simp [ofExcept]

/-! ## Loops over a list -/

/-- `for x in xs: b = step b x`, where the body may raise or run out of fuel. -/
def loop (step : β → α → σ → Outcome ε σ β) : List α → β → σ → Outcome ε σ β
  | [], b, s => ok b s
  | x :: xs, b, s => (step b x s).bind (loop step xs)

variable {step : β → α → σ → Outcome ε σ β}

@[simp] lemma loop_nil (b : β) (s : σ) : loop step [] b s = ok b s := rfl

@[simp] lemma loop_cons (x : α) (xs : List α) (b : β) (s : σ) :
    loop step (x :: xs) b s = (step b x s).bind (loop step xs) := rfl

/-- A loop over `xs ++ ys` is the loop over `xs` followed by the loop over `ys`. -/
lemma loop_append (xs ys : List α) (b : β) (s : σ) :
    loop step (xs ++ ys) b s = (loop step xs b s).bind (loop step ys) := by
  induction xs generalizing b s with
  | nil => rfl
  | cons x xs ih =>
      rw [List.cons_append, loop_cons, loop_cons]
      cases step b x s with
      | ok b' s' => exact ih b' s'
      | error e s' => rfl
      | timeout => rfl

/-- A change of the states of a loop is one of the states of its iterations. -/
lemma map_state_loop {g : σ → τ} {step' : β → α → τ → Outcome ε τ β}
    (h : ∀ b x s, (step b x s).map (fun b _ => b) g = step' b x (g s)) (xs : List α) (b : β)
    (s : σ) : (loop step xs b s).map (fun b _ => b) g = loop step' xs b (g s) := by
  induction xs generalizing b s with
  | nil => rfl
  | cons x xs ih => rw [loop_cons, loop_cons, map_state_bind ih, h]

/-- **Invariant rule.**  A property of the items already processed, the accumulator and the
state that holds at the start and that every returning iteration preserves, holds when the
loop returns. -/
theorem loop_invariant {P : List α → β → σ → Prop} {xs : List α} {b b' : β} {s s' : σ}
    (hrun : loop step xs b s = ok b' s') (hinit : P [] b s)
    (hstep : ∀ done x rest b s b' s', xs = done ++ x :: rest → P done b s →
      step b x s = ok b' s' → P (done ++ [x]) b' s') : P xs b' s' := by
  suffices h : ∀ (ys done : List α) (b : β) (s : σ), xs = done ++ ys →
      P done b s → loop step ys b s = ok b' s' → P xs b' s' from
    h xs [] b s rfl hinit hrun
  intro ys
  induction ys with
  | nil =>
      intro done b s hxs hP hr
      obtain ⟨rfl, rfl⟩ : b = b' ∧ s = s' := by simpa using hr
      rw [hxs, List.append_nil]
      exact hP
  | cons y ys ih =>
      intro done b s hxs hP hr
      obtain ⟨b1, s1, h1, h2⟩ := bind_eq_ok.1 hr
      have hP1 := hstep done y ys b s b1 s1 hxs hP h1
      exact ih (done ++ [y]) b1 s1 (by rw [hxs]; simp) hP1 h2

/-- A loop that raises did so in one iteration, after the earlier ones returned. -/
theorem loop_eq_error {xs : List α} {b : β} {e : ε} (hrun : loop step xs b s = error e s') :
    ∃ done x rest b1 s1, xs = done ++ x :: rest ∧ loop step done b s = ok b1 s1 ∧
      step b1 x s1 = error e s' := by
  induction xs generalizing b s with
  | nil => simp at hrun
  | cons x xs ih =>
      rcases bind_eq_error.1 hrun with h | ⟨b1, s1, h1, h2⟩
      · exact ⟨[], x, xs, b, s, rfl, rfl, h⟩
      · obtain ⟨done, y, rest, b2, s2, rfl, hdone, herr⟩ := ih h2
        exact ⟨x :: done, y, rest, b2, s2, rfl, by simp [h1, hdone], herr⟩

end Outcome

end DglAscend
