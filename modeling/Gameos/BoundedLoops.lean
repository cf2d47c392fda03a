import Mathlib.Tactic.Common

-- Loops that may fail, with a bound on their turns. Nothing here is about a
-- particular program.
namespace BoundedLoops

-- What a turn of a loop leaves: the result of the loop or the next state.
inductive Turn (σ δ : Type) where
  | done (result : δ)
  | again (state : σ)
deriving DecidableEq, Repr

variable {ε σ δ : Type}

def loop (outOfTurns : ε) (turn : σ → Except ε (Turn σ δ)) : Nat → σ → Except ε δ
  | 0, _ => .error outOfTurns
  | turns+1, s =>
    match turn s with
    | .error e => .error e
    | .ok (.done result) => .ok result
    | .ok (.again t) => loop outOfTurns turn turns t

-- The states at which a turn of the loop begins.
inductive Reaches (turn : σ → Except ε (Turn σ δ)) (s : σ) : σ → Prop where
  | refl : Reaches turn s s
  | next : Reaches turn s t → turn t = .ok (.again u) → Reaches turn s u

theorem Reaches.head {turn : σ → Except ε (Turn σ δ)} (first : turn s = .ok (.again t)) (rest : Reaches turn t u) :
    Reaches turn s u := by
  induction rest with
  | refl => exact .next .refl first
  | next _ step ih => exact .next ih step

theorem Reaches.first {turn : σ → Except ε (Turn σ δ)} (reaches : Reaches turn s t) :
    t = s ∨ ∃ u, turn s = .ok (.again u) ∧ Reaches turn u t := by
  induction reaches with
  | refl => exact .inl rfl
  | next _ step ih =>
      obtain rfl | ⟨u,first,rest⟩ := ih
      · exact .inr ⟨_,step,.refl⟩
      · exact .inr ⟨u,first,.next rest step⟩

theorem loop_again {turn : σ → Except ε (Turn σ δ)} (step : turn s = .ok (.again t)) (outOfTurns : ε) (turns : Nat) :
    loop outOfTurns turn (turns+1) s = loop outOfTurns turn turns t := by
  rw [loop,step]

theorem loop_done {turn : σ → Except ε (Turn σ δ)} (step : turn s = .ok (.done result)) (outOfTurns : ε) (turns : Nat) :
    loop outOfTurns turn (turns+1) s = .ok result := by
  rw [loop,step]

theorem loop_error {turn : σ → Except ε (Turn σ δ)} (step : turn s = .error e) (outOfTurns : ε) (turns : Nat) :
    loop outOfTurns turn (turns+1) s = .error e := by
  rw [loop,step]

-- The states at which the turns of a run begin, in their order.
def trail (turn : σ → Except ε (Turn σ δ)) : Nat → σ → List σ
  | 0, _ => []
  | turns+1, s => s :: match turn s with
    | .ok (.again t) => trail turn turns t
    | _ => []

theorem trail_again {turn : σ → Except ε (Turn σ δ)} (step : turn s = .ok (.again t)) (turns : Nat) :
    trail turn (turns+1) s = s :: trail turn turns t := by
  rw [trail,step]

theorem trail_done {turn : σ → Except ε (Turn σ δ)} (step : turn s = .ok (.done result)) (turns : Nat) :
    trail turn (turns+1) s = [s] := by
  rw [trail,step]

-- What every turn keeps holds at every turn.
theorem Reaches.keeps {turn : σ → Except ε (Turn σ δ)} {invariant : σ → Prop} (reaches : Reaches turn s t)
    (keep : ∀ t u, Reaches turn s t → invariant t → turn t = .ok (.again u) → invariant u) (start : invariant s) :
    invariant t := by
  induction reaches with
  | refl => exact start
  | next before step ih => exact keep _ _ before ih step

-- A measure that goes down at every turn bounds the loop: it ends as one of
-- its turns does.
theorem loop_ends {turn : σ → Except ε (Turn σ δ)} (measure : σ → Nat) (outOfTurns : ε)
    (advances : ∀ t u, Reaches turn s t → turn t = .ok (.again u) → measure u < measure t)
    (turns : Nat) (enough : measure s < turns) : ∃ t, Reaches turn s t ∧
      ((∃ e, turn t = .error e ∧ loop outOfTurns turn turns s = .error e) ∨
        ∃ result, turn t = .ok (.done result) ∧ loop outOfTurns turn turns s = .ok result) := by
  induction turns generalizing s with
  | zero => exact absurd enough (Nat.not_lt_zero _)
  | succ turns ih =>
      cases step : turn s with
      | error e => exact ⟨s,.refl,.inl ⟨e,step,loop_error step _ _⟩⟩
      | ok outcome =>
          cases outcome with
          | done result => exact ⟨s,.refl,.inr ⟨result,step,loop_done step _ _⟩⟩
          | again t =>
              have less := advances s t .refl step
              obtain ⟨u,reaches,ended⟩ := ih (fun a b path => advances a b (path.head step)) (by omega)
              rw [loop_again step]
              exact ⟨u,reaches.head step,ended⟩

-- A loop returns what its last turn does.
theorem loop_returned {turn : σ → Except ε (Turn σ δ)} (turns : Nat)
    (returned : loop outOfTurns turn turns s = .ok result) : ∃ t, Reaches turn s t ∧ turn t = .ok (.done result) := by
  induction turns generalizing s with
  | zero => cases returned
  | succ turns ih =>
      cases step : turn s with
      | error e =>
          rw [loop_error step] at returned
          cases returned
      | ok outcome =>
          cases outcome with
          | done value =>
              rw [loop_done step] at returned
              cases returned
              exact ⟨s,.refl,step⟩
          | again t =>
              rw [loop_again step] at returned
              obtain ⟨u,reaches,last⟩ := ih returned
              exact ⟨u,reaches.head step,last⟩

-- A state that is its own successor is never left.
theorem loop_stuck {turn : σ → Except ε (Turn σ δ)} (step : turn s = .ok (.again s)) (outOfTurns : ε) (turns : Nat) :
    loop outOfTurns turn turns s = .error outOfTurns := by
  induction turns with
  | zero => rfl
  | succ turns ih => rw [loop_again step,ih]

end BoundedLoops
