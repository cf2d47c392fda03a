namespace TransitionRuns

-- Finite runs of a labelled step relation. `admits` is a side condition on the
-- state before a step; it never mentions the state the step produces.
inductive Run {State Call : Type} (step : State → Call → State → Prop) (admits : State → Call → Prop) :
    State → List Call → State → Prop where
  | nil : Run step admits s [] s
  | cons : admits s call → step s call t → Run step admits t calls u →
      Run step admits s (call :: calls) u

variable {State Call : Type} {step : State → Call → State → Prop} {admits admits' : State → Call → Prop}

theorem Run.append (one : Run step admits s first t) (two : Run step admits t second u) :
    Run step admits s (first ++ second) u := by
  induction one with
  | nil => exact two
  | cons allowed moved _ ih => exact .cons allowed moved (ih two)

theorem Run.single (allowed : admits s call) (moved : step s call t) : Run step admits s [call] t :=
  .cons allowed moved .nil

-- One step keeps the invariant; therefore every run does.
theorem Run.keeps (invariant : State → Prop) (run : Run step admits s calls t)
    (keep : ∀ s call t, invariant s → admits s call → step s call t → invariant t)
    (start : invariant s) : invariant t := by
  induction run with
  | nil => exact start
  | cons allowed moved _ ih => exact ih (keep _ _ _ start allowed moved)

-- Where the side condition is one on states alone, it holds at the start too.
theorem Run.begins {condition : State → Prop} (run : Run step (fun s _ => condition s) s calls t) (last : condition t) :
    condition s := by
  cases run with
  | nil => exact last
  | cons first _ _ => exact first

-- A weaker side condition, where it only has to follow in states that satisfy
-- the invariant the run itself carries.
theorem Run.weaken {invariant : State → Prop} (run : Run step admits s calls t)
    (keep : ∀ s call t, invariant s → admits s call → step s call t → invariant t)
    (implies : ∀ s call t, invariant s → admits s call → step s call t → admits' s call)
    (start : invariant s) : Run step admits' s calls t := by
  induction run with
  | nil => exact .nil
  | cons allowed moved _ ih =>
      exact .cons (implies _ _ _ start allowed moved) moved (ih (keep _ _ _ start allowed moved))

-- A side condition that holds of the calls in every state.
theorem Run.throughout (run : Run step admits s calls t) (always : ∀ call ∈ calls, ∀ s, admits' s call) :
    Run step admits' s calls t := by
  induction run with
  | nil => exact .nil
  | cons _ moved _ ih =>
      exact .cons (always _ List.mem_cons_self _) moved (ih fun call later => always call (List.mem_cons_of_mem _ later))

-- Whoever waits loses a turn at each tick, unless it is served: so it is served
-- before it has seen more ticks than it had turns to wait.
theorem Run.served {serves : State → Call → State → Prop} {waiting : State → Prop} (turns : State → Nat) (tick : Call → Bool)
    (turn : ∀ s call t, waiting s → step s call t →
      serves s call t ∨ (waiting t ∧ turns t + (if tick call then 1 else 0) ≤ turns s))
    (run : Run step admits s calls t) (start : waiting s) :
    (∃ first call rest before after, calls = first ++ call :: rest ∧ first.countP tick ≤ turns s ∧
      Run step admits s first before ∧ waiting before ∧ step before call after ∧ serves before call after ∧
      Run step admits after rest t) ∨ (waiting t ∧ turns t + calls.countP tick ≤ turns s) := by
  induction run with
  | nil => exact .inr ⟨start,by simp⟩
  | @cons s call t calls u allowed moved later ih =>
      rcases turn s call t start moved with served | ⟨still,fewer⟩
      · exact .inl ⟨[],call,calls,s,t,rfl,by simp,.nil,start,moved,served,later⟩
      · rcases ih still with ⟨first,last,rest,before,after,rfl,few,early,waits,step,served,end_⟩ | ⟨waits,few⟩
        · refine .inl ⟨call :: first,last,rest,before,after,rfl,?_,.cons allowed moved early,waits,step,served,end_⟩
          rw [List.countP_cons]
          omega
        · refine .inr ⟨waits,?_⟩
          rw [List.countP_cons]
          omega

-- Runs of a step that is a function, found by following a list of calls.
section Following
variable (next : State → Call → Option State) (allowed : State → Call → Bool)

def follow (s : State) : List Call → Option State
  | [] => some s
  | call :: calls =>
    if allowed s call then
      match next s call with
      | some t => follow t calls
      | none => none
    else none

theorem follow_run (steps : ∀ s call t, next s call = some t → step s call t)
    (admitted : ∀ s call, allowed s call = true → admits s call) (followed : follow next allowed s calls = some t) :
    Run step admits s calls t := by
  induction calls generalizing s with
  | nil =>
      cases followed
      exact .nil
  | cons call calls ih =>
      rw [follow] at followed
      split at followed
      · rename_i here
        cases moved : next s call with
        | none => simp [moved] at followed
        | some middle =>
            simp only [moved] at followed
            exact .cons (admitted s call here) (steps s call middle moved) (ih followed)
      · cases followed

end Following

end TransitionRuns
