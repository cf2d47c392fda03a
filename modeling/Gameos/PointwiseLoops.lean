import Mathlib.Data.List.Nodup

namespace PointwiseLoops

-- A loop body that, at the key k, changes what is observed at k only: what it
-- finds there goes through `change k`. `valid` holds throughout the loop.
structure Local {State Key Value : Type} (body : State → Key → State) (observe : State → Key → Value)
    (change : Key → Value → Value) (valid : State → Prop) (within : Key → Prop) : Prop where
  keep : ∀ s k, valid s → within k → valid (body s k)
  own : ∀ s k, valid s → within k → observe (body s k) k = change k (observe s k)
  other : ∀ s k k', valid s → within k → within k' → k' ≠ k → observe (body s k) k' = observe s k'

variable {State Key Value : Type} {body : State → Key → State} {observe : State → Key → Value}
variable {change : Key → Value → Value} {valid : State → Prop} {within : Key → Prop}
variable {s : State} {k : Key} {keys : List Key}

theorem Local.valid_loop (loc : Local body observe change valid within) (inside : ∀ k ∈ keys, within k)
    (start : valid s) : valid (keys.foldl body s) := by
  induction keys generalizing s with
  | nil => exact start
  | cons k keys ih =>
      exact ih (fun k' later => inside k' (List.mem_cons_of_mem _ later)) (loc.keep s k start (inside k List.mem_cons_self))

-- Each key is changed once, all others stay.
theorem Local.loop [DecidableEq Key] (loc : Local body observe change valid within) (nodup : keys.Nodup)
    (inside : ∀ k ∈ keys, within k) (start : valid s) (here : within k) :
    observe (keys.foldl body s) k = if k ∈ keys then change k (observe s k) else observe s k := by
  induction keys generalizing s with
  | nil => rfl
  | cons k' keys ih =>
      obtain ⟨fresh,rest⟩ := List.nodup_cons.mp nodup
      have first := inside k' List.mem_cons_self
      rw [List.foldl_cons,ih rest (fun l later => inside l (List.mem_cons_of_mem _ later)) (loc.keep s k' start first)]
      by_cases same : k = k'
      · subst same
        rw [if_neg fresh,if_pos List.mem_cons_self,loc.own s k start first]
      · have member : k ∈ k' :: keys ↔ k ∈ keys := by simp [same]
        simp only [member,loc.other s k' k start first here same]

end PointwiseLoops
