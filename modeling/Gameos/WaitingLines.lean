import Mathlib.Data.List.Basic
import Mathlib.Data.List.Count

-- A waiting line: members join at its end, and whoever takes from it takes the
-- first member it may take.
namespace WaitingLines
variable {α : Type} [DecidableEq α]

-- How many members a group may take stand before x.
def ahead (chosen : α → Bool) (x : α) : List α → Nat
  | [] => 0
  | y :: line => if y = x then 0 else (if chosen y then 1 else 0) + ahead chosen x line

variable {chosen chosen' taken : α → Bool} {x : α} {line : List α}

theorem ahead_append (present : x ∈ line) : ahead chosen x (line ++ more) = ahead chosen x line := by
  induction line with
  | nil => cases present
  | cons y line ih =>
    simp only [List.cons_append,ahead]
    by_cases here : y = x
    · rw [if_pos here,if_pos here]
    · rw [if_neg here,if_neg here,ih ((List.mem_cons.mp present).resolve_left (Ne.symm here))]

theorem ahead_congr (same : ∀ y ∈ line, chosen y = chosen' y) : ahead chosen x line = ahead chosen' x line := by
  induction line with
  | nil => rfl
  | cons y line ih =>
    rw [ahead,ahead,same y (by simp),ih fun z later => same z (by simp [later])]

theorem ahead_lt_length (chosen : α → Bool) (present : x ∈ line) : ahead chosen x line < line.length := by
  induction line with
  | nil => cases present
  | cons y line ih =>
    rw [ahead,List.length_cons]
    by_cases here : y = x
    · rw [if_pos here]
      omega
    · have later := ih ((List.mem_cons.mp present).resolve_left (Ne.symm here))
      rw [if_neg here]
      split <;> omega

-- Whoever takes another member leaves x in the line and brings nobody before it.
theorem ahead_erase (chosen : α → Bool) (present : x ∈ line) (passed : line.find? taken ≠ some x) :
    x ∈ line.eraseP taken ∧ ahead chosen x (line.eraseP taken) ≤ ahead chosen x line := by
  induction line with
  | nil => cases present
  | cons y line ih =>
    by_cases wanted : taken y = true
    · rw [List.find?_cons_of_pos wanted] at passed
      have other : y ≠ x := fun same => passed (by rw [same])
      rw [List.eraseP_cons_of_pos wanted,ahead,if_neg other]
      exact ⟨(List.mem_cons.mp present).resolve_left other.symm,by omega⟩
    · rw [List.find?_cons_of_neg wanted] at passed
      rw [List.eraseP_cons_of_neg wanted,ahead,ahead]
      by_cases here : y = x
      · rw [if_pos here,if_pos here]
        exact ⟨by simp [here],Nat.le_refl _⟩
      · obtain ⟨kept,fewer⟩ := ih ((List.mem_cons.mp present).resolve_left (Ne.symm here)) passed
        rw [if_neg here,if_neg here]
        exact ⟨by simp [kept],by omega⟩

-- Where the taker could have had x, whom it took instead stood before x.
theorem ahead_taken (chosen : α → Bool) (present : x ∈ line) (passed : line.find? taken ≠ some x) (wanted : taken x = true)
    (member : ∀ y, taken y = true → chosen y = true) :
    ahead chosen x (line.eraseP taken) + 1 ≤ ahead chosen x line := by
  induction line with
  | nil => cases present
  | cons y line ih =>
    by_cases first : taken y = true
    · rw [List.find?_cons_of_pos first] at passed
      have other : y ≠ x := fun same => passed (by rw [same])
      rw [List.eraseP_cons_of_pos first,ahead,if_neg other,if_pos (member y first)]
      omega
    · have other : y ≠ x := fun same => first (by rw [same]; exact wanted)
      rw [List.find?_cons_of_neg first] at passed
      rw [List.eraseP_cons_of_neg first,ahead,ahead,if_neg other,if_neg other]
      have fewer := ih ((List.mem_cons.mp present).resolve_left other.symm) passed
      omega

end WaitingLines
