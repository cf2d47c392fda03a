import Mathlib.Data.List.Basic

-- Loops that walk over addresses and read as they go. The reads are kept beside the
-- result, so that a loop that fails or runs out of turns still tells what it read.
namespace AddressWalks

structure Traced (ρ ε α : Type) where
  reads : List ρ
  result : Except ε α

variable {ρ ε α β σ : Type}

namespace Traced

def pure (value : α) : Traced ρ ε α := ⟨[],.ok value⟩

def touch (read : ρ) : Traced ρ ε Unit := ⟨[read],.ok ()⟩

def silent (result : Except ε α) : Traced ρ ε α := ⟨[],result⟩

def bind (first : Traced ρ ε α) (next : α → Traced ρ ε β) : Traced ρ ε β :=
  match first.result with
  | .error e => ⟨first.reads,.error e⟩
  | .ok value => ⟨first.reads ++ (next value).reads,(next value).result⟩

theorem bind_of_ok {first : Traced ρ ε α} {value : α} (done : first.result = .ok value) (next : α → Traced ρ ε β) :
    first.bind next = ⟨first.reads ++ (next value).reads,(next value).result⟩ := by
  unfold bind
  rw [done]

theorem bind_result (first : Traced ρ ε α) (next : α → Traced ρ ε β) :
    (first.bind next).result = first.result.bind fun value => (next value).result := by
  unfold bind
  cases first.result <;> rfl

theorem bind_ok {first : Traced ρ ε α} {next : α → Traced ρ ε β} {value : β} (done : (first.bind next).result = .ok value) :
    ∃ middle,first.result = .ok middle ∧ (next middle).result = .ok value := by
  rw [bind_result] at done
  cases ran : first.result with
  | error e => rw [ran] at done; cases done
  | ok middle => rw [ran] at done; exact ⟨middle,rfl,done⟩

theorem bind_reads {first : Traced ρ ε α} {next : α → Traced ρ ε β} {P : ρ → Prop} (one : ∀ r ∈ first.reads,P r)
    (two : ∀ value,∀ r ∈ (next value).reads,P r) : ∀ r ∈ (first.bind next).reads,P r := by
  cases ran : first.result with
  | error e =>
      unfold bind
      rw [ran]
      exact one
  | ok value =>
      rw [bind_of_ok ran]
      exact fun r member => (List.mem_append.mp member).elim (one r) (two value r)

end Traced

section Walks
variable (more : Nat → Bool) (next : Nat → Nat)

-- The positions of a walk that ends.
inductive Visits : Nat → List Nat → Prop where
  | stop : more pos = false → Visits pos []
  | visit : more pos = true → Visits (next pos) rest → Visits pos (pos :: rest)

-- The first so many positions.
def listed : Nat → Nat → List Nat
  | 0,_ => []
  | turns + 1,pos => if more pos then pos :: listed turns (next pos) else []

variable (outOfTurns : ε) (visit : Nat → σ → Traced ρ ε σ)

def walk : Nat → Nat → σ → Traced ρ ε σ
  | 0,pos,s => if more pos then .silent (.error outOfTurns) else .pure s
  | turns + 1,pos,s => if more pos then (visit pos s).bind (walk turns (next pos)) else .pure s

def sweep : List Nat → σ → Traced ρ ε σ
  | [],s => .pure s
  | pos :: rest,s => (visit pos s).bind (sweep rest)

end Walks

section Positions
variable {more : Nat → Bool} {next : Nat → Nat} {pos turns : Nat} {list other : List Nat}

theorem Visits.unique (one : Visits more next pos list) (two : Visits more next pos other) : list = other := by
  induction one generalizing other with
  | stop none =>
      cases two with
      | stop => rfl
      | visit some => rw [none] at some; cases some
  | visit some _ ih =>
      cases two with
      | stop none => rw [none] at some; cases some
      | visit _ later => rw [ih later]

theorem Visits.listed (visits : Visits more next pos list) (enough : list.length ≤ turns) : listed more next turns pos = list := by
  induction visits generalizing turns with
  | stop none =>
      cases turns with
      | zero => rfl
      | succ turns =>
          unfold AddressWalks.listed
          rw [if_neg (by rw [none]; exact Bool.false_ne_true)]
  | visit some _ ih =>
      cases turns with
      | zero => exact absurd enough (Nat.not_succ_le_zero _)
      | succ turns =>
          unfold AddressWalks.listed
          rw [if_pos some,ih (Nat.le_of_succ_le_succ enough)]

-- A position that is its own next would be visited for ever.
theorem Visits.moves (visits : Visits more next pos list) : ∀ p ∈ list,next p ≠ p := by
  induction visits with
  | stop => exact fun p member => absurd member List.not_mem_nil
  | @visit pos rest some later ih =>
      intro p member
      rcases List.mem_cons.mp member with rfl | member
      · intro stays
        have again : Visits more next p (p :: rest) := .visit some later
        rw [stays] at later
        exact List.cons_ne_self p rest (again.unique later)
      · exact ih p member

theorem Visits.within (visits : Visits more next pos list) : ∀ p ∈ list,more p = true := by
  induction visits with
  | stop => exact fun p member => absurd member List.not_mem_nil
  | visit some _ ih =>
      intro p member
      rcases List.mem_cons.mp member with rfl | member
      · exact some
      · exact ih p member

-- Positions that climb below a bound are no more than the bound has room for.
theorem visits_listed (bounded : ∀ p ∈ listed more next turns pos,p < high)
    (climbs : ∀ p ∈ listed more next turns pos,next p ∈ listed more next turns pos → p < next p) (enough : high - pos < turns) :
    Visits more next pos (listed more next turns pos) := by
  induction turns generalizing pos with
  | zero => exact absurd enough (Nat.not_lt_zero _)
  | succ turns ih =>
      unfold listed at bounded climbs ⊢
      by_cases some : more pos = true
      · rw [if_pos some] at bounded climbs ⊢
        have below := bounded pos List.mem_cons_self
        refine .visit some ?_
        by_cases again : more (next pos) = true
        · have here : next pos ∈ listed more next turns (next pos) := by
            obtain ⟨turns,rfl⟩ := Nat.exists_eq_add_one_of_ne_zero (by omega : turns ≠ 0)
            unfold listed
            rw [if_pos again]
            exact List.mem_cons_self
          have above := climbs pos List.mem_cons_self (List.mem_cons_of_mem _ here)
          refine ih (fun p member => bounded p (List.mem_cons_of_mem _ member)) ?_ (by omega)
          exact fun p member later => climbs p (List.mem_cons_of_mem _ member) (List.mem_cons_of_mem _ later)
        · have none : listed more next turns (next pos) = [] := by
            cases turns with
            | zero => rfl
            | succ turns =>
                unfold listed
                exact if_neg again
          rw [none]
          exact .stop (Bool.eq_false_iff.mpr again)
      · rw [if_neg some]
        exact .stop (Bool.eq_false_iff.mpr some)

-- The positions of a walk that ends are the first so many, where they climb.
theorem Visits.few (visits : Visits more next pos list) (bounded : ∀ p ∈ list,p < high)
    (climbs : ∀ p ∈ list,next p ∈ list → p < next p) : list.length ≤ high - pos := by
  induction visits with
  | stop => exact Nat.zero_le _
  | @visit pos rest some later ih =>
      have below := bounded pos List.mem_cons_self
      have shorter := ih (fun p member => bounded p (List.mem_cons_of_mem _ member)) fun p member listed =>
        climbs p (List.mem_cons_of_mem _ member) (List.mem_cons_of_mem _ listed)
      rw [List.length_cons]
      cases later with
      | stop => simp only [List.length_nil]; omega
      | visit =>
          have above := climbs pos List.mem_cons_self (List.mem_cons_of_mem _ List.mem_cons_self)
          omega

end Positions

section Runs
variable {more : Nat → Bool} {next : Nat → Nat} {outOfTurns : ε} {visit : Nat → σ → Traced ρ ε σ}
  {pos turns : Nat} {list : List Nat} {s t : σ}

theorem walk_sweep (visits : Visits more next pos list) (enough : list.length ≤ turns) (s : σ) :
    walk more next outOfTurns visit turns pos s = sweep visit list s := by
  induction visits generalizing turns s with
  | stop none => cases turns <;> (unfold walk; rw [if_neg (by rw [none]; exact Bool.false_ne_true)]; rfl)
  | visit some _ ih =>
      cases turns with
      | zero => exact absurd enough (Nat.not_succ_le_zero _)
      | succ turns =>
          unfold walk sweep
          rw [if_pos some]
          congr 1
          exact funext fun s => ih (Nat.le_of_succ_le_succ enough) s

theorem walk_visits (done : (walk more next outOfTurns visit turns pos s).result = .ok t) :
    ∃ list,Visits more next pos list ∧ list.length ≤ turns := by
  induction turns generalizing pos s with
  | zero =>
      unfold walk at done
      split at done
      · cases done
      · exact ⟨[],.stop (Bool.eq_false_iff.mpr ‹_›),Nat.le_refl _⟩
  | succ turns ih =>
      unfold walk at done
      split at done
      case isTrue some =>
        obtain ⟨middle,_,later⟩ := Traced.bind_ok done
        obtain ⟨list,visits,few⟩ := ih later
        exact ⟨pos :: list,.visit some visits,Nat.succ_le_succ few⟩
      case isFalse none => exact ⟨[],.stop (Bool.eq_false_iff.mpr none),Nat.zero_le _⟩

theorem sweep_reads {P : ρ → Prop} (each : ∀ pos ∈ list,∀ s,∀ r ∈ (visit pos s).reads,P r) (s : σ) :
    ∀ r ∈ (sweep visit list s).reads,P r := by
  induction list generalizing s with
  | nil => exact fun r member => absurd member List.not_mem_nil
  | cons pos rest ih =>
      exact Traced.bind_reads (each pos List.mem_cons_self s) fun s =>
        ih (fun p member => each p (List.mem_cons_of_mem _ member)) s

theorem sweep_result (s : σ) : (sweep visit list s).result = list.foldlM (fun s pos => (visit pos s).result) s := by
  induction list generalizing s with
  | nil => rfl
  | cons pos rest ih =>
      unfold sweep
      rw [Traced.bind_result,List.foldlM_cons]
      cases (visit pos s).result with
      | error e => rfl
      | ok t => exact ih t

-- Visits that always return make a sweep that does.
theorem sweep_total (total : ∀ pos ∈ list,∀ s,∃ t,(visit pos s).result = .ok t) (s : σ) :
    ∃ t,(sweep visit list s).result = .ok t := by
  induction list generalizing s with
  | nil => exact ⟨s,rfl⟩
  | cons pos rest ih =>
      obtain ⟨t,here⟩ := total pos List.mem_cons_self s
      unfold sweep
      rw [Traced.bind_of_ok here]
      exact ih (fun p member => total p (List.mem_cons_of_mem _ member)) t

-- Every visit of a sweep that returns has returned, and read what the sweep did.
theorem sweep_each {P : ρ → Prop} (done : (sweep visit list s).result = .ok t) (reads : ∀ r ∈ (sweep visit list s).reads,P r) :
    ∀ pos ∈ list,∃ before after,(visit pos before).result = .ok after ∧ ∀ r ∈ (visit pos before).reads,P r := by
  induction list generalizing s with
  | nil => exact fun pos member => absurd member List.not_mem_nil
  | cons first rest ih =>
      intro pos member
      unfold sweep at done reads
      obtain ⟨middle,here,later⟩ := Traced.bind_ok done
      rw [Traced.bind_of_ok here] at reads
      rcases List.mem_cons.mp member with rfl | member
      · exact ⟨s,middle,here,fun r present => reads r (List.mem_append_left _ present)⟩
      · exact ih later (fun r present => reads r (List.mem_append_right _ present)) pos member

end Runs

end AddressWalks
