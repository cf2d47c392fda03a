import Gameos.ThreadContexts
import Gameos.BoundedLoops

-- The destructors each TLS block keeps, and their run when the block is destroyed.
namespace ThreadContexts
open Scheduler BoundedLoops

structure Destructor where
  function : Nat
  object : Nat
  dsoHandle : Nat
deriving DecidableEq, Repr

def maxDestructors : Nat := 32

-- Bounded_Array<Destructor, MAX_DESTRUCTORS>, its last element first.
structure Destructors where
  entries : List Destructor
  bounded : entries.length ≤ maxDestructors

def Destructors.none : Destructors := ⟨[],Nat.zero_le _⟩

structure Storage where
  tls : Tls
  destructors : Block → Destructors

def Storage.put (s : Storage) (block : Block) (destructors : Destructors) : Storage :=
  {s with destructors := fun other => if other = block then destructors else s.destructors other}

-- The block is the one the FS base of the CPU selects.
def cxaThreadAtexit (s : Storage) (c : Nat) (d : Destructor) : Int × Storage :=
  let block := s.tls.base c
  if room : (s.destructors block).entries.length < maxDestructors then
    (0,s.put block ⟨d :: (s.destructors block).entries,room⟩)
  else (-1,s)

-- What code on a thread does to its TLS block.
inductive Action where
  | register (destructor : Destructor)
  | assign (context : Context)
deriving DecidableEq, Repr

-- What happened, with the block that was active when a destructor was called.
inductive Event where
  | accepted (destructor : Destructor)
  | refused (destructor : Destructor)
  | called (destructor : Destructor) (active : Block)
deriving DecidableEq, Repr

def perform (c : Nat) (s : Storage) : Action → Storage × List Event
  | .register d =>
    let (result,t) := cxaThreadAtexit s c d
    (t,[if result = 0 then .accepted d else .refused d])
  | .assign context => ({s with tls := s.tls.write c context},[])

def performs (c : Nat) (s : Storage) : List Action → Storage × List Event
  | [] => (s,[])
  | action :: rest =>
    let (t,first) := perform c s action
    let (u,later) := performs c t rest
    (u,first ++ later)

-- A destroy under way: the TLS, what happened so far and how often a destructor
-- was called.
structure Destruction where
  storage : Storage
  events : List Event
  calls : Nat

-- One turn of the loop of destroy; `body` is what the n-th call does, which may
-- be register more.
def destroyTurn (body : Nat → Destructor → List Action) (c : Nat) (block : Block) (s : Destruction) :
    Except Unit (Turn Destruction Destruction) :=
  match entries : (s.storage.destructors block).entries with
  | [] => .ok (.done s)
  | entry :: rest =>
    let popped := s.storage.put block ⟨rest,by
      have bounded := (s.storage.destructors block).bounded
      rw [entries] at bounded
      exact Nat.le_trans (Nat.le_succ _) bounded⟩
    let (storage,events) := performs c popped (body s.calls entry)
    .ok (.again ⟨storage,s.events ++ .called entry (popped.tls.base c) :: events,s.calls+1⟩)

-- defer: set_base(previous_base), context = previous_context
def Destruction.deferred (s : Destruction) (c : Nat) (previousBase : Block) (previousContext : Context) : Destruction :=
  {s with storage := {s.storage with tls := {s.storage.tls with
    base := Scheduler.put s.storage.tls.base c previousBase
    context := putBlock s.storage.tls.context previousBase previousContext}}}

-- tls::destroy without the release of the block's memory.
def destroyBlock (body : Nat → Destructor → List Action) (c turns : Nat) (block : Option Block) (s : Storage)
    (events : List Event) : Except Unit Destruction :=
  match block with
  | none => .ok ⟨s,events,0⟩
  | some block =>
    let previousBase := s.tls.base c
    let previousContext := s.tls.observed c
    match loop () (destroyTurn body c block) turns ⟨{s with tls := activate s.tls c block},events,0⟩ with
    | .error e => .error e
    | .ok after => .ok (after.deferred c previousBase previousContext)

-- The destructors that wait after some events on a block, the next one first;
-- none where a call is not of the last accepted one still waiting.
def replay (block : Block) : List Event → List Destructor → Option (List Destructor)
  | [],waiting => some waiting
  | .accepted d :: rest,waiting => replay block rest (d :: waiting)
  | .refused _ :: rest,waiting => replay block rest waiting
  | .called _ _ :: _,[] => none
  | .called d active :: rest,next :: waiting => if d = next ∧ active = block then replay block rest waiting else none

def acceptedIn : List Event → List Destructor
  | [] => []
  | .accepted d :: rest => d :: acceptedIn rest
  | _ :: rest => acceptedIn rest

def calledIn : List Event → List Destructor
  | [] => []
  | .called d _ :: rest => d :: calledIn rest
  | _ :: rest => calledIn rest

theorem replay_append (block : Block) (first later : List Event) (waiting : List Destructor) :
    replay block (first ++ later) waiting = (replay block first waiting).bind (replay block later) := by
  induction first generalizing waiting with
  | nil => rfl
  | cons event rest ih =>
      cases event with
      | accepted d => exact ih (d :: waiting)
      | refused d => exact ih waiting
      | called d active =>
          cases waiting with
          | nil => rfl
          | cons next waiting =>
              simp only [List.cons_append,replay]
              split
              · exact ih waiting
              · rfl

-- What was accepted was called or waits.
theorem replay_perm {block : Block} {events : List Event} {waiting rest : List Destructor}
    (replayed : replay block events waiting = some rest) :
    (waiting ++ acceptedIn events).Perm (calledIn events ++ rest) := by
  induction events generalizing waiting with
  | nil =>
      cases replayed
      exact List.Perm.of_eq (List.append_nil _)
  | cons event events ih =>
      cases event with
      | accepted d =>
          have order := ih replayed
          exact List.perm_middle.trans order
      | refused d => exact ih replayed
      | called d active =>
          cases waiting with
          | nil => cases replayed
          | cons next waiting =>
              simp only [replay] at replayed
              split at replayed
              · rename_i same
                obtain ⟨rfl,_⟩ := same
                exact (ih replayed).cons d
              · cases replayed

theorem perform_kept (c : Nat) (s : Storage) (action : Action) (block : Block) (active : s.tls.base c = block) :
    (perform c s action).1.tls.base c = block ∧
      replay block (perform c s action).2 (s.destructors block).entries =
        some ((perform c s action).1.destructors block).entries := by
  cases action with
  | assign context => exact ⟨active,rfl⟩
  | register d =>
      unfold perform cxaThreadAtexit
      dsimp only
      rw [active]
      by_cases room : (s.destructors block).entries.length < maxDestructors
      · rw [dif_pos room]
        refine ⟨active,?_⟩
        simp [replay,Storage.put]
      · rw [dif_neg room]
        exact ⟨active,rfl⟩

theorem performs_kept (c : Nat) (s : Storage) (actions : List Action) (block : Block) (active : s.tls.base c = block) :
    (performs c s actions).1.tls.base c = block ∧
      replay block (performs c s actions).2 (s.destructors block).entries =
        some ((performs c s actions).1.destructors block).entries := by
  induction actions generalizing s with
  | nil => exact ⟨active,rfl⟩
  | cons action rest ih =>
      obtain ⟨active',first⟩ := perform_kept c s action block active
      obtain ⟨active'',later⟩ := ih (perform c s action).1 active'
      refine ⟨active'',?_⟩
      show replay block ((perform c s action).2 ++ _) _ = _
      rw [replay_append,first]
      exact later


theorem activate_active (τ : Tls) (c : Nat) (block : Block) : (activate τ c block).base c = block := if_pos rfl

-- The times a thread runs: on which CPU, with what TLS state, and what it does.
structure Period where
  cpu : Nat
  tls : Tls
  actions : List Action

-- A thread's whole life on its block, idle_poll activating the block each time.
def lives (block : Block) (s : Storage) : List Period → Storage × List Event
  | [] => (s,[])
  | period :: rest =>
    let (t,first) := performs period.cpu {s with tls := activate period.tls period.cpu block} period.actions
    let (u,later) := lives block t rest
    (u,first ++ later)

theorem lives_kept (block : Block) (s : Storage) (periods : List Period) :
    replay block (lives block s periods).2 (s.destructors block).entries =
      some ((lives block s periods).1.destructors block).entries := by
  induction periods generalizing s with
  | nil => rfl
  | cons period rest ih =>
      obtain ⟨_,first⟩ := performs_kept period.cpu {s with tls := activate period.tls period.cpu block} period.actions
        block (activate_active _ _ _)
      show replay block ((performs period.cpu _ period.actions).2 ++ _) _ = _
      rw [replay_append,first]
      exact ih _

-- During the loop the block stays active and the events account for its destructors.
structure Orderly (c : Nat) (block : Block) (s : Destruction) : Prop where
  active : s.storage.tls.base c = block
  replayed : replay block s.events [] = some (s.storage.destructors block).entries

theorem destroyTurn_cases (body : Nat → Destructor → List Action) (c : Nat) (block : Block) (s : Destruction) :
    ((s.storage.destructors block).entries = [] ∧ destroyTurn body c block s = .ok (.done s)) ∨
      ∃ entry rest popped, (s.storage.destructors block).entries = entry :: rest ∧
        (popped.destructors block).entries = rest ∧ popped.tls = s.storage.tls ∧
        destroyTurn body c block s = .ok (.again ⟨(performs c popped (body s.calls entry)).1,
          s.events ++ .called entry (popped.tls.base c) :: (performs c popped (body s.calls entry)).2,s.calls+1⟩) := by
  unfold destroyTurn
  split
  · rename_i entries
    exact .inl ⟨entries,rfl⟩
  · rename_i entry rest entries
    have bounded : rest.length ≤ maxDestructors := by
      have before := (s.storage.destructors block).bounded
      rw [entries] at before
      exact Nat.le_trans (Nat.le_succ _) before
    exact .inr ⟨entry,rest,s.storage.put block ⟨rest,bounded⟩,entries,by simp [Storage.put],rfl,rfl⟩

theorem Orderly.turn {body : Nat → Destructor → List Action} (orderly : Orderly c block s)
    (step : destroyTurn body c block s = .ok (.again t)) : Orderly c block t := by
  obtain ⟨_,done⟩ | ⟨entry,rest,popped,entries,left,same,again⟩ := destroyTurn_cases body c block s
  · rw [done] at step
    cases step
  · rw [again] at step
    cases step
    have active : popped.tls.base c = block := by rw [same]; exact orderly.active
    obtain ⟨active',later⟩ := performs_kept c popped (body s.calls entry) block active
    refine ⟨active',?_⟩
    dsimp only
    rw [replay_append,orderly.replayed,entries]
    show replay block (.called entry (popped.tls.base c) :: _) (entry :: rest) = _
    rw [replay,if_pos ⟨rfl,active⟩,← left]
    exact later

-- The events of code that registers nothing leave the destructors as they are.
theorem performs_quiet (c : Nat) (s : Storage) {actions : List Action} (quiet : ∀ action ∈ actions, ∀ d, action ≠ .register d) :
    (performs c s actions).1.destructors = s.destructors := by
  induction actions generalizing s with
  | nil => rfl
  | cons action rest ih =>
      have first : (perform c s action).1.destructors = s.destructors := by
        cases action with
        | register d => exact absurd rfl (quiet _ List.mem_cons_self d)
        | assign context => rfl
      exact (ih (perform c s action).1 fun later member => quiet later (List.mem_cons_of_mem _ member)).trans first

-- From the n-th call on every turn leaves one destructor less; before it there
-- may be up to as many as the block can keep.
def remaining (n : Nat) (block : Block) (s : Destruction) : Nat :=
  (n - s.calls)*(maxDestructors+1) + (s.storage.destructors block).entries.length

theorem destroyTurn_shrinks {body : Nat → Destructor → List Action} {n : Nat}
    (quiet : ∀ k d, n ≤ k → ∀ action ∈ body k d, ∀ e, action ≠ .register e)
    (step : destroyTurn body c block s = .ok (.again t)) :
    remaining n block t < remaining n block s := by
  unfold remaining
  obtain ⟨_,done⟩ | ⟨entry,rest,popped,entries,left,same,again⟩ := destroyTurn_cases body c block s
  · rw [done] at step
    cases step
  · rw [again] at step
    cases step
    dsimp only
    by_cases late : n ≤ s.calls
    · rw [performs_quiet c popped (quiet s.calls entry late),left,entries,Nat.sub_eq_zero_of_le late,
        Nat.sub_eq_zero_of_le (Nat.le_succ_of_le late)]
      simp
    · have bounded := ((performs c popped (body s.calls entry)).1.destructors block).bounded
      have split : n - s.calls = (n - (s.calls+1)) + 1 := by omega
      rw [split,Nat.add_mul,Nat.one_mul]
      omega

theorem destroy_ends {body : Nat → Destructor → List Action} {n : Nat} (c : Nat) (block : Block)
    (quiet : ∀ k d, n ≤ k → ∀ action ∈ body k d, ∀ e, action ≠ .register e) (s : Destruction) :
    ∃ result, loop () (destroyTurn body c block) (remaining n block s + 1) s = .ok result := by
  have advances : ∀ t u, Reaches (destroyTurn body c block) s t → destroyTurn body c block t = .ok (.again u) →
      remaining n block u < remaining n block t := fun _ _ _ step => destroyTurn_shrinks quiet step
  obtain ⟨t,_,⟨_,stuck,_⟩ | ⟨result,_,ended⟩⟩ := loop_ends (remaining n block) () advances _ (Nat.lt_succ_self _)
  · obtain ⟨_,stays⟩ | ⟨_,_,_,_,_,_,again⟩ := destroyTurn_cases body c block t
    · rw [stays] at stuck
      cases stuck
    · rw [again] at stuck
      cases stuck
  · exact ⟨result,ended⟩

-- What tls::destroy should do with the destructors of a block.
structure RunsOnce (body : Nat → Destructor → List Action) (c : Nat) (block : Block) (s : Storage) (events : List Event) :
    Prop where
  -- each call so far was of the latest registered destructor not yet called, its block active
  order : ∀ t, Reaches (destroyTurn body c block) ⟨{s with tls := activate s.tls c block},events,0⟩ t → Orderly c block t
  -- none is left when it returns, and the caller's TLS is back
  complete : ∀ turns after, destroyBlock body c turns (some block) s events = .ok after →
    replay block after.events [] = some [] ∧ (calledIn after.events).Perm (acceptedIn after.events) ∧
    after.storage.tls.base c = s.tls.base c ∧ after.storage.tls.observed c = s.tls.observed c
  -- and it does return if there is an end to the registrations
  returns : ∀ n, (∀ k d, n ≤ k → ∀ action ∈ body k d, ∀ e, action ≠ .register e) →
    ∃ turns after, destroyBlock body c turns (some block) s events = .ok after

theorem runs_once (body : Nat → Destructor → List Action) (c : Nat) {s : Storage} {events : List Event}
    (history : replay block events [] = some (s.destructors block).entries) : RunsOnce body c block s events := by
  have order : ∀ t, Reaches (destroyTurn body c block) ⟨{s with tls := activate s.tls c block},events,0⟩ t →
      Orderly c block t := by
    intro t reaches
    exact reaches.keeps (fun _ _ _ orderly step => orderly.turn step) ⟨activate_active s.tls c block,history⟩
  refine ⟨order,fun turns after returned => ?_,fun n quiet => ?_⟩
  · unfold destroyBlock at returned
    dsimp only at returned
    split at returned
    · cases returned
    · rename_i result ended
      cases returned
      obtain ⟨last,reaches,ends⟩ := loop_returned _ ended
      obtain ⟨empty,stays⟩ | ⟨_,_,_,_,_,_,again⟩ := destroyTurn_cases body c block last
      · rw [stays] at ends
        cases ends
        have replayed := (order _ reaches).replayed
        rw [empty] at replayed
        have called := replay_perm replayed
        rw [List.append_nil,List.nil_append] at called
        refine ⟨replayed,called.symm,if_pos rfl,?_⟩
        simp [Destruction.deferred,Tls.observed,putBlock,Scheduler.put]
      · rw [again] at ends
        cases ends
  · let start : Destruction := ⟨{s with tls := activate s.tls c block},events,0⟩
    obtain ⟨result,ended⟩ := destroy_ends c block quiet start
    refine ⟨remaining n block start + 1,result.deferred c (s.tls.base c) (s.tls.observed c),?_⟩
    unfold destroyBlock
    dsimp only
    rw [ended]

-- Whatever a thread registered while it ran, and whatever its destructors
-- register while they run.
theorem destructors_run_once (body : Nat → Destructor → List Action) (s : Storage) (block : Block) (periods : List Period)
    (c : Nat) (τ : Tls) :
    RunsOnce body c block {(lives block (s.put block .none) periods).1 with tls := τ}
      (lives block (s.put block .none) periods).2 := by
  have history := lives_kept block (s.put block .none) periods
  have fresh : ((s.put block .none).destructors block).entries = [] := by simp [Storage.put,Destructors.none]
  rw [fresh] at history
  exact runs_once body c history

end ThreadContexts
