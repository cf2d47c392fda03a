import Gameos.SchedulerSafety
import Gameos.WaitingLines

namespace Scheduler
open TransitionRuns WaitingLines

-- What a step does to the line before the CPUs, and to the affinities in it.
inductive LineStep (s : State) : Action → State → Prop where
  | joined (more : List Nat) : (∀ c, action ≠ .poll c) → t.readyQueue.contents = s.readyQueue.contents ++ more →
      LineStep s action t
  | taken (c : Nat) : t.readyQueue.contents = s.readyQueue.contents.eraseP (eligible s c) →
      (∀ h, s.readyQueue.contents.find? (eligible s c) = some h → (t.cpus c).stage = .held h) →
      LineStep s (.poll c) t

theorem line_kept (other : ∀ c, action ≠ .poll c) (same : t.readyQueue = s.readyQueue) : LineStep s action t :=
  .joined [] other (by rw [same,List.append_nil])

theorem step_line (step : Step s action t) : LineStep s action t := by
  cases action with
  | enqueue =>
      obtain ⟨h,queue,_,contents,rfl⟩ := enqueue_exact step
      exact .joined [h] (by simp) contents
  | yield =>
      obtain ⟨_,_,h,queue,_,contents,rfl⟩ := yield_exact step
      exact .joined [h] (by simp) contents
  | poll c =>
      obtain ⟨_,queue,contents,⟨nobody,rfl⟩ | ⟨h,found,rfl⟩⟩ := poll_exact step
      · exact .taken c contents fun h found => by rw [nobody] at found; cases found
      · refine .taken c contents fun h' found' => ?_
        rw [found] at found'
        cases found'
        exact congrArg Cpu.stage put_same
  | reserve => obtain ⟨_,_,_,_,_,_,rfl⟩ := reserve_exact step; exact line_kept (by simp) rfl
  | prepare => obtain ⟨_,_,_,_,rfl⟩ := prepare_exact step; exact line_kept (by simp) rfl
  | dispatch => obtain ⟨_,_,rfl⟩ := dispatch_exact step; exact line_kept (by simp) rfl
  | load => obtain ⟨_,_,rfl⟩ := load_exact step; exact line_kept (by simp) rfl
  | finish => obtain ⟨_,_,_,_,rfl⟩ := finish_exact step; exact line_kept (by simp) rfl
  | save => obtain ⟨_,_,_,rfl⟩ := save_exact step; exact line_kept (by simp) rfl
  | restore => obtain ⟨_,_,_,rfl⟩ := restore_exact step; exact line_kept (by simp) rfl
  | observe => obtain ⟨_,_,rfl⟩ := observe_exact step; exact line_kept (by simp) rfl
  | claim =>
      obtain ⟨_,_,rfl | ⟨_,_,rfl⟩⟩ := claim_exact step
      · exact line_kept (by simp) rfl
      · exact line_kept (by simp) rfl
  | detach => obtain ⟨_,rfl⟩ := detach_exact step; exact line_kept (by simp) rfl
  | await => obtain ⟨_,_,rfl⟩ := await_exact step; exact line_kept (by simp) rfl
  | join => obtain ⟨_,_,_,rfl⟩ := join_exact step; exact line_kept (by simp) rfl

-- create_thread writes the affinity of its own entry; reclaim clears that of a
-- DONE one.
theorem affinity_written (step : Step s action t) (changed : (t.threads h).cpuAffinity ≠ (s.threads h).cpuAffinity) :
    (∃ c stack affinity, (s.cpus c).stage = .creating h stack affinity) ∨ (s.threads h).state = .done := by
  cases action with
  | prepare =>
      obtain ⟨g,stack,affinity,creating,rfl⟩ := prepare_exact step
      by_cases same : h = g
      · exact .inl ⟨_,_,_,same ▸ creating⟩
      · exact absurd (congrArg Thread.cpuAffinity (put_other same)) changed
  | claim =>
      obtain ⟨g,_,rfl | ⟨_,done,rfl⟩⟩ := claim_exact step
      · exact absurd rfl changed
      · by_cases same : h = g
        · exact .inr (same ▸ done)
        · exact absurd (congrArg Thread.cpuAffinity (put_other same)) changed
  | join =>
      obtain ⟨g,_,done,rfl⟩ := join_exact step
      by_cases same : h = g
      · exact .inr (same ▸ done)
      · exact absurd (congrArg Thread.cpuAffinity (put_other same)) changed
  | reserve => obtain ⟨_,_,_,_,_,_,rfl⟩ := reserve_exact step; grind
  | enqueue => obtain ⟨_,_,_,_,rfl⟩ := enqueue_exact step; exact absurd rfl changed
  | poll => obtain ⟨_,_,_,⟨_,rfl⟩ | ⟨_,_,rfl⟩⟩ := poll_exact step <;> exact absurd rfl changed
  | dispatch => obtain ⟨_,_,rfl⟩ := dispatch_exact step; grind
  | load => obtain ⟨_,_,rfl⟩ := load_exact step; exact absurd rfl changed
  | yield => obtain ⟨_,_,_,_,_,_,rfl⟩ := yield_exact step; grind
  | finish => obtain ⟨_,_,_,_,rfl⟩ := finish_exact step; grind
  | save => obtain ⟨_,_,_,rfl⟩ := save_exact step; grind
  | restore => obtain ⟨_,_,_,rfl⟩ := restore_exact step; exact absurd rfl changed
  | observe => obtain ⟨_,_,rfl⟩ := observe_exact step; exact absurd rfl changed
  | detach => obtain ⟨_,rfl⟩ := detach_exact step; grind
  | await => obtain ⟨_,_,rfl⟩ := await_exact step; exact absurd rfl changed

theorem queued_affinity (ordered : Ordered s) (step : Step s action t) (queued : h ∈ s.readyQueue.contents) :
    (t.threads h).cpuAffinity = (s.threads h).cpuAffinity := by
  by_contra changed
  rcases affinity_written step changed with ⟨c,_,_,creating⟩ | done
  · exact ordered.unclaimed h queued c (.inl (by rw [creating]; rfl))
  · exact idle_absent ordered (.inr done) queued

def mayTake (s : State) (group : List Nat) (h : Nat) : Bool := group.any fun c => eligible s c h

-- The threads before h in the line that some CPU of the group may run.
def turns (s : State) (group : List Nat) (h : Nat) : Nat := ahead (mayTake s group) h s.readyQueue.contents

def polls (group : List Nat) : Action → Bool
  | .poll c => group.contains c
  | _ => false

structure Waiting (s : State) (group : List Nat) (h : Nat) : Prop where
  ordered : Ordered s
  queued : h ∈ s.readyQueue.contents
  fit : ∀ c ∈ group, eligible s c h = true

def Takes (h : Nat) (s : State) (action : Action) (t : State) : Prop :=
  ∃ c, action = .poll c ∧ eligible s c h = true ∧ (t.cpus c).stage = .held h ∧ h ∉ t.readyQueue.contents

theorem waiting_step (waiting : Waiting s group h) (step : Step s action t) :
    Takes h s action t ∨
      (Waiting t group h ∧ turns t group h + (if polls group action then 1 else 0) ≤ turns s group h) := by
  have ordered := ordered_preserved waiting.ordered step
  have affinities : ∀ c, ∀ x ∈ s.readyQueue.contents, eligible t c x = eligible s c x := by
    intro c x queued
    rw [eligible,eligible,queued_affinity waiting.ordered step queued]
  have fit : ∀ c ∈ group, eligible t c h = true := fun c member => by
    rw [affinities c h waiting.queued]
    exact waiting.fit c member
  have members : ∀ x ∈ s.readyQueue.contents, mayTake t group x = mayTake s group x := by
    intro x queued
    simp only [mayTake,affinities _ x queued]
  cases step_line step with
  | joined more other joined =>
      refine .inr ⟨⟨ordered,by rw [joined]; exact List.mem_append_left _ waiting.queued,fit⟩,?_⟩
      have quiet : polls group action = false := by
        cases action with
        | poll c => exact absurd rfl (other c)
        | _ => rfl
      rw [turns,turns,joined,ahead_append waiting.queued,ahead_congr members,quiet]
      simp
  | taken c left held =>
      by_cases mine : s.readyQueue.contents.find? (eligible s c) = some h
      · refine .inl ⟨c,rfl,List.find?_some mine,held h mine,?_⟩
        rw [left]
        exact chosen_gone waiting.ordered.distinct mine
      · obtain ⟨kept,fewer⟩ := ahead_erase (mayTake s group) waiting.queued mine
        have later : turns t group h = ahead (mayTake s group) h (s.readyQueue.contents.eraseP (eligible s c)) := by
          rw [turns,left]
          exact ahead_congr fun x queued => members x (List.mem_of_mem_eraseP queued)
        refine .inr ⟨⟨ordered,by rwa [left],fit⟩,?_⟩
        rw [later]
        by_cases member : c ∈ group
        · have turn := ahead_taken (mayTake s group) waiting.queued mine (waiting.fit c member) fun x wanted =>
            List.any_eq_true.mpr ⟨c,member,wanted⟩
          simpa [polls,member,turns] using turn
        · simpa [polls,member,turns] using fewer

theorem turns_bounded (waiting : Waiting s group h) : turns s group h < threadMaxCount := by
  have before := ahead_lt_length (mayTake s group) waiting.queued
  rw [RingBuffer.contents_length] at before
  have capacity := s.readyQueue.size_le
  rw [turns]
  omega

def Served (s : State) (calls : List Action) (t : State) (group : List Nat) (h : Nat) : Prop :=
  ∃ first call rest before after, calls = first ++ call :: rest ∧ first.countP (polls group) ≤ turns s group h ∧
    Run Step (fun _ _ => True) s first before ∧ Step before call after ∧ Takes h before call after ∧
    Run Step (fun _ _ => True) after rest t

-- No starvation: a queued thread is taken before the CPUs that may run it have
-- polled more often than there are threads of theirs before it.
theorem thread_served (early : Run Step (fun _ _ => True) initialState actions s) (queued : h ∈ s.readyQueue.contents)
    (fit : ∀ c ∈ group, eligible s c h = true) (later : Run Step (fun _ _ => True) s calls t) :
    turns s group h < threadMaxCount ∧ (Served s calls t group h ∨
      (h ∈ t.readyQueue.contents ∧ turns t group h + calls.countP (polls group) ≤ turns s group h)) := by
  have ordered : Ordered s := early.keeps Ordered (fun _ _ _ ordered _ step => ordered_preserved ordered step) initial_ordered
  have waiting : Waiting s group h := ⟨ordered,queued,fit⟩
  refine ⟨turns_bounded waiting,?_⟩
  rcases later.served (turns · group h) (polls group) (fun _ _ _ => waiting_step) waiting with
    ⟨first,call,rest,before,after,split,few,waited,_,step,takes,remaining⟩ | ⟨still,few⟩
  · exact .inl ⟨first,call,rest,before,after,split,few,waited,step,takes,remaining⟩
  · exact .inr ⟨still.queued,few⟩

-- Thread 0 may run anywhere; thread 1, behind it, on CPU 2 only.
def spawnTwo : List Action :=
  [.reserve 0 4096 none,.prepare 0,.enqueue 0,.reserve 0 8192 (some 2),.prepare 0,.enqueue 0]

def twoQueued : State := perform initialState spawnTwo

theorem second_served : turns twoQueued [2] 1 = 1 ∧
    Served twoQueued [.poll 1,.poll 2] (perform twoQueued [.poll 1,.poll 2]) [2] 1 := by
  have early : Run Step (fun _ _ => True) initialState spawnTwo twoQueued := possible_run (by decide)
  have later : Run Step (fun _ _ => True) twoQueued [.poll 1,.poll 2] (perform twoQueued [.poll 1,.poll 2]) :=
    possible_run (by decide)
  have fit : ∀ c ∈ [2], eligible twoQueued c 1 = true := by decide
  obtain ⟨_,served | ⟨still,_⟩⟩ := thread_served early (by decide) fit later
  · exact ⟨by decide,served⟩
  · exact absurd still (by decide)

section Affinity

-- A thread is in the hands of a CPU from its dequeue until it yields or finishes.
def Handles (cpu : Cpu) (h : Nat) : Prop := cpu.stage = .held h ∨ cpu.stage = .dispatched h ∨ cpu.active = some h

attribute [local grind =] Handles

theorem handles_claims (handles : Handles cpu h) : Claims cpu h := by
  rcases handles with held | dispatched | active
  · exact .inl (by rw [held]; rfl)
  · exact .inl (by rw [dispatched]; rfl)
  · exact .inr active

theorem handled_affinity (ordered : Ordered s) (step : Step s action t) (handles : Handles (s.cpus c) h) :
    (t.threads h).cpuAffinity = (s.threads h).cpuAffinity := by
  by_contra changed
  rcases affinity_written step changed with ⟨c',stack,affinity,creating⟩ | done
  · obtain rfl := ordered.unique c c' h (handles_claims handles) (.inl (by rw [creating]; rfl))
    rcases handles with held | dispatched | active
    · rw [held] at creating
      cases creating
    · rw [dispatched] at creating
      cases creating
    · exact (ordered.creating c h stack affinity creating).2 active
  · exact idle_unclaimed ordered (.inr done) c (handles_claims handles)

-- Only a poll puts a thread into the hands of a CPU.
theorem handles_before (step : Step s action t) (handles : Handles (t.cpus c) h) :
    Handles (s.cpus c) h ∨ (action = .poll c ∧ s.readyQueue.contents.find? (eligible s c) = some h) := by
  cases action with
  | poll => obtain ⟨_,_,_,⟨_,rfl⟩ | ⟨_,_,rfl⟩⟩ := poll_exact step <;> grind
  | reserve => obtain ⟨_,_,_,_,_,_,rfl⟩ := reserve_exact step; grind
  | prepare => obtain ⟨_,_,_,_,rfl⟩ := prepare_exact step; grind
  | enqueue => obtain ⟨_,_,_,_,rfl⟩ := enqueue_exact step; grind
  | dispatch => obtain ⟨_,_,rfl⟩ := dispatch_exact step; grind
  | load => obtain ⟨_,_,rfl⟩ := load_exact step; grind
  | yield => obtain ⟨_,_,_,_,_,_,rfl⟩ := yield_exact step; grind
  | finish => obtain ⟨_,_,_,_,rfl⟩ := finish_exact step; grind
  | save => obtain ⟨_,_,_,rfl⟩ := save_exact step; grind
  | restore => obtain ⟨_,_,_,rfl⟩ := restore_exact step; grind
  | observe => obtain ⟨_,_,rfl⟩ := observe_exact step; grind
  | claim => obtain ⟨_,_,rfl | ⟨_,_,rfl⟩⟩ := claim_exact step <;> grind
  | detach => obtain ⟨_,rfl⟩ := detach_exact step; grind
  | await => obtain ⟨_,_,rfl⟩ := await_exact step; grind
  | join => obtain ⟨_,_,_,rfl⟩ := join_exact step; grind

def Affine (s : State) : Prop := ∀ c h, Handles (s.cpus c) h → eligible s c h = true

theorem affine_step (ordered : Ordered s) (affine : Affine s) (step : Step s action t) : Affine t := by
  intro c h handles
  rcases handles_before step handles with before | ⟨rfl,found⟩
  · rw [eligible,handled_affinity ordered step before]
    exact affine c h before
  · rw [eligible,queued_affinity ordered step (List.mem_of_find?_eq_some found)]
    have fit : eligible s c h = true := List.find?_some found
    exact fit

-- Whatever CPU holds, dispatches or executes a thread, or names it as current,
-- is one the thread is bound to.
theorem affinity_kept (run : Run Step (fun _ _ => True) initialState actions s)
    (here : Handles (s.cpus c) h ∨ s.currentThreads c = some h) :
    (s.threads h).cpuAffinity = none ∨ (s.threads h).cpuAffinity = some c := by
  obtain ⟨ordered,affine⟩ : Ordered s ∧ Affine s :=
    run.keeps (fun s => Ordered s ∧ Affine s)
      (fun _ _ _ kept _ step => ⟨ordered_preserved kept.1 step,affine_step kept.1 kept.2 step⟩)
      ⟨initial_ordered,fun _ _ handles => by rcases handles with held | dispatched | active <;> cases ‹_›⟩
  have handles : Handles (s.cpus c) h := by
    rcases here with handles | current
    · exact handles
    · rcases ordered.current c h current with dispatched | active
      · exact .inr (.inl dispatched)
      · exact .inr (.inr active)
  simpa [eligible] using affine c h handles

def boundRunning : State := perform initialState (spawnTwo ++ [.poll 1,.poll 2,.dispatch 2])

theorem affinity_kept_bound : (boundRunning.threads 1).state = .running ∧
    ((boundRunning.threads 1).cpuAffinity = none ∨ (boundRunning.threads 1).cpuAffinity = some 2) := by
  have run : Run Step (fun _ _ => True) initialState (spawnTwo ++ [.poll 1,.poll 2,.dispatch 2]) boundRunning :=
    possible_run (by decide)
  exact ⟨by decide,affinity_kept run (.inr (by decide))⟩

end Affinity

end Scheduler
