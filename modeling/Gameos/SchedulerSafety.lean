import Gameos.SchedulerStacks

namespace Scheduler
open TransitionRuns

-- Neither a table entry nor a stack is under two CPUs.
def Exclusive (s : State) : Prop := ∀ c c' seat seat', (s.cpus c).seat = some seat → (s.cpus c').seat = some seat' →
  seat.thread = seat'.thread ∨ seat.stack = seat'.stack → c = c'

-- A CPU about to load the registers of h finds them saved and h deserted.
def Deserted (s : State) (h : Nat) : Prop := (s.threads h).context.stack = (s.threads h).stack ∧
  ∀ c seat, (s.cpus c).seat = some seat → seat.thread ≠ h ∧ seat.stack ≠ (s.threads h).context.stack

theorem housed_exclusive (housed : Housed s) : Exclusive s := by
  intro c c' seat seat' seated seated' same
  apply housed.alone c c' seat seat' seated seated'
  rcases same with thread | stack
  · exact thread
  · obtain ⟨nonzero,here⟩ := housed.seats c seat seated
    obtain ⟨_,there⟩ := housed.seats c' seat' seated'
    exact housed.distinct _ _ (by rwa [here]) (by rw [here,there,stack])

theorem housed_deserted (housed : Housed s) (dispatched : (s.cpus c).stage = .dispatched h) : Deserted s h := by
  obtain ⟨nonzero,saved⟩ := housed.resumable c h (.inr (.inl dispatched))
  refine ⟨saved,?_⟩
  intro c' seat seated
  have elsewhere := housed.vacant c h (.inr (.inl dispatched)) c' seat seated
  refine ⟨elsewhere,?_⟩
  intro stack
  obtain ⟨_,here⟩ := housed.seats c' seat seated
  exact elsewhere (housed.distinct h seat.thread nonzero (by rw [here,stack,saved])).symm

theorem thread_on_one_cpu (run : Run Step Settled initialState actions s) :
    Exclusive s ∧ ∀ c h, (s.cpus c).stage = .dispatched h → Deserted s h := by
  obtain ⟨_,housed⟩ := run_housed run
  exact ⟨housed_exclusive housed,fun c h dispatched => housed_deserted housed dispatched⟩

-- The finite prefix of a run that a list of actions determines.
def after (s : State) (action : Action) : State :=
  match execute s action with
  | .moved t => t
  | _ => s

def perform (s : State) (actions : List Action) : State := actions.foldl after s

def Possible (s : State) : List Action → Bool
  | [] => true
  | action :: rest =>
    match execute s action with
    | .moved t => Possible t rest
    | _ => false

theorem possible_run (possible : Possible s actions = true) :
    Run Step (fun _ _ => True) s actions (perform s actions) := by
  induction actions generalizing s with
  | nil => exact .nil
  | cons action rest ih =>
    cases result : execute s action with
    | blocked => simp [Possible,result] at possible
    | asserted message => simp [Possible,result] at possible
    | moved t =>
      simp only [Possible,result] at possible
      have next : after s action = t := by simp [after,result]
      refine .cons trivial result ?_
      simpa [perform,next] using ih possible

def Action.cpu : Action → Nat
  | .reserve c _ _ | .prepare c | .enqueue c | .poll c | .dispatch c | .load c | .yield c | .finish c | .save c
  | .restore c | .observe c | .claim c | .detach c _ | .await c _ | .join c => c

-- An action moves no CPU but its own.
theorem step_frame (step : Step s action t) (other : c ≠ action.cpu) : t.cpus c = s.cpus c := by
  cases action with
  | claim =>
      obtain ⟨h,_,rfl | ⟨_,_,rfl⟩⟩ := claim_exact step
      · exact if_neg other
      · exact if_neg other
  | join => obtain ⟨h,_,_,rfl⟩ := join_exact step; exact if_neg other
  | reserve => obtain ⟨_,_,_,_,_,_,rfl⟩ := reserve_exact step; exact if_neg other
  | prepare => obtain ⟨_,_,_,_,rfl⟩ := prepare_exact step; exact if_neg other
  | enqueue => obtain ⟨_,_,_,_,rfl⟩ := enqueue_exact step; exact if_neg other
  | poll =>
      obtain ⟨_,_,_,⟨_,rfl⟩ | ⟨_,_,rfl⟩⟩ := poll_exact step
      · rfl
      · exact if_neg other
  | dispatch => obtain ⟨_,_,rfl⟩ := dispatch_exact step; exact if_neg other
  | load => obtain ⟨_,_,rfl⟩ := load_exact step; exact if_neg other
  | yield => obtain ⟨_,_,_,_,_,_,rfl⟩ := yield_exact step; exact if_neg other
  | finish => obtain ⟨_,_,_,_,rfl⟩ := finish_exact step; exact if_neg other
  | save => obtain ⟨_,_,_,rfl⟩ := save_exact step; exact if_neg other
  | restore => obtain ⟨_,_,_,rfl⟩ := restore_exact step; exact if_neg other
  | observe => obtain ⟨_,_,rfl⟩ := observe_exact step; exact if_neg other
  | detach => obtain ⟨_,rfl⟩ := detach_exact step; rfl
  | await => obtain ⟨_,_,rfl⟩ := await_exact step; exact if_neg other

theorem run_frame (run : Run Step admits s actions t) (others : ∀ action ∈ actions, c ≠ action.cpu) :
    t.cpus c = s.cpus c := by
  induction run with
  | nil => rfl
  | cons _ step _ ih =>
      rw [ih (fun a later => others a (by simp [later])),step_frame step (others _ (by simp))]

def launch : List Action := [.reserve 0 4096 none,.prepare 0,.enqueue 0,.poll 1,.dispatch 1,.load 1]

-- One thread spawned on CPU 0 and started on CPU 1, nobody leaving anything.
theorem launch_settled : Run Step Settled initialState launch (perform initialState launch) := by
  have spawned : Run Step Settled initialState (launch.take 3) (perform initialState (launch.take 3)) :=
    .cons trivial rfl (.cons trivial rfl (.cons trivial rfl .nil))
  have vacated : ∀ h, Vacated (perform initialState (launch.take 3)) h := by
    intro h c saved
    by_cases zero : c = 0
    · subst zero
      have client : ((perform initialState (launch.take 3)).cpus 0).stage = .client := by decide
      rw [client]
      simp
    · rw [run_frame spawned (by simpa [launch,Action.cpu] using zero)]
      simp [initialState]
  exact spawned.append (.cons (fun h _ => vacated h) rfl (.cons trivial rfl (.cons trivial rfl .nil)))

theorem thread_on_one_cpu_launch : ((perform initialState launch).cpus 1).seat = some ⟨0,4096⟩ ∧
    Exclusive (perform initialState launch) :=
  ⟨by decide,(thread_on_one_cpu launch_settled).1⟩

-- CPU 1 yields; before it has saved a register, CPU 2 loads the stale context.
theorem yielded_thread_on_two_cpus : ∃ actions s, Run Step (fun _ _ => True) initialState actions s ∧
    ¬ Exclusive s := by
  have possible : Possible initialState (launch ++ [.yield 1,.poll 2,.dispatch 2,.load 2]) = true := by
    decide
  refine ⟨_,_,possible_run possible,?_⟩
  intro exclusive
  have same := exclusive 1 2 ⟨0,4096⟩ ⟨0,4096⟩ (by decide) (by decide) (.inl rfl)
  cases same

theorem released_reclaims (step : Step s action t) (live : stack ∈ s.storage) (released : stack ∉ t.storage) :
    ∃ c h, Reclaims s c h t ∧ (action = .claim c ∨ action = .join c) ∧ stack = (s.threads h).stack := by
  have erased : ∀ {c h}, Reclaims s c h t → stack = (s.threads h).stack := by
    intro c h reclaims
    by_contra other
    obtain ⟨_,_,rfl⟩ := reclaims
    exact released ((List.mem_erase_of_ne other).mpr live)
  cases action with
  | claim c =>
      obtain ⟨h,_,rfl | reclaims⟩ := claim_exact step
      · exact absurd live released
      · exact ⟨c,h,reclaims,.inl rfl,erased reclaims⟩
  | join c =>
      obtain ⟨h,reclaims⟩ := join_exact step
      exact ⟨c,h,reclaims,.inr rfl,erased reclaims⟩
  | reserve c =>
      obtain ⟨_,_,_,_,_,_,rfl⟩ := reserve_exact step
      exact absurd (List.mem_cons_of_mem _ live) released
  | prepare c => obtain ⟨_,_,_,_,rfl⟩ := prepare_exact step; exact absurd live released
  | enqueue c => obtain ⟨_,_,_,_,rfl⟩ := enqueue_exact step; exact absurd live released
  | poll c => obtain ⟨_,_,_,⟨_,rfl⟩ | ⟨_,_,rfl⟩⟩ := poll_exact step <;> exact absurd live released
  | dispatch c => obtain ⟨_,_,rfl⟩ := dispatch_exact step; exact absurd live released
  | load c => obtain ⟨_,_,rfl⟩ := load_exact step; exact absurd live released
  | yield c => obtain ⟨_,_,_,_,_,_,rfl⟩ := yield_exact step; exact absurd live released
  | finish c => obtain ⟨_,_,_,_,rfl⟩ := finish_exact step; exact absurd live released
  | save c => obtain ⟨_,_,_,rfl⟩ := save_exact step; exact absurd live released
  | restore c => obtain ⟨_,_,_,rfl⟩ := restore_exact step; exact absurd live released
  | observe c => obtain ⟨_,_,rfl⟩ := observe_exact step; exact absurd live released
  | detach c h => obtain ⟨_,rfl⟩ := detach_exact step; exact absurd live released
  | await c h => obtain ⟨_,_,rfl⟩ := await_exact step; exact absurd live released

def finished : State := perform initialState (launch ++ [.finish 1,.await 0 0])

end Scheduler
