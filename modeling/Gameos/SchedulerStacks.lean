import Gameos.SchedulerInvariant
import Gameos.TransitionRuns

namespace Scheduler
open TransitionRuns

-- No CPU is between the section in which it yielded or finished this thread
-- and the load of its own idle context.
def Vacated (s : State) (h : Nat) : Prop := ∀ c saved, (s.cpus c).stage ≠ .leaving h saved

-- idle_poll dequeues, and join or idle_poll reclaims, only vacated threads.
def Settled (s : State) : Action → Prop
  | .poll c => ∀ h, s.readyQueue.contents.find? (eligible s c) = some h → Vacated s h
  | .claim c | .join c => ∀ h, (s.cpus c).stage = .claiming h ∨ (s.cpus c).stage = .joining h → Vacated s h
  | _ => True

-- Each live stack has one owner in the table, each CPU off its idle stack sits
-- on the stack of its thread, and a saved context points into it.
structure Housed (s : State) : Prop where
  seats : ∀ c seat, (s.cpus c).seat = some seat → seat.stack ≠ 0 ∧ (s.threads seat.thread).stack = seat.stack
  alone : ∀ c c' seat seat', (s.cpus c).seat = some seat → (s.cpus c').seat = some seat' →
    seat.thread = seat'.thread → c = c'
  departing : ∀ c h saved seat, (s.cpus c).stage = .leaving h saved → (s.cpus c).seat = some seat →
    seat.thread = h ∧ ((s.threads h).state = .done ∨ h ∈ s.readyQueue.contents)
  waiting : ∀ h ∈ s.readyQueue.contents, (s.threads h).stack ≠ 0 ∧
    ((s.threads h).context.stack = (s.threads h).stack ∨ ∃ c, (s.cpus c).stage = .leaving h false)
  resumable : ∀ c h, (s.cpus c).stage = .held h ∨ (s.cpus c).stage = .dispatched h ∨ (s.cpus c).stage = .created h →
    (s.threads h).stack ≠ 0 ∧ (s.threads h).context.stack = (s.threads h).stack
  vacant : ∀ c h, (s.cpus c).stage = .held h ∨ (s.cpus c).stage = .dispatched h ∨ (s.cpus c).stage = .created h →
    ∀ c' seat, (s.cpus c').seat = some seat → seat.thread ≠ h
  fresh : ∀ c h stack affinity, (s.cpus c).stage = .creating h stack affinity →
    (s.threads h).stack = 0 ∧ stack ≠ 0 ∧ stack ∈ s.storage ∧ ∀ h', (s.threads h').stack ≠ stack
  apart : ∀ c c' h h' stack affinity affinity', (s.cpus c).stage = .creating h stack affinity →
    (s.cpus c').stage = .creating h' stack affinity' → c = c'
  owned : ∀ h, (s.threads h).stack ≠ 0 → (s.threads h).stack ∈ s.storage ∧ (s.threads h).state ≠ .free
  distinct : ∀ h h', (s.threads h).stack ≠ 0 → (s.threads h).stack = (s.threads h').stack → h = h'

theorem initial_housed : Housed initialState := by
  constructor <;> simp [initialState,RingBuffer.contents_empty,Thread.init]

section Housed
variable {s t : State}

theorem active_seat (active : (s.cpus c).active = some h) (seated : (s.cpus c).seat = some seat) :
    seat.thread = h := by
  simp only [Cpu.active,seated] at active
  split at active
  · cases active
  · simpa using active

-- A CPU on the stack of h either runs h or has given it up and not left yet.
theorem seat_running (housed : Housed s) (vacated : Vacated s h)
    (seated : (s.cpus c).seat = some seat) (here : seat.thread = h) : (s.cpus c).active = some h := by
  cases stage : (s.cpus c).stage with
  | leaving g saved =>
      have gone := (housed.departing c g saved seat stage seated).1
      rw [here] at gone
      subst gone
      exact absurd stage (vacated c saved)
  | client | held g | dispatched g | returned g | claiming g | creating g stack affinity | created g
  | joining g => simp [Cpu.active,stage,Stage.departing,seated,here]

theorem housed_reserve (housed : Housed s) (step : Step s (.reserve c stack affinity) t) : Housed t := by
  obtain ⟨client,nonzero,unused,h,bound,free,rfl⟩ := reserve_exact step
  cases housed
  constructor <;> grind

theorem housed_prepare (ordered : Ordered s) (housed : Housed s) (step : Step s (.prepare c) t) : Housed t := by
  obtain ⟨h,stack,affinity,creating,rfl⟩ := prepare_exact step
  have ready := (ordered.creating c h stack affinity creating).1
  have absent : h ∉ s.readyQueue.contents := fun present =>
    ordered.unclaimed h present c (.inl (by rw [creating]; rfl))
  have alone : ∀ c' stack' affinity', (s.cpus c').stage = .creating h stack' affinity' → c' = c := by
    intro c' stack' affinity' other
    exact ordered.unique c' c h (.inl (by rw [other]; rfl)) (.inl (by rw [creating]; rfl))
  cases housed
  constructor <;> grind

theorem housed_enqueue (housed : Housed s) (step : Step s (.enqueue c) t) : Housed t := by
  obtain ⟨h,queue,created,contents,rfl⟩ := enqueue_exact step
  cases housed
  constructor <;> grind

-- The only step that needs the condition: a queued thread may still be left.
theorem housed_poll (ordered : Ordered s) (housed : Housed s) (settled : Settled s (.poll c))
    (step : Step s (.poll c) t) : Housed t := by
  obtain ⟨idle,queue,contents,⟨nobody,rfl⟩ | ⟨h,found,rfl⟩⟩ := poll_exact step
  · have same : queue.contents = s.readyQueue.contents := by
      rw [contents,List.eraseP_of_forall_not (by simpa using List.find?_eq_none.mp nobody)]
    cases housed
    constructor <;> grind
  · have vacated := settled h found
    have present : h ∈ s.readyQueue.contents := List.mem_of_find?_eq_some found
    have others : ∀ x ∈ s.readyQueue.contents, x ≠ h → x ∈ queue.contents := by
      intro x here different
      rw [contents]
      exact kept_others found here different
    have fewer : ∀ x ∈ queue.contents, x ∈ s.readyQueue.contents := by
      rw [contents]; exact fun x here => List.mem_of_mem_eraseP here
    have empty : ∀ c' seat, (s.cpus c').seat = some seat → seat.thread ≠ h := by
      intro c' seat seated here
      exact ordered.unclaimed h present c' (.inr (seat_running housed vacated seated here))
    have saved : (s.threads h).context.stack = (s.threads h).stack := by
      rcases (housed.waiting h present).2 with same | ⟨c',leaving⟩
      · exact same
      · exact absurd leaving (vacated c' false)
    cases housed
    constructor <;> grind

theorem housed_dispatch (housed : Housed s) (step : Step s (.dispatch c) t) : Housed t := by
  obtain ⟨h,held,rfl⟩ := dispatch_exact step
  cases housed
  constructor <;> grind

theorem housed_load (ordered : Ordered s) (housed : Housed s) (step : Step s (.load c) t) : Housed t := by
  obtain ⟨h,dispatched,rfl⟩ := load_exact step
  have mine : Claims (s.cpus c) h := .inl (by rw [dispatched]; rfl)
  have unique := ordered.unique
  cases housed
  constructor <;> grind

theorem housed_yield (ordered : Ordered s) (housed : Housed s) (step : Step s (.yield c) t) : Housed t := by
  obtain ⟨seated,client,h,queue,current,contents,rfl⟩ := yield_exact step
  have active := current_active ordered client current
  have absent : h ∉ s.readyQueue.contents := fun present => ordered.unclaimed h present c (.inr active)
  obtain ⟨seat,seated⟩ := Option.ne_none_iff_exists'.mp seated
  have here := active_seat active seated
  have house := housed.seats c seat seated
  cases housed
  constructor <;> grind

theorem housed_finish (ordered : Ordered s) (housed : Housed s) (step : Step s (.finish c) t) : Housed t := by
  obtain ⟨seated,client,h,current,rfl⟩ := finish_exact step
  have active := current_active ordered client current
  have absent : h ∉ s.readyQueue.contents := fun present => ordered.unclaimed h present c (.inr active)
  obtain ⟨seat,seated⟩ := Option.ne_none_iff_exists'.mp seated
  have here := active_seat active seated
  cases housed
  constructor <;> grind

-- The registers saved are those of the stack the CPU is on, the thread's own.
theorem housed_save (housed : Housed s) (step : Step s (.save c) t) : Housed t := by
  obtain ⟨seat,h,leaving,rfl⟩ := save_exact step
  have here := (housed.departing c h false seat (by rw [leaving]) (by rw [leaving])).1
  cases housed
  constructor <;> grind

theorem housed_restore (housed : Housed s) (step : Step s (.restore c) t) : Housed t := by
  obtain ⟨seat,h,leaving,rfl⟩ := restore_exact step
  cases housed
  constructor <;> grind

theorem housed_observe (housed : Housed s) (step : Step s (.observe c) t) : Housed t := by
  obtain ⟨h,returned,rfl⟩ := observe_exact step
  cases housed
  constructor <;> grind

-- Nobody runs a DONE thread and, once vacated, nobody is leaving it.
theorem done_empty (ordered : Ordered s) (housed : Housed s) (vacated : Vacated s h)
    (done : (s.threads h).state = .done) : ∀ c seat, (s.cpus c).seat = some seat → seat.thread ≠ h := by
  intro c seat seated here
  have active := seat_running housed vacated seated here
  exact idle_unclaimed ordered (.inr done) c (.inr active)

theorem housed_reclaim (ordered : Ordered s) (housed : Housed s) (vacated : Vacated s h)
    (reclaims : Reclaims s c h t) : Housed t := by
  obtain ⟨stage,done,rfl⟩ := reclaims
  have empty := done_empty ordered housed vacated done
  have absent := idle_absent ordered (.inr done)
  have unclaimed := idle_unclaimed ordered (.inr done)
  simp only [reclaim,Thread.init]
  cases housed
  constructor <;> grind

theorem housed_detach (housed : Housed s) (step : Step s (.detach c h) t) : Housed t := by
  obtain ⟨client,rfl⟩ := detach_exact step
  cases housed
  constructor <;> grind

theorem housed_stage (housed : Housed s) (before : (s.cpus c).stage = .client ∨ (s.cpus c).stage = .claiming h)
    (after : stage = .client ∨ stage = .joining h) : Housed {s with cpus := s.atStage c stage} := by
  cases housed
  constructor <;> grind

theorem housed_preserved (ordered : Ordered s) (housed : Housed s) (settled : Settled s action)
    (step : Step s action t) : Housed t := by
  cases action with
  | reserve => exact housed_reserve housed step
  | prepare => exact housed_prepare ordered housed step
  | enqueue => exact housed_enqueue housed step
  | poll => exact housed_poll ordered housed settled step
  | dispatch => exact housed_dispatch housed step
  | load => exact housed_load ordered housed step
  | yield => exact housed_yield ordered housed step
  | finish => exact housed_finish ordered housed step
  | save => exact housed_save housed step
  | restore => exact housed_restore housed step
  | observe => exact housed_observe housed step
  | claim =>
      obtain ⟨h,stage,rfl | reclaims⟩ := claim_exact step
      · exact housed_stage housed (.inr stage) (.inl rfl)
      · exact housed_reclaim ordered housed (settled h (.inl stage)) reclaims
  | detach => exact housed_detach housed step
  | await =>
      obtain ⟨client,_,rfl⟩ := await_exact step
      exact housed_stage housed (.inl client) (.inr rfl)
  | join =>
      obtain ⟨h,reclaims⟩ := join_exact step
      exact housed_reclaim ordered housed (settled h reclaims.1) reclaims

theorem run_housed (run : Run Step Settled initialState actions s) : Ordered s ∧ Housed s :=
  run.keeps (fun s => Ordered s ∧ Housed s)
    (fun _ _ _ both settled step => ⟨ordered_preserved both.1 step,housed_preserved both.1 both.2 settled step⟩)
    ⟨initial_ordered,initial_housed⟩

end Housed

end Scheduler
