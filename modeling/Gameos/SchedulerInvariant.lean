import Gameos.Scheduler

namespace Scheduler

theorem put_same : put f i x i = x := if_pos rfl
theorem put_other (other : j ≠ i) : put f i x j = f j := if_neg other

-- The table entry a stage refers to as its own.
def Stage.entry : Stage → Option Nat
  | .held h | .dispatched h | .creating h _ _ | .created h => some h
  | _ => none

def Stage.departing : Stage → Bool
  | .leaving _ _ => true
  | _ => false

-- The thread a CPU runs; one that has yielded or finished no longer counts.
def Cpu.active (cpu : Cpu) : Option Nat :=
  if cpu.stage.departing then none else cpu.seat.map (·.thread)

def Claims (cpu : Cpu) (h : Nat) : Prop := cpu.stage.entry = some h ∨ cpu.active = some h

-- One owner for every thread that is neither FREE nor DONE: the queue or a CPU.
structure Ordered (s : State) : Prop where
  distinct : s.readyQueue.contents.Nodup
  queued : ∀ h ∈ s.readyQueue.contents, h < threadMaxCount ∧ (s.threads h).state = .ready
  unclaimed : ∀ h ∈ s.readyQueue.contents, ∀ c, ¬ Claims (s.cpus c) h
  unique : ∀ c c' h, Claims (s.cpus c) h → Claims (s.cpus c') h → c = c'
  bounded : ∀ c h, Claims (s.cpus c) h → h < threadMaxCount
  held : ∀ c h, (s.cpus c).stage = .held h → (s.cpus c).seat = none ∧ (s.threads h).state = .ready
  dispatched : ∀ c h, (s.cpus c).stage = .dispatched h →
    (s.cpus c).seat = none ∧ (s.threads h).state = .running ∧ s.currentThreads c = some h
  back : ∀ c h, (s.cpus c).stage = .returned h ∨ (s.cpus c).stage = .claiming h → (s.cpus c).seat = none
  leaving : ∀ c h saved, (s.cpus c).stage = .leaving h saved → (s.cpus c).seat ≠ none
  creating : ∀ c h stack affinity, (s.cpus c).stage = .creating h stack affinity →
    (s.threads h).state = .ready ∧ (s.cpus c).active ≠ some h
  created : ∀ c h, (s.cpus c).stage = .created h → (s.threads h).state = .ready ∧ (s.cpus c).active ≠ some h
  running : ∀ c h, (s.cpus c).active = some h → (s.threads h).state = .running ∧ s.currentThreads c = some h
  current : ∀ c h, s.currentThreads c = some h → (s.cpus c).stage = .dispatched h ∨ (s.cpus c).active = some h

attribute [grind =] Stage.entry Stage.departing Cpu.active Claims

theorem initial_ordered : Ordered initialState := by
  constructor <;> simp [initialState,RingBuffer.contents_empty,Claims,Cpu.active,Stage.entry,Stage.departing]

section Inversion
variable {s t : State}

theorem reserve_exact (step : Step s (.reserve c stack affinity) t) :
    (s.cpus c).stage = .client ∧ stack ≠ 0 ∧ stack ∉ s.storage ∧ ∃ h < threadMaxCount,
      (s.threads h).state = .free ∧
      t = {s with
        threads := s.marked h .ready
        cpus := s.atStage c (.creating h stack affinity)
        storage := stack :: s.storage} := by
  simp only [Step,execute,createReserve] at step
  split at step <;> try cases step
  split at step <;> try cases step
  split at step <;> try cases step
  split at step <;> try cases step
  rename_i client nonzero fresh _ h found
  split at step <;> cases step
  refine ⟨by simpa using client,nonzero,fresh,h,?_,?_,rfl⟩
  · exact List.mem_range.mp (List.mem_of_find?_eq_some found)
  · simpa using List.find?_some found

theorem prepare_exact (step : Step s (.prepare c) t) : ∃ h stack affinity,
    (s.cpus c).stage = .creating h stack affinity ∧
    t = {s with
      cpus := s.atStage c (.created h)
      threads := put s.threads h {s.threads h with stack := stack,cpuAffinity := affinity,context := ⟨stack⟩}} := by
  simp only [Step,execute,createPrepare] at step
  split at step <;> cases step
  exact ⟨_,_,_,by assumption,rfl⟩

theorem enqueue_exact (step : Step s (.enqueue c) t) : ∃ h queue, (s.cpus c).stage = .created h ∧
    queue.contents = s.readyQueue.contents ++ [h] ∧ t = {s with readyQueue := queue,cpus := s.atStage c .client} := by
  simp only [Step,execute,enqueueThread] at step
  split at step <;> try cases step
  rename_i h stage
  cases pushed : s.readyQueue.pushBack h with
  | none => simp [pushed] at step
  | some queue =>
    simp only [pushed] at step
    cases step
    exact ⟨h,queue,stage,RingBuffer.contents_pushBack pushed,rfl⟩

theorem poll_exact (step : Step s (.poll c) t) : s.cpus c = ⟨none,.client⟩ ∧ ∃ queue,
    queue.contents = s.readyQueue.contents.eraseP (eligible s c) ∧
    ((s.readyQueue.contents.find? (eligible s c) = none ∧ t = {s with readyQueue := queue}) ∨
      ∃ h, s.readyQueue.contents.find? (eligible s c) = some h ∧
        t = {s with readyQueue := queue,cpus := s.atStage c (.held h)}) := by
  simp only [Step,execute,idlePoll] at step
  split at step <;> try cases step
  rename_i here
  obtain ⟨queue,rotated,contents⟩ := rotate_exact s.readyQueue (eligible s c)
  rw [rotated] at step
  refine ⟨here,queue,contents,?_⟩
  cases found : s.readyQueue.contents.find? (eligible s c) with
  | none =>
    simp only [found] at step
    cases step
    exact .inl ⟨rfl,rfl⟩
  | some h =>
    simp only [found] at step
    cases step
    exact .inr ⟨h,rfl,rfl⟩

theorem dispatch_exact (step : Step s (.dispatch c) t) : ∃ h, (s.cpus c).stage = .held h ∧
    t = {s with
      threads := s.marked h .running
      currentThreads := put s.currentThreads c (some h)
      cpus := s.atStage c (.dispatched h)} := by
  simp only [Step,execute,idleDispatch] at step
  split at step <;> try cases step
  split at step <;> cases step
  exact ⟨_,by assumption,rfl⟩

theorem load_exact (step : Step s (.load c) t) : ∃ h, (s.cpus c).stage = .dispatched h ∧
    t = {s with cpus := put s.cpus c ⟨some ⟨h,(s.threads h).context.stack⟩,.client⟩} := by
  simp only [Step,execute,contextLoad] at step
  split at step <;> cases step
  exact ⟨_,by assumption,rfl⟩

theorem yield_exact (step : Step s (.yield c) t) : (s.cpus c).seat ≠ none ∧ (s.cpus c).stage = .client ∧
    ∃ h queue, s.currentThreads c = some h ∧ queue.contents = s.readyQueue.contents ++ [h] ∧
      t = {s with
        threads := s.marked h .ready
        readyQueue := queue
        currentThreads := put s.currentThreads c none
        cpus := s.atStage c (.leaving h false)} := by
  simp only [Step,execute,yieldCurrent] at step
  split at step <;> try cases step
  rename_i here
  split at step <;> try cases step
  rename_i h current
  split at step <;> try cases step
  cases pushed : s.readyQueue.pushBack h with
  | none => simp [pushed] at step
  | some queue =>
    simp only [pushed] at step
    cases step
    rw [not_or,not_not] at here
    exact ⟨here.1,here.2,h,queue,current,RingBuffer.contents_pushBack pushed,rfl⟩

theorem finish_exact (step : Step s (.finish c) t) : (s.cpus c).seat ≠ none ∧ (s.cpus c).stage = .client ∧
    ∃ h, s.currentThreads c = some h ∧
      t = {s with
        threads := s.marked h .done
        currentThreads := put s.currentThreads c none
        cpus := s.atStage c (.leaving h false)} := by
  simp only [Step,execute,finishCurrent] at step
  split at step <;> try cases step
  rename_i here
  split at step <;> cases step
  rw [not_or,not_not] at here
  exact ⟨here.1,here.2,_,by assumption,rfl⟩

theorem save_exact (step : Step s (.save c) t) : ∃ seat h, s.cpus c = ⟨some seat,.leaving h false⟩ ∧
    t = {s with
      threads := put s.threads h {s.threads h with context := ⟨seat.stack⟩}
      cpus := s.atStage c (.leaving h true)} := by
  simp only [Step,execute,contextSave] at step
  split at step <;> cases step
  exact ⟨_,_,by assumption,rfl⟩

theorem restore_exact (step : Step s (.restore c) t) : ∃ seat h, s.cpus c = ⟨some seat,.leaving h true⟩ ∧
    t = {s with cpus := put s.cpus c ⟨none,.returned seat.thread⟩} := by
  simp only [Step,execute,contextRestore] at step
  split at step <;> cases step
  exact ⟨_,_,by assumption,rfl⟩

theorem observe_exact (step : Step s (.observe c) t) : ∃ h, (s.cpus c).stage = .returned h ∧
    t = {s with
      currentThreads := put s.currentThreads c none
      cpus := s.atStage c (if abandoned (s.threads h) then .claiming h else .client)} := by
  simp only [Step,execute,idleObserve] at step
  split at step <;> cases step
  exact ⟨_,by assumption,rfl⟩

-- Both ways to the end of a thread: by the CPU that ran it, or by a joiner.
def Reclaims (s : State) (c h : Nat) (t : State) : Prop :=
  ((s.cpus c).stage = .claiming h ∨ (s.cpus c).stage = .joining h) ∧ (s.threads h).state = .done ∧
    t = {reclaim s h with cpus := s.atStage c .client}

theorem claim_exact (step : Step s (.claim c) t) : ∃ h, (s.cpus c).stage = .claiming h ∧
    (t = {s with cpus := s.atStage c .client} ∨ Reclaims s c h t) := by
  simp only [Step,execute,idleClaim] at step
  split at step <;> cases step
  rename_i h stage
  refine ⟨h,stage,?_⟩
  by_cases gone : abandoned (s.threads h) = true
  · rw [if_pos gone]
    simp only [abandoned,Bool.and_eq_true,decide_eq_true_eq] at gone
    exact .inr ⟨.inl stage,gone.1,rfl⟩
  · rw [if_neg gone]
    exact .inl rfl

theorem detach_exact (step : Step s (.detach c h) t) : (s.cpus c).stage = .client ∧
    t = {s with threads := put s.threads h {s.threads h with detached := true}} := by
  simp only [Step,execute,detachThread] at step
  split at step <;> try cases step
  rename_i client
  split at step <;> try cases step
  split at step <;> try cases step
  split at step <;> try cases step
  split at step <;> cases step
  exact ⟨by simpa using client,rfl⟩

theorem await_exact (step : Step s (.await c h) t) : (s.cpus c).stage = .client ∧
    (s.threads h).state = .done ∧ t = {s with cpus := s.atStage c (.joining h)} := by
  simp only [Step,execute,joinAwait] at step
  split at step <;> try cases step
  rename_i client
  split at step <;> try cases step
  split at step <;> cases step
  exact ⟨by simpa using client,by assumption,rfl⟩

theorem join_exact (step : Step s (.join c) t) : ∃ h, Reclaims s c h t := by
  simp only [Step,execute,joinReclaim] at step
  split at step <;> try cases step
  rename_i h stage
  split at step <;> try cases step
  rename_i done
  split at step <;> cases step
  exact ⟨h,.inr stage,by simpa using done,rfl⟩

end Inversion

section Ordered
variable {s t : State}

-- Whoever is in current_threads while its CPU runs client code sits on it.
theorem current_active (ordered : Ordered s) (client : (s.cpus c).stage = .client)
    (current : s.currentThreads c = some h) : (s.cpus c).active = some h := by
  rcases ordered.current c h current with dispatched | active
  · rw [client] at dispatched
    cases dispatched
  · exact active

theorem active_claims (active : (s.cpus c).active = some h) : Claims (s.cpus c) h := .inr active

theorem idle_absent (ordered : Ordered s) (idle : (s.threads h).state = .free ∨ (s.threads h).state = .done) :
    h ∉ s.readyQueue.contents := by
  intro present
  have ready := (ordered.queued h present).2
  rcases idle with free | done
  · rw [free] at ready; cases ready
  · rw [done] at ready; cases ready

theorem claimed_busy (ordered : Ordered s) (claims : Claims (s.cpus c) h) :
    (s.threads h).state = .ready ∨ (s.threads h).state = .running := by
  rcases claims with entry | active
  · cases stage : (s.cpus c).stage with
    | held g => rw [stage] at entry; cases entry; exact .inl (ordered.held c h stage).2
    | dispatched g => rw [stage] at entry; cases entry; exact .inr (ordered.dispatched c h stage).2.1
    | creating g stack affinity =>
        rw [stage] at entry; cases entry; exact .inl (ordered.creating c h stack affinity stage).1
    | created g => rw [stage] at entry; cases entry; exact .inl (ordered.created c h stage).1
    | client => rw [stage] at entry; cases entry
    | returned g => rw [stage] at entry; cases entry
    | claiming g => rw [stage] at entry; cases entry
    | leaving g saved => rw [stage] at entry; cases entry
    | joining g => rw [stage] at entry; cases entry
  · exact .inr (ordered.running c h active).1

theorem idle_unclaimed (ordered : Ordered s) (idle : (s.threads h).state = .free ∨ (s.threads h).state = .done)
    (c : Nat) : ¬ Claims (s.cpus c) h := by
  intro claims
  rcases claimed_busy ordered claims with busy | busy <;> rcases idle with idle | idle <;>
    · rw [busy] at idle; cases idle

theorem chosen_gone {l : List Nat} (distinct : l.Nodup) (found : l.find? chosen = some h) :
    h ∉ l.eraseP chosen := by
  induction l with
  | nil => simp
  | cons candidate rest ih =>
    obtain ⟨fresh,tail⟩ := List.nodup_cons.mp distinct
    by_cases wanted : chosen candidate = true
    · rw [List.find?_cons_of_pos wanted] at found
      cases found
      rwa [List.eraseP_cons_of_pos wanted]
    · rw [List.find?_cons_of_neg wanted] at found
      rw [List.eraseP_cons_of_neg wanted,List.mem_cons,not_or]
      refine ⟨?_,ih tail found⟩
      rintro rfl
      exact fresh (List.mem_of_find?_eq_some found)

theorem kept_others {l : List Nat} (found : l.find? chosen = some h) (present : x ∈ l) (different : x ≠ h) :
    x ∈ l.eraseP chosen := by
  induction l with
  | nil => cases present
  | cons candidate rest ih =>
    by_cases wanted : chosen candidate = true
    · rw [List.find?_cons_of_pos wanted] at found
      cases found
      rw [List.eraseP_cons_of_pos wanted]
      exact (List.mem_cons.mp present).resolve_left different
    · rw [List.find?_cons_of_neg wanted] at found
      rw [List.eraseP_cons_of_neg wanted]
      rcases List.mem_cons.mp present with rfl | later
      · simp
      · exact List.mem_cons.mpr (.inr (ih found later))

-- A FREE entry has no owner, so the CPU that reserves it becomes the only one.
theorem ordered_reserve (ordered : Ordered s) (step : Step s (.reserve c stack affinity) t) : Ordered t := by
  obtain ⟨client,_,_,h,bound,free,rfl⟩ := reserve_exact step
  have absent := idle_absent ordered (.inl free)
  have unclaimed := idle_unclaimed ordered (.inl free)
  cases ordered
  constructor <;> grind

theorem ordered_prepare (ordered : Ordered s) (step : Step s (.prepare c) t) : Ordered t := by
  obtain ⟨h,stack,affinity,creating,rfl⟩ := prepare_exact step
  cases ordered
  constructor <;> grind

-- The reserving CPU hands its entry over to the queue.
theorem ordered_enqueue (ordered : Ordered s) (step : Step s (.enqueue c) t) : Ordered t := by
  obtain ⟨h,queue,created,contents,rfl⟩ := enqueue_exact step
  have mine : Claims (s.cpus c) h := .inl (by rw [created]; rfl)
  have absent : h ∉ s.readyQueue.contents := fun present => ordered.unclaimed h present c mine
  cases ordered
  constructor <;> grind

theorem ordered_poll (ordered : Ordered s) (step : Step s (.poll c) t) : Ordered t := by
  obtain ⟨idle,queue,contents,⟨nobody,rfl⟩ | ⟨h,found,rfl⟩⟩ := poll_exact step
  · have same : queue.contents = s.readyQueue.contents := by
      rw [contents,List.eraseP_of_forall_not (by simpa using List.find?_eq_none.mp nobody)]
    cases ordered
    constructor <;> grind
  · have present : h ∈ s.readyQueue.contents := List.mem_of_find?_eq_some found
    have gone : h ∉ queue.contents := by rw [contents]; exact chosen_gone ordered.distinct found
    have fewer : ∀ x ∈ queue.contents, x ∈ s.readyQueue.contents := by
      rw [contents]; exact fun x here => List.mem_of_mem_eraseP here
    have distinct : queue.contents.Nodup := by rw [contents]; exact ordered.distinct.eraseP _
    cases ordered
    constructor <;> grind

theorem ordered_dispatch (ordered : Ordered s) (step : Step s (.dispatch c) t) : Ordered t := by
  obtain ⟨h,held,rfl⟩ := dispatch_exact step
  cases ordered
  constructor <;> grind

theorem ordered_load (ordered : Ordered s) (step : Step s (.load c) t) : Ordered t := by
  obtain ⟨h,dispatched,rfl⟩ := load_exact step
  cases ordered
  constructor <;> grind

-- The thread goes back to the queue although its CPU is still on its stack.
theorem ordered_yield (ordered : Ordered s) (step : Step s (.yield c) t) : Ordered t := by
  obtain ⟨seated,client,h,queue,current,contents,rfl⟩ := yield_exact step
  have mine := active_claims (current_active ordered client current)
  have absent : h ∉ s.readyQueue.contents := fun present => ordered.unclaimed h present c mine
  cases ordered
  constructor <;> grind

theorem ordered_finish (ordered : Ordered s) (step : Step s (.finish c) t) : Ordered t := by
  obtain ⟨seated,client,h,current,rfl⟩ := finish_exact step
  have mine := active_claims (current_active ordered client current)
  cases ordered
  constructor <;> grind

theorem ordered_save (ordered : Ordered s) (step : Step s (.save c) t) : Ordered t := by
  obtain ⟨seat,h,leaving,rfl⟩ := save_exact step
  cases ordered
  constructor <;> grind

theorem ordered_restore (ordered : Ordered s) (step : Step s (.restore c) t) : Ordered t := by
  obtain ⟨seat,h,leaving,rfl⟩ := restore_exact step
  cases ordered
  constructor <;> grind

theorem ordered_observe (ordered : Ordered s) (step : Step s (.observe c) t) : Ordered t := by
  obtain ⟨h,returned,rfl⟩ := observe_exact step
  cases ordered
  constructor <;> grind

-- A DONE thread is in nobody's hands, so clearing its entry disturbs no owner.
theorem ordered_reclaim (ordered : Ordered s) (reclaims : Reclaims s c h t) : Ordered t := by
  obtain ⟨stage,done,rfl⟩ := reclaims
  have absent := idle_absent ordered (.inr done)
  have unclaimed := idle_unclaimed ordered (.inr done)
  simp only [reclaim]
  cases ordered
  constructor <;> grind

theorem ordered_detach (ordered : Ordered s) (step : Step s (.detach c h) t) : Ordered t := by
  obtain ⟨client,rfl⟩ := detach_exact step
  cases ordered
  constructor <;> grind

theorem ordered_stage (ordered : Ordered s) (before : (s.cpus c).stage = .client ∨ (s.cpus c).stage = .claiming h)
    (after : stage = .client ∨ stage = .joining h) : Ordered {s with cpus := s.atStage c stage} := by
  cases ordered
  constructor <;> grind

theorem ordered_preserved (ordered : Ordered s) (step : Step s action t) : Ordered t := by
  cases action with
  | reserve => exact ordered_reserve ordered step
  | prepare => exact ordered_prepare ordered step
  | enqueue => exact ordered_enqueue ordered step
  | poll => exact ordered_poll ordered step
  | dispatch => exact ordered_dispatch ordered step
  | load => exact ordered_load ordered step
  | yield => exact ordered_yield ordered step
  | finish => exact ordered_finish ordered step
  | save => exact ordered_save ordered step
  | restore => exact ordered_restore ordered step
  | observe => exact ordered_observe ordered step
  | claim =>
      obtain ⟨h,stage,rfl | reclaims⟩ := claim_exact step
      · exact ordered_stage ordered (.inr stage) (.inl rfl)
      · exact ordered_reclaim ordered reclaims
  | detach => exact ordered_detach ordered step
  | await =>
      obtain ⟨client,_,rfl⟩ := await_exact step
      exact ordered_stage ordered (.inl client) (.inr rfl)
  | join =>
      obtain ⟨h,reclaims⟩ := join_exact step
      exact ordered_reclaim ordered reclaims

end Ordered

end Scheduler
