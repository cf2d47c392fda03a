import Gameos.SchedulerSafety
import Mathlib.Data.List.Perm.Subperm

namespace Scheduler
open TransitionRuns

-- Where a READY thread waits when it is not queued: in the hands of the
-- create_thread that reserved it or of the idle_poll that dequeued it.
def Reserved (s : State) (c h : Nat) : Prop :=
  (∃ stack affinity, (s.cpus c).stage = .creating h stack affinity) ∨ (s.cpus c).stage = .created h

def Held (s : State) (c h : Nat) : Prop := (s.cpus c).stage = .held h

-- No thread is lost: the converse of Ordered, from the table to its owners.
structure Placed (s : State) : Prop where
  ready : ∀ h, (s.threads h).state = .ready →
    h ∈ s.readyQueue.contents ∨ (∃ c, Reserved s c h) ∨ ∃ c, Held s c h
  running : ∀ h, (s.threads h).state = .running → ∃ c, s.currentThreads c = some h
  free : ∀ h, threadMaxCount ≤ h → (s.threads h).state = .free

attribute [grind =] Reserved Held

theorem initial_placed : Placed initialState := by
  constructor <;> simp [initialState,Thread.init]

section Placed
variable {s t : State}

-- The places of h are kept by a step whose CPU had nothing to do with h.
theorem places_kept (places : h ∈ s.readyQueue.contents ∨ (∃ c, Reserved s c h) ∨ ∃ c, Held s c h)
    (queue : h ∈ s.readyQueue.contents → h ∈ t.readyQueue.contents)
    (others : ∀ c', c' ≠ c → t.cpus c' = s.cpus c') (apart : (s.cpus c).stage.entry ≠ some h) :
    h ∈ t.readyQueue.contents ∨ (∃ c, Reserved t c h) ∨ ∃ c, Held t c h := by
  rcases places with queued | ⟨c',reserved⟩ | ⟨c',held⟩
  · exact .inl (queue queued)
  · have different : c' ≠ c := by
      rintro rfl
      rcases reserved with ⟨_,_,creating⟩ | created
      · exact apart (by rw [creating]; rfl)
      · exact apart (by rw [created]; rfl)
    refine .inr (.inl ⟨c',?_⟩)
    unfold Reserved at reserved ⊢
    rwa [others c' different]
  · have different : c' ≠ c := by
      rintro rfl
      exact apart (by rw [held]; rfl)
    refine .inr (.inr ⟨c',?_⟩)
    unfold Held at held ⊢
    rwa [others c' different]

theorem placed_reserve (placed : Placed s) (step : Step s (.reserve c stack affinity) t) : Placed t := by
  obtain ⟨client,_,_,h,bound,free,rfl⟩ := reserve_exact step
  obtain ⟨ready,running,outside⟩ := placed
  refine ⟨?_,by grind,by grind⟩
  intro g here
  by_cases same : g = h
  · subst same
    exact .inr (.inl ⟨c,by grind⟩)
  · exact places_kept (c:=c) (ready g (by grind)) id (fun _ other => if_neg other) (by rw [client]; simp [Stage.entry])

-- From creating to created the entry stays reserved by the same CPU.
theorem placed_prepare (placed : Placed s) (step : Step s (.prepare c) t) : Placed t := by
  obtain ⟨h,stack,affinity,creating,rfl⟩ := prepare_exact step
  obtain ⟨ready,running,outside⟩ := placed
  refine ⟨?_,by grind,by grind⟩
  intro g here
  by_cases same : g = h
  · subst same
    exact .inr (.inl ⟨c,by grind⟩)
  · refine places_kept (c:=c) (ready g (by grind)) id (fun _ other => if_neg other) ?_
    rw [creating]
    simpa [Stage.entry] using Ne.symm same

theorem placed_enqueue (placed : Placed s) (step : Step s (.enqueue c) t) : Placed t := by
  obtain ⟨h,queue,created,contents,rfl⟩ := enqueue_exact step
  obtain ⟨ready,running,outside⟩ := placed
  refine ⟨?_,running,outside⟩
  intro g here
  by_cases same : g = h
  · exact .inl (by rw [contents,same]; simp)
  · refine places_kept (c:=c) (ready g here) (fun queued => ?_) (fun _ other => if_neg other) ?_
    · rw [contents]
      exact List.mem_append_left _ queued
    · rw [created]
      simpa [Stage.entry] using Ne.symm same

-- The dequeued thread is held; the rotation puts all others back.
theorem placed_poll (placed : Placed s) (step : Step s (.poll c) t) : Placed t := by
  obtain ⟨idle,queue,contents,⟨nobody,rfl⟩ | ⟨h,found,rfl⟩⟩ := poll_exact step
  · have same : queue.contents = s.readyQueue.contents := by
      rw [contents,List.eraseP_of_forall_not (by simpa using List.find?_eq_none.mp nobody)]
    refine ⟨fun g here => ?_,placed.running,placed.free⟩
    rcases placed.ready g here with queued | rest
    · exact .inl (by rwa [same])
    · exact .inr rest
  · refine ⟨?_,placed.running,placed.free⟩
    intro g here
    by_cases same : g = h
    · subst same
      exact .inr (.inr ⟨c,by grind⟩)
    · refine places_kept (c:=c) (placed.ready g here) (fun queued => ?_) (fun _ other => if_neg other) ?_
      · rw [contents]
        exact kept_others found queued same
      · rw [idle]
        simp [Stage.entry]

theorem placed_dispatch (ordered : Ordered s) (placed : Placed s) (step : Step s (.dispatch c) t) : Placed t := by
  obtain ⟨h,held,rfl⟩ := dispatch_exact step
  have vacant : ∀ g, s.currentThreads c ≠ some g := by
    intro g current
    rcases ordered.current c g current with dispatched | active
    · rw [held] at dispatched
      cases dispatched
    · have idle := (ordered.held c h held).1
      simp [Cpu.active,idle] at active
  have bound := ordered.bounded c h (.inl (by rw [held]; rfl))
  refine ⟨?_,?_,?_⟩
  · intro g here
    by_cases same : g = h
    · subst same
      simp [State.marked,put] at here
    · refine places_kept (c:=c) (placed.ready g (by grind)) id (fun _ other => if_neg other) ?_
      rw [held]
      simpa [Stage.entry] using Ne.symm same
  · intro g here
    by_cases same : g = h
    · exact ⟨c,by rw [same]; exact put_same⟩
    · obtain ⟨c',current⟩ := placed.running g (by grind)
      refine ⟨c',?_⟩
      by_cases mine : c' = c
      · exact absurd (mine ▸ current) (vacant g)
      · show put s.currentThreads c (some h) c' = some g
        rwa [put_other mine]
  · intro g outside
    have before := placed.free g outside
    grind [threadMaxCount]

-- Steps that change no state of a thread: their CPU has no READY thread in hand.
theorem placed_frame (placed : Placed s) (states : ∀ h, (t.threads h).state = (s.threads h).state)
    (queue : t.readyQueue = s.readyQueue) (current : ∀ c h, s.currentThreads c = some h → t.currentThreads c = some h)
    (others : ∀ c', c' ≠ c → t.cpus c' = s.cpus c')
    (apart : ∀ h, (s.threads h).state = .ready → (s.cpus c).stage.entry ≠ some h) : Placed t := by
  refine ⟨fun h here => ?_,fun h here => ?_,fun h outside => by rw [states,placed.free h outside]⟩
  · rw [states] at here
    exact places_kept (placed.ready h here) (by rw [queue]; exact id) others (apart h here)
  · rw [states] at here
    obtain ⟨c',before⟩ := placed.running h here
    exact ⟨c',current c' h before⟩

theorem placed_load (ordered : Ordered s) (placed : Placed s) (step : Step s (.load c) t) : Placed t := by
  obtain ⟨h,dispatched,rfl⟩ := load_exact step
  refine placed_frame (c:=c) placed (fun _ => rfl) rfl (fun _ _ => id) (fun _ other => if_neg other) ?_
  intro g ready mine
  rw [dispatched] at mine
  cases mine
  have running := (ordered.dispatched c h dispatched).2.1
  rw [running] at ready
  cases ready

-- A thread that yields is queued in the section that makes it READY.
theorem placed_yield (ordered : Ordered s) (placed : Placed s) (step : Step s (.yield c) t) : Placed t := by
  obtain ⟨seated,client,h,queue,current,contents,rfl⟩ := yield_exact step
  have bound := ordered.bounded c h (active_claims (current_active ordered client current))
  refine ⟨?_,?_,?_⟩
  · intro g here
    by_cases same : g = h
    · exact .inl (by rw [contents,same]; simp)
    · refine places_kept (c:=c) (placed.ready g (by grind)) (fun queued => ?_) (fun _ other => if_neg other) ?_
      · rw [contents]
        exact List.mem_append_left _ queued
      · rw [client]
        simp [Stage.entry]
  · intro g here
    obtain ⟨c',before⟩ := placed.running g (by grind)
    refine ⟨c',?_⟩
    grind
  · intro g outside
    have before := placed.free g outside
    grind [threadMaxCount]

theorem placed_finish (ordered : Ordered s) (placed : Placed s) (step : Step s (.finish c) t) : Placed t := by
  obtain ⟨seated,client,h,current,rfl⟩ := finish_exact step
  have bound := ordered.bounded c h (active_claims (current_active ordered client current))
  refine ⟨?_,?_,?_⟩
  · intro g here
    refine places_kept (c:=c) (placed.ready g (by grind)) id (fun _ other => if_neg other) ?_
    rw [client]
    simp [Stage.entry]
  · intro g here
    obtain ⟨c',before⟩ := placed.running g (by grind)
    refine ⟨c',?_⟩
    grind
  · intro g outside
    have before := placed.free g outside
    grind [threadMaxCount]

theorem placed_save (placed : Placed s) (step : Step s (.save c) t) : Placed t := by
  obtain ⟨seat,h,leaving,rfl⟩ := save_exact step
  refine placed_frame (c:=c) placed (fun g => by grind) rfl (fun _ _ => id) (fun _ other => if_neg other) ?_
  intro g _
  rw [leaving]
  simp [Stage.entry]

theorem placed_restore (placed : Placed s) (step : Step s (.restore c) t) : Placed t := by
  obtain ⟨seat,h,leaving,rfl⟩ := restore_exact step
  refine placed_frame (c:=c) placed (fun _ => rfl) rfl (fun _ _ => id) (fun _ other => if_neg other) ?_
  intro g _
  rw [leaving]
  simp [Stage.entry]

-- Clearing current_threads again loses nothing: a CPU back from a switch has none.
theorem placed_observe (ordered : Ordered s) (placed : Placed s) (step : Step s (.observe c) t) : Placed t := by
  obtain ⟨h,returned,rfl⟩ := observe_exact step
  have vacant : ∀ g, s.currentThreads c ≠ some g := by
    intro g current
    rcases ordered.current c g current with dispatched | active
    · rw [returned] at dispatched
      cases dispatched
    · have idle := ordered.back c h (.inl returned)
      simp [Cpu.active,idle] at active
  refine placed_frame (c:=c) placed (fun _ => rfl) rfl ?_ (fun _ other => if_neg other) ?_
  · intro c' g before
    show put s.currentThreads c none c' = some g
    rw [put_other (by rintro rfl; exact vacant g before)]
    exact before
  · intro g _
    rw [returned]
    simp [Stage.entry]

theorem placed_reclaim (placed : Placed s) (reclaims : Reclaims s c h t) : Placed t := by
  obtain ⟨stage,done,rfl⟩ := reclaims
  have cleared : ∀ g, ((put s.threads h .init) g).state = if g = h then .free else (s.threads g).state := by
    intro g
    unfold put
    split <;> rfl
  refine ⟨?_,?_,?_⟩
  · intro g here
    simp only [reclaim,cleared] at here
    refine places_kept (c:=c) (placed.ready g (by grind)) id (fun _ other => if_neg other) ?_
    rcases stage with claiming | joining
    · rw [claiming]; simp [Stage.entry]
    · rw [joining]; simp [Stage.entry]
  · intro g here
    simp only [reclaim,cleared] at here
    exact placed.running g (by grind)
  · intro g outside
    simp only [reclaim,cleared,placed.free g outside,ite_self]

theorem placed_detach (placed : Placed s) (step : Step s (.detach c h) t) : Placed t := by
  obtain ⟨client,rfl⟩ := detach_exact step
  refine placed_frame (c:=c) placed (fun g => by grind) rfl (fun _ _ => id) (fun _ _ => rfl) ?_
  intro g _
  rw [client]
  simp [Stage.entry]

theorem placed_stage (placed : Placed s) (before : (s.cpus c).stage = .client ∨ (s.cpus c).stage = .claiming h) :
    Placed {s with cpus := s.atStage c stage} := by
  refine placed_frame (c:=c) placed (fun _ => rfl) rfl (fun _ _ => id) (fun _ other => if_neg other) ?_
  intro g _
  rcases before with client | claiming
  · rw [client]; simp [Stage.entry]
  · rw [claiming]; simp [Stage.entry]

theorem placed_preserved (ordered : Ordered s) (placed : Placed s) (step : Step s action t) : Placed t := by
  cases action with
  | reserve => exact placed_reserve placed step
  | prepare => exact placed_prepare placed step
  | enqueue => exact placed_enqueue placed step
  | poll => exact placed_poll placed step
  | dispatch => exact placed_dispatch ordered placed step
  | load => exact placed_load ordered placed step
  | yield => exact placed_yield ordered placed step
  | finish => exact placed_finish ordered placed step
  | save => exact placed_save placed step
  | restore => exact placed_restore placed step
  | observe => exact placed_observe ordered placed step
  | claim =>
      obtain ⟨h,stage,rfl | reclaims⟩ := claim_exact step
      · exact placed_stage placed (.inr stage)
      · exact placed_reclaim placed reclaims
  | detach => exact placed_detach placed step
  | await =>
      obtain ⟨client,_,rfl⟩ := await_exact step
      exact placed_stage (h:=0) placed (.inl client)
  | join =>
      obtain ⟨h,reclaims⟩ := join_exact step
      exact placed_reclaim placed reclaims

end Placed

theorem run_placed (run : Run Step (fun _ _ => True) initialState actions s) : Ordered s ∧ Placed s :=
  run.keeps (fun s => Ordered s ∧ Placed s)
    (fun _ _ _ both _ step => ⟨ordered_preserved both.1 step,placed_preserved both.1 both.2 step⟩)
    ⟨initial_ordered,initial_placed⟩

section Assertions
variable {s : State}

-- Distinct indices of READY threads: with one entry that is not READY, or held
-- by a CPU, the queue has room.
theorem queue_room (ordered : Ordered s) (bound : h < threadMaxCount) (absent : h ∉ s.readyQueue.contents) :
    s.readyQueue.contents.length < threadMaxCount := by
  have inside : ∀ g ∈ h :: s.readyQueue.contents, g ∈ List.range threadMaxCount := by
    intro g among
    rcases List.mem_cons.mp among with rfl | queued
    · exact List.mem_range.mpr bound
    · exact List.mem_range.mpr (ordered.queued g queued).1
  have distinct : (h :: s.readyQueue.contents).Nodup := List.nodup_cons.mpr ⟨absent,ordered.distinct⟩
  have fewer := (distinct.subperm inside).length_le
  rw [List.length_cons,List.length_range] at fewer
  exact fewer

theorem pushes (ordered : Ordered s) (bound : h < threadMaxCount) (absent : h ∉ s.readyQueue.contents) :
    ∃ queue, s.readyQueue.pushBack h = some queue := by
  cases pushed : s.readyQueue.pushBack h with
  | some queue => exact ⟨queue,rfl⟩
  | none =>
      have full := (RingBuffer.full_exact _).mp (RingBuffer.pushBack_full.mp pushed)
      have room := queue_room ordered bound absent
      omega

-- The assertions about the queue and about the state of a thread in it.
def queueAssertions : List String :=
  ["Ready queue full","!ready_queue.full()","Dequeued thread is not ready","current is not RUNNING"]

theorem reserve_silent (ordered : Ordered s) (asserted : createReserve s c stack affinity = .asserted message) :
    message ∉ queueAssertions := by
  simp only [createReserve] at asserted
  split at asserted
  · cases asserted
  split at asserted
  · cases asserted; decide
  split at asserted
  · cases asserted
  split at asserted
  · cases asserted; decide
  · rename_i h found
    have bound := List.mem_range.mp (List.mem_of_find?_eq_some found)
    have free : (s.threads h).state = .free := by simpa using List.find?_some found
    have room := queue_room ordered bound (idle_absent ordered (.inl free))
    have fits : ¬ s.readyQueue.full = true := by
      rw [RingBuffer.full_exact]
      omega
    rw [if_neg fits] at asserted
    cases asserted

theorem enqueue_silent (ordered : Ordered s) : enqueueThread s c ≠ .asserted message := by
  intro asserted
  simp only [enqueueThread] at asserted
  split at asserted
  · rename_i h created
    have mine : Claims (s.cpus c) h := .inl (by rw [created]; rfl)
    obtain ⟨queue,pushed⟩ := pushes ordered (ordered.bounded c h mine)
      fun present => ordered.unclaimed h present c mine
    simp [pushed] at asserted
  · cases asserted

theorem dispatch_silent (ordered : Ordered s) : idleDispatch s c ≠ .asserted message := by
  intro asserted
  simp only [idleDispatch] at asserted
  split at asserted
  · rename_i h held
    rw [if_neg (by simp [(ordered.held c h held).2])] at asserted
    cases asserted
  · cases asserted

theorem yield_silent (ordered : Ordered s) (asserted : yieldCurrent s c = .asserted message) :
    message ∉ queueAssertions := by
  simp only [yieldCurrent] at asserted
  split at asserted
  · cases asserted
  rename_i here
  rw [not_or,not_not] at here
  split at asserted
  · cases asserted; decide
  · rename_i h current
    have active := current_active ordered here.2 current
    obtain ⟨queue,pushed⟩ := pushes ordered (ordered.bounded c h (active_claims active))
      fun present => ordered.unclaimed h present c (.inr active)
    rw [if_neg (by simp [(ordered.running c h active).1]),pushed] at asserted
    cases asserted

theorem execute_silent (ordered : Ordered s) (asserted : execute s action = .asserted message) :
    message ∉ queueAssertions := by
  cases action with
  | reserve => exact reserve_silent ordered asserted
  | enqueue => exact absurd asserted (enqueue_silent ordered)
  | dispatch => exact absurd asserted (dispatch_silent ordered)
  | yield => exact yield_silent ordered asserted
  | poll =>
      simp only [execute,idlePoll] at asserted
      split at asserted
      · split at asserted <;> cases asserted
        decide
      · cases asserted
  | finish =>
      simp only [execute,finishCurrent] at asserted
      split at asserted
      · cases asserted
      · split at asserted <;> cases asserted
        decide
  | detach =>
      simp only [execute,detachThread] at asserted
      split at asserted
      · cases asserted
      split at asserted
      · cases asserted; decide
      split at asserted
      · cases asserted; decide
      split at asserted
      · cases asserted; decide
      split at asserted <;> cases asserted
      decide
  | await =>
      simp only [execute,joinAwait] at asserted
      split at asserted
      · cases asserted
      split at asserted
      · cases asserted; decide
      split at asserted <;> cases asserted
  | join =>
      simp only [execute,joinReclaim] at asserted
      split at asserted
      · split at asserted
        · cases asserted; decide
        split at asserted <;> cases asserted
        decide
      · cases asserted
  | prepare => simp only [execute,createPrepare] at asserted; split at asserted <;> cases asserted
  | load => simp only [execute,contextLoad] at asserted; split at asserted <;> cases asserted
  | save => simp only [execute,contextSave] at asserted; split at asserted <;> cases asserted
  | restore => simp only [execute,contextRestore] at asserted; split at asserted <;> cases asserted
  | observe => simp only [execute,idleObserve] at asserted; split at asserted <;> cases asserted
  | claim => simp only [execute,idleClaim] at asserted; split at asserted <;> cases asserted

end Assertions

section Invariant
variable {s : State}

theorem reserved_claims (reserved : Reserved s c h) : Claims (s.cpus c) h := by
  rcases reserved with ⟨_,_,creating⟩ | created
  · exact .inl (by rw [creating]; rfl)
  · exact .inl (by rw [created]; rfl)

theorem held_claims (held : Held s c h) : Claims (s.cpus c) h := .inl (by rw [held]; rfl)

theorem current_unique (ordered : Ordered s) (one : s.currentThreads c = some h) (two : s.currentThreads c' = some h) :
    c' = c := by
  have claims : ∀ c, s.currentThreads c = some h → Claims (s.cpus c) h := by
    intro c current
    rcases ordered.current c h current with dispatched | active
    · exact .inl (by rw [dispatched]; rfl)
    · exact .inr active
  exact ordered.unique c' c h (claims c' two) (claims c one)

-- Reserved and held are stages, so a CPU is in one of them at a time.
theorem reserved_not_held (ordered : Ordered s) (reserved : Reserved s c h) : ¬ Held s c' h := by
  intro held
  have same := ordered.unique c c' h (reserved_claims reserved) (held_claims held)
  subst same
  unfold Held at held
  rcases reserved with ⟨_,_,creating⟩ | created
  · rw [held] at creating; cases creating
  · rw [held] at created; cases created

structure Invariant (s : State) : Prop where
  distinct : s.readyQueue.contents.Nodup
  queued : ∀ h ∈ s.readyQueue.contents, h < threadMaxCount ∧ (s.threads h).state = .ready
  absent : ∀ h, (s.threads h).state = .running ∨ (s.threads h).state = .done ∨ (s.threads h).state = .free →
    h ∉ s.readyQueue.contents
  running : ∀ h, (s.threads h).state = .running → ∃! c, s.currentThreads c = some h
  -- exactly one of the queue, one create_thread and one idle_poll
  ready : ∀ h, (s.threads h).state = .ready →
    (h ∈ s.readyQueue.contents ∧ (∀ c, ¬ Reserved s c h) ∧ ∀ c, ¬ Held s c h) ∨
    (h ∉ s.readyQueue.contents ∧ (∃! c, Reserved s c h) ∧ ∀ c, ¬ Held s c h) ∨
    (h ∉ s.readyQueue.contents ∧ (∀ c, ¬ Reserved s c h) ∧ ∃! c, Held s c h)
  silent : ∀ action, ∀ message ∈ queueAssertions, execute s action ≠ .asserted message

theorem invariant_of_placed (ordered : Ordered s) (placed : Placed s) : Invariant s := by
  refine ⟨ordered.distinct,ordered.queued,?_,?_,?_,?_⟩
  · intro h state present
    have ready := (ordered.queued h present).2
    rw [ready] at state
    rcases state with running | done | free
    · cases running
    · cases done
    · cases free
  · intro h running
    obtain ⟨c,current⟩ := placed.running h running
    exact ⟨c,current,fun c' other => current_unique ordered current other⟩
  · intro h ready
    have apart : ∀ c, Claims (s.cpus c) h → h ∉ s.readyQueue.contents :=
      fun c claims present => ordered.unclaimed h present c claims
    rcases placed.ready h ready with queued | ⟨c,reserved⟩ | ⟨c,held⟩
    · exact .inl ⟨queued,fun c reserved => apart c (reserved_claims reserved) queued,
        fun c held => apart c (held_claims held) queued⟩
    · refine .inr (.inl ⟨apart c (reserved_claims reserved),⟨c,reserved,?_⟩,fun c' => reserved_not_held ordered reserved⟩)
      intro c' other
      exact ordered.unique c' c h (reserved_claims other) (reserved_claims reserved)
    · refine .inr (.inr ⟨apart c (held_claims held),fun c' reserved => reserved_not_held ordered reserved held,c,held,?_⟩)
      intro c' other
      exact ordered.unique c' c h (held_claims other) (held_claims held)
  · intro action message among asserted
    exact execute_silent ordered asserted among

end Invariant

-- Every state of every run: any number of CPUs, any interleaving of spawn,
-- yield, idle_poll, finish, detach and join.
theorem scheduler_state_invariant (run : Run Step (fun _ _ => True) initialState actions s) : Invariant s := by
  obtain ⟨ordered,placed⟩ := run_placed run
  exact invariant_of_placed ordered placed

-- A thread spawned on CPU 0 and dequeued on CPU 1, not yet dispatched.
theorem scheduler_state_invariant_held :
    Held (perform initialState (launch.take 4)) 1 0 ∧ Invariant (perform initialState (launch.take 4)) := by
  have possible : Possible initialState (launch.take 4) = true := by decide
  refine ⟨?_,scheduler_state_invariant (possible_run possible)⟩
  unfold Held
  decide

end Scheduler
