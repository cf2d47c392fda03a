import Gameos.SchedulerSafety

-- The thread-local Context and its copies in the TLS blocks, beside the scheduler.
namespace ThreadContexts
open Scheduler TransitionRuns

-- A TLS block: a CPU's idle block, or one that tls::create made for a thread.
inductive Block where
  | idle (cpu : Nat)
  | created (id : Nat)
deriving DecidableEq, Repr

-- What temporary_state points to: null, the state inside a block, or a state
-- the thread set up itself.
inductive TemporaryState where
  | null
  | inBlock (block : Block)
  | own (address : Nat)
deriving DecidableEq, Repr

inductive Allocator where
  | null
  | temporary (state : TemporaryState)
  | other (proc data : Nat)
deriving DecidableEq, Repr

structure FormattingConfig where
  newlineAfterEachArrayElement : Bool
  arrayElementIndentSpaces : Int
deriving DecidableEq, Repr

structure Context where
  allocator : Allocator
  temporaryState : TemporaryState
  temporaryAllocator : Allocator
  formattingConfig : FormattingConfig
deriving DecidableEq, Repr

def Context.init : Context := ⟨.null,.null,.null,⟨false,4⟩⟩

-- `context` is the thread_local variable in each block's image, `saved` the
-- block's own copy, `base` the block each CPU's FS base selects.
structure Tls where
  context : Block → Context
  saved : Block → Context
  base : Nat → Block
  tlsBlock : Nat → Option Nat
  next : Nat

-- `context` as code on this CPU reads it.
def Tls.observed (τ : Tls) (c : Nat) : Context := τ.context (τ.base c)

abbrev putBlock (f : Block → Context) (b : Block) (x : Context) (j : Block) : Context := if j = b then x else f j

def Tls.write (τ : Tls) (c : Nat) (x : Context) : Tls := {τ with context := putBlock τ.context (τ.base c) x}

-- initialize_bsp and initialize_application_processor.
def Tls.init (boot : Nat → Context) : Tls where
  context
    | .idle c => boot c
    | .created _ => .init
  saved
    | .idle c => boot c
    | .created _ => .init
  base c := .idle c
  tlsBlock _ := none
  next := 0

-- The copy in a new block: inherited, with a temporary state of its own.
def inherit (inherited : Context) (b : Block) : Context :=
  if inherited.temporaryState = .null then {inherited with temporaryAllocator := .null,temporaryState := .null}
  else {inherited with temporaryAllocator := .temporary (.inBlock b),temporaryState := .inBlock b}

def activate (τ : Tls) (c : Nat) (b : Block) : Tls :=
  {τ with base := put τ.base c b,context := putBlock τ.context b (τ.saved b)}

def create (τ : Tls) (c h : Nat) : Tls :=
  {τ with
    context := putBlock τ.context (.created τ.next) .init
    saved := putBlock τ.saved (.created τ.next) (inherit (τ.observed c) (.created τ.next))
    tlsBlock := put τ.tlsBlock h (some τ.next)
    next := τ.next + 1}

-- The destructors run in the block that goes; base and context of the caller
-- are put back.
def destroy (τ : Tls) (c h : Nat) : Tls :=
  match τ.tlsBlock h with
  | none => τ
  | some b =>
    let previousBase := τ.base c
    let previousContext := τ.observed c
    let τ := activate τ c (.created b)
    {τ with
      base := put τ.base c previousBase
      context := putBlock τ.context previousBase previousContext
      tlsBlock := put τ.tlsBlock h none}

-- What an action of the scheduler does to the blocks. tls::create reads only
-- the context of the CPU that creates, which nobody else changes, so it stands
-- with the store of the block into the table.
def effect (s : State) (τ : Tls) : Action → Tls
  | .prepare c =>
    match (s.cpus c).stage with
    | .creating h _ _ => create τ c h
    | _ => τ
  | .dispatch c =>
    match (s.cpus c).stage with
    | .held h =>
      match τ.tlsBlock h with
      | some b => activate τ c (.created b)
      | none => τ
    | _ => τ
  | .yield c | .finish c | .observe c => activate τ c (.idle c)
  | .claim c =>
    match (s.cpus c).stage with
    | .claiming h => if abandoned (s.threads h) then destroy τ c h else τ
    | _ => τ
  | .join c =>
    match (s.cpus c).stage with
    | .joining h => destroy τ c h
    | _ => τ
  | _ => τ

structure System where
  scheduler : State
  tls : Tls

def System.init (boot : Nat → Context) : System := ⟨initialState,.init boot⟩

-- `change` is any write to `context` by the code that runs: set_allocator,
-- PUSH_ALLOCATOR and PUSH_CONTEXT scopes, and so on.
inductive Call where
  | run (action : Action)
  | change (cpu : Nat) (context : Context)
deriving DecidableEq, Repr

def advance (x : System) : Call → Option System
  | .run action =>
    match execute x.scheduler action with
    | .moved t => some ⟨t,effect x.scheduler x.tls action⟩
    | _ => none
  | .change c context =>
    if (x.scheduler.cpus c).stage = .client then some {x with tls := x.tls.write c context} else none

def SystemStep (x : System) (call : Call) (y : System) : Prop := advance x call = some y

theorem run_step (step : SystemStep x (.run action) y) :
    Step x.scheduler action y.scheduler ∧ y.tls = effect x.scheduler x.tls action := by
  unfold SystemStep advance at step
  cases result : execute x.scheduler action with
  | blocked => simp [result] at step
  | asserted message => simp [result] at step
  | moved t =>
      simp only [result,Option.some.injEq] at step
      subst step
      exact ⟨result,rfl⟩

theorem change_step (step : SystemStep x (.change c context) y) :
    (x.scheduler.cpus c).stage = .client ∧ y = {x with tls := x.tls.write c context} := by
  simp only [SystemStep,advance] at step
  split at step
  · exact ⟨by assumption,(Option.some.inj step).symm⟩
  · cases step

-- The thread whose block a CPU has active: the one it is about to enter or runs.
def onCpu (cpu : Cpu) : Option Nat :=
  match cpu.stage with
  | .dispatched h => some h
  | _ => cpu.active

attribute [grind =] onCpu

structure Based (s : State) (τ : Tls) : Prop where
  bound : ∀ h b, τ.tlsBlock h = some b → b < τ.next
  distinct : ∀ h h' b, τ.tlsBlock h = some b → τ.tlsBlock h' = some b → h = h'
  present : ∀ c h, (s.cpus c).stage = .created h ∨ (s.cpus c).stage = .held h ∨ onCpu (s.cpus c) = some h →
    τ.tlsBlock h ≠ none
  waiting : ∀ h ∈ s.readyQueue.contents, τ.tlsBlock h ≠ none
  running : ∀ c h b, onCpu (s.cpus c) = some h → τ.tlsBlock h = some b → τ.base c = .created b
  resting : ∀ c, onCpu (s.cpus c) = none → τ.base c = .idle c

theorem initial_based (boot : Nat → Context) : Based initialState (.init boot) := by
  constructor <;> simp [initialState,Tls.init,RingBuffer.contents_empty,onCpu,Cpu.active,Stage.departing]

section Based
variable {s t : State} {τ : Tls}

theorem based_reserve (based : Based s τ) (step : Step s (.reserve c stack affinity) t) : Based t τ := by
  obtain ⟨client,_,_,h,bound,free,rfl⟩ := reserve_exact step
  clear step
  cases based
  constructor <;> grind

theorem based_prepare (ordered : Ordered s) (based : Based s τ) (step : Step s (.prepare c) t) :
    Based t (effect s τ (.prepare c)) := by
  obtain ⟨h,stack,affinity,creating,rfl⟩ := prepare_exact step
  have mine : Claims (s.cpus c) h := .inl (by rw [creating]; rfl)
  have unique := ordered.unique
  have fresh := (ordered.creating c h stack affinity creating).2
  simp only [effect,creating,create]
  clear step
  cases based
  constructor <;> grind

theorem based_enqueue (based : Based s τ) (step : Step s (.enqueue c) t) : Based t τ := by
  obtain ⟨h,queue,created,contents,rfl⟩ := enqueue_exact step
  clear step
  cases based
  constructor <;> grind

theorem based_poll (based : Based s τ) (step : Step s (.poll c) t) : Based t τ := by
  obtain ⟨idle,queue,contents,⟨nobody,rfl⟩ | ⟨h,found,rfl⟩⟩ := poll_exact step
  · have fewer : ∀ x ∈ queue.contents, x ∈ s.readyQueue.contents := by
      rw [contents]
      exact fun x here => List.mem_of_mem_eraseP here
    clear step
    cases based
    constructor <;> grind
  · have present : h ∈ s.readyQueue.contents := List.mem_of_find?_eq_some found
    have fewer : ∀ x ∈ queue.contents, x ∈ s.readyQueue.contents := by
      rw [contents]
      exact fun x here => List.mem_of_mem_eraseP here
    clear step
    cases based
    constructor <;> grind

-- idle_poll activates the block of the thread it is about to enter.
theorem based_dispatch (based : Based s τ) (step : Step s (.dispatch c) t) :
    Based t (effect s τ (.dispatch c)) := by
  obtain ⟨h,held,rfl⟩ := dispatch_exact step
  obtain ⟨b,block⟩ := Option.ne_none_iff_exists'.mp (based.present c h (.inr (.inl held)))
  simp only [effect,held,block,activate]
  clear step
  cases based
  constructor <;> grind

theorem based_load (based : Based s τ) (step : Step s (.load c) t) : Based t τ := by
  obtain ⟨h,dispatched,rfl⟩ := load_exact step
  clear step
  cases based
  constructor <;> grind

theorem based_yield (ordered : Ordered s) (based : Based s τ) (step : Step s (.yield c) t) :
    Based t (effect s τ (.yield c)) := by
  obtain ⟨seated,client,h,queue,current,contents,rfl⟩ := yield_exact step
  have active := current_active ordered client current
  simp only [effect,activate]
  clear step
  cases based
  constructor <;> grind

theorem based_finish (ordered : Ordered s) (based : Based s τ) (step : Step s (.finish c) t) :
    Based t (effect s τ (.finish c)) := by
  obtain ⟨seated,client,h,current,rfl⟩ := finish_exact step
  have active := current_active ordered client current
  simp only [effect,activate]
  clear step
  cases based
  constructor <;> grind

theorem based_save (based : Based s τ) (step : Step s (.save c) t) : Based t τ := by
  obtain ⟨seat,h,leaving,rfl⟩ := save_exact step
  clear step
  cases based
  constructor <;> grind

theorem based_restore (based : Based s τ) (step : Step s (.restore c) t) : Based t τ := by
  obtain ⟨seat,h,leaving,rfl⟩ := restore_exact step
  clear step
  cases based
  constructor <;> grind

theorem based_observe (ordered : Ordered s) (based : Based s τ) (step : Step s (.observe c) t) :
    Based t (effect s τ (.observe c)) := by
  obtain ⟨h,returned,rfl⟩ := observe_exact step
  have idle := ordered.back c h (.inl returned)
  simp only [effect,activate]
  clear step
  cases based
  constructor <;> grind

theorem based_stage (based : Based s τ) (before : (s.cpus c).stage = .client ∨ (s.cpus c).stage = .claiming h)
    (after : stage = .client ∨ stage = .joining h) : Based {s with cpus := s.atStage c stage} τ := by
  cases based
  constructor <;> grind

-- What is destroyed belongs to a DONE thread, which no CPU has active.
theorem based_reclaim (ordered : Ordered s) (based : Based s τ) (done : (s.threads h).state = .done)
    (stage : (s.cpus c).stage = .claiming h ∨ (s.cpus c).stage = .joining h) :
    Based {reclaim s h with cpus := s.atStage c .client} (destroy τ c h) := by
  have absent := idle_absent ordered (.inr done)
  have unclaimed := idle_unclaimed ordered (.inr done)
  have plain : (s.cpus c).stage.departing = false := by
    rcases stage with claiming | joining
    · rw [claiming]; rfl
    · rw [joining]; rfl
  simp only [reclaim,destroy]
  cases block : τ.tlsBlock h with
  | none =>
      cases based
      constructor <;> grind
  | some b =>
      simp only [activate]
      cases based
      constructor <;> grind

theorem based_claim (ordered : Ordered s) (based : Based s τ) (step : Step s (.claim c) t) :
    Based t (effect s τ (.claim c)) := by
  simp only [Step,execute,idleClaim] at step
  split at step <;> cases step
  rename_i h stage
  simp only [effect,stage]
  by_cases gone : abandoned (s.threads h) = true
  · simp only [gone,if_true]
    simp only [abandoned,Bool.and_eq_true,decide_eq_true_eq] at gone
    exact based_reclaim ordered based gone.1 (.inl stage)
  · simp only [gone]
    exact based_stage based (.inr stage) (.inl rfl)

theorem based_join (ordered : Ordered s) (based : Based s τ) (step : Step s (.join c) t) :
    Based t (effect s τ (.join c)) := by
  obtain ⟨h,_,done,rfl⟩ := join_exact step
  have joining : (s.cpus c).stage = .joining h := by
    simp only [Step,execute,joinReclaim] at step
    split at step <;> grind
  simp only [effect,joining]
  exact based_reclaim ordered based done (.inr joining)

theorem based_detach (based : Based s τ) (step : Step s (.detach c h) t) : Based t τ := by
  obtain ⟨client,rfl⟩ := detach_exact step
  clear step
  cases based
  constructor <;> grind

theorem based_preserved (ordered : Ordered s) (based : Based s τ) (step : Step s action t) :
    Based t (effect s τ action) := by
  cases action with
  | reserve => exact based_reserve based step
  | prepare => exact based_prepare ordered based step
  | enqueue => exact based_enqueue based step
  | poll => exact based_poll based step
  | dispatch => exact based_dispatch based step
  | load => exact based_load based step
  | yield => exact based_yield ordered based step
  | finish => exact based_finish ordered based step
  | save => exact based_save based step
  | restore => exact based_restore based step
  | observe => exact based_observe ordered based step
  | claim => exact based_claim ordered based step
  | detach => exact based_detach based step
  | await =>
      obtain ⟨client,_,rfl⟩ := await_exact step
      exact based_stage based (.inl client) (.inr rfl)
  | join => exact based_join ordered based step

theorem based_write (based : Based s τ) : Based s (τ.write c context) := by
  cases based
  constructor <;> assumption

end Based

theorem run_based (run : Run SystemStep (fun _ _ => True) (.init boot) calls x) :
    Ordered x.scheduler ∧ Based x.scheduler x.tls := by
  refine run.keeps (fun x => Ordered x.scheduler ∧ Based x.scheduler x.tls) ?_ ⟨initial_ordered,initial_based boot⟩
  rintro x call y ⟨ordered,based⟩ _ step
  cases call with
  | run action =>
      obtain ⟨moved,tls⟩ := run_step step
      refine ⟨ordered_preserved ordered moved,?_⟩
      rw [tls]
      exact based_preserved ordered based moved
  | change c context =>
      obtain ⟨client,rfl⟩ := change_step step
      exact ⟨ordered,based_write based⟩

-- A thread between its yield and the load that resumes it, with its block and
-- the copy in it.
structure Parked (h b : Nat) (copy : Context) (x : System) : Prop where
  block : x.tls.tlsBlock h = some b
  kept : x.tls.saved (.created b) = copy
  alive : (x.scheduler.threads h).state = .ready ∨ (x.scheduler.threads h).state = .running
  off : ∀ c, (x.scheduler.cpus c).active ≠ some h
  unreserved : ∀ c stack affinity, (x.scheduler.cpus c).stage ≠ .creating h stack affinity
  entered : ∀ c, (x.scheduler.cpus c).stage = .dispatched h → x.tls.context (.created b) = copy

-- No CPU loads the registers of h.
def Away (h : Nat) (x : System) (call : Call) : Prop :=
  ∀ c, call = .run (.load c) → (x.scheduler.cpus c).stage ≠ .dispatched h

section Parked
variable {s t : State} {τ : Tls}

theorem parked_yield (ordered : Ordered s) (based : Based s τ) (step : Step s (.yield c) t)
    (current : s.currentThreads c = some h) : ∃ b, τ.base c = .created b ∧
      Parked h b (τ.saved (.created b)) ⟨t,effect s τ (.yield c)⟩ := by
  obtain ⟨seated,client,g,queue,mine,contents,rfl⟩ := yield_exact step
  rw [current] at mine
  cases mine
  have active := current_active ordered client current
  have here : onCpu (s.cpus c) = some h := by simp [onCpu,client,active]
  obtain ⟨b,block⟩ := Option.ne_none_iff_exists'.mp (based.present c h (.inr (.inr here)))
  have alone : ∀ c', Claims (s.cpus c') h → c' = c := fun c' claims => ordered.unique c' c h claims (.inr active)
  refine ⟨b,based.running c h b here block,?_⟩
  simp only [effect,activate]
  clear step
  constructor <;> grind

theorem parked_change (based : Based s τ) (parked : Parked h b copy ⟨s,τ⟩) (client : (s.cpus c).stage = .client) :
    Parked h b copy ⟨s,τ.write c context⟩ := by
  have elsewhere : τ.base c ≠ .created b := by
    intro same
    have off := parked.off c
    cases running : onCpu (s.cpus c) with
    | none =>
        have idle := based.resting c running
        rw [same] at idle
        cases idle
    | some g =>
        have active : (s.cpus c).active = some g := by simpa [onCpu,client] using running
        obtain ⟨b',block⟩ := Option.ne_none_iff_exists'.mp (based.present c g (.inr (.inr running)))
        have other := based.running c g b' running block
        rw [same] at other
        cases other
        have equal := based.distinct g h b block parked.block
        exact off (by rw [active,equal])
  obtain ⟨block,kept,alive,off,unreserved,entered⟩ := parked
  refine ⟨block,kept,alive,off,unreserved,?_⟩
  intro c' dispatched
  have before := entered c' dispatched
  simp only [Tls.write,putBlock]
  rwa [if_neg (Ne.symm elsewhere)]

-- The block that is destroyed is another one, and what its destruction puts
-- back into the caller's image is what was there.
theorem parked_reclaim (based : Based s τ) (parked : Parked h b copy ⟨s,τ⟩) (done : (s.threads g).state = .done)
    (stage : (s.cpus c).stage = .claiming g ∨ (s.cpus c).stage = .joining g) :
    Parked h b copy ⟨{reclaim s g with cpus := s.atStage c .client},destroy τ c g⟩ := by
  obtain ⟨block,kept,alive,off,unreserved,entered⟩ := parked
  simp only at block kept alive off unreserved entered
  have distinct := based.distinct
  have plain : (s.cpus c).stage.departing = false := by
    rcases stage with claiming | joining
    · rw [claiming]; rfl
    · rw [joining]; rfl
  simp only [reclaim,destroy]
  cases entry : τ.tlsBlock g with
  | none => constructor <;> grind
  | some b' =>
      have other : b' ≠ b := by grind
      simp only [activate,Tls.observed]
      constructor <;> grind

theorem parked_action (ordered : Ordered s) (based : Based s τ) (parked : Parked h b copy ⟨s,τ⟩)
    (away : ∀ c, action = .load c → (s.cpus c).stage ≠ .dispatched h) (step : Step s action t) :
    Parked h b copy ⟨t,effect s τ action⟩ := by
  obtain ⟨block,kept,alive,off,unreserved,entered⟩ := parked
  simp only at block kept alive off unreserved entered
  have bound := based.bound
  have distinct := based.distinct
  cases action with
  | reserve c =>
      obtain ⟨client,_,_,g,_,free,rfl⟩ := reserve_exact step
      clear step
      constructor <;> grind [effect]
  | prepare c =>
      obtain ⟨g,stack,affinity,creating,rfl⟩ := prepare_exact step
      simp only [effect,creating,create]
      clear step
      constructor <;> grind
  | enqueue c =>
      obtain ⟨g,queue,created,contents,rfl⟩ := enqueue_exact step
      clear step
      constructor <;> grind [effect]
  | poll c =>
      obtain ⟨idle,queue,contents,⟨nobody,rfl⟩ | ⟨g,found,rfl⟩⟩ := poll_exact step
      · exact ⟨block,kept,alive,off,unreserved,entered⟩
      · clear step
        constructor <;> grind [effect]
  | dispatch c =>
      obtain ⟨g,held,rfl⟩ := dispatch_exact step
      obtain ⟨b',entry⟩ := Option.ne_none_iff_exists'.mp (based.present c g (.inr (.inl held)))
      simp only [effect,held,entry,activate]
      clear step
      constructor <;> grind
  | load c =>
      obtain ⟨g,dispatched,rfl⟩ := load_exact step
      have other := away c rfl
      clear step
      constructor <;> grind [effect]
  | yield c =>
      obtain ⟨seated,client,g,queue,current,contents,rfl⟩ := yield_exact step
      have active := current_active ordered client current
      simp only [effect,activate]
      clear step
      constructor <;> grind
  | finish c =>
      obtain ⟨seated,client,g,current,rfl⟩ := finish_exact step
      have active := current_active ordered client current
      simp only [effect,activate]
      clear step
      constructor <;> grind
  | save c =>
      obtain ⟨seat,g,leaving,rfl⟩ := save_exact step
      clear step
      constructor <;> grind [effect]
  | restore c =>
      obtain ⟨seat,g,leaving,rfl⟩ := restore_exact step
      clear step
      constructor <;> grind [effect]
  | observe c =>
      obtain ⟨g,returned,rfl⟩ := observe_exact step
      simp only [effect,activate]
      clear step
      constructor <;> grind
  | claim c =>
      have whole : Parked h b copy ⟨s,τ⟩ := ⟨block,kept,alive,off,unreserved,entered⟩
      simp only [Step,execute,idleClaim] at step
      split at step <;> cases step
      rename_i g stage
      simp only [effect,stage]
      by_cases gone : abandoned (s.threads g) = true
      · simp only [gone,if_true]
        simp only [abandoned,Bool.and_eq_true,decide_eq_true_eq] at gone
        exact parked_reclaim based whole gone.1 (.inl stage)
      · simp only [gone]
        constructor <;> grind
  | detach c g =>
      obtain ⟨client,rfl⟩ := detach_exact step
      clear step
      constructor <;> grind [effect]
  | await c g =>
      obtain ⟨client,_,rfl⟩ := await_exact step
      clear step
      constructor <;> grind [effect]
  | join c =>
      obtain ⟨g,_,done,rfl⟩ := join_exact step
      have joining : (s.cpus c).stage = .joining g := by
        simp only [Step,execute,joinReclaim] at step
        split at step <;> grind
      simp only [effect,joining]
      exact parked_reclaim based ⟨block,kept,alive,off,unreserved,entered⟩ done (.inr joining)

end Parked

-- Thread h yields on CPU c, in state x, and is resumed on CPU c', which leaves w.
structure Resumed (boot : Nat → Context) (x : System) (c h c' : Nat) (w : System) : Prop where
  current : x.scheduler.currentThreads c = some h
  path : ∃ calls y away z, Run SystemStep (fun _ _ => True) (.init boot) calls x ∧
    SystemStep x (.run (.yield c)) y ∧ Run SystemStep (Away h) y away z ∧
    (z.scheduler.cpus c').stage = .dispatched h ∧ SystemStep z (.run (.load c')) w

-- CPU c enters a thread from idle_poll, in state x, and is back from it in w.
structure IdleAgain (boot : Nat → Context) (x : System) (c : Nat) (w : System) : Prop where
  path : ∃ calls y away z, Run SystemStep (fun _ _ => True) (.init boot) calls x ∧
    SystemStep x (.run (.dispatch c)) y ∧ Run SystemStep (fun _ call => call ≠ .run (.observe c)) y away z ∧
    SystemStep z (.run (.observe c)) w

theorem resumed_observes (resumed : Resumed boot x c h c' w) :
    w.tls.observed c' = x.tls.saved (x.tls.base c) := by
  obtain ⟨current,calls,y,away,z,run,yields,between,dispatched,loads⟩ := resumed
  obtain ⟨ordered,based⟩ := run_based run
  obtain ⟨moved,tls⟩ := run_step yields
  obtain ⟨b,base,parked⟩ := parked_yield ordered based moved current
  have start : Ordered y.scheduler ∧ Based y.scheduler y.tls := by
    rw [tls]
    exact ⟨ordered_preserved ordered moved,based_preserved ordered based moved⟩
  have waits : Parked h b (x.tls.saved (.created b)) y := by
    rw [← tls] at parked
    exact parked
  have later := between.keeps
    (fun z => (Ordered z.scheduler ∧ Based z.scheduler z.tls) ∧ Parked h b (x.tls.saved (.created b)) z) (by
      rintro z call z' ⟨⟨ordered,based⟩,parked⟩ allowed step
      cases call with
      | run action =>
          obtain ⟨moved,tls⟩ := run_step step
          have kept := parked_action ordered based parked (fun c same => allowed c (by rw [same])) moved
          rw [← tls] at kept
          refine ⟨⟨ordered_preserved ordered moved,?_⟩,kept⟩
          rw [tls]
          exact based_preserved ordered based moved
      | change c context =>
          obtain ⟨client,rfl⟩ := change_step step
          exact ⟨⟨ordered,based_write based⟩,parked_change based parked client⟩) ⟨start,waits⟩
  obtain ⟨⟨ordered',based'⟩,ready⟩ := later
  have here := based'.running c' h b (by simp [onCpu,dispatched]) ready.block
  have entered := ready.entered c' dispatched
  have loaded := (run_step loads).2
  rw [loaded,base]
  show z.tls.context (z.tls.base c') = _
  rw [here,entered]

theorem effect_saved_idle (s : State) (τ : Tls) (action : Action) (c : Nat) :
    (effect s τ action).saved (.idle c) = τ.saved (.idle c) := by
  unfold effect
  split
  · split
    · simp [create,putBlock]
    · rfl
  · split
    · split <;> rfl
    · rfl
  · rfl
  · rfl
  · rfl
  · split
    · split
      · unfold destroy
        split <;> rfl
      · rfl
    · rfl
  · split
    · unfold destroy
      split <;> rfl
    · rfl
  · rfl

theorem saved_idle_kept (run : Run SystemStep admits x calls y) (c : Nat) :
    y.tls.saved (.idle c) = x.tls.saved (.idle c) := by
  refine run.keeps (fun y => y.tls.saved (.idle c) = x.tls.saved (.idle c)) ?_ rfl
  intro y call z same _ step
  cases call with
  | run action => rw [(run_step step).2,effect_saved_idle,same]
  | change c' context =>
      obtain ⟨_,rfl⟩ := change_step step
      exact same

theorem idle_observes (again : IdleAgain boot x c w) : x.tls.base c = .idle c ∧
    w.tls.observed c = x.tls.saved (x.tls.base c) := by
  obtain ⟨calls,y,away,z,run,enters,between,returns⟩ := again
  obtain ⟨ordered,based⟩ := run_based run
  obtain ⟨moved,entered⟩ := run_step enters
  obtain ⟨h,held,_⟩ := dispatch_exact moved
  have idle := (ordered.held c h held).1
  have base := based.resting c (by simp [onCpu,held,Cpu.active,Stage.departing,idle])
  refine ⟨base,?_⟩
  rw [(run_step returns).2,base]
  have kept := saved_idle_kept between c
  rw [entered,effect_saved_idle] at kept
  simp [effect,activate,Tls.observed,put,kept]

-- What code sees after a switch is the copy in its block: what it saw before
-- exactly when that was the copy.
theorem context_after_switch (boot : Nat → Context) :
    (∀ x c h c' w, Resumed boot x c h c' w →
      (w.tls.observed c' = x.tls.observed c ↔ x.tls.observed c = x.tls.saved (x.tls.base c))) ∧
    (∀ x c w, IdleAgain boot x c w →
      (w.tls.observed c = x.tls.observed c ↔ x.tls.observed c = x.tls.saved (x.tls.base c))) := by
  refine ⟨fun x c h c' w resumed => ?_,fun x c w again => ?_⟩
  · rw [resumed_observes resumed]
    exact eq_comm
  · rw [(idle_observes again).2]
    exact eq_comm

def heap : Context := {Context.init with allocator := .other 1 0}
def debugHeap : Context := {Context.init with allocator := .other 2 0}

def spawned : List Call := [.run (.reserve 0 4096 none),.run (.prepare 0),.run (.enqueue 0),.run (.poll 1)]
def entered : List Call := spawned ++ [.run (.dispatch 1),.run (.load 1)]
def away : List Call := [.run (.save 1),.run (.restore 1),.run (.observe 1),.run (.poll 1),.run (.dispatch 1)]
def stay : List Call := [.run (.load 1),.run (.finish 1),.run (.save 1),.run (.restore 1)]

def notLoading : Call → Bool
  | .run (.load _) => false
  | _ => true

-- The states before `first`, before `last` and after it, the calls between
-- them being quiet.
def around (start : List Call) (first : Call) (quiet : Call → Bool) (between : List Call) (last : Call) :
    Option (System × System × System) :=
  match follow advance (fun _ _ => true) (.init fun _ => heap) start with
  | none => none
  | some x =>
    match advance x first with
    | none => none
    | some y =>
      match follow advance (fun _ => quiet) y between with
      | none => none
      | some z =>
        match advance z last with
        | none => none
        | some w => some (x,z,w)

theorem around_parts (admits : System → Call → Prop) (implies : ∀ s call, quiet call = true → admits s call)
    (found : around start first quiet between last = some (x,z,w)) :
    Run SystemStep (fun _ _ => True) (.init fun _ => heap) start x ∧ ∃ y, SystemStep x first y ∧
      Run SystemStep admits y between z ∧ SystemStep z last w := by
  unfold around at found
  split at found <;> try cases found
  rename_i x' run
  split at found <;> try cases found
  rename_i y one
  split at found <;> try cases found
  rename_i z' middle
  split at found <;> cases found
  rename_i two
  exact ⟨follow_run _ _ (fun _ _ _ => id) (fun _ _ _ => trivial) run,y,one,
    follow_run _ _ (fun _ _ _ => id) implies middle,two⟩

-- A thread on CPU 1 makes these changes, yields and is resumed there.
def aroundYield (changes : List Call) : Option (System × System × System) :=
  around (entered ++ changes) (.run (.yield 1)) notLoading away (.run (.load 1))

def aroundPoll : Option (System × System × System) :=
  around spawned (.run (.dispatch 1)) (fun call => decide (call ≠ .run (.observe 1))) stay (.run (.observe 1))

theorem aroundYield_resumed (found : aroundYield changes = some (x,z,w))
    (current : x.scheduler.currentThreads 1 = some 0) (dispatched : (z.scheduler.cpus 1).stage = .dispatched 0) :
    Resumed (fun _ => heap) x 1 0 1 w := by
  have quiet : ∀ s call, notLoading call = true → Away 0 s call := by
    rintro s call allowed c rfl
    cases allowed
  obtain ⟨run,y,yields,between,loads⟩ := around_parts _ quiet found
  exact ⟨current,_,y,_,z,run,yields,between,dispatched,loads⟩

theorem aroundPoll_again (found : aroundPoll = some (x,z,w)) : IdleAgain (fun _ => heap) x 1 w := by
  obtain ⟨run,y,enters,between,returns⟩ := around_parts _ (fun _ _ => of_decide_eq_true) found
  exact ⟨_,y,_,z,run,enters,between,returns⟩

-- Without changes of its own a thread, and an idle loop, finds what it left.
theorem context_after_switch_kept :
    (∃ x w : System, w.tls.observed 1 = x.tls.observed 1 ∧ x.scheduler.currentThreads 1 = some 0) ∧
    ∃ x w : System, w.tls.observed 1 = x.tls.observed 1 ∧ (x.scheduler.cpus 1).stage = .held 0 := by
  constructor
  · have possible : (aroundYield []).map (fun (x,z,_) => (x.tls.observed 1,x.tls.saved (x.tls.base 1),
        x.scheduler.currentThreads 1,(z.scheduler.cpus 1).stage)) = some (heap,heap,some 0,.dispatched 0) := by
      decide
    obtain ⟨⟨x,z,w⟩,found,same⟩ := Option.map_eq_some_iff.mp possible
    simp only [Prod.mk.injEq] at same
    obtain ⟨seen,copy,current,dispatched⟩ := same
    exact ⟨x,w,((context_after_switch _).1 x 1 0 1 w (aroundYield_resumed found current dispatched)).mpr
      (seen.trans copy.symm),current⟩
  · have possible : aroundPoll.map (fun (x,_,_) => (x.tls.observed 1,x.tls.saved (x.tls.base 1),
        (x.scheduler.cpus 1).stage)) = some (heap,heap,.held 0) := by
      decide
    obtain ⟨⟨x,z,w⟩,found,same⟩ := Option.map_eq_some_iff.mp possible
    simp only [Prod.mk.injEq] at same
    obtain ⟨seen,copy,held⟩ := same
    exact ⟨x,w,((context_after_switch _).2 x 1 w (aroundPoll_again found)).mpr (seen.trans copy.symm),held⟩

-- The thread set its allocator; after the yield the old one is back.
theorem allocator_lost_by_yield : ¬ ∀ boot x c h c' w, Resumed boot x c h c' w → w.tls.observed c' = x.tls.observed c := by
  intro always
  have possible : (aroundYield [.change 1 debugHeap]).map (fun (x,z,w) => (x.tls.observed 1,w.tls.observed 1,
      x.scheduler.currentThreads 1,(z.scheduler.cpus 1).stage)) = some (debugHeap,heap,some 0,.dispatched 0) := by
    decide
  obtain ⟨⟨x,z,w⟩,found,same⟩ := Option.map_eq_some_iff.mp possible
  simp only [Prod.mk.injEq] at same
  obtain ⟨before,after,current,dispatched⟩ := same
  have kept := always _ _ _ _ _ _ (aroundYield_resumed found current dispatched)
  rw [before,after] at kept
  revert kept
  decide

end ThreadContexts
