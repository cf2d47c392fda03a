import Gameos.SchedulerAssertions

-- Thread handles over runs of the scheduler: which incarnation of a table entry
-- each handle stands for, who consumed it, and what was reclaimed.
namespace SchedulerHandles
open Scheduler TransitionRuns

-- The source has the index only; incarnations count the reservations of an
-- entry and nothing in the scheduler reads them.
structure Handle where
  index : Nat
  incarnation : Nat
deriving DecidableEq, Repr

-- `handles` are issued and not consumed yet. `joiners` holds, for a CPU whose
-- join has left its loop, the handle it was called with.
structure Ledger where
  incarnation : Nat → Nat
  handles : List Handle
  detached : List Handle
  joiners : Nat → Option Handle
  reclaimed : List Handle

def Ledger.init : Ledger := ⟨fun _ => 0,[],[],fun _ => none,[]⟩

def Ledger.current (l : Ledger) (h : Nat) : Handle := ⟨h,l.incarnation h⟩

structure System where
  scheduler : State
  ledger : Ledger

def System.init : System := ⟨initialState,.init⟩

-- detach and join are called with a handle; every other action is as it is.
inductive Call where
  | run (action : Action)
  | detach (cpu : Nat) (handle : Handle)
  | await (cpu : Nat) (handle : Handle)
deriving DecidableEq, Repr

def Call.action : Call → Action
  | .run action => action
  | .detach c g => .detach c g.index
  | .await c g => .await c g.index

def Ledger.record (l : Ledger) (s : State) : Call → Ledger
  | .run (.reserve _ _ _) =>
    match firstFree s.threads with
    | some h => {l with incarnation := put l.incarnation h (l.incarnation h + 1)}
    | none => l
  | .run (.enqueue c) =>
    match (s.cpus c).stage with
    | .created h => {l with handles := l.current h :: l.handles}
    | _ => l
  | .run (.claim c) =>
    match (s.cpus c).stage with
    | .claiming h => if abandoned (s.threads h) then {l with reclaimed := l.current h :: l.reclaimed} else l
    | _ => l
  | .run (.join c) =>
    match (s.cpus c).stage with
    | .joining h => {l with reclaimed := l.current h :: l.reclaimed,joiners := put l.joiners c none}
    | _ => l
  | .run _ => l
  | .detach _ g => {l with handles := l.handles.erase g,detached := g :: l.detached}
  | .await c g => {l with handles := l.handles.erase g,joiners := put l.joiners c (some g)}

def SystemStep (x : System) (call : Call) (y : System) : Prop :=
  Step x.scheduler call.action y.scheduler ∧ y.ledger = x.ledger.record x.scheduler call

def takesHandle : Action → Bool
  | .detach _ _ | .await _ _ => true
  | _ => false

-- Each handle is consumed once, by a detach or by a join.
def Consumes (x : System) : Call → Prop
  | .run action => takesHandle action = false
  | .detach _ g | .await _ g => g ∈ x.ledger.handles

instance (x : System) : DecidablePred (Consumes x)
  | .run action => inferInstanceAs (Decidable (takesHandle action = false))
  | .detach _ g => inferInstanceAs (Decidable (g ∈ x.ledger.handles))
  | .await _ g => inferInstanceAs (Decidable (g ∈ x.ledger.handles))

def advance (x : System) (call : Call) : Option System :=
  match execute x.scheduler call.action with
  | .moved t => some ⟨t,x.ledger.record x.scheduler call⟩
  | _ => none

theorem advance_step (moved : advance x call = some y) : SystemStep x call y := by
  unfold advance at moved
  cases result : execute x.scheduler call.action with
  | blocked => simp [result] at moved
  | asserted message => simp [result] at moved
  | moved t =>
      simp only [result] at moved
      cases moved
      exact ⟨result,rfl⟩

-- The entry a create_thread in progress has reserved.
def reservedEntry : Stage → Option Nat
  | .creating h _ _ | .created h => some h
  | _ => none

-- The thread of a CPU on its way from that thread's stack to the check after
-- idle_poll's switch.
def attended (cpu : Cpu) : Option Nat :=
  match cpu.stage with
  | .leaving _ _ => cpu.seat.map (·.thread)
  | .returned h | .claiming h => some h
  | _ => none

attribute [grind =] reservedEntry attended Ledger.current

structure Accounted (s : State) (l : Ledger) : Prop where
  unique : l.handles.Nodup
  live : ∀ g ∈ l.handles, g.incarnation = l.incarnation g.index ∧ (s.threads g.index).state ≠ .free ∧
    (s.threads g.index).detached = false ∧ ∀ c, reservedEntry (s.cpus c).stage ≠ some g.index
  fresh : ∀ h, (s.threads h).state = .free → (s.threads h).detached = false
  reserved : ∀ c h, reservedEntry (s.cpus c).stage = some h → (s.threads h).detached = false
  joining : ∀ c h, (s.cpus c).stage = .joining h → l.joiners c = some (l.current h) ∧ (s.threads h).state = .done ∧
    (s.threads h).detached = false ∧ ∀ g ∈ l.handles, g.index ≠ h
  alone : ∀ c c' h, (s.cpus c).stage = .joining h → (s.cpus c').stage = .joining h → c = c'
  detached : ∀ h, (s.threads h).detached = true → l.current h ∈ l.detached
  once : l.reclaimed.Nodup
  past : ∀ g ∈ l.reclaimed, g.incarnation < l.incarnation g.index ∨
    (g.incarnation = l.incarnation g.index ∧ (s.threads g.index).state = .free)

theorem initial_accounted : Accounted initialState .init := by
  constructor <;> simp [initialState,Ledger.init,Thread.init,reservedEntry]

section Accounted
variable {s t : State} {l : Ledger}

theorem reserve_first (step : Step s (.reserve c stack affinity) t) : (s.cpus c).stage = .client ∧ ∃ h,
    firstFree s.threads = some h ∧ (s.threads h).state = .free ∧
      t = {s with
        threads := s.marked h .ready
        cpus := s.atStage c (.creating h stack affinity)
        storage := stack :: s.storage} := by
  simp only [Step,execute,createReserve] at step
  split at step <;> try cases step
  split at step <;> try cases step
  split at step <;> try cases step
  split at step <;> try cases step
  rename_i client nonzero unused _ h found
  split at step <;> cases step
  exact ⟨by simpa using client,h,found,by simpa using List.find?_some found,rfl⟩

-- A new incarnation begins: no handle, joiner or reclaim of it exists.
theorem accounted_reserve (accounted : Accounted s l) (step : Step s (.reserve c stack affinity) t) :
    Accounted t (l.record s (.run (.reserve c stack affinity))) := by
  obtain ⟨client,h,found,free,rfl⟩ := reserve_first step
  simp only [Ledger.record,found]
  clear step
  cases accounted
  constructor <;> grind

theorem accounted_prepare (accounted : Accounted s l) (step : Step s (.prepare c) t) : Accounted t l := by
  obtain ⟨h,stack,affinity,creating,rfl⟩ := prepare_exact step
  clear step
  cases accounted
  constructor <;> grind

theorem reserved_alone (ordered : Ordered s) (one : reservedEntry (s.cpus c).stage = some h)
    (two : reservedEntry (s.cpus c').stage = some h) : c' = c := by
  have claims : ∀ c, reservedEntry (s.cpus c).stage = some h → Claims (s.cpus c) h := by
    intro c reserved
    left
    cases stage : (s.cpus c).stage <;> rw [stage] at reserved <;> first | exact reserved | cases reserved
  exact ordered.unique c' c h (claims c' two) (claims c one)

-- The handle is issued when spawn returns, one for the incarnation.
theorem accounted_enqueue (ordered : Ordered s) (accounted : Accounted s l) (step : Step s (.enqueue c) t) :
    Accounted t (l.record s (.run (.enqueue c))) := by
  obtain ⟨h,queue,created,contents,rfl⟩ := enqueue_exact step
  simp only [Ledger.record,created]
  have ready := (ordered.created c h created).1
  have alone : ∀ c', reservedEntry (s.cpus c').stage = some h → c' = c :=
    fun c' => reserved_alone ordered (by rw [created]; rfl)
  clear step ordered
  cases accounted
  constructor <;> grind

theorem accounted_poll (accounted : Accounted s l) (step : Step s (.poll c) t) : Accounted t l := by
  obtain ⟨idle,queue,contents,⟨nobody,rfl⟩ | ⟨h,found,rfl⟩⟩ := poll_exact step
  · cases accounted
    constructor <;> assumption
  · clear step
    cases accounted
    constructor <;> grind

theorem accounted_dispatch (ordered : Ordered s) (accounted : Accounted s l) (step : Step s (.dispatch c) t) :
    Accounted t l := by
  obtain ⟨h,held,rfl⟩ := dispatch_exact step
  have ready := (ordered.held c h held).2
  clear step ordered
  cases accounted
  constructor <;> grind

theorem accounted_load (accounted : Accounted s l) (step : Step s (.load c) t) : Accounted t l := by
  obtain ⟨h,dispatched,rfl⟩ := load_exact step
  clear step
  cases accounted
  constructor <;> grind

theorem accounted_yield (ordered : Ordered s) (accounted : Accounted s l) (step : Step s (.yield c) t) :
    Accounted t l := by
  obtain ⟨seated,client,h,queue,current,contents,rfl⟩ := yield_exact step
  have running := (ordered.running c h (current_active ordered client current)).1
  clear step ordered
  cases accounted
  constructor <;> grind

theorem accounted_finish (ordered : Ordered s) (accounted : Accounted s l) (step : Step s (.finish c) t) :
    Accounted t l := by
  obtain ⟨seated,client,h,current,rfl⟩ := finish_exact step
  have running := (ordered.running c h (current_active ordered client current)).1
  clear step ordered
  cases accounted
  constructor <;> grind

theorem accounted_save (accounted : Accounted s l) (step : Step s (.save c) t) : Accounted t l := by
  obtain ⟨seat,h,leaving,rfl⟩ := save_exact step
  clear step
  cases accounted
  constructor <;> grind

theorem accounted_restore (accounted : Accounted s l) (step : Step s (.restore c) t) : Accounted t l := by
  obtain ⟨seat,h,leaving,rfl⟩ := restore_exact step
  clear step
  cases accounted
  constructor <;> grind

theorem accounted_observe (accounted : Accounted s l) (step : Step s (.observe c) t) : Accounted t l := by
  obtain ⟨h,returned,rfl⟩ := observe_exact step
  clear step
  cases accounted
  constructor <;> grind

theorem detach_live (step : Step s (.detach c h) t) : (s.cpus c).stage = .client ∧ (s.threads h).state ≠ .free ∧
    (s.threads h).state ≠ .done ∧ t = {s with threads := put s.threads h {s.threads h with detached := true}} := by
  simp only [Step,execute,detachThread] at step
  split at step <;> try cases step
  rename_i client
  split at step <;> try cases step
  split at step <;> try cases step
  rename_i free
  split at step <;> try cases step
  rename_i done
  split at step <;> cases step
  exact ⟨by simpa using client,free,done,rfl⟩

-- An issued handle is the one of the entry's present incarnation, so handles
-- of one entry are equal.
theorem issued_current (accounted : Accounted s l) (issued : g ∈ l.handles) : l.current g.index = g := by
  obtain ⟨same,_⟩ := accounted.live g issued
  unfold Ledger.current
  rw [← same]

theorem issued_others (accounted : Accounted s l) (issued : g ∈ l.handles) (other : g' ∈ l.handles.erase g) :
    g' ∈ l.handles ∧ g'.index ≠ g.index := by
  have issued' := List.mem_of_mem_erase other
  refine ⟨issued',fun same => ?_⟩
  have equal : g' = g := by rw [← issued_current accounted issued',← issued_current accounted issued,same]
  subst equal
  exact accounted.unique.not_mem_erase other

theorem accounted_detach (accounted : Accounted s l) (issued : g ∈ l.handles) (step : Step s (.detach c g.index) t) :
    Accounted t (l.record s (.detach c g)) := by
  obtain ⟨client,free,done,rfl⟩ := detach_live step
  simp only [Ledger.record]
  have mine := issued_current accounted issued
  have others : ∀ g' ∈ l.handles.erase g, g' ∈ l.handles ∧ g'.index ≠ g.index :=
    fun _ => issued_others accounted issued
  have unique := accounted.unique.erase g
  clear step
  cases accounted
  constructor <;> grind

theorem accounted_await (accounted : Accounted s l) (issued : g ∈ l.handles) (step : Step s (.await c g.index) t) :
    Accounted t (l.record s (.await c g)) := by
  obtain ⟨client,done,rfl⟩ := await_exact step
  simp only [Ledger.record]
  have mine := issued_current accounted issued
  have others : ∀ g' ∈ l.handles.erase g, g' ∈ l.handles ∧ g'.index ≠ g.index :=
    fun _ => issued_others accounted issued
  have unique := accounted.unique.erase g
  clear step
  cases accounted
  constructor <;> grind

-- A DONE thread without handle or joiner is cleared and its incarnation ends.
theorem accounted_reclaim (accounted : Accounted s l) (done : (s.threads h).state = .done)
    (consumed : ∀ g ∈ l.handles, g.index ≠ h)
    (joiner : ∀ c', (s.cpus c').stage = .joining h → c' = c) (kept : ∀ c', c' ≠ c → joiners c' = l.joiners c') :
    Accounted {reclaim s h with cpus := s.atStage c .client}
      {l with reclaimed := l.current h :: l.reclaimed,joiners := joiners} := by
  have new : l.current h ∉ l.reclaimed := by
    intro among
    rcases accounted.past _ among with earlier | ⟨_,free⟩
    · exact Nat.lt_irrefl _ earlier
    · have clash : (s.threads h).state = .free := free
      rw [done] at clash
      cases clash
  simp only [reclaim,Thread.init]
  cases accounted
  constructor <;> grind

theorem accounted_claim (accounted : Accounted s l) (step : Step s (.claim c) t) :
    Accounted t (l.record s (.run (.claim c))) := by
  simp only [Step,execute,idleClaim] at step
  split at step <;> cases step
  rename_i h stage
  simp only [Ledger.record,stage]
  by_cases gone : abandoned (s.threads h) = true
  · simp only [gone,if_true]
    simp only [abandoned,Bool.and_eq_true,decide_eq_true_eq] at gone
    have consumed : ∀ g ∈ l.handles, g.index ≠ h := by
      rintro g issued rfl
      have attached := (accounted.live g issued).2.2.1
      rw [gone.2] at attached
      cases attached
    have joiner : ∀ c', (s.cpus c').stage = .joining h → c' = c := by
      intro c' joining
      have attached := (accounted.joining c' h joining).2.2.1
      rw [gone.2] at attached
      cases attached
    exact accounted_reclaim accounted gone.1 consumed joiner fun _ _ => rfl
  · simp only [gone]
    cases accounted
    constructor <;> grind

theorem accounted_join (accounted : Accounted s l) (step : Step s (.join c) t) :
    Accounted t (l.record s (.run (.join c))) := by
  obtain ⟨h,stage,done,rfl⟩ := join_exact step
  have joining : (s.cpus c).stage = .joining h := by
    simp only [Step,execute,joinReclaim] at step
    split at step <;> grind
  simp only [Ledger.record,joining]
  exact accounted_reclaim accounted done (accounted.joining c h joining).2.2.2
    (fun c' other => accounted.alone c' c h other joining) fun c' other => put_other other

theorem accounted_preserved (ordered : Ordered s) (accounted : Accounted s l)
    (consumes : Consumes ⟨s,l⟩ call) (step : Step s call.action t) : Accounted t (l.record s call) := by
  cases call with
  | detach c g => exact accounted_detach accounted consumes step
  | await c g => exact accounted_await accounted consumes step
  | run action =>
      cases action with
      | reserve => exact accounted_reserve accounted step
      | prepare => exact accounted_prepare accounted step
      | enqueue => exact accounted_enqueue ordered accounted step
      | poll => exact accounted_poll accounted step
      | dispatch => exact accounted_dispatch ordered accounted step
      | load => exact accounted_load accounted step
      | yield => exact accounted_yield ordered accounted step
      | finish => exact accounted_finish ordered accounted step
      | save => exact accounted_save accounted step
      | restore => exact accounted_restore accounted step
      | observe => exact accounted_observe accounted step
      | claim => exact accounted_claim accounted step
      | join => exact accounted_join accounted step
      | detach => cases consumes
      | await => cases consumes

end Accounted

-- A thread that is DONE and detached has a CPU that will come to reclaim it.
def Attended (s : State) : Prop := ∀ h, abandoned (s.threads h) = true → ∃ c, attended (s.cpus c) = some h

section Attended
variable {s t : State}

theorem initial_attended : Attended initialState := by
  intro h gone
  simp [initialState,Thread.init,abandoned] at gone

-- No step but finish abandons a thread; the CPU that moves still attends what
-- it attended, or that is not abandoned any more.
theorem attended_frame (every : Attended s) (threads : ∀ h, abandoned (t.threads h) = true → abandoned (s.threads h) = true)
    (others : ∀ c', c' ≠ c → t.cpus c' = s.cpus c')
    (mine : ∀ h, attended (s.cpus c) = some h → abandoned (t.threads h) = true → attended (t.cpus c) = some h) :
    Attended t := by
  intro h gone
  obtain ⟨c',attends⟩ := every h (threads h gone)
  refine ⟨c',?_⟩
  by_cases same : c' = c
  · subst same
    exact mine h attends gone
  · rwa [others c' same]

-- A CPU at a stage of client code, of creation or before a switch attends nobody.
theorem unattended (every : Attended s) (threads : ∀ h, abandoned (t.threads h) = true → abandoned (s.threads h) = true)
    (others : ∀ c', c' ≠ c → t.cpus c' = s.cpus c') (nobody : attended (s.cpus c) = none) : Attended t :=
  attended_frame every threads others fun h attends _ => by rw [nobody] at attends; cases attends

theorem attended_reclaim (every : Attended s) (reclaims : Reclaims s c h t) : Attended t := by
  obtain ⟨stage,done,rfl⟩ := reclaims
  have fewer : ∀ g, abandoned ((reclaim s h).threads g) = true → g ≠ h ∧ abandoned (s.threads g) = true := by
    intro g gone
    by_cases same : g = h
    · subst same
      simp [reclaim,put,abandoned,Thread.init] at gone
    · simp only [reclaim,put_other same] at gone
      exact ⟨same,gone⟩
  refine attended_frame (c:=c) every (fun g gone => (fewer g gone).2) (fun _ other => if_neg other) ?_
  intro g attends gone
  rcases stage with claiming | joining
  · simp only [attended,claiming,Option.some.injEq] at attends
    exact absurd attends.symm (fewer g gone).1
  · simp [attended,joining] at attends

theorem atStage_same : s.atStage c stage c = {s.cpus c with stage := stage} := if_pos rfl

theorem attended_finish (ordered : Ordered s) (every : Attended s) (step : Step s (.finish c) t) : Attended t := by
  obtain ⟨seated,client,h,current,rfl⟩ := finish_exact step
  have active := current_active ordered client current
  intro g gone
  by_cases same : g = h
  · refine ⟨c,?_⟩
    subst same
    have here : attended {s.cpus c with stage := .leaving g false} = some g := by
      simpa [attended,Cpu.active,client,Stage.departing] using active
    simpa only [atStage_same] using here
  · have before : abandoned (s.threads g) = true := by simpa [State.marked,put,same] using gone
    obtain ⟨c',attends⟩ := every g before
    refine ⟨c',?_⟩
    have other : c' ≠ c := by
      rintro rfl
      simp [attended,client] at attends
    show attended (put s.cpus c _ c') = some g
    rwa [put_other other]

theorem attended_preserved (ordered : Ordered s) (every : Attended s) (step : Step s action t) : Attended t := by
  cases action with
  | reserve c =>
      obtain ⟨client,_,_,h,bound,free,rfl⟩ := reserve_exact step
      exact unattended (c:=c) every (by grind [abandoned]) (fun _ other => if_neg other) (by simp [attended,client])
  | prepare c =>
      obtain ⟨h,stack,affinity,creating,rfl⟩ := prepare_exact step
      exact unattended (c:=c) every (by grind [abandoned]) (fun _ other => if_neg other) (by simp [attended,creating])
  | enqueue c =>
      obtain ⟨h,queue,created,contents,rfl⟩ := enqueue_exact step
      exact unattended (c:=c) every (fun _ => id) (fun _ other => if_neg other) (by simp [attended,created])
  | poll c =>
      obtain ⟨idle,queue,contents,⟨nobody,rfl⟩ | ⟨h,found,rfl⟩⟩ := poll_exact step
      · exact every
      · exact unattended (c:=c) every (fun _ => id) (fun _ other => if_neg other) (by simp [attended,idle])
  | dispatch c =>
      obtain ⟨h,held,rfl⟩ := dispatch_exact step
      exact unattended (c:=c) every (by grind [abandoned]) (fun _ other => if_neg other) (by simp [attended,held])
  | load c =>
      obtain ⟨h,dispatched,rfl⟩ := load_exact step
      exact unattended (c:=c) every (fun _ => id) (fun _ other => if_neg other) (by simp [attended,dispatched])
  | yield c =>
      obtain ⟨seated,client,h,queue,current,contents,rfl⟩ := yield_exact step
      exact unattended (c:=c) every (by grind [abandoned]) (fun _ other => if_neg other) (by simp [attended,client])
  | finish c => exact attended_finish ordered every step
  | save c =>
      obtain ⟨seat,h,leaving,rfl⟩ := save_exact step
      refine attended_frame (c:=c) every (by grind [abandoned]) (fun _ other => if_neg other) ?_
      intro g attends _
      have here : attended {s.cpus c with stage := .leaving h true} = some g := by
        simpa [attended,leaving] using attends
      simpa only [atStage_same] using here
  | restore c =>
      obtain ⟨seat,h,leaving,rfl⟩ := restore_exact step
      refine attended_frame (c:=c) every (fun _ => id) (fun _ other => if_neg other) ?_
      intro g attends _
      simpa [attended,leaving,put] using attends
  | observe c =>
      obtain ⟨h,returned,rfl⟩ := observe_exact step
      refine attended_frame (c:=c) every (fun _ => id) (fun _ other => if_neg other) ?_
      intro g attends gone
      have here : h = g := by simpa [attended,returned] using attends
      subst here
      simp only [State.atStage,put,if_true]
      rw [if_pos gone]
      rfl
  | claim c =>
      obtain ⟨h,claiming,same | reclaims⟩ := claim_exact step
      · have kept : ¬ abandoned (s.threads h) = true := by
          intro gone
          have done : (s.threads h).state = .done := by simpa [abandoned] using And.left (by simpa [abandoned] using gone)
          simp only [Step,execute,idleClaim,claiming,gone,if_true,Outcome.moved.injEq] at step
          have cleared := congrArg (fun t : State => (t.threads h).state) (step.trans same)
          simp [reclaim,put,Thread.init,done] at cleared
        subst same
        refine attended_frame (c:=c) every (fun _ => id) (fun _ other => if_neg other) ?_
        intro g attends gone
        have here : h = g := by simpa [attended,claiming] using attends
        exact absurd (here ▸ gone) kept
      · exact attended_reclaim every reclaims
  | detach c =>
      obtain ⟨client,free,done,rfl⟩ := detach_live step
      exact unattended (c:=c) every (by grind [abandoned]) (fun _ _ => rfl) (by simp [attended,client])
  | await c =>
      obtain ⟨client,done,rfl⟩ := await_exact step
      exact unattended (c:=c) every (fun _ => id) (fun _ other => if_neg other) (by simp [attended,client])
  | join c =>
      obtain ⟨h,reclaims⟩ := join_exact step
      exact attended_reclaim every reclaims

end Attended

-- A step that runs reclaim, on the entry's present incarnation: the thread is
-- DONE, and its own handle went to detach or to the join that reclaims it.
def ReclaimStep (x : System) (call : Call) (y : System) : Prop :=
  ∃ c h, Reclaims x.scheduler c h y.scheduler ∧ y.ledger.reclaimed = x.ledger.current h :: x.ledger.reclaimed ∧
    ((call = .run (.claim c) ∧ x.ledger.current h ∈ x.ledger.detached) ∨
      (call = .run (.join c) ∧ x.ledger.joiners c = some (x.ledger.current h)))

-- Any other step: it records no reclaim and makes no entry FREE.
def OtherStep (x y : System) : Prop :=
  y.ledger.reclaimed = x.ledger.reclaimed ∧
    ∀ h, (y.scheduler.threads h).state = .free → (x.scheduler.threads h).state = .free

theorem claim_reclaims (accounted : Accounted x.scheduler x.ledger) (step : SystemStep x (.run (.claim c)) y) :
    ReclaimStep x (.run (.claim c)) y ∨ OtherStep x y := by
  obtain ⟨moved,recorded⟩ := step
  simp only [Step,Call.action,execute,idleClaim] at moved
  split at moved <;> try cases moved
  rename_i h stage
  simp only [Ledger.record,stage] at recorded
  by_cases gone : abandoned (x.scheduler.threads h) = true
  · simp only [gone,if_true,Outcome.moved.injEq] at moved recorded
    simp only [abandoned,Bool.and_eq_true,decide_eq_true_eq] at gone
    left
    exact ⟨c,h,⟨.inl stage,gone.1,moved.symm⟩,by rw [recorded],.inl ⟨rfl,accounted.detached h gone.2⟩⟩
  · simp only [gone,Outcome.moved.injEq] at moved recorded
    right
    refine ⟨by rw [recorded]; rfl,fun g free => ?_⟩
    rw [← moved] at free
    exact free

theorem join_reclaims (accounted : Accounted x.scheduler x.ledger) (step : SystemStep x (.run (.join c)) y) :
    ReclaimStep x (.run (.join c)) y := by
  obtain ⟨moved,recorded⟩ := step
  obtain ⟨h,stage,done,same⟩ := join_exact moved
  have joining : (x.scheduler.cpus c).stage = .joining h := by
    simp only [Step,Call.action,execute,joinReclaim] at moved
    split at moved <;> grind
  simp only [Ledger.record,joining] at recorded
  exact ⟨c,h,⟨stage,done,same⟩,by rw [recorded],.inr ⟨rfl,(accounted.joining c h joining).1⟩⟩

theorem free_before (step : Step s action t) (plain : ∀ c, action ≠ .claim c ∧ action ≠ .join c)
    (free : (t.threads h).state = .free) : (s.threads h).state = .free := by
  cases action with
  | claim c => exact absurd rfl (plain c).1
  | join c => exact absurd rfl (plain c).2
  | reserve => obtain ⟨_,_,_,_,_,_,rfl⟩ := reserve_exact step; grind
  | prepare => obtain ⟨_,_,_,_,rfl⟩ := prepare_exact step; grind
  | enqueue => obtain ⟨_,_,_,_,rfl⟩ := enqueue_exact step; exact free
  | poll => obtain ⟨_,_,_,⟨_,rfl⟩ | ⟨_,_,rfl⟩⟩ := poll_exact step <;> exact free
  | dispatch => obtain ⟨_,_,rfl⟩ := dispatch_exact step; grind
  | load => obtain ⟨_,_,rfl⟩ := load_exact step; exact free
  | yield => obtain ⟨_,_,_,_,_,_,rfl⟩ := yield_exact step; grind
  | finish => obtain ⟨_,_,_,_,rfl⟩ := finish_exact step; grind
  | save => obtain ⟨_,_,_,rfl⟩ := save_exact step; grind
  | restore => obtain ⟨_,_,_,rfl⟩ := restore_exact step; exact free
  | observe => obtain ⟨_,_,rfl⟩ := observe_exact step; exact free
  | detach => obtain ⟨_,_,_,rfl⟩ := detach_live step; grind
  | await => obtain ⟨_,_,rfl⟩ := await_exact step; exact free

theorem record_reclaimed (plain : ∀ c, call ≠ .run (.claim c) ∧ call ≠ .run (.join c)) :
    (Ledger.record l s call).reclaimed = l.reclaimed := by
  unfold Ledger.record
  split
  · split <;> rfl
  · split <;> rfl
  · exact absurd rfl (plain _).1
  · exact absurd rfl (plain _).2
  all_goals rfl

theorem reclaim_or_other (accounted : Accounted x.scheduler x.ledger) (step : SystemStep x call y) :
    ReclaimStep x call y ∨ OtherStep x y := by
  by_cases claim : ∃ c, call = .run (.claim c)
  · obtain ⟨c,rfl⟩ := claim
    exact claim_reclaims accounted step
  by_cases join : ∃ c, call = .run (.join c)
  · obtain ⟨c,rfl⟩ := join
    exact .inl (join_reclaims accounted step)
  right
  obtain ⟨moved,recorded⟩ := step
  refine ⟨?_,fun h => free_before moved fun c => ?_⟩
  · rw [recorded]
    exact record_reclaimed fun c => ⟨fun same => claim ⟨c,same⟩,fun same => join ⟨c,same⟩⟩
  · cases call with
    | run action => exact ⟨fun same => claim ⟨c,by rw [← same]; rfl⟩,fun same => join ⟨c,by rw [← same]; rfl⟩⟩
    | detach => exact ⟨nofun,nofun⟩
    | await => exact ⟨nofun,nofun⟩

structure ReclaimedOnce (x : System) : Prop where
  -- no incarnation of an entry is reclaimed twice
  once : x.ledger.reclaimed.Nodup
  steps : ∀ call y, Consumes x call → SystemStep x call y → ReclaimStep x call y ∨ OtherStep x y
  -- a handle that is not consumed still names the thread it was issued for
  issued : ∀ g ∈ x.ledger.handles, x.ledger.current g.index = g ∧ (x.scheduler.threads g.index).state ≠ .free
  -- nothing is leaked once every CPU is in its idle loop
  settled : (∀ c, x.scheduler.cpus c = ⟨none,.client⟩) → ∀ h,
    ¬ ((x.scheduler.threads h).state = .done ∧ (x.scheduler.threads h).detached = true)

theorem run_accounted (run : Run SystemStep Consumes .init calls x) :
    Ordered x.scheduler ∧ Accounted x.scheduler x.ledger ∧ Attended x.scheduler := by
  refine run.keeps (fun x => Ordered x.scheduler ∧ Accounted x.scheduler x.ledger ∧ Attended x.scheduler) ?_
    ⟨initial_ordered,initial_accounted,initial_attended⟩
  rintro x call y ⟨ordered,accounted,every⟩ consumes ⟨moved,recorded⟩
  refine ⟨ordered_preserved ordered moved,?_,attended_preserved ordered every moved⟩
  rw [recorded]
  exact accounted_preserved ordered accounted consumes moved

-- Every interleaving of spawn, run, yield, finish, detach and join in which
-- each handle is consumed once.
theorem threads_reclaimed_once (run : Run SystemStep Consumes .init calls x) : ReclaimedOnce x := by
  obtain ⟨ordered,accounted,every⟩ := run_accounted run
  refine ⟨accounted.once,fun call y _ => reclaim_or_other accounted,?_,?_⟩
  · exact fun g among => ⟨issued_current accounted among,(accounted.live g among).2.1⟩
  · rintro idle h ⟨done,detached⟩
    obtain ⟨c,attends⟩ := every h (by simp [abandoned,done,detached])
    rw [idle c] at attends
    cases attends

-- Entry 0 is spawned, detached, run and reclaimed on CPU 1, then spawned again
-- and joined from CPU 0.
def twice : List Call :=
  [.run (.reserve 0 4096 none),.run (.prepare 0),.run (.enqueue 0),.detach 0 ⟨0,1⟩,
    .run (.poll 1),.run (.dispatch 1),.run (.load 1),.run (.finish 1),.run (.save 1),.run (.restore 1),
    .run (.observe 1),.run (.claim 1),
    .run (.reserve 0 4096 none),.run (.prepare 0),.run (.enqueue 0),
    .run (.poll 1),.run (.dispatch 1),.run (.load 1),.run (.finish 1),.run (.save 1),.run (.restore 1),
    .run (.observe 1),.await 0 ⟨0,2⟩,.run (.join 0)]

theorem threads_reclaimed_once_twice : ∃ x, x.ledger.reclaimed = [⟨0,2⟩,⟨0,1⟩] ∧ ReclaimedOnce x := by
  have possible : ((follow advance (fun x call => decide (Consumes x call)) .init twice).map
      fun x => x.ledger.reclaimed) = some [⟨0,2⟩,⟨0,1⟩] := by decide
  obtain ⟨x,followed,reclaimed⟩ := Option.map_eq_some_iff.mp possible
  exact ⟨x,reclaimed,threads_reclaimed_once
    (follow_run _ _ (fun _ _ _ => advance_step) (fun _ _ => of_decide_eq_true) followed)⟩

end SchedulerHandles
