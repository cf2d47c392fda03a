import Mathlib.Algebra.GroupWithZero.Nat
import Mathlib.Algebra.Order.BigOperators.Group.Finset
import Mathlib.Data.Fintype.EquivFin
import Mathlib.Data.Set.Finite.Range
import Mathlib.Order.Preorder.Finite
import Gameos.Spinlocks

-- Which use of the spinlocks can end in a deadlock.
namespace Synchronization
open TransitionRuns

-- The locks that Scoped alone takes while interrupts are on, and the locks that handlers take.
structure Discipline (Lock : Type) where
  interruptible : Lock → Prop
  inHandlers : Lock → Prop

section Definitions
variable {Cpu Lock Data : Type}

-- The lock that an event sets out to take, and the one that code is about to take.
def Event.wants : Event Lock Data → Option Lock
  | .instruction (.scopedLock lock) => some lock
  | .instruction (.interruptsEnabled lock) => lock
  | _ => none

def Phase.wants : Phase Lock → Option Lock
  | .running => none
  | .read _ lock => lock
  | .locking _ lock => some lock
  | .restoring _ => none

-- What finishes a constructor, a section or a handler, and begins nothing.
inductive Event.Finishes : Event Lock Data → Prop where
  | masks : Finishes (.instruction .disableInterrupts)
  | spins : Finishes (.instruction .testAndSet)
  | closes : Finishes (.instruction .destroy)
  | restores : Finishes (.instruction .restore)
  | returns : Finishes .iret

def Processor.Quiet (p : Processor Lock) : Prop := p.handlers = [] ∧ p.thread = .idle

def Phase.load : Phase Lock → Nat
  | .running => 0
  | .read _ _ => 5
  | .locking _ _ => 4
  | .restoring _ => 1

-- What is left to do until nothing is open.
def Activation.load (a : Activation Lock) : Nat := a.phase.load + 2*a.guards.length
def Processor.load (p : Processor Lock) : Nat := (p.handlers.map fun handler => handler.2.load + 1).sum + p.thread.load

variable [LinearOrder Lock]

structure Allowed (d : Discipline Lock) (p : Processor Lock) (event : Event Lock Data) : Prop where
  ascending : ∀ lock,event.wants = some lock → ∀ held ∈ locksOf p.running.guards,held < lock
  handler : ∀ lock,event.wants = some lock → p.handlers ≠ [] → d.inHandlers lock
  interruptible : ∀ lock,event = .instruction (.scopedLock lock) → p.interruptFlag = true → d.interruptible lock

def Activation.Ascending (a : Activation Lock) : Prop := ∀ lock,a.phase.wants = some lock → ∀ held ∈ locksOf a.guards,held < lock

-- Locks that are held, or about to be, with interrupts on.
structure Exposed (d : Discipline Lock) (a : Activation Lock) : Prop where
  phase : ∀ lock,a.phase = .locking none lock → masked a.guards = false → d.interruptible lock
  guards : ∀ guards,guards <:+ a.guards → masked guards = false → ∀ lock ∈ locksOf guards,d.interruptible lock

structure Processor.Follows (d : Discipline Lock) (p : Processor Lock) : Prop where
  thread : p.thread.Ascending
  exposed : p.enabled = true → Exposed d p.thread
  handlers : ∀ handler ∈ p.handlers,handler.2.Ascending ∧ ∀ lock,handler.2.phase.wants = some lock → d.inHandlers lock

variable [DecidableEq Cpu]

def Steps (m : Machine Cpu Lock Data) (call : Cpu × Event Lock Data) (after : Machine Cpu Lock Data) : Prop :=
  ∃ touch,m.move call.1 call.2 = some (after,touch)

def Obeys (d : Discipline Lock) (m : Machine Cpu Lock Data) (call : Cpu × Event Lock Data) : Prop := Allowed d (m.processors call.1) call.2

end Definitions

section Order
variable {Lock Data : Type} [LinearOrder Lock] {d : Discipline Lock} {locked : Lock → Bool} {p q : Processor Lock} {touch : Touch Lock Data}

theorem Acts.ascending {a b : Activation Lock} {instruction : Instruction Lock Data} (acts : Acts locked flag a instruction b after touch)
    (ascending : a.Ascending)
    (allowed : ∀ lock,(Event.instruction instruction).wants = some lock → ∀ held ∈ locksOf a.guards,held < lock) : b.Ascending := by
  intro lock wants
  cases acts with
  | reads => exact allowed lock wants
  | enters => exact allowed lock wants
  | masks => exact ascending lock wants
  | spins => exact ascending lock wants
  | _ => cases wants

theorem Acts.wants {a b : Activation Lock} {instruction : Instruction Lock Data} (acts : Acts locked flag a instruction b after touch)
    (wants : b.phase.wants = some lock) : a.phase.wants = some lock ∨ (Event.instruction instruction).wants = some lock := by
  cases acts with
  | reads => exact .inr wants
  | enters => exact .inr wants
  | masks => exact .inl wants
  | spins => exact .inl wants
  | _ => cases wants

theorem Exposed.pushed {a : Activation Lock} (exposed : Exposed d a) {guard : Guard Lock}
    (new : ∀ lock,guard.lock = some lock → guard.masks = false → masked a.guards = false → d.interruptible lock) :
    ∀ guards,guards <:+ guard :: a.guards → masked guards = false → ∀ lock ∈ locksOf guards,d.interruptible lock := by
  intro guards suffix unmasked lock listed
  rcases List.suffix_cons_iff.mp suffix with rfl | below
  · rw [masked,List.any_cons,Bool.or_eq_false_iff] at unmasked
    obtain ⟨member,present,mine⟩ := List.mem_filterMap.mp listed
    rcases List.mem_cons.mp present with rfl | older
    · exact new lock mine unmasked.1 unmasked.2
    · exact exposed.guards a.guards (List.suffix_refl _) unmasked.2 lock (List.mem_filterMap.mpr ⟨member,older,mine⟩)
  · exact exposed.guards guards below unmasked lock listed

theorem Acts.exposed {a b : Activation Lock} {instruction : Instruction Lock Data}
    (acts : Acts locked (true && !a.masked) a instruction b after touch) (exposed : Exposed d a)
    (allowed : ∀ lock,Event.instruction instruction = .instruction (.scopedLock lock) → (true && !a.masked) = true → d.interruptible lock) :
    Exposed d b := by
  generalize same : (true && !a.masked) = flag at acts
  cases acts with
  | reads => exact ⟨fun _ other => (by cases other),exposed.guards⟩
  | guards => exact ⟨fun _ other => (by cases other),exposed.pushed fun _ none => (by cases none)⟩
  | masks => exact ⟨fun _ other => (by cases other),exposed.guards⟩
  | @enters guards lock =>
      refine ⟨fun mine locking unmasked => ?_,exposed.guards⟩
      cases locking
      refine allowed lock rfl ?_
      have open_ : (⟨.running,guards⟩ : Activation Lock).masked = false := unmasked
      rw [open_]
      rfl
  | spins => exact exposed
  | @takes lock enabled guards clear =>
      refine ⟨fun _ other => (by cases other),exposed.pushed fun mine made unmasked rest => ?_⟩
      cases enabled with
      | none =>
          cases made
          exact exposed.phase lock rfl rest
      | some enabled => cases unmasked
  | works => exact exposed
  | unguards =>
      refine ⟨fun _ other => (by cases other),fun guards suffix => ?_⟩
      exact exposed.guards guards (suffix.trans (List.suffix_cons _ _))
  | unlocks =>
      refine ⟨fun _ other => (by cases other),fun guards suffix => ?_⟩
      exact exposed.guards guards (suffix.trans (List.suffix_cons _ _))
  | unlocksIrq =>
      refine ⟨fun _ other => (by cases other),fun guards suffix => ?_⟩
      exact exposed.guards guards (suffix.trans (List.suffix_cons _ _))
  | restores => exact ⟨fun _ other => (by cases other),exposed.guards⟩

theorem idle_ascending : (Activation.idle : Activation Lock).Ascending := fun _ wants => by cases wants

theorem idle_exposed (d : Discipline Lock) : Exposed d Activation.idle where
  phase := fun _ locking => by cases locking
  guards := by
    intro guards suffix _ lock listed
    rw [List.suffix_nil.mp suffix] at listed
    exact absurd listed List.not_mem_nil

theorem Processor.Follows.step {event : Event Lock Data} (follows : p.Follows d) (sound : p.Sound) (allowed : Allowed d p event)
    (steps : p.step locked event = some (q,touch)) : q.Follows d := by
  cases event with
  | instruction instruction =>
      rw [Processor.step] at steps
      obtain ⟨⟨b,flag,touched⟩,acts,same⟩ := Option.map_eq_some_iff.mp steps
      cases same
      cases sound with
      | @thread on base recorded =>
          have acts : Acts locked (on && !base.masked) base instruction b flag touch := act_acts acts
          refine ⟨acts.ascending follows.thread allowed.ascending,fun enabled => ?_,follows.handlers⟩
          have on : on = true := enabled
          subst on
          exact acts.exposed (follows.exposed rfl) allowed.interruptible
      | @handler a base recorded suspended unmasked =>
          have acts : Acts locked false a instruction b flag touch := act_acts acts
          obtain ⟨ascending,wanted⟩ := follows.handlers (true,a) List.mem_cons_self
          refine ⟨follows.thread,follows.exposed,fun handler listed => ?_⟩
          cases List.mem_singleton.mp listed
          refine ⟨acts.ascending ascending allowed.ascending,fun lock wants => ?_⟩
          rcases acts.wants wants with before | now
          · exact wanted lock before
          · exact allowed.handler lock now (List.cons_ne_nil _ _)
  | interrupt =>
      rw [Processor.step] at steps
      split at steps
      · cases steps
        refine ⟨follows.thread,follows.exposed,fun handler listed => ?_⟩
        rcases List.mem_cons.mp listed with rfl | older
        · exact ⟨idle_ascending,fun _ wants => by cases wants⟩
        · exact follows.handlers handler older
      · cases steps
  | iret =>
      rw [Processor.step] at steps
      split at steps
      case h_1 saved below here =>
        cases steps
        refine ⟨follows.thread,follows.exposed,fun handler listed => follows.handlers handler ?_⟩
        rw [here]
        exact List.mem_cons_of_mem _ listed
      case h_2 => cases steps
  | enableInterrupts =>
      rw [Processor.step] at steps
      split at steps
      case h_1 here idle =>
        cases steps
        refine ⟨follows.thread,fun _ => ?_,follows.handlers⟩
        dsimp only
        rw [idle]
        exact idle_exposed d
      case h_2 => cases steps

-- A processor waits only for locks that come after all that it holds, also in the code that the
-- interrupt has put off.
theorem Processor.Follows.waits (follows : p.Follows d) (sound : p.Sound) (order : ∀ l h,d.interruptible l → d.inHandlers h → l < h)
    (wants : p.running.phase.wants = some lock) : ∀ held ∈ p.held,held < lock := by
  intro held listed
  cases sound with
  | thread recorded => exact follows.thread lock wants held listed
  | @handler a base recorded suspended unmasked =>
      obtain ⟨ascending,wanted⟩ := follows.handlers (true,a) List.mem_cons_self
      rw [held_running] at listed
      rcases List.mem_append.mp listed with mine | below
      · exact ascending lock wants held mine
      · rw [Activation.masked,Bool.or_eq_false_iff] at unmasked
        exact order held lock ((follows.exposed rfl).guards base.guards (List.suffix_refl _) unmasked.2 held below) (wanted lock wants)

end Order

section Closing
variable {Lock Data : Type} [DecidableEq Lock] {locked : Lock → Bool} {p : Processor Lock}

-- Code that does not spin on a lock that is taken has something to finish, or nothing.
theorem act_finishes (a : Activation Lock) (flag : Bool) (busy : a ≠ .idle)
    (free : ∀ enabled lock,a.phase = .locking enabled lock → locked lock = false) :
    ∃ (instruction : Instruction Lock Data) (b : Activation Lock) (after : Bool) (touch : Touch Lock Data),
      (Event.instruction instruction).Finishes ∧ a.act locked flag instruction = some (b,after,touch) ∧ b.load < a.load := by
  obtain ⟨phase,guards⟩ := a
  cases phase with
  | running =>
      cases guards with
      | nil => exact absurd rfl busy
      | cons guard guards =>
          cases guard with
          | interruptGuard enabled =>
              refine ⟨.destroy,⟨.restoring enabled,guards⟩,flag,.nothing,.closes,rfl,?_⟩
              simp only [Activation.load,Phase.load,List.length_cons]
              omega
          | scopedLock lock =>
              refine ⟨.destroy,⟨.running,guards⟩,flag,.release lock,.closes,rfl,?_⟩
              simp only [Activation.load,Phase.load,List.length_cons]
              omega
          | scopedIrq enabled lock =>
              refine ⟨.destroy,⟨.restoring enabled,guards⟩,flag,.release lock,.closes,rfl,?_⟩
              simp only [Activation.load,Phase.load,List.length_cons]
              omega
  | read enabled lock =>
      cases lock with
      | none =>
          refine ⟨.disableInterrupts,⟨.running,.interruptGuard enabled :: guards⟩,false,.nothing,.masks,rfl,?_⟩
          simp only [Activation.load,Phase.load,List.length_cons]
          omega
      | some lock =>
          refine ⟨.disableInterrupts,⟨.locking (some enabled) lock,guards⟩,false,.nothing,.masks,rfl,?_⟩
          simp only [Activation.load,Phase.load]
          omega
  | locking enabled lock =>
      have clear := free enabled lock rfl
      refine ⟨.testAndSet,⟨.running,.made lock enabled :: guards⟩,flag,.take lock,.spins,?_,?_⟩
      · simp only [Activation.act,clear,Bool.false_eq_true,if_false]
      · simp only [Activation.load,Phase.load,List.length_cons]
        omega
  | restoring enabled =>
      refine ⟨.restore,⟨.running,guards⟩,flag || enabled,.nothing,.restores,rfl,?_⟩
      simp only [Activation.load,Phase.load]
      omega

theorem load_resume (p : Processor Lock) (a : Activation Lock) (flag : Bool) (less : a.load < p.running.load) :
    (p.resume a flag).load < p.load := by
  obtain ⟨_,enabled,handlers,thread⟩ := p
  cases handlers with
  | nil => exact Nat.add_lt_add_left less _
  | cons handler below =>
      have less : a.load < handler.2.load := less
      simp only [Processor.resume,Processor.load,List.map_cons,List.sum_cons]
      omega

theorem step_finishes (busy : ¬ p.Quiet) (free : ∀ enabled lock,p.running.phase = .locking enabled lock → locked lock = false) :
    ∃ (event : Event Lock Data) (q : Processor Lock) (touch : Touch Lock Data),
      event.Finishes ∧ p.step locked event = some (q,touch) ∧ q.load < p.load := by
  by_cases idle : p.running = .idle
  · obtain ⟨flag,enabled,handlers,thread⟩ := p
    cases handlers with
    | nil => exact absurd ⟨rfl,idle⟩ busy
    | cons handler below =>
        obtain ⟨saved,a⟩ := handler
        have idle : a = .idle := idle
        subst idle
        refine ⟨.iret,⟨saved,enabled,below,thread⟩,.nothing,.returns,rfl,?_⟩
        simp only [Processor.load,List.map_cons,List.sum_cons]
        omega
  · obtain ⟨instruction,b,after,touch,finishes,acts,less⟩ := act_finishes p.running p.interruptFlag idle free
    refine ⟨.instruction instruction,p.resume b after,touch,finishes,?_,load_resume p b after less⟩
    rw [Processor.step,acts]
    rfl

end Closing

section Machines
variable {Cpu Lock Data : Type} [DecidableEq Cpu] [LinearOrder Lock] {d : Discipline Lock} {m last : Machine Cpu Lock Data}
  {calls : List (Cpu × Event Lock Data)} {admits : Machine Cpu Lock Data → Cpu × Event Lock Data → Prop}

theorem journaled (run : Run Steps admits m calls last) (journal : Lock → List (Section Cpu Data)) :
    ∃ after,Run Moves (fun _ _ => True) (m,journal) calls (last,after) := by
  induction run generalizing journal with
  | nil => exact ⟨journal,.nil⟩
  | cons _ moved _ ih =>
      obtain ⟨touch,moved⟩ := moved
      obtain ⟨after,rest⟩ := ih (record _ journal touch)
      exact ⟨after,.cons trivial ⟨touch,moved,rfl⟩ rest⟩

theorem steps_sound {data : Lock → Data} (run : Run Steps admits (booted data) calls last) :
    Exclusive (fun cpu => (last.processors cpu).held) last.locked ∧ ∀ cpu,(last.processors cpu).Sound := by
  obtain ⟨journal,run⟩ := journaled run fun _ => []
  exact ⟨(run_sound run).exclusive,(run_sound run).flags⟩

theorem run_follows {data : Lock → Data} (run : Run Steps (Obeys d) (booted data) calls last) :
    ∀ cpu,(last.processors cpu).Follows d := by
  have all : ∀ cpu,(last.processors cpu).Sound ∧ (last.processors cpu).Follows d := by
    refine run.keeps (fun m => ∀ cpu,(m.processors cpu).Sound ∧ (m.processors cpu).Follows d) ?_ fun cpu => ?_
    · intro before call after keep allowed moved cpu
      obtain ⟨touch,moved⟩ := moved
      rw [Machine.move] at moved
      obtain ⟨⟨p,touched⟩,steps,same⟩ := Option.map_eq_some_iff.mp moved
      cases same
      dsimp only
      by_cases mine : cpu = call.1
      · subst mine
        rw [Function.update_self]
        obtain ⟨sound,follows⟩ := keep call.1
        exact ⟨sound.step steps,follows.step sound allowed steps⟩
      · rw [Function.update_of_ne mine]
        exact keep cpu
    · exact ⟨idle_sound false,idle_ascending,fun _ => idle_exposed d,fun _ none => absurd none List.not_mem_nil⟩
  exact fun cpu => (all cpu).2

theorem Event.Finishes.obeys {event : Event Lock Data} (finishes : event.Finishes) (p : Processor Lock) : Allowed d p event := by
  cases finishes <;> exact ⟨fun _ wants => (by cases wants),fun _ wants => (by cases wants),fun _ same => (by cases same)⟩

-- Where all that have something to do spin, one of them waits for a lock that no other waits for
-- in turn; but somebody holds it.
theorem someone_finishes [Finite Cpu] (order : ∀ l h,d.interruptible l → d.inHandlers h → l < h)
    (exclusive : Exclusive (fun cpu => (m.processors cpu).held) m.locked) (sound : ∀ cpu,(m.processors cpu).Sound)
    (follows : ∀ cpu,(m.processors cpu).Follows d) (busy : ¬ ∀ cpu,(m.processors cpu).Quiet) :
    ∃ cpu,¬ (m.processors cpu).Quiet ∧ ∀ enabled lock,(m.processors cpu).running.phase = .locking enabled lock → m.locked lock = false := by
  by_contra none
  have spins : ∀ cpu,¬ (m.processors cpu).Quiet → ∃ enabled lock,(m.processors cpu).running.phase = .locking enabled lock ∧ m.locked lock = true := by
    intro cpu loud
    by_contra other
    refine none ⟨cpu,loud,fun enabled lock phase => ?_⟩
    by_contra taken
    exact other ⟨enabled,lock,phase,by simpa using taken⟩
  obtain ⟨first,loud⟩ := not_forall.mp busy
  let wants : Cpu → Option Lock := fun cpu => (m.processors cpu).running.phase.wants
  let waiting : Set Lock := {lock | ∃ cpu,wants cpu = some lock ∧ m.locked lock = true}
  have finite : waiting.Finite := by
    refine ((Set.finite_range wants).preimage (Option.some_injective Lock).injOn).subset ?_
    rintro lock ⟨cpu,same,_⟩
    exact ⟨cpu,same⟩
  have inhabited : waiting.Nonempty := by
    obtain ⟨enabled,lock,phase,taken⟩ := spins first loud
    exact ⟨lock,first,by simp only [wants,phase,Phase.wants],taken⟩
  obtain ⟨top,⟨cpu,wanted,taken⟩,greatest⟩ := finite.exists_maximal inhabited
  obtain ⟨holder,holds⟩ := (exclusive.locked top).mp taken
  have loud : ¬ (m.processors holder).Quiet := by
    rintro ⟨handlers,thread⟩
    rw [Processor.held,handlers,thread] at holds
    exact absurd holds List.not_mem_nil
  obtain ⟨enabled,lock,phase,also⟩ := spins holder loud
  have waits : (m.processors holder).running.phase.wants = some lock := by rw [phase,Phase.wants]
  have above := (follows holder).waits (sound holder) order waits top holds
  exact absurd (greatest ⟨holder,waits,also⟩ above.le) (not_le.mpr above)

theorem all_close [Finite Cpu] (order : ∀ l h,d.interruptible l → d.inHandlers h → l < h) {data : Lock → Data}
    (run : Run Steps (Obeys d) (booted data) calls m) :
    ∃ more last,Run Steps (fun _ call => call.2.Finishes) m more last ∧ ∀ cpu,(last.processors cpu).Quiet := by
  have := Fintype.ofFinite Cpu
  generalize load : ∑ cpu,(m.processors cpu).load = total
  induction total using Nat.strong_induction_on generalizing m calls with
  | _ total ih =>
      by_cases quiet : ∀ cpu,(m.processors cpu).Quiet
      · exact ⟨[],m,.nil,quiet⟩
      · obtain ⟨exclusive,sound⟩ := steps_sound run
        obtain ⟨cpu,loud,free⟩ := someone_finishes order exclusive sound (run_follows run) quiet
        obtain ⟨event,q,touch,finishes,steps,less⟩ := step_finishes loud free
        have moved : Steps m (cpu,event) ⟨Function.update m.processors cpu q,touch.lock m.locked,touch.data m.data⟩ := by
          refine ⟨touch,?_⟩
          rw [Machine.move,steps]
          rfl
        have lower : ∑ other,(Function.update m.processors cpu q other).load < total := by
          rw [← load]
          refine Finset.sum_lt_sum (fun other _ => ?_) ⟨cpu,Finset.mem_univ _,?_⟩
          · by_cases mine : other = cpu
            · subst mine
              rw [Function.update_self]
              exact less.le
            · rw [Function.update_of_ne mine]
          · rw [Function.update_self]
            exact less
        have obeys : Obeys d m (cpu,event) := finishes.obeys _
        obtain ⟨more,last,rest,closed⟩ := ih _ lower (run.append (.single obeys moved)) rfl
        exact ⟨(cpu,event) :: more,last,.cons finishes moved rest,closed⟩

end Machines

section Deadlock
variable {Cpu Lock Data : Type} [DecidableEq Cpu] [LinearOrder Lock] {m last : Machine Cpu Lock Data}

-- Processors that spin with interrupts off, each for a lock that one of them holds.
structure Deadlocked (stuck : Set Cpu) (processors : Cpu → Processor Lock) : Prop where
  waits : ∀ cpu ∈ stuck,(processors cpu).interruptFlag = false ∧
    ∃ enabled lock,(processors cpu).running.phase = .locking enabled lock ∧ ∃ holder ∈ stuck,lock ∈ (processors holder).held

theorem spinning_step {locked : Lock → Bool} {p q : Processor Lock} {event : Event Lock Data} {touch : Touch Lock Data}
    (masked : p.interruptFlag = false) (phase : p.running.phase = .locking enabled lock) (taken : locked lock = true)
    (steps : p.step locked event = some (q,touch)) : q = p := by
  obtain ⟨flag,on,handlers,thread⟩ := p
  have masked : flag = false := masked
  subst masked
  cases event with
  | instruction instruction =>
      rw [Processor.step] at steps
      obtain ⟨⟨b,after,touched⟩,acts,same⟩ := Option.map_eq_some_iff.mp steps
      cases same
      have acts := act_acts acts
      generalize running : (Processor.mk false on handlers thread).running = a at acts phase
      cases acts with
      | spins =>
          cases handlers with
          | nil =>
              cases running
              rfl
          | cons handler below =>
              obtain ⟨saved,a⟩ := handler
              cases running
              rfl
      | takes clear =>
          cases phase
          rw [clear] at taken
          cases taken
      | _ => cases phase
  | interrupt => cases steps
  | iret =>
      rw [Processor.step] at steps
      split at steps
      case h_1 saved below here =>
        dsimp only at here
        subst here
        cases phase
      case h_2 => cases steps
  | enableInterrupts =>
      rw [Processor.step] at steps
      split at steps
      case h_1 here idle =>
        dsimp only at here idle
        subst here idle
        cases phase
      case h_2 => cases steps

theorem Deadlocked.forever {stuck : Set Cpu} {processors : Cpu → Processor Lock} (deadlocked : Deadlocked stuck processors)
    {data : Lock → Data} {calls more : List (Cpu × Event Lock Data)} (run : Run Steps (fun _ _ => True) (booted data) calls m)
    (here : ∀ cpu ∈ stuck,m.processors cpu = processors cpu) (later : Run Steps (fun _ _ => True) m more last) :
    ∀ cpu ∈ stuck,last.processors cpu = processors cpu := by
  induction later generalizing calls with
  | nil => exact here
  | @cons m call middle _ _ allowed moved _ ih =>
      refine ih (run.append (.single trivial moved)) fun cpu among => ?_
      obtain ⟨touch,moved⟩ := moved
      rw [Machine.move] at moved
      obtain ⟨⟨p,touched⟩,steps,same⟩ := Option.map_eq_some_iff.mp moved
      cases same
      dsimp only
      by_cases mine : cpu = call.1
      · subst mine
        rw [Function.update_self]
        obtain ⟨masked,enabled,lock,phase,holder,also,holds⟩ := deadlocked.waits call.1 among
        rw [← here call.1 among] at masked phase
        rw [← here holder also] at holds
        have taken := ((steps_sound run).1.locked lock).mpr ⟨holder,holds⟩
        rw [spinning_step masked phase taken steps]
        exact here call.1 among
      · rw [Function.update_of_ne mine]
        exact here cpu among

theorem move_to {p q : Processor Lock} {touch : Touch Lock Data} {cpu : Cpu} (event : Event Lock Data) (here : m.processors cpu = p)
    (steps : p.step m.locked event = some (q,touch)) :
    ∃ after,Steps m (cpu,event) after ∧ after.processors cpu = q ∧ (∀ other,other ≠ cpu → after.processors other = m.processors other) ∧
      after.locked = touch.lock m.locked := by
  refine ⟨⟨Function.update m.processors cpu q,touch.lock m.locked,touch.data m.data⟩,⟨touch,?_⟩,?_,?_,rfl⟩
  · rw [Machine.move,here,steps]
    rfl
  · dsimp only
    rw [Function.update_self]
  · intro other apart
    dsimp only
    rw [Function.update_of_ne apart]

theorem locking_step {locked : Lock → Bool} {lock : Lock} (clear : locked lock = false) (guards : List (Guard Lock)) (flag on : Bool) :
    (⟨flag,on,[],⟨.locking none lock,guards⟩⟩ : Processor Lock).step locked (Event.instruction .testAndSet : Event Lock Data) =
      some (⟨flag,on,[],⟨.running,.scopedLock lock :: guards⟩⟩,.take lock) := by
  simp only [Processor.step,Processor.running,Activation.act,clear,Bool.false_eq_true,if_false]
  rfl

-- A thread that holds l with interrupts on, and the handler that wants h on top of it.
def interrupted (l h : Lock) : Processor Lock := ⟨false,true,[(true,⟨.locking none h,[]⟩)],⟨.running,[.scopedLock l]⟩⟩

theorem interrupted_reached {d : Discipline Lock} {cpu : Cpu} {l h : Lock} (one : d.interruptible l) (two : d.inHandlers h)
    (fresh : m.processors cpu = .fresh) (clear : m.locked l = false) :
    ∃ calls after,Run Steps (Obeys d) m calls after ∧ after.processors cpu = interrupted l h ∧
      (∀ other,other ≠ cpu → after.processors other = m.processors other) ∧ after.locked = Function.update m.locked l true := by
  obtain ⟨m1,moved1,here1,others1,locked1⟩ := move_to .enableInterrupts fresh rfl
  obtain ⟨m2,moved2,here2,others2,locked2⟩ := move_to (.instruction (.scopedLock l)) here1 rfl
  have clear : m2.locked l = false := by rw [locked2,locked1]; exact clear
  obtain ⟨m3,moved3,here3,others3,locked3⟩ := move_to (.instruction .testAndSet) here2 (locking_step clear [] true true)
  obtain ⟨m4,moved4,here4,others4,locked4⟩ := move_to .interrupt here3 rfl
  obtain ⟨m5,moved5,here5,others5,locked5⟩ := move_to (.instruction (.scopedLock h)) here4 rfl
  have obeys1 : Obeys d m (cpu,.enableInterrupts) := by
    exact ⟨fun _ wants => (by cases wants),fun _ wants => (by cases wants),fun _ same => (by cases same)⟩
  have obeys2 : Obeys d m1 (cpu,.instruction (.scopedLock l)) := by
    rw [Obeys,here1]
    refine ⟨fun _ _ _ none => absurd none List.not_mem_nil,fun _ _ handler => absurd rfl handler,fun lock same _ => ?_⟩
    cases same
    exact one
  have obeys3 : Obeys d m2 (cpu,.instruction .testAndSet) := Event.Finishes.spins.obeys _
  have obeys4 : Obeys d m3 (cpu,.interrupt) := by
    exact ⟨fun _ wants => (by cases wants),fun _ wants => (by cases wants),fun _ same => (by cases same)⟩
  have obeys5 : Obeys d m4 (cpu,.instruction (.scopedLock h)) := by
    rw [Obeys,here4]
    refine ⟨fun _ _ _ none => absurd none List.not_mem_nil,fun lock wants _ => ?_,fun _ _ on => (by cases on)⟩
    cases wants
    exact two
  refine ⟨_,m5,.cons obeys1 moved1 (.cons obeys2 moved2 (.cons obeys3 moved3 (.cons obeys4 moved4 (.single obeys5 moved5)))),here5,?_,?_⟩
  · intro other apart
    rw [others5 other apart,others4 other apart,others3 other apart,others2 other apart,others1 other apart]
  · rw [locked5,locked4,locked3,locked2,locked1]
    rfl

-- Code that holds h, and wants l.
def nested (l h : Lock) : Processor Lock := ⟨false,false,[],⟨.locking none l,[.scopedLock h]⟩⟩

theorem nested_reached {d : Discipline Lock} {cpu : Cpu} {l h : Lock} (ascends : h < l) (fresh : m.processors cpu = .fresh)
    (clear : m.locked h = false) :
    ∃ calls after,Run Steps (Obeys d) m calls after ∧ after.processors cpu = nested l h ∧
      ∀ other,other ≠ cpu → after.processors other = m.processors other := by
  obtain ⟨m1,moved1,here1,others1,locked1⟩ := move_to (.instruction (.scopedLock h)) fresh rfl
  have clear : m1.locked h = false := by rw [locked1]; exact clear
  obtain ⟨m2,moved2,here2,others2,locked2⟩ := move_to (.instruction .testAndSet) here1 (locking_step clear [] false false)
  obtain ⟨m3,moved3,here3,others3,locked3⟩ := move_to (.instruction (.scopedLock l)) here2 rfl
  have obeys1 : Obeys d m (cpu,.instruction (.scopedLock h)) := by
    rw [Obeys,fresh]
    exact ⟨fun _ _ _ none => absurd none List.not_mem_nil,fun _ _ handler => absurd rfl handler,fun _ _ on => (by cases on)⟩
  have obeys2 : Obeys d m1 (cpu,.instruction .testAndSet) := Event.Finishes.spins.obeys _
  have obeys3 : Obeys d m2 (cpu,.instruction (.scopedLock l)) := by
    rw [Obeys,here2]
    refine ⟨fun lock wants held listed => ?_,fun _ _ handler => absurd rfl handler,fun _ _ on => (by cases on)⟩
    cases wants
    cases List.mem_singleton.mp listed
    exact ascends
  refine ⟨_,m3,.cons obeys1 moved1 (.cons obeys2 moved2 (.single obeys3 moved3)),here3,fun other apart => ?_⟩
  rw [others3 other apart,others2 other apart,others1 other apart]

-- Where h comes before l it is held elsewhere, by code that waits for l; or h is l.
theorem deadlock_reached [Nontrivial Cpu] {d : Discipline Lock} {l h : Lock} (one : d.interruptible l) (two : d.inHandlers h)
    (below : h ≤ l) (data : Lock → Data) :
    ∃ (calls : List (Cpu × Event Lock Data)) (m : Machine Cpu Lock Data) (stuck : Set Cpu),Run Steps (Obeys d) (booted data) calls m ∧
      stuck.Nonempty ∧ Deadlocked stuck m.processors := by
  obtain ⟨cpu,other,apart⟩ := exists_pair_ne Cpu
  have fresh : (booted data : Machine Cpu Lock Data).processors cpu = .fresh := rfl
  obtain ⟨calls,m,run,here,others,locked⟩ := interrupted_reached one two fresh rfl
  rcases below.eq_or_lt with rfl | ascends
  · refine ⟨calls,m,{cpu},run,⟨cpu,rfl⟩,⟨fun stuck among => ?_⟩⟩
    cases among
    rw [here]
    exact ⟨rfl,none,h,rfl,cpu,rfl,by rw [here]; exact List.mem_cons_self⟩
  · have idle : m.processors other = .fresh := others other apart.symm
    have clear : m.locked h = false := by
      rw [locked,Function.update_of_ne ascends.ne]
      rfl
    obtain ⟨more,last,rest,there,same⟩ := nested_reached ascends idle clear
    have here : last.processors cpu = interrupted l h := by rw [same cpu apart,here]
    refine ⟨calls ++ more,last,{cpu,other},run.append rest,⟨cpu,.inl rfl⟩,⟨fun stuck among => ?_⟩⟩
    rcases among with rfl | rfl
    · rw [here]
      exact ⟨rfl,none,h,rfl,other,.inr rfl,by rw [there]; exact List.mem_cons_self⟩
    · rw [there]
      exact ⟨rfl,none,l,rfl,cpu,.inl rfl,by rw [here]; exact List.mem_cons_self⟩

theorem Deadlocked.loud {stuck : Set Cpu} {processors : Cpu → Processor Lock} (deadlocked : Deadlocked stuck processors) {cpu : Cpu}
    (among : cpu ∈ stuck) : ¬ (processors cpu).Quiet := by
  rintro ⟨handlers,thread⟩
  obtain ⟨_,enabled,lock,phase,_⟩ := deadlocked.waits cpu among
  rw [Processor.running,handlers,thread] at phase
  cases phase

end Deadlock

-- Code takes its locks in ascending order. Where every lock that is taken with interrupts on comes
-- before every lock that handlers take, whatever has happened can be finished: each guard can be
-- closed and each handler return, with no other thing begun. Where not, processors may end up
-- spinning for good, whatever else happens.
theorem locks_finish {Cpu Lock Data : Type} [DecidableEq Cpu] [Finite Cpu] [Nontrivial Cpu] [LinearOrder Lock] (d : Discipline Lock)
    (data : Lock → Data) :
    ((∀ l h,d.interruptible l → d.inHandlers h → l < h) →
      ∀ (calls : List (Cpu × Event Lock Data)) (m : Machine Cpu Lock Data),Run Steps (Obeys d) (booted data) calls m →
        ∃ more last,Run Steps (fun _ call => call.2.Finishes) m more last ∧ ∀ cpu,(last.processors cpu).Quiet) ∧
      (¬ (∀ l h,d.interruptible l → d.inHandlers h → l < h) →
        ∃ (calls : List (Cpu × Event Lock Data)) (m : Machine Cpu Lock Data) (cpu : Cpu),Run Steps (Obeys d) (booted data) calls m ∧
          ∀ more last,Run Steps (fun _ _ => True) m more last →
            last.processors cpu = m.processors cpu ∧ ¬ (last.processors cpu).Quiet) := by
  refine ⟨fun order calls m run => all_close order run,fun disorder => ?_⟩
  have pair : ∃ l h,d.interruptible l ∧ d.inHandlers h ∧ h ≤ l := by
    by_contra none
    refine disorder fun l h one two => ?_
    by_contra above
    exact none ⟨l,h,one,two,not_lt.mp above⟩
  obtain ⟨l,h,one,two,below⟩ := pair
  have reached : ∃ (calls : List (Cpu × Event Lock Data)) (m : Machine Cpu Lock Data) (stuck : Set Cpu),
      Run Steps (Obeys d) (booted data) calls m ∧ stuck.Nonempty ∧ Deadlocked stuck m.processors := deadlock_reached one two below data
  obtain ⟨calls,m,stuck,run,⟨cpu,among⟩,deadlocked⟩ := reached
  refine ⟨calls,m,cpu,run,fun more last later => ?_⟩
  have same := deadlocked.forever (run.throughout fun _ _ _ => trivial) (fun _ _ => rfl) later cpu among
  exact ⟨same,same ▸ deadlocked.loud among⟩

-- Lock 0 for code that lets interrupts in, lock 1 for handlers.
def layered : Discipline Nat := ⟨fun lock => lock = 0,fun lock => lock = 1⟩

theorem layered_finishes : ∃ (calls : List (Fin 2 × Event Nat Nat)) (m : Machine (Fin 2) Nat Nat),
    Run Steps (Obeys layered) (booted fun _ => 0) calls m ∧ m.processors 0 = interrupted 0 1 ∧
      ∃ more last,Run Steps (fun _ call => call.2.Finishes) m more last ∧ ∀ cpu,(last.processors cpu).Quiet := by
  have order : ∀ l h,layered.interruptible l → layered.inHandlers h → l < h := by
    rintro l h rfl rfl
    exact Nat.zero_lt_one
  have fresh : (booted (fun _ => 0) : Machine (Fin 2) Nat Nat).processors 0 = .fresh := rfl
  obtain ⟨calls,m,run,here,_⟩ := interrupted_reached (show layered.interruptible 0 from rfl) (show layered.inHandlers 1 from rfl) fresh rfl
  exact ⟨calls,m,run,here,(locks_finish layered fun _ => 0).1 order calls m run⟩

end Synchronization
