import Mathlib.Data.List.Nodup
import Gameos.TransitionRuns

-- gameos/synchronization.hh: spinlocks and interrupt guards, between processors and under interrupts.
namespace Synchronization
open TransitionRuns

-- A live object of Interrupt_Guard, Spinlock::Scoped or Spinlock::Scoped_IRQ.
inductive Guard (Lock : Type) where
  | interruptGuard (enabled : Bool)
  | scopedLock (lock : Lock)
  | scopedIrq (enabled : Bool) (lock : Lock)

-- Where code stands: outside, in Interrupt_Guard() with the flag read, in Spinlock::lock, or in
-- ~Interrupt_Guard. The flag that a Scoped_IRQ has read goes with it.
inductive Phase (Lock : Type) where
  | running
  | read (enabled : Bool) (lock : Option Lock)
  | locking (enabled : Option Bool) (lock : Lock)
  | restoring (enabled : Bool)

structure Activation (Lock : Type) where
  phase : Phase Lock
  guards : List (Guard Lock)

-- The innermost handler first, each with the flag that its iret brings back.
-- `enabled` is whether startup, without a guard, has come to idt::enable_interrupts.
structure Processor (Lock : Type) where
  interruptFlag : Bool
  enabled : Bool
  handlers : List (Bool × Activation Lock)
  thread : Activation Lock

-- `work` is code in a critical section, `destroy` the destructor of the last guard.
inductive Instruction (Lock Data : Type) where
  | interruptsEnabled (lock : Option Lock)
  | disableInterrupts
  | scopedLock (lock : Lock)
  | testAndSet
  | work (lock : Lock) (change : Data → Data)
  | destroy
  | restore

inductive Event (Lock Data : Type) where
  | instruction (instruction : Instruction Lock Data)
  | interrupt
  | iret
  | enableInterrupts

-- What others see of an event.
inductive Touch (Lock Data : Type) where
  | nothing
  | take (lock : Lock)
  | release (lock : Lock)
  | update (lock : Lock) (change : Data → Data)

structure Machine (Cpu Lock Data : Type) where
  processors : Cpu → Processor Lock
  locked : Lock → Bool
  data : Lock → Data

section Model
variable {Cpu Lock Data : Type} [DecidableEq Cpu] [DecidableEq Lock]

def Guard.lock : Guard Lock → Option Lock
  | .interruptGuard _ => none
  | .scopedLock lock => some lock
  | .scopedIrq _ lock => some lock

def Guard.masks : Guard Lock → Bool
  | .interruptGuard _ => true
  | .scopedLock _ => false
  | .scopedIrq _ _ => true

def Guard.made (lock : Lock) : Option Bool → Guard Lock
  | none => .scopedLock lock
  | some enabled => .scopedIrq enabled lock

def locksOf (guards : List (Guard Lock)) : List Lock := guards.filterMap Guard.lock
def masked (guards : List (Guard Lock)) : Bool := guards.any Guard.masks

def Activation.idle : Activation Lock := ⟨.running,[]⟩

def Activation.act (locked : Lock → Bool) (flag : Bool) (a : Activation Lock) (instruction : Instruction Lock Data) :
    Option (Activation Lock × Bool × Touch Lock Data) :=
  match a.phase,instruction with
  | .running,.interruptsEnabled lock => some (⟨.read flag lock,a.guards⟩,flag,.nothing)
  | .read enabled none,.disableInterrupts => some (⟨.running,.interruptGuard enabled :: a.guards⟩,false,.nothing)
  | .read enabled (some lock),.disableInterrupts => some (⟨.locking (some enabled) lock,a.guards⟩,false,.nothing)
  | .running,.scopedLock lock => some (⟨.locking none lock,a.guards⟩,flag,.nothing)
  | .locking enabled lock,.testAndSet =>
    if locked lock then some (a,flag,.nothing) else some (⟨.running,.made lock enabled :: a.guards⟩,flag,.take lock)
  | .running,.work lock change => if lock ∈ locksOf a.guards then some (a,flag,.update lock change) else none
  | .running,.destroy =>
    match a.guards with
    | [] => none
    | .interruptGuard enabled :: guards => some (⟨.restoring enabled,guards⟩,flag,.nothing)
    | .scopedLock lock :: guards => some (⟨.running,guards⟩,flag,.release lock)
    -- The body unlocks, and the member irq_guard is destroyed after it.
    | .scopedIrq enabled lock :: guards => some (⟨.restoring enabled,guards⟩,flag,.release lock)
  | .restoring enabled,.restore => some (⟨.running,a.guards⟩,flag || enabled,.nothing)
  | _,_ => none

def Processor.running (p : Processor Lock) : Activation Lock :=
  match p.handlers with
  | [] => p.thread
  | (_,a) :: _ => a

def Processor.resume (p : Processor Lock) (a : Activation Lock) (flag : Bool) : Processor Lock :=
  match p.handlers with
  | [] => {p with interruptFlag := flag, thread := a}
  | (saved,_) :: below => {p with interruptFlag := flag, handlers := (saved,a) :: below}

-- The gates are interrupt gates: they push the flags and clear the interrupt flag.
def Processor.step (locked : Lock → Bool) (p : Processor Lock) : Event Lock Data → Option (Processor Lock × Touch Lock Data)
  | .instruction instruction =>
    (p.running.act locked p.interruptFlag instruction).map fun (a,flag,touch) => (p.resume a flag,touch)
  | .interrupt =>
    if p.interruptFlag then
      some ({p with interruptFlag := false, handlers := (p.interruptFlag,.idle) :: p.handlers},.nothing)
    else none
  | .iret =>
    match p.handlers with
    | (saved,⟨.running,[]⟩) :: below => some ({p with interruptFlag := saved, handlers := below},.nothing)
    | _ => none
  | .enableInterrupts =>
    match p.handlers,p.thread with
    | [],⟨.running,[]⟩ => some ({p with interruptFlag := true, enabled := true},.nothing)
    | _,_ => none

def Touch.lock (locked : Lock → Bool) : Touch Lock Data → Lock → Bool
  | .take lock => Function.update locked lock true
  | .release lock => Function.update locked lock false
  | .nothing => locked
  | .update _ _ => locked

def Touch.data (data : Lock → Data) : Touch Lock Data → Lock → Data
  | .update lock change => Function.update data lock (change (data lock))
  | .nothing => data
  | .take _ => data
  | .release _ => data

def Machine.move (m : Machine Cpu Lock Data) (cpu : Cpu) (event : Event Lock Data) :
    Option (Machine Cpu Lock Data × Touch Lock Data) :=
  ((m.processors cpu).step m.locked event).map fun (p,touch) =>
    (⟨Function.update m.processors cpu p,touch.lock m.locked,touch.data m.data⟩,touch)

-- A critical section: whose it is, and what it does to the data.
abbrev Section (Cpu Data : Type) := Cpu × List (Data → Data)

-- A change belongs to the last section of its processor, whatever sections came after that.
def amend (cpu : Cpu) (change : Data → Data) : List (Section Cpu Data) → List (Section Cpu Data)
  | [] => []
  | one :: later =>
    if one.1 = cpu ∧ ∀ other ∈ later,other.1 ≠ cpu then (one.1,one.2 ++ [change]) :: later else one :: amend cpu change later

def record (cpu : Cpu) (journal : Lock → List (Section Cpu Data)) : Touch Lock Data → Lock → List (Section Cpu Data)
  | .take lock => Function.update journal lock (journal lock ++ [(cpu,[])])
  | .update lock change => Function.update journal lock (amend cpu change (journal lock))
  | .nothing => journal
  | .release _ => journal

-- The sections one after the other, each of them whole.
def replay (data : Data) (sections : List (Section Cpu Data)) : Data :=
  (sections.flatMap Prod.snd).foldl (fun data change => change data) data

-- The machine with its journal.
def Moves (before : Machine Cpu Lock Data × (Lock → List (Section Cpu Data))) (call : Cpu × Event Lock Data)
    (after : Machine Cpu Lock Data × (Lock → List (Section Cpu Data))) : Prop :=
  ∃ touch,before.1.move call.1 call.2 = some (after.1,touch) ∧ after.2 = record call.1 before.2 touch

def Processor.fresh : Processor Lock := ⟨false,false,[],.idle⟩
def booted (data : Lock → Data) : Machine Cpu Lock Data := ⟨fun _ => .fresh,fun _ => false,data⟩

def Processor.held (p : Processor Lock) : List Lock := p.handlers.flatMap (fun handler => locksOf handler.2.guards) ++ locksOf p.thread.guards

def Phase.masks : Phase Lock → Bool
  | .running => false
  | .read _ _ => false
  | .locking enabled _ => enabled.isSome
  | .restoring _ => true

def Activation.masked (a : Activation Lock) : Bool := a.phase.masks || Synchronization.masked a.guards

end Model

-- What one instruction does, said once.
inductive Acts {Lock Data : Type} (locked : Lock → Bool) (flag : Bool) :
    Activation Lock → Instruction Lock Data → Activation Lock → Bool → Touch Lock Data → Prop where
  | reads (lock : Option Lock) : Acts locked flag ⟨.running,guards⟩ (.interruptsEnabled lock) ⟨.read flag lock,guards⟩ flag .nothing
  | guards : Acts locked flag ⟨.read enabled none,guards⟩ .disableInterrupts ⟨.running,.interruptGuard enabled :: guards⟩ false .nothing
  | masks : Acts locked flag ⟨.read enabled (some lock),guards⟩ .disableInterrupts ⟨.locking (some enabled) lock,guards⟩ false .nothing
  | enters : Acts locked flag ⟨.running,guards⟩ (.scopedLock lock) ⟨.locking none lock,guards⟩ flag .nothing
  | spins (taken : locked lock = true) :
      Acts locked flag ⟨.locking enabled lock,guards⟩ .testAndSet ⟨.locking enabled lock,guards⟩ flag .nothing
  | takes (clear : locked lock = false) :
      Acts locked flag ⟨.locking enabled lock,guards⟩ .testAndSet ⟨.running,.made lock enabled :: guards⟩ flag (.take lock)
  | works (own : lock ∈ locksOf guards) :
      Acts locked flag ⟨.running,guards⟩ (.work lock change) ⟨.running,guards⟩ flag (.update lock change)
  | unguards : Acts locked flag ⟨.running,.interruptGuard enabled :: guards⟩ .destroy ⟨.restoring enabled,guards⟩ flag .nothing
  | unlocks : Acts locked flag ⟨.running,.scopedLock lock :: guards⟩ .destroy ⟨.running,guards⟩ flag (.release lock)
  | unlocksIrq : Acts locked flag ⟨.running,.scopedIrq enabled lock :: guards⟩ .destroy ⟨.restoring enabled,guards⟩ flag (.release lock)
  | restores : Acts locked flag ⟨.restoring enabled,guards⟩ .restore ⟨.running,guards⟩ (flag || enabled) .nothing

section Instructions
variable {Lock Data : Type} [DecidableEq Lock] {locked : Lock → Bool} {flag : Bool}

theorem act_acts {a b : Activation Lock} {instruction : Instruction Lock Data} {after : Bool} {touch : Touch Lock Data}
    (acts : a.act locked flag instruction = some (b,after,touch)) : Acts locked flag a instruction b after touch := by
  obtain ⟨phase,guards⟩ := a
  cases phase with
  | running =>
      cases instruction with
      | interruptsEnabled lock =>
          cases acts
          exact .reads lock
      | scopedLock lock =>
          cases acts
          exact .enters
      | work lock change =>
          by_cases own : lock ∈ locksOf guards
          · simp only [Activation.act,if_pos own] at acts
            cases acts
            exact .works own
          · simp only [Activation.act,if_neg own] at acts
            cases acts
      | destroy =>
          cases guards with
          | nil => cases acts
          | cons guard guards =>
              cases guard with
              | interruptGuard enabled =>
                  cases acts
                  exact .unguards
              | scopedLock lock =>
                  cases acts
                  exact .unlocks
              | scopedIrq enabled lock =>
                  cases acts
                  exact .unlocksIrq
      | disableInterrupts => cases acts
      | testAndSet => cases acts
      | restore => cases acts
  | read enabled lock =>
      cases instruction with
      | disableInterrupts =>
          cases lock with
          | none =>
              cases acts
              exact .guards
          | some lock =>
              cases acts
              exact .masks
      | _ => cases lock <;> cases acts
  | locking enabled lock =>
      cases instruction with
      | testAndSet =>
          cases taken : locked lock with
          | true =>
              simp only [Activation.act,taken,if_true] at acts
              cases acts
              exact .spins taken
          | false =>
              simp only [Activation.act,taken,Bool.false_eq_true,if_false] at acts
              cases acts
              exact .takes taken
      | _ => cases acts
  | restoring enabled =>
      cases instruction with
      | restore =>
          cases acts
          exact .restores
      | _ => cases acts

end Instructions

-- The locks of a processor, the last one taken first.
inductive Holds {Lock Data : Type} (locked : Lock → Bool) : List Lock → Touch Lock Data → List Lock → Prop where
  | nothing : Holds locked locks .nothing locks
  | take (clear : locked lock = false) : Holds locked locks (.take lock) (lock :: locks)
  | release : Holds locked (lock :: locks) (.release lock) locks
  | update (own : lock ∈ locks) : Holds locked locks (.update lock change) locks

section Locks
variable {Lock Data : Type} {locked : Lock → Bool} {p q : Processor Lock} {touch : Touch Lock Data}

theorem Holds.under {locks after : List Lock} (holds : Holds locked locks touch after) (below : List Lock) :
    Holds locked (locks ++ below) touch (after ++ below) := by
  cases holds with
  | nothing => exact .nothing
  | take clear => exact .take clear
  | release => exact .release
  | update own => exact .update (List.mem_append_left _ own)

theorem made_lock (lock : Lock) (enabled : Option Bool) : (Guard.made lock enabled).lock = some lock := by
  cases enabled <;> rfl

theorem locksOf_made (lock : Lock) (enabled : Option Bool) (guards : List (Guard Lock)) :
    locksOf (.made lock enabled :: guards) = lock :: locksOf guards :=
  List.filterMap_cons_some (made_lock lock enabled)

theorem Acts.holds {a b : Activation Lock} {instruction : Instruction Lock Data} (acts : Acts locked flag a instruction b after touch) :
    Holds locked (locksOf a.guards) touch (locksOf b.guards) := by
  cases acts with
  | takes clear =>
      rw [locksOf_made]
      exact .take clear
  | works own => exact .update own
  | unlocks => exact .release
  | unlocksIrq => exact .release
  | _ => exact .nothing

-- The locks of the code that an interrupt has put off.
def Processor.suspended (p : Processor Lock) : List Lock :=
  match p.handlers with
  | [] => []
  | _ :: below => below.flatMap (fun handler => locksOf handler.2.guards) ++ locksOf p.thread.guards

theorem held_running (p : Processor Lock) : p.held = locksOf p.running.guards ++ p.suspended := by
  obtain ⟨flag,enabled,handlers,thread⟩ := p
  cases handlers with
  | nil => exact (List.append_nil _).symm
  | cons handler below => exact List.append_assoc _ _ _

theorem held_resume (p : Processor Lock) (a : Activation Lock) (flag : Bool) :
    (p.resume a flag).held = locksOf a.guards ++ p.suspended := by
  obtain ⟨_,enabled,handlers,thread⟩ := p
  cases handlers with
  | nil => exact (List.append_nil _).symm
  | cons handler below => exact List.append_assoc _ _ _

theorem step_holds [DecidableEq Lock] {event : Event Lock Data} (steps : p.step locked event = some (q,touch)) : Holds locked p.held touch q.held := by
  cases event with
  | instruction instruction =>
      rw [Processor.step] at steps
      obtain ⟨⟨a,flag,touched⟩,acts,same⟩ := Option.map_eq_some_iff.mp steps
      cases same
      rw [held_running p,held_resume]
      exact (act_acts acts).holds.under _
  | interrupt =>
      rw [Processor.step] at steps
      split at steps
      · cases steps
        exact .nothing
      · cases steps
  | iret =>
      obtain ⟨flag,enabled,handlers,thread⟩ := p
      rw [Processor.step] at steps
      split at steps
      case h_1 saved below here =>
        cases steps
        dsimp only at here
        rw [Processor.held,here]
        exact .nothing
      case h_2 => cases steps
  | enableInterrupts =>
      rw [Processor.step] at steps
      split at steps
      · cases steps
        exact .nothing
      · cases steps

end Locks

-- Every lock is set for as long as one processor holds it, and it holds it once.
structure Exclusive {Cpu Lock : Type} (held : Cpu → List Lock) (locked : Lock → Bool) : Prop where
  locked : ∀ lock,locked lock = true ↔ ∃ cpu,lock ∈ held cpu
  once : ∀ cpu,(held cpu).Nodup
  alone : ∀ cpu other lock,lock ∈ held cpu → lock ∈ held other → cpu = other

-- The data is what the journal makes of it, and the section that holds a lock is the last.
structure Serial {Cpu Lock Data : Type} (held : Cpu → List Lock) (start data : Lock → Data)
    (journal : Lock → List (Section Cpu Data)) : Prop where
  data : ∀ lock,data lock = replay (start lock) (journal lock)
  last : ∀ cpu lock,lock ∈ held cpu → ∃ earlier works,journal lock = earlier ++ [(cpu,works)]

theorem replay_work {Cpu Data : Type} (cpu : Cpu) (data : Data) (earlier : List (Section Cpu Data)) (works : List (Data → Data))
    (change : Data → Data) :
    replay data (earlier ++ [(cpu,works ++ [change])]) = change (replay data (earlier ++ [(cpu,works)])) := by
  simp [replay]

section Sections
variable {Cpu Lock Data : Type} [DecidableEq Cpu] [DecidableEq Lock] {held : Cpu → List Lock} {locked : Lock → Bool}
  {locks : List Lock} {touch : Touch Lock Data} {start data : Lock → Data} {journal : Lock → List (Section Cpu Data)} {cpu : Cpu}

theorem Exclusive.touched (exclusive : Exclusive held locked) (holds : Holds locked (held cpu) touch locks) :
    Exclusive (Function.update held cpu locks) (touch.lock locked) := by
  generalize here : held cpu = before at holds
  cases holds with
  | nothing =>
      rw [← here,Function.update_eq_self]
      exact exclusive
  | update =>
      rw [← here,Function.update_eq_self]
      exact exclusive
  | @take lock _ clear =>
      have nobody : ∀ other,lock ∉ held other := fun other has => by
        have taken := (exclusive.locked lock).mpr ⟨other,has⟩
        rw [clear] at taken
        cases taken
      have member : ∀ other x,x ∈ Function.update held cpu (lock :: before) other ↔ x ∈ held other ∨ other = cpu ∧ x = lock := by
        intro other x
        by_cases same : other = cpu
        · subst same
          rw [Function.update_self,← here,List.mem_cons]
          simp [or_comm]
        · rw [Function.update_of_ne same]
          simp [same]
      refine ⟨fun x => ?_,fun other => ?_,fun one two x first second => ?_⟩
      · by_cases same : x = lock
        · subst same
          rw [Touch.lock,Function.update_self]
          exact iff_of_true rfl ⟨cpu,(member cpu x).mpr (.inr ⟨rfl,rfl⟩)⟩
        · rw [Touch.lock,Function.update_of_ne same,exclusive.locked]
          refine exists_congr fun other => ?_
          rw [member]
          simp [same]
      · by_cases same : other = cpu
        · subst same
          rw [Function.update_self,← here]
          exact List.nodup_cons.mpr ⟨nobody other,exclusive.once other⟩
        · rw [Function.update_of_ne same]
          exact exclusive.once other
      · rcases (member one x).mp first with has | ⟨rfl,rfl⟩
        · rcases (member two x).mp second with also | ⟨rfl,rfl⟩
          · exact exclusive.alone one two x has also
          · exact absurd has (nobody one)
        · rcases (member two x).mp second with also | ⟨rfl,_⟩
          · exact absurd also (nobody two)
          · rfl
  | @release lock _ =>
      have nodup := exclusive.once cpu
      rw [here] at nodup
      obtain ⟨gone,rest⟩ := List.nodup_cons.mp nodup
      have mine : lock ∈ held cpu := here ▸ List.mem_cons_self
      have member : ∀ other x,x ∈ Function.update held cpu locks other ↔ x ∈ held other ∧ x ≠ lock := by
        intro other x
        by_cases same : other = cpu
        · subst same
          rw [Function.update_self,here,List.mem_cons]
          constructor
          · intro kept
            exact ⟨.inr kept,fun equal => gone (equal ▸ kept)⟩
          · rintro ⟨rfl | kept,different⟩
            · exact absurd rfl different
            · exact kept
        · rw [Function.update_of_ne same]
          refine ⟨fun has => ⟨has,?_⟩,And.left⟩
          rintro rfl
          exact same (exclusive.alone other cpu x has mine)
      refine ⟨fun x => ?_,fun other => ?_,fun one two x first second => ?_⟩
      · by_cases same : x = lock
        · subst same
          rw [Touch.lock,Function.update_self]
          refine iff_of_false Bool.false_ne_true ?_
          rintro ⟨other,has⟩
          exact ((member other x).mp has).2 rfl
        · rw [Touch.lock,Function.update_of_ne same,exclusive.locked]
          refine exists_congr fun other => ?_
          rw [member]
          simp [same]
      · by_cases same : other = cpu
        · subst same
          rw [Function.update_self]
          exact rest
        · rw [Function.update_of_ne same]
          exact exclusive.once other
      · exact exclusive.alone one two x ((member one x).mp first).1 ((member two x).mp second).1

theorem amend_last (earlier : List (Section Cpu Data)) (works : List (Data → Data)) (change : Data → Data) :
    amend cpu change (earlier ++ [(cpu,works)]) = earlier ++ [(cpu,works ++ [change])] := by
  induction earlier with
  | nil =>
      rw [List.nil_append,amend,if_pos ⟨rfl,fun _ none => absurd none List.not_mem_nil⟩]
      rfl
  | cons one earlier ih =>
      have later : ¬ (one.1 = cpu ∧ ∀ other ∈ earlier ++ [(cpu,works)],other.1 ≠ cpu) := by
        rintro ⟨_,none⟩
        exact none (cpu,works) (List.mem_append_right _ List.mem_cons_self) rfl
      rw [List.cons_append,amend,if_neg later,ih]
      rfl

theorem Serial.touched (serial : Serial held start data journal) (exclusive : Exclusive held locked)
    (holds : Holds locked (held cpu) touch locks) :
    Serial (Function.update held cpu locks) start (touch.data data) (record cpu journal touch) := by
  generalize here : held cpu = before at holds
  cases holds with
  | nothing =>
      rw [← here,Function.update_eq_self]
      exact serial
  | @update _ lock _ own =>
      rw [← here] at own ⊢
      obtain ⟨earlier,works,journaled⟩ := serial.last cpu lock own
      rw [Function.update_eq_self]
      refine ⟨fun x => ?_,fun other x has => ?_⟩
      · by_cases same : x = lock
        · subst same
          rw [Touch.data,record,Function.update_self,Function.update_self,journaled,amend_last,replay_work,← journaled,serial.data]
        · rw [Touch.data,record,Function.update_of_ne same,Function.update_of_ne same]
          exact serial.data x
      · by_cases same : x = lock
        · subst same
          have mine := exclusive.alone other cpu x has own
          subst mine
          rw [record,Function.update_self,journaled,amend_last]
          exact ⟨_,_,rfl⟩
        · rw [record,Function.update_of_ne same]
          exact serial.last other x has
  | @take lock _ clear =>
      refine ⟨fun x => ?_,fun other x has => ?_⟩
      · by_cases same : x = lock
        · subst same
          rw [Touch.data,record,Function.update_self,serial.data]
          simp [replay]
        · rw [Touch.data,record,Function.update_of_ne same]
          exact serial.data x
      · by_cases same : x = lock
        · subst same
          have nobody : ∀ other,x ∉ held other := fun other has => by
            have taken := (exclusive.locked x).mpr ⟨other,has⟩
            rw [clear] at taken
            cases taken
          have mine : other = cpu := by
            by_contra apart
            rw [Function.update_of_ne apart] at has
            exact nobody other has
          subst mine
          rw [record,Function.update_self]
          exact ⟨_,_,rfl⟩
        · rw [record,Function.update_of_ne same]
          refine serial.last other x ?_
          by_cases mine : other = cpu
          · subst mine
            rw [Function.update_self,← here] at has
            exact (List.mem_cons.mp has).resolve_left same
          · rw [Function.update_of_ne mine] at has
            exact has
  | @release lock _ =>
      refine ⟨serial.data,fun other x has => serial.last other x ?_⟩
      by_cases mine : other = cpu
      · subst mine
        rw [Function.update_self] at has
        rw [here]
        exact List.mem_cons_of_mem _ has
      · rw [Function.update_of_ne mine] at has
        exact has

end Sections

section Flags
variable {Lock Data : Type} {locked : Lock → Bool} {p q : Processor Lock} {touch : Touch Lock Data}

-- Every guard has read the flag as the guards before it left it.
def Recorded (base : Bool) : List (Guard Lock) → Prop
  | [] => True
  | .interruptGuard enabled :: guards => enabled = (base && !masked guards) ∧ Recorded base guards
  | .scopedLock _ :: guards => Recorded base guards
  | .scopedIrq enabled _ :: guards => enabled = (base && !masked guards) ∧ Recorded base guards

def Phase.Recorded (flag : Bool) : Phase Lock → Prop
  | .running => True
  | .read enabled _ => enabled = flag
  | .locking none _ => True
  | .locking (some enabled) _ => enabled = flag
  | .restoring enabled => enabled = flag

structure Activation.Recorded (base : Bool) (a : Activation Lock) : Prop where
  phase : a.phase.Recorded (base && !Synchronization.masked a.guards)
  guards : Synchronization.Recorded base a.guards

-- Handlers never nest: one of them runs with the flag clear until its iret.
inductive Processor.Sound : Processor Lock → Prop where
  | thread {on : Bool} {base : Activation Lock} (recorded : base.Recorded on) : Sound ⟨on && !base.masked,on,[],base⟩
  | handler {a base : Activation Lock} (recorded : a.Recorded false) (suspended : base.Recorded true) (unmasked : base.masked = false) :
      Sound ⟨false,true,[(true,a)],base⟩

theorem idle_recorded (base : Bool) : (Activation.idle : Activation Lock).Recorded base := ⟨trivial,trivial⟩

theorem idle_sound (on : Bool) : (⟨on,on,[],.idle⟩ : Processor Lock).Sound := by
  have sound := Processor.Sound.thread (show (Activation.idle : Activation Lock).Recorded on from idle_recorded on)
  have unmasked : (Activation.idle : Activation Lock).masked = false := rfl
  rw [unmasked,Bool.not_false,Bool.and_true] at sound
  exact sound

theorem Acts.recorded {base : Bool} {a b : Activation Lock} {instruction : Instruction Lock Data}
    (acts : Acts locked (base && !a.masked) a instruction b after touch) (recorded : a.Recorded base) :
    b.Recorded base ∧ after = (base && !b.masked) := by
  generalize same : (base && !a.masked) = flag at acts
  cases acts with
  | reads lock => exact ⟨⟨same.symm,recorded.guards⟩,same.symm⟩
  | guards =>
      refine ⟨⟨trivial,recorded.phase,recorded.guards⟩,?_⟩
      exact (Bool.and_false base).symm
  | masks => exact ⟨⟨recorded.phase,recorded.guards⟩,(Bool.and_false base).symm⟩
  | enters => exact ⟨⟨trivial,recorded.guards⟩,same.symm⟩
  | spins taken => exact ⟨recorded,same.symm⟩
  | @takes lock enabled guards clear =>
      cases enabled with
      | none => exact ⟨⟨trivial,recorded.guards⟩,same.symm⟩
      | some enabled => exact ⟨⟨trivial,recorded.phase,recorded.guards⟩,same.symm⟩
  | works own => exact ⟨recorded,same.symm⟩
  | unguards =>
      obtain ⟨enabled,guards⟩ := recorded.guards
      exact ⟨⟨enabled,guards⟩,same.symm⟩
  | unlocks => exact ⟨⟨trivial,recorded.guards⟩,same.symm⟩
  | unlocksIrq =>
      obtain ⟨enabled,guards⟩ := recorded.guards
      exact ⟨⟨enabled,guards⟩,same.symm⟩
  | @restores enabled guards =>
      have clear : flag = false := same.symm.trans (Bool.and_false base)
      have enabled := recorded.phase
      refine ⟨⟨trivial,recorded.guards⟩,?_⟩
      rw [clear,Bool.false_or]
      exact enabled

theorem Processor.Sound.step [DecidableEq Lock] {event : Event Lock Data} (sound : p.Sound) (steps : p.step locked event = some (q,touch)) : q.Sound := by
  cases event with
  | instruction instruction =>
      rw [Processor.step] at steps
      obtain ⟨⟨a,flag,touched⟩,acts,same⟩ := Option.map_eq_some_iff.mp steps
      cases same
      cases sound with
      | thread recorded =>
          obtain ⟨after,flagged⟩ := (act_acts acts).recorded recorded
          rw [flagged]
          exact .thread after
      | @handler a base recorded suspended unmasked =>
          have instructed : Acts locked (false && !a.masked) a instruction _ _ _ := act_acts acts
          obtain ⟨after,flagged⟩ := instructed.recorded recorded
          rw [flagged]
          exact .handler after suspended unmasked
  | interrupt =>
      rw [Processor.step] at steps
      cases sound with
      | @thread enabled base recorded =>
          cases flag : (enabled && !base.masked) with
          | false =>
              rw [flag] at steps
              cases steps
          | true =>
              rw [flag] at steps
              cases steps
              rw [Bool.and_eq_true,Bool.not_eq_true'] at flag
              obtain ⟨rfl,unmasked⟩ := flag
              exact .handler (idle_recorded false) recorded unmasked
      | handler => cases steps
  | iret =>
      rw [Processor.step] at steps
      split at steps
      case h_1 saved below here =>
        cases sound with
        | thread => cases here
        | handler recorded suspended unmasked =>
            cases here
            cases steps
            have flag := Processor.Sound.thread suspended
            rw [unmasked] at flag
            exact flag
      case h_2 => cases steps
  | enableInterrupts =>
      rw [Processor.step] at steps
      split at steps
      case h_1 here idle =>
        cases steps
        obtain ⟨flag,enabled,handlers,thread⟩ := p
        dsimp only at here idle ⊢
        rw [here,idle]
        exact idle_sound true
      case h_2 => cases steps

end Flags

section Runs
variable {Cpu Lock Data : Type}

structure Sound (start : Lock → Data) (m : Machine Cpu Lock Data × (Lock → List (Section Cpu Data))) : Prop where
  exclusive : Exclusive (fun cpu => (m.1.processors cpu).held) m.1.locked
  serial : Serial (fun cpu => (m.1.processors cpu).held) start m.1.data m.2
  flags : ∀ cpu,(m.1.processors cpu).Sound

theorem booted_sound (start : Lock → Data) : Sound start (booted start,fun (_ : Lock) => ([] : List (Section Cpu Data))) where
  exclusive := by
    refine ⟨fun lock => iff_of_false Bool.false_ne_true ?_,fun _ => List.nodup_nil,fun _ _ _ none => absurd none List.not_mem_nil⟩
    rintro ⟨cpu,none⟩
    exact List.not_mem_nil none
  serial := ⟨fun _ => rfl,fun _ _ none => absurd none List.not_mem_nil⟩
  flags := fun _ => idle_sound false

theorem held_update [DecidableEq Cpu] (processors : Cpu → Processor Lock) (cpu : Cpu) (p : Processor Lock) :
    (fun other => (Function.update processors cpu p other).held) = Function.update (fun other => (processors other).held) cpu p.held := by
  funext other
  exact Function.apply_update (fun _ => Processor.held) processors cpu p other

theorem Sound.moves [DecidableEq Cpu] [DecidableEq Lock] {start : Lock → Data} {before after : Machine Cpu Lock Data × (Lock → List (Section Cpu Data))}
    {call : Cpu × Event Lock Data} (sound : Sound start before) (moves : Moves before call after) : Sound start after := by
  obtain ⟨m,journal⟩ := before
  obtain ⟨touch,moved,recorded⟩ := moves
  rw [Machine.move] at moved
  obtain ⟨⟨p,touched⟩,steps,same⟩ := Option.map_eq_some_iff.mp moved
  obtain ⟨after,journaled⟩ := after
  cases same
  cases recorded
  have holds := step_holds steps
  refine ⟨?_,?_,fun other => ?_⟩
  · dsimp only
    rw [held_update]
    exact sound.exclusive.touched holds
  · dsimp only
    rw [held_update]
    exact sound.serial.touched sound.exclusive holds
  · dsimp only
    by_cases mine : other = call.1
    · subst mine
      rw [Function.update_self]
      exact (sound.flags _).step steps
    · rw [Function.update_of_ne mine]
      exact sound.flags other

theorem run_sound [DecidableEq Cpu] [DecidableEq Lock] {data : Lock → Data} {calls : List (Cpu × Event Lock Data)}
    {last : Machine Cpu Lock Data × (Lock → List (Section Cpu Data))}
    (run : Run Moves (fun _ _ => True) (booted data,fun _ => []) calls last) : Sound data last :=
  run.keeps (Sound data) (fun _ _ _ sound _ moves => sound.moves moves) (booted_sound data)

theorem Processor.Sound.flag {p : Processor Lock} (sound : p.Sound) :
    p.interruptFlag = (p.enabled && p.handlers.isEmpty && !p.thread.masked) ∧ p.handlers.length ≤ 1 := by
  cases sound with
  | @thread enabled base recorded =>
      dsimp only [List.isEmpty_nil,List.length_nil]
      rw [Bool.and_true]
      exact ⟨rfl,Nat.zero_le _⟩
  | handler => exact ⟨rfl,Nat.le_refl _⟩

end Runs

-- Whatever the processors do and whenever interrupts come: a lock is set exactly while one
-- processor holds it, once. What it protects is as if the sections had run one after the
-- other, in the order in which they took the lock. Interrupts are on exactly where startup has
-- enabled them, outside handlers, and outside of every guard that turns them off.
theorem sections_serial {Cpu Lock Data : Type} [DecidableEq Cpu] [DecidableEq Lock] (data : Lock → Data)
    (calls : List (Cpu × Event Lock Data)) (m : Machine Cpu Lock Data) (journal : Lock → List (Section Cpu Data))
    (run : Run Moves (fun _ _ => True) (booted data,fun _ => []) calls (m,journal)) :
    (∀ lock,(m.locked lock = true ↔ ∃ cpu,lock ∈ (m.processors cpu).held) ∧
        (∀ cpu,(m.processors cpu).held.count lock ≤ 1) ∧
        ∀ cpu other,lock ∈ (m.processors cpu).held → lock ∈ (m.processors other).held → cpu = other) ∧
      (∀ lock,m.data lock = replay (data lock) (journal lock)) ∧
      ∀ cpu,(m.processors cpu).handlers.length ≤ 1 ∧ (m.processors cpu).interruptFlag =
        ((m.processors cpu).enabled && (m.processors cpu).handlers.isEmpty && !(m.processors cpu).thread.masked) := by
  have sound := run_sound run
  refine ⟨fun lock => ⟨sound.exclusive.locked lock,fun cpu => ?_,fun cpu other => sound.exclusive.alone cpu other lock⟩,
    sound.serial.data,fun cpu => (sound.flags cpu).flag.symm⟩
  exact List.nodup_iff_count_le_one.mp (sound.exclusive.once cpu) lock

-- A guarded section under which an interrupt has to wait, and a second processor that spins meanwhile.
def twoSections : List (Bool × Event Unit Nat) :=
  [(true,.enableInterrupts),(true,.instruction (.interruptsEnabled (some ()))),(true,.instruction .disableInterrupts),
    (true,.instruction .testAndSet),(false,.instruction (.scopedLock ())),(false,.instruction .testAndSet),
    (true,.instruction (.work () (· + 1))),(true,.instruction .destroy),(false,.instruction .testAndSet),
    (true,.instruction .restore),(true,.interrupt),(false,.instruction (.work () (· * 2)))]

def recordedMove (s : Machine Bool Unit Nat × (Unit → List (Section Bool Nat))) (call : Bool × Event Unit Nat) :
    Option (Machine Bool Unit Nat × (Unit → List (Section Bool Nat))) :=
  (s.1.move call.1 call.2).map fun moved => (moved.1,record call.1 s.2 moved.2)

theorem two_sections_serial : ∃ s : Machine Bool Unit Nat × (Unit → List (Section Bool Nat)),s.1.data () = 2 ∧
    s.1.data () = replay 0 (s.2 ()) ∧ (s.1.locked () = true ↔ ∃ cpu,() ∈ (s.1.processors cpu).held) := by
  have ends : (follow recordedMove (fun _ _ => true) (booted fun _ => 0,fun _ => []) twoSections).map (fun s => s.1.data ()) = some 2 := rfl
  obtain ⟨s,followed,two⟩ := Option.map_eq_some_iff.mp ends
  have run : Run Moves (fun _ _ => True) (booted fun _ => 0,fun _ => []) twoSections s := by
    refine follow_run recordedMove _ (fun s call t moved => ?_) (fun _ _ _ => trivial) followed
    obtain ⟨moved,does,same⟩ := Option.map_eq_some_iff.mp moved
    exact ⟨moved.2,same ▸ does,same ▸ rfl⟩
  obtain ⟨exclusive,serial,_⟩ := sections_serial (fun _ => 0) twoSections s.1 s.2 run
  exact ⟨s,two,serial (),(exclusive ()).1⟩

end Synchronization
