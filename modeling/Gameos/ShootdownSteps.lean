import Gameos.TransitionRuns
import Mathlib.Data.Nat.Count
import Mathlib.Logic.Function.Basic

namespace TlbShootdown

def FLUSH_ALL : Nat := 2^64-1

-- The CPUs that can exist and how the interrupt controllers name them: `cpuAt`
-- is the CPU a physical destination selects. maxCpus is acpi::MAX_CPUS.
structure Machine where
  maxCpus : Nat
  apicId : Nat → Nat
  cpuAt : Nat → Option Nat
  found : ∀ i, cpuAt (apicId i) = some i

-- The last step of ap_main that a CPU has executed.
inductive Startup where
  | offline
  | online
  | interruptTable
  | threadLocal
  | cpuLocal
  | localApic
  | running
deriving DecidableEq, Repr

def Startup.next : Startup → Startup
  | .offline => .online
  | .online => .interruptTable
  | .interruptTable => .threadLocal
  | .threadLocal => .cpuLocal
  | .cpuLocal => .localApic
  | .localApic | .running => .running

-- apic_software_enable
def Startup.apicEnabled : Startup → Bool
  | .localApic | .running => true
  | _ => false

-- Where a CPU stands in shootdown(address).
inductive Phase where
  | idle
  -- the loops of online_count() and of online_count_excluding_self()
  | countingOnline (address index count : Nat)
  | countingOthers (address online index count : Nat)
  | counted (address online required : Nat)
  -- interrupts are disabled: spinning on state.lock
  | locking (address required : Nat)
  -- the lock is taken: before the test of required, and between the three stores
  | holding (address required : Nat)
  | requiring (address required : Nat)
  | addressing (address required : Nat)
  -- the loop over cpus_online that sends the IPIs
  | sending (address index : Nat)
  | flushing (address : Nat)
  | waiting (address : Nat)
  -- the guard's destructor: unlock, then restore the interrupt flag
  | unlocking (address : Nat)
  | restoring (address : Nat)
  | returned (address : Nat)
deriving DecidableEq, Repr

-- `call` and `sent` are history: the number of the call, and the CPUs its loop
-- has sent an IPI to.
structure Cpu where
  stage : Startup
  lapic_id : Nat
  interrupts : Bool
  enabled : Bool
  phase : Phase
  call : Nat
  sent : List Nat
deriving DecidableEq, Repr

-- An IPI and the call that sent it.
structure Ipi where
  target : Nat
  call : Nat
deriving DecidableEq, Repr

-- No step reads the last four fields: the IPIs no CPU received, how many calls
-- began, the calls whose acknowledgements are in the counter, and for each CPU
-- the flushes (by whom, of what) since its current call began.
structure State where
  cpu : Nat → Cpu
  locked : Bool
  acknowledgments : Nat
  required_acknowledgments : Nat
  virtual_address : Nat
  ipis : List Ipi
  lost : List Ipi
  calls : Nat
  acked : List Nat
  since : Nat → List (Nat × Nat)

def Cpu.bootstrap (m : Machine) : Cpu := ⟨.running,m.apicId 0,true,false,.idle,0,[]⟩

def Cpu.off : Cpu := ⟨.offline,0,false,false,.idle,0,[]⟩

def State.initial (m : Machine) : State :=
  ⟨fun i => if i = 0 then .bootstrap m else .off,false,0,0,FLUSH_ALL,[],[],0,[],fun _ => []⟩

-- ap_main stores the flag first; initialize_aps stored that of CPU 0.
def State.cpus_online (s : State) (index : Nat) : Bool := (s.cpu index).stage != .offline

def State.put (s : State) (i : Nat) (cpu : Cpu) : State := {s with cpu := Function.update s.cpu i cpu}

def State.goto (s : State) (i : Nat) (phase : Phase) : State := s.put i {s.cpu i with phase := phase}

def State.flush_local (s : State) (i address : Nat) : State := {s with since := fun j => (i,address) :: s.since j}

-- A fixed IPI is kept by the CPU it is sent to if that CPU's local APIC is
-- enabled; core_infos[index].lapic_id stays 0 until cpu_local is set up.
def State.send (m : Machine) (s : State) (i index : Nat) : State :=
  match m.cpuAt (s.cpu index).lapic_id with
  | some target =>
    if (s.cpu target).stage.apicEnabled then {s with ipis := ⟨target,(s.cpu i).call⟩ :: s.ipis}
    else {s with lost := ⟨target,(s.cpu i).call⟩ :: s.lost}
  | none => {s with lost := ⟨index,(s.cpu i).call⟩ :: s.lost}

def State.recordSent (s : State) (i index : Nat) : State := s.put i {s.cpu i with sent := index :: (s.cpu i).sent}

-- One step of the CPU that executes shootdown.
def advance (m : Machine) (s : State) (i : Nat) : Option State :=
  match (s.cpu i).phase with
  | .idle => none
  | .countingOnline address index count =>
    if index < m.maxCpus then
      some (s.goto i (.countingOnline address (index+1) (if s.cpus_online index then count+1 else count)))
    else some (s.goto i (.countingOthers address count 0 0))
  | .countingOthers address online index count =>
    if index < m.maxCpus then
      some (s.goto i (.countingOthers address online (index+1)
        (if index = i ∨ s.cpus_online index = false then count else count+1)))
    else some (s.goto i (.counted address online count))
  | .counted address online required =>
    if online ≤ 1 then some ((s.flush_local i address).goto i (.returned address))
    else some (s.put i {s.cpu i with enabled := (s.cpu i).interrupts, interrupts := false,
                                     phase := .locking address required})
  | .locking address required =>
    if s.locked then some s
    else some ({s with locked := true}.goto i (.holding address required))
  | .holding address required =>
    if required = 0 then some ((s.flush_local i address).goto i (.unlocking address))
    else some ({s with acknowledgments := 0, acked := []}.goto i (.requiring address required))
  | .requiring address required =>
    some ({s with required_acknowledgments := required}.goto i (.addressing address required))
  | .addressing address _ => some ({s with virtual_address := address}.goto i (.sending address 0))
  | .sending address index =>
    if index < m.maxCpus then
      if index = i ∨ s.cpus_online index = false then some (s.goto i (.sending address (index+1)))
      else some (((s.send m i index).recordSent i index).goto i (.sending address (index+1)))
    else some (s.goto i (.flushing address))
  | .flushing address => some ((s.flush_local i address).goto i (.waiting address))
  | .waiting address =>
    if s.acknowledgments < s.required_acknowledgments then some s else some (s.goto i (.unlocking address))
  | .unlocking address => some ({s with locked := false}.goto i (.restoring address))
  | .restoring address => some (s.put i {s.cpu i with interrupts := (s.cpu i).enabled, phase := .returned address})
  | .returned _ => some (s.goto i .idle)

-- The turns of the two spin loops that leave everything as it was.
def Spins (s : State) (i : Nat) : Bool :=
  match (s.cpu i).phase with
  | .locking _ _ => s.locked
  | .waiting _ => decide (s.acknowledgments < s.required_acknowledgments)
  | _ => false

-- isr_handle_local_apic_tlb_shootdown
def State.handle (s : State) (i : Nat) (ipi : Ipi) : State :=
  let s := s.flush_local i s.virtual_address
  {s with ipis := s.ipis.erase ipi, acknowledgments := s.acknowledgments+1, acked := ipi.call :: s.acked}

-- A CPU comes online in one step, or in the order of ap_main.
inductive Bringup where
  | whole
  | stepwise
deriving DecidableEq, Repr

def State.startUp (m : Machine) (s : State) (i : Nat) : Bringup → Option State
  | .whole =>
    if i < m.maxCpus ∧ (s.cpu i).stage = .offline then
      some (s.put i {s.cpu i with stage := .running, lapic_id := m.apicId i, interrupts := true})
    else none
  | .stepwise =>
    if i < m.maxCpus ∧ (s.cpu i).stage ≠ .running then
      let stage := (s.cpu i).stage.next
      some (s.put i {s.cpu i with
        stage := stage,
        lapic_id := if stage = .cpuLocal then m.apicId i else (s.cpu i).lapic_id,
        interrupts := stage = .running})
    else none

inductive Action where
  | call (i address : Nat)
  | advance (i : Nat)
  | handle (i : Nat) (ipi : Ipi)
  | startUp (i : Nat)
deriving DecidableEq, Repr

def next (m : Machine) (bringup : Bringup) (s : State) : Action → Option State
  | .call i address =>
    if (s.cpu i).stage = .running ∧ (s.cpu i).phase = .idle then
      some {s.put i {s.cpu i with phase := .countingOnline address 0 0, call := s.calls, sent := []} with
        calls := s.calls+1, since := Function.update s.since i []}
    else none
  | .advance i => advance m s i
  | .handle i ipi => if (s.cpu i).interrupts ∧ ipi ∈ s.ipis ∧ ipi.target = i then some (s.handle i ipi) else none
  | .startUp i => s.startUp m i bringup

def Step (m : Machine) (bringup : Bringup) (s : State) (action : Action) (t : State) : Prop :=
  next m bringup s action = some t

-- What one step of advance can do.
inductive Advance (m : Machine) (s : State) (i : Nat) : State → Prop where
  | countOnline : (s.cpu i).phase = .countingOnline address index count → index < m.maxCpus →
      Advance m s i (s.goto i (.countingOnline address (index+1) count'))
  | countedOnline : (s.cpu i).phase = .countingOnline address index count →
      Advance m s i (s.goto i (.countingOthers address count 0 0))
  | countOthers : (s.cpu i).phase = .countingOthers address online index count → index < m.maxCpus →
      Advance m s i (s.goto i (.countingOthers address online (index+1)
        (if index = i ∨ s.cpus_online index = false then count else count+1)))
  | countedOthers : (s.cpu i).phase = .countingOthers address online index count → m.maxCpus ≤ index →
      Advance m s i (s.goto i (.counted address online count))
  | alone : (s.cpu i).phase = .counted address online required → online ≤ 1 →
      Advance m s i ((s.flush_local i address).goto i (.returned address))
  | disable : (s.cpu i).phase = .counted address online required → 1 < online →
      Advance m s i (s.put i {s.cpu i with enabled := (s.cpu i).interrupts, interrupts := false,
                                           phase := .locking address required})
  | spin : (s.cpu i).phase = .locking address required → s.locked = true → Advance m s i s
  | take : (s.cpu i).phase = .locking address required → s.locked = false →
      Advance m s i ({s with locked := true}.goto i (.holding address required))
  | nobody : (s.cpu i).phase = .holding address 0 →
      Advance m s i ((s.flush_local i address).goto i (.unlocking address))
  | reset : (s.cpu i).phase = .holding address required →
      Advance m s i ({s with acknowledgments := 0, acked := []}.goto i (.requiring address required))
  | require : (s.cpu i).phase = .requiring address required →
      Advance m s i ({s with required_acknowledgments := required}.goto i (.addressing address required))
  | publish : (s.cpu i).phase = .addressing address required →
      Advance m s i ({s with virtual_address := address}.goto i (.sending address 0))
  | skip : (s.cpu i).phase = .sending address index → index < m.maxCpus →
      index = i ∨ s.cpus_online index = false → Advance m s i (s.goto i (.sending address (index+1)))
  | send : (s.cpu i).phase = .sending address index → index < m.maxCpus → index ≠ i →
      s.cpus_online index = true →
      Advance m s i (((s.send m i index).recordSent i index).goto i (.sending address (index+1)))
  | sent : (s.cpu i).phase = .sending address index → m.maxCpus ≤ index →
      Advance m s i (s.goto i (.flushing address))
  | flush : (s.cpu i).phase = .flushing address →
      Advance m s i ((s.flush_local i address).goto i (.waiting address))
  | await : (s.cpu i).phase = .waiting address → s.acknowledgments < s.required_acknowledgments →
      Advance m s i s
  | acknowledged : (s.cpu i).phase = .waiting address → s.required_acknowledgments ≤ s.acknowledgments →
      Advance m s i (s.goto i (.unlocking address))
  | unlock : (s.cpu i).phase = .unlocking address →
      Advance m s i ({s with locked := false}.goto i (.restoring address))
  | restore : (s.cpu i).phase = .restoring address →
      Advance m s i (s.put i {s.cpu i with interrupts := (s.cpu i).enabled, phase := .returned address})
  | leave : (s.cpu i).phase = .returned address → Advance m s i (s.goto i .idle)

theorem advance_cases (moved : advance m s i = some t) : Advance m s i t := by
  unfold advance at moved
  cases here : (s.cpu i).phase with
  | idle => simp [here] at moved
  | countingOnline address index count =>
      simp only [here] at moved
      split at moved
      · cases moved; exact .countOnline here ‹_›
      · cases moved; exact .countedOnline here
  | countingOthers address online index count =>
      simp only [here] at moved
      split at moved
      · cases moved; exact .countOthers here ‹_›
      · cases moved; exact .countedOthers here (Nat.le_of_not_lt ‹_›)
  | counted address online required =>
      simp only [here] at moved
      split at moved
      · cases moved; exact .alone here ‹_›
      · cases moved; exact .disable here (Nat.lt_of_not_le ‹_›)
  | locking address required =>
      simp only [here] at moved
      split at moved
      · cases moved; exact .spin here ‹_›
      · cases moved; exact .take here (by simpa using ‹¬ s.locked = true›)
  | holding address required =>
      simp only [here] at moved
      split at moved
      · rename_i zero
        cases zero
        cases moved; exact .nobody here
      · cases moved; exact .reset here
  | requiring address required => simp only [here] at moved; cases moved; exact .require here
  | addressing address required => simp only [here] at moved; cases moved; exact .publish here
  | sending address index =>
      simp only [here] at moved
      split at moved
      · rename_i more
        split at moved
        · cases moved; exact .skip here more ‹_›
        · rename_i sends
          simp only [not_or,Bool.not_eq_false] at sends
          cases moved; exact .send here more sends.1 sends.2
      · cases moved; exact .sent here (Nat.le_of_not_lt ‹_›)
  | flushing address => simp only [here] at moved; cases moved; exact .flush here
  | waiting address =>
      simp only [here] at moved
      split at moved
      · cases moved; exact .await here ‹_›
      · cases moved; exact .acknowledged here (Nat.le_of_not_lt ‹_›)
  | unlocking address => simp only [here] at moved; cases moved; exact .unlock here
  | restoring address => simp only [here] at moved; cases moved; exact .restore here
  | returned address => simp only [here] at moved; cases moved; exact .leave here

end TlbShootdown
