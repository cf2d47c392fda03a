import Mathlib.Data.List.Infix
import Gameos.AllocatorContract
import Gameos.TransitionRuns

-- gameos/application_processor.hh and gameos/smp_trampoline.S: the bootstrap
-- processor starts the others one after the other through one set of slots.
namespace ProcessorStartup
open AllocatorTypes AllocatorCalls AllocatorContract TransitionRuns

def MAX_CPUS : Nat := 64
def AP_STACK_SIZE : Nat := 64 * 1024
def AP_STACK_ALIGNMENT : Nat := 16

structure CPU_Info where
  apic_id : UInt32
  enabled : Bool
  is_bsp : Bool
deriving DecidableEq, Repr

-- push_cpu drops what the bounded array has no place for.
structure MADT_Info where
  cpus : List CPU_Info
  bounded : cpus.length ≤ MAX_CPUS

inductive Breadcrumb_Stage where
  | SMP_ENTRY | SMP_GDTR | SMP_PE | SMP_PM32 | SMP_CR3 | SMP_LME | SMP_PG | SMP_LM64 | SMP_STACK | SMP_GS | SMP_ENTRY64
deriving DecidableEq, Repr

-- @enum_values(Breadcrumb_Stage)
def stages : List Breadcrumb_Stage :=
  [.SMP_ENTRY,.SMP_GDTR,.SMP_PE,.SMP_PM32,.SMP_CR3,.SMP_LME,.SMP_PG,.SMP_LM64,.SMP_STACK,.SMP_GS,.SMP_ENTRY64]

-- The instructions of the trampoline that touch the slots or the breadcrumbs.
inductive Instruction where
  | breadcrumb (stage : Breadcrumb_Stage)
  | load_stack | align_stack | load_core_info | load_cpu_index | call_entry
deriving DecidableEq, Repr

def smp_trampoline : List Instruction :=
  [.breadcrumb .SMP_ENTRY,.breadcrumb .SMP_GDTR,.breadcrumb .SMP_PE,.breadcrumb .SMP_PM32,.breadcrumb .SMP_CR3,
    .breadcrumb .SMP_LME,.breadcrumb .SMP_PG,.breadcrumb .SMP_LM64,.load_stack,.align_stack,.breadcrumb .SMP_STACK,
    .load_core_info,.breadcrumb .SMP_GS,.load_cpu_index,.breadcrumb .SMP_ENTRY64,.call_entry]

structure Registers where
  rsp : Nat
  gs_base : Nat
  edi : Nat
deriving DecidableEq, Repr

structure Mailbox where
  stack : Nat
  core_info : Nat
  cpu_index : Nat
  breadcrumb : Breadcrumb_Stage → Bool

-- A processor other than the bootstrap one. It starts at a start-up IPI that
-- finds it waiting for one; any other it ignores.
inductive Processor where
  | off
  | waiting
  | trampoline (remaining : List Instruction) (registers : Registers)
  | ap_main (registers : Registers) (online : Bool)
deriving DecidableEq, Repr

-- Where the bootstrap processor is in the body of initialize_aps' loop.
inductive Body where
  | clear (left : List Breadcrumb_Stage)
  | set_up_a_new_stack
  | set_cpu_index
  | copy_pointer_to_core_info
  | init
  | start_up (second : Bool)
  | wait
  | check (left : List Breadcrumb_Stage)
deriving DecidableEq, Repr

inductive Phase where
  | loop (left : List CPU_Info)
  | body (cpu : CPU_Info) (left : List CPU_Info) (at_step : Body)
  -- a failed assertion; a reset by its own INIT; the end of the loop
  | halted
  | reset
  | finished
deriving DecidableEq, Repr

-- What the bootstrap processor prepares for one of the others.
structure Prepared where
  apic_id : UInt32
  memory : Nat
  core_info : Nat
  cpu_index : Nat
deriving DecidableEq, Repr

def Prepared.stack_top (p : Prepared) : Nat := p.memory + AP_STACK_SIZE
def Prepared.block (p : Prepared) : Block := ⟨p.memory,AP_STACK_SIZE⟩
def Prepared.registers (p : Prepared) : Registers := ⟨p.stack_top,p.core_info,p.cpu_index⟩

-- What the kernel stands on: the current allocator, the core infos, which lie
-- below 4 GiB as the trampoline needs it, and the stack the boot code set up.
structure Platform (σ : Type) where
  allocator : Allocator σ
  live : σ → List Block
  contract : Contract allocator live
  core_infos : Nat
  core_info_size : Nat
  low : core_infos + MAX_CPUS * core_info_size ≤ 4294967296
  sized : 0 < core_info_size
  boot_stack : Block
  reserved : ∀ heap, ∀ block ∈ live heap, Apart boot_stack block

structure State (σ : Type) where
  bsp : Phase
  next_cpu_index : Nat
  mailbox : Mailbox
  cpus_online : Nat → Bool
  processors : UInt32 → Processor
  heap : σ
  prepared : List Prepared

def startable (cpu : CPU_Info) : Bool := cpu.enabled && !cpu.is_bsp

-- A physical destination of 0xFF is a broadcast.
def addressed (destination id : UInt32) : Bool := destination == id || destination == 255

def update [DecidableEq α] (f : α → β) (a : α) (b : β) : α → β := fun x => if x = a then b else f x

section Steps
variable {σ : Type} (platform : Platform σ)

def Platform.core_info (index : Nat) : Nat := platform.core_infos + index * platform.core_info_size

-- lapic::send_inter_processor_interrupt with INIT_ASSERT and with SIPI.
def receive_init (_ : Processor) : Processor := .waiting

def receive_start_up : Processor → Processor
  | .waiting => .trampoline smp_trampoline ⟨0,0,0⟩
  | processor => processor

def send_init (s : State σ) (cpu : CPU_Info) (left : List CPU_Info) : State σ :=
  if cpu.apic_id ≤ 255 then
    {s with
      processors := fun id => if addressed cpu.apic_id id then receive_init (s.processors id) else s.processors id
      bsp := if cpu.apic_id = 255 then .reset else .body cpu left (.start_up false)}
  else {s with bsp := .halted}

def send_start_up (s : State σ) (cpu : CPU_Info) (next : Phase) : State σ :=
  if cpu.apic_id ≤ 255 then
    {s with
      processors := fun id => if addressed cpu.apic_id id then receive_start_up (s.processors id) else s.processors id
      bsp := next}
  else {s with bsp := .halted}

def set_up_a_new_stack (s : State σ) (cpu : CPU_Info) (left : List CPU_Info) : Option (State σ) :=
  match platform.allocator.alloc AP_STACK_SIZE AP_STACK_ALIGNMENT s.heap with
  | none => none
  | some (result,heap) =>
    if result.error = .none then
      some {s with
        heap := heap
        mailbox := {s.mailbox with stack := result.memory + AP_STACK_SIZE}
        prepared := s.prepared ++ [⟨cpu.apic_id,result.memory,platform.core_info s.next_cpu_index,s.next_cpu_index⟩]
        bsp := .body cpu left .set_cpu_index}
    else some {s with heap := heap, bsp := .halted}

-- One step of the bootstrap processor. It leaves the wait when it sees the
-- other online or when its retries are used up.
def initialize_aps (s : State σ) : Option (State σ) :=
  match s.bsp with
  | .loop [] => some {s with bsp := .finished}
  | .loop (cpu :: left) =>
    if !cpu.enabled || cpu.is_bsp then some {s with bsp := .loop left}
    else some {s with bsp := .body cpu left (.clear stages)}
  | .body cpu left (.clear (stage :: more)) =>
    some {s with
      mailbox := {s.mailbox with breadcrumb := update s.mailbox.breadcrumb stage false}
      bsp := .body cpu left (.clear more)}
  | .body cpu left (.clear []) => some {s with bsp := .body cpu left .set_up_a_new_stack}
  | .body cpu left .set_up_a_new_stack => set_up_a_new_stack platform s cpu left
  | .body cpu left .set_cpu_index =>
    some {s with
      mailbox := {s.mailbox with cpu_index := s.next_cpu_index}
      bsp := .body cpu left .copy_pointer_to_core_info}
  | .body cpu left .copy_pointer_to_core_info =>
    some {s with
      mailbox := {s.mailbox with core_info := platform.core_info s.next_cpu_index}
      bsp := .body cpu left .init}
  | .body cpu left .init => some (send_init s cpu left)
  | .body cpu left (.start_up false) => some (send_start_up s cpu (.body cpu left (.start_up true)))
  | .body cpu left (.start_up true) => some (send_start_up s cpu (.body cpu left .wait))
  | .body cpu left .wait =>
    if s.cpus_online s.next_cpu_index then some {s with bsp := .body cpu left (.check stages)} else none
  | .body cpu left (.check (stage :: more)) =>
    if s.mailbox.breadcrumb stage then some {s with bsp := .body cpu left (.check more)}
    else some {s with bsp := .halted}
  | .body _ left (.check []) =>
    some {s with bsp := .loop left, next_cpu_index := (s.next_cpu_index + 1) % 4294967296}
  | .halted | .reset | .finished => none

def time_out (s : State σ) : Option (State σ) :=
  match s.bsp with
  | .body cpu left .wait => some {s with bsp := .body cpu left (.check stages)}
  | _ => none

-- One instruction of a processor that has been started.
def execute (instruction : Instruction) (remaining : List Instruction) (registers : Registers) (mailbox : Mailbox) :
    Processor × Mailbox :=
  match instruction with
  | .breadcrumb stage =>
    (.trampoline remaining registers,{mailbox with breadcrumb := update mailbox.breadcrumb stage true})
  | .load_stack => (.trampoline remaining {registers with rsp := mailbox.stack},mailbox)
  | .align_stack =>
    (.trampoline remaining {registers with rsp := registers.rsp / AP_STACK_ALIGNMENT * AP_STACK_ALIGNMENT},mailbox)
  | .load_core_info => (.trampoline remaining {registers with gs_base := mailbox.core_info % 4294967296},mailbox)
  | .load_cpu_index => (.trampoline remaining {registers with edi := mailbox.cpu_index},mailbox)
  | .call_entry => (.ap_main registers false,mailbox)

def proceed (s : State σ) (id : UInt32) : Option (State σ) :=
  match s.processors id with
  | .trampoline (instruction :: remaining) registers =>
    let (processor,mailbox) := execute instruction remaining registers s.mailbox
    some {s with processors := update s.processors id processor, mailbox := mailbox}
  | .ap_main registers false =>
    some {s with
      processors := update s.processors id (.ap_main registers true)
      cpus_online := update s.cpus_online registers.edi true}
  | _ => none

-- Other use of the allocator leaves the stacks alone.
inductive Action (σ : Type) where
  | bsp
  | time_out
  | processor (id : UInt32)
  | others (heap : σ)

inductive Step : State σ → Action σ → State σ → Prop where
  | bsp : initialize_aps platform s = some t → Step s .bsp t
  | time_out : time_out s = some t → Step s .time_out t
  | processor : proceed s i = some t → Step s (.processor i) t
  | others : (∀ p ∈ s.prepared, p.block ∈ platform.live heap) → Step s (.others heap) {s with heap := heap}

-- The slots and breadcrumbs hold anything at the start.
def start (madt : MADT_Info) (mailbox : Mailbox) (heap : σ) : State σ where
  bsp := .loop madt.cpus
  next_cpu_index := 1
  mailbox := mailbox
  cpus_online := fun index => index == 0
  processors := fun _ => .off
  heap := heap
  prepared := []

end Steps

def Processor.remaining : Processor → List Instruction
  | .off | .waiting => smp_trampoline
  | .trampoline remaining _ => remaining
  | .ap_main _ _ => []

def Processor.registers : Processor → Registers
  | .off | .waiting => ⟨0,0,0⟩
  | .trampoline _ registers | .ap_main registers _ => registers

-- The processor that the slots are written for, from its INIT on. What it has
-- read is what was prepared, and a breadcrumb that is seen lies behind it.
structure Follows (p : Prepared) (mailbox : Mailbox) (processor : Processor) : Prop where
  stack : mailbox.stack = p.stack_top
  core_info : mailbox.core_info = p.core_info
  cpu_index : mailbox.cpu_index = p.cpu_index
  suffix : processor.remaining <:+ smp_trampoline
  running : ∀ registers, processor ≠ .trampoline [] registers
  marks : ∀ stage, mailbox.breadcrumb stage = true → Instruction.breadcrumb stage ∉ processor.remaining
  rsp : .load_stack ∉ processor.remaining → processor.registers.rsp = p.stack_top
  gs_base : .load_core_info ∉ processor.remaining → processor.registers.gs_base = p.core_info
  edi : .load_cpu_index ∉ processor.remaining → processor.registers.edi = p.cpu_index

-- One that has read the last slot.
def Arrived (p : Prepared) (processor : Processor) : Prop :=
  processor = .trampoline [.call_entry] p.registers ∨ ∃ online, processor = .ap_main p.registers online

theorem trampoline_end (suffix : remaining <:+ smp_trampoline) (behind : Instruction.breadcrumb .SMP_ENTRY64 ∉ remaining) :
    remaining = [] ∨ remaining = [.call_entry] := by
  have all : ∀ l ∈ smp_trampoline.tails, Instruction.breadcrumb .SMP_ENTRY64 ∉ l → l = [] ∨ l = [.call_entry] := by decide
  exact all remaining ((List.mem_tails _ _).mpr suffix) behind

theorem follows_arrived (follows : Follows p mailbox processor) (seen : mailbox.breadcrumb .SMP_ENTRY64 = true) :
    Arrived p processor := by
  have ends := trampoline_end follows.suffix (follows.marks _ seen)
  have loaded (instruction : Instruction) (other : instruction ≠ .call_entry) : instruction ∉ processor.remaining := by
    rcases ends with none | last
    · rw [none]
      exact List.not_mem_nil
    · rw [last]
      simpa using other
  have rsp := follows.rsp (loaded _ (by decide))
  have gs_base := follows.gs_base (loaded _ (by decide))
  have edi := follows.edi (loaded _ (by decide))
  have registers : processor.registers = p.registers := by
    unfold Prepared.registers
    rw [← rsp,← gs_base,← edi]
  cases processor with
  | off => exact absurd ends (by decide)
  | waiting => exact absurd ends (by decide)
  | trampoline remaining read =>
      cases registers
      rcases ends with none | last
      · cases none
        exact absurd rfl (follows.running _)
      · cases last
        exact .inl rfl
  | ap_main read online =>
      cases registers
      exact .inr ⟨online,rfl⟩

-- A step of one of the processors: what it becomes, and the slots.
inductive Moves (mailbox : Mailbox) : Processor → Processor → Mailbox → Prop where
  | executes : Moves mailbox (.trampoline (instruction :: remaining) registers)
      (execute instruction remaining registers mailbox).1 (execute instruction remaining registers mailbox).2
  | online : Moves mailbox (.ap_main registers false) (.ap_main registers true) mailbox

theorem proceed_cases (moved : proceed s i = some t) : ∃ processor mailbox online,
    Moves s.mailbox (s.processors i) processor mailbox ∧
      t = {s with processors := update s.processors i processor, mailbox := mailbox, cpus_online := online} := by
  unfold proceed at moved
  split at moved
  · rename_i instruction remaining registers here
    cases moved
    rw [here]
    exact ⟨_,_,s.cpus_online,.executes,rfl⟩
  · rename_i registers here
    cases moved
    rw [here]
    exact ⟨_,s.mailbox,_,.online,rfl⟩
  · cases moved

theorem arrived_moves (arrived : Arrived p processor) (moves : Moves mailbox processor after mailbox') :
    Arrived p after ∧ mailbox' = mailbox := by
  rcases arrived with rfl | ⟨online,rfl⟩
  · cases moves
    exact ⟨.inr ⟨false,rfl⟩,rfl⟩
  · cases moves
    exact ⟨.inr ⟨true,rfl⟩,rfl⟩

theorem trampoline_nodup : smp_trampoline.Nodup := by decide

theorem trampoline_last (suffix : [instruction] <:+ smp_trampoline) : instruction = .call_entry := by
  have all : ∀ l ∈ smp_trampoline.tails, l.length = 1 → l = [.call_entry] := by decide
  exact (List.cons.inj (all _ ((List.mem_tails _ _).mpr suffix) rfl)).1

-- What an instruction has to leave behind, unless it is the last one.
theorem Follows.advance {read : Registers} (follows : Follows p mailbox (.trampoline (instruction :: remaining) registers))
    (more : instruction ≠ .call_entry)
    (slots : mailbox'.stack = mailbox.stack ∧ mailbox'.core_info = mailbox.core_info ∧ mailbox'.cpu_index = mailbox.cpu_index)
    (marks : ∀ stage, mailbox'.breadcrumb stage = true → Instruction.breadcrumb stage ∉ remaining)
    (rsp : .load_stack ∉ remaining → read.rsp = p.stack_top)
    (gs_base : .load_core_info ∉ remaining → read.gs_base = p.core_info)
    (edi : .load_cpu_index ∉ remaining → read.edi = p.cpu_index) : Follows p mailbox' (.trampoline remaining read) := by
  have suffix : instruction :: remaining <:+ smp_trampoline := follows.suffix
  refine ⟨slots.1.trans follows.stack,slots.2.1.trans follows.core_info,slots.2.2.trans follows.cpu_index,
    (List.suffix_cons _ _).trans suffix,?_,marks,rsp,gs_base,edi⟩
  intro read same
  cases same
  exact more (trampoline_last suffix)

theorem follows_moves (follows : Follows p mailbox processor) (aligned : AP_STACK_ALIGNMENT ∣ p.stack_top)
    (low : p.core_info < 4294967296) (moves : Moves mailbox processor after mailbox') :
    Follows p mailbox' after := by
  cases moves with
  | online => exact ⟨follows.stack,follows.core_info,follows.cpu_index,follows.suffix,(fun _ same => nomatch same),
      follows.marks,follows.rsp,follows.gs_base,follows.edi⟩
  | @executes instruction remaining registers =>
      have suffix : instruction :: remaining <:+ smp_trampoline := follows.suffix
      have once : instruction ∉ remaining := (List.nodup_cons.mp (trampoline_nodup.sublist suffix.sublist)).1
      have before {other : Instruction} (different : other ≠ instruction) (read : other ∉ remaining) :
          other ∉ instruction :: remaining := List.not_mem_cons_of_ne_of_not_mem different read
      have marks (stage : Breadcrumb_Stage) (seen : mailbox.breadcrumb stage = true) :
          Instruction.breadcrumb stage ∉ remaining :=
        fun later => follows.marks stage seen (List.mem_cons_of_mem _ later)
      have rsp (different : .load_stack ≠ instruction) (read : .load_stack ∉ remaining) : registers.rsp = p.stack_top :=
        follows.rsp (before different read)
      have gs_base (different : .load_core_info ≠ instruction) (read : .load_core_info ∉ remaining) :
          registers.gs_base = p.core_info := follows.gs_base (before different read)
      have edi (different : .load_cpu_index ≠ instruction) (read : .load_cpu_index ∉ remaining) :
          registers.edi = p.cpu_index := follows.edi (before different read)
      cases instruction with
      | breadcrumb stage =>
          refine follows.advance nofun ⟨rfl,rfl,rfl⟩ ?_ (rsp nofun) (gs_base nofun) (edi nofun)
          intro other seen
          by_cases same : other = stage
          · rw [same]
            exact once
          · exact marks other (by simpa [execute,update,same] using seen)
      | load_stack => exact follows.advance nofun ⟨rfl,rfl,rfl⟩ marks (fun _ => follows.stack) (gs_base nofun) (edi nofun)
      | align_stack =>
          refine follows.advance nofun ⟨rfl,rfl,rfl⟩ marks ?_ (gs_base nofun) (edi nofun)
          intro read
          have loaded := rsp nofun read
          dsimp only
          rw [loaded]
          exact Nat.div_mul_cancel aligned
      | load_core_info =>
          refine follows.advance nofun ⟨rfl,rfl,rfl⟩ marks (rsp nofun) ?_ (edi nofun)
          intro _
          dsimp only
          rw [follows.core_info]
          exact Nat.mod_eq_of_lt low
      | load_cpu_index =>
          exact follows.advance nofun ⟨rfl,rfl,rfl⟩ marks (rsp nofun) (gs_base nofun) (fun _ => follows.cpu_index)
      | call_entry =>
          have loaded (other : Instruction) (different : other ≠ .call_entry) : other ∉ remaining := by
            have all : ∀ l ∈ smp_trampoline.tails, l.head? = some .call_entry → l.tail = [] := by decide
            have empty := all _ ((List.mem_tails _ _).mpr suffix) rfl
            rw [List.tail_cons] at empty
            rw [empty]
            exact List.not_mem_nil
          exact ⟨follows.stack,follows.core_info,follows.cpu_index,List.nil_suffix,(fun _ same => nomatch same),
            (fun _ _ => List.not_mem_nil),(fun _ => rsp nofun (loaded _ nofun)),
            (fun _ => gs_base nofun (loaded _ nofun)),fun _ => edi nofun (loaded _ nofun)⟩

end ProcessorStartup
